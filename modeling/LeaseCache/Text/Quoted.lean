import LeaseCache.Text.Printable

/-!
# Texts in quotes

How a text stands inside an error message: in double quotes, with the usual escapes for quote,
backslash and the common controls, and every other character that cannot be shown as its number.
-/

namespace LeaseCache.Quoted

/-- A number in lower-case hexadecimal. -/
def hexText (n : Nat) : String := String.ofList (Nat.toDigits 16 n)

/-- One character inside the quotes. -/
def escape (c : Char) : String :=
  if c = '"' then "\\\""
  else if c = '\\' then "\\\\"
  else if c = '\n' then "\\n"
  else if c = '\r' then "\\r"
  else if c = '\t' then "\\t"
  else if c.toNat = 0 then "\\0"
  else if Printable.isShown c then String.singleton c
  else "\\u\x7b" ++ hexText c.toNat ++ "\x7d"

/-- A text in quotes. -/
def render (s : String) : String := "\"" ++ String.join (s.toList.map escape) ++ "\""

end LeaseCache.Quoted
