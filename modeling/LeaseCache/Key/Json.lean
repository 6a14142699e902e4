import LeaseCache.Key
import LeaseCache.Json.Typed

/-!
# The written form of a key

A key is written as an object with one member, named for its kind. The name of its entry file is
that text in hexadecimal, so every character of it is safe in a file name, and keys with different
spellings never share a file.
-/

namespace LeaseCache.Key

open LeaseCache.Json (Reader)

/-- The names of the kinds of keys. -/
def kinds : List String := ["Text", "Integer", "Path"]

/-- An object with one member. -/
def tagged (kind : String) (content : List UInt8) : List UInt8 :=
  0x7B :: (Json.Text.write kind ++ [0x3A] ++ content ++ [0x7D])

/-- The text of a key; a path that is no text has none. -/
def toJson : Key → Except Json.Failure (List UInt8)
  | .text s => .ok (tagged "Text" (Json.Text.write s))
  | .integer n => .ok (tagged "Integer" (Digits.ofInt n.toInt))
  | .path p =>
    match p.toString? with
    | some s => .ok (tagged "Path" (Json.Text.write s))
    | none => .error ⟨.pathNotText, none⟩

/-- Reads what a key of a kind holds. -/
def contentReader (kind : String) : Reader Key :=
  if kind = "Text" then Key.text <$> Reader.text
  else if kind = "Integer" then do
    let n ← Reader.integer .int64
    return .integer (Int64.ofInt n)
  else do
    let s ← Reader.textOf "path string"
    return .path (Path.ofString s)

/-- Reads a key. -/
def reader : Reader Key :=
  Reader.choice kinds contentReader fun _ => Reader.bareVariant "newtype variant"

/-- The key that a text is. -/
def ofJson (bytes : List UInt8) : Except Json.Failure Key := Reader.document reader bytes false

/-- What follows the hexadecimal digits in the name of an entry file. -/
def entryExtension : List UInt8 := Utf8.ofString ".entry"

/-- The name of the file for a key. -/
def fileName (k : Key) : Except Json.Failure (List UInt8) :=
  k.toJson.map fun json => Hex.encode json ++ entryExtension

end LeaseCache.Key
