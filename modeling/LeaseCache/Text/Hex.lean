/-!
# Hexadecimal

Two lower-case digits for each byte. Main statement: `decode?_encode`, what was written is read
back.
-/

namespace LeaseCache.Hex

/-- The digit with value `n`, for `n` below sixteen. -/
def digit (n : Nat) : UInt8 := if n < 10 then UInt8.ofNat (0x30 + n) else UInt8.ofNat (0x57 + n)

/-- The value of a digit, upper case accepted. -/
def value? (b : UInt8) : Option Nat :=
  let n := b.toNat
  if 0x30 ≤ n && n ≤ 0x39 then some (n - 0x30)
  else if 0x61 ≤ n && n ≤ 0x66 then some (n - 0x57)
  else if 0x41 ≤ n && n ≤ 0x46 then some (n - 0x37)
  else none

theorem value?_digit {n : Nat} (h : n < 16) : value? (digit n) = some n := by
  have all : ∀ m ∈ List.range 16, value? (digit m) = some m := by decide
  exact all n (List.mem_range.mpr h)

/-- The two digits of a byte. -/
def byteDigits (b : UInt8) : List UInt8 := [digit (b.toNat / 16), digit (b.toNat % 16)]

/-- The digits of a byte sequence. -/
def encode (bytes : List UInt8) : List UInt8 := bytes.flatMap byteDigits

@[simp] theorem encode_nil : encode [] = [] := rfl

@[simp] theorem encode_cons (b : UInt8) (bytes : List UInt8) :
    encode (b :: bytes) = digit (b.toNat / 16) :: digit (b.toNat % 16) :: encode bytes := rfl

theorem length_encode (bytes : List UInt8) : (encode bytes).length = 2 * bytes.length := by
  induction bytes with
  | nil => rfl
  | cons b bytes ih =>
    simp only [encode_cons, List.length_cons, ih]
    omega

/-- The bytes that pairs of digits stand for. -/
def decode? : List UInt8 → Option (List UInt8)
  | [] => some []
  | [_] => none
  | h :: l :: rest =>
    match value? h, value? l, decode? rest with
    | some m, some n, some bytes => some (UInt8.ofNat (16 * m + n) :: bytes)
    | _, _, _ => none

/-- Reading returns the bytes that were written. -/
theorem decode?_encode (bytes : List UInt8) : decode? (encode bytes) = some bytes := by
  induction bytes with
  | nil => rfl
  | cons b bytes ih =>
    have hb : b.toNat < 256 := b.toNat_lt
    have hv : UInt8.ofNat (16 * (b.toNat / 16) + b.toNat % 16) = b := by
      rw [Nat.div_add_mod]
      exact UInt8.ofNat_toNat
    simp [decode?, value?_digit (show b.toNat / 16 < 16 by omega),
      value?_digit (show b.toNat % 16 < 16 by omega), ih, hv]

/-- The digits of a byte sequence as a text. -/
def toText (bytes : List UInt8) : String :=
  String.ofList ((encode bytes).map fun b => Char.ofNat b.toNat)

/-- The bytes that a text of digits stands for. -/
def ofText? (s : String) : Option (List UInt8) :=
  decode? (s.toList.map fun c => UInt8.ofNat c.toNat)

end LeaseCache.Hex
