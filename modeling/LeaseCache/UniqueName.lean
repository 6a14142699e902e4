import LeaseCache.Decimal.Digits
import LeaseCache.Path

/-!
# Unique names

A temporary file has a name in which 36 bytes are made up. Where they come from is left open: a
`UniqueName` is any 36 bytes that can stand in a name, and the files have a source of them. That a
name is a new one is nothing its bytes could tell; where it matters, nothing stands under it yet.
-/

namespace LeaseCache

/-- The made-up part of a name. -/
structure UniqueName where
  bytes : List UInt8
  width : bytes.length = 36
  noSlash : Path.slash ∉ bytes
  noZero : 0 ∉ bytes

namespace UniqueName

/-- The last 36 digits of a number, with zeros in front. -/
def digitsOf (n : Nat) : List UInt8 :=
  (List.replicate 36 (Digits.digit 0) ++ Digits.ofNat n).drop (Digits.ofNat n).length

theorem isDigit_of_mem_digitsOf {n : Nat} {b : UInt8} (h : b ∈ digitsOf n) :
    Digits.isDigit b = true := by
  rcases List.mem_append.1 (List.mem_of_mem_drop h) with hzero | hdigit
  · rw [List.eq_of_mem_replicate hzero]
    rfl
  · exact Digits.isDigit_of_mem_ofNat hdigit

/-- The name that is made of a number. -/
def ofNat (n : Nat) : UniqueName where
  bytes := digitsOf n
  width := by
    rw [digitsOf, List.length_drop, List.length_append, List.length_replicate,
      Nat.add_sub_cancel_right]
  noSlash h := by cases isDigit_of_mem_digitsOf h
  noZero h := by cases isDigit_of_mem_digitsOf h

end UniqueName

end LeaseCache
