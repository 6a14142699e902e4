import LeaseCache.Json.Reader

/-!
# JSON numbers

A number without fraction and exponent is an integer as long as its size fits 64 bits; `-0` is not
one. Every other number is a fraction: its first digits, as many as fit 64 bits, are scaled by a
power of ten.
-/

namespace LeaseCache.Json

open Digits (isDigit digitValue)

/-- A number. -/
inductive Number where
  | natural (value : Nat)
  /-- An integer below zero. -/
  | negative (value : Int)
  | real (value : Float)

/-- A number as what was found in a place. -/
def Number.found : Number → Found
  | .natural n => .natural n
  | .negative n => .negative n
  | .real x => .real x

/-- The largest size kept exactly. -/
def maxSignificand : Nat := 0xFFFFFFFFFFFFFFFF

/-- The first digits of a number: their value, and how many digits before the point follow them. -/
structure Significand where
  value : Nat
  dropped : Nat

/-- One more digit before the point. -/
def Significand.push (s : Significand) (d : UInt8) : Significand :=
  if s.dropped = 0 && s.value * 10 + digitValue d ≤ maxSignificand then
    ⟨s.value * 10 + digitValue d, 0⟩
  else ⟨s.value, s.dropped + 1⟩

/-- The digits after the point that still fit: the value with them, and how many they are. -/
def appendFraction (value : Nat) : List UInt8 → Nat × Nat
  | [] => (value, 0)
  | d :: ds =>
    if value * 10 + digitValue d ≤ maxSignificand then
      let (v, places) := appendFraction (value * 10 + digitValue d) ds
      (v, places + 1)
    else (value, 0)

/-- A power of ten. -/
def powerOfTen (n : Nat) : Float := Float.ofScientific 1 false n

/-- A significand scaled by a power of ten; none if the result is too large. -/
def scaled? (value : Nat) (exponent : Int) : Option Float :=
  let x := value.toUInt64.toFloat
  if 0 ≤ exponent then
    if exponent ≤ 308 then
      let y := x * powerOfTen exponent.toNat
      if y.isInf then none else some y
    else if x == 0 then some x
    else none
  else if -308 ≤ exponent then some (x / powerOfTen (-exponent).toNat)
  else if -616 ≤ exponent then some (x / powerOfTen 308 / powerOfTen (-exponent - 308).toNat)
  else some 0

/-- The first exponent that is too large. -/
def exponentLimit : Nat := 0x80000000

/-- The largest size of an integer below zero. -/
def maxNegative : Nat := 0x8000000000000000

/-- The digits of an exponent: their value and what follows, or what follows the first digit with
which the value no longer fits. -/
def exponentDigits : Nat → List UInt8 → Except (List UInt8) (Nat × List UInt8)
  | e, [] => .ok (e, [])
  | e, d :: rest =>
    if isDigit d then
      if exponentLimit ≤ e * 10 + digitValue d then .error rest
      else exponentDigits (e * 10 + digitValue d) rest
    else .ok (e, d :: rest)

namespace Reader

/-- Reads digits, as many as there are, and looks at what follows. -/
def digits : Reader (List UInt8) := fun c =>
  match peek { c with rest := c.rest.dropWhile isDigit } with
  | (_, c') => (.ok (c.rest.takeWhile isDigit), c')

/-- The fraction with given digits and exponent. -/
def fraction (positive : Bool) (value : Nat) (exponent : Int) : Reader Float :=
  match scaled? value exponent with
  | some x => pure (if positive then x else -x)
  | none => fail .numberOutOfRange

/-- Reads an exponent from its first digit on. -/
def exponentFrom (positive : Bool) (value : Nat) (scale : Int) (raises : Bool) (first : Nat) :
    Reader Float := fun c =>
  match exponentDigits first c.rest with
  | .ok (e, rest) =>
    (do
      let _ ← peek
      fraction positive value (if raises then scale + e else scale - e) : Reader Float)
      { c with rest := rest, ahead := false }
  | .error rest =>
    (do
      if value ≠ 0 && raises then fail .numberOutOfRange
      else
        let _ ← digits
        pure (if positive then 0 else -0) : Reader Float) { c with rest := rest, ahead := false }

/-- Reads an exponent from its letter on. -/
def exponent (positive : Bool) (value : Nat) (scale : Int) : Reader Float := do
  advance
  let raises ← do
    match ← peek with
    | some 0x2B => advance; pure true
    | some 0x2D => advance; pure false
    | _ => pure true
  match ← next with
  | none => fail .endInValue
  | some d =>
    if isDigit d then exponentFrom positive value scale raises (digitValue d)
    else fail .invalidNumber

/-- Reads what may follow the digits of a fraction. -/
def afterFraction (positive : Bool) (value : Nat) (scale : Int) : Reader Float := do
  match ← peek with
  | some 0x65 => exponent positive value scale
  | some 0x45 => exponent positive value scale
  | _ => fraction positive value scale

/-- Reads a fraction from its point on. -/
def decimals (positive : Bool) (s : Significand) : Reader Float := do
  advance
  let ds ← digits
  if ds.isEmpty then
    match ← peek with
    | some _ => failLooking .invalidNumber
    | none => failLooking .endInValue
  else
    let (value, places) := appendFraction s.value ds
    afterFraction positive value (s.dropped - places)

/-- Reads what may follow the digits of an integer. -/
def afterInteger (positive : Bool) (s : Significand) : Reader Number := do
  match ← peek with
  | some 0x2E => Number.real <$> decimals positive s
  | some 0x65 => Number.real <$> exponent positive s.value s.dropped
  | some 0x45 => Number.real <$> exponent positive s.value s.dropped
  | _ =>
    if s.dropped ≠ 0 then Number.real <$> fraction positive s.value s.dropped
    else if positive then pure (.natural s.value)
    else if s.value = 0 || maxNegative < s.value then pure (.real (-s.value.toUInt64.toFloat))
    else pure (.negative (-s.value))

/-- Reads a number after its sign. -/
def unsignedNumber (positive : Bool) : Reader Number := do
  match ← next with
  | none => fail .endInValue
  | some 0x30 =>
    match ← peek with
    | some d => if isDigit d then failLooking .invalidNumber else afterInteger positive ⟨0, 0⟩
    | none => afterInteger positive ⟨0, 0⟩
  | some d =>
    if isDigit d then
      let ds ← digits
      afterInteger positive ((d :: ds).foldl Significand.push ⟨0, 0⟩)
    else fail .invalidNumber

/-- Reads a number that begins with the byte looked at. -/
def number (first : UInt8) : Reader Number :=
  if first = 0x2D then do
    advance
    unsignedNumber false
  else unsignedNumber true

end Reader

end LeaseCache.Json
