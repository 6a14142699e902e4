import LeaseCache.Json.Number
import LeaseCache.Json.Text

/-!
# Values that nobody asked for

A member with an unknown name is passed over, but its value must be well formed. There is no limit
on how deep such a value may be nested. `passValue` takes a bound on the number of its own calls;
twice the number of bytes is always enough, since every second call reads a byte.
-/

namespace LeaseCache.Json.Reader

open Digits (isDigit)

/-- Passes over an exponent from its letter on. -/
def passExponent : Reader Unit := do
  advance
  match ← peek with
  | some 0x2B => advance
  | some 0x2D => advance
  | _ => pure ()
  match ← next with
  | none => fail .invalidNumber
  | some d =>
    if isDigit d then
      let _ ← digits
      pure ()
    else fail .invalidNumber

/-- Passes over a fraction from its point on. -/
def passDecimals : Reader Unit := do
  advance
  let ds ← digits
  if ds.isEmpty then failLooking .invalidNumber
  match ← peek with
  | some 0x65 => passExponent
  | some 0x45 => passExponent
  | _ => pure ()

/-- Passes over what may follow the digits of an integer. -/
def passAfterInteger : Reader Unit := do
  match ← peek with
  | some 0x2E => passDecimals
  | some 0x65 => passExponent
  | some 0x45 => passExponent
  | _ => pure ()

/-- Passes over a number after its sign. -/
def passUnsigned : Reader Unit := do
  match ← next with
  | none => fail .invalidNumber
  | some 0x30 =>
    match ← peek with
    | some d => if isDigit d then failLooking .invalidNumber else passAfterInteger
    | none => passAfterInteger
  | some d =>
    if isDigit d then
      let _ ← digits
      passAfterInteger
    else fail .invalidNumber

/-- Passes over a member's key and its colon. -/
def passKey : Reader Unit := do
  match ← peekToken with
  | some 0x22 => advance
  | some _ => failLooking .keyNotText
  | none => failLooking .endInObject
  passTextBody
  colon

mutual

/-- Passes over a value. -/
def passValue : Nat → Reader Unit
  | 0 => fail .endInValue
  | room + 1 => do
    match ← peekValue with
    | 0x6E => advance; word [0x75, 0x6C, 0x6C]
    | 0x74 => advance; word [0x72, 0x75, 0x65]
    | 0x66 => advance; word [0x61, 0x6C, 0x73, 0x65]
    | 0x22 => advance; passTextBody
    | 0x2D => advance; passUnsigned
    | 0x5B =>
      advance
      match ← peekToken with
      | none => failLooking .endInList
      | some 0x5D => advance
      | some _ => passItems room
    | 0x7B =>
      advance
      match ← peekToken with
      | none => failLooking .endInObject
      | some 0x7D => advance
      | some _ => passMembers room
    | b => if isDigit b then passUnsigned else failLooking .expectedValue

/-- Passes over the items of a list up to its end, from one of them on. -/
def passItems : Nat → Reader Unit
  | 0 => fail .endInList
  | room + 1 => do
    passValue room
    match ← peekToken with
    | some 0x2C => advance; passItems room
    | some 0x5D => advance
    | some _ => failLooking .expectedCommaOrBracket
    | none => failLooking .endInList

/-- Passes over the members of an object up to its end, from one of them on. -/
def passMembers : Nat → Reader Unit
  | 0 => fail .endInObject
  | room + 1 => do
    passKey
    passValue room
    match ← peekToken with
    | some 0x2C => advance; passMembers room
    | some 0x7D => advance
    | some _ => failLooking .expectedCommaOrBrace
    | none => failLooking .endInObject

end

/-- Passes over a value of any shape. -/
def ignored : Reader Unit := fun c => passValue (2 * c.rest.length + 2) c

end LeaseCache.Json.Reader
