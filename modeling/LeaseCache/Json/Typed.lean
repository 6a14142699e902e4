import LeaseCache.IntegerType
import LeaseCache.Json.Skip

/-!
# Reading values of a known shape

Readers for the shapes that the library stores: texts, integers in a range, flags, optional values,
sequences, maps, records and choices. A record may also be given as the sequence of its fields. A
choice is an object with one member, named for the variant, or just the variant's name.

Loops over members and elements take a bound on the number of rounds; the number of bytes left is
always enough, since every round reads one.
-/

namespace LeaseCache.Json.Reader

variable {α σ : Type}

open Digits (isDigit)

/-! ## Scalars -/

/-- Finds out what stands here; brackets are only looked at. -/
def whatIsHere : Reader Found := do
  match ← peek with
  | some 0x6E => advance; word [0x75, 0x6C, 0x6C]; pure .null
  | some 0x74 => advance; word [0x72, 0x75, 0x65]; pure (.flag true)
  | some 0x66 => advance; word [0x61, 0x6C, 0x73, 0x65]; pure (.flag false)
  | some 0x22 => advance; Found.text <$> textBody
  | some 0x5B => pure .sequence
  | some 0x7B => pure .map
  | some b =>
    if isDigit b || b = 0x2D then Number.found <$> number b else failLooking .expectedValue
  | none => failLooking .expectedValue

/-- Refuses what stands here. -/
def wrongKind (expected : String) : Reader α := do
  let found ← whatIsHere
  placed (failUnplaced (.wrongKind found expected))

/-- Reads a text; the wording is what a reader of it expects. -/
def textOf (expected : String) : Reader String := do
  match ← peekValue with
  | 0x22 => advance; textBody
  | _ => wrongKind expected

/-- Reads a text. -/
def text : Reader String := textOf "a string"

/-- Takes a number that is an integer of a type. -/
def integerOf (t : IntegerType) : Number → Reader Int
  | .natural k => if t.Holds k then pure k else failUnplaced (.wrongValue (.natural k) t.name)
  | .negative k => if t.Holds k then pure k else failUnplaced (.wrongValue (.negative k) t.name)
  | .real x => failUnplaced (.wrongKind (.real x) t.name)

/-- Reads an integer of a type. -/
def integer (t : IntegerType) : Reader Int := do
  let b ← peekValue
  if isDigit b || b = 0x2D then placed (do integerOf t (← number b))
  else wrongKind t.name

/-- Reads a flag. -/
def flag : Reader Bool := do
  match ← peekValue with
  | 0x74 => advance; word [0x72, 0x75, 0x65]; pure true
  | 0x66 => advance; word [0x61, 0x6C, 0x73, 0x65]; pure false
  | _ => wrongKind "a boolean"

/-- Reads the value of a variant without content. -/
def nothing : Reader Unit := do
  match ← peekValue with
  | 0x6E => advance; word [0x75, 0x6C, 0x6C]
  | _ => wrongKind "unit"

/-- Reads a value or null. -/
def optional (r : Reader α) : Reader (Option α) := do
  match ← peekToken with
  | some 0x6E => advance; word [0x75, 0x6C, 0x6C]; pure none
  | _ => some <$> r

/-! ## Sequences -/

/-- Looks for another element. -/
def moreElements (first : Bool) : Reader Bool := do
  match ← peekToken with
  | none => failLooking .endInList
  | some 0x5D => pure false
  | some b =>
    if first then pure true
    else if b = 0x2C then
      advance
      match ← peekToken with
      | some 0x5D => failLooking .trailingComma
      | some _ => pure true
      | none => failLooking .endInValue
    else failLooking .expectedCommaOrBracket

/-- Reads another element, if there is one. -/
def element (first : Bool) (r : Reader α) : Reader (Option α) := do
  if ← moreElements first then some <$> r else pure none

/-- Reads the end of a sequence. -/
def endSequence : Reader Unit := do
  match ← peekToken with
  | some 0x5D => advance
  | some 0x2C =>
    advance
    match ← peekToken with
    | some 0x5D => failLooking .trailingComma
    | _ => failLooking .trailingCharacters
  | some _ => failLooking .trailingCharacters
  | none => failLooking .endInList

/-- Reads elements up to the end of their sequence, in so many rounds. -/
def elementsWithin (r : Reader α) : Nat → Bool → Reader (List α)
  | 0, _ => fail .endInList
  | room + 1, first => do
    match ← element first r with
    | none => pure []
    | some a => return a :: (← elementsWithin r room false)

/-- Reads elements up to the end of their sequence. -/
def elements (r : Reader α) : Reader (List α) := fun c =>
  elementsWithin r (c.rest.length + 1) true c

/-- Reads a sequence. -/
def sequence (expected : String) (body : Reader α) : Reader α := do
  match ← peekValue with
  | 0x5B => placed (closedBy (do advance; body) endSequence)
  | _ => wrongKind expected

/-! ## Objects -/

/-- Looks for another member. -/
def moreMembers (first : Bool) : Reader Bool := do
  match ← peekToken with
  | none => failLooking .endInObject
  | some 0x7D => pure false
  | some b =>
    if first then
      if b = 0x22 then pure true else failLooking .keyNotText
    else if b = 0x2C then
      advance
      match ← peekToken with
      | some 0x22 => pure true
      | some 0x7D => failLooking .trailingComma
      | some _ => failLooking .keyNotText
      | none => failLooking .endInValue
    else failLooking .expectedCommaOrBrace

/-- Reads the key of another member, if there is one. -/
def memberKey (first : Bool) : Reader (Option String) := do
  if ← moreMembers first then
    advance
    some <$> textBody
  else pure none

/-- Reads the end of an object. -/
def endObject : Reader Unit := do
  match ← peekToken with
  | some 0x7D => advance
  | some 0x2C => failLooking .trailingComma
  | some _ => failLooking .trailingCharacters
  | none => failLooking .endInObject

/-- Reads members up to the end of their object, in so many rounds; each is added to what the
members before it gave. -/
def membersWithin (add : String → σ → Reader σ) : Nat → Bool → σ → Reader σ
  | 0, _, _ => fail .endInObject
  | room + 1, first, s => do
    match ← memberKey first with
    | none => pure s
    | some key => membersWithin add room false (← add key s)

/-- Reads members up to the end of their object. -/
def members (add : String → σ → Reader σ) (s : σ) : Reader σ := fun c =>
  membersWithin add (c.rest.length + 1) true s c

/-- Reads a map. -/
def map (expected : String) (body : Reader α) : Reader α := do
  match ← peekValue with
  | 0x7B => placed (closedBy (do advance; body) endObject)
  | _ => wrongKind expected

/-- Reads the value of a member. -/
def memberValue (r : Reader α) : Reader α := do
  colon
  r

/-- Reads the value of a field that may be given once. -/
def field (name : String) (seen : Option α) (r : Reader α) : Reader α := do
  if seen.isSome then failUnplaced (.repeatedField name)
  memberValue r

/-- The value of a field that must be given. -/
def required (name : String) (seen : Option α) : Reader α :=
  match seen with
  | some a => pure a
  | none => failUnplaced (.missingField name)

/-- Reads a record, given as an object or as the sequence of its fields. -/
def record (expected : String) (ofSequence ofObject : Reader α) : Reader α := do
  match ← peekValue with
  | 0x5B => placed (closedBy (do advance; ofSequence) endSequence)
  | 0x7B => placed (closedBy (do advance; ofObject) endObject)
  | _ => wrongKind expected

/-- Reads the element of a sequence of fixed length. -/
def position (index : Nat) (expected : String) (r : Reader α) : Reader α := do
  match ← element (index = 0) r with
  | some a => pure a
  | none => failUnplaced (.wrongLength index expected)

/-! ## Choices -/

/-- Reads the name of a variant, its first byte being looked at. -/
def variantName (variants : List String) : Reader String := do
  advance
  let name ← textBody
  if variants.contains name then pure name
  else placed (failUnplaced (.unknownVariant name variants))

/-- Reads the name of a variant in an object. -/
def variantKey (variants : List String) : Reader String := do
  match ← peekToken with
  | some 0x22 => variantName variants
  | some 0x7D => failLooking .expectedValue
  | some _ => failLooking .keyNotText
  | none => failLooking .endInObject

/-- Reads a choice: `content` reads what a variant holds, `bare` is taken for a variant that is only
named. -/
def choice (variants : List String) (content bare : String → Reader α) : Reader α := do
  match ← peekToken with
  | some 0x7B =>
    advance
    let name ← variantKey variants
    colon
    let a ← content name
    match ← peekToken with
    | some 0x7D => advance; pure a
    | some _ => fail .expectedValue
    | none => fail .endInObject
  | some 0x22 => do bare (← variantName variants)
  | some _ => failLooking .expectedValue
  | none => failLooking .endInValue

/-- Refuses a variant that is only named although it holds something. -/
def bareVariant (expected : String) : Reader α := failUnplaced (.wrongKind .bareVariant expected)

end LeaseCache.Json.Reader
