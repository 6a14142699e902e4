import LeaseCache.Text.Utf8

/-!
# The binary format

Numbers in a fixed number of bytes, the least significant first; a length is a number of eight
bytes, the index of a variant one of four, and a byte tells whether an optional value is there.
Readers take what they need from the front and leave the rest.
-/

namespace LeaseCache.Binary

/-- What can be wrong with a binary value. -/
inductive Fault where
  /-- The bytes end inside the value. -/
  | short
  /-- The length of a text is beyond what any memory holds. -/
  | tooLong
  | invalidFlag (found : Nat)
  | invalidTag (found : Nat)
  | invalidVariant (found variants : Nat)
  | notText (malformed : Utf8.Malformed)
  /-- The bytes could not be read; the wording is the file system's. -/
  | unreadable (message : String)

/-- The wording of a fault. -/
def Fault.message : Fault → String
  | .short => "io error: failed to fill whole buffer"
  | .tooLong => "capacity overflow"
  | .invalidFlag n => "invalid u8 while decoding bool, expected 0 or 1, found " ++ toString n
  | .invalidTag n => "tag for enum is not valid, found " ++ toString n
  | .invalidVariant n variants =>
    "invalid value: integer `" ++ toString n ++ "`, expected variant index 0 <= i < " ++
      toString variants
  | .notText e => "string is not valid utf8: " ++ e.message
  | .unreadable message => "io error: " ++ message

/-! ## Writing -/

/-- The lowest `width` bytes of a number. -/
def number : Nat → Nat → List UInt8
  | 0, _ => []
  | width + 1, n => UInt8.ofNat (n % 256) :: number width (n / 256)

/-- A length. -/
def length (n : Nat) : List UInt8 := number 8 n

/-- A text after its length in bytes. -/
def text (s : String) : List UInt8 := length (Utf8.ofString s).length ++ Utf8.ofString s

/-- A flag. -/
def flag (b : Bool) : List UInt8 := [if b then 1 else 0]

/-- A value after the byte that tells that it is there. -/
def optional {α : Type} (write : α → List UInt8) : Option α → List UInt8
  | none => [0]
  | some a => 1 :: write a

/-- Values after their number. -/
def sequence {α : Type} (write : α → List UInt8) (xs : List α) : List UInt8 :=
  length xs.length ++ xs.flatMap write

/-! ## Reading -/

/-- Something that takes a value from the front. -/
abbrev Reader := StateT (List UInt8) (Except Fault)

namespace Reader

variable {α : Type}

/-- Refuses what was read. -/
def fail (fault : Fault) : Reader α := fun _ => .error fault

/-- The first `n` bytes. -/
def take (n : Nat) : Reader (List UInt8) := fun bytes =>
  if n ≤ bytes.length then .ok (bytes.take n, bytes.drop n) else .error .short

/-- The number that bytes stand for. -/
def value : List UInt8 → Nat
  | [] => 0
  | b :: rest => b.toNat + 256 * value rest

/-- A number of `width` bytes. -/
def number (width : Nat) : Reader Nat := value <$> take width

/-- The first length that no memory holds. -/
def lengthLimit : Nat := 0x8000000000000000

/-- A text after its length in bytes. -/
def text : Reader String := do
  let n ← number 8
  if lengthLimit ≤ n then fail .tooLong
  let bytes ← take n
  match Utf8.decode bytes with
  | .ok cs => return String.ofList cs
  | .error e => fail (.notText e)

/-- A flag. -/
def flag : Reader Bool := do
  let n ← number 1
  if n = 0 then return false
  else if n = 1 then return true
  else fail (.invalidFlag n)

/-- A value after the byte that tells whether it is there. -/
def optional (r : Reader α) : Reader (Option α) := do
  let n ← number 1
  if n = 0 then return none
  else if n = 1 then return some (← r)
  else fail (.invalidTag n)

/-- So many values. -/
def times (r : Reader α) : Nat → Reader (List α)
  | 0 => return []
  | n + 1 => do
    let a ← r
    let as ← times r n
    return a :: as

/-- Values after their number. -/
def sequence (r : Reader α) : Reader (List α) := do times r (← number 8)

/-- The value of a byte sequence; bytes after it are not looked at. -/
def decode (r : Reader α) (bytes : List UInt8) : Except Fault α :=
  match r bytes with
  | .ok (a, _) => .ok a
  | .error e => .error e

end Reader

end LeaseCache.Binary
