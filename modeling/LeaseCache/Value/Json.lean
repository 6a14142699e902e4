import LeaseCache.Value
import LeaseCache.Json.Typed

/-!
# Values in JSON

Values are written without blanks; records as objects with their fields in order, a choice as an
object with one member or, if it holds nothing, as the name of its variant.
-/

namespace LeaseCache

open LeaseCache.Json (Reader)

/-! ## Writing -/

namespace Json

/-- Parts between brackets, with commas. -/
def bracketed (opening closing : UInt8) (parts : List (List UInt8)) : List UInt8 :=
  opening :: ([0x2C].intercalate parts ++ [closing])

/-- A sequence. -/
def writeSequence (parts : List (List UInt8)) : List UInt8 := bracketed 0x5B 0x5D parts

/-- An object. -/
def writeObject (members : List (String × List UInt8)) : List UInt8 :=
  bracketed 0x7B 0x7D (members.map fun m => Text.write m.1 ++ 0x3A :: m.2)

/-- The word for nothing. -/
def writeNull : List UInt8 := [0x6E, 0x75, 0x6C, 0x6C]

/-- A flag. -/
def writeFlag (b : Bool) : List UInt8 :=
  if b then [0x74, 0x72, 0x75, 0x65] else [0x66, 0x61, 0x6C, 0x73, 0x65]

/-- A value or nothing. -/
def writeOptional {α : Type} (write : α → List UInt8) : Option α → List UInt8
  | none => writeNull
  | some a => write a

end Json

/-- The members of a record. -/
def Record.members (r : Record) : List (String × List UInt8) :=
  [("name", Json.Text.write r.name), ("size", Digits.ofNat r.size.toNat),
    ("parent", Json.writeOptional (fun n : Int32 => Digits.ofInt n.toInt) r.parent)]

/-- An outcome in JSON. -/
def Outcome.toJson : Outcome → List UInt8
  | .upToDate => Json.Text.write "UpToDate"
  | .executed n =>
    Json.writeObject [("Executed", Json.writeObject [("millis", Digits.ofNat n.toNat)])]
  | .failed s => Json.writeObject [("Failed", Json.Text.write s)]
  | .range a b =>
    Json.writeObject [("Range", Json.writeSequence [Digits.ofInt a.toInt, Digits.ofInt b.toInt])]

/-- A value in JSON. -/
def Value.toJson : Value → List UInt8
  | .string s => Json.Text.write s
  | .u8 n => Digits.ofNat n.toNat
  | .i32 n => Digits.ofInt n.toInt
  | .u32 n => Digits.ofNat n.toNat
  | .i64 n => Digits.ofInt n.toInt
  | .u64 n => Digits.ofNat n.toNat
  | .bool b => Json.writeFlag b
  | .opt n => Json.writeOptional (fun n : UInt32 => Digits.ofNat n.toNat) n
  | .bytes bs => Json.writeSequence (bs.map fun b => Digits.ofNat b.toNat)
  | .strings ss => Json.writeSequence (ss.map Json.Text.write)
  | .map m => Json.writeObject (m.pairs.map fun p => (p.1, Digits.ofNat p.2.toNat))
  | .record r => Json.writeObject r.members
  | .outcome o => o.toJson

/-! ## Reading -/

namespace Json.Reader

/-- Reads an integer of eight bits. -/
def nat8 : Reader UInt8 := do return UInt8.ofNat (← integer .nat8).toNat

/-- Reads an integer of 32 bits with sign. -/
def int32 : Reader Int32 := do return Int32.ofInt (← integer .int32)

/-- Reads an integer of 32 bits. -/
def nat32 : Reader UInt32 := do return UInt32.ofNat (← integer .nat32).toNat

/-- Reads an integer of 64 bits with sign. -/
def int64 : Reader Int64 := do return Int64.ofInt (← integer .int64)

/-- Reads an integer of 64 bits. -/
def nat64 : Reader UInt64 := do return UInt64.ofNat (← integer .nat64).toNat

/-- Reads a map to integers of 64 bits; the last value of a key counts. -/
def sortedMap : Reader (SortedMap UInt64) :=
  map "a map" (members (fun key m => do return m.insert key (← memberValue nat64)) SortedMap.empty)

end Json.Reader

/-- The fields of a record that have been given. -/
structure Record.Fields where
  name : Option String
  size : Option UInt64
  parent : Option (Option Int32)

/-- Reads a member of a record. -/
def Record.addField (key : String) (f : Record.Fields) : Reader Record.Fields := do
  if key = "name" then
    return { f with name := some (← Reader.field "name" f.name Reader.text) }
  else if key = "size" then
    return { f with size := some (← Reader.field "size" f.size Reader.nat64) }
  else if key = "parent" then
    let parent ← Reader.field "parent" f.parent (Reader.optional Reader.int32)
    return { f with parent := some parent }
  else
    Reader.memberValue Reader.ignored
    return f

/-- Reads a record; its parent may be left out. -/
def Record.reader : Reader Record :=
  Reader.record "struct Record"
    (do
      let name ← Reader.position 0 "struct Record with 3 elements" Reader.text
      let size ← Reader.position 1 "struct Record with 3 elements" Reader.nat64
      let parent ← Reader.position 2 "struct Record with 3 elements" (Reader.optional Reader.int32)
      return ⟨name, size, parent⟩)
    (do
      let f ← Reader.members Record.addField ⟨none, none, none⟩
      let name ← Reader.required "name" f.name
      let size ← Reader.required "size" f.size
      return ⟨name, size, f.parent.getD none⟩)

/-- The names of the variants of an outcome. -/
def Outcome.variants : List String := ["UpToDate", "Executed", "Failed", "Range"]

/-- Reads a member of an executed outcome. -/
def Outcome.addMillis (key : String) (millis : Option UInt64) : Reader (Option UInt64) := do
  if key = "millis" then
    return some (← Reader.field "millis" millis Reader.nat64)
  else
    Reader.memberValue Reader.ignored
    return millis

/-- Reads what a variant of an outcome holds. -/
def Outcome.contentReader (variant : String) : Reader Outcome :=
  if variant = "UpToDate" then do
    Reader.nothing
    return .upToDate
  else if variant = "Executed" then
    Reader.record "struct variant Outcome::Executed"
      (do
        let expected := "struct variant Outcome::Executed with 1 element"
        return .executed (← Reader.position 0 expected Reader.nat64))
      (do
        let millis ← Reader.members Outcome.addMillis none
        return .executed (← Reader.required "millis" millis))
  else if variant = "Failed" then Outcome.failed <$> Reader.text
  else
    Reader.sequence "tuple variant Outcome::Range" do
      let expected := "tuple variant Outcome::Range with 2 elements"
      let first ← Reader.position 0 expected Reader.int32
      let last ← Reader.position 1 expected Reader.int32
      return .range first last

/-- Takes a variant of an outcome that is only named. -/
def Outcome.bareReader (variant : String) : Reader Outcome :=
  if variant = "UpToDate" then pure .upToDate
  else if variant = "Executed" then Reader.bareVariant "struct variant"
  else if variant = "Failed" then Reader.bareVariant "newtype variant"
  else Reader.bareVariant "tuple variant"

/-- Reads an outcome. -/
def Outcome.reader : Reader Outcome :=
  Reader.choice Outcome.variants Outcome.contentReader Outcome.bareReader

/-- Reads a value of a type. -/
def Value.reader : ValueType → Reader Value
  | .string => Value.string <$> Reader.text
  | .u8 => Value.u8 <$> Reader.nat8
  | .i32 => Value.i32 <$> Reader.int32
  | .u32 => Value.u32 <$> Reader.nat32
  | .i64 => Value.i64 <$> Reader.int64
  | .u64 => Value.u64 <$> Reader.nat64
  | .bool => Value.bool <$> Reader.flag
  | .opt => Value.opt <$> Reader.optional Reader.nat32
  | .bytes => Value.bytes <$> Reader.sequence "a sequence" (Reader.elements Reader.nat8)
  | .strings => Value.strings <$> Reader.sequence "a sequence" (Reader.elements Reader.text)
  | .map => Value.map <$> Reader.sortedMap
  | .record => Value.record <$> Record.reader
  | .outcome => Value.outcome <$> Outcome.reader

/-- The value of a type in a document that arrives as a stream. -/
def Value.ofJson (type : ValueType) (bytes : List UInt8) : Except Json.Failure Value :=
  Reader.document (Value.reader type) bytes true

end LeaseCache
