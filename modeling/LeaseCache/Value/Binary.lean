import LeaseCache.Value
import LeaseCache.Binary

/-!
# Values in the binary format
-/

namespace LeaseCache

open LeaseCache.Binary (Reader)

/-! ## Writing -/

/-- A signed number of four bytes. -/
def Binary.int32 (n : Int32) : List UInt8 := Binary.number 4 n.toUInt32.toNat

/-- A pair of a map. -/
def Binary.pair (p : String × UInt64) : List UInt8 := Binary.text p.1 ++ Binary.number 8 p.2.toNat

/-- A record, its fields in order. -/
def Record.toBinary (r : Record) : List UInt8 :=
  Binary.text r.name ++ Binary.number 8 r.size.toNat ++ Binary.optional Binary.int32 r.parent

/-- An outcome after the index of its variant. -/
def Outcome.toBinary : Outcome → List UInt8
  | .upToDate => Binary.number 4 0
  | .executed n => Binary.number 4 1 ++ Binary.number 8 n.toNat
  | .failed s => Binary.number 4 2 ++ Binary.text s
  | .range a b => Binary.number 4 3 ++ Binary.int32 a ++ Binary.int32 b

/-- A value in the binary format. -/
def Value.toBinary : Value → List UInt8
  | .string s => Binary.text s
  | .u8 n => Binary.number 1 n.toNat
  | .i32 n => Binary.int32 n
  | .u32 n => Binary.number 4 n.toNat
  | .i64 n => Binary.number 8 n.toUInt64.toNat
  | .u64 n => Binary.number 8 n.toNat
  | .bool b => Binary.flag b
  | .opt n => Binary.optional (fun n : UInt32 => Binary.number 4 n.toNat) n
  | .bytes bs => Binary.sequence (fun b : UInt8 => Binary.number 1 b.toNat) bs
  | .strings ss => Binary.sequence Binary.text ss
  | .map m => Binary.sequence Binary.pair m.pairs
  | .record r => r.toBinary
  | .outcome o => o.toBinary

/-! ## Reading -/

namespace Binary.Reader

/-- A byte. -/
def nat8 : Reader UInt8 := UInt8.ofNat <$> number 1

/-- A number of four bytes. -/
def nat32 : Reader UInt32 := UInt32.ofNat <$> number 4

/-- A signed number of four bytes. -/
def int32 : Reader Int32 := UInt32.toInt32 <$> nat32

/-- A number of eight bytes. -/
def nat64 : Reader UInt64 := UInt64.ofNat <$> number 8

/-- A signed number of eight bytes. -/
def int64 : Reader Int64 := UInt64.toInt64 <$> nat64

/-- A pair of a map. -/
def pair : Reader (String × UInt64) := do
  let key ← text
  let n ← nat64
  return (key, n)

end Binary.Reader

/-- Reads a record. -/
def Record.binaryReader : Reader Record := do
  let name ← Reader.text
  let size ← Reader.nat64
  let parent ← Reader.optional Reader.int32
  return ⟨name, size, parent⟩

/-- Reads an outcome. -/
def Outcome.binaryReader : Reader Outcome := do
  match ← Reader.number 4 with
  | 0 => return .upToDate
  | 1 => return .executed (← Reader.nat64)
  | 2 => return .failed (← Reader.text)
  | 3 =>
    let first ← Reader.int32
    let last ← Reader.int32
    return .range first last
  | n => Reader.fail (.invalidVariant n 4)

/-- Reads a value of a type. -/
def Value.binaryReader : ValueType → Reader Value
  | .string => Value.string <$> Reader.text
  | .u8 => Value.u8 <$> Reader.nat8
  | .i32 => Value.i32 <$> Reader.int32
  | .u32 => Value.u32 <$> Reader.nat32
  | .i64 => Value.i64 <$> Reader.int64
  | .u64 => Value.u64 <$> Reader.nat64
  | .bool => Value.bool <$> Reader.flag
  | .opt => Value.opt <$> Reader.optional Reader.nat32
  | .bytes => Value.bytes <$> Reader.sequence Reader.nat8
  | .strings => Value.strings <$> Reader.sequence Reader.text
  | .map => (fun pairs => Value.map (.ofList pairs)) <$> Reader.sequence Reader.pair
  | .record => Value.record <$> Record.binaryReader
  | .outcome => Value.outcome <$> Outcome.binaryReader

/-- The value of a type at the front of a byte sequence. -/
def Value.ofBinary (type : ValueType) (bytes : List UInt8) : Except Binary.Fault Value :=
  Reader.decode (Value.binaryReader type) bytes

end LeaseCache
