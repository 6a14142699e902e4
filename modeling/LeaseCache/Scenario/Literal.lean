import LeaseCache.IntegerType
import LeaseCache.Value

/-!
# Values as they are written in scenarios

A scenario gives a value without its type; what it means depends on the store it is meant for.
-/

namespace LeaseCache

/-- A value without a type. -/
inductive Literal where
  | null
  | flag (value : Bool)
  | number (value : Int)
  | text (value : String)
  | list (items : List Literal)
  | object (members : List (String × Literal))

namespace Literal

/-- The integer of a type that a literal is. -/
def integer? (t : IntegerType) : Literal → Option Int
  | .number n => if t.Holds n then some n else none
  | _ => none

/-- The text that a literal is. -/
def text? : Literal → Option String
  | .text s => some s
  | _ => none

/-- The byte that a literal is. -/
def nat8? (l : Literal) : Option UInt8 :=
  (l.integer? .nat8).map fun n => UInt8.ofNat n.toNat

/-- The signed integer of 32 bits that a literal is. -/
def int32? (l : Literal) : Option Int32 := (l.integer? .int32).map Int32.ofInt

/-- The integer of 32 bits that a literal is. -/
def nat32? (l : Literal) : Option UInt32 :=
  (l.integer? .nat32).map fun n => UInt32.ofNat n.toNat

/-- The signed integer of 64 bits that a literal is. -/
def int64? (l : Literal) : Option Int64 := (l.integer? .int64).map Int64.ofInt

/-- The integer of 64 bits that a literal is. -/
def nat64? (l : Literal) : Option UInt64 :=
  (l.integer? .nat64).map fun n => UInt64.ofNat n.toNat

/-- A value or null. -/
def optional? {α : Type} (read : Literal → Option α) : Literal → Option (Option α)
  | .null => some none
  | l => (read l).map some

/-- The member of an object. -/
def member? (name : String) : Literal → Option Literal
  | .object members => (members.find? fun m => m.1 = name).map Prod.snd
  | _ => none

/-- The items of a list. -/
def items? : Literal → Option (List Literal)
  | .list items => some items
  | _ => none

/-- The map that an object is. -/
def map? : Literal → Option (SortedMap UInt64)
  | .object members => do
    let pairs ← members.mapM fun m => do return (m.1, ← m.2.nat64?)
    return .ofList pairs
  | _ => none

/-- The record that an object is; its parent may be left out. -/
def record? (l : Literal) : Option Record := do
  let name ← (← l.member? "name").text?
  let size ← (← l.member? "size").nat64?
  let parent ← ((l.member? "parent").getD .null).optional? int32?
  return ⟨name, size, parent⟩

/-- The outcome that a name, or an object with one member, is. -/
def outcome? : Literal → Option Outcome
  | .text "UpToDate" => some .upToDate
  | .object [("Executed", l)] => do return .executed (← (← l.member? "millis").nat64?)
  | .object [("Failed", .text s)] => some (.failed s)
  | .object [("Range", .list [a, b])] => do return .range (← a.int32?) (← b.int32?)
  | _ => none

/-- The value of a type that a literal means. -/
def value? (l : Literal) : ValueType → Option Value
  | .string => l.text?.map .string
  | .u8 => l.nat8?.map .u8
  | .i32 => l.int32?.map .i32
  | .u32 => l.nat32?.map .u32
  | .i64 => l.int64?.map .i64
  | .u64 => l.nat64?.map .u64
  | .bool =>
    match l with
    | .flag b => some (.bool b)
    | _ => none
  | .opt => (l.optional? nat32?).map .opt
  | .bytes => do return .bytes (← (← l.items?).mapM nat8?)
  | .strings => do return .strings (← (← l.items?).mapM text?)
  | .map => l.map?.map .map
  | .record => l.record?.map .record
  | .outcome => l.outcome?.map .outcome

end Literal

end LeaseCache
