/-!
# Values

The values that the bundled stores hold: texts, integers of several widths, flags, optional
integers, sequences, maps in the order of their keys, one record and one choice. `Value.type` tells
which type a value has; a store holds values of one type.
-/

namespace LeaseCache

/-- Pairs in the strict order of their keys. -/
structure SortedMap (α : Type) where
  pairs : List (String × α)
  sorted : pairs.Pairwise fun p q => p.1 < q.1
  deriving DecidableEq

namespace SortedMap

variable {α : Type}

/-- The map without keys. -/
def empty : SortedMap α := ⟨[], .nil⟩

/-- Pairs with a value for a key: in place of its former value, or at its place in the order. -/
def insertPair (key : String) (a : α) : List (String × α) → List (String × α)
  | [] => [(key, a)]
  | p :: rest =>
    if key < p.1 then (key, a) :: p :: rest
    else if key = p.1 then (key, a) :: rest
    else p :: insertPair key a rest

theorem mem_insertPair {key : String} {a : α} {pairs : List (String × α)} {q : String × α}
    (h : q ∈ insertPair key a pairs) : q = (key, a) ∨ q ∈ pairs := by
  induction pairs with
  | nil => exact .inl (List.mem_singleton.1 h)
  | cons p rest ih =>
    rw [insertPair] at h
    split at h
    · exact List.mem_cons.1 h
    · split at h
      · rcases List.mem_cons.1 h with h | h
        · exact .inl h
        · exact .inr (List.mem_cons_of_mem _ h)
      · rcases List.mem_cons.1 h with h | h
        · exact .inr (h ▸ List.mem_cons_self)
        · exact (ih h).imp_right (List.mem_cons_of_mem _)

theorem sorted_insertPair {key : String} {a : α} {pairs : List (String × α)}
    (h : pairs.Pairwise fun p q => p.1 < q.1) :
    (insertPair key a pairs).Pairwise fun p q => p.1 < q.1 := by
  induction pairs with
  | nil => simp [insertPair]
  | cons p rest ih =>
    have hp := List.pairwise_cons.1 h
    rw [insertPair]
    split
    · rename_i hk
      refine List.pairwise_cons.2 ⟨fun q hq => ?_, h⟩
      rcases List.mem_cons.1 hq with rfl | hq
      · exact hk
      · exact String.lt_trans hk (hp.1 q hq)
    · rename_i hk
      split
      · rename_i he
        exact List.pairwise_cons.2 ⟨fun q hq => he ▸ hp.1 q hq, hp.2⟩
      · rename_i he
        refine List.pairwise_cons.2 ⟨fun q hq => ?_, ih hp.2⟩
        rcases mem_insertPair hq with rfl | hq
        · refine Decidable.byContradiction fun hn => he ?_
          exact String.le_antisymm (String.not_lt.1 hn) (String.not_lt.1 hk)
        · exact hp.1 q hq

/-- The map with a value for a key. -/
def insert (m : SortedMap α) (key : String) (a : α) : SortedMap α :=
  ⟨insertPair key a m.pairs, sorted_insertPair m.sorted⟩

/-- The map of pairs in any order; the last value of a key counts. -/
def ofList (pairs : List (String × α)) : SortedMap α :=
  pairs.foldl (fun m p => m.insert p.1 p.2) empty

end SortedMap

/-- What is stored about a named thing. -/
structure Record where
  name : String
  size : UInt64
  parent : Option Int32
  deriving DecidableEq

/-- How a task ended. -/
inductive Outcome where
  | upToDate
  | executed (millis : UInt64)
  | failed (message : String)
  | range (first last : Int32)
  deriving DecidableEq

/-- The types of values. -/
inductive ValueType where
  | string | u8 | i32 | u32 | i64 | u64 | bool | opt | bytes | strings | map | record | outcome
  deriving DecidableEq, Repr

/-- The name by which a type is reported. -/
def ValueType.name : ValueType → String
  | .string => "alloc::string::String"
  | .u8 => "u8"
  | .i32 => "i32"
  | .u32 => "u32"
  | .i64 => "i64"
  | .u64 => "u64"
  | .bool => "bool"
  | .opt => "core::option::Option<u32>"
  | .bytes => "alloc::vec::Vec<u8>"
  | .strings => "alloc::vec::Vec<alloc::string::String>"
  | .map => "alloc::collections::btree::map::BTreeMap<alloc::string::String, u64>"
  | .record => "oracle_driver::Record"
  | .outcome => "oracle_driver::Outcome"

/-- A value. -/
inductive Value where
  | string (value : String)
  | u8 (value : UInt8)
  | i32 (value : Int32)
  | u32 (value : UInt32)
  | i64 (value : Int64)
  | u64 (value : UInt64)
  | bool (value : Bool)
  | opt (value : Option UInt32)
  | bytes (value : List UInt8)
  | strings (value : List String)
  | map (value : SortedMap UInt64)
  | record (value : Record)
  | outcome (value : Outcome)
  deriving DecidableEq

/-- The type of a value. -/
def Value.type : Value → ValueType
  | .string _ => .string
  | .u8 _ => .u8
  | .i32 _ => .i32
  | .u32 _ => .u32
  | .i64 _ => .i64
  | .u64 _ => .u64
  | .bool _ => .bool
  | .opt _ => .opt
  | .bytes _ => .bytes
  | .strings _ => .strings
  | .map _ => .map
  | .record _ => .record
  | .outcome _ => .outcome

end LeaseCache
