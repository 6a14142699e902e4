/-!
# Integer types

Integers are stored in a fixed number of bits, with or without sign. An integer that was read is
checked against its type first: `Holds` says which integers a type has.
-/

namespace LeaseCache

/-- An integer type: the name by which it is reported, its least and its greatest value. -/
structure IntegerType where
  name : String
  least : Int
  greatest : Int
  deriving DecidableEq, Repr

namespace IntegerType

/-- Eight bits. -/
def nat8 : IntegerType := ⟨"u8", 0, 0xFF⟩

/-- 32 bits with sign. -/
def int32 : IntegerType := ⟨"i32", -0x80000000, 0x7FFFFFFF⟩

/-- 32 bits. -/
def nat32 : IntegerType := ⟨"u32", 0, 0xFFFFFFFF⟩

/-- 64 bits with sign. -/
def int64 : IntegerType := ⟨"i64", -0x8000000000000000, 0x7FFFFFFFFFFFFFFF⟩

/-- 64 bits. -/
def nat64 : IntegerType := ⟨"u64", 0, 0xFFFFFFFFFFFFFFFF⟩

/-- The size of something in memory. -/
def natWord : IntegerType := ⟨"usize", 0, 0xFFFFFFFFFFFFFFFF⟩

/-- Whether a type has an integer. -/
def Holds (t : IntegerType) (n : Int) : Prop := t.least ≤ n ∧ n ≤ t.greatest

instance (t : IntegerType) (n : Int) : Decidable (t.Holds n) :=
  inferInstanceAs (Decidable (_ ∧ _))

end IntegerType

end LeaseCache
