/-!
# Entries and lookups

What the memory layer knows about one key, and how it came by an answer. A remembered absence is an
entry; a key without an entry has not been looked up since the last invalidation.
-/

namespace LeaseCache

/-- What is known about one key. -/
inductive Entry (V : Type) where
  /-- The store has no value for the key. -/
  | absent
  /-- The store has this value. -/
  | present (value : V)
  deriving DecidableEq, Repr

namespace Entry

variable {V : Type}

/-- The value of an entry, if there is one. -/
def value? : Entry V → Option V
  | .absent => none
  | .present v => some v

/-- The entry that remembers a store's answer. -/
def ofOption : Option V → Entry V
  | none => .absent
  | some v => .present v

/-- Whether the store has a value. -/
def isPresent : Entry V → Bool
  | .absent => false
  | .present _ => true

@[simp] theorem value?_ofOption (v? : Option V) : (ofOption v?).value? = v? := by
  cases v? <;> rfl

@[simp] theorem ofOption_value? (e : Entry V) : ofOption e.value? = e := by
  cases e <;> rfl

end Entry

/-- The answer to a lookup. -/
inductive Lookup (V : Type) where
  /-- Answered from memory. -/
  | hit (value? : Option V)
  /-- The store was asked. -/
  | miss (value? : Option V)
  deriving DecidableEq, Repr

namespace Lookup

variable {V : Type}

/-- The value found, if there is one. -/
def value? : Lookup V → Option V
  | .hit v? => v?
  | .miss v? => v?

/-- Whether the store was spared. -/
def isHit : Lookup V → Bool
  | .hit _ => true
  | .miss _ => false

end Lookup

end LeaseCache
