import LeaseCache.Entry
import LeaseCache.Key
import LeaseCache.Signal
import LeaseCache.Table

/-!
# The memory of one store

A `Cache` holds every entry learned about a store since the last invalidation, together with the
reading of the store's marker that the entries are known to be right for (`baseline`).

All its operations are single steps. A lookup that finds nothing takes the `epoch` with it, asks the
store, and hands the answer in with that epoch: `fill` keeps it only if nothing was written, removed
or cleared in between, and never in place of an entry. So any interleaving of calls is a sequence of
these steps.

The epoch and the three counters are numbers without a bound, where a machine has words of 64 bits:
runs of so many writes or lookups that a word begins again are left out. `Proofs/Epochs.lean` tells
what holds of an epoch in a word, and when it begins again.
-/

namespace LeaseCache

/-- The memory of one store. -/
structure Cache (V : Type) where
  entries : Table Identity (Entry V)
  /-- Counts the writes, removals and clearings, without a bound. -/
  epoch : Nat
  /-- The marker's reading at the last event that fixed it; none if it was unreadable. -/
  baseline : Option Signal
  hits : Nat
  misses : Nat
  invalidations : Nat

/-- What a first look at a key finds. -/
inductive Probe (V : Type) where
  | cached (entry : Entry V)
  /-- No entry; the epoch must be given back with the store's answer. -/
  | vacant (epoch : Nat)
  deriving DecidableEq, Repr

namespace Cache

variable {V : Type}

/-- A memory without entries, right for a reading of the marker. -/
def fresh (baseline : Option Signal) : Cache V := ⟨.empty, 0, baseline, 0, 0, 0⟩

/-- The entry of a key. -/
def get? (c : Cache V) (k : Key) : Option (Entry V) := c.entries.get? k.identity

/-- The number of entries. -/
def size (c : Cache V) : Nat := c.entries.size

/-- A first look at a key. -/
def probe (c : Cache V) (k : Key) : Probe V :=
  match c.get? k with
  | some e => .cached e
  | none => .vacant c.epoch

/-- Counts a lookup answered from memory. -/
def countHit (c : Cache V) : Cache V := { c with hits := c.hits + 1 }

/-- Counts a lookup for which the store is asked. -/
def countMiss (c : Cache V) : Cache V := { c with misses := c.misses + 1 }

/-- Whether an answer asked for in an epoch may still be kept. -/
def accepts (c : Cache V) (epoch : Nat) : Bool := c.epoch = epoch

/-- Keeps the store's answer to a lookup, unless something happened since its epoch. -/
def fill (c : Cache V) (k : Key) (e : Entry V) (epoch : Nat) : Cache V :=
  if c.accepts epoch then { c with entries := c.entries.insertIfNew k.identity e } else c

/-- Sets the entry of a key. -/
def put (c : Cache V) (k : Key) (e : Entry V) : Cache V :=
  { c with epoch := c.epoch + 1, entries := c.entries.insert k.identity e }

/-- Drops the entry of a key. -/
def remove (c : Cache V) (k : Key) : Cache V :=
  { c with epoch := c.epoch + 1, entries := c.entries.erase k.identity }

/-- Drops all entries. -/
def clear (c : Cache V) : Cache V := { c with epoch := c.epoch + 1, entries := .empty }

/-- Takes a reading of the marker for the one that the entries are right for. -/
def record (c : Cache V) (reading : Option Signal) : Cache V := { c with baseline := reading }

/-- Whether a reading of the marker shows that nobody else wrote the store. -/
def isFresh (c : Cache V) (reading : Option Signal) : Bool :=
  reading.isSome && c.baseline = reading

/-- Drops all entries unless a reading of the marker shows that they are still right. -/
def invalidate (c : Cache V) (reading : Option Signal) : Cache V :=
  if c.isFresh reading then c
  else { c.clear with invalidations := c.invalidations + 1, baseline := reading }

/-! ## What the steps do to the entries -/

theorem get?_put (c : Cache V) (k l : Key) (e : Entry V) :
    (c.put k e).get? l = if l.Same k then some e else c.get? l := by
  rw [get?, put, Table.get?_insert]
  rfl

theorem get?_remove (c : Cache V) (k l : Key) :
    (c.remove k).get? l = if l.Same k then none else c.get? l := by
  rw [get?, remove, Table.get?_erase]
  rfl

theorem get?_clear (c : Cache V) (l : Key) : c.clear.get? l = none := rfl

theorem get?_fill (c : Cache V) (k l : Key) (e : Entry V) (epoch : Nat) :
    (c.fill k e epoch).get? l =
      if c.epoch = epoch ∧ l.Same k then some ((c.get? k).getD e) else c.get? l := by
  by_cases h : c.epoch = epoch
  · simp only [get?, fill, accepts, h, decide_true, if_true, Table.get?_insertIfNew, true_and]
    rfl
  · simp [fill, accepts, h]

theorem get?_invalidate (c : Cache V) (reading : Option Signal) (l : Key) :
    (c.invalidate reading).get? l = if c.isFresh reading then c.get? l else none := by
  unfold invalidate
  split <;> rfl

end Cache

end LeaseCache
