import LeaseCache.Table

/-!
# Pools

Things that are shared and change, each under a number of its own. A number that was never given out
stands for the default thing, so looking up is total and `get_set` has no condition.
-/

namespace LeaseCache

/-- Things under numbers. -/
structure Pool (α : Type) where
  items : Table Nat α
  /-- The next number to give out. -/
  next : Nat

namespace Pool

variable {α : Type}

/-- The pool without things. -/
def empty : Pool α := ⟨.empty, 0⟩

instance : Inhabited (Pool α) := ⟨empty⟩

/-- The thing under a number. -/
def get [Inhabited α] (p : Pool α) (i : Nat) : α := (p.items.get? i).getD default

/-- Puts a thing under a number. -/
def set (p : Pool α) (i : Nat) (a : α) : Pool α := { p with items := p.items.insert i a }

/-- Changes the thing under a number. -/
def modify [Inhabited α] (p : Pool α) (i : Nat) (f : α → α) : Pool α := p.set i (f (p.get i))

/-- Puts a thing under a new number, the pool's `next`. -/
def add (p : Pool α) (a : α) : Pool α := ⟨p.items.insert p.next a, p.next + 1⟩

theorem get_set [Inhabited α] (p : Pool α) (i j : Nat) (a : α) :
    (p.set i a).get j = if j = i then a else p.get j := by
  rw [get, set, Table.get?_insert]
  split <;> rfl

theorem get_modify [Inhabited α] (p : Pool α) (i j : Nat) (f : α → α) :
    (p.modify i f).get j = if j = i then f (p.get i) else p.get j :=
  get_set p i j _

theorem get_add [Inhabited α] (p : Pool α) (j : Nat) (a : α) :
    (p.add a).get j = if j = p.next then a else p.get j := by
  rw [get, add, Table.get?_insert]
  split <;> rfl

end Pool

end LeaseCache
