import LeaseCache.Registry

/-!
# Leases

The memories of a registry are trusted only while this process has exclusive access to the stores.
A lease runs what is due at the edges: before access is given up every marker is recorded, and after
it has come back every marker is compared. What runs inside a phase is closed by the other hook also
when it panics.
-/

namespace LeaseCache

variable {σ : Type}

/-- Whoever owns the lock on the stores: runs work with exclusive access, or with access given up
meanwhile. -/
structure Access (σ : Type) where
  useCache : {α : Type} → String → Act σ α → Act σ α
  longRunning : {α : Type} → String → Act σ α → Act σ α

/-- Whether this process has exclusive access. -/
inductive Phase where
  | unlocked
  | locked
  deriving DecidableEq, Repr

/-- The other phase. -/
def Phase.other : Phase → Phase
  | .unlocked => .locked
  | .locked => .unlocked

/-- A phase that was entered and is left when the guard is dropped. -/
structure Guard where
  lease : Nat
  /-- The phase that is entered then. -/
  onDrop : Phase
  deriving DecidableEq, Repr

namespace Lease

/-- A lease on the stores of a registry; its number. -/
def new (registry : Nat) : Act σ Nat := do
  let i ← Act.look (·.leases.next)
  Act.change fun w => { w with leases := w.leases.add ⟨registry, 0⟩ }
  return i

/-- The phase of a lease. -/
def phase (l : Lease) : Phase := if 0 < l.depth then .locked else .unlocked

/-- The numbers of the memories under a lease. -/
def cells (i : Nat) : Act σ (List Nat) :=
  Act.look fun w => (w.registries.get (w.leases.get i).registry).cells.values

/-- Changes the depth of a lease; the new depth. -/
def shift (i : Nat) (by' : Int) : Act σ Int := do
  Act.change fun w =>
    { w with leases := w.leases.modify i fun l => { l with depth := l.depth + by' } }
  return (← Act.look (·.leases.get i)).depth

/-- Records the markers of memories. -/
def recordAll : List Nat → Act σ Unit
  | [] => pure ()
  | cell :: rest => do
    Memory.recordMarker cell
    recordAll rest

/-- Invalidates memories whose markers moved; the number of them. -/
def invalidateAll : List Nat → Act σ Nat
  | [] => pure 0
  | cell :: rest => do
    let dropped ← Memory.invalidateIfStale cell
    let others ← invalidateAll rest
    return (if dropped then 1 else 0) + others

/-- Exclusive access is about to be given up. -/
def beforeReleased (i : Nat) : Act σ Unit := do
  recordAll (← cells i)
  let depth ← shift i (-1)
  Act.emit (.released depth)

/-- Exclusive access has just been obtained. -/
def beforeAcquired (i : Nat) : Act σ Unit := do
  let depth ← shift i 1
  let invalidated ← invalidateAll (← cells i)
  Act.emit (.acquired depth invalidated)

/-- The hook that a phase begins with. -/
def enter (i : Nat) : Phase → Act σ Unit
  | .locked => beforeAcquired i
  | .unlocked => beforeReleased i

/-- Enters a phase now; dropping the guard enters the other one. -/
def guard (i : Nat) (phase : Phase) : Act σ Guard := do
  enter i phase
  return ⟨i, phase.other⟩

/-- Does something in a locked phase. -/
def locked {α : Type} (i : Nat) (body : Act σ α) : Act σ α := do
  beforeAcquired i
  Act.ensuring body (beforeReleased i)

/-- Does something in an unlocked phase. -/
def unlocked {α : Type} (i : Nat) (body : Act σ α) : Act σ α := do
  beforeReleased i
  Act.ensuring body (beforeAcquired i)

/-- The access of a lock owner, with the hooks of a lease at its edges: inside the access when it is
obtained, around it when it is given up. -/
def wrap (i : Nat) (access : Access σ) : Access σ where
  useCache operation body := access.useCache operation (locked i body)
  longRunning operation body := unlocked i (access.longRunning operation body)

end Lease

/-- Drops a guard. -/
def Guard.drop (g : Guard) : Act σ Unit := Lease.enter g.lease g.onDrop

end LeaseCache
