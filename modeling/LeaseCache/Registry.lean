import LeaseCache.Memory

/-!
# Registries

A registry keeps one memory for each place. The first to ask for a place sets the memory up, with a
marker that is made only then; everyone else gets the same memory, provided they ask for the same
type of values. Nothing is ever taken out.

How many entries a memory has room for when it is set up (`Settings.capacity`) is only a hint to the
table that holds them. No answer depends on it, so a registry does not carry it.
-/

namespace LeaseCache.Registry

variable {σ : Type}

/-- A new registry; its number. -/
def new : Act σ Nat := do
  let i ← Act.look (·.registries.next)
  Act.change fun w => { w with registries := w.registries.add default }
  return i

/-- The number of the memory for a place. -/
def cell? (r : Registry) (handle : Path) : Option Nat := r.cells.get? handle.components

/-- Whether there is a memory for a place. -/
def contains (r : Registry) (handle : Path) : Bool := r.cells.contains handle.components

/-- Sets up the memory for a place that has none. The initial capacity is left out. -/
def register (i : Nat) (handle : Path) (type : ValueType) (makeMarker : Act σ Nat) : Act σ Nat := do
  let marker ← makeMarker
  let cell ← Memory.new handle marker type
  Act.emit (.registered handle type)
  Act.change fun w =>
    { w with
      registries := w.registries.modify i fun r =>
        ⟨r.cells.insert handle.components cell⟩ }
  return cell

/-- The memory for a place, set up if there is none. -/
def acquire (i : Nat) (handle : Path) (type : ValueType) (makeMarker : Act σ Nat) :
    Act σ (Except Failure Nat) := do
  match (← Act.look (·.registries.get i)).cell? handle with
  | none => return .ok (← register i handle type makeMarker)
  | some cell =>
    if (← Act.cell cell).type = type then return .ok cell
    else return .error (.valueTypeMismatch handle type)

end LeaseCache.Registry
