import LeaseCache.Memory
import LeaseCache.Store.Basic

/-!
# Stores behind a memory

A facade answers lookups from the memory of its store and asks the store only for keys without an
entry. Writes go to the store first and then to the memory, one at a time. The store's failures come
back as they are; after a failed write the entry of its key is dropped, since nobody knows what the
store then holds. A facade is a store again, so facades can be stacked.
-/

namespace LeaseCache.Facade

variable {σ : Type}

/-- Looks a key up, and tells whether the store was asked. -/
def lookup (store : Store σ) (i : Nat) (k : Key) : Act σ (Except StoreError (Lookup Value)) := do
  let cell ← Act.cell i
  match cell.cache.probe k with
  | .cached entry =>
    Act.changeCache i Cache.countHit
    Act.emit (.hit cell.handle k)
    return .ok (.hit entry.value?)
  | .vacant epoch =>
    Act.changeCache i Cache.countMiss
    match ← store.get k with
    | .error e => return .error e
    | .ok fetched =>
      let kept := (← Act.cell i).cache.accepts epoch
      Act.changeCache i (·.fill k (.ofOption fetched) epoch)
      Act.emit (.miss cell.handle k kept)
      return .ok (.miss fetched)

/-- The value of a key. -/
def get (store : Store σ) (i : Nat) (k : Key) : Act σ (Except StoreError (Option Value)) := do
  return (← lookup store i k).map Lookup.value?

/-- Does something while no other write through the memory goes on. -/
def exclusively {α : Type} (i : Nat) (body : Act σ α) : Act σ α := do
  if (← Act.cell i).writing then Act.interrupt .blocked
  Act.changeCell i fun c => { c with writing := true }
  Act.ensuring body (Act.changeCell i fun c => { c with writing := false })

/-- Sets the value of a key. -/
def put (store : Store σ) (i : Nat) (k : Key) (v : Value) : Act σ (Except StoreError Unit) :=
  exclusively i do
    match ← store.put k v with
    | .error e =>
      Act.changeCache i (·.remove k)
      return .error e
    | .ok () =>
      Act.changeCache i (·.put k (.present v))
      return .ok ()

/-- Removes a key. -/
def remove (store : Store σ) (i : Nat) (k : Key) : Act σ (Except StoreError Unit) :=
  exclusively i do
    let removed ← store.remove k
    Act.changeCache i (·.remove k)
    return removed

/-- A facade as a store. -/
def toStore (store : Store σ) (i : Nat) : Store σ where
  get := get store i
  put := put store i
  remove := remove store i

/-- The key that a value is; a value of any other type is a mistake of the caller. -/
def checkedKey (k : DynamicKey) : Act σ Key :=
  match k.toKey with
  | .ok key => pure key
  | .error type => Act.panic (Failure.unsupportedKey type).message

end LeaseCache.Facade
