import LeaseCache.World

/-!
# Stores

A store answers for keys: it finds, writes and removes values, and each of these can fail. Stores
that reach into the world are acts, so a store may do anything while it answers.
-/

namespace LeaseCache

/-- A persistent keyed store. -/
structure Store (σ : Type) where
  get : Key → Act σ (Except StoreError (Option Value))
  put : Key → Value → Act σ (Except StoreError Unit)
  remove : Key → Act σ (Except StoreError Unit)

namespace Store

variable {σ : Type}

/-- The store kept in a table of the world; it never fails. -/
def table (i : Nat) : Store σ where
  get k := do return .ok ((← Act.look (·.tables.get i)).get? k.identity)
  put k v := do
    Act.change fun w => { w with tables := w.tables.modify i (·.insert k.identity v) }
    return .ok ()
  remove k := do
    Act.change fun w => { w with tables := w.tables.modify i (·.erase k.identity) }
    return .ok ()

/-- A new table without keys; its number. -/
def newTable : Act σ Nat := do
  let i ← Act.look (·.tables.next)
  Act.change fun w => { w with tables := w.tables.add .empty }
  return i

end Store

end LeaseCache
