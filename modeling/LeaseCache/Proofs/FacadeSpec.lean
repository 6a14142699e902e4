import LeaseCache.Store.Facade
import LeaseCache.Proofs.Interleaving

/-!
# What the calls of a facade do to a world

One lemma for each way that a lookup or a write can go, for any store. A put and a removal are one
thing here, a `Write`: both take the lock, call the store, update the memory (`Cache.settle`) and
give the lock back.
-/

namespace LeaseCache

variable {σ : Type}

namespace World

/-- Changes the entries and counters of one memory. -/
def setCache (w : World σ) (i : Nat) (f : Cache Value → Cache Value) : World σ :=
  { w with cells := w.cells.modify i fun c => { c with cache := f c.cache } }

/-- Takes or gives back the write lock of one memory. -/
def setWriting (w : World σ) (i : Nat) (writing : Bool) : World σ :=
  { w with cells := w.cells.modify i fun c => { c with writing := writing } }

/-- Reports an event. -/
def report (w : World σ) (e : Event) : World σ := { w with journal := w.journal ++ [e] }

variable (w : World σ) (i j : Nat) (f : Cache Value → Cache Value) (b : Bool)

theorem get_setCache :
    (w.setCache i f).cells.get j =
      if j = i then { w.cells.get i with cache := f (w.cells.get i).cache } else w.cells.get j :=
  Pool.get_modify _ _ _ _

theorem get_setWriting :
    (w.setWriting i b).cells.get j =
      if j = i then { w.cells.get i with writing := b } else w.cells.get j :=
  Pool.get_modify _ _ _ _

@[simp] theorem get_setCache_self :
    (w.setCache i f).cells.get i =
      { w.cells.get i with cache := f (w.cells.get i).cache } := by
  rw [get_setCache, if_pos rfl]

@[simp] theorem get_setWriting_self :
    (w.setWriting i b).cells.get i = { w.cells.get i with writing := b } := by
  rw [get_setWriting, if_pos rfl]

end World

/-- Asks a store for a write. -/
def Write.on (w : Write Value) (store : Store σ) : Act σ (Except StoreError Unit) :=
  match w.value? with
  | some v => store.put w.key v
  | none => store.remove w.key

namespace Facade

variable {store : Store σ} {i n : Nat} {k : Key} {w w' : World σ}

theorem lookup_of_cached {e : Entry Value} (h : (w.cells.get i).cache.probe k = .cached e) :
    lookup store i k w =
      (.ok (.ok (.hit e.value?)),
        (w.setCache i Cache.countHit).report (.hit (w.cells.get i).handle k)) := by
  rw [lookup, Act.bind_ok _ (show Act.cell i w = (.ok (w.cells.get i), w) from rfl), h]
  rfl

/-- A lookup without an entry asks the store, whatever comes of it. -/
theorem lookup_of_vacant (h : (w.cells.get i).cache.probe k = .vacant n) :
    lookup store i k w =
      (store.get k >>= fun
        | .error e => return .error e
        | .ok fetched => do
          let kept := (← Act.cell i).cache.accepts n
          Act.changeCache i (·.fill k (.ofOption fetched) n)
          Act.emit (.miss (w.cells.get i).handle k kept)
          return .ok (.miss fetched)) (w.setCache i Cache.countMiss) := by
  rw [lookup, Act.bind_ok _ (show Act.cell i w = (.ok (w.cells.get i), w) from rfl), h]
  rfl

theorem lookup_of_interrupted {p : Interruption} (h : (w.cells.get i).cache.probe k = .vacant n)
    (hget : store.get k (w.setCache i Cache.countMiss) = (.error p, w')) :
    lookup store i k w = (.error p, w') := by
  rw [lookup_of_vacant h, Act.bind_error _ hget]

theorem lookup_of_error {e : StoreError} (h : (w.cells.get i).cache.probe k = .vacant n)
    (hget : store.get k (w.setCache i Cache.countMiss) = (.ok (.error e), w')) :
    lookup store i k w = (.ok (.error e), w') := by
  rw [lookup_of_vacant h, Act.bind_ok _ hget]
  rfl

theorem lookup_of_ok {x : Option Value} (h : (w.cells.get i).cache.probe k = .vacant n)
    (hget : store.get k (w.setCache i Cache.countMiss) = (.ok (.ok x), w')) :
    lookup store i k w =
      (.ok (.ok (.miss x)),
        (w'.setCache i (·.fill k (.ofOption x) n)).report
          (.miss (w.cells.get i).handle k ((w'.cells.get i).cache.accepts n))) := by
  rw [lookup_of_vacant h, Act.bind_ok _ hget]
  rfl

theorem get_of_interrupted {p : Interruption} (h : lookup store i k w = (.error p, w')) :
    get store i k w = (.error p, w') :=
  Act.bind_error _ h

theorem get_of_lookup {r : Except StoreError (Lookup Value)}
    (h : lookup store i k w = (.ok r, w')) :
    get store i k w = (.ok (r.map Lookup.value?), w') :=
  Act.bind_ok _ h

/-- Every write through a facade is one sequence of steps: the lock, the store, the memory, and the
lock given back. -/
theorem on_toStore (store : Store σ) (i : Nat) (wr : Write Value) :
    wr.on (toStore store i) = exclusively i do
      let r ← wr.on store
      Act.changeCache i (·.settle wr r.isOk)
      return r := by
  obtain ⟨k, _ | v⟩ := wr
  · exact congrArg (exclusively i) (congrArg (store.remove k >>= ·)
      (funext fun r => by cases r <;> rfl))
  · exact congrArg (exclusively i) (congrArg (store.put k v >>= ·)
      (funext fun r => by cases r <;> rfl))

theorem write_of_ok {wr : Write Value} {r : Except StoreError Unit}
    (hlock : (w.cells.get i).writing = false)
    (hstore : wr.on store (w.setWriting i true) = (.ok r, w')) :
    wr.on (toStore store i) w =
      (.ok r, (w'.setCache i (·.settle wr r.isOk)).setWriting i false) := by
  rw [on_toStore, exclusively,
    Act.bind_ok _ (show Act.cell i w = (.ok (w.cells.get i), w) from rfl), hlock,
    if_neg Bool.false_ne_true]
  show Act.ensuring (wr.on store >>= fun r => _) _ (w.setWriting i true) = _
  rw [Act.ensuring, Act.bind_ok _ hstore]
  rfl

/-- A write within a write through the same memory waits for itself. -/
theorem write_of_blocked {wr : Write Value} (hlock : (w.cells.get i).writing = true) :
    wr.on (toStore store i) w = (.error .blocked, w) := by
  rw [on_toStore, exclusively,
    Act.bind_ok _ (show Act.cell i w = (.ok (w.cells.get i), w) from rfl), hlock, if_pos rfl]
  rfl

theorem write_of_interrupted {wr : Write Value} {p : Interruption}
    (hlock : (w.cells.get i).writing = false)
    (hstore : wr.on store (w.setWriting i true) = (.error p, w')) :
    wr.on (toStore store i) w = (.error p, w'.setWriting i false) := by
  rw [on_toStore, exclusively,
    Act.bind_ok _ (show Act.cell i w = (.ok (w.cells.get i), w) from rfl), hlock,
    if_neg Bool.false_ne_true]
  show Act.ensuring (wr.on store >>= fun r => _) _ (w.setWriting i true) = _
  rw [Act.ensuring, Act.bind_error _ hstore]
  rfl

end Facade

end LeaseCache
