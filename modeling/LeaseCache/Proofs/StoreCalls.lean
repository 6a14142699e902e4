import LeaseCache.Proofs.FacadeSteps

/-!
# The calls that reach a store

To say how often a store is asked, and what it answered, its calls are noted in the scene of the
world, one after the other (`Store.Logged`). Any store can be watched in this way: `Store.watched`
does what the store does and notes it.

What a facade needs of its store is little: a call ends, and leaves the facade's own memory alone
(`Store.Spares`). A store that is a map does so.
-/

namespace LeaseCache

variable {σ τ α : Type}

/-- A call that reached a store, and what the store answered. -/
inductive Asked where
  | get (key : Key) (answer : Except StoreError (Option Value))
  /-- A put or a removal. -/
  | write (w : Write Value) (answer : Except StoreError Unit)

namespace Store

/-- The calls of a store are noted in the scene. -/
structure Logged (store : Store σ) (log : σ → List Asked) : Prop where
  get : ∀ {k r w w'}, store.get k w = (.ok r, w') → log w'.scene = log w.scene ++ [.get k r]
  write : ∀ {wr r w w'}, Write.on wr store w = (.ok r, w') →
    log w'.scene = log w.scene ++ [.write wr r]

/-- The calls of a store end, and leave one memory alone. -/
structure Spares (store : Store σ) (i : Nat) : Prop where
  get : ∀ k w, ∃ r w', store.get k w = (.ok r, w') ∧ w'.cells.get i = w.cells.get i
  write : ∀ (wr : Write Value) w, ∃ r w', wr.on store w = (.ok r, w') ∧
    w'.cells.get i = w.cells.get i

theorem IsMap.spares {store : Store σ} {holds : World σ → Identity → Option Value}
    (hm : store.IsMap holds) (i : Nat) : store.Spares i where
  get k w := by
    obtain ⟨r, w', hget, hcells, -⟩ := hm.get k w
    exact ⟨r, w', hget, by rw [hcells]⟩
  write wr w := by
    obtain ⟨r, w', hwrite, hcells, -⟩ := hm.write wr w
    exact ⟨r, w', hwrite, by rw [hcells]⟩

end Store

/-! ## Watching a store -/

/-- The same world with another scene. -/
def World.withScene (w : World σ) (scene : τ) : World τ :=
  ⟨w.files, w.markers, w.cells, w.tables, w.registries, w.leases, w.journal, scene⟩

namespace Act

/-- Does something in a world whose scene holds more. -/
def beside (act : Act σ α) : Act (σ × τ) α := fun w =>
  match act (w.withScene w.scene.1) with
  | (r, w') => (r, w'.withScene (w'.scene, w.scene.2))

/-- Does something and notes how it ended. -/
def noting (asked : α → Asked) (act : Act σ α) : Act (σ × List Asked) α := do
  let a ← act.beside
  change fun w => w.withScene (w.scene.1, w.scene.2 ++ [asked a])
  return a

theorem noting_ok {act : Act σ α} {w : World (σ × List Asked)} {w' : World σ} {a : α}
    (asked : α → Asked) (h : act (w.withScene w.scene.1) = (.ok a, w')) :
    act.noting asked w = (.ok a, w'.withScene (w'.scene, w.scene.2 ++ [asked a])) := by
  have hbeside : act.beside w = (.ok a, w'.withScene (w'.scene, w.scene.2)) := by
    rw [beside, h]
  rw [noting, bind_ok _ hbeside]
  rfl

theorem scene_of_noting {act : Act σ α} {w w' : World (σ × List Asked)} {a : α}
    {asked : α → Asked} (h : act.noting asked w = (.ok a, w')) :
    w'.scene.2 = w.scene.2 ++ [asked a] := by
  obtain ⟨r, w₁, hact⟩ : ∃ r w₁, act (w.withScene w.scene.1) = (r, w₁) := ⟨_, _, rfl⟩
  cases r with
  | ok b =>
    rw [noting_ok asked hact] at h
    cases h
    rfl
  | error p =>
    have hbeside : act.beside w = (.error p, w₁.withScene (w₁.scene, w.scene.2)) := by
      rw [beside, hact]
    rw [noting, bind_error _ hbeside] at h
    cases h

end Act

namespace Store

/-- A store whose calls are noted. -/
def watched (store : Store σ) : Store (σ × List Asked) where
  get k := (store.get k).noting (.get k)
  put k v := (store.put k v).noting (.write ⟨k, some v⟩)
  remove k := (store.remove k).noting (.write ⟨k, none⟩)

variable {store : Store σ} {holds : World σ → Identity → Option Value}

theorem on_watched (wr : Write Value) :
    wr.on store.watched = (wr.on store).noting (.write wr) := by
  obtain ⟨k, _ | v⟩ := wr <;> rfl

theorem logged_watched (store : Store σ) : store.watched.Logged Prod.snd where
  get h := Act.scene_of_noting h
  write h := by
    rw [on_watched] at h
    exact Act.scene_of_noting h

/-- Watching a store does not change what it holds. -/
theorem IsMap.watched (hm : store.IsMap holds) :
    store.watched.IsMap fun w => holds (w.withScene w.scene.1) where
  get k w := by
    obtain ⟨r, w', hget, hcells, hholds, hanswer⟩ := hm.get k (w.withScene w.scene.1)
    exact ⟨r, _, Act.noting_ok _ hget, hcells, hholds, hanswer⟩
  write wr w := by
    obtain ⟨r, w', hwrite, hcells, htook⟩ := hm.write wr (w.withScene w.scene.1)
    rw [on_watched]
    exact ⟨r, _, Act.noting_ok _ hwrite, hcells, htook⟩
  cells w cells := hm.cells (w.withScene w.scene.1) cells
  journal w journal := hm.journal (w.withScene w.scene.1) journal

end Store

/-! ## A store that fails -/

/-- Does something and fails afterwards, if there is something to say. -/
def Act.spoiled (message? : Option String) (act : Act σ (Except StoreError α)) :
    Act σ (Except StoreError α) := do
  let r ← act
  match message? with
  | some message => return .error (.raised message)
  | none => return r

namespace Store

/-- A store that does what it is asked and then fails for some keys, in reading or in writing. -/
def spoiled (store : Store σ) (reads writes : Key → Option String) : Store σ where
  get k := (store.get k).spoiled (reads k)
  put k v := (store.put k v).spoiled (writes k)
  remove k := (store.remove k).spoiled (writes k)

variable {store : Store σ} {holds : World σ → Identity → Option Value}
  {reads writes : Key → Option String}

theorem on_spoiled (wr : Write Value) :
    wr.on (store.spoiled reads writes) = (wr.on store).spoiled (writes wr.key) := by
  obtain ⟨k, _ | v⟩ := wr <;> rfl

/-- A map that fails is still a map. -/
theorem IsMap.spoiled (hm : store.IsMap holds) : (store.spoiled reads writes).IsMap holds where
  get k w := by
    obtain ⟨r, w', hget, hcells, hholds, hanswer⟩ := hm.get k w
    show ∃ r w', Act.spoiled (reads k) (store.get k) w = _ ∧ _
    rw [Act.spoiled, Act.bind_ok _ hget]
    cases reads k with
    | none => exact ⟨r, w', rfl, hcells, hholds, hanswer⟩
    | some message => exact ⟨_, w', rfl, hcells, hholds, nofun⟩
  write wr w := by
    obtain ⟨r, w', hwrite, hcells, htook⟩ := hm.write wr w
    rw [on_spoiled, Act.spoiled, Act.bind_ok _ hwrite]
    cases writes wr.key with
    | none => exact ⟨r, w', rfl, hcells, htook⟩
    | some message =>
      refine ⟨_, w', rfl, hcells, ?_⟩
      exact htook.imp_right fun h => ⟨h.1, rfl⟩
  cells := hm.cells
  journal := hm.journal

/-- A table that does not read the key 8, and that takes what is written under it and then fails;
its calls are noted. -/
def fragile : Store (Unit × List Asked) :=
  ((table 0).spoiled (fun k => if k = .integer 8 then some "unreadable" else none)
    (fun k => if k = .integer 8 then some "unsure" else none)).watched

theorem isMap_fragile : fragile.IsMap fun w => (w.tables.get 0).get? :=
  (isMap_table 0).spoiled.watched

theorem logged_fragile : fragile.Logged Prod.snd := logged_watched _

end Store

end LeaseCache
