import LeaseCache.Proofs.FacadeSteps

/-!
# Writes that are broken off

A store's call can end well, fail, or be broken off by a panic, and when it does not end well it may
or may not have taken effect. A write through a facade gives its lock back in every case and leaves
the other keys alone. After a failure the entry of the key is dropped. After a panic nobody drops
it: the statements that follow the store's call are passed over.

So what is left is told by one condition, `World.Overlooks`: the call was broken off, it had taken
effect, and the key had an entry. Then, and only then, the next get answers with a value that the
store no longer holds (`Facade.write_leaves_stale_only_when_broken_off`).
-/

namespace LeaseCache

variable {σ : Type}

namespace Store

/-- A store that is a map on the identity of keys as far as writes go, however they end: a write
takes effect or does not, and one that ends well has taken effect. It does not touch the memories,
and what it holds does not depend on them. -/
structure Breakable (store : Store σ) (holds : World σ → Identity → Option Value) : Prop where
  write : ∀ (wr : Write Value) w, ∃ r w', wr.on store w = (r, w') ∧ w'.cells = w.cells ∧
    ((∀ l, holds w' l = if wr.key.identity = l then wr.value? else holds w l) ∨
      holds w' = holds w ∧ r ≠ .ok (.ok ()))
  cells : ∀ (w : World σ) cells, holds { w with cells := cells } = holds w

/-- A store that answers for a key with what it holds. -/
def Tells (store : Store σ) (holds : World σ → Identity → Option Value) (k : Key) : Prop :=
  ∀ w, ∃ w', store.get k w = (.ok (.ok (holds w k.identity)), w')

end Store

/-- A write of a key was broken off after it had taken effect, and the key had an entry. -/
structure World.Overlooks (holds : World σ → Identity → Option Value) (i : Nat) (k : Key)
    (r : Except Interruption (Except StoreError Unit)) (w w' : World σ) : Prop where
  brokenOff : ∃ p, r = .error p
  remembered : ∃ e, (w.cells.get i).cache.get? k = some e
  changed : holds w' k.identity ≠ holds w k.identity

namespace Facade

variable {store : Store σ} {holds : World σ → Identity → Option Value} {i : Nat} {k : Key}
  {w w' : World σ} {wr : Write Value}

/-- A key with an entry is answered for with it. -/
theorem get_of_entry {e : Entry Value} (h : (w.cells.get i).cache.get? k = some e) :
    (get store i k w).1 = .ok (.ok e.value?) := by
  have hprobe : (w.cells.get i).cache.probe k = .cached e := by
    rw [Cache.probe, h]
  rw [get_of_lookup (lookup_of_cached hprobe)]
  rfl

/-- A key without an entry is answered for by the store. -/
theorem get_of_no_entry (hcells : ∀ (w : World σ) cells, holds { w with cells := cells } = holds w)
    (htells : store.Tells holds k) (h : (w.cells.get i).cache.get? k = none) :
    (get store i k w).1 = .ok (.ok (holds w k.identity)) := by
  have hprobe : (w.cells.get i).cache.probe k = .vacant (w.cells.get i).cache.epoch := by
    rw [Cache.probe, h]
  obtain ⟨w₁, hget⟩ := htells (w.setCache i Cache.countMiss)
  rw [get_of_lookup (lookup_of_ok hprobe hget)]
  exact congrArg (fun f => Except.ok (Except.ok (f k.identity))) (hcells w _)

/-- The next get is right if and only if the entry is, when there is one. -/
theorem get_eq_iff (hcells : ∀ (w : World σ) cells, holds { w with cells := cells } = holds w)
    (htells : store.Tells holds k) :
    (get store i k w).1 = .ok (.ok (holds w k.identity)) ↔
      ∀ e, (w.cells.get i).cache.get? k = some e → e.value? = holds w k.identity := by
  cases h : (w.cells.get i).cache.get? k with
  | none =>
    refine iff_of_true (get_of_no_entry hcells htells h) ?_
    rintro e ⟨⟩
  | some e =>
    rw [get_of_entry h]
    constructor
    · rintro hsame e' ⟨⟩
      exact Except.ok.inj (Except.ok.inj hsame)
    · intro hright
      rw [hright e rfl]

/-- What a write leaves when the store's call ends: the entry that was set, or none. -/
theorem settled_entry_is_right {r : Except StoreError Unit} {c : Cache Value} {e : Entry Value}
    {before after : Identity → Option Value}
    (htook : (∀ l, after l = if wr.key.identity = l then wr.value? else before l) ∨
      after = before ∧ (.ok r : Except Interruption (Except StoreError Unit)) ≠ .ok (.ok ()))
    (he : (c.settle wr r.isOk).get? wr.key = some e) : e.value? = after wr.key.identity := by
  obtain ⟨hok, hvalue⟩ := Cache.value?_of_get?_settle rfl he
  rcases htook with heffect | ⟨-, hfailed⟩
  · rw [heffect, if_pos rfl, hvalue]
  · cases r with
    | ok done => exact absurd rfl hfailed
    | error failure => cases hok

/-- However the store's call ends, a write through a facade ends in the same way; its lock is free
then, and other keys have the entries and the content that they had. The entry of its own key is
right, and the next get with it, unless the call was broken off after it had taken effect on a key
with an entry. -/
theorem write_leaves_stale_only_when_broken_off (hstore : store.Breakable holds)
    (hfree : (w.cells.get i).writing = false)
    (hagrees : ∀ {k e}, (w.cells.get i).cache.get? k = some e → e.value? = holds w k.identity)
    (wr : Write Value) :
    ∃ r w', wr.on (toStore store i) w = (r, w') ∧
      (wr.on store (w.setWriting i true)).1 = r ∧
      (w'.cells.get i).writing = false ∧
      (∀ l : Key, ¬ l.Same wr.key →
        (w'.cells.get i).cache.get? l = (w.cells.get i).cache.get? l ∧
          holds w' l.identity = holds w l.identity) ∧
      ((∀ e, (w'.cells.get i).cache.get? wr.key = some e → e.value? = holds w' wr.key.identity) ↔
        ¬ World.Overlooks holds i wr.key r w w') ∧
      (store.Tells holds wr.key →
        ((get store i wr.key w').1 = .ok (.ok (holds w' wr.key.identity)) ↔
          ¬ World.Overlooks holds i wr.key r w w')) := by
  obtain ⟨r, w₁, hcall, hcells, htook⟩ := hstore.write wr (w.setWriting i true)
  have hlocked : holds (w.setWriting i true) = holds w := hstore.cells w _
  rw [hlocked] at htook
  have hothers : ∀ l : Key, ¬ l.Same wr.key → holds w₁ l.identity = holds w l.identity := by
    intro l hl
    rcases htook with heffect | ⟨hsame, -⟩
    · rw [heffect, if_neg fun h => hl h.symm]
    · rw [hsame]
  have hcell : w₁.cells.get i = { w.cells.get i with writing := true } := by
    rw [hcells, World.get_setWriting_self]
  cases r with
  | ok r =>
    -- the call has ended, and the memory was settled
    let w' := (w₁.setCache i (·.settle wr r.isOk)).setWriting i false
    have hcell' : w'.cells.get i =
        { w.cells.get i with
          writing := false
          cache := (w.cells.get i).cache.settle wr r.isOk } := by
      simp only [w', World.get_setWriting_self, World.get_setCache_self, hcell]
    have hholds : holds w' = holds w₁ := (hstore.cells _ _).trans (hstore.cells _ _)
    have hright : ∀ e, (w'.cells.get i).cache.get? wr.key = some e →
        e.value? = holds w' wr.key.identity := by
      intro e he
      rw [hcell'] at he
      rw [hholds]
      exact settled_entry_is_right htook he
    have hiff : (∀ e, (w'.cells.get i).cache.get? wr.key = some e →
        e.value? = holds w' wr.key.identity) ↔ ¬ World.Overlooks holds i wr.key (.ok r) w w' :=
      iff_of_true hright (by rintro ⟨⟨p, ⟨⟩⟩, -, -⟩)
    refine ⟨.ok r, w', write_of_ok hfree hcall, by rw [hcall], by rw [hcell'], ?_,
      hiff, fun htells => (get_eq_iff hstore.cells htells).trans hiff⟩
    intro l hl
    rw [hcell', hholds]
    exact ⟨Cache.get?_settle_of_not_same hl, hothers l hl⟩
  | error p =>
    -- the call was broken off, and the memory is as it was
    let w' := w₁.setWriting i false
    have hcell' : w'.cells.get i = { w.cells.get i with writing := false } := by
      simp only [w', World.get_setWriting_self, hcell]
    have hholds : holds w' = holds w₁ := hstore.cells _ _
    have hiff : (∀ e, (w'.cells.get i).cache.get? wr.key = some e →
          e.value? = holds w' wr.key.identity) ↔
        ¬ World.Overlooks holds i wr.key (.error p) w w' := by
      rw [hcell']
      constructor
      · rintro hright ⟨-, ⟨e, he⟩, hchanged⟩
        exact hchanged ((hright e he).symm.trans (hagrees he))
      · intro hnot e he
        rw [hagrees he]
        exact Classical.byContradiction fun hne => hnot ⟨⟨p, rfl⟩, ⟨e, he⟩, fun h => hne h.symm⟩
    refine ⟨.error p, w', write_of_interrupted hfree hcall, by rw [hcall], by rw [hcell'], ?_,
      hiff, fun htells => (get_eq_iff hstore.cells htells).trans hiff⟩
    intro l hl
    rw [hcell', hholds]
    exact ⟨rfl, hothers l hl⟩

end Facade

/-! ## A store that breaks off -/

namespace Store

/-- A table that takes what is written and then panics. -/
def abrupt : Store Unit where
  get := (table 0).get
  put k v := do
    let _ ← (table 0).put k v
    Act.panic "lost"
  remove k := do
    let _ ← (table 0).remove k
    Act.panic "lost"

theorem breakable_abrupt : abrupt.Breakable fun w => (w.tables.get 0).get? where
  write wr w := by
    obtain ⟨k, _ | v⟩ := wr
    · refine ⟨.error (.panic "lost"), _, rfl, rfl, .inl fun l => ?_⟩
      simp only [Pool.get_modify, if_true, Table.get?_erase, eq_comm]
    · refine ⟨.error (.panic "lost"), _, rfl, rfl, .inl fun l => ?_⟩
      simp only [Pool.get_modify, if_true, Table.get?_insert, eq_comm]
  cells _ _ := rfl

theorem tells_abrupt (k : Key) : abrupt.Tells (fun w => (w.tables.get 0).get?) k :=
  fun w => ⟨w, rfl⟩

end Store

/-- A memory that holds the one entry of its store. -/
def World.withSeven : World Unit :=
  { World.initial () with
    cells := Pool.empty.add ⟨Path.ofString "s", 0, .u8, false,
      (Cache.fresh none).put (.integer 7) (.present (.u8 1))⟩
    tables := Pool.empty.add (Table.empty.insert (Key.integer 7).identity (.u8 1)) }

theorem World.withSeven_agrees {k : Key} {e : Entry Value}
    (h : (World.withSeven.cells.get 0).cache.get? k = some e) :
    e.value? = (World.withSeven.tables.get 0).get? k.identity := by
  have hentry : ((Cache.fresh none).put (.integer 7) (.present (.u8 1))).get? k = some e := h
  show e.value? = (Table.empty.insert (Key.integer 7).identity (.u8 1)).get? k.identity
  rw [Cache.get?_put] at hentry
  rw [Table.get?_insert]
  by_cases hk : k.Same (.integer 7)
  · rw [if_pos hk] at hentry
    rw [if_pos (show k.identity = (Key.integer 7).identity from hk), ← Option.some.inj hentry]
    rfl
  · rw [if_neg hk] at hentry
    cases hentry

/-- A put that is broken off on a key without an entry leaves nothing stale. -/
theorem Facade.broken_off_put_of_unknown_key_is_read :
    ∃ w', put .abrupt 0 (.integer 8) (.u8 2) World.withSeven = (.error (.panic "lost"), w') ∧
      (w'.cells.get 0).writing = false ∧
      (w'.cells.get 0).cache.get? (.integer 7) = some (.present (.u8 1)) ∧
      (get .abrupt 0 (.integer 8) w').1 = .ok (.ok (some (.u8 2))) := by
  obtain ⟨r, w', hput, hr, hfree, hothers, -, hget⟩ :=
    write_leaves_stale_only_when_broken_off Store.breakable_abrupt
      (show (World.withSeven.cells.get 0).writing = false from rfl) World.withSeven_agrees
      ⟨.integer 8, some (.u8 2)⟩
  have hbroken : r = .error (.panic "lost") := hr.symm
  subst hbroken
  have hw' : w' = (put Store.abrupt 0 (.integer 8) (.u8 2) World.withSeven).2 :=
    (congrArg Prod.snd hput).symm
  refine ⟨w', hput, hfree, (hothers (.integer 7) (by decide)).1, ?_⟩
  rw [(hget (Store.tells_abrupt _)).2, hw']
  · rfl
  · rintro ⟨-, ⟨e, he⟩, -⟩
    cases he

/-- A put that is broken off after it has taken effect leaves the entry of its key: the store holds
the new value, and the next get answers with the old one. -/
theorem Facade.broken_off_put_is_not_read :
    Store.abrupt.Breakable (fun w => (w.tables.get 0).get?) ∧
    (World.withSeven.cells.get 0).writing = false ∧
    (∀ k e, (World.withSeven.cells.get 0).cache.get? k = some e →
      e.value? = (World.withSeven.tables.get 0).get? k.identity) ∧
    ∃ w', put .abrupt 0 (.integer 7) (.u8 2) World.withSeven = (.error (.panic "lost"), w') ∧
      (w'.tables.get 0).get? (Key.integer 7).identity = some (.u8 2) ∧
      (w'.cells.get 0).cache.get? (.integer 7) = some (.present (.u8 1)) ∧
      (get .abrupt 0 (.integer 7) w').1 = .ok (.ok (some (.u8 1))) :=
  ⟨Store.breakable_abrupt, rfl, fun _ _ => World.withSeven_agrees, _, rfl, rfl, rfl, rfl⟩

end LeaseCache
