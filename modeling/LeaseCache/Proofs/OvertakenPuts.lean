import LeaseCache.Proofs.FacadeSpec
import LeaseCache.Proofs.ForeignWrites
import LeaseCache.Proofs.HeldAccess
import Mathlib.Data.Set.Insert

/-!
# Puts overtaken by an invalidation

Access can be given up while a put has reached the store and not yet the memory. Another process
then writes the key and moves the marker, the acquire hook drops the memory, and the put goes on: it
sets its value as the entry, which the store no longer holds. A lookup hands its answer in with an
epoch, so its answer from before the hook is not kept; a put has no such check.

So this is the only way in which a call under way can put an old value back
(`Tenancy.only_late_puts_leave_other_values`), and it is one (`Facade.overtaken_put_is_read_back`).
-/

namespace LeaseCache

open Relation (ReflTransGen)

variable {V σ : Type}

/-! ## What a put leaves in the memory -/

/-- A put that ends well has set its value as the entry, whatever the store did meanwhile. -/
theorem Facade.get?_of_put {store : Store σ} {i : Nat} {k : Key} {v : Value} {w w' : World σ}
    (h : put store i k v w = (.ok (.ok ()), w')) :
    (w'.cells.get i).cache.get? k = some (.present v) := by
  let wr : Write Value := ⟨k, some v⟩
  have hput : wr.on (toStore store i) w = (.ok (.ok ()), w') := h
  cases hlock : (w.cells.get i).writing with
  | true =>
    rw [write_of_blocked hlock] at hput
    cases hput
  | false =>
    obtain ⟨r, w₁, hstore⟩ : ∃ r w₁, wr.on store (w.setWriting i true) = (r, w₁) := ⟨_, _, rfl⟩
    cases r with
    | error p =>
      rw [write_of_interrupted hlock hstore] at hput
      cases hput
    | ok r =>
      rw [write_of_ok hlock hstore] at hput
      cases hput
      rw [World.get_setWriting_self, World.get_setCache_self]
      exact (Cache.get?_put _ _ _ _).trans (if_pos rfl)

/-- A lookup right after it answers with that value, whatever the store holds. -/
theorem Facade.get_after_put {store : Store σ} {i : Nat} {k : Key} {v : Value} {w w' : World σ}
    (h : put store i k v w = (.ok (.ok ()), w')) (other : Store σ) :
    (get other i k w').1 = .ok (.ok (some v)) := by
  have hprobe : (w'.cells.get i).cache.probe k = .cached (.present v) := by
    rw [Cache.probe, get?_of_put h]
  rw [get_of_lookup (lookup_of_cached hprobe)]
  rfl

/-! ## Late puts -/

namespace Traffic

/-- Where no call goes on, none comes to the memory. -/
theorem timely_of_calls {s s' : Traffic V} (h : s'.calls = s.calls) (i : Identity) :
    Timely s s' i := by
  intro t w v n _ _ hs hs'
  rw [h, hs] at hs'
  cases hs'

/-- The memory step of a put sets its value, and the store holds what it held. -/
theorem Step.of_settled {s s' : Traffic V} {t n : Nat} {w : Write V} {v : V} (h : Step s s')
    (hs : s.calls t = some (.stored w true n)) (hs' : s'.calls t = some (.settled w true n))
    (hv : w.value? = some v) :
    s'.cache.get? w.key = some (.present v) ∧ s'.content w.key = s.content w.key := by
  cases h with
  | settle at' =>
    rcases calls_goto_cases hs' with ⟨rfl, hd⟩ | ⟨-, hold⟩
    · cases hd
      refine ⟨?_, rfl⟩
      have hsettle : s.cache.settle w true = s.cache.put w.key (.present v) := by
        simp only [Cache.settle, hv]
      rw [cache_goto, hsettle]
      exact (Cache.get?_put _ _ _ _).trans (if_pos rfl)
    · rw [hs] at hold
      cases hold
  | _ =>
    rcases calls_goto_cases hs' with ⟨-, hd⟩ | ⟨-, hold⟩
    · cases hd
    · cases hs.symm.trans hold

end Traffic

namespace Tenancy

variable {s s' : Tenancy V}

/-- In turns no put is late. -/
theorem Loose.of_turns {late : Set Identity} (hs : Guarded s) (h : ReflTransGen Turn s s') :
    ReflTransGen (Loose late) s s' := by
  induction h with
  | refl => exact .refl
  | tail hturns hturn ih =>
    exact ih.tail (.turn hturn fun i _ => (hs.run hturns).orderly.timely _ i)

/-- While access is held and the acquire hook has run, every entry is what the store holds, whatever
was under way when access was given up before, but for the keys of late puts. No lookup, removal or
failing write, and no put that comes to the memory in time, puts an old value back. A late put does:
the memory step of a put leaves its value as the entry, so it is right if and only if the store
still holds it, and so does a put through a facade, whatever happens while the store is written. -/
theorem only_late_puts_leave_other_values {late : Set Identity} {first : Identity → Option V}
    {signal : Signal} (h : ReflTransGen (Loose late) (start first signal) s) :
    (s.hold = .trusted → ∀ {k e}, k.identity ∉ late → ¬ s.traffic.Pending k →
      s.traffic.cache.get? k = some e → e = .ofOption (s.traffic.content k)) ∧
    (∀ {t w v n s'}, w.value? = some v → s.traffic.calls t = some (.stored w true n) →
      Traffic.Step s.traffic s' → s'.calls t = some (.settled w true n) →
      ∃ e, s'.cache.get? w.key = some e ∧
        (e = .ofOption (s'.content w.key) ↔ s.traffic.content w.key = some v)) ∧
    ∀ {σ : Type} {store : Store σ} {i k v} {w w' : World σ},
      Facade.put store i k v w = (.ok (.ok ()), w') →
        (Facade.get store i k w').1 = .ok (.ok (some v)) := by
  refine ⟨?_, ?_, ?_⟩
  · intro hheld k e hk hp he
    have hs : Spared late s := (Spared.start late first signal).run h
    rw [← (hs.coherent (.inl hheld) _ hk).entry rfl hp he, Entry.ofOption_value?]
  · intro t w v n s' hv hs hstep hs'
    obtain ⟨hentry, hcontent⟩ := hstep.of_settled hs hs' hv
    refine ⟨_, hentry, ?_⟩
    rw [hcontent]
    cases s.traffic.content w.key <;> simp [Entry.ofOption, eq_comm]
  · intro σ store i k v w w' hput
    exact Facade.get_after_put hput store

/-- A put of one key and a lookup of another are under way when access is given up. Another process
writes both keys, and the acquire hook drops the memory. -/
theorem exists_overtaken (late : Set Identity) :
    ∃ s : Tenancy Nat,
      ReflTransGen (Loose late) (start (fun _ => some 1) (.generation 0)) s ∧ s.hold = .trusted ∧
      s.created = true ∧
      (∀ u, s.traffic.calls u = if u = 2 then some (.fetched (.integer 8) 0 (some 1))
        else if u = 1 then some (.stored ⟨.integer 7, some 3⟩ true 0) else none) ∧
      s.traffic.cache = ⟨.empty, 1, some (.generation 2), 0, 1, 1⟩ ∧
      s.traffic.content (.integer 7) = some 2 ∧ s.traffic.content (.integer 8) = some 5 := by
  have turns := ReflTransGen.refl.tail (Turn.arrive (V := Nat)
      (s := start (fun _ => some 1) (.generation 0)) rfl)
    |>.tail (.create (some (.generation 0)) rfl fun σ hσ => by cases hσ; exact List.mem_cons_self)
    |>.tail (.acquired (some (.generation 0)) rfl fun σ hσ => by cases hσ; rfl)
    |>.tail (.call rfl (.startWrite (t := 1) ⟨.integer 7, some 3⟩ rfl) (.inl rfl))
    |>.tail (.call rfl (.lock (t := 1) rfl rfl) (.inl rfl))
    |>.tail (.call rfl (.store (t := 1) true rfl) (.inl rfl))
    |>.tail (.call rfl (.startLookup (t := 2) (.integer 8) rfl) (.inl rfl))
    |>.tail (.call rfl (.miss (t := 2) rfl rfl) (.inl rfl))
    |>.tail (.call rfl (.fetch (t := 2) rfl) (.inl rfl))
    |>.tail (.released (some (.generation 0)) rfl fun σ hσ => by
      cases hσ; exact List.mem_cons_self)
  have loose : ReflTransGen (Loose late) _ _ := Loose.of_turns (guarded_start _ _) turns
  have away := loose.tail (.giveUp rfl)
    |>.tail (.turn (.foreign ⟨.integer 7, some 2⟩ (.generation 1) rfl (by decide))
      fun i _ => Traffic.timely_of_calls rfl i)
    |>.tail (.turn (.foreign ⟨.integer 8, some 5⟩ (.generation 2) rfl (by decide))
      fun i _ => Traffic.timely_of_calls rfl i)
  have back := away.tail (.turn (.arrive rfl) fun i _ => Traffic.timely_of_calls rfl i)
    |>.tail (.turn (.acquired (some (.generation 2)) rfl fun σ hσ => by cases hσ; rfl)
      fun i _ => Traffic.timely_of_calls rfl i)
  refine ⟨_, back, rfl, rfl, fun u => ?_, rfl, rfl, rfl⟩
  by_cases htwo : u = 2
  · subst htwo
    rfl
  · by_cases hone : u = 1
    · subst hone
      rfl
    · show (if u = 2 then _ else if u = 2 then _ else if u = 2 then _ else if u = 1 then _ else
        if u = 1 then _ else if u = 1 then _ else none) = _
      simp [htwo, hone]

/-- The put goes on, and so does the lookup. The entry of the first key is then wrong; the second
key, whose old answer was not kept, is looked up again and right. -/
theorem overtaken_lookup_is_not_kept :
    ∃ s : Tenancy Nat,
      ReflTransGen (Loose {(Key.integer 7).identity}) (start (fun _ => some 1) (.generation 0)) s ∧
      s.hold = .trusted ∧
      s.traffic.cache.get? (.integer 7) = some (.present 3) ∧
      s.traffic.content (.integer 7) = some 2 ∧
      s.traffic.cache.get? (.integer 8) = some (.present 5) ∧
      Entry.present 5 = .ofOption (s.traffic.content (.integer 8)) := by
  let late : Set Identity := {(Key.integer 7).identity}
  obtain ⟨s, hrun, hheld, hcreated, hcalls, hcache, hseven, height⟩ := exists_overtaken late
  have htimely : ∀ {t t' : Traffic Nat}, (∀ u w n, t.calls u = some (.stored w true n) →
      w.key = .integer 7) → ∀ i ∉ late, Traffic.Timely t t' i := by
    intro t t' honly i hi u w v n hw _ hs _
    rw [honly u w n hs] at hw
    exact absurd hw.symm hi
  -- the put sets its entry, and the answer of the lookup is one of an earlier epoch
  let memory := (s.traffic.cache.settle ⟨.integer 7, some 3⟩ true).fill (.integer 8)
    (.ofOption (some 1)) 0
  have hprobe : memory.probe (.integer 8) = .vacant 2 := by
    simp only [memory, hcache]
    rfl
  have read := hrun
    |>.tail (.call hcreated (.settle (t := 1) (hcalls 1)) (htimely (by grind)))
    |>.tail (.call hcreated (.fill (t := 2) (hcalls 2)) (htimely (by grind [Traffic.calls_goto])))
    |>.tail (.call hcreated (.startLookup (t := 3) (.integer 8) (hcalls 3))
      (htimely (by grind [Traffic.calls_goto])))
    |>.tail (.call hcreated (.miss (t := 3) rfl hprobe) (htimely (by grind [Traffic.calls_goto])))
    |>.tail (.call hcreated (.fetch (t := 3) rfl) (htimely (by grind [Traffic.calls_goto])))
    |>.tail (.call hcreated (.fill (t := 3) rfl) (htimely (by grind [Traffic.calls_goto])))
  obtain ⟨hright, -, -⟩ := only_late_puts_leave_other_values read
  have hnew : (memory.countMiss.fill (.integer 8) (.ofOption (s.traffic.content (.integer 8)))
      2).get? (.integer 8) = some (.present 5) := by
    rw [height]
    simp only [memory, hcache]
    rfl
  have hlate : (memory.countMiss.fill (.integer 8) (.ofOption (s.traffic.content (.integer 8)))
      2).get? (.integer 7) = some (.present 3) := by
    rw [height]
    simp only [memory, hcache]
    rfl
  have hspared : (Key.integer 8).identity ∉ late := by
    rw [Set.mem_singleton_iff]
    decide
  refine ⟨_, read, hheld, hlate, hseven, hnew, hright hheld hspared ?_ hnew⟩
  rintro ⟨u, c, w, hu, hc, -⟩
  change (if u = 3 then some _ else if u = 3 then some _ else if u = 3 then some _ else
    if u = 3 then some _ else if u = 2 then some _ else if u = 1 then some _ else
    s.traffic.calls u) = some c at hu
  rw [hcalls u] at hu
  split_ifs at hu <;> cases hu <;> cases hc

end Tenancy

/-- The one store under a lease. A put on it returns only after access was given up and taken again,
and another process has written the key meanwhile. -/
def Store.slow : Store Unit where
  get := Site.single.store.get
  put k v := do
    let result ← Site.single.store.put k v
    Lease.beforeReleased Site.single.lease
    Site.single.foreign ⟨k, some (.u8 2)⟩ (.generation 1)
    Lease.beforeAcquired Site.single.lease
    return result
  remove := Site.single.store.remove

/-- A put is overtaken. The store holds what the other process wrote, access is held, and the lookup
answers with what was put before. -/
theorem Facade.overtaken_put_is_read_back :
    ∃ w, (do
        Lease.beforeAcquired Site.single.lease
        put .slow Site.single.cell (.integer 7) (.u8 1)) World.single = (.ok (.ok ()), w) ∧
      (w.tables.get Site.single.table).get? (Key.integer 7).identity = some (.u8 2) ∧
      (w.leases.get Site.single.lease).phase = .locked ∧
      (w.cells.get Site.single.cell).cache.get? (.integer 7) = some (.present (.u8 1)) ∧
      (get .slow Site.single.cell (.integer 7) w).1 = .ok (.ok (some (.u8 1))) :=
  ⟨_, rfl, rfl, rfl, rfl, rfl⟩

end LeaseCache
