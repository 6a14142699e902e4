import LeaseCache.Proofs.FacadeSteps
import LeaseCache.Proofs.HeldAccess
import LeaseCache.Proofs.HookSpec

/-!
# A hook of a lease is a run of turns

A hook goes through all memories of a registry. For the store of one of them it is what a `Tenancy`
calls a hook: the acquire hook makes the memory trusted, the release hook leaves it trusted, and
what is done to the memories of other stores is nothing to it (`Lease.beforeAcquired_run`,
`Lease.beforeReleased_run`). Calls may be anywhere on their way when a hook runs; it leaves them
where they are (`Tenancy.Hooked`).

The marker may have any answer that was set, a failure too, as long as a signal it answers with is
the one of now.
-/

namespace LeaseCache

open Relation (ReflTransGen)

variable {σ : Type}

/-- A world shows a tenancy: the calls in a memory and a table, and a marker that cannot be read or
shows the signal of now. -/
structure Tenancy.Shown (c j : Nat) (w : World σ) (s : Tenancy Value) : Prop where
  traffic : s.traffic.Shown c (fun w : World σ => (w.tables.get j).get?) w
  created : s.created = true
  marker : ∃ answer, (w.markers.get (w.cells.get c).marker).kind = .fixed answer ∧
    ∀ signal, answer.toOption = some signal → signal = s.signal

/-- A run of turns that leaves the calls, the lock and the signals as they are. -/
structure Tenancy.Hooked (s s' : Tenancy Value) : Prop where
  run : ReflTransGen Turn s s'
  calls : s'.traffic.calls = s.traffic.calls
  writer : s'.traffic.writer = s.traffic.writer
  shown : s'.shown = s.shown

namespace Tenancy.Hooked

variable {s s' s'' : Tenancy Value}

theorem refl (s : Tenancy Value) : Hooked s s := ⟨.refl, rfl, rfl, rfl⟩

theorem trans (h : Hooked s s') (h' : Hooked s' s'') : Hooked s s'' :=
  ⟨h.run.trans h'.run, h'.calls.trans h.calls, h'.writer.trans h.writer, h'.shown.trans h.shown⟩

theorem of_turn {f : Cache Value → Cache Value} {hold : Hold}
    (h : Turn s { s with traffic := s.hook f, hold := hold }) :
    Hooked s { s with traffic := s.hook f, hold := hold } where
  run := .single h
  calls := by
    show (s.hook f).calls = _
    unfold hook
    split <;> rfl
  writer := by
    show (s.hook f).writer = _
    unfold hook
    split <;> rfl
  shown := rfl

end Tenancy.Hooked

namespace Tenancy.Shown

variable {c d j : Nat} {w w' : World σ} {s : Tenancy Value} {f : Cache Value → Cache Value}

theorem of_alike (hs : s.Shown c j w) (h : w.Alike w') : s.Shown c j w' where
  traffic := hs.traffic.of_holds h.cells (by rw [h.tables])
  created := hs.created
  marker := by
    obtain ⟨answer, hkind, hsignal⟩ := hs.marker
    refine ⟨answer, ?_, hsignal⟩
    rw [h.cells, h.kinds, hkind]

theorem changed_self (hs : s.Shown c j w) (h : w.Changed c f w') (hold : Hold) :
    ({ s with traffic := s.hook f, hold := hold } : Tenancy Value).Shown c j w' where
  traffic := by
    rw [hook_of_created hs.created]
    constructor
    · rw [h.cells, if_pos rfl, hs.traffic.cache]
    · intro l
      rw [h.tables]
      exact hs.traffic.content l
    · rw [h.cells, if_pos rfl]
      exact hs.traffic.lock
  created := hs.created
  marker := by
    obtain ⟨answer, hkind, hsignal⟩ := hs.marker
    refine ⟨answer, ?_, hsignal⟩
    rw [h.cells, if_pos rfl, h.kinds, hkind]

theorem changed_other (hs : s.Shown c j w) (hd : d ≠ c) (h : w.Changed d f w') :
    s.Shown c j w' where
  traffic := by
    constructor
    · rw [h.cells, if_neg hd.symm, hs.traffic.cache]
    · intro l
      rw [h.tables]
      exact hs.traffic.content l
    · rw [h.cells, if_neg hd.symm]
      exact hs.traffic.lock
  created := hs.created
  marker := by
    obtain ⟨answer, hkind, hsignal⟩ := hs.marker
    refine ⟨answer, ?_, hsignal⟩
    rw [h.cells, if_neg hd.symm, h.kinds, hkind]

/-- The depth of a lease is nothing to the memories. -/
theorem shift (hs : s.Shown c j w) (l : Nat) (by' : Int) :
    ∃ w', Lease.shift l by' w = (.ok ((w.leases.get l).depth + by'), w') ∧ s.Shown c j w' ∧
      w'.registries = w.registries ∧
      (w'.leases.get l).registry = (w.leases.get l).registry := by
  let w' : World σ :=
    { w with leases := w.leases.modify l fun l => { l with depth := l.depth + by' } }
  have hlease : w'.leases.get l =
      { w.leases.get l with depth := (w.leases.get l).depth + by' } := by
    rw [Pool.get_modify, if_pos rfl]
  refine ⟨w', ?_, ⟨⟨hs.traffic.cache, hs.traffic.content, hs.traffic.lock⟩, hs.created, hs.marker⟩,
    rfl, ?_⟩
  · show (Except.ok (w'.leases.get l).depth, w') = _
    rw [hlease]
  · rw [hlease]

/-! ## One memory after the other -/

/-- Recording the markers of memories is a run of release hooks. -/
theorem recordAll_run (hs : s.Shown c j w) (hheld : s.hold = .trusted)
    (hseen : s.signal ∈ s.shown) (cells : List Nat) :
    ∃ w' s', Lease.recordAll cells w = (.ok (), w') ∧ s.Hooked s' ∧
      s'.Shown c j w' ∧ s'.hold = .trusted := by
  induction cells generalizing w s with
  | nil => exact ⟨w, s, rfl, .refl s, hs, hheld⟩
  | cons d rest ih =>
    obtain ⟨r, w₁, hrecord, hchanged, hfixed⟩ := Memory.recordMarker_ok d w
    rw [Lease.recordAll, Act.bind_ok _ hrecord]
    by_cases hd : d = c
    · subst hd
      obtain ⟨answer, hkind, hsignal⟩ := hs.marker
      have hreading : s.Seen r := by
        intro signal hr
        rw [hfixed answer hkind] at hr
        rw [hsignal signal hr]
        exact hseen
      have hturn : Turn s { s with traffic := s.hook (·.record r), hold := s.hold } :=
        .released r hheld hreading
      obtain ⟨w', s', hrest, hrun, hs'⟩ := ih (hs.changed_self hchanged s.hold) hheld hseen
      exact ⟨w', s', hrest, (Hooked.of_turn hturn).trans hrun, hs'⟩
    · exact ih (hs.changed_other hd hchanged) hheld hseen

/-- The acquire hook on the memory of the store makes it trusted. -/
theorem invalidate_turn (hs : s.Shown c j w) (hhold : s.hold = .arrived ∨ s.hold = .trusted)
    (hseen : s.signal ∈ s.shown) {r : Option Signal}
    (hfixed : ∀ a, (w.markers.get (w.cells.get c).marker).kind = .fixed a → r = a.toOption) :
    Turn s { s with traffic := s.hook (·.invalidate r), hold := .trusted } := by
  obtain ⟨answer, hkind, hsignal⟩ := hs.marker
  have hcurrent : ∀ signal, r = some signal → signal = s.signal := by
    intro signal hr
    rw [hfixed answer hkind] at hr
    exact hsignal signal hr
  rcases hhold with harrived | htrusted
  · exact .acquired r harrived hcurrent
  · refine .acquiredAgain r htrusted ?_
    intro signal hr
    rw [hcurrent signal hr]
    exact hseen

/-- Invalidating memories is a run of acquire hooks. -/
theorem invalidateAll_run (hs : s.Shown c j w) (hhold : s.hold = .arrived ∨ s.hold = .trusted)
    (hseen : s.signal ∈ s.shown) (cells : List Nat) :
    ∃ n w' s', Lease.invalidateAll cells w = (.ok n, w') ∧ s.Hooked s' ∧
      s'.Shown c j w' ∧ (s.hold = .trusted ∨ c ∈ cells → s'.hold = .trusted) := by
  induction cells generalizing w s with
  | nil => exact ⟨0, w, s, rfl, .refl s, hs, by simp⟩
  | cons d rest ih =>
    obtain ⟨r, b, w₁, hinvalidate, hchanged, hfixed⟩ := Memory.invalidateIfStale_ok d w
    rw [Lease.invalidateAll, Act.bind_ok _ hinvalidate]
    by_cases hd : d = c
    · subst hd
      have hturn := hs.invalidate_turn hhold hseen hfixed
      obtain ⟨n, w', s', hrest, hrun, hs', htrusted⟩ :=
        ih (hs.changed_self hchanged .trusted) (.inr rfl) hseen
      rw [Act.bind_ok _ hrest]
      exact ⟨_, w', s', rfl, (Hooked.of_turn hturn).trans hrun, hs', fun _ => htrusted (.inl rfl)⟩
    · obtain ⟨n, w', s', hrest, hrun, hs', htrusted⟩ :=
        ih (hs.changed_other hd hchanged) hhold hseen
      rw [Act.bind_ok _ hrest]
      refine ⟨_, w', s', rfl, hrun, hs', fun h => htrusted (h.imp_right fun hmem => ?_)⟩
      exact (List.mem_cons.1 hmem).resolve_left (Ne.symm hd)

end Tenancy.Shown

namespace Lease

variable {c j l : Nat} {w : World σ} {s : Tenancy Value}

/-- The release hook of a lease, while the memory is trusted. -/
theorem beforeReleased_run (hs : s.Shown c j w) (hheld : s.hold = .trusted)
    (hseen : s.signal ∈ s.shown) :
    ∃ w' s', beforeReleased l w = (.ok (), w') ∧ s.Hooked s' ∧ s'.Shown c j w' ∧
      s'.hold = .trusted := by
  obtain ⟨w₁, s', hrecord, hrun, hs₁, hheld'⟩ :=
    hs.recordAll_run hheld hseen (w.registries.get (w.leases.get l).registry).cells.values
  obtain ⟨w₂, hshift, hs₂, -, -⟩ := hs₁.shift l (-1)
  rw [beforeReleased, Act.bind_ok _ (show cells l w = (.ok _, w) from rfl),
    Act.bind_ok _ hrecord, Act.bind_ok _ hshift]
  exact ⟨_, s', rfl, hrun, hs₂.of_alike (w₂.alike_report _), hheld'⟩

/-- The acquire hook of a lease whose registry has the memory; it is trusted from then on. -/
theorem beforeAcquired_run (hs : s.Shown c j w) (hhold : s.hold = .arrived ∨ s.hold = .trusted)
    (hseen : s.signal ∈ s.shown)
    (hregistered : c ∈ (w.registries.get (w.leases.get l).registry).cells.values) :
    ∃ w' s', beforeAcquired l w = (.ok (), w') ∧ s.Hooked s' ∧ s'.Shown c j w' ∧
      s'.hold = .trusted := by
  obtain ⟨w₁, hshift, hs₁, hregistries, hregistry⟩ := hs.shift l 1
  obtain ⟨n, w₂, s', hinvalidate, hrun, hs₂, htrusted⟩ := hs₁.invalidateAll_run hhold hseen
    (w₁.registries.get (w₁.leases.get l).registry).cells.values
  rw [beforeAcquired, Act.bind_ok _ hshift,
    Act.bind_ok _ (show cells l w₁ = (.ok _, w₁) from rfl), Act.bind_ok _ hinvalidate]
  refine ⟨_, s', rfl, hrun, hs₂.of_alike (w₂.alike_report _), htrusted (.inr ?_)⟩
  rw [hregistries, hregistry]
  exact hregistered

end Lease

end LeaseCache
