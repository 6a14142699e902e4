import LeaseCache.Proofs.Coherence
import Mathlib.Data.Set.Basic

/-!
# Access taken and given up

One process and the others take turns with a store. The process holds access, runs the acquire hook,
makes its calls, runs the release hook and gives access up; the others write only meanwhile, and
every write of theirs moves the marker to a signal it has not shown before. Lookups need no access:
their steps may lie in different turns.

The invariant is `Spared`. While the memory is trusted it agrees with the store. Otherwise it
agrees as long as the marker shows the baseline, so the next acquire hook keeps the right entries
and drops the wrong ones; and an answer that was on its way then belongs to an earlier epoch. This
does not need that writes have ended when access is given up (`Loose`), but for the keys of puts
that come to the memory too late; in turns there are none (`Guarded`).
-/

namespace LeaseCache

open Relation (ReflTransGen)

variable {V : Type}

/-- How far this process is with a turn. -/
inductive Hold where
  /-- Another process may have access. -/
  | away
  /-- This process has access; the acquire hook has not run yet. -/
  | arrived
  /-- The acquire hook has run, and access was not given up since. -/
  | trusted
  deriving DecidableEq

/-- The calls of one process on one store, and the turns it takes with the others. -/
structure Tenancy (V : Type) where
  traffic : Traffic V
  /-- Whether the memory is set up; before, `traffic` has an empty one. -/
  created : Bool
  hold : Hold
  /-- The marker's signal. -/
  signal : Signal
  /-- All signals the marker has shown. -/
  shown : List Signal

namespace Tenancy

/-- Before anything is done. -/
def start (first : Identity → Option V) (signal : Signal) : Tenancy V :=
  ⟨.start (.fresh none) first, false, .away, signal, [signal]⟩

/-- A reading that failed, or took one of the signals shown so far. -/
def Seen (s : Tenancy V) (reading : Option Signal) : Prop :=
  ∀ σ, reading = some σ → σ ∈ s.shown

/-- What a hook does to the memory, if there is one. -/
def hook (s : Tenancy V) (f : Cache V → Cache V) : Traffic V :=
  if s.created then { s.traffic with cache := f s.traffic.cache } else s.traffic

/-- What can happen next. A reading made inside a turn may be older than a write that has moved the
marker since, so it is any signal shown so far. Only the first hook of a turn has nothing beside it
that moves the marker. -/
inductive Turn : Tenancy V → Tenancy V → Prop
  | create {s : Tenancy V} (reading : Option Signal) (free : s.created = false)
      (seen : s.Seen reading) :
      Turn s { s with
        traffic := { s.traffic with cache := .fresh reading }
        created := true }
  | call {s : Tenancy V} {t : Traffic V} (created : s.created = true)
      (step : Traffic.Step s.traffic t) (gate : s.hold = .trusted ∨ ¬ t.Writing) :
      Turn s { s with traffic := t }
  /-- The marker moves with a write of this process, also to a signal shown before. -/
  | move {s : Tenancy V} (σ : Signal) (held : s.hold = .trusted) :
      Turn s { s with signal := σ, shown := σ :: s.shown }
  | arrive {s : Tenancy V} (free : s.hold = .away) : Turn s { s with hold := .arrived }
  | acquired {s : Tenancy V} (reading : Option Signal) (held : s.hold = .arrived)
      (current : ∀ σ, reading = some σ → σ = s.signal) :
      Turn s { s with traffic := s.hook (·.invalidate reading), hold := .trusted }
  /-- The acquire hook runs again. -/
  | acquiredAgain {s : Tenancy V} (reading : Option Signal) (held : s.hold = .trusted)
      (seen : s.Seen reading) :
      Turn s { s with traffic := s.hook (·.invalidate reading), hold := .trusted }
  | released {s : Tenancy V} (reading : Option Signal) (held : s.hold = .trusted)
      (seen : s.Seen reading) : Turn s { s with traffic := s.hook (·.record reading) }
  | giveUp {s : Tenancy V} (held : s.hold = .trusted) (idle : ¬ s.traffic.Writing) :
      Turn s { s with hold := .away }
  /-- Another process writes the store. -/
  | foreign {s : Tenancy V} (e : Effect V) (σ : Signal) (free : s.hold = .away)
      (new : σ ∉ s.shown) :
      Turn s { s with
        traffic := { s.traffic with effects := e :: s.traffic.effects }
        signal := σ
        shown := σ :: s.shown }

/-- What can happen next when access may be given up while writes are under way. Calls then go on
with or without access, and a write without access moves the marker too. The puts that come to the
memory when the store no longer holds their value are those of the keys in `late`. -/
inductive Loose (late : Set Identity) : Tenancy V → Tenancy V → Prop
  | turn {s s' : Tenancy V} (step : Turn s s')
      (timely : ∀ i ∉ late, Traffic.Timely s.traffic s'.traffic i) : Loose late s s'
  | call {s : Tenancy V} {t : Traffic V} (created : s.created = true)
      (step : Traffic.Step s.traffic t) (timely : ∀ i ∉ late, Traffic.Timely s.traffic t i) :
      Loose late s { s with traffic := t }
  | move {s : Tenancy V} (σ : Signal) (new : σ ∉ s.shown) :
      Loose late s { s with signal := σ, shown := σ :: s.shown }
  | giveUp {s : Tenancy V} (held : s.hold = .trusted) : Loose late s { s with hold := .away }

variable {s s' : Tenancy V} {k : Key} {late : Set Identity}

/-! ## The hooks -/

theorem hook_of_created (hcreated : s.created = true) (f : Cache V → Cache V) :
    s.hook f = { s.traffic with cache := f s.traffic.cache } :=
  if_pos hcreated

theorem hook_of_vacant (hfree : s.created = false) (f : Cache V → Cache V) :
    s.hook f = s.traffic := by
  rw [hook, hfree]
  exact if_neg Bool.false_ne_true

theorem orderly_hook (h : s.traffic.Orderly) (f : Cache V → Cache V)
    (hf : s.traffic.cache.epoch ≤ (f s.traffic.cache).epoch) : (s.hook f).Orderly := by
  unfold hook
  split
  · exact h.withCache hf
  · exact h

/-! ## The memory is right, or the marker tells -/

/-- What holds after every run, also a loose one: no call has seen a signal or an epoch to come, and
what is trusted is right for the keys without late puts. -/
structure Spared (late : Set Identity) (s : Tenancy V) : Prop where
  dated : s.traffic.Dated
  signal : s.signal ∈ s.shown
  baseline : s.Seen s.traffic.cache.baseline
  vacant : s.created = false → s.traffic.cache.entries = .empty ∧ ∀ t, s.traffic.calls t = none
  coherent : s.hold = .trusted ∨ s.traffic.cache.baseline = some s.signal →
    ∀ i ∉ late, s.traffic.CoherentAt i

namespace Spared

theorem start (late : Set Identity) (first : Identity → Option V) (signal : Signal) :
    Spared late (start first signal) where
  dated _ _ _ h := by cases h
  signal := List.mem_cons_self
  baseline σ h := by cases h
  vacant _ := ⟨rfl, fun _ => rfl⟩
  coherent _ i _ := Traffic.coherent_iff.1 (Traffic.coherent_start _ _) i

/-- There are no calls on a memory that is not set up. -/
theorem calls_of_vacant (h : Spared late s) (hfree : s.created = false) (t : Nat) (c : Call V) :
    s.traffic.calls t ≠ some c := by
  rw [(h.vacant hfree).2 t]
  exact nofun

/-- A memory that is not set up agrees with every content. -/
theorem coherent_of_vacant (h : Spared late s) (hfree : s.created = false) :
    s.traffic.Coherent := by
  constructor
  · intro k e hp he
    rw [Cache.get?, (h.vacant hfree).1] at he
    cases he
  · intro t k x ht
    exact absurd ht (h.calls_of_vacant hfree t _)

/-- After an acquire hook the memory is trusted, if it was right to keep it. What the hook drops
needs no trust. -/
theorem acquired (h : Spared late s) {reading : Option Signal} (hseen : s.Seen reading)
    (hkept : s.traffic.cache.isFresh reading = true → ∀ i ∉ late, s.traffic.CoherentAt i) :
    Spared late { s with traffic := s.hook (·.invalidate reading), hold := .trusted } := by
  cases hcreated : s.created with
  | false =>
    rw [hook_of_vacant hcreated, ← hcreated]
    exact ⟨h.dated, h.signal, h.baseline, h.vacant,
      fun _ i _ => Traffic.coherent_iff.1 (h.coherent_of_vacant hcreated) i⟩
  | true =>
    rw [hook_of_created hcreated]
    rcases s.traffic.cache.invalidate_cases reading with
      ⟨hfresh, hsame⟩ | ⟨hentries, hepoch, hbaseline⟩
    · -- kept: nothing has changed but the trust
      rw [hsame]
      exact ⟨h.dated, h.signal, h.baseline, nofun, fun _ => hkept hfresh⟩
    · -- dropped: answers on their way belong to an earlier epoch now
      have hlt : s.traffic.cache.epoch < (s.traffic.cache.invalidate reading).epoch := by
        rw [hepoch]
        exact Nat.lt_succ_self _
      refine ⟨h.dated.withCache (Nat.le_of_lt hlt), h.signal, ?_, nofun,
        fun _ i _ => Traffic.coherent_iff.1 (h.dated.coherent_of_cleared hentries hlt) i⟩
      rw [hbaseline]
      exact hseen

/-- The release hook keeps what is trusted. -/
theorem released (h : Spared late s) {reading : Option Signal} (hseen : s.Seen reading)
    (hheld : s.hold = .trusted) :
    Spared late { s with traffic := s.hook (·.record reading) } := by
  have htrusted := h.coherent (.inl hheld)
  cases hcreated : s.created with
  | false =>
    rw [hook_of_vacant hcreated]
    exact ⟨h.dated, h.signal, h.baseline, fun _ => h.vacant hcreated, fun _ => htrusted⟩
  | true =>
    rw [hook_of_created hcreated]
    exact ⟨h.dated.withCache (Nat.le_refl _), h.signal, hseen, nofun,
      fun _ i hi => (htrusted i hi).withCache rfl rfl⟩

theorem call {t : Traffic V} (h : Spared late s) (hcreated : s.created = true)
    (hstep : Traffic.Step s.traffic t) (htimely : ∀ i ∉ late, Traffic.Timely s.traffic t i) :
    Spared late { s with traffic := t } where
  dated := h.dated.step hstep
  signal := h.signal
  baseline := by
    intro σ hσ
    rw [hstep.baseline] at hσ
    exact h.baseline σ hσ
  vacant hfree := absurd (hcreated.symm.trans hfree) (by decide)
  coherent hright i hi := by
    rw [hstep.baseline] at hright
    exact (h.coherent hright i hi).step h.dated hstep (htimely i hi)

/-- A signal not shown before is not the baseline. -/
theorem ne_baseline (h : Spared late s) {σ : Signal} (hnew : σ ∉ s.shown) :
    s.traffic.cache.baseline ≠ some σ :=
  fun hbaseline => hnew (h.baseline σ hbaseline)

theorem seen_cons (h : Spared late s) (σ : Signal) :
    ({ s with signal := σ, shown := σ :: s.shown } : Tenancy V).Seen s.traffic.cache.baseline :=
  fun τ hτ => List.mem_cons_of_mem σ (h.baseline τ hτ)

/-- A write of another process moves the marker away from the baseline. -/
theorem foreign (h : Spared late s) (e : Effect V) {σ : Signal} (hfree : s.hold = .away)
    (hnew : σ ∉ s.shown) :
    Spared late { s with
      traffic := { s.traffic with effects := e :: s.traffic.effects }
      signal := σ
      shown := σ :: s.shown } := by
  refine ⟨h.dated, List.mem_cons_self, h.seen_cons σ, h.vacant, ?_⟩
  rintro (hheld | hbaseline)
  · rw [hfree] at hheld
    cases hheld
  · exact absurd hbaseline (h.ne_baseline hnew)

theorem turn (h : Spared late s) (hturn : Turn s s')
    (htimely : ∀ i ∉ late, Traffic.Timely s.traffic s'.traffic i) : Spared late s' := by
  cases hturn with
  | create reading free seen =>
    have hnocall := h.calls_of_vacant free
    -- there is no entry and no call yet, so every field is about nothing
    refine ⟨fun t c _ ht => absurd ht (hnocall t c), h.signal, seen, nofun, fun _ i _ => ⟨?_, ?_⟩⟩
    · intro k e _ _ he
      cases he
    · intro t k x _ ht
      exact absurd ht (hnocall t _)
  | call created step => exact h.call created step htimely
  | move σ held =>
    exact ⟨h.dated, List.mem_cons_self, h.seen_cons σ, h.vacant, fun _ => h.coherent (.inl held)⟩
  | arrive free =>
    refine ⟨h.dated, h.signal, h.baseline, h.vacant, ?_⟩
    rintro (hheld | hbaseline)
    · cases hheld
    · exact h.coherent (.inr hbaseline)
  | acquired reading held current =>
    refine h.acquired (fun σ hσ => current σ hσ ▸ h.signal) fun hfresh => h.coherent (.inr ?_)
    -- the reading is the signal of now, and it is the baseline
    rw [Cache.isFresh, Bool.and_eq_true, decide_eq_true_iff] at hfresh
    obtain ⟨hsome, hbaseline⟩ := hfresh
    obtain ⟨σ, hσ⟩ := Option.isSome_iff_exists.1 hsome
    rw [hbaseline, hσ, current σ hσ]
  | acquiredAgain reading held seen => exact h.acquired seen fun _ => h.coherent (.inl held)
  | released reading held seen => exact h.released seen held
  | giveUp held =>
    exact ⟨h.dated, h.signal, h.baseline, h.vacant, fun _ => h.coherent (.inl held)⟩
  | foreign e σ free new => exact h.foreign e free new

theorem loose (h : Spared late s) (hstep : Loose late s s') : Spared late s' := by
  cases hstep with
  | turn step timely => exact h.turn step timely
  | call created step timely => exact h.call created step timely
  | move σ new =>
    refine ⟨h.dated, List.mem_cons_self, h.seen_cons σ, h.vacant, ?_⟩
    rintro (hheld | hbaseline)
    · exact h.coherent (.inl hheld)
    · exact absurd hbaseline (h.ne_baseline new)
  | giveUp held =>
    exact ⟨h.dated, h.signal, h.baseline, h.vacant, fun _ => h.coherent (.inl held)⟩

theorem run (h : Spared late s) (hrun : ReflTransGen (Loose late) s s') : Spared late s' := by
  induction hrun with
  | refl => exact h
  | tail _ hstep ih => exact ih.loose hstep

end Spared

/-! ## No write is under way when access is given up -/

/-- What holds after every run of turns. -/
structure Guarded (s : Tenancy V) : Prop where
  orderly : s.traffic.Orderly
  unwritten : s.hold ≠ .trusted → ¬ s.traffic.Writing
  spared : Spared ∅ s

theorem guarded_start (first : Identity → Option V) (signal : Signal) :
    Guarded (start first signal) where
  orderly := Traffic.orderly_start _ _
  unwritten _ := by
    rintro ⟨t, c, ht, -⟩
    cases ht
  spared := .start _ _ _

theorem Guarded.coherent (h : Guarded s)
    (hright : s.hold = .trusted ∨ s.traffic.cache.baseline = some s.signal) :
    s.traffic.Coherent :=
  Traffic.coherent_iff.2 fun i => h.spared.coherent hright i (Set.notMem_empty i)

theorem Guarded.orderly_turn (h : Guarded s) (hturn : Turn s s') : s'.traffic.Orderly := by
  have hacquired : ∀ reading : Option Signal,
      s.traffic.cache.epoch ≤ (s.traffic.cache.invalidate reading).epoch := by
    intro reading
    rcases s.traffic.cache.invalidate_cases reading with ⟨-, hsame⟩ | ⟨-, hepoch, -⟩
    · rw [hsame]
    · rw [hepoch]
      exact Nat.le_succ _
  cases hturn with
  | create reading free =>
    have hnocall := h.spared.calls_of_vacant free
    exact ⟨fun ht => absurd ht (hnocall _ _), fun ht => absurd ht (hnocall _ _),
      fun ht => absurd ht (hnocall _ _)⟩
  | call created step => exact h.orderly.step step
  | move | arrive | giveUp => exact h.orderly
  | acquired reading | acquiredAgain reading =>
    exact orderly_hook h.orderly (·.invalidate reading) (hacquired reading)
  | released reading => exact orderly_hook h.orderly (·.record reading) (Nat.le_refl _)
  | foreign e σ free =>
    -- no write of ours is at the store, so none has to have the newest effect
    have hidle : ¬ s.traffic.Writing := h.unwritten (by rw [free]; decide)
    exact ⟨h.orderly.holder, h.orderly.epoch_le, fun ht => absurd ⟨_, _, ht, trivial⟩ hidle⟩

theorem Guarded.unwritten_turn (h : Guarded s) (hturn : Turn s s') (hheld : s'.hold ≠ .trusted) :
    ¬ s'.traffic.Writing := by
  cases hturn with
  | create reading free => exact h.unwritten hheld
  | call created step gate => exact gate.resolve_left hheld
  | move σ held => exact absurd held hheld
  | arrive free => exact h.unwritten (by rw [free]; decide)
  | acquired | acquiredAgain => exact absurd rfl hheld
  | released reading held => exact absurd held hheld
  | giveUp held idle => exact idle
  | foreign e σ free => exact h.unwritten hheld

theorem Guarded.turn (h : Guarded s) (hturn : Turn s s') : Guarded s' where
  orderly := h.orderly_turn hturn
  unwritten := h.unwritten_turn hturn
  spared := h.spared.turn hturn fun i _ => h.orderly.timely s'.traffic i

theorem Guarded.run (h : Guarded s) (hrun : ReflTransGen Turn s s') : Guarded s' := by
  induction hrun with
  | refl => exact h
  | tail _ hturn ih => exact ih.turn hturn

/-! ## What is trusted is right -/

/-- While access is held and the acquire hook has run, every entry is what the store holds, except
that of a key whose write has reached the store and not yet the memory. -/
theorem trusted_entries_are_the_content {first : Identity → Option V} {signal : Signal}
    (h : ReflTransGen Turn (start first signal) s) (hheld : s.hold = .trusted)
    (hp : ¬ s.traffic.Pending k) {e : Entry V} (he : s.traffic.cache.get? k = some e) :
    e = .ofOption (s.traffic.content k) := by
  have hs : Guarded s := (guarded_start first signal).run h
  rw [← (hs.coherent (.inl hheld)).entry hp he, Entry.ofOption_value?]

/-- A lookup asks the store, another process writes, and the lookup hands the old answer in during
the next turn. It is not kept; the next lookup reads the new value. -/
theorem slow_miss_across_turns_is_not_kept :
    ∃ s : Tenancy Nat,
      ReflTransGen Turn (start (fun _ => some 1) (.generation 0)) s ∧ s.hold = .trusted ∧
      s.traffic.calls 1 = some (.found (.integer 7) (.miss (some 1))) ∧
      s.traffic.cache.get? (.integer 7) = some (.present 2) ∧
      Entry.present 2 = .ofOption (s.traffic.content (.integer 7)) := by
  obtain ⟨s, hrun, hheld, hslow, hentry, hfree⟩ : ∃ s : Tenancy Nat,
      ReflTransGen Turn (start (fun _ => some 1) (.generation 0)) s ∧ s.hold = .trusted ∧
      s.traffic.calls 1 = some (.found (.integer 7) (.miss (some 1))) ∧
      s.traffic.cache.get? (.integer 7) = some (.present 2) ∧ s.traffic.writer = none := by
    have created := ReflTransGen.refl.tail (Turn.arrive (V := Nat)
        (s := start (fun _ => some 1) (.generation 0)) rfl)
      |>.tail (.create (some (.generation 0)) rfl fun σ hσ => by cases hσ; exact List.mem_cons_self)
      |>.tail (.acquired (some (.generation 0)) rfl fun σ hσ => by cases hσ; rfl)
    have asked := created.tail (.call rfl (.startLookup (t := 1) (.integer 7) rfl) (.inl rfl))
      |>.tail (.call rfl (.miss (t := 1) rfl rfl) (.inl rfl))
      |>.tail (.call rfl (.fetch (t := 1) rfl) (.inl rfl))
    have away := asked.tail (.released (some (.generation 0)) rfl fun σ hσ => by
        cases hσ; exact List.mem_cons_self)
      |>.tail (.giveUp rfl (by
        rintro ⟨t, c, ht, hc⟩
        change (if t = 1 then _ else if t = 1 then _ else if t = 1 then _ else none) = some c at ht
        split at ht <;> simp_all
        subst ht
        exact hc))
    have back := away.tail (.foreign ⟨.integer 7, some 2⟩ (.generation 1) rfl (by decide))
      |>.tail (.arrive rfl)
      |>.tail (.acquired (some (.generation 1)) rfl fun σ hσ => by cases hσ; rfl)
    have read := back.tail (.call rfl (.fill (t := 1) rfl) (.inl rfl))
      |>.tail (.call rfl (.startLookup (t := 2) (.integer 7) rfl) (.inl rfl))
      |>.tail (.call rfl (.miss (t := 2) rfl rfl) (.inl rfl))
      |>.tail (.call rfl (.fetch (t := 2) rfl) (.inl rfl))
      |>.tail (.call rfl (.fill (t := 2) rfl) (.inl rfl))
    exact ⟨_, read, rfl, rfl, rfl, rfl⟩
  have hidle : ¬ s.traffic.Pending (.integer 7) :=
    ((guarded_start _ _).run hrun).orderly.not_pending_of_free hfree
  exact ⟨s, hrun, hheld, hslow, hentry, trusted_entries_are_the_content hrun hheld hidle hentry⟩

end Tenancy

end LeaseCache
