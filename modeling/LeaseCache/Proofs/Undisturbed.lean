import LeaseCache.Proofs.Coherence

/-!
# Calls while nobody else writes the store

Any number of lookups and writes on the facades of one store, their steps in any order, and the
memory cleared, invalidated or recorded at any moment. The main statement has two parts. A key that
no write has left between store and memory has no entry, or the one that the store's content gives.
And a lookup made after a write of its key has ended well answers with the result of that write, or
of one that took effect later.
-/

namespace LeaseCache.Traffic

open Relation (ReflTransGen)

variable {V : Type} {s s' : Traffic V} {k : Key}

/-- A step while nobody writes the store behind the facades. -/
inductive Undisturbed : Traffic V → Traffic V → Prop
  | call {s s' : Traffic V} (h : Step s s') : Undisturbed s s'
  | clear {s : Traffic V} : Undisturbed s { s with cache := s.cache.clear }
  | invalidate {s : Traffic V} (reading : Option Signal) :
      Undisturbed s { s with cache := s.cache.invalidate reading }
  | record {s : Traffic V} (reading : Option Signal) :
      Undisturbed s { s with cache := s.cache.record reading }

/-- What holds after every undisturbed run. -/
structure Sound (s : Traffic V) : Prop where
  orderly : Orderly s
  coherent : Coherent s
  recent : Recent s

theorem sound_start (baseline : Option Signal) (first : Identity → Option V) :
    Sound (start (.fresh baseline) first) :=
  ⟨orderly_start _ _, coherent_start _ _, recent_start _ _⟩

theorem Sound.cleared {c : Cache V} (h : Sound s) (hentries : c.entries = .empty)
    (hepoch : s.cache.epoch < c.epoch) : Sound { s with cache := c } where
  orderly := h.orderly.withCache (Nat.le_of_lt hepoch)
  coherent := h.orderly.dated.coherent_of_cleared hentries hepoch
  recent := h.recent.cleared h.orderly hentries hepoch

theorem Sound.kept {c : Cache V} (h : Sound s) (hentries : c.entries = s.cache.entries)
    (hepoch : c.epoch = s.cache.epoch) : Sound { s with cache := c } where
  orderly := h.orderly.withCache (Nat.le_of_eq hepoch.symm)
  coherent := h.coherent.withCache hentries hepoch
  recent := h.recent.withCache hentries hepoch

theorem Sound.undisturbed (h : Sound s) (hstep : Undisturbed s s') : Sound s' := by
  cases hstep with
  | call hstep =>
    exact ⟨h.orderly.step hstep, h.coherent.step h.orderly hstep,
      h.recent.step h.orderly h.coherent hstep⟩
  | clear => exact h.cleared rfl (Nat.lt_succ_self _)
  | invalidate reading =>
    rcases Cache.invalidate_cases s.cache reading with ⟨-, hkept⟩ | ⟨hentries, hepoch, -⟩
    · rw [hkept]
      exact h
    · exact h.cleared hentries (by rw [hepoch]; exact Nat.lt_succ_self _)
  | record reading => exact h.kept rfl rfl

theorem Sound.run (h : Sound s) (hrun : ReflTransGen Undisturbed s s') : Sound s' := by
  induction hrun with
  | refl => exact h
  | tail _ hstep ih => exact ih.undisturbed hstep

/-- The entry of a key that is not pending is missing or what the store holds. -/
theorem Sound.agree (h : Sound s) (hp : ¬ s.Pending k) :
    s.cache.get? k = none ∨ s.cache.get? k = some (.ofOption (s.content k)) := by
  cases he : s.cache.get? k with
  | none => exact .inl rfl
  | some e =>
    have hvalue : e.value? = s.content k := h.coherent.entry hp he
    rw [← hvalue, Entry.ofOption_value?]
    exact .inr rfl

/-! ## A lookup made after a write -/

theorem Undisturbed.done_stable {t n : Nat} {w : Write V} {ok : Bool} (h : Undisturbed s s')
    (ht : s.calls t = some (.done w ok n)) : s'.calls t = some (.done w ok n) := by
  cases h with
  | call h => exact h.done_stable ht
  | _ => exact ht

/-- What a lookup has learned is no older than a write at place `n`. -/
structure Learned (s : Traffic V) (n u : Nat) (k : Key) : Prop where
  fetched : ∀ {m x}, s.calls u = some (.fetched k m x) → Effect.Since s.effects n k.identity x
  found : ∀ {a}, s.calls u = some (.found k a) → Effect.Since s.effects n k.identity a.value?

theorem Learned.mono {n u : Nat} (h : Learned s n u k) (heff : s.effects <:+ s'.effects)
    (hu : ∀ d, s'.calls u = some d → s.calls u = some d) : Learned s' n u k where
  fetched hf := (h.fetched (hu _ hf)).mono heff
  found hf := (h.found (hu _ hf)).mono heff

theorem Learned.step {t n u : Nat} {w : Write V} (h : Learned s n u k) (hs : Sound s)
    (ht : s.calls t = some (.done w true n)) (hk : k.Same w.key) (hstep : Step s s') :
    Learned s' n u k := by
  have hmono := hstep.effects_suffix
  constructor
  · intro m x hu
    cases hstep with
    | fetch at' =>
      rcases calls_goto_cases hu with ⟨-, hd⟩ | ⟨-, hold⟩
      · obtain ⟨rfl, -, rfl⟩ := Call.fetched.inj hd
        exact hs.recent.content ht (.inr rfl) hk
      · exact h.fetched hold
    | _ =>
      rcases calls_goto_cases hu with ⟨-, hd⟩ | ⟨-, hold⟩
      · cases hd
      · exact (h.fetched hold).mono hmono
  · intro a hu
    cases hstep with
    | hit at' probe =>
      rcases calls_goto_cases hu with ⟨-, hd⟩ | ⟨-, hold⟩
      · obtain ⟨rfl, rfl⟩ := Call.found.inj hd
        exact hs.recent.entry ht hk (Cache.get?_of_probe probe)
      · exact h.found hold
    | fill at' =>
      rcases calls_goto_cases hu with ⟨rfl, hd⟩ | ⟨-, hold⟩
      · obtain ⟨rfl, rfl⟩ := Call.found.inj hd
        exact h.fetched at'
      · exact h.found hold
    | _ =>
      rcases calls_goto_cases hu with ⟨-, hd⟩ | ⟨-, hold⟩
      · cases hd
      · exact (h.found hold).mono hmono

/-- From a moment at which a write has ended and the lookup was not made yet, the lookup learns
nothing older than that write. -/
theorem Learned.run {t n u : Nat} {w : Write V} (hs : Sound s)
    (ht : s.calls t = some (.done w true n)) (hk : k.Same w.key) (hu : s.calls u = none)
    (hrun : ReflTransGen Undisturbed s s') : Learned s' n u k := by
  have hboth : Learned s' n u k ∧ s'.calls t = some (.done w true n) := by
    induction hrun with
    | refl => exact ⟨⟨fun h => (by rw [hu] at h; cases h), fun h => (by rw [hu] at h; cases h)⟩, ht⟩
    | @tail b c hab hstep ih =>
      obtain ⟨hlearned, hdone⟩ := ih
      refine ⟨?_, hstep.done_stable hdone⟩
      cases hstep with
      | call hstep => exact hlearned.step (hs.run hab) hdone hk hstep
      | _ => exact hlearned.mono (List.suffix_refl _) fun _ h => h
  exact hboth.1

/-! ## The memory and the store agree, and ended writes are read -/

/-- After every undisturbed run the entry of a key that is not pending is missing or what the store
holds; and after a write has ended well, whoever then looks its key up and gets an answer gets the
result of that write or of a later one. -/
theorem undisturbed_agree_and_read_ended_writes {baseline : Option Signal}
    {first : Identity → Option V} (h : ReflTransGen Undisturbed (start (.fresh baseline) first) s) :
    (∀ k, ¬ s.Pending k →
      s.cache.get? k = none ∨ s.cache.get? k = some (.ofOption (s.content k))) ∧
    ∀ t w n, s.calls t = some (.done w true n) →
      Effect.At s.effects n w.key.identity w.value? ∧
      ∀ s' u k a, s.calls u = none → ReflTransGen Undisturbed s s' →
        s'.calls u = some (.found k a) → k.Same w.key →
        Effect.Since s'.effects n w.key.identity a.value? := by
  have hs : Sound s := (sound_start baseline first).run h
  refine ⟨fun _ => hs.agree, fun t w n ht => ⟨hs.recent.placed ht (.inr rfl), ?_⟩⟩
  intro s' u k a hu hrun hfound hk
  have hlearned : Learned s' n u k := Learned.run hs ht hk hu hrun
  rw [show w.key.identity = k.identity from hk.symm]
  exact hlearned.found hfound

/-- A slow miss hands its old answer in after a put has ended; the next lookup reads the put. -/
theorem slow_miss_does_not_hide_an_ended_put :
    ∃ s s' : Traffic Nat,
      s.calls 0 = some (.fetched (.integer 7) 0 (some 1)) ∧
      s.calls 1 = some (.done ⟨.integer 7, some 2⟩ true 0) ∧
      s'.calls 0 = some (.found (.integer 7) (.miss (some 1))) ∧
      s'.calls 2 = some (.found (.integer 7) (.hit (some 2))) ∧
      (∀ k, ¬ s.Pending k →
        s.cache.get? k = none ∨ s.cache.get? k = some (.ofOption (s.content k))) ∧
      Effect.Since s'.effects 0 (.integer 7) (some 2) := by
  obtain ⟨s, s', hrun, hmiss, hput, hfree, hrun', hslow, hnext⟩ : ∃ s s' : Traffic Nat,
      ReflTransGen Undisturbed (start (.fresh none) fun _ => some 1) s ∧
      s.calls 0 = some (.fetched (.integer 7) 0 (some 1)) ∧
      s.calls 1 = some (.done ⟨.integer 7, some 2⟩ true 0) ∧ s.calls 2 = none ∧
      ReflTransGen Undisturbed s s' ∧
      s'.calls 0 = some (.found (.integer 7) (.miss (some 1))) ∧
      s'.calls 2 = some (.found (.integer 7) (.hit (some 2))) :=
    ⟨_, _, .tail (.tail (.tail (.tail (.tail (.tail (.tail (.tail .refl
      (.call (.startLookup (t := 0) (.integer 7) rfl))) (.call (.miss (t := 0) rfl rfl)))
      (.call (.fetch (t := 0) rfl))) (.call (.startWrite (t := 1) ⟨.integer 7, some 2⟩ rfl)))
      (.call (.lock (t := 1) rfl rfl))) (.call (.store (t := 1) true rfl)))
      (.call (.settle (t := 1) rfl))) (.call (.unlock (t := 1) rfl)),
      rfl, rfl, rfl,
      .tail (.tail (.tail .refl (.call (.fill (t := 0) rfl)))
        (.call (.startLookup (t := 2) (.integer 7) rfl))) (.call (.hit (t := 2) rfl rfl)),
      rfl, rfl⟩
  obtain ⟨hagree, hread⟩ := undisturbed_agree_and_read_ended_writes hrun
  exact ⟨s, s', hmiss, hput, hslow, hnext, hagree,
    (hread 1 _ 0 hput).2 s' 2 _ _ hfree hrun' hnext rfl⟩

end LeaseCache.Traffic
