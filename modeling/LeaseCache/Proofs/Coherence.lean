import LeaseCache.Proofs.Interleaving

/-!
# The memory agrees with the store

Three invariants of the steps of calls in any order.

* `Orderly` — one write holds the lock, no call has seen an epoch that is still to come, and the
  effect of the write going on is the newest one.
* `Coherent` — an entry is what the store holds, and so is an answer that will still be kept, unless
  a write of that key is between store and memory. This is where the epoch counts: every write ends
  that time by raising it, so an answer from before is not kept.
* `Recent` — entries and answers are no older than the writes that have ended.

`Undisturbed` runs are those in which nobody writes the store behind the facades.
-/

namespace LeaseCache.Traffic

variable {V : Type} {s s' : Traffic V} {k : Key}

/-! ## The lock and the epochs -/

/-- No call has seen an epoch that is still to come. -/
def Dated (s : Traffic V) : Prop :=
  ∀ t c n, s.calls t = some c → c.epoch? = some n → n ≤ s.cache.epoch

/-- The write lock and the epochs are in order. -/
structure Orderly (s : Traffic V) : Prop where
  holder : ∀ {t c}, s.calls t = some c → c.HoldsLock → s.writer = some t
  epoch_le : ∀ {t c n}, s.calls t = some c → c.epoch? = some n → n ≤ s.cache.epoch
  newest : ∀ {t w n}, s.calls t = some (.stored w true n) →
    ∃ older, s.effects = w.effect :: older ∧ older.length = n

theorem orderly_start (cache : Cache V) (first : Identity → Option V) :
    Orderly (start cache first) where
  holder h := by cases h
  epoch_le h := by cases h
  newest h := by cases h

theorem Step.epoch_le (h : Step s s') : s.cache.epoch ≤ s'.cache.epoch := by
  cases h with
  | fill => exact Nat.le_of_eq (Cache.epoch_fill _ _ _ _).symm
  | settle =>
    rw [cache_goto, Cache.epoch_settle]
    exact Nat.le_succ _
  | _ => exact Nat.le_refl _

theorem Orderly.dated (ho : Orderly s) : Dated s := fun _ _ _ => ho.epoch_le

theorem Dated.step (hold : Dated s) (h : Step s s') : Dated s' := by
  intro u d n hu hd
  have hmono := h.epoch_le
  unfold Dated at hold
  cases h <;> grind [calls_goto, Call.epoch?, Cache.probe]

theorem Orderly.step (ho : Orderly s) (h : Step s s') : Orderly s' where
  holder := by
    intro u d hu hd
    have hold := @ho.holder
    cases h <;> grind [calls_goto, writer_goto, Call.HoldsLock]
  epoch_le hu hd := ho.dated.step h _ _ _ hu hd
  newest := by
    intro u w n hu
    have hold := @ho.newest
    have holder := @ho.holder
    cases h <;> grind [calls_goto, effects_goto, Call.HoldsLock]

/-- While a write holds the lock, only its own key can be pending. -/
theorem Orderly.of_pending {t : Nat} {c : Call V} (ho : Orderly s) (ht : s.calls t = some c)
    (hc : c.HoldsLock) (hp : s.Pending k) : ∃ w, c.stored? = some w ∧ k.Same w.key := by
  obtain ⟨u, d, w, hu, hd, hk⟩ := hp
  have hlock : d.HoldsLock := by
    cases d <;> simp_all [Call.stored?, Call.HoldsLock]
  have hut : u = t := Option.some.inj ((ho.holder hu hlock).symm.trans (ho.holder ht hc))
  subst hut
  rw [hu] at ht
  cases ht
  exact ⟨w, hd, hk⟩

theorem Orderly.not_pending_of_free (ho : Orderly s) (hfree : s.writer = none) :
    ¬ s.Pending k := by
  rintro ⟨t, c, w, ht, hc, -⟩
  have hlock : c.HoldsLock := by
    cases c <;> simp_all [Call.stored?, Call.HoldsLock]
  rw [ho.holder ht hlock] at hfree
  cases hfree

theorem Orderly.not_pending_of_settled {t : Nat} {w : Write V} {ok : Bool} {n : Nat}
    (ho : Orderly s) (ht : s.calls t = some (.settled w ok n)) : ¬ s.Pending k := by
  intro hp
  obtain ⟨w', hw, -⟩ := ho.of_pending ht trivial hp
  cases hw

/-! ## Entries and answers on their way -/

/-- The entries of a key, and the answers for it that will still be kept, are what the store holds,
unless a write of the key is between store and memory. -/
structure CoherentAt (s : Traffic V) (i : Identity) : Prop where
  entry : ∀ {k e}, k.identity = i → ¬ s.Pending k → s.cache.get? k = some e →
    e.value? = s.content k
  answer : ∀ {t k x}, k.identity = i → s.calls t = some (.fetched k s.cache.epoch x) →
    ¬ s.Pending k → x = s.content k

/-- A put of a key that comes to its memory step finds its value in the store. -/
def Timely (s s' : Traffic V) (i : Identity) : Prop :=
  ∀ t w v n, w.key.identity = i → w.value? = some v → s.calls t = some (.stored w true n) →
    s'.calls t = some (.settled w true n) → s.content w.key = some v

/-- Entries, and answers that will still be kept, are what the store holds. -/
structure Coherent (s : Traffic V) : Prop where
  entry : ∀ {k e}, ¬ s.Pending k → s.cache.get? k = some e → e.value? = s.content k
  answer : ∀ {t k x}, s.calls t = some (.fetched k s.cache.epoch x) → ¬ s.Pending k →
    x = s.content k

theorem coherent_iff : Coherent s ↔ ∀ i, CoherentAt s i :=
  ⟨fun h _ => ⟨fun _ => h.entry, fun _ => h.answer⟩,
    fun h => ⟨(h _).entry rfl, (h _).answer rfl⟩⟩

theorem coherent_start (baseline : Option Signal) (first : Identity → Option V) :
    Coherent (start (.fresh baseline) first) where
  entry _ h := by cases h
  answer h := by cases h

@[simp] theorem content_goto (s : Traffic V) (t : Nat) (c : Call V) (k : Key) :
    (s.goto t c).content k = s.content k := rfl

theorem content_store_of_not_same {w : Write V} (h : ¬ k.Same w.key) :
    ({ s with effects := w.effect :: s.effects } : Traffic V).content k = s.content k :=
  Effect.content_cons_of_ne s.first s.effects fun he => h he.symm

/-- A write whose effect is the newest one is what the store holds. -/
theorem Orderly.content_of_stored {t : Nat} {w : Write V} {n : Nat} (ho : Orderly s)
    (ht : s.calls t = some (.stored w true n)) (hk : k.Same w.key) : s.content k = w.value? := by
  obtain ⟨older, heff, -⟩ := ho.newest ht
  rw [content, heff]
  exact if_pos hk.symm

/-- The memory step of a write ends the time between store and memory for its key only. -/
theorem Pending.goto_settled {t : Nat} {w : Write V} {ok : Bool} {n : Nat} {c : Call V}
    (hp : s.Pending k) (ht : s.calls t = some (.stored w ok n)) (hk : ¬ k.Same w.key) :
    (s.goto t c).Pending k := by
  obtain ⟨u, d, w', hu, hd, hw⟩ := hp
  refine ⟨u, d, w', ?_, hd, hw⟩
  rw [calls_goto, if_neg ?_]
  · exact hu
  · rintro rfl
    rw [ht] at hu
    cases hu
    cases hd
    exact hk hw

section At

variable {i : Identity}

theorem CoherentAt.entry_step (hc : CoherentAt s i) (h : Step s s') (htimely : Timely s s' i)
    {e : Entry V} (hi : k.identity = i) (hp : ¬ s'.Pending k) (he : s'.cache.get? k = some e) :
    e.value? = s'.content k := by
  cases h with
  | startLookup l free | startWrite w free =>
    exact hc.entry hi (fun hp' => hp (hp'.goto (by simp [free]))) he
  | hit at' | miss at' | fetch at' | fetchFails at' | lock at' | storeFails at' | unlock at' =>
    exact hc.entry hi (fun hp' => hp (hp'.goto (by simp [at', Call.stored?]))) he
  | @fill t l n x at' =>
    have hp' : ¬ s.Pending k := fun hp' => hp (hp'.goto (by simp [at', Call.stored?]))
    rcases Cache.get?_fill_cases he with hold | ⟨hn, hk, hx⟩
    · exact hc.entry hi hp' hold
    · -- the answer is kept, so it was one that would be
      have hl : s.content l = s.content k := congrArg (Effect.content s.first s.effects) hk.symm
      have hpl : ¬ s.Pending l := fun ⟨u, d, w, hu, hd, hw⟩ => hp' ⟨u, d, w, hu, hd, hk.trans hw⟩
      subst hn hx
      rw [Entry.value?_ofOption, hc.answer (hk.symm.trans hi) at' hpl]
      exact hl
  | @store t w ok at' =>
    -- the key of this write is pending now, and no other key is touched
    have hk : ¬ k.Same w.key := fun hk => hp (pending_goto_stored _ t hk)
    rw [content_goto, content_store_of_not_same hk]
    exact hc.entry hi (fun hp' => hp (Pending.goto hp' (by simp [at', Call.stored?]))) he
  | @settle t w ok n at' =>
    by_cases hk : k.Same w.key
    · obtain ⟨rfl, v, hv, rfl⟩ := Cache.put_of_get?_settle hk he
      have hheld := htimely t w v n (hk.symm.trans hi) hv at' (by simp)
      exact (hheld.symm.trans (congrArg (Effect.content s.first s.effects) hk.symm))
    · rw [cache_goto, Cache.get?_settle_of_not_same hk] at he
      exact hc.entry hi (fun hp' => hp (Pending.goto_settled hp' at' hk)) he

theorem CoherentAt.answer_step (hdated : Dated s) (hc : CoherentAt s i) (h : Step s s')
    {u : Nat} {x : Option V} (hi : k.identity = i)
    (hu : s'.calls u = some (.fetched k s'.cache.epoch x)) (hp : ¬ s'.Pending k) :
    x = s'.content k := by
  cases h with
  | startLookup l free | startWrite w free =>
    rcases calls_goto_cases hu with ⟨-, hd⟩ | ⟨-, hold⟩
    · cases hd
    · exact hc.answer hi hold fun hp' => hp (hp'.goto (by simp [free]))
  | hit at' | miss at' | fetchFails at' | lock at' | storeFails at' | unlock at' =>
    rcases calls_goto_cases hu with ⟨-, hd⟩ | ⟨-, hold⟩
    · cases hd
    · exact hc.answer hi hold fun hp' => hp (hp'.goto (by simp [at', Call.stored?]))
  | fetch at' =>
    rcases calls_goto_cases hu with ⟨-, hd⟩ | ⟨-, hold⟩
    · obtain ⟨rfl, -, rfl⟩ := Call.fetched.inj hd
      rfl
    · exact hc.answer hi hold fun hp' => hp (hp'.goto (by simp [at', Call.stored?]))
  | fill at' =>
    rcases calls_goto_cases hu with ⟨-, hd⟩ | ⟨-, hold⟩
    · cases hd
    · rw [cache_goto, Cache.epoch_fill] at hold
      exact hc.answer hi hold fun hp' => hp (hp'.goto (by simp [at', Call.stored?]))
  | @store t w ok at' =>
    rcases calls_goto_cases hu with ⟨-, hd⟩ | ⟨-, hold⟩
    · cases hd
    · have hk : ¬ k.Same w.key := fun hk => hp (pending_goto_stored _ t hk)
      rw [content_goto, content_store_of_not_same hk]
      exact hc.answer hi hold fun hp' => hp (Pending.goto hp' (by simp [at', Call.stored?]))
  | settle at' =>
    rcases calls_goto_cases hu with ⟨-, hd⟩ | ⟨-, hold⟩
    · cases hd
    · -- the answer was asked for before the epoch was raised
      have hle := hdated _ _ _ hold rfl
      rw [cache_goto, Cache.epoch_settle] at hle
      exact absurd hle (Nat.not_succ_le_self _)

/-- What is right about a key stays so, if its puts reach the memory in time. -/
theorem CoherentAt.step (hdated : Dated s) (hc : CoherentAt s i) (h : Step s s')
    (htimely : Timely s s' i) : CoherentAt s' i :=
  ⟨hc.entry_step h htimely, hc.answer_step hdated h⟩

end At

/-- While nobody else writes, every put reaches the memory in time. -/
theorem Orderly.timely (ho : Orderly s) (s' : Traffic V) (i : Identity) : Timely s s' i := by
  intro t w v n _ hv ht _
  rw [ho.content_of_stored (k := w.key) ht rfl, hv]

theorem Coherent.step (ho : Orderly s) (hc : Coherent s) (h : Step s s') : Coherent s' :=
  coherent_iff.2 fun i => (coherent_iff.1 hc i).step ho.dated h (ho.timely s' i)

/-! ## Nothing older than an ended write -/

/-- Entries, and answers that will still be kept, are no older than the writes that have ended. -/
structure Recent (s : Traffic V) : Prop where
  placed : ∀ {t c w n}, s.calls t = some c → c = .settled w true n ∨ c = .done w true n →
    Effect.At s.effects n w.key.identity w.value?
  later : ∀ {t u w w' n ok m}, s.calls t = some (.done w true n) →
    s.calls u = some (.stored w' ok m) → n < m
  entry : ∀ {t w n k e}, s.calls t = some (.done w true n) → k.Same w.key →
    s.cache.get? k = some e → Effect.Since s.effects n k.identity e.value?
  answer : ∀ {t u w n k x}, s.calls t = some (.done w true n) → k.Same w.key →
    s.calls u = some (.fetched k s.cache.epoch x) → Effect.Since s.effects n k.identity x

theorem recent_start (cache : Cache V) (first : Identity → Option V) :
    Recent (start cache first) where
  placed h := by cases h
  later h := by cases h
  entry h := by cases h
  answer h := by cases h

/-- What the store holds for a key is no older than the writes of that key that have ended, or are
about to end. -/
theorem Recent.content {t : Nat} {c : Call V} {w : Write V} {n : Nat} (hr : Recent s)
    (ht : s.calls t = some c) (hc : c = .settled w true n ∨ c = .done w true n)
    (hk : k.Same w.key) : Effect.Since s.effects n k.identity (s.content k) := by
  have hplaced := hr.placed ht hc
  rw [show w.key.identity = k.identity from hk.symm] at hplaced
  exact Effect.since_content s.first hplaced

theorem Recent.placed_step (ho : Orderly s) (hr : Recent s) (h : Step s s') {t : Nat} {c : Call V}
    {w : Write V} {n : Nat} (ht : s'.calls t = some c)
    (hc : c = .settled w true n ∨ c = .done w true n) :
    Effect.At s'.effects n w.key.identity w.value? := by
  have hold : s.calls t = some c → Effect.At s'.effects n w.key.identity w.value? :=
    fun ht => (hr.placed ht hc).mono h.effects_suffix
  cases h with
  | settle at' =>
    rcases calls_goto_cases ht with ⟨-, hd⟩ | ⟨-, ht⟩
    · rcases hc with rfl | rfl
      · obtain ⟨rfl, rfl, rfl⟩ := Call.settled.inj hd
        obtain ⟨older, heff, hlen⟩ := ho.newest at'
        exact ⟨older, by rw [effects_goto, heff]; exact List.suffix_refl _, hlen⟩
      · cases hd
    · exact hold ht
  | unlock at' =>
    rcases calls_goto_cases ht with ⟨-, hd⟩ | ⟨-, ht⟩
    · rcases hc with rfl | rfl
      · cases hd
      · obtain ⟨rfl, rfl, rfl⟩ := Call.done.inj hd
        exact hr.placed at' (.inl rfl)
    · exact hold ht
  | _ =>
    rcases calls_goto_cases ht with ⟨-, hd⟩ | ⟨-, ht⟩
    · rcases hc with rfl | rfl <;> cases hd
    · exact hold ht

theorem Recent.later_step (ho : Orderly s) (hr : Recent s) (h : Step s s') {t u : Nat}
    {w w' : Write V} {n m : Nat} {ok : Bool} (ht : s'.calls t = some (.done w true n))
    (hu : s'.calls u = some (.stored w' ok m)) : n < m := by
  have hlast : s.calls t = some (.done w true n) → n < s.effects.length :=
    fun ht => (hr.placed ht (.inr rfl)).lt_length
  have hold := @hr.later
  have holder := @ho.holder
  cases h with
  | store at' | storeFails at' =>
    rcases calls_goto_cases ht with ⟨-, hd⟩ | ⟨-, ht⟩
    · cases hd
    · rcases calls_goto_cases hu with ⟨-, hd⟩ | ⟨-, hu⟩
      · obtain ⟨-, -, rfl⟩ := Call.stored.inj hd
        exact hlast ht
      · exact hold ht hu
  | unlock at' =>
    rcases calls_goto_cases hu with ⟨-, hd⟩ | ⟨hne, hu⟩
    · cases hd
    · -- the write that gives the lock back now and the one at the store would both hold it
      have hw := (holder at' trivial).symm.trans (holder hu trivial)
      exact absurd (Option.some.inj hw).symm hne
  | _ => grind [calls_goto]

theorem Recent.entry_step (ho : Orderly s) (hc : Coherent s) (hr : Recent s) (h : Step s s')
    {t : Nat} {w : Write V} {n : Nat} {e : Entry V} (ht : s'.calls t = some (.done w true n))
    (hk : k.Same w.key) (he : s'.cache.get? k = some e) :
    Effect.Since s'.effects n k.identity e.value? := by
  have hold : s.calls t = some (.done w true n) → s.cache.get? k = some e →
      Effect.Since s'.effects n k.identity e.value? :=
    fun ht he => (hr.entry ht hk he).mono h.effects_suffix
  cases h with
  | @fill u l m x at' =>
    rcases calls_goto_cases ht with ⟨-, hd⟩ | ⟨-, ht⟩
    · cases hd
    · rcases Cache.get?_fill_cases he with he | ⟨hm, hl, hx⟩
      · exact hold ht he
      · subst hm hx
        rw [Entry.value?_ofOption, show k.identity = l.identity from hl]
        exact hr.answer ht (hl.symm.trans hk) at'
  | @settle u w' ok m at' =>
    rcases calls_goto_cases ht with ⟨-, hd⟩ | ⟨-, ht⟩
    · cases hd
    · by_cases hw : k.Same w'.key
      · -- the entry is the one of this write, whose effect is the newest
        obtain ⟨rfl, hv⟩ := Cache.value?_of_get?_settle hw he
        obtain ⟨older, heff, hlen⟩ := ho.newest at'
        have hplace : Effect.At s.effects m k.identity e.value? := by
          rw [heff, hv, show k.identity = w'.key.identity from hw]
          exact ⟨older, List.suffix_refl _, hlen⟩
        exact ⟨m, Nat.le_of_lt (hr.later ht at'), hplace⟩
      · rw [cache_goto, Cache.get?_settle_of_not_same hw] at he
        exact hold ht he
  | unlock at' =>
    rcases calls_goto_cases ht with ⟨-, hd⟩ | ⟨-, ht⟩
    · -- no key is pending when the lock is given back, so the entry is what the store holds
      obtain ⟨rfl, rfl, rfl⟩ := Call.done.inj hd
      rw [hc.entry (ho.not_pending_of_settled at') he]
      exact hr.content at' (.inl rfl) hk
    · exact hold ht he
  | _ =>
    rcases calls_goto_cases ht with ⟨-, hd⟩ | ⟨-, ht⟩
    · cases hd
    · exact hold ht he

theorem Recent.answer_step (ho : Orderly s) (hc : Coherent s) (hr : Recent s) (h : Step s s')
    {t u : Nat} {w : Write V} {n : Nat} {x : Option V} (ht : s'.calls t = some (.done w true n))
    (hk : k.Same w.key) (hu : s'.calls u = some (.fetched k s'.cache.epoch x)) :
    Effect.Since s'.effects n k.identity x := by
  have hold : s.calls t = some (.done w true n) →
      s.calls u = some (.fetched k s.cache.epoch x) → Effect.Since s'.effects n k.identity x :=
    fun ht hu => (hr.answer ht hk hu).mono h.effects_suffix
  cases h with
  | fetch at' =>
    rcases calls_goto_cases ht with ⟨-, hd⟩ | ⟨-, hdone⟩
    · cases hd
    · rcases calls_goto_cases hu with ⟨-, hd⟩ | ⟨-, hu⟩
      · obtain ⟨rfl, -, rfl⟩ := Call.fetched.inj hd
        exact hr.content hdone (.inr rfl) hk
      · exact hold hdone hu
  | fill at' =>
    rcases calls_goto_cases ht with ⟨-, hd⟩ | ⟨-, ht⟩
    · cases hd
    · rcases calls_goto_cases hu with ⟨-, hd⟩ | ⟨-, hu⟩
      · cases hd
      · rw [cache_goto, Cache.epoch_fill] at hu
        exact hold ht hu
  | settle at' =>
    rcases calls_goto_cases hu with ⟨-, hd⟩ | ⟨-, hu⟩
    · cases hd
    · have hle := ho.epoch_le hu rfl
      rw [cache_goto, Cache.epoch_settle] at hle
      exact absurd hle (Nat.not_succ_le_self _)
  | unlock at' =>
    rcases calls_goto_cases hu with ⟨-, hd⟩ | ⟨-, hu⟩
    · cases hd
    · rcases calls_goto_cases ht with ⟨-, hd⟩ | ⟨-, ht⟩
      · obtain ⟨rfl, rfl, rfl⟩ := Call.done.inj hd
        rw [hc.answer hu (ho.not_pending_of_settled at')]
        exact hr.content at' (.inl rfl) hk
      · exact hold ht hu
  | _ =>
    rcases calls_goto_cases hu with ⟨-, hd⟩ | ⟨-, hu⟩
    · cases hd
    · rcases calls_goto_cases ht with ⟨-, hd⟩ | ⟨-, ht⟩
      · cases hd
      · exact hold ht hu

theorem Recent.step (ho : Orderly s) (hc : Coherent s) (hr : Recent s) (h : Step s s') :
    Recent s' where
  placed := hr.placed_step ho h
  later := hr.later_step ho h
  entry := hr.entry_step ho hc h
  answer := hr.answer_step ho hc h

/-! ## Changes to the memory beside the calls -/

section Memory

variable {c : Cache V}

theorem Orderly.withCache (ho : Orderly s) (h : s.cache.epoch ≤ c.epoch) :
    Orderly { s with cache := c } where
  holder := ho.holder
  epoch_le ht hn := Nat.le_trans (ho.epoch_le ht hn) h
  newest := ho.newest

theorem Dated.withCache (hd : Dated s) (h : s.cache.epoch ≤ c.epoch) :
    Dated { s with cache := c } :=
  fun t d n ht hn => Nat.le_trans (hd t d n ht hn) h

theorem CoherentAt.withCache {i : Identity} (hc : CoherentAt s i)
    (hentries : c.entries = s.cache.entries) (hepoch : c.epoch = s.cache.epoch) :
    CoherentAt { s with cache := c } i where
  entry hi hp he := hc.entry hi hp (by rw [Cache.get?, ← hentries]; exact he)
  answer hi ht hp := hc.answer hi (hepoch ▸ ht) hp

theorem Coherent.withCache (hc : Coherent s) (hentries : c.entries = s.cache.entries)
    (hepoch : c.epoch = s.cache.epoch) : Coherent { s with cache := c } :=
  coherent_iff.2 fun i => (coherent_iff.1 hc i).withCache hentries hepoch

/-- Without entries, and with an epoch that no call has seen, any content will do. -/
theorem Dated.coherent_of_cleared (hd : Dated s) (hentries : c.entries = .empty)
    (hepoch : s.cache.epoch < c.epoch) : Coherent { s with cache := c } where
  entry _ he := by
    rw [Cache.get?, hentries] at he
    cases he
  answer ht _ := absurd (hd _ _ _ ht rfl) (Nat.not_le.2 hepoch)

theorem Recent.withCache (hr : Recent s) (hentries : c.entries = s.cache.entries)
    (hepoch : c.epoch = s.cache.epoch) : Recent { s with cache := c } where
  placed := hr.placed
  later := hr.later
  entry ht hk he := hr.entry ht hk (by rw [Cache.get?, ← hentries]; exact he)
  answer ht hk hu := hr.answer ht hk (hepoch ▸ hu)

theorem Recent.cleared (hr : Recent s) (ho : Orderly s) (hentries : c.entries = .empty)
    (hepoch : s.cache.epoch < c.epoch) : Recent { s with cache := c } where
  placed := hr.placed
  later := hr.later
  entry _ _ he := by
    rw [Cache.get?, hentries] at he
    cases he
  answer _ _ hu := absurd (ho.epoch_le hu rfl) (Nat.not_le.2 hepoch)

end Memory

end LeaseCache.Traffic
