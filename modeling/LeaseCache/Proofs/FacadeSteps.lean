import LeaseCache.Proofs.FacadeSpec

/-!
# The steps of a call of a facade, among others

The acts `Facade.lookup`, `Facade.put` and `Facade.remove` do the steps of a `Call` one after the
other. While the store is asked, other calls may go on and other processes may come in, since a
store may do anything before it answers. So nothing is said of one state of the traffic, but of
something that a world and the traffic in it have in common and that every step of this one call
keeps (`Traffic.Admits`): which steps have led here, for instance. If they have it again when the
store has answered, then the call goes on from there and comes to the end that its answer tells
(`Facade.lookup_run`, `Facade.write_run`).

A world shows a traffic when the memory, the content of the store and the write lock agree
(`Traffic.Shown`). A store that is a map on the identity of keys (`Store.IsMap`) and that is asked
while nobody else does anything answers in one step, and may fail.
-/

namespace LeaseCache

variable {σ : Type}

/-- A write took effect, or the store failed and it did not. -/
def Write.Took (wr : Write Value) (before after : Identity → Option Value)
    (r : Except StoreError Unit) : Prop :=
  (∀ l, after l = if wr.key.identity = l then wr.value? else before l) ∨
    after = before ∧ r.isOk = false

/-- A store that is a map on the identity of keys: `holds` tells what it holds in a world. It does
not touch the memories, and what it holds does not depend on them. -/
structure Store.IsMap (store : Store σ) (holds : World σ → Identity → Option Value) : Prop where
  get : ∀ k w, ∃ r w', store.get k w = (.ok r, w') ∧ w'.cells = w.cells ∧ holds w' = holds w ∧
    ∀ x, r = .ok x → x = holds w k.identity
  write : ∀ (wr : Write Value) w, ∃ r w', wr.on store w = (.ok r, w') ∧ w'.cells = w.cells ∧
    wr.Took (holds w) (holds w') r
  cells : ∀ (w : World σ) cells, holds { w with cells := cells } = holds w
  journal : ∀ (w : World σ) journal, holds { w with journal := journal } = holds w

/-- A table of the world is a map. -/
theorem Store.isMap_table (j : Nat) :
    (Store.table j : Store σ).IsMap fun w => (w.tables.get j).get? where
  get k w := ⟨_, w, rfl, rfl, rfl, fun _ h => (Except.ok.inj h).symm⟩
  write wr w := by
    obtain ⟨k, _ | v⟩ := wr
    · refine ⟨.ok (), _, rfl, rfl, .inl fun l => ?_⟩
      simp only [Pool.get_modify, if_true, Table.get?_erase, eq_comm]
    · refine ⟨.ok (), _, rfl, rfl, .inl fun l => ?_⟩
      simp only [Pool.get_modify, if_true, Table.get?_insert, eq_comm]
  cells _ _ := rfl
  journal _ _ := rfl

/-- A world shows what the calls share: the memory, the store's content and the write lock. -/
structure Traffic.Shown (i : Nat) (holds : World σ → Identity → Option Value) (w : World σ)
    (s : Traffic Value) : Prop where
  cache : (w.cells.get i).cache = s.cache
  content : ∀ l, holds w l = Effect.content s.first s.effects l
  lock : (w.cells.get i).writing = s.writer.isSome

namespace World

/-- Worlds that differ in memories and in what was reported. One memory has the marker it had. -/
structure Touched (i : Nat) (w w' : World σ) : Prop where
  same : w' = { w with cells := w'.cells, journal := w'.journal }
  marker : (w'.cells.get i).marker = (w.cells.get i).marker

theorem Touched.refl (i : Nat) (w : World σ) : w.Touched i w := ⟨rfl, rfl⟩

theorem touched_setCache (w : World σ) (i : Nat) (f : Cache Value → Cache Value)
    (journal : List Event) : w.Touched i { w.setCache i f with journal := journal } where
  same := rfl
  marker := by
    show ((w.setCache i f).cells.get i).marker = _
    rw [get_setCache_self]

theorem touched_setWriting (w : World σ) (i : Nat) (writing : Bool) :
    w.Touched i (w.setWriting i writing) where
  same := rfl
  marker := by rw [get_setWriting_self]

end World

namespace Call

variable {V : Type}

/-- Where a lookup stands once the store has answered. -/
def answered (k : Key) (n : Nat) : Except StoreError (Option V) → Call V
  | .ok x => .fetched k n x
  | .error _ => .failed k

/-- Where a lookup stands once it has ended. -/
def ended (k : Key) : Except StoreError (Lookup V) → Call V
  | .ok a => .found k a
  | .error _ => .failed k

end Call

namespace Traffic.Shown

variable {holds : World σ → Identity → Option Value} {i : Nat} {w w' : World σ}
  {s : Traffic Value}

theorem goto (hs : s.Shown i holds w) (t : Nat) (c : Call Value) : (s.goto t c).Shown i holds w :=
  ⟨hs.cache, hs.content, hs.lock⟩

theorem of_holds (hs : s.Shown i holds w) (hcells : w'.cells = w.cells)
    (hholds : holds w' = holds w) : s.Shown i holds w' where
  cache := by rw [hcells, hs.cache]
  content l := by rw [hholds, hs.content]
  lock := by rw [hcells, hs.lock]

/-- The effect of a write on the store, if it had one, is an effect on the traffic. -/
theorem of_effect {wr : Write Value} (hs : s.Shown i holds w) (hcells : w'.cells = w.cells)
    (heffect : ∀ l, holds w' l = if wr.key.identity = l then wr.value? else holds w l) :
    ({ s with effects := wr.effect :: s.effects } : Traffic Value).Shown i holds w' where
  cache := by rw [hcells, hs.cache]
  content l := by
    rw [heffect, hs.content]
    rfl
  lock := by rw [hcells, hs.lock]

end Traffic.Shown

namespace Store.IsMap

open Traffic (Step)

variable {store : Store σ} {holds : World σ → Identity → Option Value} {i t : Nat} {w : World σ}
  {s : Traffic Value}

/-- The answer to a lookup is a step. -/
theorem get_step {k : Key} {n : Nat} (hm : store.IsMap holds) (hs : s.Shown i holds w)
    (hat : s.calls t = some (.asking k n)) :
    ∃ r w', store.get k w = (.ok r, w') ∧ w'.cells = w.cells ∧
      Step s (s.goto t (.answered k n r)) ∧ (s.goto t (.answered k n r)).Shown i holds w' := by
  obtain ⟨r, w', hget, hcells, hholds, hanswer⟩ := hm.get k w
  refine ⟨r, w', hget, hcells, ?_, (hs.of_holds hcells hholds).goto t _⟩
  cases r with
  | error e => exact .fetchFails hat
  | ok x =>
    obtain rfl : x = s.content k := (hanswer x rfl).trans (hs.content k.identity)
    exact .fetch hat

/-- The answer to a write is a step, with an effect or without. -/
theorem write_step {wr : Write Value} (hm : store.IsMap holds) (hs : s.Shown i holds w)
    (hat : s.calls t = some (.locked wr)) :
    ∃ r w' effects, wr.on store w = (.ok r, w') ∧ w'.cells = w.cells ∧
      Step s ({ s with effects := effects }.goto t (.stored wr r.isOk s.effects.length)) ∧
      ({ s with effects := effects }.goto t (.stored wr r.isOk s.effects.length)).Shown
        i holds w' := by
  obtain ⟨r, w', hwrite, hcells, heffect | ⟨hsame, hfailed⟩⟩ := hm.write wr w
  · exact ⟨r, w', _, hwrite, hcells, .store r.isOk hat, (hs.of_effect hcells heffect).goto t _⟩
  · refine ⟨r, w', s.effects, hwrite, hcells, ?_, (hs.of_holds hcells hsame).goto t _⟩
    rw [hfailed]
    exact .storeFails hat

end Store.IsMap

/-! ## One call among others -/

theorem Traffic.calls_goto_of_ne (s : Traffic Value) (c : Call Value) {t u : Nat} (hu : u ≠ t) :
    (s.goto t c).calls u = s.calls u :=
  if_neg hu

/-- What a world and its traffic have in common is kept by every step of one call. -/
structure Traffic.Admits (i t : Nat) (holds : World σ → Identity → Option Value)
    (P : World σ → Traffic Value → Prop) : Prop where
  shown : ∀ {w s}, P w s → s.Shown i holds w
  holds_eq : ∀ {w w'}, w.Touched i w' → holds w' = holds w
  step : ∀ {w w' s s'}, P w s → Traffic.Step s s' → (∀ u, u ≠ t → s'.calls u = s.calls u) →
    w.Touched i w' → s'.Shown i holds w' → P w' s'

namespace Traffic.Admits

variable {i t : Nat} {holds : World σ → Identity → Option Value}
  {P : World σ → Traffic Value → Prop} {w : World σ} {s : Traffic Value} {c : Call Value}

/-- A step that is nothing to the world. -/
theorem goto (h : Admits i t holds P) (hP : P w s) (hstep : Step s (s.goto t c)) :
    P w (s.goto t c) :=
  h.step hP hstep (fun _ => calls_goto_of_ne s c) (.refl i w) ((h.shown hP).goto t c)

/-- A step that changes the memory; it may be reported. -/
theorem setCache (h : Admits i t holds P) (hP : P w s) {f : Cache Value → Cache Value}
    (hstep : Step s ({ s with cache := f s.cache }.goto t c)) (journal : List Event) :
    P { w.setCache i f with journal := journal } ({ s with cache := f s.cache }.goto t c) := by
  have hs := h.shown hP
  have htouched := w.touched_setCache i f journal
  refine h.step hP hstep (fun _ => calls_goto_of_ne _ c) htouched ⟨?_, fun l => ?_, ?_⟩
  · exact (congrArg Cell.cache (w.get_setCache_self i f)).trans (congrArg f hs.cache)
  · rw [h.holds_eq htouched]
    exact hs.content l
  · exact (congrArg Cell.writing (w.get_setCache_self i f)).trans hs.lock

/-- A step that takes the lock or gives it back. -/
theorem setWriting (h : Admits i t holds P) (hP : P w s) {writer : Option Nat}
    (hstep : Step s ({ s with writer := writer }.goto t c)) :
    P (w.setWriting i writer.isSome) ({ s with writer := writer }.goto t c) := by
  have hs := h.shown hP
  have htouched := w.touched_setWriting i writer.isSome
  refine h.step hP hstep (fun _ => calls_goto_of_ne _ c) htouched ⟨?_, fun l => ?_, ?_⟩
  · exact (congrArg Cell.cache (w.get_setWriting_self i _)).trans hs.cache
  · rw [h.holds_eq htouched]
    exact hs.content l
  · exact congrArg Cell.writing (w.get_setWriting_self i _)

end Traffic.Admits

namespace Facade

variable {store : Store σ} {holds : World σ → Identity → Option Value} {i t : Nat} {w : World σ}
  {P : World σ → Traffic Value → Prop} {s : Traffic Value}

/-- A lookup through a facade, whatever goes on while the store is asked. -/
theorem lookup_run (h : Traffic.Admits i t holds P) (hP : P w s) (ht : s.calls t = none) (k : Key)
    (hstore : ∀ n s₁, P (w.setCache i Cache.countMiss) s₁ → s₁.calls t = some (.asking k n) →
      ∃ r w₂ s₂, store.get k (w.setCache i Cache.countMiss) = (.ok r, w₂) ∧ P w₂ s₂ ∧
        s₂.calls t = some (.answered k n r)) :
    ∃ r w' s', Facade.lookup store i k w = (.ok r, w') ∧ P w' s' ∧
      s'.calls t = some (.ended k r) := by
  have hP₀ := h.goto hP (.startLookup k ht)
  have hat : (s.goto t (.lookup k)).calls t = some (.lookup k) := by simp
  have hcache : (w.cells.get i).cache = s.cache := (h.shown hP).cache
  cases hprobe : s.cache.probe k with
  | cached e =>
    exact ⟨_, _, _, lookup_of_cached (hcache ▸ hprobe),
      h.setCache (f := Cache.countHit) hP₀ (.hit hat hprobe) _, by simp [Call.ended]⟩
  | vacant n =>
    -- the call waits for the store, which others may use meanwhile
    obtain ⟨r, w₂, s₂, hget, hP₂, hanswered⟩ :=
      hstore n _ (h.setCache (f := Cache.countMiss) hP₀ (.miss hat hprobe) _) (by simp)
    cases r with
    | error e =>
      exact ⟨_, w₂, s₂, lookup_of_error (hcache ▸ hprobe) hget, hP₂, hanswered⟩
    | ok x =>
      exact ⟨_, _, _, lookup_of_ok (hcache ▸ hprobe) hget,
        h.setCache (f := (·.fill k (.ofOption x) n)) hP₂ (.fill hanswered) _,
        by simp [Call.ended]⟩

/-- A put or a removal through a facade, whatever goes on while the store is asked. -/
theorem write_run (h : Traffic.Admits i t holds P) (hP : P w s) (ht : s.calls t = none)
    (hfree : s.writer = none) (wr : Write Value)
    (hstore : ∀ s₁, P (w.setWriting i true) s₁ → s₁.calls t = some (.locked wr) →
      ∃ r w₂ s₂ n, wr.on store (w.setWriting i true) = (.ok r, w₂) ∧ P w₂ s₂ ∧
        s₂.calls t = some (.stored wr r.isOk n)) :
    ∃ r w' s' n, wr.on (toStore store i) w = (.ok r, w') ∧ P w' s' ∧
      s'.calls t = some (.done wr r.isOk n) := by
  have hunlocked : (w.cells.get i).writing = false := by
    rw [(h.shown hP).lock, hfree]
    rfl
  have hP₀ := h.goto hP (.startWrite wr ht)
  obtain ⟨r, w₂, s₂, n, hwrite, hP₂, hstored⟩ :=
    hstore _ (h.setWriting hP₀ (.lock (t := t) (w := wr) (by simp) hfree)) (by simp)
  have hP₃ := h.setCache hP₂ (f := (·.settle wr r.isOk)) (.settle hstored) w₂.journal
  have hP₄ := h.setWriting hP₃ (.unlock (t := t) (w := wr) (n := n) (by simp; rfl))
  exact ⟨r, _, _, n, write_of_ok hunlocked hwrite, hP₄, by simp⟩

end Facade

end LeaseCache
