import LeaseCache.Proofs.FacadeSteps
import LeaseCache.Proofs.Undisturbed

/-!
# Calls of a facade that nobody disturbs

What holds of the steps of calls in any order, said of the calls themselves. A lookup or a write is
made through a facade when other calls are anywhere on their way, and these go on while the store is
asked; but nobody writes the store behind the facades. Then the call ends in a world in which the
memory and the store agree about every key that no write has left between them, and a lookup answers
with nothing older than the writes of its key that had ended when it was made.
-/

namespace LeaseCache

open Relation (ReflTransGen)
open Traffic (Admits Undisturbed)

variable {σ : Type} {store : Store σ} {holds : World σ → Identity → Option Value} {i t : Nat}
  {w w' : World σ} {s s₀ s' : Traffic Value} {k : Key}

/-- A world shows what undisturbed steps have made of a traffic. -/
structure Traffic.Reached (i : Nat) (holds : World σ → Identity → Option Value)
    (s₀ : Traffic Value) (w : World σ) (s : Traffic Value) : Prop where
  shown : s.Shown i holds w
  run : ReflTransGen Undisturbed s₀ s

namespace Traffic.Reached

theorem admits (hholds : ∀ {w w' : World σ}, w.Touched i w' → holds w' = holds w)
    (s₀ : Traffic Value) (t : Nat) : Admits i t holds (Reached i holds s₀) where
  shown h := h.shown
  holds_eq := hholds
  step h hstep _ _ hs := ⟨hs, h.run.tail (.call hstep)⟩

theorem trans {s₁ : Traffic Value} {w₁ : World σ} (h : Reached i holds s₀ w₁ s₁)
    (h' : Reached i holds s₁ w s) : Reached i holds s₀ w s :=
  ⟨h'.shown, h.run.trans h'.run⟩

/-- The entry of a key that is not pending is missing or what the store holds. -/
theorem agree (h : Reached i holds s₀ w s) (hsound : s₀.Sound) (hp : ¬ s.Pending k) :
    (w.cells.get i).cache.get? k = none ∨
      (w.cells.get i).cache.get? k = some (.ofOption (holds w k.identity)) := by
  rw [h.shown.cache, h.shown.content]
  exact (hsound.run h.run).agree hp

end Traffic.Reached

namespace Facade

open Traffic (Reached)

/-- A lookup, while other calls go on. -/
theorem lookup_undisturbed (hholds : ∀ {w w' : World σ}, w.Touched i w' → holds w' = holds w)
    (hs : s.Shown i holds w) (hsound : s.Sound) (ht : s.calls t = none)
    (hstore : ∀ n s₁, s.Reached i holds (w.setCache i Cache.countMiss) s₁ →
      s₁.calls t = some (.asking k n) →
      ∃ r w₂ s₂, store.get k (w.setCache i Cache.countMiss) = (.ok r, w₂) ∧
        s₁.Reached i holds w₂ s₂ ∧ s₂.calls t = some (.answered k n r)) :
    ∃ r w' s', Facade.lookup store i k w = (.ok r, w') ∧ s.Reached i holds w' s' ∧
      (∀ l, ¬ s'.Pending l → (w'.cells.get i).cache.get? l = none ∨
        (w'.cells.get i).cache.get? l = some (.ofOption (holds w' l.identity))) ∧
      ∀ a, r = .ok a → ∀ u wr n, s.calls u = some (.done wr true n) → k.Same wr.key →
        Effect.Since s'.effects n k.identity a.value? := by
  obtain ⟨r, w', s', hlookup, hreached, hended⟩ :=
    lookup_run (Reached.admits hholds s t) ⟨hs, .refl⟩ ht k fun n s₁ h₁ hat => by
      obtain ⟨r, w₂, s₂, hget, h₂, hanswered⟩ := hstore n s₁ h₁ hat
      exact ⟨r, w₂, s₂, hget, h₁.trans h₂, hanswered⟩
  refine ⟨r, w', s', hlookup, hreached, fun _ => hreached.agree hsound, ?_⟩
  rintro a rfl u wr n hu hk
  have hlearned : s'.Learned n t k := .run hsound hu hk ht hreached.run
  exact hlearned.found hended

/-- A put or a removal, while other calls go on. -/
theorem write_undisturbed (hholds : ∀ {w w' : World σ}, w.Touched i w' → holds w' = holds w)
    (hs : s.Shown i holds w) (hsound : s.Sound) (ht : s.calls t = none) (hfree : s.writer = none)
    (wr : Write Value)
    (hstore : ∀ s₁, s.Reached i holds (w.setWriting i true) s₁ → s₁.calls t = some (.locked wr) →
      ∃ r w₂ s₂ n, wr.on store (w.setWriting i true) = (.ok r, w₂) ∧
        s₁.Reached i holds w₂ s₂ ∧ s₂.calls t = some (.stored wr r.isOk n)) :
    ∃ r w' s' n, wr.on (toStore store i) w = (.ok r, w') ∧ s.Reached i holds w' s' ∧
      s'.calls t = some (.done wr r.isOk n) ∧
      (∀ l, ¬ s'.Pending l → (w'.cells.get i).cache.get? l = none ∨
        (w'.cells.get i).cache.get? l = some (.ofOption (holds w' l.identity))) ∧
      (r.isOk = true → Effect.At s'.effects n wr.key.identity wr.value?) := by
  obtain ⟨r, w', s', n, hwrite, hreached, hdone⟩ :=
    write_run (Reached.admits hholds s t) ⟨hs, .refl⟩ ht hfree wr fun s₁ h₁ hat => by
      obtain ⟨r, w₂, s₂, n, hput, h₂, hstored⟩ := hstore s₁ h₁ hat
      exact ⟨r, w₂, s₂, n, hput, h₁.trans h₂, hstored⟩
  refine ⟨r, w', s', n, hwrite, hreached, hdone, fun _ => hreached.agree hsound, fun hok => ?_⟩
  rw [hok] at hdone
  exact (hsound.run hreached.run).recent.placed hdone (.inr rfl)

end Facade

/-! ## A store that nobody else uses meanwhile -/

namespace Store.IsMap

theorem holds_touched (hm : store.IsMap holds) (h : w.Touched i w') : holds w' = holds w := by
  rw [h.same]
  exact (hm.journal { w with cells := w'.cells } w'.journal).trans (hm.cells w w'.cells)

/-- A map that is asked alone answers a lookup as is asked of it above. -/
theorem get_reached {n : Nat} (hm : store.IsMap holds) (hs : s.Shown i holds w)
    (hat : s.calls t = some (.asking k n)) :
    ∃ r w₂ s₂, store.get k w = (.ok r, w₂) ∧ s.Reached i holds w₂ s₂ ∧
      s₂.calls t = some (.answered k n r) := by
  obtain ⟨r, w₂, hget, -, hstep, hshown⟩ := hm.get_step hs hat
  exact ⟨r, w₂, _, hget, ⟨hshown, .single (.call hstep)⟩, by simp⟩

/-- And it answers a write so. -/
theorem write_reached {wr : Write Value} (hm : store.IsMap holds) (hs : s.Shown i holds w)
    (hat : s.calls t = some (.locked wr)) :
    ∃ r w₂ s₂ n, wr.on store w = (.ok r, w₂) ∧ s.Reached i holds w₂ s₂ ∧
      s₂.calls t = some (.stored wr r.isOk n) := by
  obtain ⟨r, w₂, effects, hwrite, -, hstep, hshown⟩ := hm.write_step hs hat
  exact ⟨r, w₂, _, s.effects.length, hwrite, ⟨hshown, .single (.call hstep)⟩, by simp⟩

end Store.IsMap

end LeaseCache
