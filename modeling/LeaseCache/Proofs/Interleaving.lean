import Mathlib.Logic.Relation
import LeaseCache.Cache
import LeaseCache.Proofs.Effects

/-!
# Calls in any order

The calls on the facades of one store share its memory, its content and the write lock. Each call is
a sequence of atomic steps, and `Traffic.Step` lets the steps of any number of calls follow each
other in any order.

A lookup looks into the memory, asks the store and hands the answer in with the epoch it saw. A
write takes the lock, calls the store, updates the memory and gives the lock back. The store can
fail: a lookup then ends without an answer, and a write may or may not have taken effect.
-/

namespace LeaseCache

variable {V : Type}

/-- What a write asks for: a value for a key, or none for its removal. -/
structure Write (V : Type) where
  key : Key
  value? : Option V

/-- What a write does to the store. -/
def Write.effect (w : Write V) : Effect V := ⟨w.key.identity, w.value?⟩

namespace Cache

/-- What a write does to the memory once the store has answered. -/
def settle (c : Cache V) (w : Write V) (ok : Bool) : Cache V :=
  match ok, w.value? with
  | true, some v => c.put w.key (.present v)
  | _, _ => c.remove w.key

theorem epoch_settle (c : Cache V) (w : Write V) (ok : Bool) :
    (c.settle w ok).epoch = c.epoch + 1 := by
  unfold settle
  split <;> rfl

/-- A write leaves an entry of its key only if it has put a value, and the entry is that value. -/
theorem put_of_get?_settle {c : Cache V} {w : Write V} {ok : Bool} {k : Key} {e : Entry V}
    (hk : k.Same w.key) (he : (c.settle w ok).get? k = some e) :
    ok = true ∧ ∃ v, w.value? = some v ∧ e = .present v := by
  unfold settle at he
  split at he
  · next v hv =>
    rw [get?_put, if_pos hk] at he
    exact ⟨rfl, v, hv, (Option.some.inj he).symm⟩
  · rw [get?_remove, if_pos hk] at he
    cases he

theorem value?_of_get?_settle {c : Cache V} {w : Write V} {ok : Bool} {k : Key} {e : Entry V}
    (hk : k.Same w.key) (he : (c.settle w ok).get? k = some e) :
    ok = true ∧ e.value? = w.value? := by
  obtain ⟨hok, v, hv, rfl⟩ := put_of_get?_settle hk he
  exact ⟨hok, hv.symm⟩

theorem get?_settle_of_not_same {c : Cache V} {w : Write V} {ok : Bool} {k : Key}
    (hk : ¬ k.Same w.key) : (c.settle w ok).get? k = c.get? k := by
  unfold settle
  split
  · rw [get?_put, if_neg hk]
  · rw [get?_remove, if_neg hk]

theorem epoch_fill (c : Cache V) (k : Key) (e : Entry V) (n : Nat) :
    (c.fill k e n).epoch = c.epoch := by
  unfold fill
  split <;> rfl

theorem baseline_settle (c : Cache V) (w : Write V) (ok : Bool) :
    (c.settle w ok).baseline = c.baseline := by
  unfold settle
  split <;> rfl

theorem baseline_fill (c : Cache V) (k : Key) (e : Entry V) (n : Nat) :
    (c.fill k e n).baseline = c.baseline := by
  unfold fill
  split <;> rfl

/-- An entry after a fill was there before, or is the answer handed in, in the epoch it belongs
to. -/
theorem get?_fill_cases {c : Cache V} {k l : Key} {e f : Entry V} {n : Nat}
    (h : (c.fill k e n).get? l = some f) :
    c.get? l = some f ∨ c.epoch = n ∧ l.Same k ∧ f = e := by
  rw [get?_fill] at h
  split at h
  · next hc =>
    have hsame : c.get? l = c.get? k := congrArg c.entries.get? hc.2
    cases hk : c.get? k with
    | none =>
      rw [hk] at h
      cases h
      exact .inr ⟨hc.1, hc.2, rfl⟩
    | some g =>
      rw [hk] at h
      cases h
      exact .inl (hsame.trans hk)
  · exact .inl h

theorem get?_of_probe {c : Cache V} {k : Key} {e : Entry V} (h : c.probe k = .cached e) :
    c.get? k = some e := by
  unfold probe at h
  split at h
  · next f hf =>
    cases h
    exact hf
  · cases h

theorem get?_of_vacant {c : Cache V} {k : Key} {n : Nat} (h : c.probe k = .vacant n) :
    c.get? k = none ∧ c.epoch = n := by
  unfold probe at h
  split at h
  · cases h
  · next hnone =>
    cases h
    exact ⟨hnone, rfl⟩

/-- Invalidating keeps everything if the reading is the baseline, and else drops every entry. -/
theorem invalidate_cases (c : Cache V) (reading : Option Signal) :
    c.isFresh reading = true ∧ c.invalidate reading = c ∨
      (c.invalidate reading).entries = .empty ∧ (c.invalidate reading).epoch = c.epoch + 1 ∧
        (c.invalidate reading).baseline = reading := by
  unfold invalidate
  split
  · next h => exact .inl ⟨h, rfl⟩
  · exact .inr ⟨rfl, rfl, rfl⟩

/-- Once invalidated by a reading, a memory is fresh for it. -/
theorem invalidate_invalidate (c : Cache V) (s : Signal) :
    (c.invalidate (some s)).invalidate (some s) = c.invalidate (some s) := by
  have hbaseline : (c.invalidate (some s)).baseline = some s := by
    rcases c.invalidate_cases (some s) with ⟨hfresh, hkept⟩ | ⟨-, -, hbaseline⟩
    · rw [hkept]
      exact of_decide_eq_true (Bool.and_eq_true_iff.1 hfresh).2
    · exact hbaseline
  rw [invalidate, if_pos]
  rw [isFresh, hbaseline]
  simp

end Cache

/-- Where a call stands between its steps. -/
inductive Call (V : Type) where
  /-- A lookup that has not looked into the memory yet. -/
  | lookup (key : Key)
  /-- It found no entry in this epoch, and has not asked the store yet. -/
  | asking (key : Key) (epoch : Nat)
  /-- The store has answered. -/
  | fetched (key : Key) (epoch : Nat) (answer : Option V)
  /-- It has ended with this answer. -/
  | found (key : Key) (answer : Lookup V)
  /-- It has ended with the store's failure. -/
  | failed (key : Key)
  /-- A write that does not hold the lock yet. -/
  | write (w : Write V)
  /-- It holds the lock. -/
  | locked (w : Write V)
  /-- The store has answered, when it had seen so many effects before. -/
  | stored (w : Write V) (ok : Bool) (place : Nat)
  /-- The memory is updated too. -/
  | settled (w : Write V) (ok : Bool) (place : Nat)
  /-- It has given the lock back and ended. -/
  | done (w : Write V) (ok : Bool) (place : Nat)

namespace Call

/-- Whether a call holds the write lock. -/
def HoldsLock : Call V → Prop
  | .locked _ | .stored .. | .settled .. => True
  | _ => False

/-- The epoch that a call will hand in. -/
def epoch? : Call V → Option Nat
  | .asking _ n | .fetched _ n _ => some n
  | _ => none

/-- The write that has reached the store and not yet the memory. -/
def stored? : Call V → Option (Write V)
  | .stored w _ _ => some w
  | _ => none

/-- Whether a call is a write that has begun and not ended. -/
def Writing : Call V → Prop
  | .write _ | .locked _ | .stored .. | .settled .. => True
  | _ => False

end Call

/-- What the calls on the facades of one store share, and where each of them stands. -/
structure Traffic (V : Type) where
  cache : Cache V
  /-- What the store held at first. -/
  first : Identity → Option V
  /-- The writes that took effect on the store since, the newest first. -/
  effects : List (Effect V)
  /-- The call that holds the write lock. -/
  writer : Option Nat
  calls : Nat → Option (Call V)

namespace Traffic

/-- Traffic before any call is made. -/
def start (cache : Cache V) (first : Identity → Option V) : Traffic V :=
  ⟨cache, first, [], none, fun _ => none⟩

/-- What the store holds for a key. -/
def content (s : Traffic V) (k : Key) : Option V := Effect.content s.first s.effects k.identity

/-- A write of a key has reached the store and not yet the memory. -/
def Pending (s : Traffic V) (k : Key) : Prop :=
  ∃ t c w, s.calls t = some c ∧ c.stored? = some w ∧ k.Same w.key

/-- A write has begun and not ended. -/
def Writing (s : Traffic V) : Prop := ∃ t c, s.calls t = some c ∧ c.Writing

/-- A call goes on to where it stands next. -/
def goto (s : Traffic V) (t : Nat) (c : Call V) : Traffic V :=
  { s with calls := fun u => if u = t then some c else s.calls u }

/-- One atomic step of one call. -/
inductive Step : Traffic V → Traffic V → Prop
  | startLookup {s : Traffic V} {t : Nat} (k : Key) (free : s.calls t = none) :
      Step s (s.goto t (.lookup k))
  | hit {s : Traffic V} {t : Nat} {k : Key} {e : Entry V} (at' : s.calls t = some (.lookup k))
      (probe : s.cache.probe k = .cached e) :
      Step s ({ s with cache := s.cache.countHit }.goto t (.found k (.hit e.value?)))
  | miss {s : Traffic V} {t : Nat} {k : Key} {n : Nat} (at' : s.calls t = some (.lookup k))
      (probe : s.cache.probe k = .vacant n) :
      Step s ({ s with cache := s.cache.countMiss }.goto t (.asking k n))
  | fetch {s : Traffic V} {t : Nat} {k : Key} {n : Nat} (at' : s.calls t = some (.asking k n)) :
      Step s (s.goto t (.fetched k n (s.content k)))
  | fetchFails {s : Traffic V} {t : Nat} {k : Key} {n : Nat}
      (at' : s.calls t = some (.asking k n)) : Step s (s.goto t (.failed k))
  | fill {s : Traffic V} {t : Nat} {k : Key} {n : Nat} {x : Option V}
      (at' : s.calls t = some (.fetched k n x)) :
      Step s ({ s with cache := s.cache.fill k (.ofOption x) n }.goto t (.found k (.miss x)))
  | startWrite {s : Traffic V} {t : Nat} (w : Write V) (free : s.calls t = none) :
      Step s (s.goto t (.write w))
  | lock {s : Traffic V} {t : Nat} {w : Write V} (at' : s.calls t = some (.write w))
      (free : s.writer = none) : Step s ({ s with writer := some t }.goto t (.locked w))
  /-- The write takes effect, whether or not the store then fails. -/
  | store {s : Traffic V} {t : Nat} {w : Write V} (ok : Bool)
      (at' : s.calls t = some (.locked w)) :
      Step s ({ s with effects := w.effect :: s.effects }.goto t
        (.stored w ok s.effects.length))
  /-- The store fails, and the write has taken no effect. -/
  | storeFails {s : Traffic V} {t : Nat} {w : Write V} (at' : s.calls t = some (.locked w)) :
      Step s (s.goto t (.stored w false s.effects.length))
  | settle {s : Traffic V} {t : Nat} {w : Write V} {ok : Bool} {n : Nat}
      (at' : s.calls t = some (.stored w ok n)) :
      Step s ({ s with cache := s.cache.settle w ok }.goto t (.settled w ok n))
  | unlock {s : Traffic V} {t : Nat} {w : Write V} {ok : Bool} {n : Nat}
      (at' : s.calls t = some (.settled w ok n)) :
      Step s ({ s with writer := none }.goto t (.done w ok n))

/-! ## What a step leaves alone -/

@[simp] theorem calls_goto (s : Traffic V) (t u : Nat) (c : Call V) :
    (s.goto t c).calls u = if u = t then some c else s.calls u := rfl

@[simp] theorem cache_goto (s : Traffic V) (t : Nat) (c : Call V) : (s.goto t c).cache = s.cache :=
  rfl

@[simp] theorem effects_goto (s : Traffic V) (t : Nat) (c : Call V) :
    (s.goto t c).effects = s.effects := rfl

@[simp] theorem writer_goto (s : Traffic V) (t : Nat) (c : Call V) :
    (s.goto t c).writer = s.writer := rfl

variable {s s' : Traffic V} {t u : Nat} {c d : Call V} {k : Key}

/-- A call that stands somewhere after a step of a call is that call, or stood there before. -/
theorem calls_goto_cases (h : (s.goto t c).calls u = some d) :
    u = t ∧ d = c ∨ u ≠ t ∧ s.calls u = some d := by
  rw [calls_goto] at h
  split at h
  · next hu => exact .inl ⟨hu, (Option.some.inj h).symm⟩
  · next hu => exact .inr ⟨hu, h⟩

/-- Only the step that updates the memory ends the time between store and memory. -/
theorem Pending.goto (hp : s.Pending k) (ht : ∀ d, s.calls t = some d → d.stored? = none) :
    (s.goto t c).Pending k := by
  obtain ⟨u, d, w, hu, hd, hk⟩ := hp
  refine ⟨u, d, w, ?_, hd, hk⟩
  rw [calls_goto, if_neg ?_]
  · exact hu
  · intro hut
    have hnone := ht d (hut ▸ hu)
    rw [hd] at hnone
    cases hnone

theorem pending_goto_stored (s : Traffic V) (t : Nat) {w : Write V} {ok : Bool} {n : Nat}
    (hk : k.Same w.key) : (s.goto t (.stored w ok n)).Pending k :=
  ⟨t, .stored w ok n, w, by simp, rfl, hk⟩

/-- The effects on the store only grow. -/
theorem Step.effects_suffix (h : Step s s') : s.effects <:+ s'.effects := by
  cases h with
  | store => exact List.suffix_cons _ _
  | _ => exact List.suffix_refl _

/-- The calls leave the baseline to the hooks. -/
theorem Step.baseline (h : Step s s') : s'.cache.baseline = s.cache.baseline := by
  cases h with
  | fill => exact Cache.baseline_fill _ _ _ _
  | settle => exact Cache.baseline_settle _ _ _
  | _ => rfl

/-- A write that has ended stays as it is. -/
theorem Step.done_stable {w : Write V} {ok : Bool} {n : Nat} (h : Step s s')
    (ht : s.calls t = some (.done w ok n)) : s'.calls t = some (.done w ok n) := by
  cases h <;> grind [calls_goto]

end Traffic

end LeaseCache
