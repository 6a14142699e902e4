import LeaseCache.Proofs.Interleaving

/-!
# What an epoch tells

A lookup that finds no entry takes the epoch with it and hands the store's answer in with it. In
between anything may be done with the memory, in any number of steps and with any answers handed in
by others. Main statement: `Cache.epoch_decides_fills`, the answer is kept if and only if nothing
was put, removed or cleared in between, and then the first answer kept for a key is its entry.

An epoch that is held in a word has a bounded number of values, `UInt64.size` of them in 64 bits,
and begins again after the last one. Everything is therefore told for a memory whose epoch has
`span` values. With a span of zero there is no bound, and the steps are the operations of `Cache` as
they are (`Step.on_zero`). With any other an epoch comes back after just as many writes
(`accepts_after_full_turn`), so there have to be fewer steps than that.
-/

namespace LeaseCache

variable {V : Type}

namespace Cache

/-! ## Steps -/

/-- What is done with a memory in one step. -/
inductive Step (V : Type) where
  | get (key : Key)
  | probe (key : Key)
  /-- An answer is handed in, with any epoch. -/
  | fill (key : Key) (entry : Entry V) (epoch : Nat)
  | put (key : Key) (entry : Entry V)
  | remove (key : Key)
  | clear

/-- The memory with an epoch that has so many values, or any number of them if `span` is zero. -/
def wrap (span : Nat) (c : Cache V) : Cache V := { c with epoch := c.epoch % span }

theorem wrap_zero (c : Cache V) : c.wrap 0 = c := by
  rw [wrap, Nat.mod_zero]

/-- An answer goes where there is no entry, if it is accepted. -/
theorem get?_fill_eq_or (c : Cache V) (k l : Key) (e : Entry V) (n : Nat) :
    (c.fill k e n).get? l =
      (c.get? l).or (if c.accepts n ∧ l.Same k then some e else none) := by
  simp only [get?_fill, accepts, decide_eq_true_eq]
  by_cases hkept : c.epoch = n ∧ l.Same k
  · have hsame : c.get? k = c.get? l := congrArg c.entries.get? hkept.2.symm
    rw [if_pos hkept, if_pos hkept, hsame]
    cases c.get? l <;> rfl
  · rw [if_neg hkept, if_neg hkept, Option.or_none]

namespace Step

/-- The memory after a step. -/
def on (span : Nat) : Step V → Cache V → Cache V
  | .get _, c => c
  | .probe _, c => c
  | .fill k e n, c => c.fill k e n
  | .put k e, c => (c.put k e).wrap span
  | .remove k, c => (c.remove k).wrap span
  | .clear, c => c.clear.wrap span

/-- Whether the epoch counts a step. It counts removals of missing keys and clearings of empty
memories too. -/
def counts : Step V → Bool
  | .put .. | .remove _ | .clear => true
  | .get _ | .probe _ | .fill .. => false

/-- What a step keeps as an answer for a key, whether or not there is an entry already. -/
def kept (c : Cache V) (k : Key) : Step V → Option (Entry V)
  | .fill l e n => if c.accepts n ∧ k.Same l then some e else none
  | _ => none

variable {s : Step V}

/-- Without a bound a step is the operation itself. -/
theorem on_zero (c : Cache V) (k : Key) (e : Entry V) :
    (put k e).on 0 c = c.put k e ∧ (remove k).on 0 c = c.remove k ∧ clear.on 0 c = c.clear :=
  ⟨wrap_zero _, wrap_zero _, wrap_zero _⟩

theorem epoch_on_of_counts (span : Nat) (c : Cache V) (h : s.counts = true) :
    (s.on span c).epoch = (c.epoch + 1) % span := by
  cases s with
  | put k e | remove k | clear => rfl
  | get k | probe k | fill k e n => cases h

theorem epoch_on_of_not_counts (span : Nat) (c : Cache V) (h : s.counts = false) :
    (s.on span c).epoch = c.epoch := by
  cases s with
  | get k | probe k => rfl
  | fill k e n => exact epoch_fill c k e n
  | put k e | remove k | clear => cases h

/-- A step that the epoch does not count leaves every entry, and gives a key without one the answer
that it keeps. -/
theorem get?_on_of_not_counts (span : Nat) (c : Cache V) (k : Key) (h : s.counts = false) :
    (s.on span c).get? k = (c.get? k).or (s.kept c k) := by
  cases s with
  | get l | probe l => exact Option.or_none.symm
  | fill l e n => exact get?_fill_eq_or c l k e n
  | put l e | remove l | clear => cases h

end Step

/-! ## Runs -/

/-- The memory after steps, one after the other. -/
def after (span : Nat) (c : Cache V) (steps : List (Step V)) : Cache V :=
  steps.foldl (fun c s => s.on span c) c

/-- The first answer that steps keep for a key. -/
def firstKept (span : Nat) (c : Cache V) (k : Key) : List (Step V) → Option (Entry V)
  | [] => none
  | s :: steps => (s.kept c k).or (firstKept span (s.on span c) k steps)

variable {span : Nat} {c : Cache V} {steps : List (Step V)}

theorem after_cons (span : Nat) (c : Cache V) (s : Step V) (steps : List (Step V)) :
    c.after span (s :: steps) = (s.on span c).after span steps := rfl

theorem after_append (span : Nat) (c : Cache V) (steps more : List (Step V)) :
    c.after span (steps ++ more) = (c.after span steps).after span more :=
  List.foldl_append

/-- The epoch is the number of steps that it counts, as far as it can tell them apart. -/
theorem epoch_after (span : Nat) (c : Cache V) (steps : List (Step V)) :
    (c.after span steps).epoch =
      if steps.countP Step.counts = 0 then c.epoch
      else (c.epoch + steps.countP Step.counts) % span := by
  induction steps generalizing c with
  | nil => rfl
  | cons s steps ih =>
    rw [after_cons, ih]
    cases hs : s.counts with
    | false =>
      rw [List.countP_cons_of_neg (by simp [hs]), s.epoch_on_of_not_counts span c hs]
    | true =>
      rw [List.countP_cons_of_pos hs, s.epoch_on_of_counts span c hs, if_neg (Nat.succ_ne_zero _)]
      split
      · next hnone => rw [hnone]
      · rw [Nat.mod_add_mod, Nat.add_assoc, Nat.add_comm 1]

/-- With room for all of the steps, the epoch is the one from before only if none was counted. -/
theorem epoch_after_eq_iff (c : Cache V) (hroom : span = 0 ∨ steps.length < span) :
    (c.after span steps).epoch = c.epoch ↔ ∀ s ∈ steps, s.counts = false := by
  have hnone : steps.countP Step.counts = 0 ↔ ∀ s ∈ steps, s.counts = false := by
    simp [List.countP_eq_zero]
  rw [← hnone, epoch_after]
  refine ⟨fun heq => ?_, fun hzero => if_pos hzero⟩
  by_cases hcounted : steps.countP Step.counts = 0
  · exact hcounted
  rw [if_neg hcounted] at heq
  -- the epoch has come round, which takes a multiple of its span
  have hround : span ∣ steps.countP Step.counts := by
    have hsplit := Nat.div_add_mod (c.epoch + steps.countP Step.counts) span
    rw [heq] at hsplit
    exact ⟨(c.epoch + steps.countP Step.counts) / span, by omega⟩
  have hle : steps.countP Step.counts ≤ steps.length := List.countP_le_length
  rcases hroom with rfl | hroom
  · exact Nat.eq_zero_of_zero_dvd hround
  · exact Nat.eq_zero_of_dvd_of_lt hround (Nat.lt_of_le_of_lt hle hroom)

/-- After as many clearings as an epoch has values, it is taken for the one from before. -/
theorem accepts_after_full_turn (hepoch : c.epoch < span) :
    (c.after span (List.replicate span .clear)).accepts c.epoch = true := by
  have hcount : (List.replicate span (Step.clear : Step V)).countP Step.counts = span := by
    simp [List.countP_replicate, Step.counts]
  have hne : span ≠ 0 := Nat.ne_of_gt (Nat.zero_lt_of_lt hepoch)
  rw [accepts, decide_eq_true_eq, epoch_after, hcount, if_neg hne, Nat.add_mod_right,
    Nat.mod_eq_of_lt hepoch]

/-- While nothing is counted, entries stay, and a key without one gets the first answer that is kept
for it. -/
theorem get?_after_of_not_counts (c : Cache V) (k : Key) (h : ∀ s ∈ steps, s.counts = false) :
    (c.after span steps).get? k = (c.get? k).or (c.firstKept span k steps) := by
  induction steps generalizing c with
  | nil => exact Option.or_none.symm
  | cons s steps ih =>
    rw [List.forall_mem_cons] at h
    rw [after_cons, ih (s.on span c) h.2, s.get?_on_of_not_counts span c k h.1, Option.or_assoc,
      firstKept]

/-- An answer never replaces an entry. -/
theorem get?_fill_of_entry {k l : Key} {e : Entry V} (h : c.get? l = some e) (x : Entry V)
    (n : Nat) : (c.fill k x n).get? l = some e := by
  rw [get?_fill_eq_or, h, Option.some_or]

/-- An answer is handed in with the epoch in which its key had no entry, after any steps that the
epoch has room for. It is accepted if and only if none of them has put, removed or cleared anything.
If it is not, nothing changes; if it is, the first answer accepted for its key since then is the
entry, and the epoch and the entries of other keys are left. No answer ever replaces an entry, and
two looks that find none see one epoch if and only if nothing was put, removed or cleared between
them. -/
theorem epoch_decides_fills {k : Key} {n : Nat} (hprobe : c.probe k = .vacant n)
    (steps : List (Step V)) (hroom : span = 0 ∨ steps.length < span) (x : Entry V) :
    ((c.after span steps).accepts n = true ↔ ∀ s ∈ steps, s.counts = false) ∧
    ((c.after span steps).accepts n = false →
      (c.after span steps).fill k x n = c.after span steps) ∧
    ((c.after span steps).accepts n = true →
      ((c.after span steps).fill k x n).epoch = (c.after span steps).epoch ∧
      ∀ l, ((c.after span steps).fill k x n).get? l =
        if l.Same k then some ((c.firstKept span k steps).getD x)
        else (c.after span steps).get? l) ∧
    (∀ l e, (c.after span steps).get? l = some e →
      ∀ m y p, ((c.after span steps).fill m y p).get? l = some e) ∧
    ∀ earlier later, steps = earlier ++ later → ∀ i j p q,
      (c.after span earlier).probe i = .vacant p → (c.after span steps).probe j = .vacant q →
      (p = q ↔ ∀ s ∈ later, s.counts = false) := by
  obtain ⟨hvacant, hepoch⟩ := get?_of_vacant hprobe
  have hdecides : (c.after span steps).accepts n = true ↔ ∀ s ∈ steps, s.counts = false := by
    rw [accepts, decide_eq_true_eq, ← hepoch]
    exact epoch_after_eq_iff c hroom
  refine ⟨hdecides, ?_, ?_, ?_, ?_⟩
  · intro hrefused
    rw [fill, hrefused, if_neg Bool.false_ne_true]
  · intro haccepted
    refine ⟨epoch_fill _ k x n, fun l => ?_⟩
    have hkept : (c.after span steps).get? k = c.firstKept span k steps := by
      rw [get?_after_of_not_counts c k (hdecides.1 haccepted), hvacant, Option.none_or]
    have hsame : (c.after span steps).epoch = n := of_decide_eq_true haccepted
    rw [get?_fill, hkept]
    simp only [hsame, true_and]
  · exact fun l e hentry m y p => get?_fill_of_entry hentry y p
  · rintro earlier later rfl i j p q hp hq
    have hlater : span = 0 ∨ later.length < span := by
      rw [List.length_append] at hroom
      omega
    rw [after_append] at hq
    rw [← (get?_of_vacant hp).2, ← (get?_of_vacant hq).2, eq_comm]
    exact epoch_after_eq_iff _ hlater

/-! ## The last epoch of a word -/

/-- A key. -/
def plainSpelling : Key := .path (.ofString "a/b")

/-- The same key in another spelling. -/
def oddSpelling : Key := .path (.ofString "a//b")

/-- A memory with one entry, in the last epoch that 64 bits can hold. -/
def lastEpoch : Cache Nat :=
  { (fresh none).put (.integer 8) (.present 8) with epoch := UInt64.size - 1 }

/-- Looks, and answers for one key: one from an earlier epoch, the first of this epoch, under the
other spelling, and a later one. -/
def racing : List (Step Nat) :=
  [.fill plainSpelling (.present 1) 5, .probe (.integer 8),
    .fill oddSpelling (.present 2) (UInt64.size - 1), .get plainSpelling,
    .fill plainSpelling .absent (UInt64.size - 1)]

/-- The same, and then a missing key is removed. -/
def overrun : List (Step Nat) := racing ++ [.remove (.integer 9)]

/-- The first answer of the epoch stays the entry. Once a missing key was removed the epoch is zero
again, and an answer of the old epoch is refused. -/
theorem answer_of_the_last_epoch_is_refused_in_the_first :
    lastEpoch.probe plainSpelling = .vacant (UInt64.size - 1) ∧
    racing.length < UInt64.size ∧ overrun.length < UInt64.size ∧
    (lastEpoch.after UInt64.size racing).accepts (UInt64.size - 1) = true ∧
    ((lastEpoch.after UInt64.size racing).fill plainSpelling (.present 3)
      (UInt64.size - 1)).get? plainSpelling = some (.present 2) ∧
    (lastEpoch.after UInt64.size overrun).epoch = 0 ∧
    (lastEpoch.after UInt64.size overrun).fill plainSpelling (.present 3) (UInt64.size - 1) =
      lastEpoch.after UInt64.size overrun := by
  have hprobe : lastEpoch.probe plainSpelling = .vacant (UInt64.size - 1) := by decide
  have hracing : racing.length < UInt64.size := by decide
  have hoverrun : overrun.length < UInt64.size := by decide
  obtain ⟨hdecides, -, hentry, -⟩ := epoch_decides_fills hprobe racing (.inr hracing) (.present 3)
  obtain ⟨hdecides', hrefused, -⟩ :=
    epoch_decides_fills hprobe overrun (.inr hoverrun) (.present 3)
  have haccepted : (lastEpoch.after UInt64.size racing).accepts (UInt64.size - 1) = true :=
    hdecides.2 (by decide)
  have hfirst : lastEpoch.firstKept UInt64.size plainSpelling racing = some (.present 2) := by
    decide
  refine ⟨hprobe, hracing, hoverrun, haccepted, ?_, by decide, hrefused ?_⟩
  · rw [(hentry haccepted).2, if_pos (show plainSpelling.Same plainSpelling from rfl), hfirst]
    rfl
  · rw [Bool.eq_false_iff, Ne, hdecides']
    decide

end Cache

end LeaseCache
