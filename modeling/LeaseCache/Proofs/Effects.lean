import LeaseCache.Key

/-!
# The effects on a store

A store that is a map on the identity of keys is told by what it held at first and by the writes
that took effect on it since, the newest first. So "the result of this write or of a later one" is a
statement about positions in one list: the place of an effect is the number of effects before it.
-/

namespace LeaseCache

/-- A write that took effect: what its key holds since then, no value after a removal. -/
structure Effect (V : Type) where
  key : Identity
  value? : Option V

namespace Effect

variable {V : Type} {effects effects' : List (Effect V)} {k : Identity} {x : Option V} {n : Nat}

/-- What the store holds for a key. -/
def content (first : Identity → Option V) : List (Effect V) → Identity → Option V
  | [], k => first k
  | e :: older, k => if e.key = k then e.value? else content first older k

theorem content_cons_of_ne (first : Identity → Option V) (older : List (Effect V)) {e : Effect V}
    (h : ¬ e.key = k) : content first (e :: older) k = content first older k :=
  if_neg h

/-- An effect on `k` with the result `x` stands at place `n`. -/
def At (effects : List (Effect V)) (n : Nat) (k : Identity) (x : Option V) : Prop :=
  ∃ older, ⟨k, x⟩ :: older <:+ effects ∧ older.length = n

/-- An effect on `k` with the result `x` stands at place `n` or later. -/
def Since (effects : List (Effect V)) (n : Nat) (k : Identity) (x : Option V) : Prop :=
  ∃ m, n ≤ m ∧ At effects m k x

theorem At.mono (h : effects <:+ effects') (ha : At effects n k x) : At effects' n k x := by
  obtain ⟨older, ho, hn⟩ := ha
  exact ⟨older, ho.trans h, hn⟩

theorem At.lt_length (ha : At effects n k x) : n < effects.length := by
  obtain ⟨older, ho, hn⟩ := ha
  have hle := ho.length_le
  rw [List.length_cons] at hle
  omega

theorem at_cons_self (older : List (Effect V)) (k : Identity) (x : Option V) :
    At (⟨k, x⟩ :: older) older.length k x :=
  ⟨older, List.suffix_refl _, rfl⟩

theorem Since.mono (h : effects <:+ effects') (hs : Since effects n k x) :
    Since effects' n k x := by
  obtain ⟨m, hm, ha⟩ := hs
  exact ⟨m, hm, ha.mono h⟩

/-- Once a key was written, what it holds is the result of that write or of a later one. -/
theorem since_content (first : Identity → Option V) (ha : At effects n k x) :
    Since effects n k (content first effects k) := by
  induction effects with
  | nil =>
    obtain ⟨older, ho, -⟩ := ha
    exact absurd (List.suffix_nil.1 ho) (List.cons_ne_nil _ _)
  | cons e older ih =>
    by_cases he : e.key = k
    · have hlt := ha.lt_length
      rw [List.length_cons] at hlt
      subst he
      rw [content, if_pos rfl]
      exact ⟨older.length, by omega, at_cons_self older e.key e.value?⟩
    · have hold : At older n k x := by
        obtain ⟨older', ho, hn⟩ := ha
        rcases List.suffix_cons_iff.1 ho with heq | ho
        · cases heq
          exact absurd rfl he
        · exact ⟨older', ho, hn⟩
      rw [content_cons_of_ne first older he]
      exact (ih hold).mono (List.suffix_cons e older)

end Effect

end LeaseCache
