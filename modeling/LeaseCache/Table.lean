/-!
# Tables

Finite maps as lists of pairs with distinct keys. The view of a table is `get?`: each operation has
one lemma that says what it does to the view, and `size_insert` and `size_erase` say what it does to
the number of keys.
-/

namespace LeaseCache

/-- A finite map. -/
structure Table (κ α : Type) where
  pairs : List (κ × α)
  distinct : (pairs.map Prod.fst).Nodup

namespace Table

variable {κ α : Type}

/-- The table without keys. -/
def empty : Table κ α := ⟨[], by simp⟩

instance : Inhabited (Table κ α) := ⟨empty⟩

/-- The number of keys. -/
def size (t : Table κ α) : Nat := t.pairs.length

@[simp] theorem size_empty : (empty : Table κ α).size = 0 := rfl

/-- The keys, the one inserted last at the end. -/
def keys (t : Table κ α) : List κ := t.pairs.map Prod.fst

/-- The values, in the order of their keys. -/
def values (t : Table κ α) : List α := t.pairs.map Prod.snd

variable [DecidableEq κ]

/-- The pairs with another key. -/
def others (k : κ) (pairs : List (κ × α)) : List (κ × α) := pairs.filter fun p => p.1 ≠ k

/-- The value of a key. -/
def get? (t : Table κ α) (k : κ) : Option α := (t.pairs.find? fun p => p.1 = k).map Prod.snd

/-- Whether a key has a value. -/
def contains (t : Table κ α) (k : κ) : Bool := (t.get? k).isSome

theorem nodup_others {pairs : List (κ × α)} (k : κ) (h : (pairs.map Prod.fst).Nodup) :
    ((others k pairs).map Prod.fst).Nodup :=
  h.sublist (List.filter_sublist.map _)

theorem not_mem_others (k : κ) (pairs : List (κ × α)) : k ∉ (others k pairs).map Prod.fst := by
  simp [others]

/-- The table without a key. -/
def erase (t : Table κ α) (k : κ) : Table κ α := ⟨others k t.pairs, nodup_others k t.distinct⟩

/-- The table with a value for a key. -/
def insert (t : Table κ α) (k : κ) (a : α) : Table κ α where
  pairs := others k t.pairs ++ [(k, a)]
  distinct := by
    rw [List.map_append, List.nodup_append]
    refine ⟨nodup_others k t.distinct, by simp, ?_⟩
    intro x hx y hy hxy
    simp only [List.map_cons, List.map_nil, List.mem_singleton] at hy
    rw [hxy, hy] at hx
    exact not_mem_others k t.pairs hx

/-- The table with a value for a key that has none yet. -/
def insertIfNew (t : Table κ α) (k : κ) (a : α) : Table κ α :=
  if t.contains k then t else t.insert k a

@[simp] theorem get?_empty (k : κ) : (empty : Table κ α).get? k = none := rfl

theorem find?_others (k l : κ) (pairs : List (κ × α)) :
    (others k pairs).find? (fun p => p.1 = l) =
      if l = k then none else pairs.find? fun p => p.1 = l := by
  induction pairs with
  | nil => simp [others]
  | cons p pairs ih =>
    rw [others] at ih ⊢
    by_cases hp : p.1 = k
    · rw [List.filter_cons_of_neg (by simpa using hp), ih]
      by_cases hl : l = k
      · simp [hl]
      · rw [if_neg hl, if_neg hl, List.find?_cons_of_neg]
        simpa [hp] using Ne.symm hl
    · rw [List.filter_cons_of_pos (by simpa using hp)]
      by_cases hl : p.1 = l
      · have : l ≠ k := hl ▸ hp
        simp [hl, this]
      · rw [List.find?_cons_of_neg (by simpa using hl), List.find?_cons_of_neg (by simpa using hl)]
        exact ih

theorem get?_erase (t : Table κ α) (k l : κ) :
    (t.erase k).get? l = if l = k then none else t.get? l := by
  rw [get?, erase, find?_others]
  split <;> rfl

theorem get?_insert (t : Table κ α) (k l : κ) (a : α) :
    (t.insert k a).get? l = if l = k then some a else t.get? l := by
  rw [get?, insert, List.find?_append, find?_others]
  by_cases h : l = k
  · simp [h]
  · have hk : ¬ k = l := fun e => h e.symm
    simp [h, hk, get?]

theorem length_others {pairs : List (κ × α)} (k : κ) (h : (pairs.map Prod.fst).Nodup) :
    (others k pairs).length =
      if k ∈ pairs.map Prod.fst then pairs.length - 1 else pairs.length := by
  have hkeys : (others k pairs).map Prod.fst = (pairs.map Prod.fst).erase k := by
    rw [h.erase_eq_filter, List.filter_map]
    congr 1
    refine List.filter_congr fun p _ => ?_
    by_cases hp : p.1 = k <;> simp [hp]
  have hlength : (others k pairs).length = ((others k pairs).map Prod.fst).length :=
    (List.length_map _).symm
  rw [hlength, hkeys, List.length_erase, List.length_map]

theorem find?_eq_some_iff {pairs : List (κ × α)} (h : (pairs.map Prod.fst).Nodup) (k : κ) (a : α) :
    (pairs.find? fun p => p.1 = k).map Prod.snd = some a ↔ (k, a) ∈ pairs := by
  induction pairs with
  | nil => simp
  | cons p pairs ih =>
    rw [List.map_cons, List.nodup_cons] at h
    by_cases hp : p.1 = k
    · have hnot : (k, a) ∉ pairs := fun hmem => h.1 (hp ▸ List.mem_map_of_mem hmem)
      rw [List.find?_cons_of_pos (by simpa using hp), List.mem_cons, or_iff_left hnot,
        Option.map_some, Option.some.injEq, ← hp, Prod.ext_iff]
      simp [eq_comm]
    · have hne : (k, a) ≠ p := fun heq => hp (heq ▸ rfl)
      rw [List.find?_cons_of_neg (by simpa using hp), ih h.2, List.mem_cons, or_iff_right hne]

theorem get?_eq_some_iff (t : Table κ α) (k : κ) (a : α) :
    t.get? k = some a ↔ (k, a) ∈ t.pairs :=
  find?_eq_some_iff t.distinct k a

theorem mem_values_iff (t : Table κ α) (a : α) : a ∈ t.values ↔ ∃ k, t.get? k = some a := by
  simp only [values, get?_eq_some_iff, List.mem_map, Prod.exists, exists_eq_right]

/-- Values that no two keys have in common are listed once. -/
theorem nodup_values (t : Table κ α)
    (h : ∀ k l a, t.get? k = some a → t.get? l = some a → k = l) : t.values.Nodup := by
  have hdistinct := t.distinct
  rw [List.Nodup, List.pairwise_map] at hdistinct
  rw [values, List.Nodup, List.pairwise_map]
  refine hdistinct.imp_of_mem fun {p q} hp hq hne heq => hne ?_
  exact h p.1 q.1 q.2 ((t.get?_eq_some_iff _ _).2 (heq ▸ hp)) ((t.get?_eq_some_iff _ _).2 hq)

theorem values_insert (t : Table κ α) {k : κ} (h : t.get? k = none) (a : α) :
    (t.insert k a).values = t.values ++ [a] := by
  have hothers : others k t.pairs = t.pairs := by
    refine List.filter_eq_self.2 fun p hp => decide_eq_true fun heq => ?_
    rw [(t.get?_eq_some_iff k p.2).2 (heq ▸ hp)] at h
    cases h
  show (others k t.pairs ++ [(k, a)]).map Prod.snd = _
  rw [hothers, List.map_append]
  rfl

theorem contains_iff_mem_keys (t : Table κ α) (k : κ) : t.contains k = true ↔ k ∈ t.keys := by
  simp [contains, get?, keys, List.find?_isSome]

theorem size_erase (t : Table κ α) (k : κ) :
    (t.erase k).size = if t.contains k then t.size - 1 else t.size := by
  rw [size, erase, length_others k t.distinct]
  simp only [contains_iff_mem_keys, keys, size]

theorem size_insert (t : Table κ α) (k : κ) (a : α) :
    (t.insert k a).size = if t.contains k then t.size else t.size + 1 := by
  rw [size, insert, List.length_append, length_others k t.distinct]
  simp only [contains_iff_mem_keys, keys, size, List.length_singleton]
  split
  · rename_i hk
    have : 0 < (t.pairs.map Prod.fst).length := List.length_pos_of_mem hk
    rw [List.length_map] at this
    omega
  · rfl

theorem get?_insertIfNew (t : Table κ α) (k l : κ) (a : α) :
    (t.insertIfNew k a).get? l =
      if l = k then some ((t.get? k).getD a) else t.get? l := by
  rw [insertIfNew, contains]
  cases hk : t.get? k with
  | none =>
    rw [Option.isSome_none, if_neg Bool.false_ne_true, get?_insert]
    simp
  | some b =>
    rw [Option.isSome_some, if_pos rfl]
    by_cases h : l = k
    · simp [h, hk]
    · simp [h]

end Table

end LeaseCache
