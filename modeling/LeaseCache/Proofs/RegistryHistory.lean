import LeaseCache.Proofs.RegistrySpec
import Mathlib.Data.Finset.Card

/-!
# One memory for each place

What a registry holds is told by the requests made to it so far, and by what came of them: a place
has the memory that the first request for it was granted (`Registry.creation`), whatever else was
asked for, refused or interrupted since, and however the place was spelled. The invariant is
`Registry.Tracks`, and the main statement `Registry.one_memory_for_each_place`.
-/

namespace LeaseCache

namespace Registry

variable {σ : Type}

/-! ## Requests -/

/-- A request to a registry, and what came of it. -/
structure Request where
  handle : Path
  type : ValueType
  answer : Except Interruption (Except Failure Nat)

/-- The number of the memory that was granted. -/
def Request.granted? (r : Request) : Option Nat :=
  match r.answer with
  | .ok (.ok n) => some n
  | _ => none

/-- The place of a request that was granted. -/
def Request.place? (r : Request) : Option (List Component) :=
  r.granted?.map fun _ => r.handle.components

/-- The request that the memory of a place was created for, and the number that it was granted: the
first that was granted. The newest request stands first. -/
def creation (place : List Component) : List Request → Option (Nat × Request)
  | [] => none
  | r :: earlier => (creation place earlier).or
    (if r.handle.components = place then r.granted?.map (·, r) else none)

/-- Requests to a registry that began without memories, the newest first, and the world after them.
Beside the requests anything can happen that leaves the registry alone, and so can the making of a
marker do anything that does, and be interrupted. -/
inductive History (i : Nat) : List Request → World σ → Prop
  | start {w} : (w.registries.get i).cells = .empty → History i [] w
  | acquire {log w} (handle type make) : History i log w → Apart i w (make w).2 →
    History i (⟨handle, type, (acquire i handle type make w).1⟩ :: log)
      (acquire i handle type make w).2
  | meanwhile {log w w'} : History i log w → Apart i w w' → History i log w'

section Creation

variable {place : List Component} {log : List Request} {r : Request} {n : Nat}

theorem creation_cons_of_some {x : Nat × Request} (h : creation place log = some x) (r : Request) :
    creation place (r :: log) = some x := by
  rw [creation, h, Option.some_or]

theorem creation_cons_of_refused (h : r.granted? = none) (place : List Component)
    (log : List Request) : creation place (r :: log) = creation place log := by
  rw [creation, h, Option.map_none, ite_self, Option.or_none]

theorem creation_cons_of_again (h : (creation r.handle.components log).isSome = true)
    (place : List Component) : creation place (r :: log) = creation place log := by
  cases hold : creation place log with
  | some x => exact creation_cons_of_some hold r
  | none =>
    have hne : r.handle.components ≠ place := by
      rintro rfl
      rw [hold] at h
      cases h
    rw [creation, hold, if_neg hne, Option.or_none]

theorem creation_append_of_some {x : Nat × Request} (h : creation place log = some x)
    (more : List Request) : creation place (more ++ log) = some x := by
  induction more with
  | nil => exact h
  | cons r more ih => exact creation_cons_of_some ih r

/-- A place has a memory if a request for it was granted. -/
theorem creation_isSome_iff :
    (creation place log).isSome = true ↔ place ∈ log.filterMap Request.place? := by
  induction log with
  | nil => simp [creation]
  | cons r log ih =>
    rw [creation, Option.isSome_or, Bool.or_eq_true, ih, List.mem_filterMap, List.mem_filterMap]
    simp only [List.mem_cons, exists_eq_or_imp, Request.place?]
    rw [or_comm]
    refine or_congr ?_ Iff.rfl
    cases r.granted? with
    | none => simp
    | some n => simp

end Creation

/-! ## What a registry holds -/

/-- A registry holds for each place the memory that was created for it, and each memory is what it
was created as. -/
structure Tracks (i : Nat) (log : List Request) (w : World σ) : Prop where
  content : ∀ place, (w.registries.get i).cells.get? place = (creation place log).map Prod.fst
  old : ∀ {place n r}, creation place log = some (n, r) → n < w.cells.next
  place : ∀ {place n r}, creation place log = some (n, r) → r.handle.components = place
  handle : ∀ {place n r}, creation place log = some (n, r) → (w.cells.get n).handle = r.handle
  type : ∀ {place n r}, creation place log = some (n, r) → (w.cells.get n).type = r.type

namespace Tracks

variable {i n m : Nat} {log : List Request} {w w' w₁ : World σ} {place : List Component}
  {r : Request} {handle : Path} {log' : List Request}

theorem start (h : (w.registries.get i).cells = .empty) : Tracks i [] w :=
  ⟨fun place => by rw [h]; rfl, nofun, nofun, nofun, nofun⟩

theorem mem_values (h : Tracks i log w) (hc : creation place log = some (n, r)) :
    n ∈ (w.registries.get i).cells.values :=
  (Table.mem_values_iff _ _).2 ⟨place, by rw [h.content, hc]; rfl⟩

theorem meanwhile (h : Tracks i log w) (ha : Apart i w w') : Tracks i log w' where
  content place := by rw [ha.registry, h.content]
  old hc := Nat.lt_of_lt_of_le (h.old hc) ha.next
  place := h.place
  handle hc := (ha.handle _ (h.mem_values hc)).trans (h.handle hc)
  type hc := (ha.type _ (h.mem_values hc)).trans (h.type hc)

/-- Requests that create nothing are nothing to the registry. -/
theorem of_creation (h : Tracks i log w)
    (hsame : ∀ place, creation place log' = creation place log) : Tracks i log' w where
  content place := by rw [hsame, h.content]
  old hc := h.old (hsame _ ▸ hc)
  place hc := h.place (hsame _ ▸ hc)
  handle hc := h.handle (hsame _ ▸ hc)
  type hc := h.type (hsame _ ▸ hc)

/-- A place that had none has a new memory. -/
theorem register (h : Tracks i log w) (hc : creation handle.components log = none)
    (type : ValueType) (m : Nat) :
    Tracks i (⟨handle, type, .ok (.ok w.cells.next)⟩ :: log) (w.register i handle type m) := by
  have hcells : ∀ n, (w.register i handle type m).cells.get n =
      if n = w.cells.next then ⟨handle, m, type, false, .fresh (w.signal m).toOption⟩
      else w.cells.get n :=
    fun n => Pool.get_add _ _ _
  have hcreation : ∀ place, creation place (⟨handle, type, .ok (.ok w.cells.next)⟩ :: log) =
      if place = handle.components then some (w.cells.next, ⟨handle, type, .ok (.ok w.cells.next)⟩)
      else creation place log := by
    intro place
    by_cases hplace : place = handle.components
    · rw [creation, hplace, hc, if_pos rfl, if_pos rfl]
      rfl
    · rw [creation, if_neg (Ne.symm hplace), if_neg hplace, Option.or_none]
  refine ⟨?_, ?_, ?_, ?_, ?_⟩
  · intro place
    have hregistry : ((w.register i handle type m).registries.get i).cells =
        (w.registries.get i).cells.insert handle.components w.cells.next := by
      rw [World.register, Pool.get_modify, if_pos rfl]
    rw [hregistry, Table.get?_insert, hcreation, h.content]
    split <;> rfl
  all_goals
    intro place n r hcreated
    rw [hcreation] at hcreated
    split at hcreated
  · cases hcreated
    exact Nat.lt_succ_self _
  · exact Nat.lt_succ_of_lt (h.old hcreated)
  · next hplace =>
    cases hcreated
    exact hplace.symm
  · exact h.place hcreated
  · cases hcreated
    rw [hcells, if_pos rfl]
  · rw [hcells, if_neg (Nat.ne_of_lt (h.old hcreated))]
    exact h.handle hcreated
  · cases hcreated
    rw [hcells, if_pos rfl]
  · rw [hcells, if_neg (Nat.ne_of_lt (h.old hcreated))]
    exact h.type hcreated

theorem cell?_eq (h : Tracks i log w) (handle : Path) :
    (w.registries.get i).cell? handle = (creation handle.components log).map Prod.fst :=
  h.content _

/-- What a request leaves is told by the requests and this one. -/
theorem acquire (h : Tracks i log w) (handle : Path) (type : ValueType) {make : Act σ Nat}
    (ha : Apart i w (make w).2) :
    Tracks i (⟨handle, type, (Registry.acquire i handle type make w).1⟩ :: log)
      (Registry.acquire i handle type make w).2 := by
  have hcell := h.cell?_eq handle
  cases hc : creation handle.components log with
  | some x =>
    rw [hc] at hcell
    rw [acquire_of_registered hcell]
    exact h.of_creation fun place => creation_cons_of_again (by rw [hc]; rfl) place
  | none =>
    rw [hc] at hcell
    obtain ⟨r, w₁, hmake⟩ : ∃ r w₁, make w = (r, w₁) := ⟨_, _, rfl⟩
    rw [hmake] at ha
    cases r with
    | error p =>
      rw [acquire_of_interrupted hcell type hmake]
      exact (h.meanwhile ha).of_creation fun place => creation_cons_of_refused rfl place log
    | ok m =>
      rw [acquire_of_made hcell type hmake]
      exact (h.meanwhile ha).register hc type m

end Tracks

theorem History.tracks {i : Nat} {log : List Request} {w : World σ} (h : History i log w) :
    Tracks i log w := by
  induction h with
  | start hempty => exact .start hempty
  | acquire handle type make _ ha ih => exact ih.acquire handle type ha
  | meanwhile _ ha ih => exact ih.meanwhile ha

/-! ## What is listed -/

namespace Tracks

variable {i n : Nat} {log : List Request} {w : World σ}

theorem contains_iff (h : Tracks i log w) (handle : Path) :
    (w.registries.get i).contains handle = true ↔
      handle.components ∈ log.filterMap Request.place? := by
  rw [Registry.contains, Table.contains, h.content, Option.isSome_map, creation_isSome_iff]

theorem size_eq (h : Tracks i log w) :
    (w.registries.get i).cells.size = (log.filterMap Request.place?).toFinset.card := by
  have hkeys : (w.registries.get i).cells.keys.toFinset =
      (log.filterMap Request.place?).toFinset := by
    ext place
    rw [List.mem_toFinset, List.mem_toFinset, ← Table.contains_iff_mem_keys, Table.contains,
      h.content, Option.isSome_map, creation_isSome_iff]
  rw [← hkeys, Table.keys, List.toFinset_card_of_nodup (Table.distinct _), List.length_map,
    Table.size]

theorem nodup_values (h : Tracks i log w) : (w.registries.get i).cells.values.Nodup := by
  refine Table.nodup_values _ fun place place' n hplace hplace' => ?_
  rw [h.content, Option.map_eq_some_iff] at hplace hplace'
  obtain ⟨⟨n, r⟩, hc, rfl⟩ := hplace
  obtain ⟨⟨n', r'⟩, hc', rfl⟩ := hplace'
  -- the memory has one handle, so both requests were made for one place
  rw [← h.place hc, ← h.place hc', ← h.handle hc, ← h.handle hc']

theorem mem_values_iff (h : Tracks i log w) :
    n ∈ (w.registries.get i).cells.values ↔ ∃ place r, creation place log = some (n, r) := by
  rw [Table.mem_values_iff]
  constructor
  · rintro ⟨place, hplace⟩
    rw [h.content, Option.map_eq_some_iff] at hplace
    obtain ⟨⟨n, r⟩, hc, rfl⟩ := hplace
    exact ⟨place, r, hc⟩
  · rintro ⟨place, r, hc⟩
    exact ⟨place, by rw [h.content, hc]; rfl⟩

end Tracks

/-- A registry has one memory for each place, forever. A place that has a memory, however it is
spelled, is answered with it, or refused for the type, and nothing changes: the marker is not made.
A place that has none gets a new memory with the marker that is made, which is read once; if the
making is interrupted, nothing else happens, and the place can still get a memory of any type. So
the places with memories are those for which a request was granted, each memory is listed once, and
the memory that was created for a place stays. -/
theorem one_memory_for_each_place {i : Nat} {log : List Request} {w : World σ}
    (h : History i log w) :
    (∀ {handle n r}, creation handle.components log = some (n, r) →
      (w.cells.get n).handle = r.handle ∧ (w.cells.get n).type = r.type ∧
      ∀ type make, acquire i handle type make w =
        (.ok (if r.type = type then .ok n else .error (.valueTypeMismatch handle type)), w)) ∧
    (∀ {handle}, creation handle.components log = none → ∀ {make : Act σ Nat},
      (∀ {m w₁}, make w = (.ok m, w₁) → Apart i w w₁ → ∀ type,
        acquire i handle type make w =
          (.ok (.ok w₁.cells.next), w₁.register i handle type m) ∧
        (∀ n ∈ (w.registries.get i).cells.values, n ≠ w₁.cells.next ∧
          (w₁.register i handle type m).cells.get n = w₁.cells.get n) ∧
        ∀ n, ((w₁.register i handle type m).markers.get n).reads =
          (w₁.markers.get n).reads + if m = n then 1 else 0) ∧
      ∀ {p w₁}, make w = (.error p, w₁) → Apart i w w₁ → ∀ type,
        acquire i handle type make w = (.error p, w₁) ∧
        w₁.registries.get i = w.registries.get i ∧
        ∀ {make' m w₂}, make' w₁ = (.ok m, w₂) → ∀ type',
          acquire i handle type' make' w₁ =
            (.ok (.ok w₂.cells.next), w₂.register i handle type' m)) ∧
    ((w.registries.get i).cells.size = (log.filterMap Request.place?).toFinset.card ∧
      (∀ handle, (w.registries.get i).contains handle = true ↔
        handle.components ∈ log.filterMap Request.place?) ∧
      (w.registries.get i).cells.values.Nodup ∧
      ∀ n, n ∈ (w.registries.get i).cells.values ↔
        ∃ place r, creation place log = some (n, r)) ∧
    ∀ {more w'}, History i (more ++ log) (w' : World σ) → ∀ {place n r},
      creation place log = some (n, r) → (w'.registries.get i).cells.get? place = some n ∧
        (w'.cells.get n).handle = r.handle ∧ (w'.cells.get n).type = r.type := by
  have ht := h.tracks
  refine ⟨?_, ?_, ⟨ht.size_eq, ht.contains_iff, ht.nodup_values, fun n => ht.mem_values_iff⟩, ?_⟩
  · intro handle n r hc
    refine ⟨ht.handle hc, ht.type hc, fun type make => ?_⟩
    have hcell := ht.cell?_eq handle
    rw [hc] at hcell
    rw [acquire_of_registered hcell, ht.type hc]
  · intro handle hc make
    have hcell := ht.cell?_eq handle
    rw [hc] at hcell
    refine ⟨fun {m w₁} hmake ha type => ⟨acquire_of_made hcell type hmake, ?_, ?_⟩, ?_⟩
    · intro n hn
      obtain ⟨place, r, hcreated⟩ := ht.mem_values_iff.1 hn
      have hne := Nat.ne_of_lt ((ht.meanwhile ha).old hcreated)
      exact ⟨hne, (Pool.get_add _ _ _).trans (if_neg hne)⟩
    · exact w₁.reads_countRead m
    · intro p w₁ hmake ha type
      refine ⟨acquire_of_interrupted hcell type hmake, ha.registry, ?_⟩
      intro make' m w₂ hmake' type'
      rw [← ha.registry] at hcell
      exact acquire_of_made hcell type' hmake'
  · intro more w' h' place n r hc
    have ht' := h'.tracks
    have hc' := creation_append_of_some hc more
    exact ⟨by rw [ht'.content, hc']; rfl, ht'.handle hc', ht'.type hc'⟩

/-- The request for a memory of texts that is granted after one was interrupted. -/
def settled : List Request :=
  [⟨Path.ofString "a/b", .string, .ok (.ok 0)⟩,
    ⟨Path.ofString "a/b", .u8, .error (.panic "no marker")⟩]

/-- After that, another spelling of the place is answered with the same memory, and bytes are
refused for it, although no marker can be made any more. -/
theorem other_spelling_gets_the_same_memory :
    ∃ w : World Unit, History 0 settled w ∧
      acquire 0 (Path.ofString "a//./b/") .string (Act.panic "no marker") w = (.ok (.ok 0), w) ∧
      acquire 0 (Path.ofString "a//b") .u8 (Act.panic "no marker") w =
        (.ok (.error (.valueTypeMismatch (Path.ofString "a//b") .u8)), w) ∧
      (w.registries.get 0).cells.size = 1 := by
  have hstart : History 0 [] (new (World.initial ())).2 := .start rfl
  have hpanic := hstart.acquire (Path.ofString "a/b") .u8 (Act.panic "no marker") (.refl _ _)
  have hgranted := hpanic.acquire (Path.ofString "a/b") .string (Marker.new (.counter 7))
    (apart_newMarker _ _ _)
  obtain ⟨hregistered, -, ⟨hsize, -⟩, -⟩ := one_memory_for_each_place hgranted
  let created : Request := ⟨Path.ofString "a/b", .string, .ok (.ok 0)⟩
  have hsame : creation (Path.ofString "a//./b/").components settled = some (0, created) := rfl
  have hother : creation (Path.ofString "a//b").components settled = some (0, created) := rfl
  exact ⟨_, hgranted, (hregistered hsame).2.2 .string _, (hregistered hother).2.2 .u8 _, hsize⟩

end Registry

end LeaseCache
