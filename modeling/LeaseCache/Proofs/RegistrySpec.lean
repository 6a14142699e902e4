import LeaseCache.Proofs.MarkerSpec
import LeaseCache.Registry

/-!
# What a registry answers

The three ways a request for the memory of a place can go: the place has a memory, and nothing
happens; or it has none, and the marker is made and a memory is set up with it; or making the marker
is interrupted, and nothing else happens. What stands beside a request and leaves a registry and its
memories what they are is `Registry.Apart`.
-/

namespace LeaseCache

variable {σ : Type}

/-- The world in which a memory with a marker was set up and put into a registry: the marker was
read once, the memory is new and empty, and right for that reading. -/
def World.register (w : World σ) (i : Nat) (handle : Path) (type : ValueType) (marker : Nat) :
    World σ :=
  { w.countRead marker with
    cells := w.cells.add ⟨handle, marker, type, false, .fresh (w.signal marker).toOption⟩
    registries := w.registries.modify i fun r =>
      ⟨r.cells.insert handle.components w.cells.next⟩
    journal := w.journal ++ Memory.complaints handle (w.signal marker) ++
      [.created handle (w.signal marker).toOption] ++ [.registered handle type] }

theorem Memory.new_eq (handle : Path) (marker : Nat) (type : ValueType) (w : World σ) :
    new handle marker type w = (.ok w.cells.next, { w.countRead marker with
      cells := w.cells.add ⟨handle, marker, type, false, .fresh (w.signal marker).toOption⟩
      journal := w.journal ++ complaints handle (w.signal marker) ++
        [.created handle (w.signal marker).toOption] }) := by
  rw [new, Act.bind_ok _ (reading_eq_signal handle marker w)]
  rfl

namespace Registry

variable {i c m : Nat} {handle : Path} {make : Act σ Nat} {w w' w'' w₁ : World σ}
  {p : Interruption}

/-- A place that has a memory keeps it: the marker is not made, and nothing changes. -/
theorem acquire_of_registered (h : (w.registries.get i).cell? handle = some c) (type : ValueType)
    (make : Act σ Nat) :
    acquire i handle type make w =
      (.ok (if (w.cells.get c).type = type then .ok c
        else .error (.valueTypeMismatch handle type)), w) := by
  rw [acquire, Act.bind_ok _ (show Act.look _ w = (.ok (w.registries.get i), w) from rfl), h]
  dsimp only
  rw [Act.bind_ok _ (show Act.cell c w = (.ok (w.cells.get c), w) from rfl)]
  split <;> rfl

/-- A place that has none gets one with the marker that is made. -/
theorem acquire_of_made (h : (w.registries.get i).cell? handle = none) (type : ValueType)
    (hmake : make w = (.ok m, w₁)) :
    acquire i handle type make w =
      (.ok (.ok w₁.cells.next), w₁.register i handle type m) := by
  rw [acquire, Act.bind_ok _ (show Act.look _ w = (.ok (w.registries.get i), w) from rfl), h]
  dsimp only
  have hregister : register i handle type make w =
      (.ok w₁.cells.next, w₁.register i handle type m) := by
    rw [register, Act.bind_ok _ hmake, Act.bind_ok _ (Memory.new_eq handle m type w₁)]
    rfl
  rw [Act.bind_ok _ hregister]
  rfl

/-- Nothing is registered if making the marker is interrupted. -/
theorem acquire_of_interrupted (h : (w.registries.get i).cell? handle = none) (type : ValueType)
    (hmake : make w = (.error p, w₁)) : acquire i handle type make w = (.error p, w₁) := by
  have hregister : register i handle type make w = (.error p, w₁) := by
    rw [register, Act.bind_error _ hmake]
  rw [acquire, Act.bind_ok _ (show Act.look _ w = (.ok (w.registries.get i), w) from rfl), h]
  dsimp only
  rw [Act.bind_error _ hregister]

/-! ## What happens beside the requests -/

/-- Between two worlds a registry was left alone: it has the memories that it had, and they are the
memories of the same stores with the same markers. What they hold may have changed. -/
structure Apart (i : Nat) (w w' : World σ) : Prop where
  registry : w'.registries.get i = w.registries.get i
  next : w.cells.next ≤ w'.cells.next
  handle : ∀ c ∈ (w.registries.get i).cells.values,
    (w'.cells.get c).handle = (w.cells.get c).handle
  marker : ∀ c ∈ (w.registries.get i).cells.values,
    (w'.cells.get c).marker = (w.cells.get c).marker
  type : ∀ c ∈ (w.registries.get i).cells.values, (w'.cells.get c).type = (w.cells.get c).type

namespace Apart

theorem refl (i : Nat) (w : World σ) : Apart i w w :=
  ⟨rfl, Nat.le_refl _, fun _ _ => rfl, fun _ _ => rfl, fun _ _ => rfl⟩

theorem trans (h : Apart i w w') (h' : Apart i w' w'') : Apart i w w'' := by
  obtain ⟨hregistry, hnext, hhandle, hmarker, htype⟩ := h'
  rw [h.registry] at hregistry hhandle hmarker htype
  exact ⟨hregistry, Nat.le_trans h.next hnext,
    fun c hc => (hhandle c hc).trans (h.handle c hc),
    fun c hc => (hmarker c hc).trans (h.marker c hc),
    fun c hc => (htype c hc).trans (h.type c hc)⟩

theorem of_same (i : Nat) (hregistries : w'.registries = w.registries)
    (hcells : w'.cells = w.cells) : Apart i w w' := by
  refine ⟨by rw [hregistries], Nat.le_of_eq (congrArg Pool.next hcells).symm, ?_, ?_, ?_⟩
  all_goals
    intro c _
    rw [hcells]

end Apart

/-- The memories of a registry are listed once each, and their numbers are given out. -/
structure Sound (i : Nat) (w : World σ) : Prop where
  nodup : (w.registries.get i).cells.values.Nodup
  old : ∀ c ∈ (w.registries.get i).cells.values, c < w.cells.next

theorem Sound.apart (h : Sound i w) (ha : Apart i w w') : Sound i w' where
  nodup := ha.registry ▸ h.nodup
  old c hc := Nat.lt_of_lt_of_le (h.old c (ha.registry ▸ hc)) ha.next

/-- A request leaves the registry sound, whatever comes of it. -/
theorem Sound.acquire (h : Sound i w) (handle : Path) (type : ValueType) {make : Act σ Nat}
    (ha : Apart i w (make w).2) : Sound i (acquire i handle type make w).2 := by
  cases hcell : (w.registries.get i).cell? handle with
  | some c =>
    rw [acquire_of_registered hcell]
    exact h
  | none =>
    obtain ⟨r, w₁, hmake⟩ : ∃ r w₁, make w = (r, w₁) := ⟨_, _, rfl⟩
    rw [hmake] at ha
    have h₁ := h.apart ha
    cases r with
    | error p =>
      rw [acquire_of_interrupted hcell type hmake]
      exact h₁
    | ok m =>
      rw [acquire_of_made hcell type hmake]
      rw [← ha.registry] at hcell
      have hvalues : ((w₁.register i handle type m).registries.get i).cells.values =
          (w₁.registries.get i).cells.values ++ [w₁.cells.next] := by
        rw [World.register, Pool.get_modify, if_pos rfl]
        exact Table.values_insert _ hcell _
      constructor
      · rw [hvalues, List.nodup_append]
        refine ⟨h₁.nodup, List.nodup_singleton _, fun c hc d hd => ?_⟩
        rw [List.mem_singleton.1 hd]
        exact Nat.ne_of_lt (h₁.old c hc)
      · intro c hc
        rw [hvalues, List.mem_append, List.mem_singleton] at hc
        rcases hc with hc | rfl
        · exact Nat.lt_succ_of_lt (h₁.old c hc)
        · exact Nat.lt_succ_self _

/-- What neither the making of the marker nor a new memory changes, a request does not change. -/
theorem acquire_frame {τ : Type} (f : World σ → τ)
    (hregister : ∀ w i handle type m, f (World.register w i handle type m) = f w)
    (handle : Path) (type : ValueType) {make : Act σ Nat} (hmake : f (make w).2 = f w) :
    f (acquire i handle type make w).2 = f w := by
  cases hcell : (w.registries.get i).cell? handle with
  | some c => rw [acquire_of_registered hcell]
  | none =>
    obtain ⟨r, w₁, hmade⟩ : ∃ r w₁, make w = (r, w₁) := ⟨_, _, rfl⟩
    rw [hmade] at hmake
    cases r with
    | error p =>
      rw [acquire_of_interrupted hcell type hmade]
      exact hmake
    | ok m =>
      rw [acquire_of_made hcell type hmade]
      exact (hregister w₁ i handle type m).trans hmake

/-- Making a marker leaves registries alone. -/
theorem apart_newMarker (i : Nat) (kind : MarkerKind) (w : World σ) :
    Apart i w (Marker.new kind w).2 :=
  .of_same i rfl rfl

end Registry

end LeaseCache
