import LeaseCache.Lease
import LeaseCache.Proofs.FacadeSpec
import LeaseCache.Proofs.MarkerSpec

/-!
# What the hooks do to a world

A hook goes through the memories of a registry and changes each by the reading of its marker. It
leaves the stores, the registries and what the markers look at as they are. Main statements:
`Memory.recordMarker_eq` and `Memory.invalidateIfStale_cases`, the memory, the counts of readings
and the events as the only things a hook changes, and with which reading if the marker has an answer
that was set. `Memory.recordMarker_ok` and `Memory.invalidateIfStale_ok` say of it what the
registries need: how the world before and the world after differ in one memory.
-/

namespace LeaseCache

variable {σ : Type}

/-- Worlds that differ in files, events and scene only, or in how often markers were read. -/
structure World.Alike (w w' : World σ) : Prop where
  cells : w'.cells = w.cells
  kinds : ∀ n, (w'.markers.get n).kind = (w.markers.get n).kind
  tables : w'.tables = w.tables
  leases : w'.leases = w.leases
  registries : w'.registries = w.registries

/-- Worlds that are alike but for what was done to the memory of one cell. -/
structure World.Changed (c : Nat) (f : Cache Value → Cache Value) (w w' : World σ) : Prop where
  cells : ∀ d, w'.cells.get d =
    if d = c then { w.cells.get c with cache := f (w.cells.get c).cache } else w.cells.get d
  kinds : ∀ n, (w'.markers.get n).kind = (w.markers.get n).kind
  tables : w'.tables = w.tables
  leases : w'.leases = w.leases
  registries : w'.registries = w.registries

theorem Act.ensuring_ok {α : Type} {body : Act σ α} {closing : Act σ Unit} {w w' w'' : World σ}
    {a : α} (hbody : body w = (.ok a, w')) (hclosing : closing w' = (.ok (), w'')) :
    Act.ensuring body closing w = (.ok a, w'') := by
  simp only [Act.ensuring, hbody, hclosing]

/-- A lease is in its locked phase while its depth is positive. -/
theorem Lease.phase_eq_locked_iff (l : Lease) : l.phase = .locked ↔ 0 < l.depth := by
  rw [phase]
  split <;> simp [*]

namespace World

variable {w w' : World σ}

theorem Alike.refl (w : World σ) : w.Alike w := ⟨rfl, fun _ => rfl, rfl, rfl, rfl⟩

theorem alike_report (w : World σ) (e : Event) : w.Alike (w.report e) :=
  ⟨rfl, fun _ => rfl, rfl, rfl, rfl⟩

theorem alike_of_kinds {w : World σ} {markers : Pool Marker} (journal : List Event)
    (h : ∀ n, (markers.get n).kind = (w.markers.get n).kind) :
    w.Alike { w with markers := markers, journal := journal } :=
  ⟨rfl, h, rfl, rfl, rfl⟩

theorem Alike.changed {c : Nat} {f : Cache Value → Cache Value} (h : w.Alike w')
    (hf : f (w.cells.get c).cache = (w.cells.get c).cache) : w.Changed c f w' where
  cells d := by
    rw [h.cells, hf]
    split
    · next hd => rw [hd]
    · rfl
  kinds := h.kinds
  tables := h.tables
  leases := h.leases
  registries := h.registries

theorem Alike.setCache (h : w.Alike w') (c : Nat) (f : Cache Value → Cache Value) :
    w.Changed c f (w'.setCache c f) where
  cells d := by rw [get_setCache, h.cells]
  kinds := h.kinds
  tables := h.tables
  leases := h.leases
  registries := h.registries

end World

namespace Memory

theorem reading_eq (handle : Path) (n : Nat) (w : World σ) :
    ∃ r markers journal,
      reading handle n w = (.ok r, { w with markers := markers, journal := journal }) ∧
      (∀ l, (markers.get l).kind = (w.markers.get l).kind) ∧
      ∀ a, (w.markers.get n).kind = .fixed a → r = a.toOption := by
  refine ⟨_, _, _, reading_eq_signal handle n w, w.kind_countRead n, ?_⟩
  intro a ha
  rw [World.signal, ha]
  rfl

/-! ## One memory -/

theorem recordMarker_eq (c : Nat) (w : World σ) :
    ∃ r markers journal, recordMarker c w =
        (.ok (), ({ w with markers := markers, journal := journal } : World σ).setCache c
          (·.record r)) ∧
      (∀ l, (markers.get l).kind = (w.markers.get l).kind) ∧
      ∀ a, (w.markers.get (w.cells.get c).marker).kind = .fixed a → r = a.toOption := by
  obtain ⟨r, markers, journal, hreading, hkinds, hfixed⟩ :=
    reading_eq (w.cells.get c).handle (w.cells.get c).marker w
  rw [recordMarker, Act.bind_ok _ (show Act.cell c w = (.ok (w.cells.get c), w) from rfl),
    Act.bind_ok _ hreading]
  exact ⟨r, markers, _, rfl, hkinds, hfixed⟩

theorem recordMarker_ok (c : Nat) (w : World σ) :
    ∃ r w', recordMarker c w = (.ok (), w') ∧ w.Changed c (·.record r) w' ∧
      ∀ a, (w.markers.get (w.cells.get c).marker).kind = .fixed a → r = a.toOption := by
  obtain ⟨r, markers, journal, hrecord, hkinds, hfixed⟩ := recordMarker_eq c w
  exact ⟨r, _, hrecord, (World.alike_of_kinds journal hkinds).setCache c _, hfixed⟩

/-- A memory that is fresh for the reading is kept, and any other is invalidated. -/
theorem invalidateIfStale_cases (c : Nat) (w : World σ) :
    ∃ r markers journal,
      ((w.cells.get c).cache.isFresh r = true ∧
          invalidateIfStale c w = (.ok false, { w with markers := markers, journal := journal }) ∨
        (w.cells.get c).cache.isFresh r = false ∧
          invalidateIfStale c w =
            (.ok true, ({ w with markers := markers, journal := journal } : World σ).setCache c
              (·.invalidate r))) ∧
      (∀ l, (markers.get l).kind = (w.markers.get l).kind) ∧
      ∀ a, (w.markers.get (w.cells.get c).marker).kind = .fixed a → r = a.toOption := by
  obtain ⟨r, markers, journal, hreading, hkinds, hfixed⟩ :=
    reading_eq (w.cells.get c).handle (w.cells.get c).marker w
  have hcell : Act.cell c ({ w with markers := markers, journal := journal } : World σ) =
      (.ok (w.cells.get c), { w with markers := markers, journal := journal }) := rfl
  rw [invalidateIfStale, Act.bind_ok _ (show Act.cell c w = (.ok (w.cells.get c), w) from rfl),
    Act.bind_ok _ hreading, Act.bind_ok _ hcell]
  cases hfresh : (w.cells.get c).cache.isFresh r with
  | true => exact ⟨r, markers, journal, .inl ⟨hfresh, rfl⟩, hkinds, hfixed⟩
  | false =>
    let dropped : Event := .invalidated (w.cells.get c).handle (w.cells.get c).cache.baseline r
      (w.cells.get c).cache.size
    exact ⟨r, markers, journal ++ [dropped], .inr ⟨hfresh, rfl⟩, hkinds, hfixed⟩

theorem invalidateIfStale_ok (c : Nat) (w : World σ) :
    ∃ r b w', invalidateIfStale c w = (.ok b, w') ∧ w.Changed c (·.invalidate r) w' ∧
      ∀ a, (w.markers.get (w.cells.get c).marker).kind = .fixed a → r = a.toOption := by
  obtain ⟨r, markers, journal, hkept | hdropped, hkinds, hfixed⟩ := invalidateIfStale_cases c w
  · obtain ⟨hfresh, hrun⟩ := hkept
    exact ⟨r, false, _, hrun, (World.alike_of_kinds journal hkinds).changed (if_pos hfresh), hfixed⟩
  · exact ⟨r, true, _, hdropped.2, (World.alike_of_kinds journal hkinds).setCache c _, hfixed⟩

end Memory

end LeaseCache
