import LeaseCache.Proofs.HookSpec

/-!
# What one run of a hook does

A hook goes through the memories that are registered when it runs, and no others, reads the marker
of each once, and records it or invalidates the memory by that reading (`World.Swept`). Besides, it
changes the depth of its own lease by one and reports itself, and it cannot fail
(`Lease.enter_spec`).
-/

namespace LeaseCache

variable {σ : Type}

/-- The phase that is entered, if an event reports a hook. -/
def Event.hook? : Event → Option Phase
  | .acquired .. => some .locked
  | .released .. => some .unlocked
  | _ => none

namespace Phase

/-- What the depth changes by when a phase is entered. -/
def sign : Phase → Int
  | .locked => 1
  | .unlocked => -1

/-- What the hook of a phase does to a memory, by a reading of its marker. -/
def change : Phase → Option Signal → Cache Value → Cache Value
  | .locked => fun reading cache => cache.invalidate reading
  | .unlocked => fun reading cache => cache.record reading

theorem sign_other (phase : Phase) : phase.other.sign = -phase.sign := by
  cases phase <;> rfl

theorem other_other (phase : Phase) : phase.other.other = phase := by
  cases phase <;> rfl

end Phase

namespace World

/-- The hooks that were reported. -/
def hooks (w : World σ) : List Phase := w.journal.filterMap Event.hook?

/-- The numbers of the memories under a lease. -/
def memories (w : World σ) (i : Nat) : List Nat :=
  (w.registries.get (w.leases.get i).registry).cells.values

/-- A memory changed by a reading of its marker. -/
def changed (w : World σ) (change : Option Signal → Cache Value → Cache Value) (c : Nat) : Cell :=
  { w.cells.get c with
    cache := change (w.signal (w.cells.get c).marker).toOption (w.cells.get c).cache }

/-- Each of some memories was changed by one reading of its marker, and nothing else was done to
memories, markers, files, tables, registries and the scene. -/
structure Swept (ids : List Nat) (change : Option Signal → Cache Value → Cache Value)
    (w w' : World σ) : Prop where
  cells : ∀ c, w'.cells.get c = if c ∈ ids then w.changed change c else w.cells.get c
  next : w'.cells.next = w.cells.next
  reads : ∀ n, (w'.markers.get n).reads =
    (w.markers.get n).reads + ids.countP fun c => (w.cells.get c).marker = n
  kinds : ∀ n, (w'.markers.get n).kind = (w.markers.get n).kind
  files : w'.files = w.files
  tables : w'.tables = w.tables
  registries : w'.registries = w.registries
  scene : w'.scene = w.scene

/-- Memories were swept, no lease was touched, and no hook reported. -/
structure Sweep (ids : List Nat) (change : Option Signal → Cache Value → Cache Value)
    (w w' : World σ) : Prop extends Swept ids change w w' where
  leases : w'.leases = w.leases
  hooks : w'.hooks = w.hooks

variable {w w' w'' : World σ} {c : Nat} {ids : List Nat}
  {change : Option Signal → Cache Value → Cache Value}

theorem Swept.signal (h : Swept ids change w w') (n : Nat) : w'.signal n = w.signal n := by
  rw [World.signal, World.signal, h.kinds, h.files]

theorem Swept.marker (h : Swept ids change w w') (c : Nat) :
    (w'.cells.get c).marker = (w.cells.get c).marker := by
  rw [h.cells]
  split <;> rfl

theorem Swept.changed_of_notMem (h : Swept ids change w w') (hc : c ∉ ids) :
    w'.changed change c = w.changed change c := by
  rw [changed, h.signal, h.cells, if_neg hc]
  rfl

theorem sweep_nil (change : Option Signal → Cache Value → Cache Value) (w : World σ) :
    Sweep [] change w w where
  cells c := by rw [if_neg List.not_mem_nil]
  next := rfl
  reads n := by rw [List.countP_nil, Nat.add_zero]
  kinds n := rfl
  files := rfl
  tables := rfl
  registries := rfl
  scene := rfl
  leases := rfl
  hooks := rfl

/-- One memory after the other, if none comes twice. -/
theorem Sweep.cons (h : Sweep [c] change w w') (h' : Sweep ids change w' w'') (hc : c ∉ ids) :
    Sweep (c :: ids) change w w'' where
  cells d := by
    rw [h'.cells]
    by_cases hd : d ∈ ids
    · have hne : d ≠ c := fun heq => hc (heq ▸ hd)
      rw [if_pos hd, if_pos (List.mem_cons_of_mem _ hd), h.changed_of_notMem (by simpa using hne)]
    · rw [if_neg hd, h.cells]
      simp only [List.mem_cons, hd, List.not_mem_nil]
  next := h'.next.trans h.next
  reads n := by
    rw [h'.reads, h.reads, List.countP_cons, List.countP_cons, List.countP_nil]
    simp only [h.marker]
    omega
  kinds n := (h'.kinds n).trans (h.kinds n)
  files := h'.files.trans h.files
  tables := h'.tables.trans h.tables
  registries := h'.registries.trans h.registries
  scene := h'.scene.trans h.scene
  leases := h'.leases.trans h.leases
  hooks := h'.hooks.trans h.hooks

end World

/-! ## One memory -/

namespace Memory

open World (Sweep)

theorem hooks_complaints (handle : Path) (r : Except String Signal) :
    (complaints handle r).filterMap Event.hook? = [] := by
  cases r <;> rfl

/-- The marker of a memory was read, and the memory changed by the reading. -/
theorem sweep_one {w : World σ} {c : Nat} {cells : Pool Cell} {more : List Event}
    {change : Option Signal → Cache Value → Cache Value}
    (hcells : ∀ d, cells.get d = if d = c then w.changed change c else w.cells.get d)
    (hnext : cells.next = w.cells.next) (hmore : more.filterMap Event.hook? = []) :
    Sweep [c] change w
      { w.countRead (w.cells.get c).marker with cells := cells, journal := w.journal ++ more } := by
  constructor
  · constructor
    · intro d
      rw [hcells]
      by_cases hd : d = c
      · rw [hd, if_pos rfl, if_pos (List.mem_singleton_self c)]
      · rw [if_neg hd, if_neg (by simpa using hd)]
    · exact hnext
    · intro n
      refine (w.reads_countRead _ n).trans ?_
      rw [List.countP_singleton]
      simp only [decide_eq_true_eq]
    · exact w.kind_countRead _
    all_goals rfl
  · rfl
  · show (w.journal ++ more).filterMap Event.hook? = _
    rw [List.filterMap_append, hmore, List.append_nil]
    rfl

theorem recordMarker_sweep (c : Nat) (w : World σ) :
    ∃ w', recordMarker c w = (.ok (), w') ∧ Sweep [c] Phase.unlocked.change w w' := by
  let reading := w.signal (w.cells.get c).marker
  have hmore : (complaints (w.cells.get c).handle reading ++
      [Event.recordedMarker (w.cells.get c).handle reading.toOption]).filterMap
        Event.hook? = [] := by
    rw [List.filterMap_append, hooks_complaints]
    rfl
  rw [recordMarker, Act.bind_ok _ (show Act.cell c w = (.ok (w.cells.get c), w) from rfl),
    Act.bind_ok _ (reading_eq_signal _ _ w)]
  refine ⟨_, ?_, sweep_one (w.get_setCache c · (·.record reading.toOption)) rfl hmore⟩
  rw [← List.append_assoc]
  rfl

/-- The entries are kept if and only if the memory is fresh for what its marker shows. -/
theorem invalidateIfStale_sweep (c : Nat) (w : World σ) :
    ∃ w', invalidateIfStale c w =
        (.ok (!(w.cells.get c).cache.isFresh (w.signal (w.cells.get c).marker).toOption), w') ∧
      Sweep [c] Phase.locked.change w w' := by
  let reading := w.signal (w.cells.get c).marker
  let read : World σ := { w.countRead (w.cells.get c).marker with
    journal := w.journal ++ complaints (w.cells.get c).handle reading }
  have hcell : Act.cell c read = (.ok (w.cells.get c), read) := rfl
  rw [invalidateIfStale, Act.bind_ok _ (show Act.cell c w = (.ok (w.cells.get c), w) from rfl),
    Act.bind_ok _ (reading_eq_signal _ _ w), Act.bind_ok _ hcell]
  cases hfresh : (w.cells.get c).cache.isFresh reading.toOption with
  | true =>
    refine ⟨read, rfl, sweep_one (fun d => ?_) rfl (hooks_complaints _ _)⟩
    split
    · next hd =>
      have hkept : (w.cells.get c).cache.invalidate reading.toOption = (w.cells.get c).cache :=
        if_pos hfresh
      show w.cells.get d = { w.cells.get c with
        cache := (w.cells.get c).cache.invalidate reading.toOption }
      rw [hkept, hd]
    · rfl
  | false =>
    let dropped : Event := .invalidated (w.cells.get c).handle (w.cells.get c).cache.baseline
      reading.toOption (w.cells.get c).cache.size
    have hmore : (complaints (w.cells.get c).handle reading ++ [dropped]).filterMap Event.hook? =
        [] := by
      rw [List.filterMap_append, hooks_complaints]
      rfl
    refine ⟨_, ?_, sweep_one (w.get_setCache c · (·.invalidate reading.toOption)) rfl hmore⟩
    rw [← List.append_assoc]
    rfl

end Memory

namespace Lease

open World (Sweep Swept)

variable {w : World σ} {i : Nat}

/-! ## All memories -/

theorem recordAll_sweep (ids : List Nat) (w : World σ) :
    ∃ w', recordAll ids w = (.ok (), w') ∧ (ids.Nodup → Sweep ids Phase.unlocked.change w w') := by
  induction ids generalizing w with
  | nil => exact ⟨w, rfl, fun _ => World.sweep_nil _ w⟩
  | cons c rest ih =>
    obtain ⟨w₁, hrecord, hfirst⟩ := Memory.recordMarker_sweep c w
    obtain ⟨w₂, hrest, hothers⟩ := ih w₁
    rw [recordAll, Act.bind_ok _ hrecord]
    refine ⟨w₂, hrest, fun hnodup => ?_⟩
    rw [List.nodup_cons] at hnodup
    exact hfirst.cons (hothers hnodup.2) hnodup.1

theorem invalidateAll_sweep (ids : List Nat) (w : World σ) :
    ∃ n w', invalidateAll ids w = (.ok n, w') ∧
      (ids.Nodup → Sweep ids Phase.locked.change w w') := by
  induction ids generalizing w with
  | nil => exact ⟨0, w, rfl, fun _ => World.sweep_nil _ w⟩
  | cons c rest ih =>
    obtain ⟨w₁, hinvalidate, hfirst⟩ := Memory.invalidateIfStale_sweep c w
    obtain ⟨n, w₂, hrest, hothers⟩ := ih w₁
    rw [invalidateAll, Act.bind_ok _ hinvalidate, Act.bind_ok _ hrest]
    refine ⟨_, w₂, rfl, fun hnodup => ?_⟩
    rw [List.nodup_cons] at hnodup
    exact hfirst.cons (hothers hnodup.2) hnodup.1

/-! ## The hooks -/

/-- What a hook does: it sweeps the memories that are registered now, and changes the depth of its
own lease. -/
structure Entered (i : Nat) (phase : Phase) (w w' : World σ) : Prop
    extends Swept (w.memories i) phase.change w w' where
  lease : w'.leases.get i =
    { w.leases.get i with depth := (w.leases.get i).depth + phase.sign }
  others : ∀ j, j ≠ i → w'.leases.get j = w.leases.get j
  hooks : w'.hooks = w.hooks ++ [phase]

theorem shift_eq (i : Nat) (by' : Int) (w : World σ) :
    shift i by' w = (.ok ((w.leases.get i).depth + by'), { w with
      leases := w.leases.modify i fun l => { l with depth := l.depth + by' } }) := by
  show ((.ok ((w.leases.modify i _).get i).depth, _) : Except Interruption Int × World σ) = _
  rw [Pool.get_modify, if_pos rfl]

theorem get_shifted (i j : Nat) (by' : Int) (w : World σ) :
    (w.leases.modify i fun l => { l with depth := l.depth + by' }).get j =
      if j = i then { w.leases.get i with depth := (w.leases.get i).depth + by' }
      else w.leases.get j :=
  Pool.get_modify _ _ _ _

theorem memories_shifted (i : Nat) (by' : Int) (w : World σ) :
    World.memories { w with
      leases := w.leases.modify i fun l => { l with depth := l.depth + by' } } i =
      w.memories i := by
  rw [World.memories, get_shifted, if_pos rfl]
  rfl

/-- A memory that is swept after the depth has changed is swept as it was before. -/
theorem entered_of_sweep_shifted {w' : World σ} {n : Nat}
    (h : Sweep (w.memories i) Phase.locked.change
      { w with leases := w.leases.modify i fun l => { l with depth := l.depth + 1 } } w') :
    Entered i .locked w (w'.report (.acquired ((w.leases.get i).depth + 1) n)) where
  cells := h.cells
  next := h.next
  reads := h.reads
  kinds := h.kinds
  files := h.files
  tables := h.tables
  registries := h.registries
  scene := h.scene
  lease := by
    show w'.leases.get i = _
    rw [h.leases, get_shifted, if_pos rfl]
    rfl
  others j hj := by
    show w'.leases.get j = _
    rw [h.leases, get_shifted, if_neg hj]
  hooks := by
    show (w'.journal ++ [_]).filterMap Event.hook? = _
    rw [List.filterMap_append]
    exact congrArg (· ++ [Phase.locked]) h.hooks

theorem entered_of_sweep {w' : World σ} {depth : Int}
    (h : Sweep (w.memories i) Phase.unlocked.change w w') :
    Entered i .unlocked w (World.report { w' with
      leases := w'.leases.modify i fun l => { l with depth := l.depth + -1 } }
      (.released depth)) where
  cells := h.cells
  next := h.next
  reads := h.reads
  kinds := h.kinds
  files := h.files
  tables := h.tables
  registries := h.registries
  scene := h.scene
  lease := by
    refine (get_shifted i i (-1) w').trans ?_
    rw [if_pos rfl, h.leases]
    rfl
  others j hj := by
    refine (get_shifted i j (-1) w').trans ?_
    rw [if_neg hj, h.leases]
  hooks := by
    show (w'.journal ++ [_]).filterMap Event.hook? = _
    rw [List.filterMap_append]
    exact congrArg (· ++ [Phase.unlocked]) h.hooks

/-- A hook cannot fail, even if a memory were registered twice. -/
theorem enter_ends (i : Nat) (phase : Phase) (w : World σ) :
    ∃ w', enter i phase w = (.ok (), w') ∧ ((w.memories i).Nodup → Entered i phase w w') := by
  cases phase with
  | locked =>
    let w₁ : World σ :=
      { w with leases := w.leases.modify i fun l => { l with depth := l.depth + 1 } }
    have hcells : cells i w₁ = (.ok (w.memories i), w₁) := by
      rw [← memories_shifted i 1 w]
      rfl
    obtain ⟨n, w₂, hinvalidate, hsweep⟩ := invalidateAll_sweep (w.memories i) w₁
    rw [enter, beforeAcquired, Act.bind_ok _ (shift_eq i 1 w), Act.bind_ok _ hcells,
      Act.bind_ok _ hinvalidate]
    exact ⟨_, rfl, fun hnodup => entered_of_sweep_shifted (hsweep hnodup)⟩
  | unlocked =>
    obtain ⟨w₁, hrecord, hsweep⟩ := recordAll_sweep (w.memories i) w
    rw [enter, beforeReleased, Act.bind_ok _ (show cells i w = (.ok (w.memories i), w) from rfl),
      Act.bind_ok _ hrecord, Act.bind_ok _ (shift_eq i (-1) w₁)]
    exact ⟨_, rfl, fun hnodup => entered_of_sweep (hsweep hnodup)⟩

theorem enter_spec (phase : Phase) (hnodup : (w.memories i).Nodup) :
    ∃ w', enter i phase w = (.ok (), w') ∧ Entered i phase w w' := by
  obtain ⟨w', henter, hentered⟩ := enter_ends i phase w
  exact ⟨w', henter, hentered hnodup⟩

theorem entered_of_enter (phase : Phase) {w' : World σ} (hnodup : (w.memories i).Nodup)
    (h : enter i phase w = (.ok (), w')) : Entered i phase w w' := by
  obtain ⟨w'', henter, hentered⟩ := enter_spec phase hnodup
  rw [h] at henter
  cases henter
  exact hentered

/-- The memories under a lease stay the same. -/
theorem Entered.memories {phase : Phase} {w' : World σ} (h : Entered i phase w w') :
    w'.memories i = w.memories i := by
  rw [World.memories, World.memories, h.lease, h.registries]

end Lease

end LeaseCache
