import LeaseCache.Cabinet
import LeaseCache.Proofs.HookSweep
import LeaseCache.Proofs.RegistrySpec
import Mathlib.Data.List.Perm.Basic

/-!
# Guards balance in any order

Guards of a lease are made and dropped in any order, some by hand and some by work with access or
with access given up, and a panic can come at any point and be caught at any level (`Routine`). At
every moment the depth is told by the guards that are alive, and each guard runs one hook when it is
made and one when it is dropped. Main statement: `Lease.phase_guards_balance`; what it says of a
moment is `Steady`, and one step is one of the lemmas `Keeps`.
-/

namespace LeaseCache

open Lease (Entered)

/-! ## Notes of guards -/

/-- What is noted of the guards of a lease. -/
inductive Note where
  /-- A guard was made that entered a phase. -/
  | opened (id : Nat) (phase : Phase)
  /-- A guard that had entered a phase was dropped. -/
  | closed (id : Nat) (phase : Phase)
  /-- A look at the depth and the phase of the lease. -/
  | seen (depth : Int) (phase : Phase)
  deriving DecidableEq

namespace Note

/-- The phase that is entered by the hook that goes with a note. -/
def hook? : Note → Option Phase
  | .opened _ phase => some phase
  | .closed _ phase => some phase.other
  | .seen .. => none

/-- Whether a guard was made. -/
def opens (id : Nat) : Note → Bool
  | .opened id' _ => id' = id
  | _ => false

/-- Whether a guard was dropped. -/
def closes (id : Nat) : Note → Bool
  | .closed id' _ => id' = id
  | _ => false

end Note

/-- The guards that are alive, each with the phase that it entered. The newest note stands first. -/
def alive : List Note → List (Nat × Phase)
  | [] => []
  | .opened id phase :: earlier => (id, phase) :: alive earlier
  | .closed id phase :: earlier => (alive earlier).erase (id, phase)
  | .seen .. :: earlier => alive earlier

/-- The number of guards that entered the locked phase less the number of the others. -/
def balance (guards : List (Nat × Phase)) : Int :=
  guards.countP (·.2 = .locked) - guards.countP (·.2 = .unlocked)

/-- The notes are as they should be: a guard has a number of its own, only a guard that is alive is
dropped, and what is seen is told by the guards that are alive. -/
inductive Proper (depth : Int) : List Note → Prop
  | start : Proper depth []
  | opened {notes id} (phase) : Proper depth notes → (∀ other, .opened id other ∉ notes) →
    Proper depth (.opened id phase :: notes)
  | closed {notes id phase} : Proper depth notes → (id, phase) ∈ alive notes →
    Proper depth (.closed id phase :: notes)
  | seen {notes phase} : Proper depth notes →
    (phase = .locked ↔ 0 < depth + balance (alive notes)) →
    Proper depth (.seen (depth + balance (alive notes)) phase :: notes)

section Notes

variable {guards guards' : List (Nat × Phase)} {notes : List Note} {depth : Int}

theorem balance_cons (id : Nat) (phase : Phase) (guards : List (Nat × Phase)) :
    balance ((id, phase) :: guards) = balance guards + phase.sign := by
  cases phase <;> simp [balance, Phase.sign] <;> omega

theorem balance_perm (h : guards.Perm guards') : balance guards = balance guards' := by
  rw [balance, balance, h.countP_eq, h.countP_eq]

theorem balance_append (guards guards' : List (Nat × Phase)) :
    balance (guards ++ guards') = balance guards + balance guards' := by
  simp only [balance, List.countP_append]
  omega

/-- A guard is made once at most, and it was dropped once or is alive. -/
theorem Proper.once (h : Proper depth notes) (id : Nat) :
    notes.countP (Note.opens id) ≤ 1 ∧
      notes.countP (Note.opens id) =
        notes.countP (Note.closes id) + (alive notes).countP (·.1 = id) := by
  induction h with
  | start => exact ⟨Nat.zero_le _, rfl⟩
  | @opened notes id' phase _ hnew ih =>
    obtain ⟨hle, heq⟩ := ih
    have hnone : id' = id → notes.countP (Note.opens id) = 0 := by
      rintro rfl
      refine List.countP_eq_zero.2 fun note hnote hopens => ?_
      cases note with
      | opened id'' phase' =>
        obtain rfl : id'' = id' := by simpa [Note.opens] using hopens
        exact hnew phase' hnote
      | _ => cases hopens
    simp only [List.countP_cons, alive, Note.opens, Note.closes, decide_eq_true_eq,
      Bool.false_eq_true, if_false]
    split
    · next hid =>
      have hzero := hnone hid
      omega
    · omega
  | @closed notes id' phase _ halive ih =>
    obtain ⟨hle, heq⟩ := ih
    have herase := (List.perm_cons_erase halive).countP_eq (p := fun g => decide (g.1 = id))
    rw [List.countP_cons] at herase
    simp only [List.countP_cons, alive, Note.opens, Note.closes, decide_eq_true_eq,
      Bool.false_eq_true, if_false]
    simp only [decide_eq_true_eq] at herase
    exact ⟨by omega, by omega⟩
  | seen _ _ ih =>
    simpa [List.countP_cons, Note.opens, Note.closes, alive] using ih

end Notes

/-! ## Routines -/

/-- A guard that is kept in a slot. -/
structure Held where
  slot : Nat
  id : Nat
  guard : Guard

/-- A guard and the phase that it entered. -/
def Held.entry (h : Held) : Nat × Phase := (h.id, h.guard.onDrop.other)

/-- The guards that are kept, and what was noted, the newest first. -/
structure Shelf where
  held : List Held
  notes : List Note

/-- What is done with the guards of a lease. A panic passes over what is left to do, up to the next
`attempt` around it. -/
inductive Routine where
  | done
  | seq (first next : Routine)
  /-- What is done depends on the world. -/
  | depending (next : World Shelf → Routine)
  /-- Looks at the depth and the phase. -/
  | look
  /-- Anything else, which can panic. -/
  | work (act : Act Shelf Unit)
  | panic (message : String)
  /-- Makes a guard and keeps it in a slot. -/
  | hold (slot : Nat) (phase : Phase)
  /-- Drops the guards in a slot. -/
  | drop (slot : Nat)
  /-- Drops the guards in some slots on the way out. -/
  | scope (slots : List Nat) (body : Routine)
  /-- Catches a panic. -/
  | attempt (body : Routine)
  | useStore (operation : String) (body : Routine)
  | longRunning (operation : String) (body : Routine)

/-- The world with a note. -/
def World.note (w : World Shelf) (n : Note) : World Shelf :=
  { w with scene := { w.scene with notes := n :: w.scene.notes } }

namespace Shelf

/-- Notes something. -/
def note (n : Note) : Act Shelf Unit := Act.change (·.note n)

/-- Looks at a lease. -/
def look (i : Nat) : Act Shelf Unit := do
  let l ← Act.look (·.leases.get i)
  note (.seen l.depth (Lease.phase l))

/-- Makes a guard and keeps it in a slot. Its number is the number of notes so far. -/
def hold (i slot : Nat) (phase : Phase) : Act Shelf Unit := do
  let guard ← Lease.guard i phase
  let id ← Act.look (·.scene.notes.length)
  note (.opened id phase)
  Act.change fun w => { w with scene := { w.scene with held := ⟨slot, id, guard⟩ :: w.scene.held } }

/-- Drops guards, one after the other. -/
def dropAll : List Held → Act Shelf Unit
  | [] => pure ()
  | h :: rest => do
    note (.closed h.id h.guard.onDrop.other)
    h.guard.drop
    dropAll rest

/-- Drops the guards in some slots, the newest first. -/
def empty (slots : List Nat) : Act Shelf Unit := do
  let held ← Act.look (·.scene.held)
  Act.change fun w =>
    { w with scene := { w.scene with held := held.filter fun h => h.slot ∉ slots } }
  dropAll (held.filter fun h => h.slot ∈ slots)

/-- Notes a guard that is made and dropped by what is done. -/
def noted (phase : Phase) (body : Act Shelf Unit) : Act Shelf Unit := do
  let id ← Act.look (·.scene.notes.length)
  note (.opened id phase)
  Act.ensuring body (note (.closed id phase))

end Shelf

/-- Does what a routine says with a lease, whose hooks are at the edges of an access. The guard of
work with access is noted inside the access, the guard of an operation with access given up around
it. -/
def Routine.act (i : Nat) (access : Access Shelf) : Routine → Act Shelf Unit
  | .done => pure ()
  | .seq first next => do
    first.act i access
    next.act i access
  | .depending next => fun w => (next w).act i access w
  | .look => Shelf.look i
  | .work act => act
  | .panic message => Act.panic message
  | .hold slot phase => Shelf.hold i slot phase
  | .drop slot => Shelf.empty [slot]
  | .scope slots body => Act.ensuring (body.act i access) (Shelf.empty slots)
  | .attempt body => do
    let _ ← Act.attempt (body.act i access)
  | .useStore operation body =>
    (Lease.wrap i access).useCache operation (Shelf.noted .locked (body.act i access))
  | .longRunning operation body =>
    Shelf.noted .unlocked ((Lease.wrap i access).longRunning operation (body.act i access))

/-! ## What is done beside the guards -/

/-- What was done between two worlds left a lease and the guards alone. If it was silent, it ran no
hooks either. -/
structure Quiet (i : Nat) (silent : Prop) (w w' : World Shelf) : Prop where
  scene : w'.scene = w.scene
  lease : w'.leases.get i = w.leases.get i
  sound : Registry.Sound (w.leases.get i).registry w →
    Registry.Sound (w.leases.get i).registry w'
  hooks : silent → w'.hooks = w.hooks

/-- All that a routine does beside the guards leaves the lease and the guards alone. -/
def Routine.Quiet (i : Nat) (silent : Prop) : Routine → Prop
  | .seq first next => first.Quiet i silent ∧ next.Quiet i silent
  | .depending next => ∀ w, (next w).Quiet i silent
  | .work act => ∀ w, LeaseCache.Quiet i silent w (act w).2
  | .scope _ body => body.Quiet i silent
  | .attempt body => body.Quiet i silent
  | .useStore _ body => body.Quiet i silent
  | .longRunning _ body => body.Quiet i silent
  | _ => True

/-- An act does another one once, or panics before, and leaves the lease and the guards alone before
and after it. It can end in a panic in either case. -/
def Around (i : Nat) (silent : Prop) {α : Type} (body whole : Act Shelf α) : Prop :=
  ∀ w, (∃ p w', whole w = (.error p, w') ∧ Quiet i silent w w') ∨
    ∃ w₁ r w₂, Quiet i silent w w₁ ∧ Quiet i silent (body w₁).2 w₂ ∧ whole w = (r, w₂)

/-- The owner of a lock does what is asked of it once, or panics. -/
structure Access.DoesOnce (access : Access Shelf) (i : Nat) (silent : Prop) : Prop where
  useCache : ∀ {α : Type} operation (body : Act Shelf α),
    Around i silent body (access.useCache operation body)
  longRunning : ∀ {α : Type} operation (body : Act Shelf α),
    Around i silent body (access.longRunning operation body)

/-! ## Moments -/

/-- A moment of what began in the world `w₀`: the guards that are alive are those in slots and those
of the calls around, and the depth and the hooks are told by the notes. -/
structure Steady (i : Nat) (silent : Prop) (w₀ : World Shelf) (around : List (Nat × Phase))
    (w : World Shelf) : Prop where
  proper : Proper (w₀.leases.get i).depth w.scene.notes
  numbered : ∀ id phase, .opened id phase ∈ w.scene.notes → id < w.scene.notes.length
  living : (alive w.scene.notes).Perm (around ++ w.scene.held.map Held.entry)
  guards : ∀ h ∈ w.scene.held, h.guard.lease = i
  depth : (w.leases.get i).depth = (w₀.leases.get i).depth + balance (alive w.scene.notes)
  sound : Registry.Sound (w.leases.get i).registry w
  hooks : silent → w.hooks = w₀.hooks ++ w.scene.notes.reverse.filterMap Note.hook?

/-- A hook was run, whatever was noted before or after. -/
structure Turned (i : Nat) (phase : Phase) (w w' : World Shelf) : Prop where
  lease : w'.leases.get i =
    { w.leases.get i with depth := (w.leases.get i).depth + phase.sign }
  registries : w'.registries = w.registries
  next : w'.cells.next = w.cells.next
  hooks : w'.hooks = w.hooks ++ [phase]

section Steady

variable {i id : Nat} {silent : Prop} {w₀ w w' w'' : World Shelf} {around : List (Nat × Phase)}
  {phase : Phase}

theorem Quiet.refl (i : Nat) (silent : Prop) (w : World Shelf) : Quiet i silent w w :=
  ⟨rfl, rfl, id, fun _ => rfl⟩

theorem Quiet.trans (h : Quiet i silent w w') (h' : Quiet i silent w' w'') :
    Quiet i silent w w'' where
  scene := h'.scene.trans h.scene
  lease := h'.lease.trans h.lease
  sound hs := by
    have hsound := h'.sound
    rw [h.lease] at hsound
    exact hsound (h.sound hs)
  hooks hsilent := (h'.hooks hsilent).trans (h.hooks hsilent)

theorem Turned.sound (h : Turned i phase w w')
    (hs : Registry.Sound (w.leases.get i).registry w) :
    Registry.Sound (w'.leases.get i).registry w' := by
  rw [h.lease]
  exact ⟨h.registries ▸ hs.nodup, fun c hc => h.next ▸ hs.old c (h.registries ▸ hc)⟩

namespace Steady

theorem start (hempty : w.scene = ⟨[], []⟩)
    (hs : Registry.Sound (w.leases.get i).registry w) : Steady i silent w [] w where
  proper := by rw [hempty]; exact .start
  numbered := by rw [hempty]; simp
  living := by rw [hempty]; exact .refl _
  guards := by rw [hempty]; simp
  depth := by rw [hempty]; exact (Int.add_zero _).symm
  sound := hs
  hooks _ := by rw [hempty]; exact (List.append_nil _).symm

theorem quiet (h : Steady i silent w₀ around w) (hq : Quiet i silent w w') :
    Steady i silent w₀ around w' where
  proper := hq.scene ▸ h.proper
  numbered := hq.scene ▸ h.numbered
  living := hq.scene ▸ h.living
  guards := hq.scene ▸ h.guards
  depth := by rw [hq.lease, hq.scene, h.depth]
  sound := hq.lease ▸ hq.sound h.sound
  hooks hsilent := by rw [hq.hooks hsilent, hq.scene, h.hooks hsilent]

/-- A guard was made: its hook was run, and it was noted. -/
theorem opened (h : Steady i silent w₀ around w) (ht : Turned i phase w w')
    (hscene : w'.scene = (w.note (.opened w.scene.notes.length phase)).scene) :
    Steady i silent w₀ ((w.scene.notes.length, phase) :: around) w' where
  proper := by
    rw [hscene]
    exact h.proper.opened phase fun other hmem => Nat.lt_irrefl _ (h.numbered _ other hmem)
  numbered := by
    rw [hscene]
    rintro id other (_ | ⟨_, hmem⟩)
    · exact Nat.lt_succ_self _
    · exact Nat.lt_succ_of_lt (h.numbered id other hmem)
  living := by
    rw [hscene]
    exact h.living.cons _
  guards := by
    rw [hscene]
    exact h.guards
  depth := by
    rw [hscene, ht.lease]
    show (w.leases.get i).depth + phase.sign = _ + balance (_ :: alive w.scene.notes)
    rw [balance_cons, h.depth]
    omega
  sound := ht.sound h.sound
  hooks hsilent := by
    rw [hscene, ht.hooks, h.hooks hsilent]
    show _ = _ ++ (_ :: w.scene.notes).reverse.filterMap Note.hook?
    rw [List.reverse_cons, List.filterMap_append, List.append_assoc]
    rfl

/-- A guard was dropped: its hook was run, and it was noted. -/
theorem closed (h : Steady i silent w₀ ((id, phase) :: around) w) (ht : Turned i phase.other w w')
    (hscene : w'.scene = (w.note (.closed id phase)).scene) :
    Steady i silent w₀ around w' where
  proper := by
    rw [hscene]
    exact h.proper.closed (h.living.mem_iff.2 (List.mem_cons_self ..))
  numbered := by
    rw [hscene]
    rintro id other (_ | ⟨_, hmem⟩)
    exact Nat.lt_succ_of_lt (h.numbered id other hmem)
  living := by
    rw [hscene]
    have herased := h.living.erase (id, phase)
    rwa [List.cons_append, List.erase_cons_head] at herased
  guards := by
    rw [hscene]
    exact h.guards
  depth := by
    have herased := h.living.erase (id, phase)
    rw [List.cons_append, List.erase_cons_head] at herased
    have hliving := balance_perm h.living
    rw [List.cons_append, balance_cons] at hliving
    rw [hscene, ht.lease]
    show (w.leases.get i).depth + phase.other.sign =
      _ + balance ((alive w.scene.notes).erase (id, phase))
    rw [balance_perm herased, h.depth, hliving, Phase.sign_other]
    omega
  sound := ht.sound h.sound
  hooks hsilent := by
    rw [hscene, ht.hooks, h.hooks hsilent]
    show _ = _ ++ (_ :: w.scene.notes).reverse.filterMap Note.hook?
    rw [List.reverse_cons, List.filterMap_append, List.append_assoc]
    rfl

theorem phase_iff (h : Steady i silent w₀ around w) :
    Lease.phase (w.leases.get i) = .locked ↔
      0 < (w₀.leases.get i).depth + balance (alive w.scene.notes) := by
  rw [← h.depth, Lease.phase_eq_locked_iff]

/-- A look is told by the guards that are alive. -/
theorem looked (h : Steady i silent w₀ around w) :
    Steady i silent w₀ around
      (w.note (.seen (w.leases.get i).depth (Lease.phase (w.leases.get i)))) where
  proper := by
    rw [h.depth]
    exact h.proper.seen h.phase_iff
  numbered := by
    rintro id other (_ | ⟨_, hmem⟩)
    exact Nat.lt_succ_of_lt (h.numbered id other hmem)
  living := h.living
  guards := h.guards
  depth := h.depth
  sound := ⟨h.sound.nodup, h.sound.old⟩
  hooks hsilent := by
    refine (h.hooks hsilent).trans ?_
    show _ = _ ++ (_ :: w.scene.notes).reverse.filterMap Note.hook?
    rw [List.reverse_cons, List.filterMap_append]
    simp [Note.hook?]

end Steady

theorem Lease.Entered.turned (h : Entered i phase w w') : Turned i phase w w' :=
  ⟨h.lease, h.registries, h.next, h.hooks⟩

end Steady

/-! ## Steps -/

/-- An act leads from a moment of an execution to a moment of it, with the same calls around. -/
def Keeps (i : Nat) (silent : Prop) (w₀ : World Shelf) {α : Type} (act : Act Shelf α) : Prop :=
  ∀ around w, Steady i silent w₀ around w → Steady i silent w₀ around (act w).2

section Keeps

variable {i : Nat} {silent : Prop} {w₀ : World Shelf} {α β : Type} {act : Act Shelf α}

theorem Act.ensuring_snd {σ : Type} (body : Act σ α) (closing : Act σ Unit) (w : World σ) :
    (Act.ensuring body closing w).2 = (closing (body w).2).2 := by
  unfold Act.ensuring
  split
  · next a w' hbody =>
    rw [hbody]
    split <;> next hclosing => rw [hclosing]
  · next p w' hbody => rw [hbody]

theorem Act.bind_pure_snd {σ : Type} (body : Act σ α) (b : β) (w : World σ) :
    ((body >>= fun _ => pure b) w).2 = (body w).2 := by
  obtain ⟨r, w', hrun⟩ : ∃ r w', body w = (r, w') := ⟨_, _, rfl⟩
  cases r with
  | ok a => rw [Act.bind_ok _ hrun, hrun]; rfl
  | error p => rw [Act.bind_error _ hrun, hrun]

theorem Act.attempt_snd {σ : Type} (body : Act σ α) (w : World σ) :
    (Act.attempt body w).2 = (body w).2 := by
  unfold Act.attempt
  split <;> next hbody => rw [hbody]

theorem Keeps.bind (h : Keeps i silent w₀ act) {f : α → Act Shelf β}
    (hf : ∀ a, Keeps i silent w₀ (f a)) : Keeps i silent w₀ (act >>= f) := by
  intro around w hw
  have hfirst := h around w hw
  obtain ⟨r, w₁, hrun⟩ : ∃ r w₁, act w = (r, w₁) := ⟨_, _, rfl⟩
  rw [hrun] at hfirst
  cases r with
  | ok a =>
    rw [Act.bind_ok _ hrun]
    exact hf a around w₁ hfirst
  | error p =>
    rw [Act.bind_error _ hrun]
    exact hfirst

theorem Keeps.ensuring (h : Keeps i silent w₀ act) {closing : Act Shelf Unit}
    (hc : Keeps i silent w₀ closing) : Keeps i silent w₀ (Act.ensuring act closing) := by
  intro around w hw
  rw [Act.ensuring_snd]
  exact hc around _ (h around w hw)

theorem Keeps.attempt (h : Keeps i silent w₀ act) : Keeps i silent w₀ (Act.attempt act) := by
  intro around w hw
  rw [Act.attempt_snd]
  exact h around w hw

theorem keeps_pure (a : α) : Keeps i silent w₀ (pure a : Act Shelf α) := fun _ _ hw => hw

/-- The owner of a lock leads on as what is asked of it does. -/
theorem Keeps.around {whole : Act Shelf α} (h : Keeps i silent w₀ act)
    (haround : Around i silent act whole) : Keeps i silent w₀ whole := by
  intro around w hw
  rcases haround w with ⟨p, w', hwhole, hq⟩ | ⟨w₁, r, w₂, hq₁, hq₂, hwhole⟩
  · rw [hwhole]
    exact hw.quiet hq
  · rw [hwhole]
    exact (h around w₁ (hw.quiet hq₁)).quiet hq₂

theorem keeps_look : Keeps i silent w₀ (Shelf.look i) := fun _ _ hw => hw.looked

/-- A guard that is made is one of those in slots. -/
theorem keeps_hold (slot : Nat) (phase : Phase) : Keeps i silent w₀ (Shelf.hold i slot phase) := by
  intro around w hw
  obtain ⟨w₁, henter, hentered⟩ := Lease.enter_spec phase hw.sound.nodup
  have ht := hentered.turned
  have hguard : Lease.guard i phase w = (.ok ⟨i, phase.other⟩, w₁) := by
    rw [Lease.guard, Act.bind_ok _ henter]
    rfl
  have hlength : Act.look (·.scene.notes.length) w₁ = (.ok w.scene.notes.length, w₁) := by
    rw [← hentered.scene]
    rfl
  rw [Shelf.hold, Act.bind_ok _ hguard, Act.bind_ok _ hlength]
  have h₂ : Steady i silent w₀ ((w.scene.notes.length, phase) :: around)
      (w₁.note (.opened w.scene.notes.length phase)) := by
    refine hw.opened ⟨ht.lease, ht.registries, ht.next, ht.hooks⟩ ?_
    rw [World.note, World.note, hentered.scene]
  have hentry : (Held.mk slot w.scene.notes.length ⟨i, phase.other⟩).entry =
      (w.scene.notes.length, phase) := by
    rw [Held.entry, Phase.other_other]
  exact {
    proper := h₂.proper
    numbered := h₂.numbered
    living := by
      refine h₂.living.trans ?_
      show (_ :: (around ++ w₁.scene.held.map Held.entry)).Perm
        (around ++ Held.entry _ :: w₁.scene.held.map Held.entry)
      rw [hentry]
      exact List.perm_middle.symm
    guards := by
      rintro h (_ | ⟨_, hmem⟩)
      · rfl
      · exact h₂.guards h hmem
    depth := h₂.depth
    sound := ⟨h₂.sound.nodup, h₂.sound.old⟩
    hooks := h₂.hooks }

/-- Guards that were taken out of their slots are dropped. -/
theorem steady_dropAll {guards : List Held} (hguards : ∀ h ∈ guards, h.guard.lease = i)
    {around : List (Nat × Phase)} {w : World Shelf}
    (hw : Steady i silent w₀ (guards.map Held.entry ++ around) w) :
    Steady i silent w₀ around (Shelf.dropAll guards w).2 := by
  induction guards generalizing w with
  | nil => exact hw
  | cons h rest ih =>
    rw [List.forall_mem_cons] at hguards
    let w₁ := w.note (.closed h.id h.guard.onDrop.other)
    obtain ⟨w₂, henter, hentered⟩ := Lease.enter_spec (w := w₁) (i := i) h.guard.onDrop
      hw.sound.nodup
    have ht := hentered.turned
    have hdrop : h.guard.drop w₁ = (.ok (), w₂) := by
      rw [Guard.drop, hguards.1]
      exact henter
    have hnote : Shelf.note (.closed h.id h.guard.onDrop.other) w = (.ok (), w₁) := rfl
    rw [Shelf.dropAll, Act.bind_ok _ hnote, Act.bind_ok _ hdrop]
    refine ih hguards.2 (hw.closed ?_ hentered.scene)
    rw [Phase.other_other]
    exact ⟨ht.lease, ht.registries, ht.next, ht.hooks⟩

theorem keeps_empty (slots : List Nat) : Keeps i silent w₀ (Shelf.empty slots) := by
  intro around w hw
  let kept := w.scene.held.filter fun h => h.slot ∉ slots
  let taken := w.scene.held.filter fun h => h.slot ∈ slots
  let w₁ : World Shelf := { w with scene := { w.scene with held := kept } }
  have hsplit : (taken ++ kept).Perm w.scene.held := by
    have hperm := List.filter_append_perm (fun h : Held => decide (h.slot ∈ slots)) w.scene.held
    simpa only [← decide_not] using hperm
  -- guards that were taken out and not dropped yet count as calls around
  have h₁ : Steady i silent w₀ (taken.map Held.entry ++ around) w₁ := {
    proper := hw.proper
    numbered := hw.numbered
    living := by
      refine hw.living.trans ?_
      have hmoved := (hsplit.symm.map Held.entry).append_left around
      rw [List.map_append, ← List.append_assoc] at hmoved
      exact hmoved.trans (List.perm_append_comm.append_right _)
    guards := fun h hmem => hw.guards h (List.mem_of_mem_filter hmem)
    depth := hw.depth
    sound := ⟨hw.sound.nodup, hw.sound.old⟩
    hooks := hw.hooks }
  exact steady_dropAll (fun h hmem => hw.guards h (List.mem_of_mem_filter hmem)) h₁

/-! ## Work with access, and with access given up -/

theorem noted_snd (phase : Phase) (body : Act Shelf Unit) (w : World Shelf) :
    (Shelf.noted phase body w).2 =
      (body (w.note (.opened w.scene.notes.length phase))).2.note
        (.closed w.scene.notes.length phase) :=
  Act.ensuring_snd _ _ _

/-- The guard of work with access is made inside the access and dropped inside it. -/
theorem keeps_locked {body : Act Shelf Unit} (h : Keeps i silent w₀ body) :
    Keeps i silent w₀ (Lease.locked i (Shelf.noted .locked body)) := by
  intro around w hw
  obtain ⟨w₁, henter, hentered⟩ := Lease.enter_spec .locked hw.sound.nodup
  have ht := hentered.turned
  have hopened : Steady i silent w₀ ((w.scene.notes.length, .locked) :: around)
      (w₁.note (.opened w.scene.notes.length .locked)) := by
    refine hw.opened ⟨ht.lease, ht.registries, ht.next, ht.hooks⟩ ?_
    rw [World.note, World.note, hentered.scene]
  have hbody := h _ _ hopened
  -- the note of the drop comes before the hook here, but neither looks at what the other changes
  obtain ⟨w₂, hleave, hleft⟩ := Lease.enter_spec (i := i) .unlocked
    (w := (Shelf.noted .locked body w₁).2) (by
      rw [noted_snd, hentered.scene]
      exact hbody.sound.nodup)
  have hrun : (Lease.locked i (Shelf.noted .locked body) w).2 = w₂ := by
    rw [Lease.locked, Act.bind_ok _ (show Lease.beforeAcquired i w = (.ok (), w₁) from henter),
      Act.ensuring_snd, show Lease.beforeReleased i _ = (.ok (), w₂) from hleave]
  rw [hrun]
  rw [noted_snd, hentered.scene] at hleft
  have ht' := hleft.turned
  exact hbody.closed ⟨ht'.lease, ht'.registries, ht'.next, ht'.hooks⟩ hleft.scene

/-- The guard of an operation with access given up is made before access is given up, and dropped
when it is back. -/
theorem keeps_unlocked {whole : Act Shelf Unit} (h : Keeps i silent w₀ whole) :
    Keeps i silent w₀ (Shelf.noted .unlocked (Lease.unlocked i whole)) := by
  intro around w hw
  let w₁ := w.note (.opened w.scene.notes.length .unlocked)
  obtain ⟨w₂, henter, hentered⟩ := Lease.enter_spec (w := w₁) (i := i) .unlocked hw.sound.nodup
  have ht := hentered.turned
  have hopened : Steady i silent w₀ ((w.scene.notes.length, .unlocked) :: around) w₂ :=
    hw.opened ⟨ht.lease, ht.registries, ht.next, ht.hooks⟩ hentered.scene
  have hwhole := h _ _ hopened
  obtain ⟨w₃, hback, hturned⟩ := Lease.enter_spec .locked hwhole.sound.nodup
  have hrun : (Lease.unlocked i whole w₁).2 = w₃ := by
    rw [Lease.unlocked, Act.bind_ok _ (show Lease.beforeReleased i w₁ = (.ok (), w₂) from henter),
      Act.ensuring_snd, show Lease.beforeAcquired i _ = (.ok (), w₃) from hback]
  have ht' := hturned.turned
  rw [noted_snd, hrun]
  refine hwhole.closed ⟨ht'.lease, ht'.registries, ht'.next, ht'.hooks⟩ ?_
  rw [World.note, World.note, hturned.scene]

/-! ## Whole routines -/

variable {access : Access Shelf}

/-- Every routine leads from a moment of an execution to a moment of it. -/
theorem Routine.keeps (haccess : access.DoesOnce i silent) {routine : Routine}
    (hq : routine.Quiet i silent) : Keeps i silent w₀ (routine.act i access) := by
  induction routine with
  | done => exact keeps_pure ()
  | seq first next ihfirst ihnext => exact (ihfirst hq.1).bind fun _ => ihnext hq.2
  | depending next ih => exact fun around w hw => ih w (hq w) around w hw
  | look => exact keeps_look
  | work act => exact fun _ w hw => hw.quiet (hq w)
  | panic message => exact fun _ _ hw => hw
  | hold slot phase => exact keeps_hold slot phase
  | drop slot => exact keeps_empty [slot]
  | scope slots body ih => exact (ih hq).ensuring (keeps_empty slots)
  | attempt body ih => exact (ih hq).attempt.bind fun _ => keeps_pure ()
  | useStore operation body ih =>
    exact (keeps_locked (ih hq)).around (haccess.useCache operation _)
  | longRunning operation body ih =>
    exact keeps_unlocked ((ih hq).around (haccess.longRunning operation _))

end Keeps

/-- Guards balance, in whatever order they are made and dropped, and wherever panics come and are
caught. At every moment the depth is the one at the beginning, plus the guards that entered the
locked phase and are alive, less the others that are; the phase is locked if that is positive; and
whoever looked was shown this. Each guard is made once, and dropped once or still alive, with one
hook each time. Work after which the guards in slots weigh as much as before leaves depth and phase
as they were, however it ended. A hook reads the marker of each memory that is registered then once,
and changes this memory by the reading and nothing else. -/
theorem Lease.phase_guards_balance {i : Nat} {silent : Prop} {access : Access Shelf}
    (haccess : access.DoesOnce i silent) :
    (∀ w : World Shelf, w.scene = ⟨[], []⟩ → Registry.Sound (w.leases.get i).registry w →
      Steady i silent w [] w) ∧
    (∀ {routine : Routine} {w₀ around w}, routine.Quiet i silent →
      Steady i silent w₀ around w →
      Steady i silent w₀ around (routine.act i access w).2 ∧
      (balance ((routine.act i access w).2.scene.held.map Held.entry) =
          balance (w.scene.held.map Held.entry) →
        ((routine.act i access w).2.leases.get i).depth = (w.leases.get i).depth ∧
        Lease.phase ((routine.act i access w).2.leases.get i) =
          Lease.phase (w.leases.get i))) ∧
    (∀ {w₀ around w}, Steady i silent w₀ around w →
      (Lease.phase (w.leases.get i) = .locked ↔
        0 < (w₀.leases.get i).depth + balance (alive w.scene.notes)) ∧
      ∀ id, w.scene.notes.countP (Note.opens id) ≤ 1 ∧
        w.scene.notes.countP (Note.opens id) =
          w.scene.notes.countP (Note.closes id) + (alive w.scene.notes).countP (·.1 = id)) ∧
    ∀ {w : World Shelf} phase, Registry.Sound (w.leases.get i).registry w →
      ∃ w', Lease.enter i phase w = (.ok (), w') ∧ Lease.Entered i phase w w' := by
  refine ⟨fun w hempty hs => .start hempty hs, ?_, ?_, fun phase hs => enter_spec phase hs.nodup⟩
  · intro routine w₀ around w hq hw
    have hw' := Routine.keeps haccess hq around w hw
    refine ⟨hw', fun hbalance => ?_⟩
    have hdepth : ((routine.act i access w).2.leases.get i).depth = (w.leases.get i).depth := by
      rw [hw.depth, hw'.depth, balance_perm hw.living, balance_perm hw'.living, balance_append,
        balance_append, hbalance]
    exact ⟨hdepth, by rw [Lease.phase, Lease.phase, hdepth]⟩
  · intro w₀ around w hw
    exact ⟨hw.phase_iff, hw.proper.once⟩

/-! ## Guards that cross -/

/-- Opens a store with a marker that nobody advances. -/
def registering (i : Nat) (handle : String) : Act Shelf Unit := do
  let l ← Act.look (·.leases.get i)
  let _ ← Registry.acquire l.registry (Path.ofString handle) .u8 (Marker.new (.counter 0))

theorem hooks_register (w : World Shelf) (i : Nat) (handle : Path) (type : ValueType) (m : Nat) :
    (w.register i handle type m).hooks = w.hooks := by
  show (w.journal ++ _ ++ _ ++ _).filterMap Event.hook? = _
  rw [List.filterMap_append, List.filterMap_append, List.filterMap_append,
    Memory.hooks_complaints]
  simp [Event.hook?, World.hooks]

/-- Opening a store leaves the guards alone. -/
theorem quiet_registering (i : Nat) (silent : Prop) (handle : String) (w : World Shelf) :
    Quiet i silent w (registering i handle w).2 := by
  let r := (w.leases.get i).registry
  let make : Act Shelf Nat := Marker.new (.counter 0)
  have hrun : (registering i handle w).2 =
      (Registry.acquire r (Path.ofString handle) .u8 make w).2 := by
    rw [registering, Act.bind_ok _ (show Act.look _ w = (.ok (w.leases.get i), w) from rfl)]
    exact Act.bind_pure_snd _ _ w
  rw [hrun]
  exact {
    scene := Registry.acquire_frame (·.scene) (fun _ _ _ _ _ => rfl) _ _ rfl
    lease := Registry.acquire_frame (·.leases.get i) (fun _ _ _ _ _ => rfl) _ _ rfl
    sound := fun hs => hs.acquire _ _ (Registry.apart_newMarker _ _ w)
    hooks := fun _ => Registry.acquire_frame World.hooks hooks_register _ _ rfl }

/-- The owner of no lock does what is asked of it. -/
theorem Cabinet.plain_doesOnce (base : Path) (format : Format) (i : Nat) (silent : Prop) :
    (Cabinet.plain base format).access.DoesOnce i silent := by
  have hreport : ∀ (w : World Shelf) operation name,
      Quiet i silent w (w.report (.opened operation name base)) := by
    intro w operation name
    refine ⟨rfl, rfl, fun hs => ⟨hs.nodup, hs.old⟩, fun _ => ?_⟩
    show (w.journal ++ _).filterMap Event.hook? = _
    rw [List.filterMap_append]
    exact List.append_nil _
  constructor
  · intro α operation body w
    exact .inr ⟨_, (body _).1, _, hreport w .useCache operation, .refl _ _ _, rfl⟩
  · intro α operation body w
    exact .inr ⟨_, (body _).1, _, hreport w .longRunning operation, .refl _ _ _, rfl⟩

/-- Guards that are not dropped in the order in which they were made, a store that is opened
meanwhile, and a panic inside work inside an operation. -/
def crossing : Routine :=
  .seq (.hold 0 .locked) <| .seq (.hold 1 .unlocked) <| .seq (.work (registering 0 "b")) <|
    .seq (.drop 0) <| .seq .look <|
    .seq (.attempt (.useStore "build" (.seq .look (.longRunning "run" (.panic "broken"))))) <|
    .seq .look (.drop 1)

/-- A world with a lease on one store. -/
def oneLease : World Shelf :=
  let prepare : Act Shelf Nat := do
    let r ← Registry.new
    let _ ← Registry.acquire r (Path.ofString "a") .u8 (Marker.new (.counter 0))
    Lease.new r
  (prepare (World.initial ⟨[], []⟩)).2

/-- The world in which that was done. -/
def crossed : World Shelf :=
  (crossing.act 0 (Cabinet.plain (Path.ofString "c") .json).access oneLease).2

/-- After that no guard is alive, and the depth is what it was. -/
theorem crossing_guards_balance :
    Steady 0 True oneLease [] crossed ∧ (crossed.leases.get 0).depth = 0 ∧
      alive crossed.scene.notes = [] ∧ crossed.memories 0 = [0, 1] := by
  have haccess := Cabinet.plain_doesOnce (Path.ofString "c") .json 0 True
  obtain ⟨hstart, hroutine, -, -⟩ := Lease.phase_guards_balance haccess
  have hquiet : crossing.Quiet 0 True := by
    simp only [crossing, Routine.Quiet, and_true, true_and]
    exact quiet_registering 0 True "b"
  have hbegun := hstart oneLease rfl ⟨by decide, by decide⟩
  have hcrossed := hroutine hquiet hbegun
  rw [← crossed] at hcrossed
  obtain ⟨hsteady, hbalance⟩ := hcrossed
  have hheld : balance (crossed.scene.held.map Held.entry) =
      balance (oneLease.scene.held.map Held.entry) := by decide +kernel
  have hbefore : (oneLease.leases.get 0).depth = 0 := by decide +kernel
  exact ⟨hsteady, (hbalance hheld).1.trans hbefore, by decide +kernel, by decide +kernel⟩

end LeaseCache
