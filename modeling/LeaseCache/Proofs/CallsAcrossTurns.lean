import LeaseCache.Proofs.ForeignWrites
import LeaseCache.Proofs.HookSteps
import LeaseCache.Proofs.HookSweep
import LeaseCache.Proofs.StoreCalls

/-!
# Calls that last longer than a turn

An `Agenda` is what a process does with one store when its calls take their time: while the store
is asked, the process looks other keys up, writes, and lets other processes have a turn, and each of
these calls may itself take that long. Only during a write it does not write again and does not give
access up. Every agenda is a run of turns in which the calls lie inside one another: an act that is
such a run wherever it is done (`Passes`) can be done while another call waits for the store
(`passes_lookup`, `passes_write`) or between two acts (`Passes.bind`). So at the end every entry is
what the store holds (`Agenda.act_ends_right`).
-/

namespace LeaseCache

open Relation (ReflTransGen)
open Tenancy (Guarded Turn)

variable {σ α β : Type}

/-! ## What a process does while the store is asked -/

/-- Does something before an act and something after it. -/
def Act.amid (act : Act σ α) (before after : Act σ Unit) : Act σ α := do
  before
  let a ← act
  after
  return a

theorem Act.amid_ok {act : Act σ α} {before after : Act σ Unit} {w w₁ w₂ w₃ : World σ} {a : α}
    (hbefore : before w = (.ok (), w₁)) (hact : act w₁ = (.ok a, w₂))
    (hafter : after w₂ = (.ok (), w₃)) : act.amid before after w = (.ok a, w₃) := by
  rw [Act.amid, bind_ok _ hbefore, bind_ok _ hact, bind_ok _ hafter]
  rfl

/-- A store that lets other things be done before it does what it is asked, and before it
answers. -/
def Store.amid (store : Store σ) (before after : Act σ Unit) : Store σ where
  get k := (store.get k).amid before after
  put k v := (store.put k v).amid before after
  remove k := (store.remove k).amid before after

theorem Store.on_amid (store : Store σ) (before after : Act σ Unit) (wr : Write Value) :
    wr.on (store.amid before after) = (wr.on store).amid before after := by
  obtain ⟨k, _ | v⟩ := wr <;> rfl

/-- What a process does with a store, one thing after the other. With a lookup or a write stands
what is done while the store is asked, before and after it does what it is asked. The index tells
whether a write is going on. -/
inductive Agenda : Bool → Type
  | done {writing : Bool} : Agenda writing
  | lookup {writing : Bool} (key : Key) (before after more : Agenda writing) : Agenda writing
  | write (w : Write Value) (before after : Agenda true) (more : Agenda false) : Agenda false
  /-- The marker moves. -/
  | move {writing : Bool} (more : Agenda writing) : Agenda writing
  /-- Access is given up, other processes write, and access comes back. -/
  | turn (writes : List (Write Value)) (more : Agenda false) : Agenda false

namespace Site

/-- The marker shows the next signal. The scene of the world holds those to come. -/
def advance (site : Site) : Act (Nat → Signal) Unit := do
  let signals ← Act.look (·.scene)
  Marker.set site.marker (.ok (signals 0))
  Act.change fun w => { w with scene := fun n => signals (n + 1) }

/-- Other processes write, and the marker moves with every write. -/
def others (site : Site) : List (Write Value) → Act (Nat → Signal) Unit
  | [] => pure ()
  | wr :: more => do
    let _ ← wr.on site.store
    site.advance
    site.others more

/-- Other processes have their turns. -/
def turn (site : Site) (writes : List (Write Value)) : Act (Nat → Signal) Unit := do
  Lease.beforeReleased site.lease
  site.others writes
  Lease.beforeAcquired site.lease

end Site

/-- Does what stands on an agenda. -/
def Agenda.act (site : Site) (store : Store (Nat → Signal)) :
    {writing : Bool} → Agenda writing → Act (Nat → Signal) Unit
  | _, .done => pure ()
  | _, .lookup k before after more => do
    let _ ← Facade.lookup (store.amid (before.act site store) (after.act site store)) site.cell k
    more.act site store
  | _, .write wr before after more => do
    let _ ← wr.on (Facade.toStore
      (store.amid (before.act site store) (after.act site store)) site.cell)
    more.act site store
  | _, .move more => do
    site.advance
    more.act site store
  | _, .turn writes more => do
    site.turn writes
    more.act site store

/-! ## What holds at every moment -/

/-- Worlds in which the hooks find the same markers, registries, leases and scene. -/
structure World.SameElsewhere (w w' : World σ) : Prop where
  markers : w'.markers = w.markers
  registries : w'.registries = w.registries
  leases : w'.leases = w.leases
  scene : w'.scene = w.scene

theorem World.Touched.sameElsewhere {i : Nat} {w w' : World σ} (h : w.Touched i w') :
    w.SameElsewhere w' := by
  rw [h.same]
  exact ⟨rfl, rfl, rfl, rfl⟩

theorem World.SameElsewhere.memories {w w' : World σ} (h : w.SameElsewhere w') (i : Nat) :
    w'.memories i = w.memories i := by
  rw [World.memories, World.memories, h.leases, h.registries]

/-- A map in a table of the world that leaves everything else alone. -/
structure Store.KeepsTo (store : Store σ) (j : Nat) : Prop where
  map : store.IsMap fun w => (w.tables.get j).get?
  get : ∀ {k w r w'}, store.get k w = (r, w') → w.SameElsewhere w'
  write : ∀ {wr : Write Value} {w r w'}, wr.on store w = (r, w') → w.SameElsewhere w'

theorem Store.keepsTo_table (j : Nat) : (Store.table j : Store σ).KeepsTo j where
  map := isMap_table j
  get h := by
    cases h
    exact ⟨rfl, rfl, rfl, rfl⟩
  write {wr} _ _ _ h := by
    obtain ⟨k, _ | v⟩ := wr <;> (cases h; exact ⟨rfl, rfl, rfl, rfl⟩)

theorem Call.HoldsLock.writing {V : Type} {c : Call V} (h : c.HoldsLock) : c.Writing := by
  cases c <;> trivial

namespace Traffic

variable {V : Type} {s s' : Traffic V}

/-- Whoever has the lock is a call that holds it. -/
def Holder (s : Traffic V) : Prop :=
  ∀ t, s.writer = some t → ∃ c, s.calls t = some c ∧ c.HoldsLock

theorem Holder.step (h : Holder s) (hstep : Step s s') : Holder s' := by
  intro t ht
  unfold Holder at h
  cases hstep <;> grind [calls_goto, writer_goto, Call.HoldsLock]

/-- There are numbers for further calls. -/
def Roomy (s : Traffic V) : Prop := ∃ n, ∀ t, n ≤ t → s.calls t = none

theorem Roomy.exists_free (h : Roomy s) : ∃ t, s.calls t = none :=
  h.imp fun n hn => hn n (Nat.le_refl n)

theorem Roomy.step (h : Roomy s) (hstep : Step s s') : Roomy s' := by
  obtain ⟨n, hn⟩ := h
  obtain ⟨t, hothers⟩ : ∃ t, ∀ u, u ≠ t → s'.calls u = s.calls u := by
    cases hstep <;> exact ⟨_, fun u hu => if_neg hu⟩
  refine ⟨max n (t + 1), fun u hu => ?_⟩
  rw [hothers u (by omega)]
  exact hn u (by omega)

theorem Holder.writer_eq_none (h : Holder s) (hidle : ¬ s.Writing) : s.writer = none := by
  cases hw : s.writer with
  | none => rfl
  | some t =>
    obtain ⟨c, hc, hholds⟩ := h t hw
    exact absurd ⟨t, c, hc, hholds.writing⟩ hidle

end Traffic

/-- Where a process stands with its store, with access or without. The signals to come have not been
shown. -/
structure Placed (site : Site) (w : World (Nat → Signal)) (s : Tenancy Value) : Prop where
  shown : s.Shown site.cell site.table w
  room : s.traffic.Roomy
  holder : s.traffic.Holder
  marker : (w.cells.get site.cell).marker = site.marker
  registered : site.cell ∈ w.memories site.lease
  nodup : (w.memories site.lease).Nodup
  distinct : Function.Injective w.scene
  fresh : ∀ n, w.scene n ∉ s.shown

/-- The traffic goes on where the hooks find what they found before. -/
theorem Placed.elsewhere {site : Site} {w w' : World (Nat → Signal)} {s : Tenancy Value}
    {tr : Traffic Value} (h : Placed site w s) (hsame : w.SameElsewhere w')
    (hmarker : (w'.cells.get site.cell).marker = (w.cells.get site.cell).marker)
    (hshown : tr.Shown site.cell (fun w => (w.tables.get site.table).get?) w')
    (hroom : tr.Roomy) (hholder : tr.Holder) : Placed site w' { s with traffic := tr } where
  shown := by
    refine ⟨hshown, h.shown.created, ?_⟩
    rw [hmarker, hsame.markers]
    exact h.shown.marker
  room := hroom
  holder := hholder
  marker := hmarker.trans h.marker
  registered := hsame.memories site.lease ▸ h.registered
  nodup := hsame.memories site.lease ▸ h.nodup
  distinct := hsame.scene ▸ h.distinct
  fresh := hsame.scene ▸ h.fresh

/-- Where a process stands that has access and runs no hook. -/
structure InAccess (site : Site) (w : World (Nat → Signal)) (s : Tenancy Value) : Prop extends
    Placed site w s where
  guarded : Guarded s
  trusted : s.hold = .trusted

/-- A run of turns in which all calls but one of our own stay where they stand, and no write begins
that has not ended. -/
structure Meanwhile (own : Option Nat) (s s' : Tenancy Value) : Prop where
  run : ReflTransGen Turn s s'
  kept : ∀ {u c}, some u ≠ own → s.traffic.calls u = some c → s'.traffic.calls u = some c
  quiet : ∀ {u c}, some u ≠ own → s'.traffic.calls u = some c → c.Writing →
    s.traffic.calls u = some c

namespace Meanwhile

variable {own : Option Nat} {s s' s'' : Tenancy Value}

theorem refl (own : Option Nat) (s : Tenancy Value) : Meanwhile own s s :=
  ⟨.refl, fun _ h => h, fun _ h _ => h⟩

theorem trans (h : Meanwhile own s s') (h' : Meanwhile own s' s'') : Meanwhile own s s'' where
  run := h.run.trans h'.run
  kept hu hc := h'.kept hu (h.kept hu hc)
  quiet hu hc hw := h.quiet hu (h'.quiet hu hc hw) hw

theorem weaken (h : Meanwhile none s s') (own : Option Nat) : Meanwhile own s s' where
  run := h.run
  kept _ hc := h.kept nofun hc
  quiet _ hc hw := h.quiet nofun hc hw

theorem of_calls (hrun : ReflTransGen Turn s s') (h : s'.traffic.calls = s.traffic.calls) :
    Meanwhile none s s' where
  run := hrun
  kept _ hc := h ▸ hc
  quiet _ hc _ := h ▸ hc

/-- Our own call has begun and ended. -/
theorem ended {t : Nat} {c : Call Value} (h : Meanwhile (some t) s s')
    (hbefore : s.traffic.calls t = none) (hafter : s'.traffic.calls t = some c)
    (hc : ¬ c.Writing) : Meanwhile none s s' where
  run := h.run
  kept {u d} _ hd := by
    have hu : some u ≠ some t := by
      rintro ⟨⟩
      rw [hbefore] at hd
      cases hd
    exact h.kept hu hd
  quiet {u d} _ hd hw := by
    have hu : some u ≠ some t := by
      rintro ⟨⟩
      rw [hafter] at hd
      cases hd
      exact hc hw
    exact h.quiet hu hd hw

theorem idle (h : Meanwhile none s s') (hidle : ¬ s.traffic.Writing) : ¬ s'.traffic.Writing := by
  rintro ⟨t, c, hc, hw⟩
  exact hidle ⟨t, c, h.quiet nofun hc hw, hw⟩

end Meanwhile

namespace InAccess

variable {site : Site} {w w' : World (Nat → Signal)} {s : Tenancy Value}

/-- A step of a call. -/
theorem call {tr : Traffic Value} (h : InAccess site w s) (hstep : Traffic.Step s.traffic tr)
    (hsame : w.SameElsewhere w')
    (hmarker : (w'.cells.get site.cell).marker = (w.cells.get site.cell).marker)
    (hshown : tr.Shown site.cell (fun w => (w.tables.get site.table).get?) w') :
    Turn s { s with traffic := tr } ∧ InAccess site w' { s with traffic := tr } := by
  have hturn : Turn s { s with traffic := tr } :=
    .call h.shown.created hstep (.inl h.trusted)
  have hplaced : Placed site w' { s with traffic := tr } :=
    h.toPlaced.elsewhere hsame hmarker hshown (h.room.step hstep) (h.holder.step hstep)
  exact ⟨hturn, hplaced, h.guarded.turn hturn, h.trusted⟩

/-- Once the writes have ended, every entry is what the store holds. -/
theorem right (h : InAccess site w s) (hidle : ¬ s.traffic.Writing) {k : Key} {e : Entry Value}
    (he : (w.cells.get site.cell).cache.get? k = some e) :
    e = .ofOption ((w.tables.get site.table).get? k.identity) := by
  have hp : ¬ s.traffic.Pending k :=
    h.guarded.orderly.not_pending_of_free (h.holder.writer_eq_none hidle)
  rw [h.shown.traffic.cache] at he
  rw [h.shown.traffic.content]
  show e = .ofOption (s.traffic.content k)
  rw [← (h.guarded.coherent (.inl h.trusted)).entry hp he, Entry.ofOption_value?]

/-- Whoever asks then, and gets an answer, is told what the store holds. -/
theorem get_right {store : Store (Nat → Signal)} (hstore : store.KeepsTo site.table)
    (h : InAccess site w s) (hidle : ¬ s.traffic.Writing) {k : Key} {x : Option Value}
    (hget : Facade.get store site.cell k w = (.ok (.ok x), w')) :
    x = (w.tables.get site.table).get? k.identity := by
  cases hprobe : (w.cells.get site.cell).cache.probe k with
  | cached e =>
    rw [Facade.get_of_lookup (Facade.lookup_of_cached hprobe)] at hget
    cases hget
    rw [h.right hidle (Cache.get?_of_probe hprobe)]
    exact Entry.value?_ofOption _
  | vacant n =>
    obtain ⟨r, w₁, hr, -, -, hanswer⟩ := hstore.map.get k (w.setCache site.cell Cache.countMiss)
    cases r with
    | error e =>
      rw [Facade.get_of_lookup (Facade.lookup_of_error hprobe hr)] at hget
      cases hget
    | ok y =>
      rw [Facade.get_of_lookup (Facade.lookup_of_ok hprobe hr)] at hget
      cases hget
      exact hanswer y rfl

end InAccess

/-! ## Acts that are runs of turns -/

/-- Wherever a process has access, an act ends, and it is a run of turns that lets the other calls
be. An act that is not for the time of a write is asked for this only when no write is going on. -/
def Passes (site : Site) (writing : Bool) (act : Act (Nat → Signal) α) : Prop :=
  ∀ w s, InAccess site w s → (writing = false → ¬ s.traffic.Writing) →
    ∃ a w' s', act w = (.ok a, w') ∧ InAccess site w' s' ∧ Meanwhile none s s'

namespace Passes

variable {site : Site} {writing : Bool} {act : Act (Nat → Signal) α}

theorem pure (a : α) : Passes site writing (Pure.pure a) :=
  fun w s h _ => ⟨a, w, s, rfl, h, .refl _ s⟩

theorem bind {f : α → Act (Nat → Signal) β} (h : Passes site writing act)
    (h' : ∀ a, Passes site writing (f a)) : Passes site writing (act >>= f) := by
  intro w s hin hidle
  obtain ⟨a, w₁, s₁, hact, hin₁, hmeanwhile⟩ := h w s hin hidle
  obtain ⟨b, w₂, s₂, hf, hin₂, hmeanwhile'⟩ :=
    h' a w₁ s₁ hin₁ fun hwriting => hmeanwhile.idle (hidle hwriting)
  exact ⟨b, w₂, s₂, (Act.bind_ok f hact).trans hf, hin₂, hmeanwhile.trans hmeanwhile'⟩

end Passes

/-! ### Calls -/

section Calls

variable {site : Site} {writing : Bool} {store : Store (Nat → Signal)}
  {before after : Act (Nat → Signal) Unit} {t : Nat} {s₀ : Tenancy Value}
  {w : World (Nat → Signal)} {tr : Traffic Value}

/-- What holds while our own call is under way since a moment before it. -/
def UnderWay (site : Site) (t : Nat) (s₀ : Tenancy Value) (w : World (Nat → Signal))
    (tr : Traffic Value) : Prop :=
  ∃ s, s.traffic = tr ∧ InAccess site w s ∧ Meanwhile (some t) s₀ s

theorem UnderWay.call {tr' : Traffic Value} {w' : World (Nat → Signal)}
    (h : UnderWay site t s₀ w tr) (hstep : Traffic.Step tr tr')
    (hothers : ∀ u, u ≠ t → tr'.calls u = tr.calls u) (hsame : w.SameElsewhere w')
    (hmarker : (w'.cells.get site.cell).marker = (w.cells.get site.cell).marker)
    (hshown : tr'.Shown site.cell (fun w => (w.tables.get site.table).get?) w') :
    UnderWay site t s₀ w' tr' := by
  obtain ⟨s, rfl, hin, hmeanwhile⟩ := h
  obtain ⟨hturn, hin'⟩ := hin.call hstep hsame hmarker hshown
  refine ⟨_, rfl, hin', hmeanwhile.run.tail hturn, fun {u c} hu hc => ?_, fun {u c} hu hc hw => ?_⟩
  · rw [hothers u fun h => hu (congrArg some h)]
    exact hmeanwhile.kept hu hc
  · rw [hothers u fun h => hu (congrArg some h)] at hc
    exact hmeanwhile.quiet hu hc hw

theorem UnderWay.admits (site : Site) (t : Nat) (s₀ : Tenancy Value) :
    Traffic.Admits site.cell t (fun w => (w.tables.get site.table).get?) (UnderWay site t s₀) where
  shown := by
    rintro w _ ⟨s, rfl, hin, -⟩
    exact hin.shown.traffic
  holds_eq h := by rw [h.same]
  step h hstep hothers htouched hshown :=
    h.call hstep hothers htouched.sameElsewhere htouched.marker hshown

/-- Something is done while our call waits, at the same place. -/
theorem UnderWay.passes {act : Act (Nat → Signal) α} {c : Call Value}
    (h : UnderWay site t s₀ w tr) (hat : tr.calls t = some c) (hact : Passes site writing act)
    (hidle : writing = false → ¬ tr.Writing) :
    ∃ a w' tr', act w = (.ok a, w') ∧ UnderWay site t s₀ w' tr' ∧ tr'.calls t = some c := by
  obtain ⟨s, rfl, hin, hmeanwhile⟩ := h
  obtain ⟨a, w', s', hrun, hin', hmeanwhile'⟩ := hact w s hin hidle
  exact ⟨a, w', _, hrun, ⟨s', rfl, hin', hmeanwhile.trans (hmeanwhile'.weaken _)⟩,
    hmeanwhile'.kept nofun hat⟩

/-- No write goes on while our lookup waits, if none did before. -/
theorem UnderWay.idle {c : Call Value} (h : UnderWay site t s₀ w tr) (hat : tr.calls t = some c)
    (hc : ¬ c.Writing) (hidle : ¬ s₀.traffic.Writing) : ¬ tr.Writing := by
  obtain ⟨s, rfl, -, hmeanwhile⟩ := h
  rintro ⟨u, d, hd, hw⟩
  by_cases hu : u = t
  · subst hu
    rw [hat] at hd
    cases hd
    exact hc hw
  · exact hidle ⟨u, d, hmeanwhile.quiet (fun h => hu (Option.some.inj h)) hd hw, hw⟩

/-- The store answers our lookup, with other things done before and after. -/
theorem UnderWay.lookup_answered {k : Key} {n : Nat} (hstore : store.KeepsTo site.table)
    (hbefore : Passes site writing before) (hafter : Passes site writing after)
    (hidle : writing = false → ¬ s₀.traffic.Writing) (h : UnderWay site t s₀ w tr)
    (hat : tr.calls t = some (.asking k n)) :
    ∃ r w' tr', (store.amid before after).get k w = (.ok r, w') ∧ UnderWay site t s₀ w' tr' ∧
      tr'.calls t = some (.answered k n r) := by
  obtain ⟨⟨⟩, w₁, tr₁, hrun₁, h₁, hat₁⟩ :=
    h.passes hat hbefore fun hw => h.idle hat id (hidle hw)
  obtain ⟨r, w₂, hget, hcells, hstep, hshown⟩ :=
    hstore.map.get_step ((UnderWay.admits site t s₀).shown h₁) hat₁
  have h₂ := h₁.call hstep (fun u hu => Traffic.calls_goto_of_ne _ _ hu) (hstore.get hget)
    (by rw [hcells]) hshown
  have hat₂ : (tr₁.goto t (.answered k n r)).calls t = some (.answered k n r) := by simp
  have hends : ¬ (Call.answered k n r).Writing := by cases r <;> exact id
  obtain ⟨⟨⟩, w₃, tr₃, hrun₂, h₃, hat₃⟩ :=
    h₂.passes hat₂ hafter fun hw => h₂.idle hat₂ hends (hidle hw)
  exact ⟨r, w₃, tr₃, Act.amid_ok hrun₁ hget hrun₂, h₃, hat₃⟩

/-- The store answers our write, with other things done before and after. -/
theorem UnderWay.write_answered {wr : Write Value} (hstore : store.KeepsTo site.table)
    (hbefore : Passes site true before) (hafter : Passes site true after)
    (h : UnderWay site t s₀ w tr) (hat : tr.calls t = some (.locked wr)) :
    ∃ r w' tr' n, wr.on (store.amid before after) w = (.ok r, w') ∧ UnderWay site t s₀ w' tr' ∧
      tr'.calls t = some (.stored wr r.isOk n) := by
  obtain ⟨⟨⟩, w₁, tr₁, hrun₁, h₁, hat₁⟩ := h.passes hat hbefore nofun
  obtain ⟨r, w₂, effects, hwrite, hcells, hstep, hshown⟩ :=
    hstore.map.write_step ((UnderWay.admits site t s₀).shown h₁) hat₁
  have h₂ := h₁.call hstep (fun u hu => Traffic.calls_goto_of_ne _ _ hu) (hstore.write hwrite)
    (by rw [hcells]) hshown
  obtain ⟨⟨⟩, w₃, tr₃, hrun₂, h₃, hat₃⟩ :=
    h₂.passes (c := .stored wr r.isOk tr₁.effects.length) (by simp) hafter nofun
  refine ⟨r, w₃, tr₃, _, ?_, h₃, hat₃⟩
  rw [Store.on_amid]
  exact Act.amid_ok hrun₁ hwrite hrun₂

/-- A lookup, with other things done while the store is asked. -/
theorem passes_lookup (hstore : store.KeepsTo site.table) (hbefore : Passes site writing before)
    (hafter : Passes site writing after) (k : Key) :
    Passes site writing (Facade.lookup (store.amid before after) site.cell k) := by
  intro w s hin hidle
  obtain ⟨t, ht⟩ := hin.room.exists_free
  obtain ⟨r, w', tr', hlookup, ⟨s', rfl, hin', hmeanwhile⟩, hended⟩ :=
    Facade.lookup_run (UnderWay.admits site t s) ⟨s, rfl, hin, .refl _ _⟩ ht k
      fun _ _ h₁ hat => h₁.lookup_answered hstore hbefore hafter hidle hat
  refine ⟨r, w', s', hlookup, hin', hmeanwhile.ended ht hended ?_⟩
  cases r <;> exact id

/-- A write, with other things done while the store is asked. -/
theorem passes_write (hstore : store.KeepsTo site.table) (hbefore : Passes site true before)
    (hafter : Passes site true after) (wr : Write Value) :
    Passes site false (wr.on (Facade.toStore (store.amid before after) site.cell)) := by
  intro w s hin hidle
  obtain ⟨t, ht⟩ := hin.room.exists_free
  have hfree : s.traffic.writer = none := hin.holder.writer_eq_none (hidle rfl)
  obtain ⟨r, w', tr', n, hwrite, ⟨s', rfl, hin', hmeanwhile⟩, hdone⟩ :=
    Facade.write_run (UnderWay.admits site t s) ⟨s, rfl, hin, .refl _ _⟩ ht hfree wr
      fun _ h₁ hat => h₁.write_answered hstore hbefore hafter hat
  exact ⟨r, w', s', hwrite, hin', hmeanwhile.ended ht hdone id⟩

end Calls

/-! ### The marker and the turns of others -/

section Turns

variable {site : Site} {w w' : World (Nat → Signal)} {s s' : Tenancy Value}

/-- The world after the marker has moved. -/
def Site.advanced (site : Site) (w : World (Nat → Signal)) : World (Nat → Signal) :=
  { w with
    markers := w.markers.modify site.marker fun m => { m with kind := .fixed (.ok (w.scene 0)) }
    scene := fun n => w.scene (n + 1) }

theorem Site.advance_eq (site : Site) (w : World (Nat → Signal)) :
    site.advance w = (.ok (), site.advanced w) := rfl

theorem Placed.advanced (h : Placed site w s) : Placed site (site.advanced w)
    { s with signal := w.scene 0, shown := w.scene 0 :: s.shown } where
  shown := by
    refine ⟨⟨h.shown.traffic.cache, h.shown.traffic.content, h.shown.traffic.lock⟩,
      h.shown.created, .ok (w.scene 0), ?_, fun signal hsignal => (Option.some.inj hsignal).symm⟩
    show ((site.advanced w).markers.get (w.cells.get site.cell).marker).kind = _
    rw [h.marker, Site.advanced, Pool.get_modify, if_pos rfl]
  room := h.room
  holder := h.holder
  marker := h.marker
  registered := h.registered
  nodup := h.nodup
  distinct := fun m n heq => Nat.succ.inj (h.distinct heq)
  fresh n := by
    rw [List.mem_cons, not_or]
    exact ⟨fun heq => Nat.succ_ne_zero n (h.distinct heq), h.fresh (n + 1)⟩

theorem Placed.withHold (h : Placed site w s) (hold : Hold) :
    Placed site w { s with hold := hold } :=
  { h with shown := ⟨h.shown.traffic, h.shown.created, h.shown.marker⟩ }

/-- A hook leaves the process where it stands. -/
theorem Placed.hooked {phase : Phase} (h : Placed site w s)
    (hshown : s'.Shown site.cell site.table w') (hhooked : s.Hooked s')
    (hentered : Lease.Entered site.lease phase w w') : Placed site w' s' where
  shown := hshown
  room := by
    rw [Traffic.Roomy, hhooked.calls]
    exact h.room
  holder := by
    rw [Traffic.Holder, hhooked.calls, hhooked.writer]
    exact h.holder
  marker := (hentered.marker site.cell).trans h.marker
  registered := hentered.memories ▸ h.registered
  nodup := hentered.memories ▸ h.nodup
  distinct := hentered.scene ▸ h.distinct
  fresh := by
    rw [hentered.scene, hhooked.shown]
    exact h.fresh

/-- Another process writes the table. -/
theorem Placed.written (h : Placed site w s) (wr : Write Value) :
    ∃ w', wr.on site.store w = (.ok (.ok ()), w') ∧ w'.scene = w.scene ∧
      Placed site w'
        { s with traffic := { s.traffic with effects := wr.effect :: s.traffic.effects } } := by
  obtain ⟨r, w', hwrite, hcells, htook⟩ := (Store.isMap_table site.table).write wr w
  have hsame := (Store.keepsTo_table site.table).write hwrite
  have hok : r = .ok () := by
    obtain ⟨k, _ | v⟩ := wr <;> (cases hwrite; rfl)
  subst hok
  have heffect := htook.resolve_right fun hfailed => absurd hfailed.2 (by decide)
  exact ⟨w', hwrite, hsame.scene, h.elsewhere hsame (by rw [hcells])
    (h.shown.traffic.of_effect hcells heffect) h.room h.holder⟩

/-- Other processes write while this one has no access. -/
theorem Placed.others (h : Placed site w s) (haway : s.hold = .away) (writes : List (Write Value)) :
    ∃ w' s', site.others writes w = (.ok (), w') ∧ Placed site w' s' ∧ s'.hold = .away ∧
      ReflTransGen Turn s s' ∧ s'.traffic.calls = s.traffic.calls := by
  induction writes generalizing w s with
  | nil => exact ⟨w, s, rfl, h, haway, .refl, rfl⟩
  | cons wr more ih =>
    obtain ⟨w₁, hwrite, hscene, hwritten⟩ := h.written wr
    have hnew : w₁.scene 0 ∉ s.shown := by
      rw [hscene]
      exact h.fresh 0
    obtain ⟨w', s', hmore, hplaced, haway', hrun, hcalls⟩ := ih hwritten.advanced haway
    refine ⟨w', s', ?_, hplaced, haway', .head (.foreign wr.effect (w₁.scene 0) haway hnew) hrun,
      hcalls⟩
    rw [Site.others, Act.bind_ok _ hwrite, Act.bind_ok _ (site.advance_eq w₁)]
    exact hmore

/-- The marker moves while access is held. -/
theorem passes_advance (site : Site) (writing : Bool) : Passes site writing site.advance := by
  intro w s hin _
  have hturn : Turn s { s with signal := w.scene 0, shown := w.scene 0 :: s.shown } :=
    .move (w.scene 0) hin.trusted
  exact ⟨(), _, _, site.advance_eq w,
    ⟨hin.toPlaced.advanced, hin.guarded.turn hturn, hin.trusted⟩, .of_calls (.single hturn) rfl⟩

/-- Other processes have their turns, between a release hook and an acquire hook. -/
theorem passes_turn (site : Site) (writes : List (Write Value)) :
    Passes site false (site.turn writes) := by
  intro w s hin hidle
  obtain ⟨w₁, s₁, hreleased, hhooked₁, hshown₁, hheld₁⟩ :=
    Lease.beforeReleased_run (l := site.lease) hin.shown hin.trusted hin.guarded.spared.signal
  have hplaced₁ := hin.toPlaced.hooked hshown₁ hhooked₁
    (Lease.entered_of_enter .unlocked hin.nodup hreleased)
  have hidle₁ : ¬ s₁.traffic.Writing :=
    (Meanwhile.of_calls hhooked₁.run hhooked₁.calls).idle (hidle rfl)
  obtain ⟨w₂, s₂, hothers, hplaced₂, haway, hrun₂, hcalls₂⟩ :=
    (hplaced₁.withHold .away).others rfl writes
  have hleft : ReflTransGen Turn s s₂ :=
    (hhooked₁.run.tail (.giveUp hheld₁ hidle₁)).trans hrun₂
  obtain ⟨w₃, s₃, hacquired, hhooked₃, hshown₃, hheld₃⟩ :=
    Lease.beforeAcquired_run (l := site.lease) (hplaced₂.withHold .arrived).shown (.inl rfl)
      (hin.guarded.run hleft).spared.signal hplaced₂.registered
  have hplaced₃ := (hplaced₂.withHold .arrived).hooked hshown₃ hhooked₃
    (Lease.entered_of_enter .locked hplaced₂.nodup hacquired)
  have hrun : ReflTransGen Turn s s₃ := (hleft.tail (.arrive haway)).trans hhooked₃.run
  refine ⟨(), w₃, s₃, ?_, ⟨hplaced₃, hin.guarded.run hrun, hheld₃⟩,
    .of_calls hrun (hhooked₃.calls.trans (hcalls₂.trans hhooked₁.calls))⟩
  rw [Site.turn, Act.bind_ok _ hreleased, Act.bind_ok _ hothers]
  exact hacquired

end Turns

/-! ## Agendas -/

/-- What stands on an agenda is a run of turns, wherever it may be done. -/
theorem Agenda.passes {site : Site} {store : Store (Nat → Signal)}
    (hstore : store.KeepsTo site.table) {writing : Bool} (agenda : Agenda writing) :
    Passes site writing (agenda.act site store) := by
  induction agenda with
  | done => exact .pure ()
  | lookup k before after more ihbefore ihafter ihmore =>
    exact (passes_lookup hstore ihbefore ihafter k).bind fun _ => ihmore
  | write wr before after more ihbefore ihafter ihmore =>
    exact (passes_write hstore ihbefore ihafter wr).bind fun _ => ihmore
  | move more ihmore => exact (passes_advance site _).bind fun _ => ihmore
  | turn writes more ihmore => exact (passes_turn site writes).bind fun _ => ihmore

/-- A store was opened while this process has access: its memory is registered and empty, and right
for the signal that the marker shows. -/
structure Site.Opened (site : Site) (w : World (Nat → Signal)) (signal : Signal) : Prop where
  cache : (w.cells.get site.cell).cache = .fresh (some signal)
  idle : (w.cells.get site.cell).writing = false
  marker : (w.cells.get site.cell).marker = site.marker
  kind : (w.markers.get site.marker).kind = .fixed (.ok signal)
  registered : site.cell ∈ w.memories site.lease
  nodup : (w.memories site.lease).Nodup
  distinct : Function.Injective w.scene
  fresh : ∀ n, w.scene n ≠ signal

/-- The turns that lead to where a process stands then. -/
theorem Site.Opened.inAccess {site : Site} {w : World (Nat → Signal)} {signal : Signal}
    (h : site.Opened w signal) :
    ∃ s, ReflTransGen Turn (.start (w.tables.get site.table).get? signal) s ∧ InAccess site w s ∧
      ¬ s.traffic.Writing := by
  have hrun : ReflTransGen Turn (.start (w.tables.get site.table).get? signal)
      ⟨.start (.fresh (some signal)) (w.tables.get site.table).get?, true, .trusted, signal,
        [signal]⟩ :=
    .tail (.tail (.single (.arrive rfl)) (.acquired (some signal) rfl fun _ h => by
      cases h
      rfl)) (.create (some signal) rfl fun _ h => by
      cases h
      exact List.mem_cons_self)
  refine ⟨_, hrun, ⟨⟨⟨⟨h.cache, fun _ => rfl, h.idle⟩, rfl, .ok signal, ?_, ?_⟩,
    ⟨0, fun _ _ => rfl⟩, nofun, h.marker, h.registered, h.nodup, h.distinct, ?_⟩,
    (Tenancy.guarded_start _ _).run hrun, rfl⟩, ?_⟩
  · rw [h.marker, h.kind]
  · exact fun _ h => (Option.some.inj h).symm
  · exact fun n hn => h.fresh n (List.mem_singleton.1 hn)
  · rintro ⟨t, c, hc, -⟩
    cases hc

/-- Whatever a process does with a store, with its calls inside one another and with turns of others
while the store is asked: it comes to its end by a run of turns. Then every entry is what the store
holds, and so is every answer to a lookup. -/
theorem Agenda.act_ends_right {site : Site} {store : Store (Nat → Signal)}
    {w : World (Nat → Signal)} {signal : Signal} (hstore : store.KeepsTo site.table)
    (hw : site.Opened w signal) (agenda : Agenda false) :
    ∃ w', agenda.act site store w = (.ok (), w') ∧
      (∃ s, ReflTransGen Turn (.start (w.tables.get site.table).get? signal) s ∧
        s.Shown site.cell site.table w') ∧
      (∀ k e, (w'.cells.get site.cell).cache.get? k = some e →
        e = .ofOption ((w'.tables.get site.table).get? k.identity)) ∧
      ∀ k x w'', Facade.get store site.cell k w' = (.ok (.ok x), w'') →
        x = (w'.tables.get site.table).get? k.identity := by
  obtain ⟨s, hstart, hin, hidle⟩ := hw.inAccess
  obtain ⟨⟨⟩, w', s', hact, hin', hmeanwhile⟩ :=
    agenda.passes hstore w s hin fun _ => hidle
  have hidle' := hmeanwhile.idle hidle
  exact ⟨w', hact, ⟨s', hstart.trans hmeanwhile.run, hin'.shown⟩, fun _ _ => hin'.right hidle',
    fun _ _ _ => hin'.get_right hstore hidle'⟩

/-- A lookup asks for a key, and another process writes it before the answer is there: the answer is
not kept. -/
example : (((Agenda.lookup (.integer 7) .done (.turn [⟨.integer 7, some (.u8 2)⟩] .done) .done).act
    Site.single (.table 0) (World.single.withScene fun n => .modified (.tick n))).2.cells.get
      0).cache.get? (.integer 7) = none := by
  rfl

end LeaseCache
