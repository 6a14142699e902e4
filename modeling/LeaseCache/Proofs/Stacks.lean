import LeaseCache.Proofs.HookSpec
import LeaseCache.Proofs.StoreCalls
import Mathlib.Data.List.Permutation

/-!
# Memories on top of each other

A facade is a store again, so a memory can stand in front of a store that has memories in front of
it. A stack of any height answers as its bottom store does: a write comes back with what the bottom
said to it, and a get with what the bottom holds, whether a memory or the bottom itself was asked.

Memories may lose entries at any moment, also while a call is on its way down or up. So each layer
of a stack names what is lost before it asks the store below and after that has answered; the losses
can depend on anything, and quiet layers are plain facades (`Layer.atop_quiet`).

The invariant is `Agrees`, for every layer. A get is led down by induction on the layers; what
carries it is that the calls below take entries away from the layers above and add none.
-/

namespace LeaseCache

variable {σ α : Type}

/-! ## Losing entries -/

/-- A memory loses its entries from outside. -/
inductive Loss where
  | clear (cell : Nat)
  /-- It is compared with its marker, and loses them if that has moved. -/
  | invalidate (cell : Nat)

namespace Loss

/-- Lets a memory lose its entries. -/
def act : Loss → Act σ Unit
  | .clear i => Act.changeCache i Cache.clear
  | .invalidate i => do
    let _ ← Memory.invalidateIfStale i

/-- Lets memories lose their entries, one after the other. -/
def all : List Loss → Act σ Unit
  | [] => pure ()
  | loss :: more => do
    loss.act
    all more

end Loss

/-- A memory that has lost entries at most. -/
structure Cell.Lost (c c' : Cell) : Prop where
  writing : c'.writing = c.writing
  entry : ∀ {k e}, c'.cache.get? k = some e → c.cache.get? k = some e

theorem Cell.Lost.refl (c : Cell) : c.Lost c := ⟨rfl, id⟩

theorem Cell.Lost.trans {c c' c'' : Cell} (h : c.Lost c') (h' : c'.Lost c'') : c.Lost c'' :=
  ⟨h'.writing.trans h.writing, fun he => h.entry (h'.entry he)⟩

theorem Cell.Lost.none {c c' : Cell} {k : Key} (h : c.Lost c') (hk : c.cache.get? k = none) :
    c'.cache.get? k = none := by
  cases hk' : c'.cache.get? k with
  | none => rfl
  | some e =>
    rw [h.entry hk'] at hk
    cases hk

/-- Worlds that differ in their memories, markers and events only. -/
def World.Aside (w w' : World σ) : Prop :=
  ∃ cells markers journal, w' = { w with cells := cells, markers := markers, journal := journal }

namespace World

variable {w w' w'' : World σ}

theorem Aside.refl (w : World σ) : w.Aside w := ⟨w.cells, w.markers, w.journal, rfl⟩

theorem Aside.trans (h : w.Aside w') (h' : w'.Aside w'') : w.Aside w'' := by
  obtain ⟨cells, markers, journal, rfl⟩ := h
  obtain ⟨cells', markers', journal', rfl⟩ := h'
  exact ⟨cells', markers', journal', rfl⟩

theorem Aside.scene (h : w.Aside w') : w'.scene = w.scene := by
  obtain ⟨cells, markers, journal, rfl⟩ := h
  rfl

theorem aside_setCache (w : World σ) (i : Nat) (f : Cache Value → Cache Value) :
    w.Aside (w.setCache i f) :=
  ⟨_, _, _, rfl⟩

theorem aside_setWriting (w : World σ) (i : Nat) (writing : Bool) :
    w.Aside (w.setWriting i writing) :=
  ⟨_, _, _, rfl⟩

/-- Memories have lost entries at most, and nothing else has happened. -/
structure Lost (w w' : World σ) : Prop where
  aside : w.Aside w'
  cells : ∀ i, (w.cells.get i).Lost (w'.cells.get i)

theorem Lost.refl (w : World σ) : w.Lost w := ⟨.refl w, fun _ => .refl _⟩

theorem Lost.trans (h : w.Lost w') (h' : w'.Lost w'') : w.Lost w'' :=
  ⟨h.aside.trans h'.aside, fun i => (h.cells i).trans (h'.cells i)⟩

theorem lost_setCache {i : Nat} {f : Cache Value → Cache Value}
    (hf : ∀ {k e}, (f (w.cells.get i).cache).get? k = some e →
      (w.cells.get i).cache.get? k = some e) : w.Lost (w.setCache i f) where
  aside := w.aside_setCache i f
  cells j := by
    rw [get_setCache]
    split
    · next hj =>
      subst hj
      exact ⟨rfl, hf⟩
    · exact .refl _

theorem lost_report (w : World σ) (e : Event) : w.Lost (w.report e) :=
  ⟨⟨_, _, _, rfl⟩, fun _ => .refl _⟩

end World

namespace Loss

theorem act_ok (loss : Loss) (w : World σ) : ∃ w', loss.act w = (.ok (), w') ∧ w.Lost w' := by
  cases loss with
  | clear i => exact ⟨_, rfl, World.lost_setCache nofun⟩
  | invalidate i =>
    obtain ⟨r, markers, journal, hkept | hdropped, -⟩ := Memory.invalidateIfStale_cases i w
    · exact ⟨_, Act.bind_ok _ hkept.2, ⟨_, _, _, rfl⟩, fun _ => .refl _⟩
    · obtain ⟨hstale, hinvalidate⟩ := hdropped
      let w₁ : World σ := { w with markers := markers, journal := journal }
      have hlost : w₁.Lost (w₁.setCache i (·.invalidate r)) := by
        refine World.lost_setCache fun {k e} he => ?_
        rw [Cache.get?_invalidate] at he
        split at he
        · exact he
        · cases he
      have hread : w.Lost w₁ := ⟨⟨_, _, _, rfl⟩, fun _ => .refl _⟩
      exact ⟨_, Act.bind_ok _ hinvalidate, hread.trans hlost⟩

theorem all_ok (losses : List Loss) (w : World σ) :
    ∃ w', all losses w = (.ok (), w') ∧ w.Lost w' := by
  induction losses generalizing w with
  | nil => exact ⟨w, rfl, .refl w⟩
  | cons loss more ih =>
    obtain ⟨w₁, hloss, hlost⟩ := loss.act_ok w
    obtain ⟨w₂, hmore, hlost'⟩ := ih w₁
    rw [all, Act.bind_ok _ hloss]
    exact ⟨w₂, hmore, hlost.trans hlost'⟩

end Loss

/-! ## Layers -/

/-- A memory in a stack, with what is lost while the store below it is called: before the call goes
down and after it has come back. -/
structure Layer (σ : Type) where
  cell : Nat
  before : World σ → List Loss
  after : World σ → List Loss

namespace Layer

/-- A layer with nothing lost. -/
def quiet (cell : Nat) : Layer σ := ⟨cell, fun _ => [], fun _ => []⟩

/-- A call of the store below, with the losses around it. -/
def during (l : Layer σ) (call : Act σ α) : Act σ α := do
  Loss.all (← Act.look l.before)
  let r ← call
  Loss.all (← Act.look l.after)
  return r

/-- The store below, as a layer calls it. -/
def below (l : Layer σ) (store : Store σ) : Store σ where
  get k := l.during (store.get k)
  put k v := l.during (store.put k v)
  remove k := l.during (store.remove k)

/-- A store with a layer on top. -/
def atop (l : Layer σ) (store : Store σ) : Store σ := Facade.toStore (l.below store) l.cell

theorem on_below (l : Layer σ) (store : Store σ) (wr : Write Value) :
    wr.on (l.below store) = l.during (wr.on store) := by
  obtain ⟨k, _ | v⟩ := wr <;> rfl

theorem during_quiet (i : Nat) (call : Act σ α) : (quiet i).during call = call := by
  funext w
  rw [during, Act.bind_ok _ (show Act.look _ w = (.ok [], w) from rfl),
    Act.bind_ok _ (show Loss.all [] w = (.ok (), w) from rfl)]
  obtain ⟨r, w', hcall⟩ : ∃ r w', call w = (r, w') := ⟨_, _, rfl⟩
  cases r with
  | ok r => rw [Act.bind_ok _ hcall, hcall]; rfl
  | error p => rw [Act.bind_error _ hcall, hcall]

/-- A quiet layer is a facade. -/
theorem atop_quiet (i : Nat) (store : Store σ) : (quiet i).atop store = Facade.toStore store i := by
  have hbelow : (quiet i).below store = store := by
    simp only [below, during_quiet]
  rw [atop, hbelow]
  rfl

/-- Around a call, memories lose entries and nothing else happens. -/
theorem during_ok (l : Layer σ) (w : World σ) :
    ∃ w₁, w.Lost w₁ ∧ ∀ {call : Act σ α} {r w₂}, call w₁ = (.ok r, w₂) →
      ∃ w₃, l.during call w = (.ok r, w₃) ∧ w₂.Lost w₃ := by
  obtain ⟨w₁, hbefore, hlost⟩ := Loss.all_ok (l.before w) w
  refine ⟨w₁, hlost, ?_⟩
  intro call r w₂ hcall
  obtain ⟨w₃, hafter, hlost'⟩ := Loss.all_ok (l.after w₂) w₂
  refine ⟨w₃, ?_, hlost'⟩
  rw [during, Act.bind_ok _ (show Act.look l.before w = (.ok (l.before w), w) from rfl),
    Act.bind_ok _ hbefore, Act.bind_ok _ hcall,
    Act.bind_ok _ (show Act.look l.after w₂ = (.ok (l.after w₂), w₂) from rfl),
    Act.bind_ok _ hafter]
  rfl

end Layer

/-- What a store holds has nothing to do with memories, markers and events. -/
def Separate (holds : World σ → Identity → Option Value) : Prop :=
  ∀ {w w' : World σ}, w.Aside w' → holds w' = holds w

/-- A memory at rest whose entries are what the store holds. -/
structure Agrees (holds : World σ → Identity → Option Value) (w : World σ) (i : Nat) : Prop where
  idle : (w.cells.get i).writing = false
  entry : ∀ {k e}, (w.cells.get i).cache.get? k = some e → e.value? = holds w k.identity

theorem Agrees.lost {holds : World σ → Identity → Option Value} {w w' : World σ} {i : Nat}
    (ha : Agrees holds w i) (hlost : (w.cells.get i).Lost (w'.cells.get i))
    (hholds : holds w' = holds w) : Agrees holds w' i where
  idle := hlost.writing.trans ha.idle
  entry he := by
    rw [hholds]
    exact ha.entry (hlost.entry he)

namespace Store

/-- A store with layers on top, the first of them at the top. -/
def stacked (bottom : Store σ) : List (Layer σ) → Store σ
  | [] => bottom
  | l :: layers => l.atop (stacked bottom layers)

/-- What a call of a stack leaves: its memories agree with the bottom, and others have lost entries
at most. -/
structure Left (holds : World σ → Identity → Option Value) (cells : List Nat) (w w' : World σ) :
    Prop where
  agrees : ∀ i ∈ cells, Agrees holds w' i
  others : ∀ i, i ∉ cells → (w.cells.get i).Lost (w'.cells.get i)

/-- How a get is answered: with what the bottom holds, asking it once at most; or with its failure,
and then no memory has an entry. -/
structure Answered (holds : World σ → Identity → Option Value) (log : σ → List Asked)
    (cells : List Nat) (k : Key) (r : Except StoreError (Option Value)) (w w' : World σ) :
    Prop where
  ok : ∀ x, r = .ok x → x = holds w' k.identity ∧
    (log w'.scene = log w.scene ∨ log w'.scene = log w.scene ++ [.get k (.ok x)])
  error : ∀ e, r = .error e → log w'.scene = log w.scene ++ [.get k (.error e)] ∧
    ∀ i ∈ cells, (w'.cells.get i).cache.get? k = none

section Stacked

variable {bottom store : Store σ} {holds : World σ → Identity → Option Value}
  {log : σ → List Asked} {l : Layer σ} {layers : List (Layer σ)} {cells : List Nat}
  {w w₁ w₂ w₃ w' : World σ} {i : Nat} {k : Key} {wr : Write Value}

/-- Losses before and after a call take nothing from what it leaves. -/
theorem Left.lost (hleft : Left holds cells w₁ w₂) (hbefore : w.Lost w₁) (hafter : w₂.Lost w₃)
    (hholds : holds w₃ = holds w₂) : Left holds cells w w₃ where
  agrees i hi := (hleft.agrees i hi).lost (hafter.cells i) hholds
  others i hi := ((hbefore.cells i).trans (hleft.others i hi)).trans (hafter.cells i)

/-- What is done to one more memory is nothing to those below. -/
theorem Left.cons (hleft : Left holds cells w w₁) (hi : i ∉ cells)
    (hcells : ∀ j, j ≠ i → w₂.cells.get j = w₁.cells.get j) (hholds : holds w₂ = holds w₁)
    (hagrees : Agrees holds w₂ i) : Left holds (i :: cells) w w₂ where
  agrees j hj := by
    rcases List.mem_cons.1 hj with rfl | hj
    · exact hagrees
    · refine (hleft.agrees j hj).lost ?_ hholds
      rw [hcells j fun hij => hi (hij ▸ hj)]
      exact .refl _
  others j hj := by
    rw [List.mem_cons, not_or] at hj
    rw [hcells j hj.1]
    exact hleft.others j hj.2

theorem Answered.lost {r : Except StoreError (Option Value)}
    (h : Answered holds log cells k r w₁ w₂) (hbefore : w.Lost w₁) (hafter : w₂.Lost w₃)
    (hholds : holds w₃ = holds w₂) : Answered holds log cells k r w w₃ where
  ok x hx := by
    rw [hholds, hafter.aside.scene, ← hbefore.aside.scene]
    exact h.ok x hx
  error e he := by
    rw [hafter.aside.scene, ← hbefore.aside.scene]
    exact ⟨(h.error e he).1, fun i hi => (hafter.cells i).none ((h.error e he).2 i hi)⟩

/-! ## One layer -/

/-- A call of the store below leaves the memories there as the store would without the losses around
it. -/
theorem during_left {ρ : Type} {P : World σ → ρ → World σ → Prop}
    (hseparate : Separate holds) (l : Layer σ) (call : Act σ ρ)
    (hagrees : ∀ i ∈ cells, Agrees holds w i)
    (hcall : ∀ {w}, (∀ i ∈ cells, Agrees holds w i) →
      ∃ r w', call w = (.ok r, w') ∧ Left holds cells w w' ∧ P w r w') :
    ∃ r w₁ w₂ w₃, l.during call w = (.ok r, w₃) ∧ w.Lost w₁ ∧ P w₁ r w₂ ∧ w₂.Lost w₃ ∧
      Left holds cells w w₃ := by
  obtain ⟨w₁, hbefore, hduring⟩ := l.during_ok (α := ρ) w
  obtain ⟨r, w₂, hdone, hleft, hP⟩ := hcall fun i hi =>
    (hagrees i hi).lost (hbefore.cells i) (hseparate hbefore.aside)
  obtain ⟨w₃, hthrough, hafter⟩ := hduring hdone
  exact ⟨r, w₁, w₂, w₃, hthrough, hbefore, hP, hafter,
    hleft.lost hbefore hafter (hseparate hafter.aside)⟩

/-- A memory still agrees once it has kept what the store holds. -/
theorem agrees_fill {n : Nat} {x : Option Value} (ha : Agrees holds w i)
    (hx : x = holds w k.identity) {e : Event}
    (hholds : holds ((w.setCache i (·.fill k (.ofOption x) n)).report e) = holds w) :
    Agrees holds ((w.setCache i (·.fill k (.ofOption x) n)).report e) i := by
  have hcell : ((w.setCache i (·.fill k (.ofOption x) n)).report e).cells.get i =
      { w.cells.get i with cache := (w.cells.get i).cache.fill k (.ofOption x) n } :=
    World.get_setCache_self _ _ _
  constructor
  · rw [hcell]
    exact ha.idle
  · intro m f hf
    rw [hcell] at hf
    rw [hholds]
    rcases Cache.get?_fill_cases hf with hold | ⟨-, hsame, rfl⟩
    · exact ha.entry hold
    · rw [Entry.value?_ofOption, hx, hsame]

/-- A layer that knows a key answers for it; one that does not asks below, and keeps the answer. -/
theorem get_atop (hseparate : Separate holds)
    (hfresh : l.cell ∉ cells) (hagrees : ∀ i ∈ l.cell :: cells, Agrees holds w i)
    (hbelow : ∀ {w}, (∀ i ∈ cells, Agrees holds w i) → ∃ r w', store.get k w = (.ok r, w') ∧
      Left holds cells w w' ∧ holds w' = holds w ∧ Answered holds log cells k r w w') :
    ∃ r w', (l.atop store).get k w = (.ok r, w') ∧ Left holds (l.cell :: cells) w w' ∧
      holds w' = holds w ∧ Answered holds log (l.cell :: cells) k r w w' := by
  have htop := hagrees l.cell List.mem_cons_self
  cases hprobe : (w.cells.get l.cell).cache.probe k with
  | cached e =>
    have hlost : w.Lost ((w.setCache l.cell Cache.countHit).report
        (.hit (w.cells.get l.cell).handle k)) :=
      World.Lost.trans (World.lost_setCache id) (World.lost_report _ _)
    have hholds := hseparate hlost.aside
    refine ⟨_, _, Facade.get_of_lookup (Facade.lookup_of_cached hprobe), ?_, hholds, ?_, nofun⟩
    · exact ⟨fun i hi => (hagrees i hi).lost (hlost.cells i) hholds, fun i _ => hlost.cells i⟩
    · rintro x ⟨⟩
      rw [hholds]
      exact ⟨htop.entry (Cache.get?_of_probe hprobe), .inl rfl⟩
  | vacant n =>
    have hcounted : w.Lost (w.setCache l.cell Cache.countMiss) := World.lost_setCache id
    obtain ⟨r, w₁, w₂, w₃, hcall, hdown, ⟨hsame, hanswered⟩, hup, hleft⟩ :=
      during_left hseparate l (store.get k)
        (fun i hi => (hagrees i (List.mem_cons_of_mem _ hi)).lost (hcounted.cells i)
          (hseparate hcounted.aside)) hbelow
    have hup' := hseparate hup.aside
    have hholds : holds w₃ = holds w := by
      rw [hup', hsame, hseparate hdown.aside, hseparate hcounted.aside]
    have hleft := hleft.lost hcounted (.refl _) rfl
    have hanswered := hanswered.lost (hcounted.trans hdown) hup hup'
    -- the layers below have taken entries away from this one and added none
    have hlost := hleft.others l.cell hfresh
    cases r with
    | error e =>
      refine ⟨_, w₃, Facade.get_of_lookup (Facade.lookup_of_error hprobe hcall),
        hleft.cons hfresh (fun _ _ => rfl) rfl (htop.lost hlost hholds), hholds, nofun, ?_⟩
      rintro e' ⟨⟩
      obtain ⟨hlog, hnone⟩ := hanswered.error e rfl
      refine ⟨hlog, fun i hi => ?_⟩
      rcases List.mem_cons.1 hi with rfl | hi
      · exact hlost.none (Cache.get?_of_vacant hprobe).1
      · exact hnone i hi
    | ok x =>
      obtain ⟨hx, hlog⟩ := hanswered.ok x rfl
      let kept := (w₃.setCache l.cell (·.fill k (.ofOption x) n)).report
        (.miss (w.cells.get l.cell).handle k ((w₃.cells.get l.cell).cache.accepts n))
      have hkept : holds kept = holds w₃ := hseparate ⟨_, _, _, rfl⟩
      refine ⟨_, kept, Facade.get_of_lookup (Facade.lookup_of_ok hprobe hcall), ?_,
        hkept.trans hholds, ?_, nofun⟩
      · refine hleft.cons hfresh (fun j hj => ?_) hkept
          (agrees_fill (htop.lost hlost hholds) hx hkept)
        exact (World.get_setCache _ _ _ _).trans (if_neg hj)
      · rintro x' ⟨⟩
        rw [hkept]
        exact ⟨hx, hlog⟩

/-- What a write puts is an entry that agrees, and it drops the entry of its key otherwise. -/
theorem agrees_settle {r : Except StoreError Unit}
    (hentry : ∀ {m e}, (w₁.cells.get i).cache.get? m = some e → e.value? = holds w m.identity)
    (htook : wr.Took (holds w) (holds w₁) r)
    (hholds : holds ((w₁.setCache i (·.settle wr r.isOk)).setWriting i false) = holds w₁) :
    Agrees holds ((w₁.setCache i (·.settle wr r.isOk)).setWriting i false) i := by
  constructor
  · rw [World.get_setWriting_self]
  · intro m e he
    rw [World.get_setWriting_self, World.get_setCache_self] at he
    rw [hholds]
    by_cases hsame : m.Same wr.key
    · obtain ⟨hok, hvalue⟩ := Cache.value?_of_get?_settle hsame he
      rcases htook with heffect | ⟨-, hfailed⟩
      · rw [heffect, if_pos hsame.symm, hvalue]
      · rw [hfailed] at hok
        cases hok
    · have hold := hentry ((Cache.get?_settle_of_not_same hsame).symm.trans he)
      rcases htook with heffect | ⟨hkept, -⟩
      · rw [heffect, if_neg fun h => hsame h.symm, hold]
      · rw [hkept, hold]

/-- A layer hands a write down, updates its memory, and comes back with what was said below. -/
theorem write_atop (hseparate : Separate holds)
    (hfresh : l.cell ∉ cells) (hagrees : ∀ i ∈ l.cell :: cells, Agrees holds w i)
    (hbelow : ∀ {w}, (∀ i ∈ cells, Agrees holds w i) → ∃ r w', wr.on store w = (.ok r, w') ∧
      Left holds cells w w' ∧ wr.Took (holds w) (holds w') r ∧
      log w'.scene = log w.scene ++ [.write wr r]) :
    ∃ r w', wr.on (l.atop store) w = (.ok r, w') ∧ Left holds (l.cell :: cells) w w' ∧
      wr.Took (holds w) (holds w') r ∧ log w'.scene = log w.scene ++ [.write wr r] := by
  have htop := hagrees l.cell List.mem_cons_self
  let locked := w.setWriting l.cell true
  have hlocked : holds locked = holds w := hseparate (w.aside_setWriting _ _)
  have hothers : ∀ j, j ≠ l.cell → locked.cells.get j = w.cells.get j := fun j hj =>
    (World.get_setWriting _ _ _ _).trans (if_neg hj)
  obtain ⟨r, w₁, w₂, w₃, hcall, hdown, ⟨htook, hlog⟩, hup, hleft⟩ :=
    during_left hseparate l (w := locked) (wr.on store)
      (fun i hi => by
        refine (hagrees i (List.mem_cons_of_mem _ hi)).lost ?_ hlocked
        rw [hothers i fun hil => hfresh (hil ▸ hi)]
        exact .refl _) hbelow
  rw [← Layer.on_below] at hcall
  let settled := (w₃.setCache l.cell (·.settle wr r.isOk)).setWriting l.cell false
  have hsettled : holds settled = holds w₃ := hseparate ⟨_, _, _, rfl⟩
  rw [hseparate hdown.aside, hlocked, ← hseparate hup.aside] at htook
  refine ⟨r, settled, Facade.write_of_ok htop.idle hcall, ?_, ?_, ?_⟩
  · have hcells : ∀ j, j ≠ l.cell → settled.cells.get j = w₃.cells.get j := fun j hj =>
      (World.get_setWriting _ _ _ _).trans
        ((if_neg hj).trans ((World.get_setCache _ _ _ _).trans (if_neg hj)))
    have hentry : ∀ {m e}, (w₃.cells.get l.cell).cache.get? m = some e →
        e.value? = holds w m.identity := by
      intro m e he
      have hold := (hleft.others l.cell hfresh).entry he
      rw [World.get_setWriting_self] at hold
      exact htop.entry hold
    have hcons := hleft.cons hfresh hcells hsettled (agrees_settle hentry htook hsettled)
    refine ⟨hcons.agrees, fun j hj => ?_⟩
    rw [← hothers j fun hjl => hj (hjl ▸ List.mem_cons_self)]
    exact hcons.others j hj
  · rw [hsettled]
    exact htook
  · show log w₃.scene = _
    rw [hup.aside.scene, hlog, hdown.aside.scene]
    rfl

/-! ## The whole stack -/

theorem stacked_get (hm : bottom.IsMap holds) (hseparate : Separate holds)
    (hlogged : bottom.Logged log) (hdistinct : (layers.map Layer.cell).Nodup)
    (hagrees : ∀ i ∈ layers.map Layer.cell, Agrees holds w i) (k : Key) :
    ∃ r w', (bottom.stacked layers).get k w = (.ok r, w') ∧
      Left holds (layers.map Layer.cell) w w' ∧ holds w' = holds w ∧
      Answered holds log (layers.map Layer.cell) k r w w' := by
  induction layers generalizing w with
  | nil =>
    obtain ⟨r, w', hget, hcells, hholds, hanswer⟩ := hm.get k w
    refine ⟨r, w', hget, ⟨nofun, fun i _ => ?_⟩, hholds, ?_, ?_⟩
    · rw [hcells]
      exact .refl _
    · rintro x rfl
      rw [hholds]
      exact ⟨hanswer x rfl, .inr (hlogged.get hget)⟩
    · rintro e rfl
      exact ⟨hlogged.get hget, nofun⟩
  | cons l layers ih =>
    rw [List.map_cons, List.nodup_cons] at hdistinct
    exact get_atop hseparate hdistinct.1 hagrees fun h => ih hdistinct.2 h

theorem stacked_write (hm : bottom.IsMap holds) (hseparate : Separate holds)
    (hlogged : bottom.Logged log) (hdistinct : (layers.map Layer.cell).Nodup)
    (hagrees : ∀ i ∈ layers.map Layer.cell, Agrees holds w i) (wr : Write Value) :
    ∃ r w', wr.on (bottom.stacked layers) w = (.ok r, w') ∧
      Left holds (layers.map Layer.cell) w w' ∧ wr.Took (holds w) (holds w') r ∧
      log w'.scene = log w.scene ++ [.write wr r] := by
  induction layers generalizing w with
  | nil =>
    obtain ⟨r, w', hwrite, hcells, htook⟩ := hm.write wr w
    refine ⟨r, w', hwrite, ⟨nofun, fun i _ => ?_⟩, htook, hlogged.write hwrite⟩
    rw [hcells]
    exact .refl _
  | cons l layers ih =>
    rw [List.map_cons, List.nodup_cons] at hdistinct
    exact write_atop hseparate hdistinct.1 hagrees fun h => ih hdistinct.2 h

end Stacked

end Store

/-! ## Calls of a stack, one after the other -/

/-- What is done with a stack. -/
inductive Demand where
  | get (key : Key)
  /-- A put or a removal. -/
  | write (w : Write Value)
  /-- A memory loses its entries between two calls. -/
  | lose (loss : Loss)

namespace Demand

/-- Does what is demanded, whatever comes of it. -/
def act (store : Store σ) : Demand → Act σ Unit
  | .get k => do
    let _ ← store.get k
  | .write w => do
    let _ ← w.on store
  | .lose loss => loss.act

/-- Does what is demanded, one after the other. -/
def all (store : Store σ) : List Demand → Act σ Unit
  | [] => pure ()
  | demand :: more => do
    demand.act store
    all store more

end Demand

namespace Store

variable {bottom : Store σ} {holds : World σ → Identity → Option Value} {log : σ → List Asked}
  {layers : List (Layer σ)} {w : World σ}

theorem stacked_demand (hm : bottom.IsMap holds) (hseparate : Separate holds)
    (hlogged : bottom.Logged log) (hdistinct : (layers.map Layer.cell).Nodup)
    (hagrees : ∀ i ∈ layers.map Layer.cell, Agrees holds w i) (demand : Demand) :
    ∃ w', demand.act (bottom.stacked layers) w = (.ok (), w') ∧
      ∀ i ∈ layers.map Layer.cell, Agrees holds w' i := by
  cases demand with
  | get k =>
    obtain ⟨r, w', hget, hleft, -⟩ := stacked_get hm hseparate hlogged hdistinct hagrees k
    exact ⟨w', Act.bind_ok _ hget, hleft.agrees⟩
  | write wr =>
    obtain ⟨r, w', hwrite, hleft, -⟩ := stacked_write hm hseparate hlogged hdistinct hagrees wr
    exact ⟨w', Act.bind_ok _ hwrite, hleft.agrees⟩
  | lose loss =>
    obtain ⟨w', hloss, hlost⟩ := loss.act_ok w
    exact ⟨w', hloss, fun i hi => (hagrees i hi).lost (hlost.cells i) (hseparate hlost.aside)⟩

theorem stacked_demands (hm : bottom.IsMap holds) (hseparate : Separate holds)
    (hlogged : bottom.Logged log) (hdistinct : (layers.map Layer.cell).Nodup)
    (hagrees : ∀ i ∈ layers.map Layer.cell, Agrees holds w i) (demands : List Demand) :
    ∃ w', Demand.all (bottom.stacked layers) demands w = (.ok (), w') ∧
      ∀ i ∈ layers.map Layer.cell, Agrees holds w' i := by
  induction demands generalizing w with
  | nil => exact ⟨w, rfl, hagrees⟩
  | cons demand more ih =>
    obtain ⟨w₁, hdemand, hagrees₁⟩ :=
      stacked_demand hm hseparate hlogged hdistinct hagrees demand
    obtain ⟨w₂, hmore, hagrees₂⟩ := ih hagrees₁
    rw [Demand.all, Act.bind_ok _ hdemand]
    exact ⟨w₂, hmore, hagrees₂⟩

/-- After any calls and losses the memories of a stack agree with its bottom store, and the next
call keeps it so. A write makes one call of the bottom, with the same result. A get that ends well
gives what the bottom holds, and a get that fails gives the failure of the one call of the bottom
and leaves no entry of its key in any layer. -/
theorem stacked_answers_as_the_bottom (hm : bottom.IsMap holds) (hseparate : Separate holds)
    (hlogged : bottom.Logged log) (hdistinct : (layers.map Layer.cell).Nodup)
    (hagrees : ∀ i ∈ layers.map Layer.cell, Agrees holds w i) (demands : List Demand) :
    ∃ w', Demand.all (bottom.stacked layers) demands w = (.ok (), w') ∧
      (∀ i ∈ layers.map Layer.cell, Agrees holds w' i) ∧
      (∀ wr : Write Value, ∃ r w'', wr.on (bottom.stacked layers) w' = (.ok r, w'') ∧
        log w''.scene = log w'.scene ++ [.write wr r] ∧
        wr.Took (holds w') (holds w'') r ∧
        ∀ i ∈ layers.map Layer.cell, Agrees holds w'' i) ∧
      ∀ k, ∃ r w'', (bottom.stacked layers).get k w' = (.ok r, w'') ∧
        holds w'' = holds w' ∧
        (∀ x, r = .ok x → x = holds w'' k.identity ∧
          (log w''.scene = log w'.scene ∨ log w''.scene = log w'.scene ++ [.get k (.ok x)])) ∧
        (∀ e, r = .error e → log w''.scene = log w'.scene ++ [.get k (.error e)] ∧
          ∀ i ∈ layers.map Layer.cell, (w''.cells.get i).cache.get? k = none) ∧
        ∀ i ∈ layers.map Layer.cell, Agrees holds w'' i := by
  obtain ⟨w', hdone, hagrees'⟩ :=
    stacked_demands hm hseparate hlogged hdistinct hagrees demands
  refine ⟨w', hdone, hagrees', ?_, ?_⟩
  · intro wr
    obtain ⟨r, w'', hwrite, hleft, htook, hlog⟩ :=
      stacked_write hm hseparate hlogged hdistinct hagrees' wr
    exact ⟨r, w'', hwrite, hlog, htook, hleft.agrees⟩
  · intro k
    obtain ⟨r, w'', hget, hleft, hholds, hanswered⟩ :=
      stacked_get hm hseparate hlogged hdistinct hagrees' k
    exact ⟨r, w'', hget, hholds, hanswered.ok, hanswered.error, hleft.agrees⟩

/-! ## A stack over a table that fails -/

/-- Three memories. The one in the middle is cleared while the top asks below, and the top is
invalidated while the last one has its answer on the way up. -/
def threeLayers : List (Layer (Unit × List Asked)) :=
  [⟨0, fun _ => [.clear 1], fun _ => []⟩, .quiet 1, ⟨2, fun _ => [], fun _ => [.invalidate 0]⟩]

/-- A world with three memories and an empty table. -/
def threeWorld : World (Unit × List Asked) :=
  let cell : Cell := ⟨Path.ofString "d", 0, .u8, false, .fresh none⟩
  { World.initial ((), []) with
    cells := ((Pool.empty.add cell).add cell).add cell
    tables := Pool.empty.add .empty }

/-- A put, lookups, a loss, a lookup that fails and a put that fails. -/
def mixedDemands : List Demand :=
  [.write ⟨.integer 7, some (.u8 1)⟩, .get (.integer 7), .lose (.clear 0), .get (.integer 7),
    .get (.integer 8), .write ⟨.integer 8, some (.u8 2)⟩]

/-- The stack ends with its memories in agreement; it answers with what was put, and with the
failures of the table in their own words, and a failing removal is one call of the table. -/
theorem three_layers_answer :
    ∃ w', Demand.all (fragile.stacked threeLayers) mixedDemands threeWorld = (.ok (), w') ∧
      (∀ i ∈ threeLayers.map Layer.cell, Agrees (fun w => (w.tables.get 0).get?) w' i) ∧
      ((fragile.stacked threeLayers).get (.integer 7) w').1 = .ok (.ok (some (.u8 1))) ∧
      ((fragile.stacked threeLayers).get (.integer 8) w').1 =
        .ok (.error (.raised "unreadable")) ∧
      ∃ w'', Write.on ⟨.integer 8, none⟩ (fragile.stacked threeLayers) w' =
          (.ok (.error (.raised "unsure")), w'') ∧
        w''.scene.2 = w'.scene.2 ++ [.write ⟨.integer 8, none⟩ (.error (.raised "unsure"))] := by
  have hidle : ∀ i ∈ threeLayers.map Layer.cell,
      Agrees (fun w => (w.tables.get 0).get?) threeWorld i := by
    intro i hi
    have hcell : (threeWorld.cells.get i).writing = false ∧
        (threeWorld.cells.get i).cache.entries = .empty := by
      simp only [threeLayers, Layer.quiet, List.map_cons, List.map_nil, List.mem_cons,
        List.not_mem_nil, or_false] at hi
      rcases hi with rfl | rfl | rfl <;> exact ⟨rfl, rfl⟩
    refine ⟨hcell.1, fun {k e} he => ?_⟩
    rw [Cache.get?, hcell.2] at he
    cases he
  have hseparate : Separate fun w : World (Unit × List Asked) => (w.tables.get 0).get? := by
    rintro w w' ⟨cells, markers, journal, rfl⟩
    rfl
  obtain ⟨w', hdone, hagrees, hwrite, -⟩ :=
    stacked_answers_as_the_bottom isMap_fragile hseparate logged_fragile (by decide) hidle
      mixedDemands
  have hread : ((Demand.all (fragile.stacked threeLayers) mixedDemands >>= fun _ =>
      (fragile.stacked threeLayers).get (.integer 7)) threeWorld).1 =
      .ok (.ok (some (.u8 1))) := by cbv
  have hunread : ((Demand.all (fragile.stacked threeLayers) mixedDemands >>= fun _ =>
      (fragile.stacked threeLayers).get (.integer 8)) threeWorld).1 =
      .ok (.error (.raised "unreadable")) := by cbv
  have hunsure : ((Demand.all (fragile.stacked threeLayers) mixedDemands >>= fun _ =>
      Write.on ⟨.integer 8, none⟩ (fragile.stacked threeLayers)) threeWorld).1 =
      .ok (.error (.raised "unsure")) := by cbv
  rw [Act.bind_ok _ hdone] at hread hunread hunsure
  obtain ⟨r, w'', hremoved, hlog, -⟩ := hwrite ⟨.integer 8, none⟩
  rw [hremoved] at hunsure
  cases hunsure
  exact ⟨w', hdone, hagrees, hread, hunread, w'', hremoved, hlog⟩

end Store

end LeaseCache
