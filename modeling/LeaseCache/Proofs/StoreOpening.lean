import LeaseCache.Cabinet
import LeaseCache.Proofs.RegistrySpec
import Mathlib.Logic.Function.Iterate

/-!
# What opening a store makes of the registries

A store is opened through cabinets with memory around a plain one, and each of them has a registry
of its own. Its file is joined with the base directory once, and every layer keeps its memory under
that path (`Served`). An opening fails at the bottom or at one layer, whose registry and all those
around it stay as they are (`Reply`). Over any openings, and whatever else happens between them,
two of them are answered with the same memories if and only if their paths name one place
(`Openings.resolve_once_and_share_by_place`).
-/

namespace LeaseCache

variable {σ : Type} {w w' w'' : World σ} {i j m n : Nat} {path handle : Path} {type : ValueType}

/-! ## Registries that only grow -/

namespace World

/-- The world with one more marker. -/
def watching (w : World σ) (kind : MarkerKind) : World σ :=
  { w with markers := w.markers.add ⟨kind, 0⟩ }

/-- What the marker of a memory looks at. -/
def watched (w : World σ) (n : Nat) : MarkerKind := (w.markers.get (w.cells.get n).marker).kind

/-- Between two worlds memories and markers were only added. -/
structure Extends (w w' : World σ) : Prop where
  cellsNext : w.cells.next ≤ w'.cells.next
  markersNext : w.markers.next ≤ w'.markers.next
  cells : ∀ n < w.cells.next, w'.cells.get n = w.cells.get n
  kinds : ∀ m < w.markers.next, (w'.markers.get m).kind = (w.markers.get m).kind
  leases : w'.leases = w.leases

namespace Extends

theorem of_same (hcells : w'.cells = w.cells) (hmarkers : w'.markers = w.markers)
    (hleases : w'.leases = w.leases) : w.Extends w' where
  cellsNext := Nat.le_of_eq (congrArg Pool.next hcells).symm
  markersNext := Nat.le_of_eq (congrArg Pool.next hmarkers).symm
  cells _ _ := by rw [hcells]
  kinds _ _ := by rw [hmarkers]
  leases := hleases

theorem refl (w : World σ) : w.Extends w := of_same rfl rfl rfl

theorem trans (h : w.Extends w') (h' : w'.Extends w'') : w.Extends w'' where
  cellsNext := Nat.le_trans h.cellsNext h'.cellsNext
  markersNext := Nat.le_trans h.markersNext h'.markersNext
  cells n hn := (h'.cells n (Nat.lt_of_lt_of_le hn h.cellsNext)).trans (h.cells n hn)
  kinds m hm := (h'.kinds m (Nat.lt_of_lt_of_le hm h.markersNext)).trans (h.kinds m hm)
  leases := h'.leases.trans h.leases

/-- A new marker is made, and a new memory with it is put into a registry. -/
theorem register (w : World σ) (kind : MarkerKind) (i : Nat) (handle : Path) (type : ValueType) :
    w.Extends ((w.watching kind).register i handle type w.markers.next) where
  cellsNext := Nat.le_succ _
  markersNext := Nat.le_succ _
  cells n hn := (Pool.get_add _ _ _).trans (if_neg (Nat.ne_of_lt hn))
  kinds m hm := by
    refine (kind_countRead _ _ m).trans (congrArg Marker.kind ?_)
    exact (Pool.get_add _ _ _).trans (if_neg (Nat.ne_of_lt hm))
  leases := rfl

end Extends

end World

namespace Registry

/-- Each memory of a registry is there, with a marker, and stands under the place of its handle. -/
structure Filed (i : Nat) (w : World σ) : Prop where
  old : ∀ {p n}, (w.registries.get i).cell? p = some n → n < w.cells.next
  marked : ∀ {p n}, (w.registries.get i).cell? p = some n →
    (w.cells.get n).marker < w.markers.next
  place : ∀ {p n}, (w.registries.get i).cell? p = some n → (w.cells.get n).handle.Same p

/-- Between two worlds a registry kept its memories as what they are, and may have got more. What
they hold may have changed. -/
structure Grows (i : Nat) (w w' : World σ) : Prop where
  filed : Filed i w'
  kept : ∀ {p n}, (w.registries.get i).cell? p = some n → (w'.registries.get i).cell? p = some n
  handle : ∀ {p n}, (w.registries.get i).cell? p = some n →
    (w'.cells.get n).handle = (w.cells.get n).handle
  type : ∀ {p n}, (w.registries.get i).cell? p = some n →
    (w'.cells.get n).type = (w.cells.get n).type
  watched : ∀ {p n}, (w.registries.get i).cell? p = some n → w'.watched n = w.watched n

theorem Grows.trans (h : Grows i w w') (h' : Grows i w' w'') : Grows i w w'' where
  filed := h'.filed
  kept hp := h'.kept (h.kept hp)
  handle hp := (h'.handle (h.kept hp)).trans (h.handle hp)
  type hp := (h'.type (h.kept hp)).trans (h.type hp)
  watched hp := (h'.watched (h.kept hp)).trans (h.watched hp)

theorem filed_of_empty (h : (w.registries.get i).cells = .empty) : Filed i w := by
  have hnone : ∀ p, (w.registries.get i).cell? p = none := fun p => by rw [cell?, h]; rfl
  constructor <;> (intro p n hp; rw [hnone] at hp; cases hp)

/-- A memory stands under one place only. -/
theorem Filed.same_of_cell (h : Filed i w) {p q : Path}
    (hp : (w.registries.get i).cell? p = some n) (hq : (w.registries.get i).cell? q = some n) :
    p.Same q :=
  (h.place hp).symm.trans (h.place hq)

theorem cell?_congr (r : Registry) {p q : Path} (h : p.Same q) : r.cell? p = r.cell? q :=
  congrArg r.cells.get? h

namespace Filed

theorem watched_of_extends (h : Filed i w) (he : w.Extends w') {p : Path}
    (hp : (w.registries.get i).cell? p = some n) : w'.watched n = w.watched n := by
  rw [World.watched, he.cells n (h.old hp), he.kinds _ (h.marked hp)]
  rfl

theorem grows (h : Filed i w) (he : w.Extends w') (h' : Filed i w')
    (hkept : ∀ {p n}, (w.registries.get i).cell? p = some n →
      (w'.registries.get i).cell? p = some n) : Grows i w w' where
  filed := h'
  kept := hkept
  handle hp := by rw [he.cells _ (h.old hp)]
  type hp := by rw [he.cells _ (h.old hp)]
  watched := h.watched_of_extends he

/-- A registry that is left alone stays filed while others get more. -/
theorem of_unchanged (h : Filed i w) (he : w.Extends w')
    (hregistry : w'.registries.get i = w.registries.get i) : Filed i w' where
  old hp := Nat.lt_of_lt_of_le (h.old (hregistry ▸ hp)) he.cellsNext
  marked hp := by
    rw [hregistry] at hp
    rw [he.cells _ (h.old hp)]
    exact Nat.lt_of_lt_of_le (h.marked hp) he.markersNext
  place hp := by
    rw [hregistry] at hp
    rw [he.cells _ (h.old hp)]
    exact h.place hp

theorem grows_of_unchanged (h : Filed i w) (he : w.Extends w')
    (hregistry : w'.registries.get i = w.registries.get i) : Grows i w w' :=
  h.grows he (h.of_unchanged he hregistry) fun hp => by rw [hregistry]; exact hp

end Filed

theorem cell?_register (w : World σ) (i : Nat) (handle : Path) (type : ValueType) (m : Nat)
    (p : Path) : ((w.register i handle type m).registries.get i).cell? p =
      if p.components = handle.components then some w.cells.next
      else (w.registries.get i).cell? p := by
  rw [World.register, Pool.get_modify, if_pos rfl]
  exact Table.get?_insert _ _ _ _

/-- A registry that gets a new memory for a place that had none stays filed. -/
theorem Filed.register (h : Filed i w) (hm : m < w.markers.next) (handle : Path)
    (type : ValueType) : Filed i (w.register i handle type m) := by
  have hcells : ∀ n, (w.register i handle type m).cells.get n =
      if n = w.cells.next then ⟨handle, m, type, false, .fresh (w.signal m).toOption⟩
      else w.cells.get n :=
    fun n => Pool.get_add _ _ _
  have hcases : ∀ {p n}, ((w.register i handle type m).registries.get i).cell? p = some n →
      (p.components = handle.components ∧ n = w.cells.next) ∨
        (w.registries.get i).cell? p = some n := by
    intro p n hp
    rw [cell?_register] at hp
    split at hp
    · next hplace => exact .inl ⟨hplace, (Option.some.inj hp).symm⟩
    · exact .inr hp
  constructor
  all_goals
    intro p n hp
    obtain ⟨hplace, rfl⟩ | hold := hcases hp
  · exact Nat.lt_succ_self _
  · exact Nat.lt_succ_of_lt (h.old hold)
  · rw [hcells, if_pos rfl]
    exact hm
  · rw [hcells, if_neg (Nat.ne_of_lt (h.old hold))]
    exact h.marked hold
  · rw [hcells, if_pos rfl]
    exact hplace.symm
  · rw [hcells, if_neg (Nat.ne_of_lt (h.old hold))]
    exact h.place hold

end Registry

open Registry (Filed Grows)

/-! ## One layer -/

/-- Between two worlds the registry of a layer was asked for the memory of a path, and answered with
the one under a number. It had it already, and nothing was changed, or it had none for the place:
then the handle of the memory is spelled like the path, and its marker looks at the path. -/
structure Served (path : Path) (type : ValueType) (w w' : World σ) (i n : Nat) : Prop where
  registered : (w'.registries.get i).cell? path = some n
  same : (w'.cells.get n).handle.Same path
  type : (w'.cells.get n).type = type
  known : ∀ {n'}, (w.registries.get i).cell? path = some n' →
    n' = n ∧ w'.registries.get i = w.registries.get i ∧ w'.cells.get n = w.cells.get n
  first : (w.registries.get i).cell? path = none →
    (w'.cells.get n).handle = path ∧ w'.watched n = .file path

namespace Served

/-- What other registries get afterwards changes nothing about it. -/
theorem before (h : Served path type w w' i n) (hf : Filed i w') (he : w'.Extends w'')
    (hregistry : w''.registries.get i = w'.registries.get i) : Served path type w w'' i n := by
  have hcell := he.cells n (hf.old h.registered)
  refine ⟨by rw [hregistry, h.registered], by rw [hcell]; exact h.same, by rw [hcell, h.type],
    fun hknown => ?_, fun hfirst => ?_⟩
  · obtain ⟨rfl, hsame, hsameCell⟩ := h.known hknown
    exact ⟨rfl, hregistry.trans hsame, hcell.trans hsameCell⟩
  · rw [hcell, hf.watched_of_extends he h.registered]
    exact h.first hfirst

/-- Nor does what they got before. -/
theorem after (h : Served path type w' w'' i n) (hf : Filed i w) (he : w.Extends w')
    (hregistry : w'.registries.get i = w.registries.get i) : Served path type w w'' i n := by
  refine ⟨h.registered, h.same, h.type, fun hknown => ?_, fun hfirst => ?_⟩
  · obtain ⟨rfl, hsame, hsameCell⟩ := h.known (by rw [hregistry]; exact hknown)
    exact ⟨rfl, hsame.trans hregistry, hsameCell.trans (he.cells _ (hf.old hknown))⟩
  · exact h.first (by rw [hregistry]; exact hfirst)

theorem exists_of_mem {is memories : List Nat}
    (h : List.Forall₂ (Served path type w w') is memories) (hi : i ∈ is) :
    ∃ n, Served path type w w' i n := by
  obtain ⟨k, rfl⟩ := List.mem_iff_get.1 hi
  exact ⟨_, h.get k.2 (h.length_eq ▸ k.2)⟩

end Served

/-- The world in which a layer has set up a memory for a path, with a marker that looks there. -/
def World.serve (w : World σ) (i : Nat) (path : Path) (type : ValueType) : World σ :=
  (w.watching (.file path)).register i path type w.markers.next

namespace Registry

theorem acquire_of_new (h : (w.registries.get i).cell? path = none) (type : ValueType) :
    acquire i path type (Marker.new (.file path)) w =
      (.ok (.ok w.cells.next), w.serve i path type) := by
  have hmake : Marker.new (.file path) w = (.ok w.markers.next, w.watching (.file path)) := rfl
  exact acquire_of_made h type hmake

theorem get_serve (w : World σ) (i n : Nat) (path : Path) (type : ValueType) :
    (w.serve i path type).cells.get n = if n = w.cells.next then
      ⟨path, w.markers.next, type, false,
        .fresh ((w.watching (.file path)).signal w.markers.next).toOption⟩
    else w.cells.get n :=
  Pool.get_add _ _ _

theorem watched_serve (w : World σ) (i : Nat) (path : Path) (type : ValueType) :
    (w.serve i path type).watched w.cells.next = .file path := by
  rw [World.watched, get_serve, if_pos rfl]
  have hmarker : (w.watching (.file path)).markers.get w.markers.next = ⟨.file path, 0⟩ :=
    (Pool.get_add _ _ _).trans (if_pos rfl)
  exact (World.kind_countRead _ _ _).trans (congrArg Marker.kind hmarker)

theorem cell?_serve (w : World σ) (i : Nat) (path p : Path) (type : ValueType) :
    ((w.serve i path type).registries.get i).cell? p =
      if p.components = path.components then some w.cells.next
      else (w.registries.get i).cell? p :=
  cell?_register _ _ _ _ _ _

theorem Filed.serve (h : Filed i w) (path : Path) (type : ValueType) :
    Filed i (w.serve i path type) := by
  have hmarked : Filed i (w.watching (.file path)) :=
    ⟨h.old, fun hp => Nat.lt_succ_of_lt (h.marked hp), h.place⟩
  exact hmarked.register (Nat.lt_succ_self _) path type

theorem served_of_new (h : (w.registries.get i).cell? path = none) (type : ValueType) :
    Served path type w (w.serve i path type) i w.cells.next where
  registered := by rw [cell?_serve, if_pos rfl]
  same := by
    rw [get_serve, if_pos rfl]
    exact .refl path
  type := by rw [get_serve, if_pos rfl]
  known hknown := by
    rw [h] at hknown
    cases hknown
  first _ := by
    rw [get_serve, if_pos rfl]
    exact ⟨rfl, watched_serve w i path type⟩

theorem served_of_known (hf : Filed i w) (h : (w.registries.get i).cell? path = some n) :
    Served path (w.cells.get n).type w w i n where
  registered := h
  same := hf.place h
  type := rfl
  known hknown := ⟨Option.some.inj (hknown.symm.trans h), rfl, rfl⟩
  first hfirst := by
    rw [h] at hfirst
    cases hfirst

/-- A layer answers with the memory of the path, or refuses it for the type, and then nothing has
happened. -/
theorem acquire_serves (hf : Filed i w) (path : Path) (type : ValueType) :
    ∃ answer w', acquire i path type (Marker.new (.file path)) w = (.ok answer, w') ∧
      w.Extends w' ∧ (∀ j ≠ i, w'.registries.get j = w.registries.get j) ∧ Grows i w w' ∧
      ((∃ n, answer = .ok n ∧ Served path type w w' i n) ∨
        (∃ n, answer = .error (.valueTypeMismatch path type) ∧ w' = w ∧
          (w.registries.get i).cell? path = some n ∧ (w.cells.get n).type ≠ type)) := by
  cases hcell : (w.registries.get i).cell? path with
  | some n =>
    refine ⟨_, w, acquire_of_registered hcell type _, .refl w, fun _ _ => rfl,
      hf.grows_of_unchanged (.refl w) rfl, ?_⟩
    by_cases htype : (w.cells.get n).type = type
    · rw [if_pos htype, ← htype]
      exact .inl ⟨n, rfl, served_of_known hf hcell⟩
    · rw [if_neg htype]
      exact .inr ⟨n, rfl, rfl, rfl, htype⟩
  | none =>
    have hextends : w.Extends (w.serve i path type) := .register w (.file path) i path type
    have hothers : ∀ j ≠ i, (w.serve i path type).registries.get j = w.registries.get j :=
      fun j hj => (Pool.get_modify _ _ _ _).trans (if_neg hj)
    have hkept : ∀ {p n}, (w.registries.get i).cell? p = some n →
        ((w.serve i path type).registries.get i).cell? p = some n := by
      intro p n hp
      rw [cell?_serve, if_neg]
      · exact hp
      · intro hplace
        rw [cell?_congr _ hplace, hcell] at hp
        cases hp
    exact ⟨_, _, acquire_of_new hcell type, hextends, hothers,
      hf.grows hextends (hf.serve path type) hkept, .inl ⟨_, rfl, served_of_new hcell type⟩⟩

end Registry

/-! ## All layers -/

namespace Cabinet

/-- Cabinets with memory around a plain cabinet, the outermost first, each with its lease and the
hint for the size of its tables. None has a master store. -/
def layered (base : Path) (format : Format) : List (Nat × UInt64) → Cabinet
  | [] => .plain base format
  | (lease, capacity) :: inner => .remembering (layered base format inner) lease ⟨none, capacity⟩

/-- The registries of the layers, the outermost first. -/
def registries (w : World σ) (layers : List (Nat × UInt64)) : List Nat :=
  layers.map fun layer => (w.leases.get layer.1).registry

theorem base_layered (base : Path) (format : Format) (layers : List (Nat × UInt64)) :
    (layered base format layers).base = base := by
  induction layers with
  | nil => rfl
  | cons layer inner ih => exact ih

end Cabinet

/-- The memories of an open store, the outermost first. -/
def OpenStore.memories : OpenStore → List Nat
  | .folder _ => []
  | .facade inner cell => cell :: inner.memories

/-- A failure that is one of opening the store at a path, or of the type of its values. -/
def Failure.Names (path : Path) : Failure → Prop
  | .createStore handle _ => handle = path
  | .valueTypeMismatch handle _ => handle = path
  | _ => False

/-- What can come of opening the store at a path through layers with the registries `is`. -/
inductive Reply (path : Path) (format : Format) (type : ValueType) (w w' : World σ)
    (is : List Nat) : Except Failure OpenStore → Prop
  /-- The store is opened, and every layer serves it with the memory of the path. -/
  | opened {store : OpenStore} : store.bottom = ⟨path, format, type⟩ →
    List.Forall₂ (Served path type w w') is store.memories →
    Reply path format type w w' is (.ok store)
  /-- The directory cannot be opened. All layers report the path, and keep their registries. -/
  | notOpened (e : FileError) : (∀ i ∈ is, w'.registries.get i = w.registries.get i) →
    Reply path format type w w' is
      (.error ((Failure.createStore path)^[is.length] (.store (.file e))))
  /-- One layer has a memory of another type for the path. Its registry and those around it stay as
  they are; those below have served the path. -/
  | refused (outer : List Nat) {inner i n memories} : is = outer ++ i :: inner →
    (w.registries.get i).cell? path = some n → (w.cells.get n).type ≠ type →
    (∀ j ∈ outer ++ [i], w'.registries.get j = w.registries.get j) →
    List.Forall₂ (Served path type w w') inner memories →
    Reply path format type w w' is
      (.error ((Failure.createStore path)^[outer.length] (.valueTypeMismatch path type)))

namespace Reply

variable {format : Format} {is : List Nat} {store : OpenStore} {e : Failure}

/-- A failure below is reported with the path, and the registry stays as it is. -/
theorem wrap (h : Reply path format type w w' is (.error e))
    (hsame : w'.registries.get i = w.registries.get i) :
    Reply path format type w w' (i :: is) (.error (.createStore path e)) := by
  cases h with
  | notOpened e hunchanged =>
    have hreply : Reply path format type w w' (i :: is) _ :=
      .notOpened e (List.forall_mem_cons.2 ⟨hsame, hunchanged⟩)
    rwa [List.length_cons, Function.iterate_succ_apply'] at hreply
  | @refused outer inner j n memories his hcell htype hunchanged hserved =>
    have hreply : Reply path format type w w' (i :: is) _ :=
      .refused (i :: outer) (congrArg (i :: ·) his) hcell htype
        (List.forall_mem_cons.2 ⟨hsame, hunchanged⟩) hserved
    rwa [List.length_cons, Function.iterate_succ_apply'] at hreply

/-- The memories below served the path, and go on doing so when other registries get more. -/
theorem served_below (h : Reply path format type w w' is (.ok store))
    (hgrows : ∀ j ∈ is, Grows j w w') (he : w'.Extends w'')
    (hsame : ∀ j ∈ is, w''.registries.get j = w'.registries.get j) :
    store.bottom = ⟨path, format, type⟩ ∧
      List.Forall₂ (Served path type w w'') is store.memories := by
  cases h with
  | opened hbottom hserved =>
    refine ⟨hbottom, ?_⟩
    rw [List.forall₂_iff_zip] at hserved ⊢
    refine ⟨hserved.1, fun {j n} hjn => ?_⟩
    have hj := (List.of_mem_zip hjn).1
    exact (hserved.2 hjn).before (hgrows j hj).filed he (hsame j hj)

theorem names (h : Reply path format type w w' is (.error e)) (his : is ≠ []) : e.Names path := by
  cases h with
  | notOpened e _ =>
    obtain ⟨i, inner, rfl⟩ := List.exists_cons_of_ne_nil his
    rw [List.length_cons, Function.iterate_succ_apply']
    exact rfl
  | refused outer _ _ _ _ _ =>
    cases outer with
    | nil => exact rfl
    | cons i outer =>
      rw [List.length_cons, Function.iterate_succ_apply']
      exact rfl

end Reply

namespace Cabinet

variable {base file : Path} {format : Format} {layers : List (Nat × UInt64)}

theorem openStore_plain (base file : Path) (format : Format) (type : ValueType) (w : World σ) :
    ∃ answer files, openStore type file (.plain base format) w =
        (.ok answer, { w with files := files }) ∧
      (Disk.makeDirectories (base.join file) w.files).2 = files ∧
      (answer = .ok (.folder ⟨base.join file, format, type⟩) ∨
        ∃ e, answer = .error (.store (.file e))) := by
  let folder : EntryFolder := ⟨base.join file, format, type⟩
  obtain ⟨r, files, hcreate⟩ : ∃ r files, folder.create w.files = (r, files) := ⟨_, _, rfl⟩
  have hdisk : Act.disk folder.create w = (.ok r, { w with files := files }) := by
    rw [Act.disk, hcreate]
  have hmade : (Disk.makeDirectories (base.join file) w.files).2 = files :=
    congrArg Prod.snd hcreate
  rw [openStore, Act.bind_ok _ hdisk]
  cases r with
  | ok => exact ⟨_, files, rfl, hmade, .inl rfl⟩
  | error e => exact ⟨_, files, rfl, hmade, .inr ⟨e, rfl⟩⟩

theorem openStore_of_failed {target : Cabinet} {e : Failure}
    (h : target.openStore type file w = (.ok (.error e), w')) (lease : Nat) (settings : Settings) :
    openStore type file (.remembering target lease settings) w =
      (.ok (.error (.createStore (target.storePath file) e)), w') := by
  rw [openStore, Act.bind_ok _ h]
  rfl

theorem openStore_of_acquire {target : Cabinet} {store : OpenStore} {lease : Nat}
    {settings : Settings} {answer : Except Failure Nat}
    (h : target.openStore type file w = (.ok (.ok store), w'))
    (hacquire : Registry.acquire (w'.leases.get lease).registry (target.storePath file) type
      (Marker.new (target.markerKind settings (target.storePath file))) w' = (.ok answer, w'')) :
    openStore type file (.remembering target lease settings) w =
      (.ok (answer.map (.facade store)), w'') := by
  rw [openStore, Act.bind_ok _ h]
  dsimp only
  rw [Act.bind_ok _ (show Act.look _ w' = (.ok (w'.leases.get lease), w') from rfl),
    Act.bind_ok _ hacquire]
  cases answer <;> rfl

/-- A store is opened through any layers as `Reply` says, and nothing else happens to memories and
registries. -/
theorem openStore_layered (base : Path) (format : Format) (type : ValueType) (file : Path)
    {layers : List (Nat × UInt64)} {w : World σ} (hnodup : (registries w layers).Nodup)
    (hfiled : ∀ i ∈ registries w layers, Filed i w) :
    ∃ answer w', (layered base format layers).openStore type file w = (.ok answer, w') ∧
      w.Extends w' ∧ (∀ j ∉ registries w layers, w'.registries.get j = w.registries.get j) ∧
      (∀ i ∈ registries w layers, Grows i w w') ∧
      Reply (base.join file) format type w w' (registries w layers) answer := by
  induction layers with
  | nil =>
    obtain ⟨answer, files, hopen, -, hanswer⟩ := openStore_plain base file format type w
    refine ⟨answer, { w with files := files }, hopen, .of_same rfl rfl rfl, fun _ _ => rfl, nofun,
      ?_⟩
    rcases hanswer with rfl | ⟨e, rfl⟩
    · exact .opened rfl .nil
    · exact .notOpened e nofun
  | cons layer inner ih =>
    obtain ⟨lease, capacity⟩ := layer
    rw [show registries w ((lease, capacity) :: inner) =
      (w.leases.get lease).registry :: registries w inner from rfl] at hnodup hfiled ⊢
    obtain ⟨hnew, hnodup⟩ := List.nodup_cons.1 hnodup
    obtain ⟨hf, hfiled⟩ := List.forall_mem_cons.1 hfiled
    obtain ⟨answer, w₁, hopen, hextends, hothers, hgrows, hreply⟩ := ih hnodup hfiled
    have hpath : (layered base format inner).storePath file = base.join file := by
      rw [storePath, base_layered]
    have hlease : (w₁.leases.get lease).registry = (w.leases.get lease).registry := by
      rw [hextends.leases]
    generalize (w.leases.get lease).registry = i at hnew hf hlease
    -- the registry of this layer is none of those below
    have hsame := hothers i hnew
    have hf₁ := hf.of_unchanged hextends hsame
    have hothers' : ∀ j ∉ i :: registries w inner, w₁.registries.get j = w.registries.get j :=
      fun j hj => hothers j (List.not_mem_of_not_mem_cons hj)
    have hgrows' : ∀ j ∈ i :: registries w inner, Grows j w w₁ :=
      List.forall_mem_cons.2 ⟨hf.grows_of_unchanged hextends hsame, hgrows⟩
    cases answer with
    | error e =>
      have hfailed := openStore_of_failed hopen lease ⟨none, capacity⟩
      rw [hpath] at hfailed
      exact ⟨_, w₁, hfailed, hextends, hothers', hgrows', hreply.wrap hsame⟩
    | ok store =>
      obtain ⟨answer, w₂, hacquire, hextends₂, hothers₂, hgrows₂, hlayer⟩ :=
        Registry.acquire_serves hf₁ (base.join file) type
      have hopened : openStore type file (layered base format ((lease, capacity) :: inner)) w =
          (.ok (answer.map (.facade store)), w₂) := by
        refine openStore_of_acquire hopen ?_
        rw [hlease, hpath]
        exact hacquire
      rcases hlayer with ⟨n, rfl, hserved⟩ | ⟨n, rfl, rfl, hcell, htype⟩
      · have hne : ∀ j ∈ registries w inner, j ≠ i := fun j hj hji => hnew (hji ▸ hj)
        have hsame₂ : ∀ j ∈ registries w inner, w₂.registries.get j = w₁.registries.get j :=
          fun j hj => hothers₂ j (hne j hj)
        obtain ⟨hbottom, hbelow⟩ := hreply.served_below hgrows hextends₂ hsame₂
        refine ⟨_, w₂, hopened, hextends.trans hextends₂, ?_, ?_,
          .opened hbottom (.cons (hserved.after hf hextends hsame) hbelow)⟩
        · intro j hj
          rw [hothers₂ j (List.ne_of_not_mem_cons hj), hothers' j hj]
        · intro j hj
          rcases List.mem_cons.1 hj with rfl | hj
          · exact (hgrows' j List.mem_cons_self).trans hgrows₂
          · exact (hgrows j hj).trans
              ((hgrows j hj).filed.grows_of_unchanged hextends₂ (hsame₂ j hj))
      · obtain ⟨-, hbelow⟩ := hreply.served_below hgrows (.refl w₂) fun _ _ => rfl
        rw [hsame] at hcell
        have htype' : (w.cells.get n).type ≠ type := by
          rw [← hextends.cells n (hf.old hcell)]
          exact htype
        exact ⟨_, w₂, hopened, hextends, hothers', hgrows',
          .refused [] rfl hcell htype' (List.forall_mem_singleton.2 hsame) hbelow⟩

end Cabinet

/-! ## Openings one after another -/

/-- An opening of a store, and what came of it. -/
structure Opening where
  type : ValueType
  file : Path
  answer : Except Failure OpenStore

/-- Openings of stores through layers with registries of their own, the newest first, and the world
after them. The registries may have begun with memories, and beside the openings anything can happen
that leaves them their memories. -/
inductive Openings (base : Path) (format : Format) (layers : List (Nat × UInt64)) :
    List Opening → World σ → Prop
  | start {w : World σ} : (Cabinet.registries w layers).Nodup →
    (∀ i ∈ Cabinet.registries w layers, Filed i w) → Openings base format layers [] w
  | opened {log} {w w' : World σ} {type file answer} : Openings base format layers log w →
    (Cabinet.layered base format layers).openStore type file w = (.ok answer, w') →
    Openings base format layers (⟨type, file, answer⟩ :: log) w'
  | meanwhile {log} {w w' : World σ} : Openings base format layers log w →
    Cabinet.registries w' layers = Cabinet.registries w layers →
    (∀ i ∈ Cabinet.registries w layers, Grows i w w') → Openings base format layers log w'

namespace Openings

variable {base : Path} {format : Format} {layers : List (Nat × UInt64)} {log : List Opening}

/-- The registries are separate, their memories are filed, and each store that was opened has its
memories in them under its path. -/
structure Kept (base : Path) (is : List Nat) (log : List Opening) (w : World σ) : Prop where
  nodup : is.Nodup
  filed : ∀ i ∈ is, Filed i w
  held : ∀ o ∈ log, ∀ store, o.answer = .ok store →
    List.Forall₂ (fun i n => (w.registries.get i).cell? (base.join o.file) = some n) is
      store.memories

theorem Kept.grow {is : List Nat} (h : Kept base is log w) (hgrows : ∀ i ∈ is, Grows i w w') :
    Kept base is log w' where
  nodup := h.nodup
  filed i hi := (hgrows i hi).filed
  held o ho store hstore := by
    have hheld := h.held o ho store hstore
    rw [List.forall₂_iff_zip] at hheld ⊢
    exact ⟨hheld.1, fun {i n} hin => (hgrows i (List.of_mem_zip hin).1).kept (hheld.2 hin)⟩

theorem kept (h : Openings base format layers log w) :
    Kept base (Cabinet.registries w layers) log w := by
  induction h with
  | start hnodup hfiled => exact ⟨hnodup, hfiled, nofun⟩
  | @opened log w w' type file answer _ hopen ih =>
    obtain ⟨answer', w₁, hopen', hextends, -, hgrows, hreply⟩ :=
      Cabinet.openStore_layered base format type file ih.nodup ih.filed
    cases hopen.symm.trans hopen'
    have hleases : Cabinet.registries w' layers = Cabinet.registries w layers := by
      rw [Cabinet.registries, Cabinet.registries, hextends.leases]
    have hkept := ih.grow hgrows
    rw [hleases]
    refine ⟨hkept.nodup, hkept.filed, List.forall_mem_cons.2 ⟨fun store hstore => ?_, hkept.held⟩⟩
    dsimp only at hstore
    subst hstore
    cases hreply with
    | opened _ hserved => exact hserved.imp fun _ _ hs => hs.registered
  | meanwhile _ hsame hgrows ih =>
    rw [hsame]
    exact ih.grow hgrows

theorem shared_iff {is memories memories' : List Nat} {p p' : Path} (hfiled : ∀ i ∈ is, Filed i w)
    (h : List.Forall₂ (fun i n => (w.registries.get i).cell? p = some n) is memories)
    (h' : List.Forall₂ (fun i n => (w.registries.get i).cell? p' = some n) is memories') :
    List.Forall₂ (fun n n' => n = n' ↔ p.Same p') memories memories' := by
  induction h generalizing memories' with
  | nil =>
    cases h'
    exact .nil
  | @cons i n is memories hn _ ih =>
    cases h' with
    | cons hn' hmore' =>
      obtain ⟨hf, hfiled⟩ := List.forall_mem_cons.1 hfiled
      refine .cons ⟨?_, fun hsame => ?_⟩ (ih hfiled hmore')
      · rintro rfl
        exact hf.same_of_cell hn hn'
      · rw [Registry.cell?_congr _ hsame, hn'] at hn
        exact (Option.some.inj hn).symm

/-- A store is opened, or it is not, and the call ends. If it is, its directory is the file joined
once with the base directory, and each layer serves that path; the memories are those of an earlier
store that was opened if and only if the two paths name one place. A layer that has a memory of
another type for the place makes the call fail. What a failure of a layer names is the path; the
registry of the layer that fails and those around it stay as they were. -/
theorem resolve_once_and_share_by_place (h : Openings base format layers log w) (type : ValueType)
    (file : Path) :
    ∃ answer w', (Cabinet.layered base format layers).openStore type file w = (.ok answer, w') ∧
      Openings base format layers (⟨type, file, answer⟩ :: log) w' ∧
      Reply (base.join file) format type w w' (Cabinet.registries w layers) answer ∧
      (∀ store, answer = .ok store → ∀ o ∈ log, ∀ store', o.answer = .ok store' →
        List.Forall₂ (fun n n' => n = n' ↔ (base.join file).Same (base.join o.file))
          store.memories store'.memories) ∧
      (∀ i ∈ Cabinet.registries w layers, ∀ n,
        (w.registries.get i).cell? (base.join file) = some n → (w.cells.get n).type ≠ type →
          ∃ e, answer = .error e) ∧
      ∀ e, answer = .error e → layers ≠ [] → e.Names (base.join file) := by
  have hkept := h.kept
  obtain ⟨answer, w', hopen, hextends, -, hgrows, hreply⟩ :=
    Cabinet.openStore_layered base format type file hkept.nodup hkept.filed
  have hnow := hkept.grow hgrows
  refine ⟨answer, w', hopen, h.opened hopen, hreply, ?_, ?_, ?_⟩
  · intro store hstore o ho store' hstore'
    subst hstore
    cases hreply with
    | opened _ hserved =>
      exact shared_iff hnow.filed (hserved.imp fun _ _ hs => hs.registered)
        (hnow.held o ho store' hstore')
  · intro i hi n hcell htype
    cases hreply with
    | opened _ hserved =>
      obtain ⟨m, hm⟩ := Served.exists_of_mem hserved hi
      obtain ⟨rfl, -, hsame⟩ := hm.known hcell
      rw [← hsame] at htype
      exact absurd hm.type htype
    | notOpened => exact ⟨_, rfl⟩
    | refused => exact ⟨_, rfl⟩
  · intro e he hlayers
    subst he
    exact hreply.names fun h => hlayers (List.map_eq_nil_iff.1 h)

end Openings

/-- Two layers with registries of their own, the second around the first. -/
def twoLayers : World Unit :=
  let prepare : Act Unit Unit := do
    let inner ← Registry.new
    let _ ← Lease.new inner
    let outer ← Registry.new
    let _ ← Lease.new outer
  (prepare (World.initial ())).2

/-- Opens a store through the two layers, in a relative base directory. -/
def openLayered (type : ValueType) (file : String) : Act Unit (Except Failure OpenStore) :=
  (Cabinet.layered (Path.ofString "b") .json [(1, 0), (0, 0)]).openStore type (Path.ofString file)

/-- A store is opened, then opened with another spelling, and then asked for with values of another
type. -/
theorem two_layers_share_by_place :
    ∃ s t w₁ w₂ w₃, openLayered .u8 "s//t" twoLayers = (.ok (.ok s), w₁) ∧
      openLayered .u8 "s/./t" w₁ = (.ok (.ok t), w₂) ∧
      openLayered .string "s/t" w₂ = (.ok (.error (.createStore (Path.ofString "b/s/t")
        (.valueTypeMismatch (Path.ofString "b/s/t") .string))), w₃) ∧
      s.memories = [1, 0] ∧ w₁.watched 1 = .file (Path.ofString "b/s//t") ∧
      t.memories = s.memories := by
  have hstart : Openings (Path.ofString "b") .json [(1, 0), (0, 0)] [] twoLayers := by
    refine .start (by decide) fun i hi => Registry.filed_of_empty ?_
    rcases List.mem_pair.1 hi with rfl | rfl <;> rfl
  have hends : ∀ {x : Except Interruption (Except Failure OpenStore) × World Unit} {a},
      x.1 = a → x = (a, x.2) := fun h => Prod.ext h rfl
  have hopen₁ := hends (show (openLayered .u8 "s//t" twoLayers).1 = .ok (.ok
    (.facade (.facade (.folder ⟨Path.ofString "b/s//t", .json, .u8⟩) 0) 1)) from rfl)
  have hopen₂ := hends (show
    (openLayered .u8 "s/./t" (openLayered .u8 "s//t" twoLayers).2).1 = .ok (.ok
      (.facade (.facade (.folder ⟨Path.ofString "b/s/./t", .json, .u8⟩) 0) 1)) from rfl)
  have hopen₃ := hends (show
    (openLayered .string "s/t"
      (openLayered .u8 "s/./t" (openLayered .u8 "s//t" twoLayers).2).2).1 =
      .ok (.error (.createStore (Path.ofString "b/s/t")
        (.valueTypeMismatch (Path.ofString "b/s/t") .string))) from rfl)
  generalize (openLayered .string "s/t"
    (openLayered .u8 "s/./t" (openLayered .u8 "s//t" twoLayers).2).2).2 = w₃ at hopen₃
  generalize (openLayered .u8 "s/./t" (openLayered .u8 "s//t" twoLayers).2).2 = w₂ at hopen₂ hopen₃
  generalize (openLayered .u8 "s//t" twoLayers).2 = w₁ at hopen₁ hopen₂
  obtain ⟨answer, w, hopen, hfirst, hreply₁, -⟩ :=
    hstart.resolve_once_and_share_by_place .u8 (Path.ofString "s//t")
  cases hopen₁.symm.trans hopen
  obtain ⟨answer', w', hopen', -, -, hshared, -⟩ :=
    hfirst.resolve_once_and_share_by_place .u8 (Path.ofString "s/./t")
  cases hopen₂.symm.trans hopen'
  have hmarker : w₁.watched 1 = .file (Path.ofString "b/s//t") := by
    cases hreply₁ with
    | opened _ hserved =>
      cases hserved with
      | cons houter _ => exact (houter.first rfl).2
  have hmemories := hshared _ rfl _ List.mem_cons_self _ rfl
  have hsame : ((Path.ofString "b").join (Path.ofString "s/./t")).Same
      ((Path.ofString "b").join (Path.ofString "s//t")) := by decide
  refine ⟨_, _, w₁, w₂, w₃, hopen₁, hopen₂, hopen₃, rfl, hmarker, ?_⟩
  exact List.forall₂_eq_eq_eq ▸ hmemories.imp fun n n' h => h.2 hsame

end LeaseCache
