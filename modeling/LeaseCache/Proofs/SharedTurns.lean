import LeaseCache.Proofs.Baselines
import LeaseCache.Proofs.SharedFiles
import LeaseCache.Proofs.StoreOpening

/-!
# Turns under one marker

Processes that name a master store take turns in using the stores of one base directory, and the
master's directory is the marker of them all. A run of turns, with stores opened in between, is a
`Commons.Season`. While others have their turns, the memories of a process keep what they held when
its turn ended (`Commons.Away`); when the turn comes back, they keep it if the master's directory
can be read and was not modified meanwhile (`Commons.Since.isFresh_iff`). In its turn a process
answers rightly for the stores whose memories were right when it began (`Commons.Held`).
-/

namespace LeaseCache

open FileSystem (Leads ModifiedSince Elapsed SameEntries Proceeds checkPath)
open EntryFolder (Remembers)

variable {σ α : Type}

/-! ## Processes with a master store -/

/-- Processes, each told by its lease, that keep their stores in one base directory and have one
master store; and for each memory the folder it stands in front of, the directory of this folder,
and the keys that are used. -/
structure Commons where
  base : Path
  master : String
  processes : List Nat
  format : Nat → Format
  capacity : Nat → UInt64
  /-- The directory of the master store. -/
  hub : Location
  folder : Nat → EntryFolder
  place : Nat → Location
  keys : Nat → Key → Prop
  oneSpelling : ∀ c, (folder c).OneSpelling (keys c)

namespace Commons

/-- What is asked of the memory under a number. -/
structure Deed where
  cell : Nat
  request : Request

/-- A turn of a process, and the files when it began and when it ended. -/
structure Turn where
  process : Nat
  entered : FileSystem
  left : FileSystem

variable (s : Commons)

/-- The path of the master store. -/
def path : Path := s.base.join (Path.ofString s.master)

/-- The marker of every store. -/
def marker : MarkerKind := .file s.path

/-- The stores as a process sees them: a memory around a plain cabinet. -/
def cabinet (p : Nat) : Cabinet :=
  .remembering (.plain s.base (s.format p)) p ⟨some s.master, s.capacity p⟩

/-- Does what is asked. -/
def act (d : Deed) : Act σ Unit := d.request.act (s.folder d.cell).store d.cell

/-- Does what is asked, one after the other, until something is interrupted. -/
def acts : List Deed → Act σ Unit
  | [] => pure ()
  | d :: more => do
    s.act d
    acts more

/-- What is asked concerns memories of a process and keys in use. -/
def Permits (p : Nat) (w : World σ) (deeds : List Deed) : Prop :=
  ∀ d ∈ deeds, d.cell ∈ w.memories p ∧ d.request.Uses (s.folder d.cell) (s.keys d.cell)

/-- Every get of certain memories answers as the folder would at that moment. -/
def Right (good : Nat → Prop) : List Deed → World σ → Prop
  | [], _ => True
  | d :: more, w =>
    (∀ k, d.request = .get k → good d.cell →
      (Facade.get (s.folder d.cell).store d.cell k w).1 =
        ((s.folder d.cell).store.get k w).1) ∧
      ∀ w', s.act d w = (.ok (), w') → Right good more w'

/-- A store that a process opens stands in the directory told of its memory, and no other memory of
the process does. -/
structure Admits (p : Nat) (w w' : World σ) (folder : EntryFolder) (c : Nat) : Prop where
  told : s.folder c = folder
  leads : w'.files.Leads folder.directory (s.place c)
  single : ∀ d ∈ w.memories p, s.place d = s.place c → d = c

/-- What is needed of a memory: it watches the master's directory, and its folder is there. -/
structure Known (c : Nat) (w : World σ) : Prop where
  old : c < w.cells.next
  watched : w.watched c = s.marker
  idle : (w.cells.get c).writing = false
  leads : w.files.Leads (s.folder c).directory (s.place c)

/-- The master's directory is there, and the memories of the processes are apart. -/
structure Tended (w : World σ) : Prop where
  hub : w.files.Leads s.path s.hub
  elapsed : Elapsed s.hub w.files
  registries : ∀ p ∈ s.processes, ∀ q ∈ s.processes,
    (w.leases.get p).registry = (w.leases.get q).registry → p = q
  nodup : ∀ p ∈ s.processes, (w.memories p).Nodup
  owner : ∀ p ∈ s.processes, ∀ q ∈ s.processes, ∀ c ∈ w.memories p, c ∈ w.memories q → p = q
  known : ∀ p ∈ s.processes, ∀ c ∈ w.memories p, s.Known c w
  places : ∀ p ∈ s.processes, ∀ c ∈ w.memories p, ∀ d ∈ w.memories p,
    s.place c = s.place d → c = d

/-! ## Turns -/

/-- The files when the last turn of a process ended. The newest turn stands first. -/
def lastLeft (p : Nat) (log : List Turn) : Option FileSystem :=
  (log.find? fun t => t.process = p).map Turn.left

/-- Each time the turn came back to a process, the entries of a directory were those that it left,
or the master's directory had been modified meanwhile. What was before such a modification does not
matter. -/
def Covered (p : Nat) (place : Location) : List Turn → FileSystem → Prop
  | [], _ => True
  | t :: older, fs =>
    if t.process = p then
      ModifiedSince s.hub t.left fs ∨
        SameEntries place t.left fs ∧ Covered p place older t.entered
    else Covered p place older fs

/-- The turns that processes took so far, the newest first, and the world after them. Between the
turns they open stores. -/
inductive Season : List Turn → World σ → Prop
  | start {w : World σ} : s.Tended w →
    (∀ p ∈ s.processes, ∀ c ∈ w.memories p, ∀ k, (w.cells.get c).cache.get? k = none) →
    Season [] w
  | opened {log} {w w' : World σ} {p type file answer} : Season log w → p ∈ s.processes →
    (s.cabinet p).openStore type file w = (.ok answer, w') →
    (∀ folder c, answer = .ok (.facade (.folder folder) c) → s.Admits p w w' folder c) →
    Season log w'
  | turn {log} {w : World σ} (p name deeds) : Season log w → p ∈ s.processes →
    s.Permits p w deeds →
    Season (⟨p, w.files, ((s.cabinet p).access.useCache name (s.acts deeds) w).2.files⟩ :: log)
      ((s.cabinet p).access.useCache name (s.acts deeds) w).2

variable {s} {log : List Turn} {w w' w'' : World σ} {p q c : Nat} {fs fs' : FileSystem}

/-! ## Memories that stay what they are -/

/-- Between two worlds the memories stayed those of the same stores, and the files proceeded. What
the memories hold may have changed. -/
structure Stays (w w' : World σ) : Prop where
  next : w'.cells.next = w.cells.next
  marker : ∀ c, (w'.cells.get c).marker = (w.cells.get c).marker
  writing : ∀ c, (w'.cells.get c).writing = (w.cells.get c).writing
  kinds : ∀ n, (w'.markers.get n).kind = (w.markers.get n).kind
  leases : ∀ p, (w'.leases.get p).registry = (w.leases.get p).registry
  registries : w'.registries = w.registries
  files : Proceeds w.files w'.files

theorem Stays.refl (w : World σ) : Stays w w :=
  ⟨rfl, fun _ => rfl, fun _ => rfl, fun _ => rfl, fun _ => rfl, rfl, .refl _⟩

theorem Stays.trans (h : Stays w w') (h' : Stays w' w'') : Stays w w'' where
  next := h'.next.trans h.next
  marker c := (h'.marker c).trans (h.marker c)
  writing c := (h'.writing c).trans (h.writing c)
  kinds n := (h'.kinds n).trans (h.kinds n)
  leases p := (h'.leases p).trans (h.leases p)
  registries := h'.registries.trans h.registries
  files := h.files.trans h'.files

theorem Stays.memories (h : Stays w w') (p : Nat) : w'.memories p = w.memories p := by
  rw [World.memories, World.memories, h.leases, h.registries]

theorem Stays.watched (h : Stays w w') (c : Nat) : w'.watched c = w.watched c := by
  rw [World.watched, World.watched, h.marker, h.kinds]

theorem stays_of_entered {phase : Phase} (h : Lease.Entered p phase w w') : Stays w w' where
  next := h.next
  marker c := by
    rw [h.cells]
    split <;> rfl
  writing c := by
    rw [h.cells]
    split <;> rfl
  kinds := h.kinds
  leases q := by
    by_cases hq : q = p
    · rw [hq, h.lease]
    · rw [h.others q hq]
  registries := h.registries
  files := by
    rw [h.files]
    exact .refl _

theorem stays_of_changed {f : Cache Value → Cache Value} (h : w.Changed c f w')
    (hnext : w'.cells.next = w.cells.next) (hfiles : Proceeds w.files w'.files) : Stays w w' where
  next := hnext
  marker d := by
    rw [h.cells]
    split
    · next hd => rw [hd]
    · rfl
  writing d := by
    rw [h.cells]
    split
    · next hd => rw [hd]
    · rfl
  kinds := h.kinds
  leases q := by rw [h.leases]
  registries := h.registries
  files := hfiles

theorem Known.stays (hk : s.Known c w) (h : Stays w w') : s.Known c w' where
  old := h.next ▸ hk.old
  watched := (h.watched c).trans hk.watched
  idle := (h.writing c).trans hk.idle
  leads := h.files.leads hk.leads

theorem Tended.stays (ht : s.Tended w) (h : Stays w w') : s.Tended w' where
  hub := h.files.leads ht.hub
  elapsed := (h.files.noticed _ ht.hub.isDirectory).passes.elapsed ht.elapsed
  registries := by
    simp only [h.leases]
    exact ht.registries
  nodup := by
    simp only [h.memories]
    exact ht.nodup
  owner := by
    simp only [h.memories]
    exact ht.owner
  known := by
    simp only [h.memories]
    exact fun p hp c hc => (ht.known p hp c hc).stays h
  places := by
    simp only [h.memories]
    exact ht.places

/-! ## What the marker tells -/

/-- The marker shows the same again if and only if the directory was not modified. -/
theorem signal_eq_iff {path : Path} {hub : Location} (hl : fs.Leads path hub)
    (hl' : fs'.Leads path hub) (he : Elapsed hub fs) (hp : FileSystem.Passes hub fs fs') :
    (∃ t, (MarkerKind.file path).signal fs' = .ok t ∧ (MarkerKind.file path).signal fs = .ok t) ↔
      checkPath path = .ok () ∧ ¬ ModifiedSince hub fs fs' := by
  constructor
  · rintro ⟨t, hnow, hthen⟩
    refine ⟨((MarkerKind.signal_ok_iff hl t).1 hthen).1, fun hmodified => ?_⟩
    exact MarkerKind.moves_of_modified hl hl' he hmodified t hthen hnow
  · rintro ⟨hpath, hnot⟩
    have hsame := hp.time.resolve_right hnot
    obtain ⟨node, -, htime⟩ := FileSystem.exists_time hl.isDirectory
    exact ⟨.modified node.modified,
      (MarkerKind.signal_ok_iff hl' _).2 ⟨hpath, _, hsame.trans htime, rfl⟩,
      (MarkerKind.signal_ok_iff hl _).2 ⟨hpath, _, htime, rfl⟩⟩

/-- What a memory of a process is while others have their turns: its baseline is what the marker
showed when the turn ended, and its entries are right as long as the store is covered and the
marker has not moved. -/
structure Since (s : Commons) (p c : Nat) (log : List Turn) (fs : FileSystem) (w : World σ) :
    Prop where
  hub : fs.Leads s.path s.hub
  elapsed : Elapsed s.hub fs
  baseline : (w.cells.get c).cache.baseline = (s.marker.signal fs).toOption
  files : Proceeds fs w.files
  right : ∀ {fs'}, Proceeds fs fs' → ¬ ModifiedSince s.hub fs fs' →
    s.Covered p (s.place c) log fs' → ∀ {k e}, s.keys c k → (w.cells.get c).cache.get? k = some e →
      (s.folder c).get k fs' = (.ok e.value?, fs')

/-- A memory of a process that has no turn has no entries, or they were left with it. -/
def Away (s : Commons) (p : Nat) (log : List Turn) (c : Nat) (w : World σ) : Prop :=
  (∀ k, (w.cells.get c).cache.get? k = none) ∨
    ∃ fs, lastLeft p log = some fs ∧ s.Since p c log fs w

/-- The memory is fresh if and only if the master's directory was not modified. -/
theorem Since.isFresh_iff (h : s.Since p c log fs w) (ht : s.Tended w) :
    (w.cells.get c).cache.isFresh (s.marker.signal w.files).toOption = true ↔
      checkPath s.path = .ok () ∧ ¬ ModifiedSince s.hub fs w.files := by
  rw [← signal_eq_iff h.hub ht.hub h.elapsed (h.files.noticed _ h.hub.isDirectory).passes,
    Cache.isFresh, h.baseline, Bool.and_eq_true, decide_eq_true_iff]
  show (((MarkerKind.file s.path).signal w.files).toOption.isSome = true ∧
    ((MarkerKind.file s.path).signal fs).toOption =
      ((MarkerKind.file s.path).signal w.files).toOption) ↔ _
  cases (MarkerKind.file s.path).signal w.files <;>
    cases (MarkerKind.file s.path).signal fs <;> simp [Except.toOption, eq_comm]

theorem lastLeft_cons_of_ne {t : Turn} (h : t.process ≠ p) (log : List Turn) :
    lastLeft p (t :: log) = lastLeft p log := by
  rw [lastLeft, List.find?_cons_of_neg (by simpa using h)]
  rfl

theorem lastLeft_cons_self {t : Turn} (h : t.process = p) (log : List Turn) :
    lastLeft p (t :: log) = some t.left := by
  rw [lastLeft, List.find?_cons_of_pos (by simpa using h)]
  rfl

/-- A store is covered if the master's directory was modified since the last turn. -/
theorem covered_of_modified {place : Location}
    (h : ∀ fs', lastLeft p log = some fs' → ModifiedSince s.hub fs' fs) :
    s.Covered p place log fs := by
  induction log with
  | nil => trivial
  | cons t older ih =>
    rw [Covered]
    split
    · next hp => exact .inl (h t.left (lastLeft_cons_self hp older))
    · next hp => exact ih fun fs' hleft => h fs' ((lastLeft_cons_of_ne hp older).trans hleft)

/-- A turn of another process is nothing to what is remembered. -/
theorem Away.aside (h : s.Away p log c w) (hcell : w'.cells.get c = w.cells.get c)
    (hfiles : Proceeds w.files w'.files) {log' : List Turn}
    (hlog : lastLeft p log' = lastLeft p log)
    (hcovered : ∀ fs, s.Covered p (s.place c) log' fs → s.Covered p (s.place c) log fs) :
    s.Away p log' c w' := by
  rcases h with hempty | ⟨fs, hleft, hsince⟩
  · refine .inl ?_
    rw [hcell]
    exact hempty
  · refine .inr ⟨fs, hlog.trans hleft, hsince.hub, hsince.elapsed, ?_,
      hsince.files.trans hfiles, ?_⟩
    · rw [hcell]
      exact hsince.baseline
    · rw [hcell]
      exact fun hproceeds hnot hcov => hsince.right hproceeds hnot (hcovered _ hcov)

/-- What holds after every turn. -/
structure Kept (s : Commons) (log : List Turn) (w : World σ) : Prop where
  tended : s.Tended w
  away : ∀ p ∈ s.processes, ∀ c ∈ w.memories p, s.Away p log c w

/-! ## The turn of a process -/

/-- The world in which the turn of a process begins: the memories were compared with the marker. -/
def begun (s : Commons) (p : Nat) (name : String) (w : World σ) : World σ :=
  Lease.hook p .locked (w.report (.opened .useCache name s.base))

/-- What is done with access stands between the hooks. -/
theorem useCache_eq (s : Commons) (p : Nat) (name : String) (body : Act σ α) (w : World σ) :
    (s.cabinet p).access.useCache name body w =
      ((body (s.begun p name w)).1, Lease.hook p .unlocked (body (s.begun p name w)).2) := by
  have hemit : Act.emit (.opened .useCache name s.base) w =
      (.ok (), w.report (.opened .useCache name s.base)) := rfl
  show (Act.emit (.opened .useCache name s.base) >>= fun _ => Lease.locked p body) w = _
  rw [Act.bind_ok _ hemit, Lease.locked_eq_between]
  rfl

theorem entered_hook (phase : Phase) (hnodup : (w.memories p).Nodup) :
    Lease.Entered p phase w (Lease.hook p phase w) := by
  obtain ⟨w', henter, hentered⟩ := Lease.enter_spec phase hnodup
  rwa [Lease.hook, henter]

theorem signal_eq (hk : s.Known c w) :
    w.signal (w.cells.get c).marker = s.marker.signal w.files := by
  rw [World.signal, ← hk.watched]
  rfl

section Begun

variable (ht : s.Tended w) (hp : p ∈ s.processes) (name : String)
include ht hp

theorem entered_begun : Lease.Entered p .locked (w.report (.opened .useCache name s.base))
    (s.begun p name w) :=
  entered_hook .locked (ht.nodup p hp)

theorem stays_begun : Stays w (s.begun p name w) := by
  have hstays := stays_of_entered (entered_begun ht hp name)
  exact ⟨hstays.next, hstays.marker, hstays.writing, hstays.kinds, hstays.leases,
    hstays.registries, hstays.files⟩

theorem files_begun : (s.begun p name w).files = w.files :=
  (entered_begun ht hp name).files

theorem cell_begun_of_notMem (hc : c ∉ w.memories p) :
    (s.begun p name w).cells.get c = w.cells.get c :=
  ((entered_begun ht hp name).cells c).trans (if_neg hc)

/-- An entry is there when the turn begins if the memory is fresh. -/
theorem get?_begun (hc : c ∈ w.memories p) (k : Key) :
    ((s.begun p name w).cells.get c).cache.get? k =
      if (w.cells.get c).cache.isFresh (s.marker.signal w.files).toOption then
        (w.cells.get c).cache.get? k
      else none := by
  have hcell := ((entered_begun ht hp name).cells c).trans (if_pos hc)
  rw [hcell, ← signal_eq (ht.known p hp c hc)]
  exact Cache.get?_invalidate _ _ _

/-- A memory is right when the turn begins if what a fresh one holds is right. -/
theorem remembers_begun (hc : c ∈ w.memories p)
    (hright : (w.cells.get c).cache.isFresh (s.marker.signal w.files).toOption = true →
      ∀ {k e}, s.keys c k → (w.cells.get c).cache.get? k = some e →
        (s.folder c).get k w.files = (.ok e.value?, w.files)) :
    Remembers (s.folder c) (s.keys c) c (s.place c) (s.begun p name w) := by
  have hknown := (ht.known p hp c hc).stays (stays_begun ht hp name)
  refine ⟨hknown.idle, hknown.leads, fun {k e} hk he => ?_⟩
  rw [get?_begun ht hp name hc] at he
  rw [files_begun ht hp name]
  split at he
  · next hfresh => exact hright hfresh hk he
  · cases he

/-- The memory of a covered store is. -/
theorem remembers_of_covered {log : List Turn} (haway : s.Away p log c w) (hc : c ∈ w.memories p)
    (hcovered : s.Covered p (s.place c) log w.files) :
    Remembers (s.folder c) (s.keys c) c (s.place c) (s.begun p name w) := by
  refine remembers_begun ht hp name hc fun hfresh k e hk he => ?_
  rcases haway with hempty | ⟨fs, -, hsince⟩
  · rw [hempty] at he
    cases he
  · exact hsince.right hsince.files ((hsince.isFresh_iff ht).1 hfresh).2 hcovered hk he

/-- What was remembered when the turn came back is read right if the marker cannot be read, if the
master's directory was modified, or if the folder still holds it. -/
theorem right_iff_of_remembered {log : List Turn} (haway : s.Away p log c w)
    (hc : c ∈ w.memories p) {k : Key} {e : Entry Value} (hk : s.keys c k)
    (he : (w.cells.get c).cache.get? k = some e) :
    ∃ fs, lastLeft p log = some fs ∧
      ((Facade.get (s.folder c).store c k (s.begun p name w)).1 =
          ((s.folder c).store.get k (s.begun p name w)).1 ↔
        checkPath s.path ≠ .ok () ∨ ModifiedSince s.hub fs w.files ∨
          (s.folder c).get k w.files = (.ok e.value?, w.files)) := by
  rcases haway with hempty | ⟨fs, hleft, hsince⟩
  · rw [hempty] at he
    cases he
  refine ⟨fs, hleft, ?_⟩
  cases hfresh : (w.cells.get c).cache.isFresh (s.marker.signal w.files).toOption with
  | true =>
    obtain ⟨hpath, hnot⟩ := (hsince.isFresh_iff ht).1 hfresh
    have hprobe : ((s.begun p name w).cells.get c).cache.probe k = .cached e := by
      rw [Cache.probe, get?_begun ht hp name hc, if_pos hfresh, he]
    obtain ⟨r, hread⟩ := EntryFolder.get_keeps_files (ht.known p hp c hc).leads k
    have hasked := EntryFolder.store_get (w := s.begun p name w)
      (by rw [files_begun ht hp name]; exact hread)
    rw [Facade.get_of_lookup (Facade.lookup_of_cached hprobe), hasked, hread, eq_comm]
    show EntryFolder.outcome r = .ok (.ok e.value?) ↔ _
    rw [EntryFolder.outcome_eq_ok_iff, Prod.mk.injEq]
    simp [hpath, hnot]
  | false =>
    have hmoved : ¬ (checkPath s.path = .ok () ∧ ¬ ModifiedSince s.hub fs w.files) := by
      rw [← hsince.isFresh_iff ht, hfresh]
      exact Bool.false_ne_true
    rw [not_and_or, not_not] at hmoved
    have hright := remembers_begun ht hp name hc fun hyes => by
      rw [hfresh] at hyes
      cases hyes
    obtain ⟨w', hget, -⟩ := hright.get (s.oneSpelling c) hk
    rw [hget]
    exact iff_of_true rfl (hmoved.imp_right .inl)

end Begun

/-- What holds while a process has its turn: its memories of good stores are right, and those of
other processes are left alone. -/
structure Held (s : Commons) (p : Nat) (good : Nat → Prop) (w₁ w : World σ) : Prop where
  tended : s.Tended w
  stays : Stays w₁ w
  right : ∀ c ∈ w₁.memories p, good c →
    Remembers (s.folder c) (s.keys c) c (s.place c) w
  others : ∀ c ∉ w₁.memories p, w.cells.get c = w₁.cells.get c

variable {good : Nat → Prop} {w₁ : World σ}

/-- What is asked of one memory leaves those of other stores right. -/
theorem Held.act (h : s.Held p good w₁ w) (hp : p ∈ s.processes) {d : Deed}
    (hd : d.cell ∈ w₁.memories p) (huses : d.request.Uses (s.folder d.cell) (s.keys d.cell)) :
    s.Held p good w₁ (s.act d w).2 := by
  rw [← h.stays.memories p] at hd
  have hknown := h.tended.known p hp d.cell hd
  obtain ⟨⟨f, hchanged⟩, hnext, htells⟩ :=
    Request.changed_and_tells hknown.idle hknown.leads d.request
  have hstays : Stays w (s.act d w).2 := stays_of_changed hchanged hnext htells.proceeds
  have hothers : ∀ {c}, c ≠ d.cell → (s.act d w).2.cells.get c = w.cells.get c :=
    fun hc => (hchanged.cells _).trans (if_neg hc)
  have htended := h.tended.stays hstays
  refine ⟨htended, h.stays.trans hstays, fun c hc hgood => ?_, fun c hc => ?_⟩
  · have hright := h.right c hc hgood
    by_cases hsame : c = d.cell
    · subst hsame
      exact hright.request (s.oneSpelling _) huses
    · -- the directory of another store is another one, and nothing happened there
      rw [← h.stays.memories p] at hc
      have hne : s.place c ≠ s.place d.cell := fun hplace =>
        hsame (h.tended.places p hp c hc d.cell hd hplace)
      have hknown' := (h.tended.known p hp c hc).stays hstays
      refine ⟨hknown'.idle, hknown'.leads, fun {k e} hk he => ?_⟩
      rw [hothers hsame] at he
      exact EntryFolder.get_of_sameEntries hright.leads hknown'.leads
        (fun _ name _ => htells.elsewhere _ hne name) (hright.entry hk he)
  · rw [← h.others c hc]
    refine hothers ?_
    rintro rfl
    rw [h.stays.memories p] at hd
    exact hc hd

/-- What is asked of another store leaves the time of the master's directory. -/
theorem Tended.still (ht : s.Tended w) (hp : p ∈ s.processes) {d : Deed}
    (hd : d.cell ∈ w.memories p) (hother : s.place d.cell ≠ s.hub) :
    (s.act d w).2.files.modified? s.hub = w.files.modified? s.hub := by
  have hknown := ht.known p hp d.cell hd
  obtain ⟨-, -, htells⟩ := Request.changed_and_tells hknown.idle hknown.leads d.request
  exact htells.still s.hub hother.symm ht.hub.isDirectory

/-- Every get of a good store is right, and what holds in a turn holds at its end. If nothing is
asked of the master store, its directory is not modified. -/
theorem Held.acts (h : s.Held p good w₁ w) (hp : p ∈ s.processes) {deeds : List Deed}
    (hpermits : s.Permits p w₁ deeds) :
    s.Right good deeds w ∧ s.Held p good w₁ (s.acts deeds w).2 ∧
      ((∀ d ∈ deeds, s.place d.cell ≠ s.hub) →
        (s.acts deeds w).2.files.modified? s.hub = w.files.modified? s.hub) := by
  induction deeds generalizing w with
  | nil => exact ⟨trivial, h, fun _ => rfl⟩
  | cons d more ih =>
    obtain ⟨⟨hd, huses⟩, hmore⟩ := List.forall_mem_cons.1 hpermits
    have hnext := h.act hp hd huses
    have hstill := h.tended.still hp ((h.stays.memories p).symm ▸ hd)
    obtain ⟨r, w', hact⟩ : ∃ r w', s.act d w = (r, w') := ⟨_, _, rfl⟩
    rw [hact] at hnext hstill
    refine ⟨⟨fun k hget hgood => ?_, fun w'' hdone => ?_⟩, ?_⟩
    · rw [hget] at huses
      obtain ⟨w'', hanswer, -⟩ := (h.right d.cell hd hgood).get (s.oneSpelling _) huses
      rw [hanswer]
    · cases hact.symm.trans hdone
      exact (ih hnext hmore).1
    · cases r with
      | ok =>
        obtain ⟨-, hheld, hrest⟩ := ih hnext hmore
        rw [Commons.acts, Act.bind_ok _ hact]
        refine ⟨hheld, fun hothers => ?_⟩
        obtain ⟨hother, hothers⟩ := List.forall_mem_cons.1 hothers
        exact (hrest hothers).trans (hstill hother)
      | error p =>
        rw [Commons.acts, Act.bind_error _ hact]
        exact ⟨hnext, fun hothers => hstill (hothers d List.mem_cons_self)⟩

theorem Kept.held {log : List Turn} (h : s.Kept log w) (hp : p ∈ s.processes) (name : String) :
    s.Held p (fun c => s.Covered p (s.place c) log w.files) (s.begun p name w)
      (s.begun p name w) where
  tended := h.tended.stays (stays_begun h.tended hp name)
  stays := .refl _
  right c hc hcovered := by
    rw [(stays_begun h.tended hp name).memories] at hc
    exact remembers_of_covered h.tended hp name (h.away p hp c hc) hc hcovered
  others _ _ := rfl

/-- A turn is what is done between the two hooks. -/
theorem Kept.turn_cases {log : List Turn} (h : s.Kept log w) (hp : p ∈ s.processes) (name : String)
    {deeds : List Deed} (hpermits : s.Permits p w deeds) :
    s.Right (fun c => s.Covered p (s.place c) log w.files) deeds (s.begun p name w) ∧
      (∃ w₂, s.Held p (fun c => s.Covered p (s.place c) log w.files) (s.begun p name w) w₂ ∧
        Lease.Entered p .unlocked w₂ ((s.cabinet p).access.useCache name (s.acts deeds) w).2) ∧
      ((∀ d ∈ deeds, s.place d.cell ≠ s.hub) →
        ((s.cabinet p).access.useCache name (s.acts deeds) w).2.files.modified? s.hub =
          w.files.modified? s.hub) := by
  have hpermits' : s.Permits p (s.begun p name w) deeds := fun d hd => by
    rw [(stays_begun h.tended hp name).memories]
    exact hpermits d hd
  obtain ⟨hright, hheld, hstill⟩ := (h.held hp name).acts hp hpermits'
  rw [files_begun h.tended hp name] at hstill
  have hentered := entered_hook (p := p) .unlocked (hheld.tended.nodup p hp)
  rw [← hentered.files] at hstill
  rw [useCache_eq]
  exact ⟨hright, ⟨_, hheld, hentered⟩, hstill⟩

theorem Kept.stays_turn {log : List Turn} (h : s.Kept log w) (hp : p ∈ s.processes) (name : String)
    {deeds : List Deed} (hpermits : s.Permits p w deeds) :
    Stays w ((s.cabinet p).access.useCache name (s.acts deeds) w).2 := by
  obtain ⟨-, ⟨w₂, hheld, hentered⟩, -⟩ := h.turn_cases hp name hpermits
  exact ((stays_begun h.tended hp name).trans hheld.stays).trans (stays_of_entered hentered)

/-- A turn leaves every memory as it must be while others have theirs. -/
theorem Kept.turn {log : List Turn} (h : s.Kept log w) (hp : p ∈ s.processes) (name : String)
    {deeds : List Deed} (hpermits : s.Permits p w deeds) :
    s.Kept (⟨p, w.files, ((s.cabinet p).access.useCache name (s.acts deeds) w).2.files⟩ :: log)
      ((s.cabinet p).access.useCache name (s.acts deeds) w).2 := by
  have hbegun := stays_begun h.tended hp name
  have hstays := h.stays_turn hp name hpermits
  have htended := h.tended.stays hstays
  obtain ⟨-, ⟨w₂, hheld, hentered⟩, -⟩ := h.turn_cases hp name hpermits
  generalize ((s.cabinet p).access.useCache name (s.acts deeds) w).2 = w₃
    at hstays htended hentered
  have hmemories : ∀ q, w₂.memories q = w.memories q := fun q =>
    (hheld.stays.memories q).trans (hbegun.memories q)
  have hfiles := hentered.files
  refine ⟨htended, fun q hq c hc => ?_⟩
  rw [hstays.memories] at hc
  by_cases hqp : q = p
  · subst hqp
    have hcell := (hentered.cells c).trans (if_pos ((hmemories q).symm ▸ hc))
    have hknown := hheld.tended.known q hp c ((hmemories q).symm ▸ hc)
    refine .inr ⟨w₃.files, lastLeft_cons_self rfl log, htended.hub, htended.elapsed, ?_, .refl _,
      ?_⟩
    · rw [hcell, hfiles, ← signal_eq hknown]
      rfl
    · intro fs' hproceeds hnot hcovered k e hk he
      rw [hcell] at he
      rw [Covered, if_pos rfl] at hcovered
      obtain ⟨hsame, hcovered⟩ := hcovered.resolve_left hnot
      have hright := hheld.right c ((hbegun.memories q).symm ▸ hc) hcovered
      have hleads : w₃.files.Leads (s.folder c).directory (s.place c) := hfiles ▸ hright.leads
      refine EntryFolder.get_of_sameEntries hleads (hproceeds.leads hleads) hsame ?_
      rw [hfiles]
      exact hright.entry hk he
  · have hnot : c ∉ w.memories p := fun hmem => hqp (h.tended.owner q hq p hp c hc hmem)
    have hcell : w₃.cells.get c = w.cells.get c := by
      rw [hentered.cells, if_neg ((hmemories p).symm ▸ hnot),
        hheld.others c ((hbegun.memories p).symm ▸ hnot)]
      exact cell_begun_of_notMem h.tended hp name hnot
    refine (h.away q hq c hc).aside hcell hstays.files (lastLeft_cons_of_ne (Ne.symm hqp) log)
      fun fs => ?_
    rw [Covered, if_neg (Ne.symm hqp)]
    exact id

/-! ## The opening of a store -/

/-- The world in which a process has got a new memory. -/
def received (s : Commons) (p : Nat) (path : Path) (type : ValueType) (w : World σ) : World σ :=
  (w.watching s.marker).register (w.leases.get p).registry path type w.markers.next

/-- A process that asks for the memory of a folder has one, or gets a new one. -/
theorem openStore_of_plain {type : ValueType} {file : Path} {folder : EntryFolder}
    {answer : Except Failure OpenStore} {w₁ : World σ}
    (hplain : Cabinet.openStore type file (.plain s.base (s.format p)) w =
      (.ok (.ok (.folder folder)), w₁))
    (h : (s.cabinet p).openStore type file w = (.ok answer, w')) :
    w' = w₁ ∨
      (w₁.registries.get (w₁.leases.get p).registry).cell? (s.base.join file) = none ∧
        answer = .ok (.facade (.folder folder) w₁.cells.next) ∧
        w' = s.received p (s.base.join file) type w₁ := by
  have hacquired : ∀ {answer w''},
      Registry.acquire (w₁.leases.get p).registry (s.base.join file) type (Marker.new s.marker) w₁ =
        (.ok answer, w'') →
      (s.cabinet p).openStore type file w = (.ok (answer.map (.facade (.folder folder))), w'') :=
    fun hacquire => Cabinet.openStore_of_acquire hplain hacquire
  cases hcell : (w₁.registries.get (w₁.leases.get p).registry).cell? (s.base.join file) with
  | some c =>
    rw [hacquired (Registry.acquire_of_registered hcell type _)] at h
    cases h
    exact .inl rfl
  | none =>
    have hmarker : Marker.new s.marker w₁ = (.ok w₁.markers.next, w₁.watching s.marker) := rfl
    rw [hacquired (Registry.acquire_of_made hcell type hmarker)] at h
    cases h
    exact .inr ⟨rfl, rfl, rfl⟩

/-- What is done to open a store: directories may be made, and after that the process may get a new
memory for it. -/
theorem openStore_cases {type : ValueType} {file : Path} {answer : Except Failure OpenStore}
    (h : (s.cabinet p).openStore type file w = (.ok answer, w')) :
    ∃ w₁, Stays w w₁ ∧ (∀ c, w₁.cells.get c = w.cells.get c) ∧ (w' = w₁ ∨
      (w₁.registries.get (w₁.leases.get p).registry).cell? (s.base.join file) = none ∧
        (∃ folder, answer = .ok (.facade (.folder folder) w₁.cells.next)) ∧
        w' = s.received p (s.base.join file) type w₁) := by
  obtain ⟨answer', files, hplain, hmade, hanswer⟩ :=
    Cabinet.openStore_plain s.base file (s.format p) type w
  have hfiles : Proceeds w.files files :=
    hmade ▸ FileSystem.proceeds_makeDirectories (s.base.join file) w.files
  refine ⟨{ w with files := files },
    ⟨rfl, fun _ => rfl, fun _ => rfl, fun _ => rfl, fun _ => rfl, rfl, hfiles⟩, fun _ => rfl, ?_⟩
  rcases hanswer with rfl | ⟨e, rfl⟩
  · exact (openStore_of_plain hplain h).imp_right fun ⟨hcell, hanswer, hw⟩ =>
      ⟨hcell, ⟨_, hanswer⟩, hw⟩
  · rw [cabinet, Cabinet.openStore_of_failed hplain] at h
    cases h
    exact .inl rfl

section Received

variable {path : Path} {type : ValueType}

theorem get_received (s : Commons) (p : Nat) (path : Path) (type : ValueType) (w : World σ)
    (c : Nat) : (s.received p path type w).cells.get c = if c = w.cells.next then
      ⟨path, w.markers.next, type, false,
        .fresh ((w.watching s.marker).signal w.markers.next).toOption⟩
    else w.cells.get c :=
  Pool.get_add _ _ _

theorem memories_received_self (s : Commons) (type : ValueType)
    (hnone : (w.registries.get (w.leases.get p).registry).cell? path = none) :
    (s.received p path type w).memories p = w.memories p ++ [w.cells.next] :=
  Told.memories_register hnone type w.markers.next

theorem memories_received_other (s : Commons) (path : Path) (type : ValueType)
    (hq : (w.leases.get q).registry ≠ (w.leases.get p).registry) :
    (s.received p path type w).memories q = w.memories q := by
  rw [World.memories]
  show ((w.registries.modify _ _).get (w.leases.get q).registry).cells.values = _
  rw [Pool.get_modify, if_neg hq]
  rfl

/-- The marker of a memory looks at the master's directory, be it the new one. -/
theorem watched_received (h : c = w.cells.next ∨ w.watched c = s.marker) :
    (s.received p path type w).watched c = s.marker := by
  have hkind : ∀ n, ((s.received p path type w).markers.get n).kind =
      if n = w.markers.next then s.marker else (w.markers.get n).kind := by
    intro n
    refine (World.kind_countRead _ _ n).trans ?_
    show ((w.markers.add ⟨s.marker, 0⟩).get n).kind = _
    rw [Pool.get_add]
    split <;> rfl
  rw [World.watched, hkind, get_received]
  by_cases hc : c = w.cells.next
  · rw [if_pos hc, if_pos rfl]
  · rw [if_neg hc]
    split
    · rfl
    · exact h.resolve_left hc

theorem Known.received (h : s.Known c w) : s.Known c (s.received p path type w) where
  old := Nat.lt_succ_of_lt h.old
  watched := watched_received (.inr h.watched)
  idle := by
    rw [get_received, if_neg (Nat.ne_of_lt h.old)]
    exact h.idle
  leads := h.leads

theorem known_received (hl : w.files.Leads (s.folder w.cells.next).directory
    (s.place w.cells.next)) : s.Known w.cells.next (s.received p path type w) where
  old := Nat.lt_succ_self _
  watched := watched_received (.inl rfl)
  idle := by rw [get_received, if_pos rfl]
  leads := hl

variable (ht : s.Tended w) (hp : p ∈ s.processes)
  (hnone : (w.registries.get (w.leases.get p).registry).cell? path = none)
include ht hp hnone

/-- A memory of a process is one that it had, or it is new and its own. -/
theorem mem_received (type : ValueType) (hq : q ∈ s.processes) :
    c ∈ (s.received p path type w).memories q ↔
      c ∈ w.memories q ∨ q = p ∧ c = w.cells.next := by
  by_cases hqp : q = p
  · subst hqp
    rw [memories_received_self s type hnone, List.mem_append, List.mem_singleton, eq_self, true_and]
  · rw [memories_received_other s path type fun h => hqp (ht.registries q hq p hp h)]
    simp [hqp]

theorem Tended.received (type : ValueType)
    (hl : w.files.Leads (s.folder w.cells.next).directory (s.place w.cells.next))
    (hsingle : ∀ d ∈ w.memories p, s.place d = s.place w.cells.next → d = w.cells.next) :
    s.Tended (s.received p path type w) := by
  have hmem := fun {q c} => mem_received (q := q) (c := c) ht hp hnone type
  have hnew : ∀ q ∈ s.processes, w.cells.next ∉ w.memories q := fun q hq hc =>
    Nat.lt_irrefl _ (ht.known q hq _ hc).old
  refine ⟨ht.hub, ht.elapsed, ht.registries, fun q hq => ?_, ?_, ?_, ?_⟩
  · by_cases hqp : q = p
    · subst hqp
      rw [memories_received_self s type hnone, List.nodup_append]
      refine ⟨ht.nodup q hq, List.nodup_singleton _, fun c hc d hd => ?_⟩
      rintro rfl
      exact hnew q hq (List.mem_singleton.1 hd ▸ hc)
    · rw [memories_received_other s path type fun h => hqp (ht.registries q hq p hp h)]
      exact ht.nodup q hq
  · intro q hq r hr c hc hc'
    rw [hmem hq] at hc
    rw [hmem hr] at hc'
    rcases hc with hc | ⟨rfl, rfl⟩
    · rcases hc' with hc' | ⟨-, rfl⟩
      · exact ht.owner q hq r hr c hc hc'
      · exact absurd hc (hnew q hq)
    · rcases hc' with hc' | ⟨rfl, -⟩
      · exact absurd hc' (hnew r hr)
      · rfl
  · intro q hq c hc
    rw [hmem hq] at hc
    rcases hc with hc | ⟨rfl, rfl⟩
    · exact (ht.known q hq c hc).received
    · exact known_received hl
  · intro q hq c hc d hd hplace
    rw [hmem hq] at hc hd
    rcases hc with hc | ⟨rfl, rfl⟩
    · rcases hd with hd | ⟨rfl, rfl⟩
      · exact ht.places q hq c hc d hd hplace
      · exact hsingle c hc hplace
    · rcases hd with hd | ⟨-, rfl⟩
      · exact (hsingle d hd hplace.symm).symm
      · rfl

end Received

/-- The opening of a store leaves what is remembered. -/
theorem Kept.opened {log : List Turn} (h : s.Kept log w) (hp : p ∈ s.processes) {type : ValueType}
    {file : Path} {answer : Except Failure OpenStore}
    (hopen : (s.cabinet p).openStore type file w = (.ok answer, w'))
    (hadmits : ∀ folder c, answer = .ok (.facade (.folder folder) c) → s.Admits p w w' folder c) :
    s.Kept log w' := by
  obtain ⟨w₁, hstays, hcells, hw'⟩ := openStore_cases hopen
  have htended := h.tended.stays hstays
  have haway : ∀ q ∈ s.processes, ∀ c ∈ w₁.memories q, s.Away q log c w₁ := by
    intro q hq c hc
    rw [hstays.memories] at hc
    exact (h.away q hq c hc).aside (hcells c) hstays.files rfl fun _ => id
  rcases hw' with rfl | ⟨hnone, ⟨folder, rfl⟩, rfl⟩
  · exact ⟨htended, haway⟩
  · obtain ⟨rfl, hleads, hsingle⟩ := hadmits folder _ rfl
    rw [← hstays.memories] at hsingle
    refine ⟨htended.received hp hnone type hleads hsingle, fun q hq c hc => ?_⟩
    rw [mem_received htended hp hnone type hq] at hc
    rcases hc with hc | ⟨-, rfl⟩
    · have hold := (htended.known q hq c hc).old
      exact (haway q hq c hc).aside ((get_received s p _ type w₁ c).trans
        (if_neg (Nat.ne_of_lt hold))) (.refl _) rfl fun _ => id
    · refine .inl fun k => ?_
      rw [get_received, if_pos rfl]
      rfl

theorem Season.kept {log : List Turn} (h : s.Season log w) : s.Kept log w := by
  induction h with
  | start ht hempty => exact ⟨ht, fun p hp c hc => .inl (hempty p hp c hc)⟩
  | opened _ hp hopen hadmits ih => exact ih.opened hp hopen hadmits
  | turn p name deeds _ hp hpermits ih => exact ih.turn hp name hpermits

end Commons

end LeaseCache
