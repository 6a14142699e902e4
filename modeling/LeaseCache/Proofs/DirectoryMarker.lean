import LeaseCache.Cabinet
import LeaseCache.Proofs.AtomicPut
import LeaseCache.Proofs.FolderMap
import LeaseCache.Proofs.MarkerSpec
import LeaseCache.Proofs.ModificationTimes
import Mathlib.Data.Set.Operations

/-!
# A directory as a marker

The modification time of a directory tells whether the folders on it may answer otherwise than
before. What is looked at is any number of puts under way at once, each done step by step, with
lookups and removals in between (`Moment.Next`). One step of these leaves the entries of the
directory alone or modifies the directory (`FileSystem.Tells`), and since no tick comes twice, this
is so between any two moments.

Main statement: `MarkerKind.directory_is_a_sound_marker`, also for the marker that a cabinet without
a master store gives to a store it has opened.
-/

namespace LeaseCache

open FileSystem (KeptBut Leads PlainName Passes ModifiedSince Elapsed)
open EntryFolder (temporaryName plainName_temporary twoFolders emptyDirectory)
open Relation (ReflTransGen)

/-- What a folder answers with: the pairs of a key and its value. -/
def EntryFolder.readable (folder : EntryFolder) (fs : FileSystem) : Set (Key × Value) :=
  {p | (folder.get p.1 fs).1 = .ok (some p.2)}

/-! ## What a directory tells -/

/-- In two states of the files the same stands under the names of keys in a directory. -/
def FileSystem.SameEntries (parent : Location) (fs fs' : FileSystem) : Prop :=
  ∀ (k : Key) name, k.fileName = .ok name →
    fs'.content? (parent ++ [name]) = fs.content? (parent ++ [name])

/-- Time went forward for a directory, and its entries are the same if it was not modified. -/
structure FileSystem.Noticed (parent : Location) (fs fs' : FileSystem) : Prop where
  passes : Passes parent fs fs'
  entries : ModifiedSince parent fs fs' ∨ SameEntries parent fs fs'

namespace FileSystem.Noticed

variable {fs fs' fs'' : FileSystem} {parent : Location}

theorem refl (parent : Location) (fs : FileSystem) : Noticed parent fs fs :=
  ⟨.refl _ _, .inr fun _ _ _ => rfl⟩

theorem trans (h : Noticed parent fs fs') (h' : Noticed parent fs' fs'') :
    Noticed parent fs fs'' where
  passes := h.passes.trans h'.passes
  entries := by
    rcases h.entries with hmodified | hsame
    · exact .inl (hmodified.before h'.passes)
    rcases h'.entries with hmodified' | hsame'
    · exact .inl (.after h.passes hmodified')
    · exact .inr fun k name hname => (hsame' k name hname).trans (hsame k name hname)

end FileSystem.Noticed

/-- Between two states of the files no directory came or went, and what happened in one directory is
told by its time. In other directories nothing happened, and their times are the same. -/
structure FileSystem.Tells (parent : Location) (fs fs' : FileSystem) : Prop
    extends Noticed parent fs fs' where
  home : fs'.home = fs.home
  directories : ∀ place, fs'.isDirectory place = fs.isDirectory place
  still : ∀ place, place ≠ parent → fs.isDirectory place = true →
    fs'.modified? place = fs.modified? place
  elsewhere : ∀ place, place ≠ parent → ∀ name,
    fs'.content? (place ++ [name]) = fs.content? (place ++ [name])

namespace FileSystem.Tells

variable {fs fs' fs'' : FileSystem} {parent place : Location} {folder : EntryFolder} {p : Path}

theorem refl (parent : Location) (fs : FileSystem) : Tells parent fs fs :=
  ⟨.refl _ _, rfl, fun _ => rfl, fun _ _ _ => rfl, fun _ _ _ => rfl⟩

theorem trans (h : Tells parent fs fs') (h' : Tells parent fs' fs'') : Tells parent fs fs'' where
  toNoticed := h.toNoticed.trans h'.toNoticed
  home := h'.home.trans h.home
  directories p := (h'.directories p).trans (h.directories p)
  still p hp hd := (h'.still p hp ((h.directories p).trans hd)).trans (h.still p hp hd)
  elsewhere p hp name := (h'.elsewhere p hp name).trans (h.elsewhere p hp name)

theorem leads (h : Tells parent fs fs') (hl : fs.Leads p place) : fs'.Leads p place :=
  hl.mono h.home fun q hq => (h.directories q).trans hq

theorem locate (h : Tells parent fs fs') (hlocate : fs.locate p = .ok place)
    (hd : fs.isDirectory place = true) : fs'.locate p = .ok place :=
  locate_mono h.home (fun q hq => (h.directories q).trans hq) hlocate hd

/-- What a folder answers with changes only with the time of its directory. -/
theorem modified_of_readable_ne (h : Tells parent fs fs') (hl : fs.Leads folder.directory parent)
    (hne : folder.readable fs ≠ folder.readable fs') : ModifiedSince parent fs fs' := by
  refine h.entries.resolve_right fun hsame => hne ?_
  ext ⟨k, v⟩
  obtain ⟨r, hget⟩ := EntryFolder.get_keeps_files hl k
  have hget' := EntryFolder.get_congr hl (h.leads hl) (hsame k) hget
  simp only [EntryFolder.readable, Set.mem_ofPred_eq, hget, hget']

/-- What stands in another directory is none of what changed in this one. -/
theorem elsewhere_of_keptBut (names : List (List UInt8))
    (hk : KeptBut (names.map fun name => parent ++ [name]) fs fs') {p : Location}
    (hp : p ≠ parent) (name : List UInt8) :
    fs'.content? (p ++ [name]) = fs.content? (p ++ [name]) := by
  refine hk.content _ fun hmem => ?_
  obtain ⟨name', -, heq⟩ := List.mem_map.1 hmem
  exact hp (List.append_inj_left' heq rfl).symm

/-- A change of the temporary file is nothing to the entries. -/
theorem of_temporary {unique : UniqueName}
    (hk : KeptBut [parent ++ [temporaryName unique]] fs fs')
    (hp : Passes parent fs fs')
    (hstill : ∀ place, place ≠ parent → fs.isDirectory place = true →
      fs'.modified? place = fs.modified? place) : Tells parent fs fs' where
  home := hk.home
  directories := hk.directories
  passes := hp
  entries := by
    refine .inr fun k name hname => hk.content _ fun hmem => ?_
    exact entry_ne_temporary hname parent unique (List.mem_singleton.1 hmem)
  still := hstill
  elsewhere _ := elsewhere_of_keptBut [temporaryName unique] hk

theorem of_modified (names : List (List UInt8))
    (hk : KeptBut (names.map fun name => parent ++ [name]) fs fs')
    (hm : ModifiedSince parent fs fs')
    (hstill : ∀ place, place ≠ parent → fs.isDirectory place = true →
      fs'.modified? place = fs.modified? place) : Tells parent fs fs' :=
  ⟨⟨hm.passes, .inl hm⟩, hk.home, hk.directories, hstill, fun _ => elsewhere_of_keptBut names hk⟩

end FileSystem.Tells

open FileSystem (Tells)

/-! ## One step of a put -/

/-- The temporary file that is open in a stage is the one of the put, and what will be renamed is no
directory. -/
def Stage.Placed (temporary : Location) (fs : FileSystem) : Stage → Prop
  | .writing place _ => place = temporary ∧ fs.content? temporary ≠ some .directory
  | .written => fs.content? temporary ≠ some .directory
  | .failing _ open? => ∀ place, open? = some place → place = temporary
  | _ => True

section PutStep

variable {folder : EntryFolder} {k : Key} {v : Value} {unique : UniqueName} {fs fs' : FileSystem}
  {stage stage' : Stage} {parent : Location}

theorem Stage.Placed.mono {temporary : Location} (h : stage.Placed temporary fs)
    (hdirs : ∀ place, fs'.isDirectory place = fs.isDirectory place) :
    stage.Placed temporary fs' := by
  have hkept : fs.content? temporary ≠ some .directory →
      fs'.content? temporary ≠ some .directory := by
    rw [Ne, Ne, ← FileSystem.isDirectory_iff, ← FileSystem.isDirectory_iff, hdirs]
    exact id
  cases stage with
  | writing place rest => exact ⟨h.1, hkept h.2⟩
  | written => exact hkept h
  | begun => trivial
  | failing e open? => exact h
  | done => trivial
  | failed e cleaned => trivial

theorem tells_append {place : Location} {bytes : List UInt8}
    (hplace : place = parent ++ [temporaryName unique])
    (h : Disk.append place bytes fs = (.ok (), fs')) : Tells parent fs fs' := by
  subst hplace
  obtain ⟨old, hold⟩ := Disk.file_of_append_ok h
  have hbecomes := Disk.of_append_ok hold h
  refine .of_temporary (hbecomes.keptBut_update (by rw [hold]; simp) (by simp))
    ((Disk.ticks_append parent _ bytes).of_run h) fun place _ hd => Disk.append_still ?_ h
  rintro rfl
  rw [FileSystem.isDirectory_iff, hold] at hd
  cases hd

theorem tells_removeFile {name : List UInt8} (hl : fs.Leads folder.directory parent)
    (hn : PlainName name) (h : Disk.removeFile (folder.directory.join ⟨name⟩) fs = (.ok (), fs')) :
    Tells parent fs fs' := by
  obtain ⟨parent', hw, hbecomes⟩ := Disk.of_removeFile_ok hn h
  obtain rfl := hw.leads.unique hl
  exact .of_modified [name] (hbecomes.keptBut_update hw.noDirectory (by simp))
    (Disk.removeFile_modifies hl hn h) fun place hp hd => Disk.removeFile_still hl hn hp hd h

/-- The directory tells of a step of a put. -/
theorem PutStep.tells (h : PutStep folder k v unique (stage, fs) (stage', fs'))
    (hl : fs.Leads folder.directory parent)
    (hp : stage.Placed (parent ++ [temporaryName unique]) fs) :
    Tells parent fs fs' ∧ stage'.Placed (parent ++ [temporaryName unique]) fs' := by
  have htemporary := plainName_temporary unique
  cases h with
  | refuse hpath => exact ⟨.refl _ _, trivial⟩
  | create hpath hcreate =>
    have hpasses := (Disk.ticks_create parent (folder.temporaryPath unique)).of_run hcreate
    obtain ⟨parent', hw, rfl, hbecomes⟩ := Disk.of_create_ok htemporary hcreate
    obtain rfl := hw.leads.unique hl
    refine ⟨.of_temporary (hbecomes.keptBut_update hw.noDirectory (by simp)) hpasses
      fun place hplace hd => Disk.create_still hl htemporary hplace ?_ hcreate, rfl, ?_⟩
    · rintro rfl
      exact hw.noDirectory ((FileSystem.isDirectory_iff _ _).1 hd)
    · rw [hbecomes.content, Function.update_self]
      simp
  | createRefused hpath hcreate =>
    rw [Disk.of_create_error htemporary hcreate]
    exact ⟨.refl _ _, nofun⟩
  | createFails e hpath => exact ⟨.refl _ _, nofun⟩
  | write piece rest happend =>
    have htells := tells_append hp.1 happend
    have hp' : (Stage.writing _ rest).Placed (parent ++ [temporaryName unique]) fs := hp
    exact ⟨htells, hp'.mono htells.directories⟩
  | writeFails e =>
    refine ⟨.refl _ _, ?_⟩
    rintro place ⟨⟩
    exact hp.1
  | spill bytes happend => exact ⟨tells_append (hp _ rfl) happend, hp⟩
  | flush => exact ⟨.refl _ _, hp.2⟩
  | rename hpath hrename =>
    obtain ⟨name, hname, rfl⟩ := EntryFolder.named_of_entryPath hpath
    have hplain := Key.plainName_of_fileName hname
    obtain ⟨hthere, hmodified⟩ := Disk.rename_modifies hl htemporary hplain hrename
    obtain ⟨content, hcontent⟩ := Option.isSome_iff_exists.1 hthere
    cases content with
    | directory => exact absurd hcontent hp
    | file bytes =>
      obtain ⟨hw, hbecomes⟩ := Disk.of_rename_ok htemporary hplain hl hcontent hrename
      have hkept := hbecomes.keptBut_update_update hp hw.noDirectory (by simp) (by simp)
      exact ⟨.of_modified [temporaryName unique, name] hkept hmodified fun place hplace hd =>
        Disk.rename_still hl htemporary hplain hp hplace hd hrename, trivial⟩
  | renameRefused hpath hrename =>
    rw [Disk.of_rename_error hrename]
    exact ⟨.refl _ _, nofun⟩
  | renameFails e => exact ⟨.refl _ _, nofun⟩
  | cleanUp hremove => exact ⟨tells_removeFile hl htemporary hremove, trivial⟩
  | cleanUpRefused hremove =>
    rw [Disk.of_removeFile_error htemporary hremove]
    exact ⟨.refl _ _, trivial⟩
  | cleanUpFails => exact ⟨.refl _ _, trivial⟩

/-- A put is done by the renaming of its temporary file, which modifies the directory. -/
theorem PutStep.modifies (h : PutStep folder k v unique (stage, fs) (.done, fs'))
    (hl : fs.Leads folder.directory parent) : ModifiedSince parent fs fs' := by
  cases h with
  | rename hpath hrename =>
    obtain ⟨name, hname, rfl⟩ := EntryFolder.named_of_entryPath hpath
    exact (Disk.rename_modifies hl (plainName_temporary unique) (Key.plainName_of_fileName hname)
      hrename).2

end PutStep

/-! ## One call of a folder -/

namespace EntryFolder

variable {folder : EntryFolder} {k : Key} {name : List UInt8} {fs fs' : FileSystem}
  {parent : Location}

/-- A removal takes the entry's file away or leaves the files as they are. -/
theorem remove_cases (folder : EntryFolder) (hname : k.fileName = .ok name) (fs : FileSystem) :
    (∃ fs', Disk.removeFile (folder.directory.join ⟨name⟩) fs = (.ok (), fs') ∧
      folder.remove k fs = (.ok (), fs')) ∨
    ∃ e, Disk.removeFile (folder.directory.join ⟨name⟩) fs = (.error e, fs) ∧
      (folder.remove k fs = (.ok (), fs) ∧ e = .notFound ∨
        folder.remove k fs = (.error (.file e), fs)) := by
  unfold remove
  rw [entryPath_of_named hname, Disk.bind_ok _ (FileCall.liftExcept_apply _ _)]
  rcases Disk.removeFile_cases folder.directory fs (Key.plainName_of_fileName hname) with
    ⟨-, -, fs', -, -, hremove, -⟩ | ⟨e, hremove, -⟩
  · rw [Disk.bind_ok _ (FileCall.liftDisk_apply hremove)]
    exact .inl ⟨fs', hremove, rfl⟩
  · rw [Disk.bind_ok _ (FileCall.liftDisk_apply hremove)]
    refine .inr ⟨e, hremove, ?_⟩
    cases e <;> first | exact .inl ⟨rfl, rfl⟩ | exact .inr rfl

theorem remove_of_unnamed {e : Json.Failure} (hname : k.fileName = .error e) (fs : FileSystem) :
    folder.remove k fs = (.error (.json e), fs) := by
  rw [remove, entryPath, hname, Disk.bind_error _ (FileCall.liftExcept_apply _ _)]

theorem put_of_unnamed {e : Json.Failure} (hname : k.fileName = .error e) (v : Value)
    (fs : FileSystem) : folder.put k v fs = (.error (.json e), fs) := by
  rw [put, entryPath, hname, Disk.bind_error _ (FileCall.liftExcept_apply _ _)]

/-- The directory tells of a removal. -/
theorem remove_tells (hl : fs.Leads folder.directory parent) (k : Key) :
    Tells parent fs (folder.remove k fs).2 := by
  cases hname : k.fileName with
  | error e =>
    rw [remove_of_unnamed hname]
    exact .refl _ _
  | ok name =>
    rcases folder.remove_cases hname fs with ⟨fs', hfile, hremove⟩ | ⟨e, -, ⟨hremove, -⟩ | hremove⟩
    · rw [hremove]
      exact tells_removeFile hl (Key.plainName_of_fileName hname) hfile
    · rw [hremove]
      exact .refl _ _
    · rw [hremove]
      exact .refl _ _

/-- A removal that finds no file is one of a key that no value is answered for. -/
theorem get_of_removeFile_notFound (hl : fs.Leads folder.directory parent)
    (hname : k.fileName = .ok name)
    (h : Disk.removeFile (folder.directory.join ⟨name⟩) fs = (.error .notFound, fs')) :
    folder.get k fs = (.ok none, fs) := by
  have hplain := Key.plainName_of_fileName hname
  unfold Disk.removeFile at h
  cases hpath : FileSystem.checkPath (folder.directory.join ⟨name⟩) with
  | error e =>
    rw [Disk.bind_error _ (Disk.query_error (FileSystem.target_of_error hpath))] at h
    cases h
    exact absurd rfl (checkPath_ne_notFound hplain hpath)
  | ok =>
    rw [Disk.bind_ok _ (Disk.query_ok (hl.target_join hplain hpath))] at h
    dsimp only at h
    by_cases hlong : FileSystem.maxName < name.length
    · rw [Disk.bind_error _ (Disk.query_error (FileSystem.child?_of_long hlong))] at h
      cases h
    rw [Disk.bind_ok _ (Disk.query_ok (FileSystem.child?_of_short hlong))] at h
    cases hnode : fs.nodes.get? (parent ++ [name]) with
    | none =>
      rw [get_of_stores hl ⟨hname, Nat.not_lt.1 hlong, hpath⟩, FileSystem.content?_of_noNode hnode]
      rfl
    | some node =>
      obtain ⟨_ | _, time⟩ := node
      · rw [hnode] at h
        cases h
      · rw [hnode] at h
        cases h

/-- The removal of an entry modifies the directory. -/
theorem remove_modifies (hl : fs.Leads folder.directory parent)
    (hthere : (folder.get k fs).1 ≠ .ok none) (h : folder.remove k fs = (.ok (), fs')) :
    ModifiedSince parent fs fs' := by
  cases hname : k.fileName with
  | error e =>
    rw [remove_of_unnamed hname] at h
    cases h
  | ok name =>
    rcases folder.remove_cases hname fs with
      ⟨fs₁, hfile, hremove⟩ | ⟨e, hfile, ⟨-, rfl⟩ | hremove⟩
    · rw [hremove] at h
      cases h
      exact Disk.removeFile_modifies hl (Key.plainName_of_fileName hname) hfile
    · rw [get_of_removeFile_notFound hl hname hfile] at hthere
      exact absurd rfl hthere
    · rw [hremove] at h
      cases h

/-- Nothing is removed for a key that no value is answered for. -/
theorem remove_missing (hl : fs.Leads folder.directory parent)
    (hmissing : (folder.get k fs).1 = .ok none) : folder.remove k fs = (.ok (), fs) := by
  obtain ⟨r, hget⟩ := get_keeps_files hl k
  rw [hget] at hmissing
  obtain rfl : r = .ok none := hmissing
  obtain ⟨name, hs⟩ := stores_of_get_ok hl hget
  rw [get_of_stores hl hs] at hget
  have hread := (Prod.mk.inj hget).1
  cases hcontent : fs.content? (parent ++ [name]) with
  | none =>
    obtain ⟨fs', hremove, -, hsame⟩ := remove_ok hs.named ⟨hl, hs.path, hs.fits, by simp [hcontent]⟩
    rw [hremove, hsame hcontent]
  | some content =>
    rw [hcontent] at hread
    cases content with
    | directory => cases hread
    | file bytes =>
      rw [read] at hread
      cases hdecode : folder.format.decode folder.type bytes with
      | error e =>
        rw [hdecode] at hread
        cases hread
      | ok v =>
        rw [hdecode] at hread
        cases hread

end EntryFolder

/-! ## What happens on a directory -/

/-- A put that has begun, and where it stands. -/
structure Putting where
  folder : EntryFolder
  key : Key
  value : Value
  unique : UniqueName
  stage : Stage

/-- The files at a moment, and the puts that have begun. -/
structure Moment where
  files : FileSystem
  puts : List Putting

namespace Moment

/-- What happens next on a directory. Any folder on it looks a key up, removes one or begins a put,
or a put that has begun does its next step. A put that does none any more was broken off. -/
inductive Next (parent : Location) : Moment → Moment → Prop
  | get {fs puts} {folder : EntryFolder} (k : Key) : fs.Leads folder.directory parent →
    Next parent ⟨fs, puts⟩ ⟨(folder.get k fs).2, puts⟩
  | remove {fs puts} {folder : EntryFolder} (k : Key) : fs.Leads folder.directory parent →
    Next parent ⟨fs, puts⟩ ⟨(folder.remove k fs).2, puts⟩
  | putBegins {fs puts} {folder : EntryFolder} (k v unique) : fs.Leads folder.directory parent →
    Next parent ⟨fs, puts⟩ ⟨fs, ⟨folder, k, v, unique, .begun⟩ :: puts⟩
  | putGoesOn {fs fs' before after folder k v unique stage stage'} :
    PutStep folder k v unique (stage, fs) (stage', fs') →
    Next parent ⟨fs, before ++ ⟨folder, k, v, unique, stage⟩ :: after⟩
      ⟨fs', before ++ ⟨folder, k, v, unique, stage'⟩ :: after⟩

/-- What happens on a directory from one moment to another. -/
abbrev Run (parent : Location) : Moment → Moment → Prop := ReflTransGen (Next parent)

/-- The puts that have begun are puts of folders on the directory, and their temporary files are no
directories. -/
def OnTrack (parent : Location) (m : Moment) : Prop :=
  ∀ p ∈ m.puts, m.files.Leads p.folder.directory parent ∧
    p.stage.Placed (parent ++ [temporaryName p.unique]) m.files

section

variable {parent : Location} {m m' : Moment} {fs fs' : FileSystem} {puts : List Putting}
  {folder : EntryFolder} {k : Key} {v : Value} {unique : UniqueName} {stage stage' : Stage}

theorem onTrack_of_noPuts (parent : Location) (fs : FileSystem) : OnTrack parent ⟨fs, []⟩ :=
  fun _ hp => absurd hp List.not_mem_nil

theorem OnTrack.kept (h : OnTrack parent ⟨fs, puts⟩) (ht : Tells parent fs fs') :
    OnTrack parent ⟨fs', puts⟩ := by
  intro p hp
  obtain ⟨hl, hplaced⟩ := h p hp
  exact ⟨ht.leads hl, hplaced.mono ht.directories⟩

theorem Next.tells (h : Next parent m m') (ht : m.OnTrack parent) :
    Tells parent m.files m'.files ∧ m'.OnTrack parent := by
  cases h with
  | get k hl =>
    obtain ⟨r, hget⟩ := EntryFolder.get_keeps_files hl k
    rw [hget]
    exact ⟨.refl _ _, ht⟩
  | remove k hl =>
    have htells := EntryFolder.remove_tells hl k
    exact ⟨htells, ht.kept htells⟩
  | putBegins k v unique hl =>
    refine ⟨.refl _ _, ?_⟩
    rintro p (_ | ⟨_, hp⟩)
    · exact ⟨hl, trivial⟩
    · exact ht p hp
  | @putGoesOn fs fs' before after folder k v unique stage stage' hstep =>
    obtain ⟨hl, hplaced⟩ := ht ⟨folder, k, v, unique, stage⟩ (by simp)
    obtain ⟨htells, hplaced'⟩ := hstep.tells hl hplaced
    refine ⟨htells, fun p hp => ?_⟩
    rw [List.mem_append, List.mem_cons, or_left_comm] at hp
    rcases hp with rfl | hp
    · exact ⟨htells.leads hl, hplaced'⟩
    · obtain ⟨hl', hplaced'⟩ := ht p (by rw [List.mem_append, List.mem_cons]; tauto)
      exact ⟨htells.leads hl', hplaced'.mono htells.directories⟩

theorem Run.tells (h : Run parent m m') (ht : m.OnTrack parent) :
    Tells parent m.files m'.files ∧ m'.OnTrack parent := by
  induction h with
  | refl => exact ⟨.refl _ _, ht⟩
  | tail _ hnext ih =>
    obtain ⟨htells, ht'⟩ := ih
    obtain ⟨htells', ht''⟩ := hnext.tells ht'
    exact ⟨htells.trans htells', ht''⟩

/-- The steps of one put, while the others stand where they stood. -/
theorem run_of_steps (parent : Location) (puts : List Putting)
    (h : ReflTransGen (PutStep folder k v unique) (stage, fs) (stage', fs')) :
    Run parent ⟨fs, ⟨folder, k, v, unique, stage⟩ :: puts⟩
      ⟨fs', ⟨folder, k, v, unique, stage'⟩ :: puts⟩ := by
  let moment (s : Stage × FileSystem) : Moment := ⟨s.2, [] ++ ⟨folder, k, v, unique, s.1⟩ :: puts⟩
  exact ReflTransGen.lift moment (fun _ _ hstep => .putGoesOn hstep) _ _ h

theorem run_of_put (hl : fs.Leads folder.directory parent) (k : Key) (v : Value)
    (puts : List Putting) :
    ∃ p, Run parent ⟨fs, puts⟩ ⟨(folder.put k v fs).2, p :: puts⟩ := by
  obtain ⟨r, stage, fs', hput, hsteps, -⟩ := folder.put_run k v fs
  rw [hput]
  exact ⟨_, .head (.putBegins k v fs.unique hl) (run_of_steps parent puts hsteps)⟩

end

end Moment

/-! ## Calls one after another -/

namespace FolderCall

variable {ι : Type} {folders : ι → EntryFolder} {parent : Location} {fs : FileSystem}

/-- The files after calls, whatever came of them. -/
def after (folders : ι → EntryFolder) (calls : List (FolderCall ι)) (fs : FileSystem) :
    FileSystem :=
  calls.foldl (fun fs call => (call.act folders fs).2) fs

/-- A call that has nothing to write: it looks a key up, its key has no file, or it removes a key
that has no value. -/
def Idle (folders : ι → EntryFolder) (fs : FileSystem) : FolderCall ι → Prop
  | .get _ _ => True
  | .put _ k _ => ∃ e, k.fileName = .error e
  | .remove f k => (∃ e, k.fileName = .error e) ∨ ((folders f).get k fs).1 = .ok none

/-- Each of the calls has nothing to write when its turn comes. -/
def AllIdle (folders : ι → EntryFolder) : List (FolderCall ι) → FileSystem → Prop
  | [], _ => True
  | call :: more, fs => call.Idle folders fs ∧ AllIdle folders more (call.act folders fs).2

theorem act_of_idle (hl : ∀ f, fs.Leads (folders f).directory parent) {call : FolderCall ι}
    (h : call.Idle folders fs) : (call.act folders fs).2 = fs := by
  cases call with
  | get f k => exact EntryFolder.act_get hl f k
  | put f k v =>
    obtain ⟨e, hname⟩ := h
    rw [act, EntryFolder.put_of_unnamed hname]
  | remove f k =>
    rcases h with ⟨e, hname⟩ | hmissing
    · rw [act, EntryFolder.remove_of_unnamed hname]
    · rw [act, EntryFolder.remove_missing (hl f) hmissing]

theorem after_of_idle (hl : ∀ f, fs.Leads (folders f).directory parent)
    {calls : List (FolderCall ι)} (h : AllIdle folders calls fs) : after folders calls fs = fs := by
  induction calls with
  | nil => rfl
  | cons call more ih =>
    obtain ⟨hcall, hmore⟩ := h
    have hact := act_of_idle hl hcall
    rw [hact] at hmore
    rw [after, List.foldl_cons, hact]
    exact ih hmore

theorem run_of_call (hl : ∀ f, fs.Leads (folders f).directory parent) (call : FolderCall ι)
    (puts : List Putting) :
    ∃ more, Moment.Run parent ⟨fs, puts⟩ ⟨(call.act folders fs).2, more ++ puts⟩ := by
  cases call with
  | get f k =>
    rw [EntryFolder.act_get hl]
    exact ⟨[], .refl⟩
  | put f k v =>
    obtain ⟨p, hrun⟩ := Moment.run_of_put (hl f) k v puts
    exact ⟨[p], hrun⟩
  | remove f k => exact ⟨[], .single (.remove k (hl f))⟩

theorem run_of_calls (hl : ∀ f, fs.Leads (folders f).directory parent)
    (calls : List (FolderCall ι)) (puts : List Putting) :
    ∃ more, Moment.Run parent ⟨fs, puts⟩ ⟨after folders calls fs, more ++ puts⟩ := by
  induction calls generalizing fs puts with
  | nil => exact ⟨[], .refl⟩
  | cons call rest ih =>
    obtain ⟨new, hcall⟩ := run_of_call hl call puts
    -- the same call, with no other put under way, keeps the way to the directory
    obtain ⟨_, halone⟩ := run_of_call hl call []
    obtain ⟨htells, -⟩ := halone.tells (Moment.onTrack_of_noPuts parent fs)
    obtain ⟨more, hrest⟩ := ih (fun f => htells.leads (hl f)) (new ++ puts)
    refine ⟨more ++ new, hcall.trans ?_⟩
    rw [List.append_assoc]
    exact hrest

end FolderCall

/-! ## The marker of a directory -/

/-- What a marker shows at the later of two moments is nothing that it showed at the earlier. A
marker that cannot be read shows nothing. -/
def MarkerKind.Moves (kind : MarkerKind) (fs fs' : FileSystem) : Prop :=
  ∀ s, kind.signal fs = .ok s → kind.signal fs' ≠ .ok s

/-- A marker follows what happens on a directory, from a state of the files in which no put is under
way. -/
structure MarkerKind.Follows (kind : MarkerKind) (parent : Location) (fs : FileSystem) : Prop where
  /-- If a folder answered otherwise at one moment than at another, the marker has moved from every
  moment before to every moment after. -/
  changed : ∀ {folder : EntryFolder} {m₁ m₂ m₃ m₄}, fs.Leads folder.directory parent →
    Moment.Run parent ⟨fs, []⟩ m₁ → Moment.Run parent m₁ m₂ → Moment.Run parent m₂ m₃ →
    Moment.Run parent m₃ m₄ → folder.readable m₂.files ≠ folder.readable m₃.files →
    kind.Moves m₁.files m₄.files
  /-- A put that ends well moves the marker, also if it puts what was there. -/
  put : ∀ {folder k v unique before after fs₂ fs₃ m₁ m₄}, Moment.Run parent ⟨fs, []⟩ m₁ →
    Moment.Run parent m₁ ⟨fs₂, before ++ ⟨folder, k, v, unique, .written⟩ :: after⟩ →
    PutStep folder k v unique (.written, fs₂) (.done, fs₃) →
    Moment.Run parent ⟨fs₃, before ++ ⟨folder, k, v, unique, .done⟩ :: after⟩ m₄ →
    kind.Moves m₁.files m₄.files
  /-- So does the removal of an entry, also of one that cannot be read. -/
  remove : ∀ {folder : EntryFolder} {k puts fs₂ fs₃ m₁ m₄}, Moment.Run parent ⟨fs, []⟩ m₁ →
    Moment.Run parent m₁ ⟨fs₂, puts⟩ → fs₂.Leads folder.directory parent →
    (folder.get k fs₂).1 ≠ .ok none → folder.remove k fs₂ = (.ok (), fs₃) →
    Moment.Run parent ⟨fs₃, puts⟩ m₄ → kind.Moves m₁.files m₄.files
  /-- Calls one after another are among what happens. -/
  calls : ∀ {ι : Type} {folders : ι → EntryFolder} (calls : List (FolderCall ι)) {m},
    (∀ f, fs.Leads (folders f).directory parent) → Moment.Run parent ⟨fs, []⟩ m →
    ∃ more, Moment.Run parent m ⟨FolderCall.after folders calls m.files, more ++ m.puts⟩
  /-- Calls that have nothing to write leave the marker as it is. -/
  idle : ∀ {ι : Type} {folders : ι → EntryFolder} {calls : List (FolderCall ι)} {m},
    (∀ f, fs.Leads (folders f).directory parent) → Moment.Run parent ⟨fs, []⟩ m →
    FolderCall.AllIdle folders calls m.files →
    kind.signal (FolderCall.after folders calls m.files) = kind.signal m.files

section Marker

variable {fs fs' : FileSystem} {p : Path} {parent : Location}

theorem FileSystem.checkPath_of_locate (h : fs.locate p = .ok parent) : checkPath p = .ok () := by
  cases hp : checkPath p with
  | ok => rfl
  | error e =>
    rw [locate_of_error hp] at h
    cases h

/-- Where a path leads, it shows the time of the directory, if calls take it. -/
theorem MarkerKind.signal_ok_iff (hl : fs.Leads p parent) (s : Signal) :
    (MarkerKind.file p).signal fs = .ok s ↔
      FileSystem.checkPath p = .ok () ∧ ∃ t, fs.modified? parent = some t ∧ s = .modified t := by
  obtain ⟨node, hnode, htime⟩ := FileSystem.exists_time hl.isDirectory
  cases hp : FileSystem.checkPath p with
  | error e =>
    have hmodified : Disk.modified p fs = (.error e, fs) :=
      Disk.bind_error _ (Disk.query_error (FileSystem.locate_of_error hp))
    rw [signal_file hmodified]
    simp [Except.map, Except.mapError]
  | ok =>
    have hmodified : Disk.modified p fs = (.ok node.modified, fs) := by
      rw [Disk.modified, Disk.bind_ok _ (Disk.query_ok (hl.locate hp)),
        Disk.bind_ok _ (show (get : Disk FileSystem) fs = (.ok fs, fs) from rfl), hnode]
      rfl
    rw [signal_file hmodified, htime]
    simp [Except.map, Except.mapError, eq_comm]

theorem MarkerKind.moves_of_modified (hl : fs.Leads p parent) (hl' : fs'.Leads p parent)
    (he : Elapsed parent fs) (hm : ModifiedSince parent fs fs') :
    (MarkerKind.file p).Moves fs fs' := by
  intro s hs hs'
  obtain ⟨-, t, htime, rfl⟩ := (signal_ok_iff hl s).1 hs
  obtain ⟨-, t', htime', ht⟩ := (signal_ok_iff hl' _).1 hs'
  cases ht
  exact hm.ne he (htime'.trans htime.symm)

/-- A marker moves from any moment to any later one if its directory was modified between. -/
theorem Moment.moves_of_modified {m₁ m₂ m₃ m₄ : Moment} (hl : fs.Leads p parent)
    (he : Elapsed parent fs) (h₁ : Run parent ⟨fs, []⟩ m₁) (h₂ : Run parent m₁ m₂)
    (h₃ : Run parent m₂ m₃) (hm : ModifiedSince parent m₂.files m₃.files)
    (h₄ : Run parent m₃ m₄) : (MarkerKind.file p).Moves m₁.files m₄.files := by
  obtain ⟨ht₁, hon₁⟩ := h₁.tells (onTrack_of_noPuts parent fs)
  obtain ⟨ht₂, hon₂⟩ := h₂.tells hon₁
  obtain ⟨ht₃, hon₃⟩ := h₃.tells hon₂
  obtain ⟨ht₄, -⟩ := h₄.tells hon₃
  have hl₁ := ht₁.leads hl
  have hl₄ := ((ht₂.trans ht₃).trans ht₄).leads hl₁
  have hm' := (ModifiedSince.after ht₂.passes hm).before ht₄.passes
  exact MarkerKind.moves_of_modified hl₁ hl₄ (ht₁.passes.elapsed he) hm'

/-- The time of a directory follows it, if it is not a tick to come. -/
theorem MarkerKind.follows_of_leads (hl : fs.Leads p parent) (he : Elapsed parent fs) :
    (MarkerKind.file p).Follows parent fs where
  changed := by
    intro folder m₁ m₂ m₃ m₄ hl' h₁ h₂ h₃ h₄ hne
    obtain ⟨ht₂, hon₂⟩ := Moment.Run.tells (h₁.trans h₂) (Moment.onTrack_of_noPuts parent fs)
    obtain ⟨ht₃, -⟩ := h₃.tells hon₂
    exact Moment.moves_of_modified hl he h₁ h₂ h₃
      (ht₃.modified_of_readable_ne (ht₂.leads hl') hne) h₄
  put := by
    intro folder k v unique before after fs₂ fs₃ m₁ m₄ h₁ h₂ hstep h₄
    obtain ⟨-, hon₂⟩ := Moment.Run.tells (h₁.trans h₂) (Moment.onTrack_of_noPuts parent fs)
    obtain ⟨hl₂, -⟩ := hon₂ ⟨folder, k, v, unique, .written⟩ (by simp)
    exact Moment.moves_of_modified hl he h₁ h₂ (.single (.putGoesOn hstep))
      (hstep.modifies hl₂) h₄
  remove := by
    intro folder k puts fs₂ fs₃ m₁ m₄ h₁ h₂ hl₂ hthere hremove h₄
    have hnext : Moment.Next parent ⟨fs₂, puts⟩ ⟨(folder.remove k fs₂).2, puts⟩ := .remove k hl₂
    rw [hremove] at hnext
    exact Moment.moves_of_modified hl he h₁ h₂ (.single hnext)
      (EntryFolder.remove_modifies hl₂ hthere hremove) h₄
  calls := by
    intro ι folders calls m hl' h
    obtain ⟨ht, -⟩ := h.tells (Moment.onTrack_of_noPuts parent fs)
    exact FolderCall.run_of_calls (fun f => ht.leads (hl' f)) calls m.puts
  idle := by
    intro ι folders calls m hl' h hidle
    obtain ⟨ht, -⟩ := h.tells (Moment.onTrack_of_noPuts parent fs)
    rw [FolderCall.after_of_idle (fun f => ht.leads (hl' f)) hidle]

/-- The directory of a store that a plain cabinet has opened is there. -/
theorem Cabinet.leads_of_openStore {σ : Type} {w w' : World σ} {base file : Path} {format : Format}
    {type : ValueType} {store : OpenStore} (hhome : w.files.isDirectory w.files.home = true)
    (h : Cabinet.openStore type file (.plain base format) w = (.ok (.ok store), w')) :
    ∃ parent, store = .folder ⟨base.join file, format, type⟩ ∧
      w'.files.Leads (base.join file) parent ∧ Passes parent w.files w'.files := by
  let folder : EntryFolder := ⟨base.join file, format, type⟩
  obtain ⟨r, files, hcreate⟩ : ∃ r files, folder.create w.files = (r, files) := ⟨_, _, rfl⟩
  have hdisk : Act.disk folder.create w = (.ok r, { w with files := files }) := by
    rw [Act.disk, hcreate]
  rw [Cabinet.openStore, Act.bind_ok _ hdisk] at h
  cases r with
  | error e => cases h
  | ok =>
    cases h
    obtain ⟨parent, hl⟩ := EntryFolder.leads_of_create hhome hcreate
    exact ⟨parent, rfl, hl, (Disk.ticks_makeDirectories parent folder.directory).of_run hcreate⟩

/-- The modification time of a directory is a sound marker for all folders on it, whatever happens
there: lookups, removals, and puts that go on side by side, fail or are broken off. If a folder
answered otherwise in between, or a write ended well, the time has changed; calls that have nothing
to write leave it as it is. Of this kind is the marker of a store of a plain cabinet when there is
no master store. -/
theorem MarkerKind.directory_is_a_sound_marker :
    (∀ {fs : FileSystem} {p parent}, fs.locate p = .ok parent → fs.isDirectory parent = true →
      Elapsed parent fs → (MarkerKind.file p).Follows parent fs ∧
        ∀ {m}, Moment.Run parent ⟨fs, []⟩ m →
          ∃ time, (MarkerKind.file p).signal m.files = .ok (.modified time)) ∧
    ∀ {σ : Type} {w w' : World σ} {base format settings type file store}, settings.master = none →
      w.files.isDirectory w.files.home = true → (∀ place, Elapsed place w.files) →
      Cabinet.openStore type file (.plain base format) w = (.ok (.ok store), w') →
      ∃ parent, store = .folder ⟨base.join file, format, type⟩ ∧
        w'.files.Leads (base.join file) parent ∧
        ((Cabinet.plain base format).markerKind settings
          ((Cabinet.plain base format).storePath file)).Follows parent w'.files := by
  constructor
  · intro fs p parent hlocate hd he
    have hl := FileSystem.leads_of_locate hlocate hd
    refine ⟨follows_of_leads hl he, fun {m} h => ?_⟩
    obtain ⟨ht, -⟩ := h.tells (Moment.onTrack_of_noPuts parent fs)
    have hl' := ht.leads hl
    obtain ⟨node, hnode⟩ :=
      Option.isSome_iff_exists.1 (FileSystem.isSome_of_isDirectory hl'.isDirectory)
    refine ⟨node.modified, (signal_ok_iff hl' _).2
      ⟨FileSystem.checkPath_of_locate hlocate, _, ?_, rfl⟩⟩
    rw [FileSystem.modified?, hnode]
    rfl
  · intro σ w w' base format settings type file store hmaster hhome helapsed hopen
    obtain ⟨parent, hstore, hl, hpasses⟩ := Cabinet.leads_of_openStore hhome hopen
    refine ⟨parent, hstore, hl, ?_⟩
    rw [Cabinet.markerKind, hmaster]
    exact follows_of_leads hl (hpasses.elapsed (helapsed parent))

/-- A put that ends well is done by its last step. -/
theorem EntryFolder.written_of_put {folder : EntryFolder} {k : Key} {v : Value}
    (h : folder.put k v fs = (.ok (), fs')) :
    ∃ fs₁, ReflTransGen (PutStep folder k v fs.unique) (.begun, fs) (.written, fs₁) ∧
      PutStep folder k v fs.unique (.written, fs₁) (.done, fs') := by
  obtain ⟨r, stage, fs'', hput, hsteps, hends⟩ := folder.put_run k v fs
  rw [hput] at h
  cases h
  obtain ⟨-, rfl⟩ : Except.ok () = Except.ok () ∧ stage = .done := hends.resolve_right nofun
  rcases hsteps.cases_tail with hsame | ⟨⟨stage, fs₁⟩, hsteps, hstep⟩
  · cases hsame
  · cases hstep with
    | rename hpath hrename => exact ⟨fs₁, hsteps, .rename hpath hrename⟩

/-- A value that is put a second time moves the marker, though nothing is answered otherwise. The
marker of a store that was just opened follows it. -/
theorem putting_again_moves_the_marker :
    ∃ fs₁ fs₂, (twoFolders false).put (.text "a") (.u8 1) emptyDirectory = (.ok (), fs₁) ∧
      (twoFolders true).put (.text "a") (.u8 1) fs₁ = (.ok (), fs₂) ∧
      (∃ time, (MarkerKind.file (Path.ofString "d")).signal fs₁ = .ok (.modified time) ∧
        (MarkerKind.file (Path.ofString "d")).signal fs₂ ≠ .ok (.modified time)) ∧
      ∃ store w parent, Cabinet.openStore .u8 (Path.ofString "s")
          (.plain (Path.ofString "c") .binary) (World.initial ()) = (.ok (.ok store), w) ∧
        (MarkerKind.file (Path.ofString "c/s")).Follows parent w.files := by
  have hends : ∀ {x : Except StoreError Unit × FileSystem}, x.1 = .ok () → x = (.ok (), x.2) :=
    fun h => Prod.ext h rfl
  have hput₁ := hends (x := (twoFolders false).put (.text "a") (.u8 1) emptyDirectory) rfl
  have hput₂ := hends (x := (twoFolders true).put (.text "a") (.u8 1)
    ((twoFolders false).put (.text "a") (.u8 1) emptyDirectory).2) rfl
  generalize ((twoFolders false).put (.text "a") (.u8 1) emptyDirectory).2 = fs₁ at hput₁ hput₂
  generalize ((twoFolders true).put (.text "a") (.u8 1) fs₁).2 = fs₂ at hput₂
  have hpasses : Passes [[0x77], [0x64]] FileSystem.initial emptyDirectory :=
    Disk.ticks_makeDirectory _ (Path.ofString "d") _
  have helapsed := hpasses.elapsed (FileSystem.elapsed_initial _)
  obtain ⟨hdirectories, hcabinets⟩ := MarkerKind.directory_is_a_sound_marker
  obtain ⟨hfollows, htime⟩ := hdirectories (p := Path.ofString "d") rfl rfl helapsed
  have hl : ∀ f, emptyDirectory.Leads (twoFolders f).directory [[0x77], [0x64]] := by
    rintro (_ | _) <;> exact ⟨rfl, rfl⟩
  obtain ⟨p₁, hrun₁⟩ := Moment.run_of_put (hl false) (.text "a") (.u8 1) []
  rw [hput₁] at hrun₁
  obtain ⟨htells, -⟩ := hrun₁.tells (Moment.onTrack_of_noPuts _ _)
  -- the second put goes on from there to its last step
  obtain ⟨fs', hsteps, hdone⟩ := EntryFolder.written_of_put hput₂
  have hrun₂ : Moment.Run [[0x77], [0x64]] ⟨fs₁, [p₁]⟩
      ⟨fs', [] ++ ⟨twoFolders true, .text "a", .u8 1, fs₁.unique, .written⟩ :: [p₁]⟩ :=
    (Moment.run_of_steps _ [p₁] hsteps).head (.putBegins _ _ _ (htells.leads (hl true)))
  have hmoves := hfollows.put hrun₁ hrun₂ hdone .refl
  obtain ⟨time, hshown⟩ := htime hrun₁
  refine ⟨fs₁, fs₂, hput₁, hput₂, ⟨time, hshown, hmoves _ hshown⟩, ?_⟩
  have hmaster : Settings.default.master = none := rfl
  have hopen : Cabinet.openStore .u8 (Path.ofString "s") (.plain (Path.ofString "c") .binary)
      (World.initial ()) = (.ok (.ok (.folder ⟨Path.ofString "c/s", .binary, .u8⟩)), _) := rfl
  obtain ⟨parent, -, -, hstore⟩ := hcabinets hmaster rfl FileSystem.elapsed_initial hopen
  exact ⟨_, _, parent, rfl, hstore⟩

end Marker

end LeaseCache
