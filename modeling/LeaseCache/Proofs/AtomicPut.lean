import LeaseCache.Proofs.FolderSpec
import Mathlib.Logic.Relation

/-!
# A put, step by step

A put makes a temporary file, writes it in any number of pieces, gives it the name of the entry, and
takes it away if anything fails. Each of these steps can be refused, can fail on its own, and can be
the last one that is ever done (`PutStep`). At every moment the entry is the old one or the new one,
complete, and nothing else in the directory changes but the temporary file
(`EntryFolder.put_is_atomic`).

The invariant is `Stands`: what is where, for each stage a put can be in. The put of a folder is one
of these runs (`EntryFolder.put_run`).
-/

namespace LeaseCache

open FileSystem (KeptBut Leads PlainName Writable Becomes)
open EntryFolder (temporaryName temporaryName_ne plainName_temporary)
open Relation (ReflTransGen)

/-! ## Steps -/

/-- Where a put stands. -/
inductive Stage where
  | begun
  /-- The temporary file is open at a place, and these bytes are still to be written. -/
  | writing (place : Location) (rest : List UInt8)
  /-- The temporary file has all its bytes. -/
  | written
  /-- Something has failed. If the temporary file is still open, what was held back for it can still
  be written. -/
  | failing (e : StoreError) (open? : Option Location)
  | done
  /-- The put has failed, and the temporary file was removed or not. -/
  | failed (e : StoreError) (cleaned : Bool)

/-- What a put does next, with a temporary file of its own. A step that fails on its own changes
nothing, and can fail in any way. -/
inductive PutStep (folder : EntryFolder) (k : Key) (v : Value) (unique : UniqueName) :
    Stage × FileSystem → Stage × FileSystem → Prop
  | refuse {fs e} : folder.entryPath k = .error e →
    PutStep folder k v unique (.begun, fs) (.failed e false, fs)
  | create {fs fs' path place} : folder.entryPath k = .ok path →
    Disk.create (folder.temporaryPath unique) fs = (.ok place, fs') →
    PutStep folder k v unique (.begun, fs) (.writing place (folder.format.encode v), fs')
  | createRefused {fs fs' path e} : folder.entryPath k = .ok path →
    Disk.create (folder.temporaryPath unique) fs = (.error e, fs') →
    PutStep folder k v unique (.begun, fs) (.failing (.file e) none, fs')
  | createFails {fs path} (e) : folder.entryPath k = .ok path →
    PutStep folder k v unique (.begun, fs) (.failing e none, fs)
  | write {fs fs' place} (piece rest) : Disk.append place piece fs = (.ok (), fs') →
    PutStep folder k v unique (.writing place (piece ++ rest), fs) (.writing place rest, fs')
  /-- The value cannot be encoded further, or the file cannot be written. -/
  | writeFails {fs place rest} (e) :
    PutStep folder k v unique (.writing place rest, fs) (.failing e (some place), fs)
  /-- What was held back is written when the file is closed. -/
  | spill {fs fs' e place} (bytes) : Disk.append place bytes fs = (.ok (), fs') →
    PutStep folder k v unique (.failing e (some place), fs) (.failing e (some place), fs')
  | flush {fs place} : PutStep folder k v unique (.writing place [], fs) (.written, fs)
  | rename {fs fs' path} : folder.entryPath k = .ok path →
    Disk.rename (folder.temporaryPath unique) path fs = (.ok (), fs') →
    PutStep folder k v unique (.written, fs) (.done, fs')
  | renameRefused {fs fs' path e} : folder.entryPath k = .ok path →
    Disk.rename (folder.temporaryPath unique) path fs = (.error e, fs') →
    PutStep folder k v unique (.written, fs) (.failing (.file e) none, fs')
  | renameFails {fs} (e) : PutStep folder k v unique (.written, fs) (.failing e none, fs)
  | cleanUp {fs fs' e open?} : Disk.removeFile (folder.temporaryPath unique) fs = (.ok (), fs') →
    PutStep folder k v unique (.failing e open?, fs) (.failed e true, fs')
  | cleanUpRefused {fs fs' e e' open?} :
    Disk.removeFile (folder.temporaryPath unique) fs = (.error e', fs') →
    PutStep folder k v unique (.failing e open?, fs) (.failed e false, fs')
  | cleanUpFails {fs e open?} :
    PutStep folder k v unique (.failing e open?, fs) (.failed e false, fs)

/-! ## What stands where -/

/-- Nothing has changed but the temporary file, which is `x` now; no directory is in its place. -/
structure TemporaryIs (folder : EntryFolder) (unique : UniqueName) (fs₀ : FileSystem)
    (parent : Location) (x : Option Content) (fs : FileSystem) : Prop where
  leads : fs₀.Leads folder.directory parent
  noDirectory : fs₀.content? (parent ++ [temporaryName unique]) ≠ some .directory
  file : x ≠ some .directory
  home : fs.home = fs₀.home
  content : fs.content? = Function.update fs₀.content? (parent ++ [temporaryName unique]) x

/-- The entry holds the bytes, the temporary file is gone, and nothing else has changed. -/
structure EntryIs (folder : EntryFolder) (unique : UniqueName) (fs₀ : FileSystem)
    (parent : Location) (name bytes : List UInt8) (fs : FileSystem) : Prop where
  leads : fs₀.Leads folder.directory parent
  noDirectory : fs₀.content? (parent ++ [temporaryName unique]) ≠ some .directory
  noDirectory' : fs₀.content? (parent ++ [name]) ≠ some .directory
  home : fs.home = fs₀.home
  content : fs.content? = Function.update
    (Function.update fs₀.content? (parent ++ [temporaryName unique]) none) (parent ++ [name])
    (some (.file bytes))

section Places

variable {folder : EntryFolder} {unique : UniqueName} {fs₀ fs fs' : FileSystem}
  {parent parent' : Location} {x y : Option Content} {name bytes : List UInt8} {k : Key}

theorem entry_ne_temporary (hname : k.fileName = .ok name) (parent : Location)
    (unique : UniqueName) :
    parent ++ [name] ≠ parent ++ [temporaryName unique] := by
  intro heq
  rw [List.append_cancel_left_eq, List.cons.injEq] at heq
  exact temporaryName_ne unique hname heq.1.symm

theorem TemporaryIs.keptBut (h : TemporaryIs folder unique fs₀ parent x fs) :
    KeptBut [parent ++ [temporaryName unique]] fs₀ fs := by
  have hbecomes : fs₀.Becomes _ fs := ⟨h.home, h.content⟩
  exact hbecomes.keptBut_update h.noDirectory h.file

theorem TemporaryIs.set (h : TemporaryIs folder unique fs₀ parent x fs)
    (hb : fs.Becomes (Function.update fs.content? (parent ++ [temporaryName unique]) y) fs')
    (hy : y ≠ some .directory) : TemporaryIs folder unique fs₀ parent y fs' where
  leads := h.leads
  noDirectory := h.noDirectory
  file := hy
  home := hb.home.trans h.home
  content := by rw [hb.content, h.content, Function.update_idem]

theorem TemporaryIs.start (hw : fs₀.Writable folder.directory (temporaryName unique) parent)
    (hb : fs₀.Becomes (Function.update fs₀.content? (parent ++ [temporaryName unique]) y) fs)
    (hy : y ≠ some .directory) : TemporaryIs folder unique fs₀ parent y fs :=
  ⟨hw.leads, hw.noDirectory, hy, hb.home, hb.content⟩

theorem TemporaryIs.content_self (h : TemporaryIs folder unique fs₀ parent x fs) :
    fs.content? (parent ++ [temporaryName unique]) = x := by
  rw [h.content, Function.update_self]

theorem TemporaryIs.parent_eq (h : TemporaryIs folder unique fs₀ parent x fs)
    (hl : fs.Leads folder.directory parent') : parent' = parent :=
  hl.unique (h.leads.kept h.keptBut)

/-- The temporary file has taken the name of the entry. -/
theorem TemporaryIs.renamed (h : TemporaryIs folder unique fs₀ parent (some (.file bytes)) fs)
    (hname : k.fileName = .ok name) (hw : fs.Writable folder.directory name parent)
    (hb : fs.Becomes (Function.update
      (Function.update fs.content? (parent ++ [temporaryName unique]) none) (parent ++ [name])
      (some (.file bytes))) fs') : EntryIs folder unique fs₀ parent name bytes fs' where
  leads := h.leads
  noDirectory := h.noDirectory
  noDirectory' := by
    have hentry := hw.noDirectory
    rwa [h.content, Function.update_of_ne (entry_ne_temporary hname parent unique)] at hentry
  home := hb.home.trans h.home
  content := by rw [hb.content, h.content, Function.update_idem]

theorem EntryIs.keptBut (h : EntryIs folder unique fs₀ parent name bytes fs) :
    KeptBut [parent ++ [temporaryName unique], parent ++ [name]] fs₀ fs := by
  have hbecomes : fs₀.Becomes _ fs := ⟨h.home, h.content⟩
  exact hbecomes.keptBut_update_update h.noDirectory h.noDirectory' (by simp) (by simp)

end Places

/-- What stands where in each stage of a put that began in `fs₀`. -/
def Stands (folder : EntryFolder) (k : Key) (v : Value) (fs₀ : FileSystem) :
    Stage × FileSystem → Prop
  | (.begun, fs) => fs = fs₀
  | (.writing place rest, fs) => ∃ parent bytes, place = parent ++ [temporaryName fs₀.unique] ∧
    TemporaryIs folder fs₀.unique fs₀ parent (some (.file bytes)) fs ∧
    bytes ++ rest = folder.format.encode v
  | (.written, fs) => ∃ parent,
    TemporaryIs folder fs₀.unique fs₀ parent (some (.file (folder.format.encode v))) fs
  | (.failing _ none, fs) => fs = fs₀ ∨
    ∃ parent bytes, TemporaryIs folder fs₀.unique fs₀ parent (some (.file bytes)) fs
  | (.failing _ (some place), fs) => ∃ parent bytes,
    place = parent ++ [temporaryName fs₀.unique] ∧
    TemporaryIs folder fs₀.unique fs₀ parent (some (.file bytes)) fs
  | (.done, fs) => ∃ parent name, k.fileName = .ok name ∧
    EntryIs folder fs₀.unique fs₀ parent name (folder.format.encode v) fs
  | (.failed _ cleaned, fs) => fs = fs₀ ∧ cleaned = false ∨
    ∃ parent x, TemporaryIs folder fs₀.unique fs₀ parent x fs ∧ (cleaned = true → x = none)

namespace Stands

variable {folder : EntryFolder} {k : Key} {v : Value} {fs₀ fs : FileSystem} {e : StoreError}
  {open? : Option Location}

/-- A put that fails has left a temporary file at most. -/
theorem of_failing (h : Stands folder k v fs₀ (.failing e open?, fs)) : fs = fs₀ ∨
    ∃ parent bytes, TemporaryIs folder fs₀.unique fs₀ parent (some (.file bytes)) fs := by
  cases open? with
  | none => exact h
  | some place =>
    obtain ⟨parent, bytes, -, htemporary⟩ := h
    exact .inr ⟨parent, bytes, htemporary⟩

/-- Without a clean-up it stays there. -/
theorem uncleaned (h : Stands folder k v fs₀ (.failing e open?, fs)) :
    Stands folder k v fs₀ (.failed e false, fs) := by
  rcases h.of_failing with rfl | ⟨parent, bytes, hbytes⟩
  · exact .inl ⟨rfl, rfl⟩
  · exact .inr ⟨parent, _, hbytes, nofun⟩

theorem step {s s' : Stage × FileSystem} (h : Stands folder k v fs₀ s)
    (hstep : PutStep folder k v fs₀.unique s s') : Stands folder k v fs₀ s' := by
  have htemporary := plainName_temporary fs₀.unique
  cases hstep with
  | refuse hpath => exact .inl ⟨h, rfl⟩
  | @create fs fs' path place hpath hcreate =>
    obtain rfl : fs = fs₀ := h
    obtain ⟨parent, hw, rfl, hcreated⟩ := Disk.of_create_ok htemporary hcreate
    exact ⟨parent, [], rfl, .start hw hcreated (by simp), rfl⟩
  | createRefused hpath hcreate => exact .inl ((Disk.of_create_error htemporary hcreate).trans h)
  | createFails e hpath => exact .inl h
  | write piece rest happend =>
    obtain ⟨parent, bytes, rfl, hbytes, hencode⟩ := h
    have hwritten := Disk.of_append_ok hbytes.content_self happend
    exact ⟨parent, bytes ++ piece, rfl, hbytes.set hwritten (by simp),
      by rw [List.append_assoc, hencode]⟩
  | writeFails e =>
    obtain ⟨parent, bytes, hplace, hbytes, -⟩ := h
    exact ⟨parent, bytes, hplace, hbytes⟩
  | spill more happend =>
    obtain ⟨parent, bytes, rfl, hbytes⟩ := h
    have hwritten := Disk.of_append_ok hbytes.content_self happend
    exact ⟨parent, bytes ++ more, rfl, hbytes.set hwritten (by simp)⟩
  | flush =>
    obtain ⟨parent, bytes, -, hbytes, hencode⟩ := h
    rw [List.append_nil] at hencode
    exact ⟨parent, hencode ▸ hbytes⟩
  | rename hpath hrename =>
    obtain ⟨parent, hbytes⟩ := h
    obtain ⟨name, hname, rfl⟩ := EntryFolder.named_of_entryPath hpath
    obtain ⟨hw, hrenamed⟩ := Disk.of_rename_ok htemporary (Key.plainName_of_fileName hname)
      (hbytes.leads.kept hbytes.keptBut) hbytes.content_self hrename
    exact ⟨parent, name, hname, hbytes.renamed hname hw hrenamed⟩
  | renameRefused hpath hrename =>
    obtain ⟨parent, hbytes⟩ := h
    exact .inr ⟨parent, _, Disk.of_rename_error hrename ▸ hbytes⟩
  | renameFails e =>
    obtain ⟨parent, hbytes⟩ := h
    exact .inr ⟨parent, _, hbytes⟩
  | cleanUp hremove =>
    obtain ⟨parent, hw, hremoved⟩ := Disk.of_removeFile_ok htemporary hremove
    -- nothing was made here, and yet a file of that name can have been there
    rcases h.of_failing with rfl | ⟨parent', bytes, hbytes⟩
    · exact .inr ⟨parent, none, .start hw hremoved (by simp), fun _ => rfl⟩
    · obtain rfl := hbytes.parent_eq hw.leads
      exact .inr ⟨parent, none, hbytes.set hremoved (by simp), fun _ => rfl⟩
  | cleanUpRefused hremove =>
    rw [Disk.of_removeFile_error htemporary hremove]
    exact h.uncleaned
  | cleanUpFails => exact h.uncleaned

theorem run {s : Stage × FileSystem}
    (hrun : ReflTransGen (PutStep folder k v fs₀.unique) (.begun, fs₀) s) :
    Stands folder k v fs₀ s := by
  induction hrun with
  | refl => rfl
  | tail _ hstep ih => exact ih.step hstep

end Stands

/-! ## What others see -/

/-- What a put may have changed at a moment: the temporary file, and the entry, which is the old one
or the new one. -/
structure Replacing (k : Key) (bytes : List UInt8) (unique : UniqueName) (parent : Location)
    (fs₀ fs : FileSystem) : Prop where
  home : fs.home = fs₀.home
  directories : ∀ place, fs.isDirectory place = fs₀.isDirectory place
  other : ∀ place, place ≠ parent ++ [temporaryName unique] →
    (∀ name, k.fileName = .ok name → place ≠ parent ++ [name]) →
    fs.content? place = fs₀.content? place
  entry : ∀ name, k.fileName = .ok name →
    fs.content? (parent ++ [name]) = fs₀.content? (parent ++ [name]) ∨
      fs.content? (parent ++ [name]) = some (.file bytes)

section Replacing

variable {folder folder' : EntryFolder} {k l : Key} {v : Value} {fs₀ fs : FileSystem}
  {parent parent' : Location} {bytes name : List UInt8} {unique : UniqueName} {stage : Stage}
  {x : Option Content}

theorem TemporaryIs.other (h : TemporaryIs folder unique fs₀ parent x fs) {place : Location}
    (hplace : place ≠ parent ++ [temporaryName unique]) :
    fs.content? place = fs₀.content? place := by
  rw [h.content, Function.update_of_ne hplace]

theorem TemporaryIs.replacing (h : TemporaryIs folder unique fs₀ parent x fs) (k : Key)
    (bytes : List UInt8) : Replacing k bytes unique parent fs₀ fs where
  home := h.home
  directories := h.keptBut.directories
  other _ hplace _ := h.other hplace
  entry _ hname := .inl (h.other (entry_ne_temporary hname parent unique))

theorem EntryIs.replacing (h : EntryIs folder unique fs₀ parent name bytes fs)
    (hname : k.fileName = .ok name) : Replacing k bytes unique parent fs₀ fs where
  home := h.home
  directories := h.keptBut.directories
  other place hplace hentry := by
    rw [h.content, Function.update_of_ne (hentry name hname), Function.update_of_ne hplace]
  entry name' hname' := by
    cases hname.symm.trans hname'
    rw [h.content, Function.update_self]
    exact .inr rfl

theorem Replacing.refl (k : Key) (bytes : List UInt8) (unique : UniqueName) (parent : Location)
    (fs : FileSystem) : Replacing k bytes unique parent fs fs :=
  ⟨rfl, fun _ => rfl, fun _ _ _ => rfl, fun _ _ => .inl rfl⟩

theorem Replacing.leads {directory : Path} (h : Replacing k bytes unique parent fs₀ fs)
    (hl : fs₀.Leads directory parent') : fs.Leads directory parent' :=
  hl.mono h.home fun place hd => (h.directories place).trans hd

/-- Any folder on the directory answers for the key with the old value or the new one. -/
theorem Replacing.get (h : Replacing k bytes unique parent fs₀ fs)
    (hl : fs₀.Leads folder'.directory parent) :
    (folder'.get k fs).1 = (folder'.get k fs₀).1 ∨
      (folder'.get k fs).1 = some <$> folder'.format.decode folder'.type bytes := by
  by_cases hs : ∃ name, folder'.Stores k name
  · obtain ⟨name, hs⟩ := hs
    rw [EntryFolder.get_of_stores (h.leads hl) hs, EntryFolder.get_of_stores hl hs]
    rcases h.entry name hs.named with hold | hnew
    · exact .inl (by rw [hold])
    · exact .inr (by rw [hnew, EntryFolder.read])
  · obtain ⟨e, he⟩ := EntryFolder.get_of_not_stores (not_exists.1 hs)
    rw [he (h.leads hl), he hl]
    exact .inl rfl

/-- Any folder on the directory answers for other keys as before. -/
theorem Replacing.get_other (h : Replacing k bytes unique parent fs₀ fs)
    (hl : fs₀.Leads folder'.directory parent) (hne : l ≠ k) :
    (folder'.get l fs).1 = (folder'.get l fs₀).1 := by
  have hkept : EntryFolder.Kept k parent fs₀ fs := by
    refine ⟨h.leads, fun {m name} hm hname => ?_⟩
    refine h.other _ (entry_ne_temporary hname parent unique) fun name' hname' heq => ?_
    rw [List.append_cancel_left_eq, List.cons.injEq] at heq
    exact hm (Key.eq_of_fileName hname (heq.1 ▸ hname'))
  obtain ⟨r, hget⟩ := EntryFolder.get_keeps_files hl l
  rw [hkept.get hl hne hget, hget]

/-- Where the same names stand, they are listed. -/
theorem Replacing.list (h : Replacing k bytes unique parent fs₀ fs)
    (hl : fs₀.Leads folder.directory parent)
    (hsame : fs.content? = fs₀.content?) {p : Path} (hlocate : fs₀.locate p = .ok parent) :
    ∃ names names', Disk.list p fs₀ = (.ok names, fs₀) ∧ Disk.list p fs = (.ok names', fs) ∧
      names'.Perm names := by
  have hdirs : ∀ q, fs₀.isDirectory q = true → fs.isDirectory q = true := fun q hq =>
    (h.directories q).trans hq
  obtain ⟨names, hlist, hnodup, hmem⟩ := Disk.list_ok hlocate hl.isDirectory
  obtain ⟨names', hlist', hnodup', hmem'⟩ :=
    Disk.list_ok (FileSystem.locate_mono h.home hdirs hlocate hl.isDirectory)
      (hdirs _ hl.isDirectory)
  refine ⟨names, names', hlist, hlist', (List.perm_ext_iff_of_nodup hnodup' hnodup).2 ?_⟩
  intro name
  rw [hmem', hmem, hsame]

/-- A put that is not done has changed the temporary file at most. -/
theorem Stands.cases (h : Stands folder k v fs₀ (stage, fs)) :
    fs = fs₀ ∨ (∃ parent x, TemporaryIs folder fs₀.unique fs₀ parent x fs) ∨
      stage = .done ∧ ∃ parent name, k.fileName = .ok name ∧
        EntryIs folder fs₀.unique fs₀ parent name (folder.format.encode v) fs := by
  cases stage with
  | begun => exact .inl h
  | writing place rest =>
    obtain ⟨parent, bytes, -, hbytes, -⟩ := h
    exact .inr (.inl ⟨parent, _, hbytes⟩)
  | written =>
    obtain ⟨parent, hbytes⟩ := h
    exact .inr (.inl ⟨parent, _, hbytes⟩)
  | failing e open? =>
    rcases h.of_failing with hsame | ⟨parent, bytes, hbytes⟩
    · exact .inl hsame
    · exact .inr (.inl ⟨parent, _, hbytes⟩)
  | done => exact .inr (.inr ⟨rfl, h⟩)
  | failed e cleaned =>
    rcases h with ⟨hsame, -⟩ | ⟨parent, x, htemporary, -⟩
    · exact .inl hsame
    · exact .inr (.inl ⟨parent, x, htemporary⟩)

theorem Stands.replacing (h : Stands folder k v fs₀ (stage, fs))
    (hl : fs₀.Leads folder.directory parent) :
    Replacing k (folder.format.encode v) fs₀.unique parent fs₀ fs := by
  rcases h.cases with rfl | ⟨parent', x, htemporary⟩ | ⟨-, parent', name, hname, hentry⟩
  · exact .refl _ _ _ _ _
  · obtain rfl := htemporary.leads.unique hl
    exact htemporary.replacing k _
  · obtain rfl := hentry.leads.unique hl
    exact hentry.replacing hname

theorem Stands.unchanged (h : Stands folder k v fs₀ (stage, fs))
    (hnot : ∀ parent, ¬ fs₀.Leads folder.directory parent) : fs = fs₀ := by
  rcases h.cases with hsame | ⟨parent, x, htemporary⟩ | ⟨-, parent, name, -, hentry⟩
  · exact hsame
  · exact absurd htemporary.leads (hnot parent)
  · exact absurd hentry.leads (hnot parent)

/-- A put that has failed has changed the temporary file at most, and removed it if it was cleaned
up. -/
theorem Stands.of_failed {e : StoreError} {cleaned : Bool}
    (h : Stands folder k v fs₀ (.failed e cleaned, fs)) (hl : fs₀.Leads folder.directory parent) :
    (∀ place, place ≠ parent ++ [temporaryName fs₀.unique] →
      fs.content? place = fs₀.content? place) ∧
    (fs₀.content? (parent ++ [temporaryName fs₀.unique]) = none →
      cleaned = true ∨ fs.content? (parent ++ [temporaryName fs₀.unique]) = none →
      fs.content? = fs₀.content?) := by
  rcases h with ⟨rfl, -⟩ | ⟨parent', x, htemporary, hcleaned⟩
  · exact ⟨fun _ _ => rfl, fun _ _ => rfl⟩
  · obtain rfl := htemporary.leads.unique hl
    refine ⟨fun place => htemporary.other, fun hfresh hgone => ?_⟩
    have hx : x = none := by
      rcases hgone with hdone | hgone
      · exact hcleaned hdone
      · rwa [htemporary.content_self] at hgone
    rw [htemporary.content, hx, ← hfresh, Function.update_eq_self]

theorem Stands.of_done (h : Stands folder k v fs₀ (.done, fs))
    (hl : fs₀.Leads folder.directory parent) (hname : k.fileName = .ok name) :
    fs.content? (parent ++ [name]) = some (.file (folder.format.encode v)) := by
  obtain ⟨parent', name', hname', hentry⟩ := h
  obtain rfl := hentry.leads.unique hl
  cases hname.symm.trans hname'
  rw [hentry.content, Function.update_self]

end Replacing

/-! ## The put of a folder -/

namespace EntryFolder

variable {folder : EntryFolder} {k : Key} {v : Value} {unique : UniqueName} {fs fs' : FileSystem}
  {name : List UInt8}

theorem put_of_replaceEntry_ok (hname : k.fileName = .ok name)
    (h : replaceEntry (folder.temporaryPath fs.unique) (folder.directory.join ⟨name⟩)
      (folder.format.encode v) fs = (.ok (), fs')) : folder.put k v fs = (.ok (), fs') := by
  unfold put
  rw [entryPath_of_named hname, Disk.bind_ok _ (FileCall.liftExcept_apply _ _),
    Disk.bind_ok _ (show (getThe FileSystem : FileCall FileSystem) fs = (.ok fs, fs) from rfl),
    Disk.bind_ok _ (FileCall.liftDisk_apply h)]
  rfl

theorem put_of_replaceEntry_error {e : FileError} {fs'' : FileSystem} {r : Except FileError Unit}
    (hname : k.fileName = .ok name)
    (h : replaceEntry (folder.temporaryPath fs.unique) (folder.directory.join ⟨name⟩)
      (folder.format.encode v) fs = (.error e, fs'))
    (hremove : Disk.removeFile (folder.temporaryPath fs.unique) fs' = (r, fs'')) :
    folder.put k v fs = (.error (.file e), fs'') := by
  unfold put
  rw [entryPath_of_named hname, Disk.bind_ok _ (FileCall.liftExcept_apply _ _),
    Disk.bind_ok _ (show (getThe FileSystem : FileCall FileSystem) fs = (.ok fs, fs) from rfl),
    Disk.bind_ok _ (FileCall.liftDisk_apply h)]
  dsimp only
  rw [Disk.bind_ok _ (FileCall.liftDisk_apply hremove)]
  rfl

/-- Where the temporary file can be made, it gets all bytes. -/
theorem run_to_written {path : Path} {parent : Location} (hpath : folder.entryPath k = .ok path)
    (hw : fs.Writable folder.directory (temporaryName fs.unique) parent) (v : Value) :
    ∃ fs', replaceEntry (folder.temporaryPath fs.unique) path (folder.format.encode v) fs =
        Disk.rename (folder.temporaryPath fs.unique) path fs' ∧
      ReflTransGen (PutStep folder k v fs.unique) (.begun, fs) (.written, fs') ∧
      fs'.Writable folder.directory (temporaryName fs.unique) parent ∧
      fs'.content? (parent ++ [temporaryName fs.unique]) =
        some (.file (folder.format.encode v)) := by
  obtain ⟨fs₁, fs₂, hcreate, happend, hwritten, hw₂, hreplace⟩ :=
    replaceEntry_of_writable hw path (folder.format.encode v)
  refine ⟨fs₂, hreplace, ?_, hw₂, ?_⟩
  · -- all bytes are written in one piece
    have hwrite : PutStep folder k v fs.unique
        (.writing (parent ++ [temporaryName fs.unique]) (folder.format.encode v ++ []), fs₁)
        (.writing (parent ++ [temporaryName fs.unique]) [], fs₂) := .write _ _ happend
    rw [List.append_nil] at hwrite
    exact ((ReflTransGen.single (.create hpath hcreate)).tail hwrite).tail .flush
  · rw [hwritten.content, Function.update_self]

/-- The put of a folder is a run of steps; where it fails, it has changed nothing or has removed its
temporary file. -/
theorem put_run (folder : EntryFolder) (k : Key) (v : Value) (fs : FileSystem) :
    ∃ r stage fs', folder.put k v fs = (r, fs') ∧
      ReflTransGen (PutStep folder k v fs.unique) (.begun, fs) (stage, fs') ∧
      (r = .ok () ∧ stage = .done ∨
        ∃ e cleaned, r = .error e ∧ stage = .failed e cleaned ∧ (cleaned = true ∨ fs' = fs)) := by
  have htemporary := plainName_temporary fs.unique
  cases hname : k.fileName with
  | error e =>
    have hpath : folder.entryPath k = .error (.json e) := by rw [entryPath, hname]
    refine ⟨.error (.json e), .failed (.json e) false, fs, ?_, .single (.refuse hpath),
      .inr ⟨_, _, rfl, rfl, .inr rfl⟩⟩
    rw [put, hpath, Disk.bind_error _ (FileCall.liftExcept_apply _ _)]
  | ok name =>
    have hpath : folder.entryPath k = .ok (folder.directory.join ⟨name⟩) :=
      entryPath_of_named hname
    by_cases hmade : ∃ parent, fs.Writable folder.directory (temporaryName fs.unique) parent
    · obtain ⟨parent, hw⟩ := hmade
      obtain ⟨fs₂, hreplace, hrun, hw₂, hfile⟩ := run_to_written hpath hw v
      rcases Disk.rename_cases htemporary (Key.plainName_of_fileName hname) hw₂.leads hfile with
        ⟨fs₃, -, -, hrename, -⟩ | ⟨-, e, hrename⟩
      · exact ⟨_, .done, fs₃, put_of_replaceEntry_ok hname (hreplace.trans hrename),
          hrun.tail (.rename hpath hrename), .inl ⟨rfl, rfl⟩⟩
      · have hfailing := hrun.tail (.renameRefused hpath hrename)
        rcases Disk.removeFile_cases folder.directory fs₂ htemporary with
          ⟨-, -, fs₃, -, -, hremove, -⟩ | ⟨e', -, hmissing⟩
        · exact ⟨_, .failed (.file e) true, fs₃,
            put_of_replaceEntry_error hname (hreplace.trans hrename) hremove,
            hfailing.tail (.cleanUp hremove), .inr ⟨_, _, rfl, rfl, .inl rfl⟩⟩
        · rw [(hmissing parent hw₂).1] at hfile
          cases hfile
    · -- nothing was made, so there is nothing to remove
      rcases Disk.create_cases folder.directory fs htemporary with
        ⟨parent, -, hw, -⟩ | ⟨-, e, hcreate⟩
      · exact absurd ⟨parent, hw⟩ hmade
      have hreplace : replaceEntry (folder.temporaryPath fs.unique)
          (folder.directory.join ⟨name⟩) (folder.format.encode v) fs = (.error e, fs) := by
        rw [replaceEntry, temporaryPath, Disk.bind_error _ hcreate]
      have hfailing : ReflTransGen (PutStep folder k v fs.unique) (.begun, fs)
          (.failing (.file e) none, fs) := .single (.createRefused hpath hcreate)
      rcases Disk.removeFile_cases folder.directory fs htemporary with
        ⟨parent, -, -, hw, -⟩ | ⟨e', hremove, -⟩
      · exact absurd ⟨parent, hw⟩ hmade
      · exact ⟨_, .failed (.file e) false, fs, put_of_replaceEntry_error hname hreplace hremove,
          hfailing.tail (.cleanUpRefused hremove), .inr ⟨_, _, rfl, rfl, .inr rfl⟩⟩

/-- A put is a run of steps that ends well or has failed. Wherever such a run stands, nothing has
changed if the directory is not there. If it is, everything but the temporary file and the entry is
as before, and the entry is the old one or the new one, complete; every folder on the directory
answers so, and for other keys as before. Once the put is done the entry is the new one. If it has
failed, only the temporary file can have changed; and if that was new and was removed, the directory
lists the same names as before. -/
theorem put_is_atomic (folder : EntryFolder) (k : Key) (v : Value) (fs₀ : FileSystem) :
    (∃ r stage fs, folder.put k v fs₀ = (r, fs) ∧
      ReflTransGen (PutStep folder k v fs₀.unique) (.begun, fs₀) (stage, fs) ∧
      (r = .ok () ∧ stage = .done ∨
        ∃ e cleaned, r = .error e ∧ stage = .failed e cleaned ∧ (cleaned = true ∨ fs = fs₀))) ∧
    ∀ {stage fs}, ReflTransGen (PutStep folder k v fs₀.unique) (.begun, fs₀) (stage, fs) →
      ((∀ parent, ¬ fs₀.Leads folder.directory parent) → fs = fs₀) ∧
      ∀ parent, fs₀.Leads folder.directory parent →
        (∀ place, place ≠ parent ++ [temporaryName fs₀.unique] →
          (∀ name, k.fileName = .ok name → place ≠ parent ++ [name]) →
          fs.content? place = fs₀.content? place) ∧
        (∀ name, k.fileName = .ok name →
          fs.content? (parent ++ [name]) = fs₀.content? (parent ++ [name]) ∨
            fs.content? (parent ++ [name]) = some (.file (folder.format.encode v))) ∧
        (∀ folder' : EntryFolder, fs₀.Leads folder'.directory parent →
          ((folder'.get k fs).1 = (folder'.get k fs₀).1 ∨
            (folder'.get k fs).1 =
              some <$> folder'.format.decode folder'.type (folder.format.encode v)) ∧
          ∀ l, l ≠ k → (folder'.get l fs).1 = (folder'.get l fs₀).1) ∧
        (stage = .done → ∀ name, k.fileName = .ok name →
          fs.content? (parent ++ [name]) = some (.file (folder.format.encode v))) ∧
        ∀ e cleaned, stage = .failed e cleaned →
          (∀ place, place ≠ parent ++ [temporaryName fs₀.unique] →
            fs.content? place = fs₀.content? place) ∧
          (fs₀.content? (parent ++ [temporaryName fs₀.unique]) = none →
            cleaned = true ∨ fs.content? (parent ++ [temporaryName fs₀.unique]) = none →
            ∀ p, fs₀.locate p = .ok parent → ∃ names names', Disk.list p fs₀ = (.ok names, fs₀) ∧
              Disk.list p fs = (.ok names', fs) ∧ names'.Perm names) := by
  refine ⟨put_run folder k v fs₀, fun {stage fs} hrun => ?_⟩
  have hstands := Stands.run hrun
  refine ⟨hstands.unchanged, fun parent hl => ?_⟩
  have hreplacing := hstands.replacing hl
  refine ⟨hreplacing.other, hreplacing.entry, fun folder' hl' => ?_, ?_, ?_⟩
  · exact ⟨hreplacing.get hl', fun l hne => hreplacing.get_other hl' hne⟩
  · rintro rfl name hname
    exact hstands.of_done hl hname
  · rintro e cleaned rfl
    obtain ⟨hplaces, hsame⟩ := hstands.of_failed hl
    exact ⟨hplaces, fun hfresh hgone p hlocate =>
      hreplacing.list hl (hsame hfresh hgone) hlocate⟩

/-! ## A put that is broken off -/

/-- A folder of texts in the directory `d`. -/
def texts : EntryFolder := ⟨Path.ofString "d", .binary, .string⟩

/-- Files with a text under the key `a`. -/
def oneText : FileSystem :=
  (texts.put (.text "a") (.string "old")
    (Disk.makeDirectory (Path.ofString "d") FileSystem.initial).2).2

/-- A put that cannot write on after nine bytes, and is cleaned up, leaves the old text, and the
directory lists what it did. -/
theorem broken_off_put_keeps_the_old_text :
    ∃ fs, ReflTransGen (PutStep texts (.text "a") (.string "new") oneText.unique) (.begun, oneText)
        (.failed (.raised "no space") true, fs) ∧
      (∀ name, (Key.text "a").fileName = .ok name →
        fs.content? ([[0x77], [0x64]] ++ [name]) = oneText.content? ([[0x77], [0x64]] ++ [name])) ∧
      ∃ names names', Disk.list (Path.ofString "d") oneText = (.ok names, oneText) ∧
        Disk.list (Path.ofString "d") fs = (.ok names', fs) ∧ names'.Perm names := by
  have hl : oneText.Leads texts.directory [[0x77], [0x64]] := ⟨rfl, rfl⟩
  have hcreate : PutStep texts (.text "a") (.string "new") oneText.unique (.begun, oneText)
      (.writing ([[0x77], [0x64]] ++ [temporaryName oneText.unique])
        ([3, 0, 0, 0, 0, 0, 0, 0, 110] ++ [101, 119]), _) := .create rfl rfl
  have hrun := ((ReflTransGen.single hcreate).tail (.write _ _ rfl)).tail
    (.writeFails (.raised "no space"))
  have hcleaned := hrun.tail (.cleanUp rfl)
  obtain ⟨-, hmoments⟩ := put_is_atomic texts (.text "a") (.string "new") oneText
  obtain ⟨-, -, -, -, hfailed⟩ := (hmoments hcleaned).2 _ hl
  obtain ⟨hplaces, hlist⟩ := hfailed _ true rfl
  exact ⟨_, hcleaned, fun name hname => hplaces _ (entry_ne_temporary hname _ _),
    hlist rfl (.inl rfl) _ rfl⟩

end EntryFolder

end LeaseCache
