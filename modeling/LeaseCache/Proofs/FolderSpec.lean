import LeaseCache.Proofs.EntryNames
import LeaseCache.Proofs.FileOperations
import LeaseCache.Store.EntryFolder

/-!
# What an entry folder holds

In a directory that is there, what a folder answers for a key is told by what stands under the name
of the key's file (`EntryFolder.get_of_stores`), and a write changes what stands there and nothing
that another key is told by (`EntryFolder.put_spec`, `EntryFolder.remove_spec`). A key that cannot
be stored, for its name or the path to it, is never answered for. Opening the folder has made the
directory, if it was not there (`EntryFolder.leads_of_create`).
-/

namespace LeaseCache

open FileSystem (KeptBut Leads PlainName checkPath maxName)

/-! ## Names -/

theorem Hex.not_mem_encode {b : UInt8} (hb : ∀ n < 16, b ≠ Hex.digit n) (bytes : List UInt8) :
    b ∉ Hex.encode bytes := by
  induction bytes with
  | nil => simp
  | cons c bytes ih =>
    have hc : c.toNat < 256 := c.toNat_lt
    rw [Hex.encode_cons, List.mem_cons, List.mem_cons, not_or, not_or]
    exact ⟨hb _ (by omega), hb _ (by omega), ih⟩

theorem Key.not_mem_of_fileName {k : Key} {name : List UInt8} {b : UInt8}
    (h : k.fileName = .ok name) (hdigit : ∀ n < 16, b ≠ Hex.digit n) (hb : b ∉ entryExtension) :
    b ∉ name := by
  obtain ⟨json, -, rfl⟩ := Key.toJson_of_fileName h
  rw [List.mem_append, not_or]
  exact ⟨Hex.not_mem_encode hdigit json, hb⟩

theorem Key.plainName_of_fileName {k : Key} {name : List UInt8} (h : k.fileName = .ok name) :
    PlainName name := by
  obtain ⟨json, -, hname⟩ := Key.toJson_of_fileName h
  have hlength : 6 ≤ name.length := by
    rw [hname, List.length_append]
    exact Nat.le_add_left _ _
  refine ⟨?_, ?_, ?_, ?_⟩
  · exact not_mem_of_fileName h (by decide) (by decide)
  · rintro rfl
    exact absurd hlength (by decide)
  · rintro rfl
    exact absurd hlength (by decide)
  · rintro rfl
    exact absurd hlength (by decide)

namespace FileCall

variable {α : Type}

theorem liftExcept_apply (r : Except StoreError α) (fs : FileSystem) :
    (liftM r : FileCall α) fs = (r, fs) := by
  cases r <;> rfl

theorem liftDisk_apply {x : Disk α} {r : Except FileError α} {fs fs' : FileSystem}
    (h : x fs = (r, fs')) : (liftM (ExceptT.run x) : FileCall (Except FileError α)) fs =
      (.ok r, fs') := by
  have hrun : (ExceptT.run x) fs = (r, fs') := h
  show ((.ok ((ExceptT.run x) fs).1, ((ExceptT.run x) fs).2) : Except StoreError _ × FileSystem) = _
  rw [hrun]

end FileCall

namespace EntryFolder

variable {folder : EntryFolder} {fs fs' : FileSystem} {parent : Location} {k l : Key}
  {name : List UInt8} {v : Value}

/-- No key has the name of a temporary file, whatever is made up in it. -/
theorem temporary_shape_ne (h : k.fileName = .ok name) (unique : List UInt8) :
    Utf8.ofString "." ++ unique ++ Utf8.ofString ".tmp" ≠ name := by
  rintro rfl
  obtain ⟨json, -, hname⟩ := Key.toJson_of_fileName h
  -- a temporary name ends in another letter than an entry's
  have hlast : (Utf8.ofString "." ++ unique ++ Utf8.ofString ".tmp").getLast? = some 0x70 := by
    rw [List.getLast?_append]
    rfl
  rw [hname, List.getLast?_append] at hlast
  cases hlast

theorem temporaryName_ne (unique : UniqueName) (h : k.fileName = .ok name) :
    temporaryName unique ≠ name :=
  temporary_shape_ne h unique.bytes

theorem length_temporaryName (unique : UniqueName) : (temporaryName unique).length = 41 := by
  rw [temporaryName, List.length_append, List.length_append, unique.width]
  rfl

theorem temporaryName_fits (unique : UniqueName) : (temporaryName unique).length ≤ maxName := by
  rw [length_temporaryName]
  decide

theorem not_mem_temporaryName {unique : UniqueName} {b : UInt8} (h : b ∉ unique.bytes)
    (hb : b ∉ Utf8.ofString ".") (hb' : b ∉ Utf8.ofString ".tmp") : b ∉ temporaryName unique := by
  simp only [temporaryName, List.mem_append, not_or]
  exact ⟨⟨hb, h⟩, hb'⟩

theorem plainName_temporary (unique : UniqueName) : PlainName (temporaryName unique) := by
  have hlength := length_temporaryName unique
  refine ⟨?_, ?_, ?_, ?_⟩
  · exact not_mem_temporaryName unique.noSlash (by decide) (by decide)
  · intro hname
    rw [hname] at hlength
    cases hlength
  · intro hname
    rw [hname] at hlength
    cases hlength
  · intro hname
    rw [hname] at hlength
    cases hlength

/-- The directory of a folder that was opened is there. -/
theorem leads_of_create (hhome : fs.isDirectory fs.home = true)
    (h : folder.create fs = (.ok (), fs')) : ∃ parent, fs'.Leads folder.directory parent :=
  Disk.leads_of_makeDirectories hhome h

/-! ## Looking keys up -/

/-- A folder can store a key: the key has a file, and its name and the path to it are not too
long. -/
structure Stores (folder : EntryFolder) (k : Key) (name : List UInt8) : Prop where
  named : k.fileName = .ok name
  fits : name.length ≤ maxName
  path : checkPath (folder.directory.join ⟨name⟩) = .ok ()

/-- What is answered for what stands in the place of a file. -/
def read (folder : EntryFolder) : Option Content → Except StoreError (Option Value)
  | none => .ok none
  | some (.file bytes) => some <$> folder.format.decode folder.type bytes
  | some .directory => .error (folder.format.unreadable .isDirectory)

theorem entryPath_of_named (h : k.fileName = .ok name) :
    folder.entryPath k = .ok (folder.directory.join ⟨name⟩) := by
  rw [entryPath, h]

theorem named_of_entryPath {path : Path} (h : folder.entryPath k = .ok path) :
    ∃ name, k.fileName = .ok name ∧ path = folder.directory.join ⟨name⟩ := by
  unfold entryPath at h
  split at h
  · next name hname => exact ⟨name, hname, (Except.ok.inj h).symm⟩
  · cases h

theorem get_of_located {place : Location} {content : Content} (hname : k.fileName = .ok name)
    (hlocate : fs.locate (folder.directory.join ⟨name⟩) = .ok place)
    (hcontent : fs.content? place = some content) :
    folder.get k fs = (folder.read (some content), fs) := by
  unfold get
  rw [entryPath_of_named hname, Disk.bind_ok _ (FileCall.liftExcept_apply _ _),
    Disk.bind_ok _ (FileCall.liftDisk_apply (Disk.openExisting_ok hlocate))]
  dsimp only
  cases content with
  | directory =>
    rw [Disk.bind_ok _ (FileCall.liftDisk_apply (Disk.readOpen_directory hcontent))]
    rfl
  | file bytes =>
    rw [Disk.bind_ok _ (FileCall.liftDisk_apply (Disk.readOpen_file hcontent)), read]
    dsimp only
    cases folder.format.decode folder.type bytes <;> rfl

theorem get_of_stores (hl : fs.Leads folder.directory parent) (hs : folder.Stores k name) :
    folder.get k fs = (folder.read (fs.content? (parent ++ [name])), fs) := by
  have hlocate := hl.locate_join (Key.plainName_of_fileName hs.named) hs.path
  rw [if_neg (Nat.not_lt.2 hs.fits)] at hlocate
  cases hcontent : fs.content? (parent ++ [name]) with
  | none =>
    rw [hcontent] at hlocate
    rw [get, entryPath_of_named hs.named, Disk.bind_ok _ (FileCall.liftExcept_apply _ _),
      Disk.bind_ok _ (FileCall.liftDisk_apply (Disk.openExisting_error hlocate))]
    rfl
  | some content =>
    rw [hcontent] at hlocate
    exact get_of_located hs.named hlocate hcontent

/-- The path of a file is not empty, so that checking it does not say that nothing is there. -/
theorem checkPath_ne_notFound {directory : Path} (h : PlainName name) {e : FileError}
    (he : checkPath (directory.join ⟨name⟩) = .error e) : e ≠ .notFound := by
  rintro rfl
  unfold checkPath at he
  rw [if_neg (FileSystem.bytes_join_ne_nil directory h)] at he
  split at he
  · cases he
  split at he <;> cases he

theorem get_of_unlocated {e : FileError} (hname : k.fileName = .ok name) (hne : e ≠ .notFound)
    (hlocate : fs.locate (folder.directory.join ⟨name⟩) = .error e) :
    folder.get k fs = (.error (.file e), fs) := by
  unfold get
  rw [entryPath_of_named hname, Disk.bind_ok _ (FileCall.liftExcept_apply _ _),
    Disk.bind_ok _ (FileCall.liftDisk_apply (Disk.openExisting_error hlocate))]
  cases e <;> first | exact absurd rfl hne | rfl

/-- A key that cannot be stored fails in the same way whatever the directory holds. -/
theorem get_of_not_stores (hs : ∀ name, ¬ folder.Stores k name) :
    ∃ e, ∀ {fs parent}, fs.Leads folder.directory parent → folder.get k fs = (.error e, fs) := by
  cases hname : k.fileName with
  | error e =>
    refine ⟨.json e, fun _ => ?_⟩
    unfold get
    rw [entryPath, hname, Disk.bind_error _ (FileCall.liftExcept_apply _ _)]
  | ok name =>
    have hplain := Key.plainName_of_fileName hname
    cases hpath : checkPath (folder.directory.join ⟨name⟩) with
    | error e =>
      exact ⟨.file e, fun _ => get_of_unlocated hname (checkPath_ne_notFound hplain hpath)
        (FileSystem.locate_of_error hpath)⟩
    | ok =>
      have hlong : maxName < name.length :=
        Nat.not_le.1 fun hle => hs name ⟨hname, hle, hpath⟩
      refine ⟨.file .nameTooLong, fun hl => get_of_unlocated hname (by simp) ?_⟩
      rw [hl.locate_join hplain hpath, if_pos hlong]

/-- Looking a key up leaves the files alone. -/
theorem get_keeps_files (hl : fs.Leads folder.directory parent) (k : Key) :
    ∃ r, folder.get k fs = (r, fs) := by
  by_cases hs : ∃ name, folder.Stores k name
  · obtain ⟨name, hs⟩ := hs
    exact ⟨_, get_of_stores hl hs⟩
  · obtain ⟨e, he⟩ := get_of_not_stores (not_exists.1 hs)
    exact ⟨_, he hl⟩

/-- A key that is answered for can be stored. -/
theorem stores_of_get_ok (hl : fs.Leads folder.directory parent) {x : Option Value}
    (h : folder.get k fs = (.ok x, fs)) : ∃ name, folder.Stores k name := by
  refine Classical.byContradiction fun hs => ?_
  obtain ⟨e, he⟩ := get_of_not_stores (not_exists.1 hs)
  rw [he hl] at h
  cases h

/-- A key is told by nothing but what stands under its name. -/
theorem get_congr (hl : fs.Leads folder.directory parent) (hl' : fs'.Leads folder.directory parent)
    (hcontent : ∀ name, k.fileName = .ok name →
      fs'.content? (parent ++ [name]) = fs.content? (parent ++ [name]))
    {r : Except StoreError (Option Value)} (h : folder.get k fs = (r, fs)) :
    folder.get k fs' = (r, fs') := by
  by_cases hs : ∃ name, folder.Stores k name
  · obtain ⟨name, hs⟩ := hs
    rw [get_of_stores hl hs] at h
    rw [get_of_stores hl' hs, hcontent name hs.named, (Prod.mk.inj h).1]
  · obtain ⟨e, he⟩ := get_of_not_stores (not_exists.1 hs)
    rw [he hl] at h
    rw [he hl', (Prod.mk.inj h).1]

/-! ## Writing -/

/-- What other keys are told by is kept. -/
structure Kept (k : Key) (parent : Location) (fs fs' : FileSystem) : Prop where
  leads : ∀ {directory}, fs.Leads directory parent → fs'.Leads directory parent
  content : ∀ {l name}, l ≠ k → l.fileName = .ok name →
    fs'.content? (parent ++ [name]) = fs.content? (parent ++ [name])

theorem Kept.refl (k : Key) (parent : Location) (fs : FileSystem) : Kept k parent fs fs :=
  ⟨id, fun _ _ => rfl⟩

theorem Kept.get (hk : Kept k parent fs fs') (hl : fs.Leads folder.directory parent) (hne : l ≠ k)
    {r : Except StoreError (Option Value)} (h : folder.get l fs = (r, fs)) :
    folder.get l fs' = (r, fs') :=
  get_congr hl (hk.leads hl) (fun _ => hk.content hne) h

/-- What changes under the names of a temporary file and of a key's own file is nothing to other
keys. -/
theorem Kept.of_keptBut {places : List Location} (h : KeptBut places fs fs')
    (hplaces : ∀ place ∈ places, (∃ unique, place = parent ++ [temporaryName unique]) ∨
      ∃ name, k.fileName = .ok name ∧ place = parent ++ [name]) : Kept k parent fs fs' where
  leads hl := hl.kept h
  content := by
    intro l name hne hname
    refine h.content _ fun hmem => ?_
    rcases hplaces _ hmem with ⟨unique, heq⟩ | ⟨name', hname', heq⟩
    · rw [List.append_cancel_left_eq, List.cons.injEq] at heq
      exact temporaryName_ne unique hname heq.1.symm
    · rw [List.append_cancel_left_eq, List.cons.injEq] at heq
      exact hne (Key.eq_of_fileName hname (heq.1 ▸ hname'))

/-- Where the temporary file can be made, it is written, and what is left is to rename it. -/
theorem replaceEntry_of_writable {unique : UniqueName}
    (hw : fs.Writable folder.directory (temporaryName unique) parent) (path : Path)
    (bytes : List UInt8) :
    ∃ fs₁ fs₂, Disk.create (folder.temporaryPath unique) fs =
        (.ok (parent ++ [temporaryName unique]), fs₁) ∧
      Disk.append (parent ++ [temporaryName unique]) bytes fs₁ = (.ok (), fs₂) ∧
      fs.Becomes (Function.update fs.content? (parent ++ [temporaryName unique])
        (some (.file bytes))) fs₂ ∧
      fs₂.Writable folder.directory (temporaryName unique) parent ∧
      replaceEntry (folder.temporaryPath unique) path bytes fs =
        Disk.rename (folder.temporaryPath unique) path fs₂ := by
  rcases Disk.create_cases folder.directory fs (plainName_temporary unique) with
    ⟨parent', fs₁, hw', hcreate, hcreated⟩ | ⟨hnot, -⟩
  · obtain rfl := hw'.leads.unique hw.leads
    have hempty : fs₁.content? (parent' ++ [temporaryName unique]) = some (.file []) := by
      rw [hcreated.content, Function.update_self]
    obtain ⟨fs₂, happend, hwritten⟩ := Disk.append_ok hempty bytes
    rw [List.nil_append, hcreated.content, Function.update_idem] at hwritten
    have hbecomes := hcreated.trans hwritten
    refine ⟨fs₁, fs₂, hcreate, happend, hbecomes,
      hw.kept (hbecomes.keptBut_update hw.noDirectory (by simp)), ?_⟩
    rw [replaceEntry, temporaryPath, Disk.bind_ok _ hcreate, Disk.bind_ok _ happend]
  · exact absurd hw (hnot parent)

theorem replaceEntry_spec (hl : fs.Leads folder.directory parent) (hname : k.fileName = .ok name)
    (unique : UniqueName) (bytes : List UInt8) :
    ∃ r fs', replaceEntry (folder.temporaryPath unique) (folder.directory.join ⟨name⟩) bytes fs =
        (r, fs') ∧
      KeptBut [parent ++ [temporaryName unique], parent ++ [name]] fs fs' ∧
      ∀ done, r = .ok done → folder.Stores k name ∧
        fs'.content? (parent ++ [name]) = some (.file bytes) := by
  have hplain := Key.plainName_of_fileName hname
  have htemporary := plainName_temporary unique
  have hsub : [parent ++ [temporaryName unique]] ⊆
      [parent ++ [temporaryName unique], parent ++ [name]] := List.cons_subset_cons _ (by simp)
  obtain ⟨r₁, fs₁, hcreate, hkept₁, hcreated⟩ := Disk.create_in hl htemporary
  unfold replaceEntry
  cases r₁ with
  | error e =>
    rw [temporaryPath, Disk.bind_error _ hcreate]
    refine ⟨_, fs₁, rfl, hkept₁.mono hsub, ?_⟩
    intro done hdone
    cases hdone
  | ok place =>
    obtain ⟨rfl, hempty⟩ := hcreated place rfl
    obtain ⟨fs₂, happend, hkept₂, hwritten⟩ := Disk.append_to hempty bytes
    have hkept := hkept₁.trans hkept₂
    obtain ⟨r, fs₃, hrename, hkept₃, hrenamed⟩ :=
      Disk.rename_in (hl.kept hkept) htemporary hplain hwritten
    rw [temporaryPath, Disk.bind_ok _ hcreate, Disk.bind_ok _ happend]
    refine ⟨r, fs₃, hrename, (hkept.mono hsub).trans hkept₃, ?_⟩
    intro done hr
    obtain ⟨hpath, hfits, hcontent⟩ := hrenamed done hr
    exact ⟨⟨hname, hfits, hpath⟩, by simpa using hcontent⟩

/-- A put that ends well leaves the file with the value; and whatever comes of it, other keys are
answered for as before. -/
theorem put_spec (hl : fs.Leads folder.directory parent) (k : Key) (v : Value) :
    ∃ r fs', folder.put k v fs = (r, fs') ∧ Kept k parent fs fs' ∧
      (∀ e, r = .error e → e ≠ .binary .tooLong) ∧
      (r = .ok () → ∃ name, folder.Stores k name ∧
        fs'.content? (parent ++ [name]) = some (.file (folder.format.encode v))) := by
  unfold put
  cases hname : k.fileName with
  | error e =>
    rw [entryPath, hname, Disk.bind_error _ (FileCall.liftExcept_apply _ _)]
    exact ⟨_, fs, rfl, .refl k parent fs, by rintro _ ⟨⟩; simp, nofun⟩
  | ok name =>
    rw [entryPath_of_named hname, Disk.bind_ok _ (FileCall.liftExcept_apply _ _),
      Disk.bind_ok _ (show (getThe FileSystem : FileCall FileSystem) fs = (.ok fs, fs) from rfl)]
    obtain ⟨r, fs₁, hreplace, hkept, hstored⟩ :=
      replaceEntry_spec hl hname fs.unique (folder.format.encode v)
    rw [Disk.bind_ok _ (FileCall.liftDisk_apply hreplace)]
    have hplaces : ∀ place ∈ [parent ++ [temporaryName fs.unique], parent ++ [name]],
        (∃ unique, place = parent ++ [temporaryName unique]) ∨
          ∃ name, k.fileName = .ok name ∧ place = parent ++ [name] := by
      intro place hplace
      rw [List.mem_cons, List.mem_singleton] at hplace
      exact hplace.imp (⟨fs.unique, ·⟩) (⟨name, hname, ·⟩)
    cases r with
    | ok =>
      obtain ⟨hstores, hcontent⟩ := hstored () rfl
      exact ⟨.ok (), fs₁, rfl, .of_keptBut hkept hplaces, nofun, fun _ => ⟨name, hstores, hcontent⟩⟩
    | error e =>
      -- a failed put takes its temporary file away
      obtain ⟨r₂, fs₂, hremove, hkept₂⟩ :=
        Disk.removeFile_in (hl.kept hkept) (plainName_temporary fs.unique)
      have hkept' := hkept.trans (hkept₂.mono (List.cons_subset_cons _ (by simp)))
      dsimp only
      rw [temporaryPath, Disk.bind_ok _ (FileCall.liftDisk_apply hremove)]
      exact ⟨.error (.file e), fs₂, rfl, .of_keptBut hkept' hplaces, by rintro _ ⟨⟩; simp, nofun⟩

theorem remove_spec (hl : fs.Leads folder.directory parent) (k : Key) :
    ∃ r fs', folder.remove k fs = (r, fs') ∧ Kept k parent fs fs' ∧
      ∀ e, r = .error e → e ≠ .binary .tooLong := by
  unfold remove
  cases hname : k.fileName with
  | error e =>
    rw [entryPath, hname, Disk.bind_error _ (FileCall.liftExcept_apply _ _)]
    exact ⟨_, fs, rfl, .refl k parent fs, by rintro _ ⟨⟩; simp⟩
  | ok name =>
    obtain ⟨r, fs₁, hremove, hkept⟩ := Disk.removeFile_in hl (Key.plainName_of_fileName hname)
    rw [entryPath_of_named hname, Disk.bind_ok _ (FileCall.liftExcept_apply _ _),
      Disk.bind_ok _ (FileCall.liftDisk_apply hremove)]
    have hkept' : Kept k parent fs fs₁ := by
      refine .of_keptBut hkept fun place hplace => .inr ⟨name, hname, ?_⟩
      exact List.mem_singleton.1 hplace
    rcases r with e | ⟨⟩
    · cases e <;> exact ⟨_, fs₁, rfl, hkept', by rintro _ ⟨⟩ <;> simp⟩
    · exact ⟨_, fs₁, rfl, hkept', nofun⟩

end EntryFolder

end LeaseCache
