import LeaseCache.Proofs.FolderSpec

/-!
# Folders as a map

Any number of folders opened on one directory are one map from keys to values, as long as values are
read back as they were written and nothing is refused for its length. What the map holds is told by
the calls made so far (`FolderCall.held`), and what stands in the directory by the map: one file for
each key with a value, under the name of the key, and everything else as it was (`Mirrors`).
-/

namespace LeaseCache

open FileSystem (KeptBut Leads PlainName Writable Becomes checkPath maxName maxPath)

namespace FileSystem

variable {directory : Path} {name : List UInt8}

/-- A path is short enough for names of every length that is allowed. -/
structure Roomy (directory : Path) : Prop where
  noZero : 0 ∉ directory.bytes
  short : directory.bytes.length + 1 + maxName ≤ maxPath

theorem Roomy.checkPath_join (hr : Roomy directory) (hn : PlainName name) (hzero : 0 ∉ name)
    (hfits : name.length ≤ maxName) : checkPath (directory.join ⟨name⟩) = .ok () := by
  have hjoin : 0 ∉ (directory.join ⟨name⟩).bytes ∧
      (directory.join ⟨name⟩).bytes.length ≤ directory.bytes.length + 1 + name.length := by
    have hnozero := hr.noZero
    rcases join_cases directory hn with ⟨hempty, hjoin⟩ | ⟨front, hjoin, hfront | ⟨hfront, -⟩⟩
    · rw [hjoin]
      exact ⟨hzero, by omega⟩
    · rw [hfront, List.mem_append, not_or] at hnozero
      rw [hjoin, hfront]
      simp only [List.mem_append, List.mem_cons, List.length_append, List.length_cons,
        List.length_nil, not_or]
      exact ⟨⟨hnozero.1, by decide, hzero⟩, by omega⟩
    · rw [hfront] at hnozero
      rw [hjoin, hfront]
      simp only [List.mem_append, List.mem_cons, List.length_append, List.length_cons, not_or]
      exact ⟨⟨hnozero, by decide, hzero⟩, by omega⟩
  have hshort := hr.short
  rw [checkPath, if_neg (by simpa using hjoin.1), if_neg (bytes_join_ne_nil directory hn),
    if_neg (by omega)]

end FileSystem

namespace EntryFolder

variable {folder : EntryFolder} {fs : FileSystem} {parent : Location} {k : Key}
  {name : List UInt8} {unique : UniqueName} {v : Value}

/-! ## Writes that end well -/

/-- Where both files can be made, an entry is replaced: it holds the bytes, and nothing stands under
the name of the temporary file. -/
theorem replaceEntry_ok (hname : k.fileName = .ok name)
    (hw : fs.Writable folder.directory name parent)
    (ht : fs.Writable folder.directory (temporaryName unique) parent) (bytes : List UInt8) :
    ∃ fs', replaceEntry (folder.temporaryPath unique) (folder.directory.join ⟨name⟩) bytes fs =
        (.ok (), fs') ∧
      fs.Becomes (Function.update
        (Function.update fs.content? (parent ++ [temporaryName unique]) none)
        (parent ++ [name]) (some (.file bytes))) fs' := by
  obtain ⟨fs₁, fs₂, -, -, hwritten, ht₂, hreplace⟩ :=
    replaceEntry_of_writable ht (folder.directory.join ⟨name⟩) bytes
  have hw₂ := hw.kept (hwritten.keptBut_update ht.noDirectory (by simp))
  have hfile : fs₂.content? (parent ++ [temporaryName unique]) = some (.file bytes) := by
    rw [hwritten.content, Function.update_self]
  rcases Disk.rename_cases (plainName_temporary unique) (Key.plainName_of_fileName hname) ht₂.leads
    hfile with ⟨fs₃, -, -, hrename, hrenamed⟩ | ⟨hnot, -⟩
  · rw [hwritten.content, Function.update_idem] at hrenamed
    exact ⟨fs₃, hreplace.trans hrename, hwritten.trans hrenamed⟩
  · exact absurd ⟨ht₂, hw₂⟩ hnot

theorem put_ok (hname : k.fileName = .ok name) (hw : fs.Writable folder.directory name parent)
    (ht : fs.Writable folder.directory (temporaryName fs.unique) parent) (v : Value) :
    ∃ fs', folder.put k v fs = (.ok (), fs') ∧
      fs.Becomes (Function.update
        (Function.update fs.content? (parent ++ [temporaryName fs.unique]) none)
        (parent ++ [name]) (some (.file (folder.format.encode v)))) fs' := by
  obtain ⟨fs', hreplace, hbecomes⟩ := replaceEntry_ok hname hw ht (folder.format.encode v)
  refine ⟨fs', ?_, hbecomes⟩
  unfold put
  rw [entryPath_of_named hname, Disk.bind_ok _ (FileCall.liftExcept_apply _ _),
    Disk.bind_ok _ (show (getThe FileSystem : FileCall FileSystem) fs = (.ok fs, fs) from rfl),
    Disk.bind_ok _ (FileCall.liftDisk_apply hreplace)]
  rfl

/-- Removing a key that has no file changes nothing. -/
theorem remove_ok (hname : k.fileName = .ok name)
    (hw : fs.Writable folder.directory name parent) :
    ∃ fs', folder.remove k fs = (.ok (), fs') ∧
      fs.Becomes (Function.update fs.content? (parent ++ [name]) none) fs' ∧
      (fs.content? (parent ++ [name]) = none → fs' = fs) := by
  unfold remove
  rw [entryPath_of_named hname, Disk.bind_ok _ (FileCall.liftExcept_apply _ _)]
  rcases Disk.removeFile_cases folder.directory fs (Key.plainName_of_fileName hname) with
    ⟨parent', bytes, fs', hw', hfile, hremove, hremoved⟩ | ⟨e, hremove, hmissing⟩
  · obtain rfl := hw'.leads.unique hw.leads
    rw [Disk.bind_ok _ (FileCall.liftDisk_apply hremove)]
    refine ⟨fs', rfl, hremoved, fun hnone => ?_⟩
    rw [hnone] at hfile
    cases hfile
  · obtain ⟨hnone, rfl⟩ := hmissing parent hw
    rw [Disk.bind_ok _ (FileCall.liftDisk_apply hremove)]
    refine ⟨fs, rfl, ⟨rfl, ?_⟩, fun _ => rfl⟩
    rw [← hnone, Function.update_eq_self]

end EntryFolder

/-! ## Calls of folders -/

/-- A key that can be stored: it has a file, whose name is not too long. -/
def Key.Nameable (k : Key) : Prop := ∃ name, k.fileName = .ok name ∧ name.length ≤ maxName

/-- What is asked of one of several folders. -/
inductive FolderCall (ι : Type) where
  | get (folder : ι) (key : Key)
  | put (folder : ι) (key : Key) (value : Value)
  | remove (folder : ι) (key : Key)

namespace FolderCall

variable {ι : Type}

/-- The key of a call. -/
def key : FolderCall ι → Key
  | .get _ k => k
  | .put _ k _ => k
  | .remove _ k => k

/-- Calls a folder. -/
def act (folders : ι → EntryFolder) : FolderCall ι → FileCall Unit
  | .get f k => do
    let _ ← (folders f).get k
  | .put f k v => (folders f).put k v
  | .remove f k => (folders f).remove k

/-- Calls folders one after the other, as long as the calls end well. -/
def all (folders : ι → EntryFolder) : List (FolderCall ι) → FileCall Unit
  | [] => pure ()
  | call :: more => do
    call.act folders
    all folders more

/-- The values of keys after a call. -/
def note (values : Key → Option Value) : FolderCall ι → Key → Option Value
  | .get .. => values
  | .put _ k v => Function.update values k (some v)
  | .remove _ k => Function.update values k none

/-- The values of keys after calls: what was put last and not removed since. -/
def held (calls : List (FolderCall ι)) : Key → Option Value := calls.foldl note fun _ => none

/-- A call for a key that can be stored, and with a value that is read back as it was written. -/
def Suits (format : Format) (type : ValueType) (call : FolderCall ι) : Prop :=
  call.key.Nameable ∧
    ∀ f k v, call = .put f k v → format.decode type (format.encode v) = .ok v

end FolderCall

/-! ## One directory -/

/-- Folders of one type and format that were opened on one directory. -/
structure Together {ι : Type} (folders : ι → EntryFolder) (format : Format) (type : ValueType)
    (parent : Location) (fs : FileSystem) : Prop where
  isDirectory : fs.isDirectory parent = true
  format : ∀ f, (folders f).format = format
  type : ∀ f, (folders f).type = type
  leads : ∀ f, fs.Leads (folders f).directory parent
  roomy : ∀ f, FileSystem.Roomy (folders f).directory

/-- No entry and no temporary file stands in a directory. -/
structure Vacant (fs : FileSystem) (parent : Location) : Prop where
  entry : ∀ {k : Key} {name}, k.fileName = .ok name → fs.content? (parent ++ [name]) = none
  temporary : ∀ unique, fs.content? (parent ++ [EntryFolder.temporaryName unique]) = none

/-- The directory shows the values of keys, and everything else stands as it did at first. -/
structure Mirrors (format : Format) (type : ValueType) (parent : Location) (fs₀ : FileSystem)
    (values : Key → Option Value) (fs : FileSystem) : Prop where
  home : fs.home = fs₀.home
  entry : ∀ {k : Key} {name}, k.fileName = .ok name →
    fs.content? (parent ++ [name]) = (values k).map fun v => .file (format.encode v)
  other : ∀ {place}, (∀ (k : Key) name, k.fileName = .ok name → place ≠ parent ++ [name]) →
    fs.content? place = fs₀.content? place
  readable : ∀ {k v}, values k = some v → format.decode type (format.encode v) = .ok v

namespace Mirrors

open EntryFolder (temporaryName temporaryName_ne plainName_temporary)

variable {ι : Type} {folders : ι → EntryFolder} {format : Format} {type : ValueType}
  {parent : Location} {fs₀ fs fs' : FileSystem} {values : Key → Option Value} {k : Key}
  {name : List UInt8}

theorem start (hv : Vacant fs₀ parent) : Mirrors format type parent fs₀ (fun _ => none) fs₀ :=
  ⟨rfl, hv.entry, fun _ => rfl, nofun⟩

theorem temporary (hm : Mirrors format type parent fs₀ values fs) (hv : Vacant fs₀ parent)
    (unique : UniqueName) : fs.content? (parent ++ [temporaryName unique]) = none := by
  rw [hm.other, hv.temporary]
  intro k name hname heq
  rw [List.append_cancel_left_eq, List.cons.injEq] at heq
  exact temporaryName_ne unique hname heq.1

theorem directories (hm : Mirrors format type parent fs₀ values fs) (hv : Vacant fs₀ parent)
    (place : Location) : fs.isDirectory place = fs₀.isDirectory place := by
  rw [Bool.eq_iff_iff, FileSystem.isDirectory_iff, FileSystem.isDirectory_iff]
  by_cases hentry : ∃ (k : Key) (name : List UInt8),
      k.fileName = .ok name ∧ place = parent ++ [name]
  · obtain ⟨k, name, hname, rfl⟩ := hentry
    rw [hm.entry hname, hv.entry hname]
    cases values k <;> simp
  · rw [hm.other fun k name hname hplace => hentry ⟨k, name, hname, hplace⟩]

theorem leads (hm : Mirrors format type parent fs₀ values fs) (hv : Vacant fs₀ parent)
    (ht : Together folders format type parent fs₀) (f : ι) :
    fs.Leads (folders f).directory parent :=
  (ht.leads f).mono hm.home fun place hd => (hm.directories hv place).trans hd

/-- A file can be made under the name of a key. -/
theorem writable (hm : Mirrors format type parent fs₀ values fs) (hv : Vacant fs₀ parent)
    (ht : Together folders format type parent fs₀) (f : ι) (hname : k.fileName = .ok name)
    (hfits : name.length ≤ maxName) : fs.Writable (folders f).directory name parent where
  leads := hm.leads hv ht f
  path := (ht.roomy f).checkPath_join (Key.plainName_of_fileName hname)
    (Key.not_mem_of_fileName hname (by decide) (by decide)) hfits
  fits := hfits
  noDirectory := by
    rw [hm.entry hname]
    cases values k <;> simp

/-- A temporary file can be made. -/
theorem writable_temporary (hm : Mirrors format type parent fs₀ values fs) (hv : Vacant fs₀ parent)
    (ht : Together folders format type parent fs₀) (f : ι) (unique : UniqueName) :
    fs.Writable (folders f).directory (temporaryName unique) parent where
  leads := hm.leads hv ht f
  path := (ht.roomy f).checkPath_join (plainName_temporary unique)
    (EntryFolder.not_mem_temporaryName unique.noZero (by decide) (by decide))
    (EntryFolder.temporaryName_fits unique)
  fits := EntryFolder.temporaryName_fits unique
  noDirectory := by
    rw [hm.temporary hv]
    simp

/-- Setting or removing the file of a key is setting or removing its value. -/
theorem set (hm : Mirrors format type parent fs₀ values fs) (hname : k.fileName = .ok name)
    (x : Option Value)
    (hx : ∀ v, x = some v → format.decode type (format.encode v) = .ok v)
    (hb : fs.Becomes (Function.update fs.content? (parent ++ [name])
      (x.map fun v => .file (format.encode v))) fs') :
    Mirrors format type parent fs₀ (Function.update values k x) fs' where
  home := hb.home.trans hm.home
  entry := by
    intro l name' hname'
    rw [hb.content]
    by_cases hl : l = k
    · subst hl
      rw [hname] at hname'
      cases hname'
      rw [Function.update_self, Function.update_self]
    · have hne : parent ++ [name'] ≠ parent ++ [name] := by
        intro heq
        rw [List.append_cancel_left_eq, List.cons.injEq] at heq
        exact hl (Key.eq_of_fileName hname' (heq.1 ▸ hname))
      rw [Function.update_of_ne hl, Function.update_of_ne hne]
      exact hm.entry hname'
  other := by
    intro place hplace
    rw [hb.content, Function.update_of_ne (hplace k name hname)]
    exact hm.other hplace
  readable := by
    intro l v hl
    rw [Function.update_apply] at hl
    split at hl
    · exact hx v hl
    · exact hm.readable hl

/-- Every folder answers with the value of the key. -/
theorem get (hm : Mirrors format type parent fs₀ values fs) (hv : Vacant fs₀ parent)
    (ht : Together folders format type parent fs₀) (f : ι) (hk : k.Nameable) :
    (folders f).get k fs = (.ok (values k), fs) := by
  obtain ⟨name, hname, hfits⟩ := hk
  have hw := hm.writable hv ht f hname hfits
  rw [EntryFolder.get_of_stores hw.leads ⟨hname, hfits, hw.path⟩, hm.entry hname]
  cases hvalue : values k with
  | none => rfl
  | some v =>
    rw [Option.map_some, EntryFolder.read, ht.format, ht.type, hm.readable hvalue]
    rfl

/-- Removing a key without a value changes nothing. -/
theorem remove_of_none (hm : Mirrors format type parent fs₀ values fs) (hv : Vacant fs₀ parent)
    (ht : Together folders format type parent fs₀) (f : ι) (hk : k.Nameable)
    (hnone : values k = none) : (folders f).remove k fs = (.ok (), fs) := by
  obtain ⟨name, hname, hfits⟩ := hk
  obtain ⟨fs', hremove, -, hsame⟩ :=
    EntryFolder.remove_ok hname (hm.writable hv ht f hname hfits)
  have hmissing : fs.content? (parent ++ [name]) = none := by
    rw [hm.entry hname, hnone]
    rfl
  rw [hremove, hsame hmissing]

/-- A call ends well, and the directory shows the values after it. -/
theorem call (hm : Mirrors format type parent fs₀ values fs) (hv : Vacant fs₀ parent)
    (ht : Together folders format type parent fs₀) {call : FolderCall ι}
    (hs : call.Suits format type) :
    ∃ fs', call.act folders fs = (.ok (), fs') ∧
      Mirrors format type parent fs₀ (call.note values) fs' := by
  obtain ⟨hk, hreadable⟩ := hs
  cases call with
  | get f k => exact ⟨fs, Disk.bind_ok _ (hm.get hv ht f hk), hm⟩
  | put f k v =>
    obtain ⟨name, hname, hfits⟩ := hk
    obtain ⟨fs', hput, hbecomes⟩ := EntryFolder.put_ok hname (hm.writable hv ht f hname hfits)
      (hm.writable_temporary hv ht f fs.unique) v
    -- no temporary file stood there before, so none is missing now
    rw [← hm.temporary hv fs.unique, Function.update_eq_self, ht.format] at hbecomes
    refine ⟨fs', hput, hm.set hname (some v) ?_ hbecomes⟩
    rintro _ ⟨⟩
    exact hreadable f k v rfl
  | remove f k =>
    obtain ⟨name, hname, hfits⟩ := hk
    obtain ⟨fs', hremove, hbecomes, -⟩ :=
      EntryFolder.remove_ok hname (hm.writable hv ht f hname hfits)
    exact ⟨fs', hremove, hm.set hname none nofun hbecomes⟩

theorem calls (hm : Mirrors format type parent fs₀ values fs) (hv : Vacant fs₀ parent)
    (ht : Together folders format type parent fs₀) {calls : List (FolderCall ι)}
    (hs : ∀ call ∈ calls, call.Suits format type) :
    ∃ fs', FolderCall.all folders calls fs = (.ok (), fs') ∧
      Mirrors format type parent fs₀ (calls.foldl FolderCall.note values) fs' := by
  induction calls generalizing fs values with
  | nil => exact ⟨fs, rfl, hm⟩
  | cons call more ih =>
    rw [List.forall_mem_cons] at hs
    obtain ⟨fs₁, hcall, hm₁⟩ := hm.call hv ht hs.1
    obtain ⟨fs₂, hmore, hm₂⟩ := ih hm₁ hs.2
    rw [FolderCall.all, Disk.bind_ok _ hcall]
    exact ⟨fs₂, hmore, hm₂⟩

end Mirrors

namespace EntryFolder

variable {ι : Type} {folders : ι → EntryFolder} {format : Format} {type : ValueType}
  {parent : Location} {fs fs' : FileSystem}

theorem act_get (hl : ∀ f, fs.Leads (folders f).directory parent) (f : ι) (k : Key) :
    ((FolderCall.get f k).act folders fs).2 = fs := by
  obtain ⟨r, hget⟩ := get_keeps_files (hl f) k
  cases r with
  | ok x =>
    rw [FolderCall.act, Disk.bind_ok _ hget]
    rfl
  | error e => rw [FolderCall.act, Disk.bind_error _ hget]

/-- Whatever comes of a call, other keys are answered for as before. -/
theorem get_act (hl : ∀ f, fs.Leads (folders f).directory parent) (call : FolderCall ι) (f : ι)
    {k : Key} (hne : k ≠ call.key) :
    ((folders f).get k (call.act folders fs).2).1 = ((folders f).get k fs).1 := by
  have hkept : Kept call.key parent fs (call.act folders fs).2 := by
    cases call with
    | get g l =>
      rw [act_get hl]
      exact .refl _ _ _
    | put g l v =>
      obtain ⟨r, fs', hput, hkept, -⟩ := put_spec (hl g) l v
      rw [FolderCall.act, hput]
      exact hkept
    | remove g l =>
      obtain ⟨r, fs', hremove, hkept, -⟩ := remove_spec (hl g) l
      rw [FolderCall.act, hremove]
      exact hkept
  obtain ⟨r, hget⟩ := get_keeps_files (hl f) k
  rw [hkept.get (hl f) hne hget, hget]

/-- Folders of one type and format on one directory are a map, whatever names are made up for their
temporary files. Any calls end well, and afterwards every folder answers for a key with the value
put last and not removed since. Removing a key without a value changes nothing, and a call changes
nothing that is answered for another key. The directory holds one file for each key with a value, no
temporary file, and everything else as at first. -/
theorem folders_on_one_directory_are_a_map (ht : Together folders format type parent fs)
    (hv : Vacant fs parent) (calls : List (FolderCall ι))
    (hs : ∀ call ∈ calls, call.Suits format type) :
    ∃ fs', FolderCall.all folders calls fs = (.ok (), fs') ∧
      (∀ f k, k.Nameable → (folders f).get k fs' = (.ok (FolderCall.held calls k), fs')) ∧
      (∀ f k, k.Nameable → FolderCall.held calls k = none →
        (folders f).remove k fs' = (.ok (), fs')) ∧
      (∀ (call : FolderCall ι) f k, k ≠ call.key →
        ((folders f).get k (call.act folders fs').2).1 = ((folders f).get k fs').1) ∧
      (∀ (k : Key) name, k.fileName = .ok name → fs'.content? (parent ++ [name]) =
        (FolderCall.held calls k).map fun v => .file (format.encode v)) ∧
      (∀ unique, fs'.content? (parent ++ [temporaryName unique]) = none) ∧
      (∀ place, (∀ (k : Key) name, k.fileName = .ok name → place ≠ parent ++ [name]) →
        fs'.content? place = fs.content? place) ∧
      ∀ p, fs.locate p = .ok parent →
        ∃ names names', Disk.list p fs = (.ok names, fs) ∧ Disk.list p fs' = (.ok names', fs') ∧
          names'.Nodup ∧ ∀ name, name ∈ names' ↔ name ∈ names ∨
            ∃ k v, FolderCall.held calls k = some v ∧ k.fileName = .ok name := by
  obtain ⟨fs', hall, hm⟩ := (Mirrors.start hv).calls hv ht hs
  refine ⟨fs', hall, fun f k hk => hm.get hv ht f hk, fun f k hk => hm.remove_of_none hv ht f hk,
    fun call f k hne => get_act (hm.leads hv ht) call f hne, fun k name => hm.entry,
    hm.temporary hv, fun place => hm.other, ?_⟩
  intro p hlocate
  have hd := ht.isDirectory
  have hdirs : ∀ q, fs.isDirectory q = true → fs'.isDirectory q = true := fun q hq =>
    (hm.directories hv q).trans hq
  obtain ⟨names, hlist, -, hmem⟩ := Disk.list_ok hlocate hd
  obtain ⟨names', hlist', hnodup, hmem'⟩ :=
    Disk.list_ok (FileSystem.locate_mono hm.home hdirs hlocate hd) (hdirs _ hd)
  refine ⟨names, names', hlist, hlist', hnodup, fun name => ?_⟩
  rw [hmem', hmem]
  by_cases hentry : ∃ k : Key, k.fileName = .ok name
  · obtain ⟨k, hname⟩ := hentry
    rw [hm.entry hname, hv.entry hname, Option.isSome_map, Option.isSome_iff_exists]
    constructor
    · rintro ⟨v, hvalue⟩
      exact .inr ⟨k, v, hvalue, hname⟩
    · rintro (hnone | ⟨l, v, hvalue, hname'⟩)
      · cases hnone
      · rw [Key.eq_of_fileName hname hname']
        exact ⟨v, hvalue⟩
  · rw [hm.other]
    · refine ⟨.inl, ?_⟩
      rintro (hold | ⟨k, v, -, hname⟩)
      · exact hold
      · exact absurd ⟨k, hname⟩ hentry
    · intro k name' hname' heq
      rw [List.append_cancel_left_eq, List.cons.injEq] at heq
      exact hentry ⟨k, heq.1 ▸ hname'⟩

/-! ## Two spellings of a directory -/

/-- Folders of bytes that were opened as `d` and as `./d/`. -/
def twoFolders : Bool → EntryFolder
  | false => ⟨Path.ofString "d", .binary, .u8⟩
  | true => ⟨Path.ofString "./d/", .binary, .u8⟩

/-- Files with the directory `d`, and nothing in it. -/
def emptyDirectory : FileSystem :=
  (Disk.makeDirectory (Path.ofString "d") FileSystem.initial).2

/-- Puts, a replacement and a removal. -/
def mixedCalls : List (FolderCall Bool) :=
  [.put false (.text "a") (.u8 1), .put true (.integer 7) (.u8 2), .put true (.text "a") (.u8 3),
    .get false (.integer 7), .remove false (.integer 7)]

/-- A value that was put through one of the folders and replaced through the other is the one that
both answer with, and a key that was removed has none. -/
theorem two_folders_answer_alike :
    ∃ fs', FolderCall.all twoFolders mixedCalls emptyDirectory = (.ok (), fs') ∧
      (∀ f, (twoFolders f).get (.text "a") fs' = (.ok (some (.u8 3)), fs')) ∧
      (∀ f, (twoFolders f).get (.integer 7) fs' = (.ok none, fs')) ∧
      ∀ unique, fs'.content? ([[0x77], [0x64]] ++ [temporaryName unique]) = none := by
  have ht : Together twoFolders .binary .u8 [[0x77], [0x64]] emptyDirectory := by
    refine ⟨rfl, by decide, by decide, ?_, ?_⟩
    · rintro (_ | _) <;> exact ⟨rfl, rfl⟩
    · rintro (_ | _) <;> exact ⟨by decide, by decide⟩
  have hv : Vacant emptyDirectory [[0x77], [0x64]] := ⟨fun _ => rfl, fun _ => rfl⟩
  have ha : (Key.text "a").Nameable := ⟨_, rfl, by decide⟩
  have hseven : (Key.integer 7).Nameable := ⟨_, rfl, by decide⟩
  have hs : ∀ call ∈ mixedCalls, call.Suits .binary .u8 := by
    intro call hmem
    simp only [mixedCalls, List.mem_cons, List.not_mem_nil, or_false] at hmem
    rcases hmem with rfl | rfl | rfl | rfl | rfl
    all_goals exact ⟨by assumption, by rintro f k v ⟨⟩ <;> rfl⟩
  obtain ⟨fs', hall, hget, -, -, -, htemporary, -⟩ :=
    folders_on_one_directory_are_a_map ht hv mixedCalls hs
  exact ⟨fs', hall, fun f => hget f _ ha, fun f => hget f _ hseven, htemporary⟩

end EntryFolder

end LeaseCache
