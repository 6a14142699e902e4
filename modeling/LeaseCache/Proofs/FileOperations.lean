import LeaseCache.Proofs.FileSystemSpec
import Mathlib.Data.List.Nodup

/-!
# Files of a directory

What creating, appending to, renaming and removing do for a name in a directory, and what listing
one finds (`Disk.list_ok`). An operation is done or refused. Where it is done, what stands where
afterwards is told exactly (`FileSystem.Becomes`), and what is refused changes nothing
(`Disk.create_cases`, `Disk.removeFile_cases`, `Disk.rename_cases`). So only files under the names
that were given change. And what makes directories ends well only if the path leads to one then
(`Disk.leads_of_makeDirectories`).
-/

namespace LeaseCache

open FileSystem (KeptBut Leads PlainName checkPath)

namespace FileSystem

variable {fs fs' fs'' : FileSystem} {place : Location} {what what' : Location → Option Content}

/-- One state comes from another, and things stand there as `what` tells. -/
structure Becomes (fs : FileSystem) (what : Location → Option Content) (fs' : FileSystem) :
    Prop where
  home : fs'.home = fs.home
  content : fs'.content? = what

theorem Becomes.trans (h : fs.Becomes what fs') (h' : fs'.Becomes what' fs'') :
    fs.Becomes what' fs'' where
  home := h'.home.trans h.home
  content := h'.content

theorem Becomes.stamp (h : fs.Becomes what fs') (at' : Location) :
    fs.Becomes what (fs'.stamp at') where
  home := (home_stamp fs' at').trans h.home
  content := (funext (content?_stamp fs' at')).trans h.content

theorem becomes_place (fs : FileSystem) (at' : Location) (content : Content) :
    fs.Becomes (Function.update fs.content? at' (some content)) (fs.place at' content) where
  home := rfl
  content := by
    funext p
    rw [content?_place, Function.update_apply]

theorem becomes_remove (fs : FileSystem) (at' : Location) :
    fs.Becomes (Function.update fs.content? at' none) (fs.remove at') where
  home := rfl
  content := by
    funext p
    rw [content?_remove, Function.update_apply]

theorem becomes_moved (fs : FileSystem) (source destination : Location) (node : Node) :
    fs.Becomes
      (Function.update (Function.update fs.content? source none) destination (some node.content))
      { fs with nodes := (fs.nodes.erase source).insert destination node } where
  home := rfl
  content := by
    funext p
    rw [content?, Table.get?_insert, Table.get?_erase, Function.update_apply, Function.update_apply]
    split
    · rfl
    · split <;> rfl

/-- What changes only at places without directories, and leaves none there, is a change of files. -/
theorem Becomes.keptBut {places : List Location} (h : fs.Becomes what fs')
    (hother : ∀ p, p ∉ places → what p = fs.content? p)
    (hbefore : ∀ p ∈ places, fs.content? p ≠ some .directory)
    (hafter : ∀ p ∈ places, what p ≠ some .directory) : KeptBut places fs fs' := by
  refine .of_files h.home (fun p hp => ?_) hbefore fun p hp => ?_
  · rw [h.content, hother p hp]
  · rw [h.content]
    exact hafter p hp

/-- A change of one file. -/
theorem Becomes.keptBut_update {x : Option Content}
    (h : fs.Becomes (Function.update fs.content? place x) fs')
    (hbefore : fs.content? place ≠ some .directory) (hx : x ≠ some .directory) :
    KeptBut [place] fs fs' := by
  refine h.keptBut (fun p hp => ?_) (fun p hp => ?_) fun p hp => ?_
  · exact Function.update_of_ne (List.ne_of_not_mem_cons hp) _ _
  · rw [List.mem_singleton.1 hp]
    exact hbefore
  · rw [List.mem_singleton.1 hp, Function.update_self]
    exact hx

/-- A change of two files. -/
theorem Becomes.keptBut_update_update {source destination : Location} {x y : Option Content}
    (h : fs.Becomes
      (Function.update (Function.update fs.content? source x) destination y) fs')
    (hsource : fs.content? source ≠ some .directory)
    (hdestination : fs.content? destination ≠ some .directory) (hx : x ≠ some .directory)
    (hy : y ≠ some .directory) : KeptBut [source, destination] fs fs' := by
  refine h.keptBut (fun p hp => ?_) (fun p hp => ?_) fun p hp => ?_
  · rw [List.mem_cons, List.mem_singleton, not_or] at hp
    rw [Function.update_of_ne hp.2, Function.update_of_ne hp.1]
  · rw [List.mem_cons, List.mem_singleton] at hp
    rcases hp with rfl | rfl
    · exact hsource
    · exact hdestination
  · rw [List.mem_cons, List.mem_singleton] at hp
    rw [Function.update_apply, Function.update_apply]
    split
    · exact hy
    · next hne =>
      rw [if_pos (hp.resolve_right hne)]
      exact hx

theorem child?_of_long {parent : Location} {name : List UInt8} (h : maxName < name.length) :
    fs.child? parent name = .error .nameTooLong :=
  if_pos h

theorem child?_of_short {parent : Location} {name : List UInt8} (h : ¬ maxName < name.length) :
    fs.child? parent name = .ok (fs.nodes.get? (parent ++ [name])) :=
  if_neg h

theorem content?_of_node {node : Node} (h : fs.nodes.get? place = some node) :
    fs.content? place = some node.content := by
  rw [content?, h]
  rfl

theorem content?_of_noNode (h : fs.nodes.get? place = none) : fs.content? place = none := by
  rw [content?, h]
  rfl

theorem exists_node {content : Content} (h : fs.content? place = some content) :
    ∃ time, fs.nodes.get? place = some ⟨content, time⟩ := by
  rw [content?, Option.map_eq_some_iff] at h
  obtain ⟨⟨content, time⟩, hnode, rfl⟩ := h
  exact ⟨time, hnode⟩

/-- A file can be made under a name in a directory: the directory is there, the name and the path to
it are not too long, and it is not the name of a directory. -/
structure Writable (fs : FileSystem) (directory : Path) (name : List UInt8) (parent : Location) :
    Prop where
  leads : fs.Leads directory parent
  path : checkPath (directory.join ⟨name⟩) = .ok ()
  fits : name.length ≤ maxName
  noDirectory : fs.content? (parent ++ [name]) ≠ some .directory

theorem Writable.kept {directory : Path} {name : List UInt8} {parent : Location}
    {places : List Location} (hw : fs.Writable directory name parent) (hk : KeptBut places fs fs') :
    fs'.Writable directory name parent where
  leads := hw.leads.kept hk
  path := hw.path
  fits := hw.fits
  noDirectory hd := by
    rw [← isDirectory_iff, hk.directories, isDirectory_iff] at hd
    exact hw.noDirectory hd

end FileSystem

namespace Disk

open FileSystem

variable {fs : FileSystem} {directory : Path} {parent : Location} {name name' : List UInt8}

theorem openExisting_ok {p : Path} {place : Location} (h : fs.locate p = .ok place) :
    openExisting p fs = (.ok place, fs) :=
  query_ok h

theorem openExisting_error {p : Path} {e : FileError} (h : fs.locate p = .error e) :
    openExisting p fs = (.error e, fs) :=
  query_error h

theorem readOpen_file {place : Location} {bytes : List UInt8}
    (h : fs.content? place = some (.file bytes)) : readOpen place fs = (.ok bytes, fs) := by
  obtain ⟨time, hnode⟩ := exists_node h
  rw [readOpen, bind_ok _ (show (get : Disk FileSystem) fs = (.ok fs, fs) from rfl), hnode]
  rfl

theorem readOpen_directory {place : Location} (h : fs.content? place = some .directory) :
    readOpen place fs = (.error .isDirectory, fs) := by
  obtain ⟨time, hnode⟩ := exists_node h
  rw [readOpen, bind_ok _ (show (get : Disk FileSystem) fs = (.ok fs, fs) from rfl), hnode]
  rfl

/-! ## What is done, and what is refused -/

/-- A file is made empty where one can be made, and nothing changes anywhere else. -/
theorem create_cases (directory : Path) (fs : FileSystem) (hn : PlainName name) :
    (∃ parent fs', fs.Writable directory name parent ∧
      create (directory.join ⟨name⟩) fs = (.ok (parent ++ [name]), fs') ∧
      fs.Becomes (Function.update fs.content? (parent ++ [name]) (some (.file []))) fs') ∨
    (∀ parent, ¬ fs.Writable directory name parent) ∧
      ∃ e, create (directory.join ⟨name⟩) fs = (.error e, fs) := by
  unfold create
  cases htarget : fs.target (directory.join ⟨name⟩) with
  | error e =>
    refine .inr ⟨fun parent hw => ?_, e, bind_error _ (query_error htarget)⟩
    rw [hw.leads.target_join hn hw.path] at htarget
    cases htarget
  | ok target =>
    obtain ⟨parent, hl, hp, rfl⟩ := leads_of_target_join hn htarget
    rw [bind_ok _ (query_ok htarget)]
    dsimp only
    by_cases hlong : maxName < name.length
    · exact .inr ⟨fun parent hw => Nat.not_lt.2 hw.fits hlong, _,
        bind_error _ (query_error (child?_of_long hlong))⟩
    rw [bind_ok _ (query_ok (child?_of_short hlong))]
    cases hnode : fs.nodes.get? (parent ++ [name]) with
    | none =>
      -- the file is new, so its directory is modified too
      have hw : fs.Writable directory name parent :=
        ⟨hl, hp, Nat.not_lt.1 hlong, by rw [content?_of_noNode hnode]; simp⟩
      exact .inl ⟨parent, _, hw, rfl, (becomes_place fs _ _).stamp parent⟩
    | some node =>
      obtain ⟨content, time⟩ := node
      have hcontent := content?_of_node hnode
      cases content with
      | directory =>
        refine .inr ⟨fun parent' hw => ?_, .isDirectory, rfl⟩
        rw [hw.leads.unique hl] at hw
        exact hw.noDirectory hcontent
      | file bytes =>
        have hw : fs.Writable directory name parent :=
          ⟨hl, hp, Nat.not_lt.1 hlong, by rw [hcontent]; simp⟩
        exact .inl ⟨parent, _, hw, rfl, becomes_place fs _ _⟩

theorem append_ok {place : Location} {old : List UInt8} (h : fs.content? place = some (.file old))
    (bytes : List UInt8) :
    ∃ fs', append place bytes fs = (.ok (), fs') ∧
      fs.Becomes (Function.update fs.content? place (some (.file (old ++ bytes)))) fs' := by
  obtain ⟨time, hnode⟩ := exists_node h
  unfold append
  rw [bind_ok _ (show (get : Disk FileSystem) fs = (.ok fs, fs) from rfl), hnode]
  exact ⟨_, rfl, becomes_place fs _ _⟩

/-- A file is removed where one is, and nothing changes anywhere else. -/
theorem removeFile_cases (directory : Path) (fs : FileSystem) (hn : PlainName name) :
    (∃ parent bytes fs', fs.Writable directory name parent ∧
      fs.content? (parent ++ [name]) = some (.file bytes) ∧
      removeFile (directory.join ⟨name⟩) fs = (.ok (), fs') ∧
      fs.Becomes (Function.update fs.content? (parent ++ [name]) none) fs') ∨
    ∃ e, removeFile (directory.join ⟨name⟩) fs = (.error e, fs) ∧
      ∀ parent, fs.Writable directory name parent →
        fs.content? (parent ++ [name]) = none ∧ e = .notFound := by
  unfold removeFile
  cases htarget : fs.target (directory.join ⟨name⟩) with
  | error e =>
    refine .inr ⟨e, bind_error _ (query_error htarget), fun parent hw => ?_⟩
    rw [hw.leads.target_join hn hw.path] at htarget
    cases htarget
  | ok target =>
    obtain ⟨parent, hl, hp, rfl⟩ := leads_of_target_join hn htarget
    rw [bind_ok _ (query_ok htarget)]
    dsimp only
    by_cases hlong : maxName < name.length
    · exact .inr ⟨_, bind_error _ (query_error (child?_of_long hlong)), fun parent hw =>
        absurd hlong (Nat.not_lt.2 hw.fits)⟩
    rw [bind_ok _ (query_ok (child?_of_short hlong))]
    cases hnode : fs.nodes.get? (parent ++ [name]) with
    | none =>
      refine .inr ⟨.notFound, rfl, fun parent' hw => ?_⟩
      rw [hw.leads.unique hl]
      exact ⟨content?_of_noNode hnode, rfl⟩
    | some node =>
      obtain ⟨content, time⟩ := node
      have hcontent := content?_of_node hnode
      cases content with
      | directory =>
        refine .inr ⟨.isDirectory, rfl, fun parent' hw => ?_⟩
        rw [hw.leads.unique hl] at hw
        exact absurd hcontent hw.noDirectory
      | file bytes =>
        have hw : fs.Writable directory name parent :=
          ⟨hl, hp, Nat.not_lt.1 hlong, by rw [hcontent]; simp⟩
        exact .inl ⟨parent, bytes, _, hw, hcontent, rfl, (becomes_remove fs _).stamp parent⟩

/-- A file is moved where one can be made, and nothing changes anywhere else. -/
theorem rename_cases {bytes : List UInt8} (hn : PlainName name) (hn' : PlainName name')
    (hl : fs.Leads directory parent) (hfile : fs.content? (parent ++ [name]) = some (.file bytes)) :
    (∃ fs', fs.Writable directory name parent ∧ fs.Writable directory name' parent ∧
      rename (directory.join ⟨name⟩) (directory.join ⟨name'⟩) fs = (.ok (), fs') ∧
      fs.Becomes (Function.update (Function.update fs.content? (parent ++ [name]) none)
        (parent ++ [name']) (some (.file bytes))) fs') ∨
    ¬ (fs.Writable directory name parent ∧ fs.Writable directory name' parent) ∧
      ∃ e, rename (directory.join ⟨name⟩) (directory.join ⟨name'⟩) fs = (.error e, fs) := by
  unfold rename
  rw [bind_ok _ (show (get : Disk FileSystem) fs = (.ok fs, fs) from rfl)]
  cases hp : checkPath (directory.join ⟨name⟩) with
  | error e =>
    refine .inr ⟨fun hw => ?_, e, bind_error _ (query_error (target_of_error hp))⟩
    rw [hw.1.path] at hp
    cases hp
  | ok =>
    rw [bind_ok _ (query_ok (hl.target_join hn hp))]
    cases hp' : checkPath (directory.join ⟨name'⟩) with
    | error e =>
      refine .inr ⟨fun hw => ?_, e, bind_error _ (query_error (target_of_error hp'))⟩
      rw [hw.2.path] at hp'
      cases hp'
    | ok =>
      rw [bind_ok _ (query_ok (hl.target_join hn' hp'))]
      dsimp only
      by_cases hlong : maxName < name.length
      · exact .inr ⟨fun hw => Nat.not_lt.2 hw.1.fits hlong, _,
          bind_error _ (query_error (child?_of_long hlong))⟩
      rw [bind_ok _ (query_ok (child?_of_short hlong))]
      by_cases hlong' : maxName < name'.length
      · exact .inr ⟨fun hw => Nat.not_lt.2 hw.2.fits hlong', _,
          bind_error _ (query_error (child?_of_long hlong'))⟩
      rw [bind_ok _ (query_ok (child?_of_short hlong'))]
      obtain ⟨time, hnode⟩ := exists_node hfile
      rw [hnode]
      have hw : fs.Writable directory name parent :=
        ⟨hl, hp, Nat.not_lt.1 hlong, by rw [hfile]; simp⟩
      -- both directories are stamped, and here they are one
      have hmoved := ((becomes_moved fs (parent ++ [name]) (parent ++ [name'])
        ⟨.file bytes, time⟩).stamp parent).stamp parent
      cases hnode' : fs.nodes.get? (parent ++ [name']) with
      | none =>
        have hw' : fs.Writable directory name' parent :=
          ⟨hl, hp', Nat.not_lt.1 hlong', by rw [content?_of_noNode hnode']; simp⟩
        exact .inl ⟨_, hw, hw', rfl, hmoved⟩
      | some node' =>
        obtain ⟨content', time'⟩ := node'
        have hcontent' := content?_of_node hnode'
        cases content' with
        | directory => exact .inr ⟨fun hw => hw.2.noDirectory hcontent', .isDirectory, rfl⟩
        | file bytes' =>
          have hw' : fs.Writable directory name' parent :=
            ⟨hl, hp', Nat.not_lt.1 hlong', by rw [hcontent']; simp⟩
          exact .inl ⟨_, hw, hw', rfl, hmoved⟩

/-! ## What came of an operation -/

section Inversion

variable {fs' : FileSystem} {place : Location} {e : FileError} {bytes : List UInt8}

theorem of_create_ok (hn : PlainName name)
    (h : create (directory.join ⟨name⟩) fs = (.ok place, fs')) :
    ∃ parent, fs.Writable directory name parent ∧ place = parent ++ [name] ∧
      fs.Becomes (Function.update fs.content? (parent ++ [name]) (some (.file []))) fs' := by
  rcases create_cases directory fs hn with
    ⟨parent, fs₁, hw, hcreate, hcreated⟩ | ⟨-, e, hcreate⟩
  · cases h.symm.trans hcreate
    exact ⟨parent, hw, rfl, hcreated⟩
  · cases h.symm.trans hcreate

theorem of_create_error (hn : PlainName name)
    (h : create (directory.join ⟨name⟩) fs = (.error e, fs')) : fs' = fs := by
  rcases create_cases directory fs hn with ⟨parent, fs₁, hw, hcreate, -⟩ | ⟨-, e', hcreate⟩
  · cases h.symm.trans hcreate
  · cases h.symm.trans hcreate
    rfl

theorem of_append_ok {old : List UInt8} (hfile : fs.content? place = some (.file old))
    (h : append place bytes fs = (.ok (), fs')) :
    fs.Becomes (Function.update fs.content? place (some (.file (old ++ bytes)))) fs' := by
  obtain ⟨fs₁, happend, hwritten⟩ := append_ok hfile bytes
  cases h.symm.trans happend
  exact hwritten

/-- What is written to is a file. -/
theorem file_of_append_ok (h : append place bytes fs = (.ok (), fs')) :
    ∃ old, fs.content? place = some (.file old) := by
  obtain ⟨fs₁, fs₂, hget, h⟩ := of_bind_ok h
  cases hget
  rcases hnode : fs.nodes.get? place with _ | ⟨old | _, time⟩ <;> rw [hnode] at h <;> cases h
  exact ⟨old, content?_of_node hnode⟩

theorem of_removeFile_ok (hn : PlainName name)
    (h : removeFile (directory.join ⟨name⟩) fs = (.ok (), fs')) :
    ∃ parent, fs.Writable directory name parent ∧
      fs.Becomes (Function.update fs.content? (parent ++ [name]) none) fs' := by
  rcases removeFile_cases directory fs hn with
    ⟨parent, bytes, fs₁, hw, -, hremove, hremoved⟩ | ⟨e, hremove, -⟩
  · cases h.symm.trans hremove
    exact ⟨parent, hw, hremoved⟩
  · cases h.symm.trans hremove

theorem of_removeFile_error (hn : PlainName name)
    (h : removeFile (directory.join ⟨name⟩) fs = (.error e, fs')) : fs' = fs := by
  rcases removeFile_cases directory fs hn with
    ⟨parent, bytes, fs₁, -, -, hremove, -⟩ | ⟨e', hremove, -⟩
  · cases h.symm.trans hremove
  · cases h.symm.trans hremove
    rfl

theorem of_rename_ok (hn : PlainName name) (hn' : PlainName name') (hl : fs.Leads directory parent)
    (hfile : fs.content? (parent ++ [name]) = some (.file bytes))
    (h : rename (directory.join ⟨name⟩) (directory.join ⟨name'⟩) fs = (.ok (), fs')) :
    fs.Writable directory name' parent ∧
      fs.Becomes (Function.update (Function.update fs.content? (parent ++ [name]) none)
        (parent ++ [name']) (some (.file bytes))) fs' := by
  rcases rename_cases hn hn' hl hfile with ⟨fs₁, -, hw, hrename, hrenamed⟩ | ⟨-, e, hrename⟩
  · cases h.symm.trans hrename
    exact ⟨hw, hrenamed⟩
  · cases h.symm.trans hrename

theorem of_rename_error {p q : Path} (h : rename p q fs = (.error e, fs')) : fs' = fs := by
  obtain hget | ⟨fs₁, fs₂, hget, h⟩ := of_bind_error h
  · cases hget
  cases hget
  obtain htarget | ⟨target, fs₂, htarget, h⟩ := of_bind_error h
  · exact of_query_error htarget
  obtain ⟨-, rfl⟩ := of_query_ok htarget
  obtain htarget' | ⟨target', fs₃, htarget', h⟩ := of_bind_error h
  · exact of_query_error htarget'
  obtain ⟨-, rfl⟩ := of_query_ok htarget'
  rcases target with ⟨parent, name, slash⟩ | place <;>
    rcases target' with ⟨parent', name', slash'⟩ | place'
  case child.child =>
    obtain hchild | ⟨node?, fs₄, hchild, h⟩ := of_bind_error h
    · exact of_query_error hchild
    obtain ⟨-, rfl⟩ := of_query_ok hchild
    obtain hchild' | ⟨node'?, fs₅, hchild', h⟩ := of_bind_error h
    · exact of_query_error hchild'
    obtain ⟨-, rfl⟩ := of_query_ok hchild'
    rcases node? with _ | ⟨_ | _, time⟩
    · cases h
      rfl
    · rcases node'? with _ | ⟨_ | _, time'⟩ <;> cases h
      rfl
    · cases h
  all_goals
    cases h
    rfl

end Inversion

/-! ## What stays a file -/

/-- A file that was created is empty. -/
theorem create_in (hl : fs.Leads directory parent) (hn : PlainName name) :
    ∃ r fs', create (directory.join ⟨name⟩) fs = (r, fs') ∧ KeptBut [parent ++ [name]] fs fs' ∧
      ∀ place, r = .ok place → place = parent ++ [name] ∧ fs'.content? place = some (.file []) := by
  rcases create_cases directory fs hn with
    ⟨parent', fs', hw, hcreate, hbecomes⟩ | ⟨-, e, hcreate⟩
  · obtain rfl := hw.leads.unique hl
    refine ⟨_, fs', hcreate, hbecomes.keptBut_update hw.noDirectory (by simp), ?_⟩
    rintro place ⟨⟩
    rw [hbecomes.content, Function.update_self]
    exact ⟨rfl, rfl⟩
  · exact ⟨_, fs, hcreate, .refl _ _, nofun⟩

theorem append_to {place : Location} {old : List UInt8} (h : fs.content? place = some (.file old))
    (bytes : List UInt8) :
    ∃ fs', append place bytes fs = (.ok (), fs') ∧ KeptBut [place] fs fs' ∧
      fs'.content? place = some (.file (old ++ bytes)) := by
  obtain ⟨fs', happend, hbecomes⟩ := append_ok h bytes
  refine ⟨fs', happend, hbecomes.keptBut_update (by rw [h]; simp) (by simp), ?_⟩
  rw [hbecomes.content, Function.update_self]

/-- Removing takes at most the file away. -/
theorem removeFile_in (hl : fs.Leads directory parent) (hn : PlainName name) :
    ∃ r fs', removeFile (directory.join ⟨name⟩) fs = (r, fs') ∧
      KeptBut [parent ++ [name]] fs fs' := by
  rcases removeFile_cases directory fs hn with
    ⟨parent', bytes, fs', hw, -, hremove, hbecomes⟩ | ⟨e, hremove, -⟩
  · obtain rfl := hw.leads.unique hl
    exact ⟨_, fs', hremove, hbecomes.keptBut_update hw.noDirectory (by simp)⟩
  · exact ⟨_, fs, hremove, .refl _ _⟩

/-- A file that was renamed stands under the new name. -/
theorem rename_in {bytes : List UInt8} (hl : fs.Leads directory parent) (hn : PlainName name)
    (hn' : PlainName name') (hfile : fs.content? (parent ++ [name]) = some (.file bytes)) :
    ∃ r fs', rename (directory.join ⟨name⟩) (directory.join ⟨name'⟩) fs = (r, fs') ∧
      KeptBut [parent ++ [name], parent ++ [name']] fs fs' ∧
      ∀ done, r = .ok done → checkPath (directory.join ⟨name'⟩) = .ok () ∧
        name'.length ≤ maxName ∧ fs'.content? (parent ++ [name']) = some (.file bytes) := by
  rcases rename_cases hn hn' hl hfile with ⟨fs', hw, hw', hrename, hbecomes⟩ | ⟨-, e, hrename⟩
  · refine ⟨_, fs', hrename, hbecomes.keptBut_update_update hw.noDirectory hw'.noDirectory
      (by simp) (by simp), fun _ _ => ⟨hw'.path, hw'.fits, ?_⟩⟩
    rw [hbecomes.content, Function.update_self]
  · exact ⟨_, fs, hrename, .refl _ _, nofun⟩

/-- Asking for a modification time changes nothing. -/
theorem modified_keeps (p : Path) (fs : FileSystem) : ∃ r, modified p fs = (r, fs) := by
  unfold modified
  cases hlocate : fs.locate p with
  | error e =>
    rw [bind_error _ (query_error hlocate)]
    exact ⟨_, rfl⟩
  | ok place =>
    rw [bind_ok _ (query_ok hlocate),
      bind_ok _ (show (get : Disk FileSystem) fs = (.ok fs, fs) from rfl)]
    cases fs.nodes.get? place <;> exact ⟨_, rfl⟩

/-- The last names of those places that are children of one place. -/
theorem mem_childNames {place : Location} {keys : List Location}
    {childName : Location → Option (List UInt8)}
    (hchild : ∀ {key name}, childName key = some name ↔ key = place ++ [name]) (name : List UInt8) :
    name ∈ keys.filterMap childName ↔ place ++ [name] ∈ keys := by
  rw [List.mem_filterMap]
  constructor
  · rintro ⟨key, hmem, hkey⟩
    rw [← hchild.1 hkey]
    exact hmem
  · intro hmem
    exact ⟨_, hmem, hchild.2 rfl⟩

theorem nodup_childNames {place : Location} {keys : List Location}
    {childName : Location → Option (List UInt8)}
    (hchild : ∀ {key name}, childName key = some name ↔ key = place ++ [name])
    (hkeys : keys.Nodup) : (keys.filterMap childName).Nodup := by
  refine hkeys.filterMap fun key key' name hkey hkey' => ?_
  rw [hchild.1 hkey, hchild.1 hkey']

/-- The names in a directory are those under which something stands there. -/
theorem list_ok {p : Path} {place : Location} (hlocate : fs.locate p = .ok place)
    (hd : fs.isDirectory place = true) :
    ∃ names, list p fs = (.ok names, fs) ∧ names.Nodup ∧
      ∀ name, name ∈ names ↔ (fs.content? (place ++ [name])).isSome = true := by
  have hlisted : ∃ childName : Location → Option (List UInt8),
      list p fs = (.ok ((fs.nodes.keys.filterMap childName).mergeSort
        fun a b => compareBytes a b ≠ .gt), fs) ∧
      ∀ {key name}, childName key = some name ↔ key = place ++ [name] := by
    refine ⟨?childName, ?hlist, ?hchild⟩
    case hlist =>
      rw [list, bind_ok _ (query_ok hlocate),
        bind_ok _ (show (get : Disk FileSystem) fs = (.ok fs, fs) from rfl), hd]
      rfl
    case hchild =>
      intro key name
      rcases List.eq_nil_or_concat key with rfl | ⟨front, last, rfl⟩
      · simp
      · simp [and_comm]
  obtain ⟨childName, hlist, hchild⟩ := hlisted
  refine ⟨_, hlist, (List.mergeSort_perm _ _).nodup_iff.2 (nodup_childNames hchild
    fs.nodes.distinct), fun name => ?_⟩
  rw [List.mem_mergeSort, mem_childNames hchild, FileSystem.content?, Option.isSome_map,
    ← Table.contains, Table.contains_iff_mem_keys]

/-! ## Making directories -/

section MakeDirectories

variable {fs' : FileSystem} {p : Path}

theorem catch_ok {α : Type} {x : Disk α} {a : α} (f : FileError → Disk α)
    (h : x fs = (.ok a, fs')) : (tryCatch x f) fs = (.ok a, fs') := by
  simp only [tryCatch, tryCatchThe, MonadExceptOf.tryCatch, ExceptT.tryCatch, ExceptT.mk, bind]
  rw [StateT.bind, h]
  rfl

theorem catch_error {α : Type} {x : Disk α} {e : FileError} (f : FileError → Disk α)
    (h : x fs = (.error e, fs')) : (tryCatch x f) fs = f e fs' := by
  simp only [tryCatch, tryCatchThe, MonadExceptOf.tryCatch, ExceptT.tryCatch, ExceptT.mk, bind]
  rw [StateT.bind, h]
  rfl

/-- A path leads to the directory that was made under its last name. -/
theorem leads_of_place {slash : Bool} (htarget : fs.target p = .ok (.child parent name slash))
    (hshort : ¬ maxName < name.length) :
    ((fs.place (parent ++ [name]) .directory).stamp parent).Leads p (parent ++ [name]) := by
  obtain ⟨hnames, hdot, hdots, hwalk, hparent⟩ := target_eq_child htarget
  have hcontent : ∀ q, ((fs.place (parent ++ [name]) .directory).stamp parent).content? q =
      if q = parent ++ [name] then some .directory else fs.content? q := by
    intro q
    rw [content?_stamp, content?_place]
  have hdirs : ∀ q, fs.isDirectory q = true →
      ((fs.place (parent ++ [name]) .directory).stamp parent).isDirectory q = true := by
    intro q hq
    rw [isDirectory_iff] at hq
    rw [isDirectory_iff, hcontent, hq, ite_self]
  have horigin : ((fs.place (parent ++ [name]) .directory).stamp parent).origin p =
      fs.origin p := by
    rw [origin, origin, home_stamp]
    rfl
  constructor
  · have hparent' := walk_mono hdirs hwalk hparent
    rw [hnames, walk_append, horigin, hparent']
    show FileSystem.walk _ parent [name] = _
    rw [walk_child (hdirs parent hparent) hdot hdots, if_neg hshort, hcontent, if_pos rfl]
    rfl
  · rw [isDirectory_iff, hcontent, if_pos rfl]

theorem leads_of_makeDirectory (h : makeDirectory p fs = (.ok (), fs')) :
    ∃ place, fs'.Leads p place := by
  unfold makeDirectory at h
  cases htarget : fs.target p with
  | error e =>
    rw [bind_error _ (query_error htarget)] at h
    cases h
  | ok target =>
    rw [bind_ok _ (query_ok htarget)] at h
    cases target with
    | existing place => cases h
    | child parent name slash =>
      dsimp only at h
      by_cases hlong : maxName < name.length
      · rw [bind_error _ (query_error (child?_of_long hlong))] at h
        cases h
      rw [bind_ok _ (query_ok (child?_of_short hlong))] at h
      cases hnode : fs.nodes.get? (parent ++ [name]) with
      | some node =>
        rw [hnode] at h
        cases h
      | none =>
        rw [hnode] at h
        cases h
        exact ⟨_, leads_of_place htarget hlong⟩

/-- Making a missing directory can fail, and then it was there. -/
theorem leads_of_makeMissingDirectory (h : makeMissingDirectory p fs = (.ok (), fs')) :
    ∃ place, fs'.Leads p place := by
  unfold makeMissingDirectory at h
  obtain ⟨r, fs₁, hmade⟩ : ∃ r fs₁, makeDirectory p fs = (r, fs₁) := ⟨_, _, rfl⟩
  cases r with
  | ok =>
    rw [catch_ok _ hmade] at h
    cases h
    exact leads_of_makeDirectory hmade
  | error e =>
    rw [catch_error _ hmade, bind_ok _ (show (get : Disk FileSystem) fs₁ = (.ok fs₁, fs₁) from rfl)]
      at h
    by_cases hnamed : namesDirectory fs₁ p = true
    · rw [if_pos hnamed] at h
      cases h
      unfold namesDirectory at hnamed
      cases hlocate : fs'.locate p with
      | ok place =>
        rw [hlocate] at hnamed
        exact ⟨place, leads_of_locate hlocate hnamed⟩
      | error e' =>
        rw [hlocate] at hnamed
        cases hnamed
    · rw [if_neg hnamed] at h
      cases h

/-- Whatever had to be made above it, the directory itself was made or found last. -/
theorem of_makeDirectories (hp : p.bytes ≠ []) (h : makeDirectories p fs = (.ok (), fs')) :
    ∃ fs₀, makeMissingDirectory p fs₀ = (.ok (), fs') := by
  rw [makeDirectories, makeDirectoriesWithin, if_neg hp] at h
  obtain ⟨r, fs₁, hmade⟩ : ∃ r fs₁, makeMissingDirectory p fs = (r, fs₁) := ⟨_, _, rfl⟩
  cases r with
  | ok =>
    rw [catch_ok _ hmade] at h
    cases h
    exact ⟨fs, hmade⟩
  | error e =>
    rw [catch_error _ hmade] at h
    cases e with
    | notFound =>
      dsimp only at h
      cases hparent : p.parent? with
      | none =>
        rw [hparent] at h
        cases h
      | some parent =>
        -- the directories above were missing too, and this one is made once they are there
        rw [hparent] at h
        dsimp only at h
        obtain ⟨r, fs₂, habove⟩ : ∃ r fs₂,
            makeDirectoriesWithin p.bytes.length parent fs₁ = (r, fs₂) := ⟨_, _, rfl⟩
        cases r with
        | ok =>
          rw [bind_ok _ habove] at h
          exact ⟨fs₂, h⟩
        | error e' =>
          rw [bind_error _ habove] at h
          cases h
    | _ => cases h

/-- A path leads to the directories that were made for it. The empty path names the working
directory, and nothing is made for it. -/
theorem leads_of_makeDirectories (hhome : fs.isDirectory fs.home = true)
    (h : makeDirectories p fs = (.ok (), fs')) : ∃ place, fs'.Leads p place := by
  by_cases hempty : p.bytes = []
  · rw [makeDirectories, makeDirectoriesWithin, if_pos hempty] at h
    cases h
    have hnames : names p = [] := by
      rw [names, hempty]
      rfl
    have horigin : fs.origin p = fs.home := by
      rw [origin, Path.isAbsolute, hempty]
      rfl
    refine ⟨fs.home, ?_, hhome⟩
    rw [hnames, horigin]
    rfl
  · obtain ⟨fs₀, hmade⟩ := of_makeDirectories hempty h
    exact leads_of_makeMissingDirectory hmade

end MakeDirectories

end Disk

end LeaseCache
