import LeaseCache.Proofs.FileOperations

/-!
# Modification times

Whatever modifies a node gives it a tick of the clock that was never given before. So the time of a
directory tells whether files came to it or went between two states of the files: making a file may
modify the directory, and renaming and removing one always do (`Disk.rename_modifies`,
`Disk.removeFile_modifies`). Writing a file leaves the time of its directory alone, so an entry
that was overwritten in place would not be noticed. What an operation does whatever comes of it is
told as a relation between the files before and after (`Disk.Within`). Most operations only modify,
so that every time goes forward; moving a file is not of this kind, since the file keeps its time.
-/

namespace LeaseCache

open FileSystem (Leads PlainName)

namespace FileSystem

variable {fs fs' fs'' : FileSystem} {place : Location}

/-- When the node at a place was modified last. -/
def modified? (fs : FileSystem) (place : Location) : Option Timestamp :=
  (fs.nodes.get? place).map Node.modified

/-- The time of a node is not a tick that is still to come. -/
def Elapsed (place : Location) (fs : FileSystem) : Prop :=
  ∀ n, fs.modified? place = some (.tick n) → n < fs.clock

/-- A node was modified between two states of the files. -/
def ModifiedSince (place : Location) (fs fs' : FileSystem) : Prop :=
  ∃ n, fs.clock ≤ n ∧ n < fs'.clock ∧ fs'.modified? place = some (.tick n)

/-- The clock went forward between two states of the files, and a node was modified or was not. -/
structure Passes (place : Location) (fs fs' : FileSystem) : Prop where
  clock : fs.clock ≤ fs'.clock
  time : fs'.modified? place = fs.modified? place ∨ ModifiedSince place fs fs'

theorem exists_time (h : fs.isDirectory place = true) :
    ∃ node, fs.nodes.get? place = some node ∧ fs.modified? place = some node.modified := by
  obtain ⟨node, hnode⟩ := Option.isSome_iff_exists.1 (isSome_of_isDirectory h)
  refine ⟨node, hnode, ?_⟩
  rw [modified?, hnode]
  rfl

theorem modified?_place (fs : FileSystem) (at' place : Location) (content : Content) :
    (fs.place at' content).modified? place =
      if place = at' then some (.tick fs.clock) else fs.modified? place := by
  rw [modified?, FileSystem.place, Table.get?_insert]
  split <;> rfl

theorem modified?_place_of_ne {at' : Location} (h : place ≠ at') (fs : FileSystem)
    (content : Content) : (fs.place at' content).modified? place = fs.modified? place := by
  rw [modified?_place, if_neg h]

theorem modified?_stamp_of_ne {at' : Location} (h : place ≠ at') (fs : FileSystem) :
    (fs.stamp at').modified? place = fs.modified? place := by
  unfold stamp
  split
  · exact modified?_place_of_ne h fs _
  · rfl

theorem modified?_moved (fs : FileSystem) {source destination : Location} (hsource : place ≠ source)
    (hdestination : place ≠ destination) (node : Node) :
    ({ fs with nodes := (fs.nodes.erase source).insert destination node } :
      FileSystem).modified? place = fs.modified? place := by
  rw [modified?, Table.get?_insert, if_neg hdestination, Table.get?_erase, if_neg hsource]
  rfl

theorem modified?_remove_of_ne (fs : FileSystem) {at' : Location} (h : place ≠ at') :
    (fs.remove at').modified? place = fs.modified? place := by
  rw [modified?, remove, Table.get?_erase, if_neg h]
  rfl

/-! ## Between two states -/

theorem Passes.refl (place : Location) (fs : FileSystem) : Passes place fs fs :=
  ⟨Nat.le_refl _, .inl rfl⟩

theorem ModifiedSince.passes (h : ModifiedSince place fs fs') : Passes place fs fs' := by
  refine ⟨?_, .inr h⟩
  obtain ⟨n, hle, hlt, -⟩ := h
  omega

/-- Once a node was modified, it stays modified since then. -/
theorem ModifiedSince.before (h : ModifiedSince place fs fs') (h' : Passes place fs' fs'') :
    ModifiedSince place fs fs'' := by
  obtain ⟨n, hle, hlt, htime⟩ := h
  have hclock := h'.clock
  rcases h'.time with hsame | ⟨m, hle', hlt', htime'⟩
  · exact ⟨n, hle, by omega, hsame.trans htime⟩
  · exact ⟨m, by omega, hlt', htime'⟩

theorem ModifiedSince.after (h : Passes place fs fs') (h' : ModifiedSince place fs' fs'') :
    ModifiedSince place fs fs'' := by
  obtain ⟨n, hle, hlt, htime⟩ := h'
  have hclock := h.clock
  exact ⟨n, by omega, hlt, htime⟩

theorem Passes.trans (h : Passes place fs fs') (h' : Passes place fs' fs'') :
    Passes place fs fs'' := by
  refine ⟨Nat.le_trans h.clock h'.clock, ?_⟩
  rcases h.time with hsame | hmodified
  · rcases h'.time with hsame' | hmodified'
    · exact .inl (hsame'.trans hsame)
    · exact .inr (.after h hmodified')
  · exact .inr (hmodified.before h')

instance (place : Location) : IsPreorder FileSystem (Passes place) where
  refl := .refl place
  trans _ _ _ := .trans

/-- A node that was modified has another time than before. -/
theorem ModifiedSince.ne (h : ModifiedSince place fs fs') (he : Elapsed place fs) :
    fs'.modified? place ≠ fs.modified? place := by
  obtain ⟨n, hle, -, htime⟩ := h
  intro heq
  have hlt := he n (heq ▸ htime)
  omega

theorem Passes.elapsed (h : Passes place fs fs') (he : Elapsed place fs) : Elapsed place fs' := by
  intro n hn
  have hclock := h.clock
  rcases h.time with hsame | ⟨m, -, hlt, htime⟩
  · have hlt := he n (hsame ▸ hn)
    omega
  · rw [htime] at hn
    cases hn
    exact hlt

theorem passes_place (fs : FileSystem) (at' place : Location) (content : Content) :
    Passes place fs (fs.place at' content) := by
  refine ⟨Nat.le_succ _, ?_⟩
  by_cases h : place = at'
  · exact .inr ⟨fs.clock, Nat.le_refl _, Nat.lt_succ_self _, by rw [modified?_place, if_pos h]⟩
  · exact .inl (by rw [modified?_place, if_neg h])

theorem passes_remove {at' : Location} (h : place ≠ at') : Passes place fs (fs.remove at') :=
  ⟨Nat.le_refl _, .inl (modified?_remove_of_ne fs h)⟩

theorem passes_moved {source destination : Location} (hsource : place ≠ source)
    (hdestination : place ≠ destination) (node : Node) :
    Passes place fs { fs with nodes := (fs.nodes.erase source).insert destination node } :=
  ⟨Nat.le_refl _, .inl (modified?_moved fs hsource hdestination node)⟩

theorem passes_stamp (fs : FileSystem) (at' place : Location) : Passes place fs (fs.stamp at') := by
  unfold stamp
  split
  · exact passes_place fs at' place _
  · exact .refl place fs

theorem modifiedSince_stamp (h : (fs.nodes.get? place).isSome = true) :
    ModifiedSince place fs (fs.stamp place) := by
  obtain ⟨node, hnode⟩ := Option.isSome_iff_exists.1 h
  rw [stamp, hnode]
  refine ⟨fs.clock, Nat.le_refl _, Nat.lt_succ_self _, ?_⟩
  rw [modified?_place, if_pos rfl]

theorem isSome_remove_of_ne {at' : Location} (h : place ≠ at') :
    ((fs.remove at').nodes.get? place).isSome = (fs.nodes.get? place).isSome := by
  rw [remove, Table.get?_erase, if_neg h]

theorem content?_of_child {parent : Location} {name : List UInt8} {node? : Option Node}
    (h : fs.child? parent name = .ok node?) :
    fs.content? (parent ++ [name]) = node?.map Node.content := by
  unfold child? at h
  split at h
  · cases h
  · rw [content?, Except.ok.inj h]

theorem ne_child (parent : Location) (name : List UInt8) : parent ≠ parent ++ [name] := by
  simp

theorem elapsed_initial (place : Location) : Elapsed place initial := by
  intro n hn
  rw [modified?, initial, Table.get?_insert, Table.get?_insert] at hn
  split at hn
  · cases hn
    decide
  · split at hn <;> cases hn
    decide

end FileSystem

namespace Disk

open FileSystem

/-! ## Whatever comes of an operation -/

section Within

variable {α β : Type} {R : FileSystem → FileSystem → Prop} {x : Disk α}

/-- Whatever comes of an operation, the files before and after it are in a relation. -/
def Within (R : FileSystem → FileSystem → Prop) (x : Disk α) : Prop := ∀ fs, R fs (x fs).2

theorem Within.of_run {r : Except FileError α} {fs fs' : FileSystem} (hx : Within R x)
    (h : x fs = (r, fs')) : R fs fs' := by
  have hfiles := hx fs
  rwa [h] at hfiles

variable [IsPreorder FileSystem R]

theorem within_pure (a : α) : Within R (pure a) := fun fs => refl fs

theorem within_throw (e : FileError) : Within R (throw e : Disk α) := fun fs => refl fs

theorem within_get : Within R get := fun fs => refl fs

theorem within_query (f : FileSystem → Except FileError α) : Within R (query f) := by
  intro fs
  cases hf : f fs with
  | ok a =>
    rw [query_ok hf]
    exact refl fs
  | error e =>
    rw [query_error hf]
    exact refl fs

theorem Within.bind (hx : Within R x) {f : α → Disk β} (hf : ∀ a, Within R (f a)) :
    Within R (x >>= f) := by
  intro fs
  obtain ⟨r, fs₁, hrun⟩ : ∃ r fs₁, x fs = (r, fs₁) := ⟨_, _, rfl⟩
  cases r with
  | ok a =>
    rw [bind_ok f hrun]
    exact trans_of R (hx.of_run hrun) (hf a fs₁)
  | error e =>
    rw [bind_error f hrun]
    exact hx.of_run hrun

theorem Within.catch (hx : Within R x) {f : FileError → Disk α} (hf : ∀ e, Within R (f e)) :
    Within R (tryCatch x f) := by
  intro fs
  obtain ⟨r, fs₁, hrun⟩ : ∃ r fs₁, x fs = (r, fs₁) := ⟨_, _, rfl⟩
  cases r with
  | ok a =>
    rw [catch_ok f hrun]
    exact hx.of_run hrun
  | error e =>
    rw [catch_error f hrun]
    exact trans_of R (hx.of_run hrun) (hf e fs₁)

theorem within_makeMissingDirectory (h : ∀ p, Within R (makeDirectory p)) (p : Path) :
    Within R (makeMissingDirectory p) := by
  refine (h p).catch fun e => within_get.bind fun fs => ?_
  split
  · exact within_pure ()
  · exact within_throw e

theorem within_makeDirectoriesWithin (h : ∀ p, Within R (makeDirectory p)) (room : Nat) (p : Path) :
    Within R (makeDirectoriesWithin room p) := by
  induction room generalizing p with
  | zero => exact within_throw _
  | succ room ih =>
    rw [makeDirectoriesWithin]
    split
    · exact within_pure ()
    refine (within_makeMissingDirectory h p).catch fun e => ?_
    split
    · split
      · exact (ih _).bind fun _ => within_makeMissingDirectory h p
      · exact within_throw _
    · exact within_throw _

/-- What making one directory does, making all that are missing does. -/
theorem within_makeDirectories (h : ∀ p, Within R (makeDirectory p)) (p : Path) :
    Within R (makeDirectories p) :=
  within_makeDirectoriesWithin h _ p

end Within

/-! ## Operations that only modify -/

section Ticks

variable (place : Location)

theorem ticks_create (p : Path) : Within (Passes place) (create p) := by
  refine (within_query _).bind fun target => ?_
  rcases target with ⟨parent, name, _ | _⟩ | at'
  · refine (within_query _).bind fun node? => ?_
    rcases node? with _ | ⟨_ | _, time⟩
    · exact fun fs => (passes_place fs _ _ _).trans (passes_stamp _ _ _)
    · exact fun fs => passes_place fs _ _ _
    · exact within_throw _
  · exact within_throw _
  · exact within_throw _

theorem ticks_append (at' : Location) (bytes : List UInt8) :
    Within (Passes place) (append at' bytes) := by
  intro fs
  unfold append
  rw [bind_ok _ (show (get : Disk FileSystem) fs = (.ok fs, fs) from rfl)]
  rcases fs.nodes.get? at' with _ | ⟨_ | _, time⟩
  · exact .refl _ _
  · exact passes_place fs at' place _
  · exact .refl _ _

theorem ticks_makeDirectory (p : Path) : Within (Passes place) (makeDirectory p) := by
  refine (within_query _).bind fun target => ?_
  rcases target with ⟨parent, name, slash⟩ | at'
  · refine (within_query _).bind fun node? => ?_
    rcases node? with _ | node
    · exact fun fs => (passes_place fs _ _ _).trans (passes_stamp _ _ _)
    · exact within_throw _
  · exact within_throw _

theorem ticks_makeDirectories (p : Path) : Within (Passes place) (makeDirectories p) :=
  within_makeDirectories (ticks_makeDirectory place) p

end Ticks

/-! ## Operations that modify their directory -/

section Times

variable {fs fs' : FileSystem} {directory : Path} {parent place : Location}
  {name name' : List UInt8}

/-- A file that is made is modified, and if it is new its directory is too. -/
theorem create_eq (hl : fs.Leads directory parent) (hn : PlainName name)
    (h : create (directory.join ⟨name⟩) fs = (.ok place, fs')) :
    fs' = fs.place (parent ++ [name]) (.file []) ∨
      fs' = (fs.place (parent ++ [name]) (.file [])).stamp parent := by
  obtain ⟨target, fs₁, htarget, h⟩ := of_bind_ok h
  obtain ⟨htarget, rfl⟩ := of_query_ok htarget
  obtain ⟨parent', hl', -, rfl⟩ := leads_of_target_join hn htarget
  obtain rfl := hl'.unique hl
  obtain ⟨node?, fs₁, hchild, h⟩ := of_bind_ok h
  obtain ⟨-, rfl⟩ := of_query_ok hchild
  rcases node? with _ | ⟨_ | _, time⟩
  · cases h
    exact .inr rfl
  · cases h
    exact .inl rfl
  · cases h

/-- Times change nowhere but at the file and in its directory. -/
theorem create_still (hl : fs.Leads directory parent) (hn : PlainName name)
    (hparent : place ≠ parent) (hfile : place ≠ parent ++ [name]) {at' : Location}
    (h : create (directory.join ⟨name⟩) fs = (.ok at', fs')) :
    fs'.modified? place = fs.modified? place := by
  rcases create_eq hl hn h with rfl | rfl
  · exact modified?_place_of_ne hfile fs _
  · rw [modified?_stamp_of_ne hparent, modified?_place_of_ne hfile]

theorem append_still {at' : Location} {bytes : List UInt8} (hfile : place ≠ at')
    (h : append at' bytes fs = (.ok (), fs')) : fs'.modified? place = fs.modified? place := by
  obtain ⟨fs₁, fs₂, hget, h⟩ := of_bind_ok h
  cases hget
  rcases hnode : fs.nodes.get? at' with _ | ⟨_ | _, time⟩ <;> rw [hnode] at h <;> cases h
  exact modified?_place_of_ne hfile fs _

/-- A file that is removed was there, it is gone, and its directory is modified. -/
theorem removeFile_eq (hl : fs.Leads directory parent) (hn : PlainName name)
    (h : removeFile (directory.join ⟨name⟩) fs = (.ok (), fs')) :
    fs.content? (parent ++ [name]) ≠ some .directory ∧
      fs' = (fs.remove (parent ++ [name])).stamp parent := by
  obtain ⟨target, fs₁, htarget, h⟩ := of_bind_ok h
  obtain ⟨htarget, rfl⟩ := of_query_ok htarget
  obtain ⟨parent', hl', -, rfl⟩ := leads_of_target_join hn htarget
  obtain rfl := hl'.unique hl
  obtain ⟨node?, fs₁, hchild, h⟩ := of_bind_ok h
  obtain ⟨hchild, rfl⟩ := of_query_ok hchild
  rcases node? with _ | ⟨_ | _, time⟩
  · cases h
  · cases h
    refine ⟨?_, rfl⟩
    rw [content?_of_child hchild]
    simp
  · cases h

theorem removeFile_modifies (hl : fs.Leads directory parent) (hn : PlainName name)
    (h : removeFile (directory.join ⟨name⟩) fs = (.ok (), fs')) :
    ModifiedSince parent fs fs' := by
  obtain ⟨-, rfl⟩ := removeFile_eq hl hn h
  refine .after (passes_remove (ne_child parent name)) (modifiedSince_stamp ?_)
  rw [isSome_remove_of_ne (ne_child parent name)]
  exact isSome_of_isDirectory hl.isDirectory

/-- No other directory is. -/
theorem removeFile_still (hl : fs.Leads directory parent) (hn : PlainName name)
    (hparent : place ≠ parent) (hd : fs.isDirectory place = true)
    (h : removeFile (directory.join ⟨name⟩) fs = (.ok (), fs')) :
    fs'.modified? place = fs.modified? place := by
  obtain ⟨hfile, rfl⟩ := removeFile_eq hl hn h
  rw [modified?_stamp_of_ne hparent, modified?_remove_of_ne]
  rintro rfl
  exact hfile ((isDirectory_iff _ _).1 hd)

/-- What is moved was there, no file is moved onto a directory, and the directory is modified. -/
theorem rename_eq (hl : fs.Leads directory parent) (hn : PlainName name) (hn' : PlainName name')
    (h : rename (directory.join ⟨name⟩) (directory.join ⟨name'⟩) fs = (.ok (), fs')) :
    ∃ node, fs.content? (parent ++ [name]) = some node.content ∧
      (node.content ≠ .directory → fs.content? (parent ++ [name']) ≠ some .directory) ∧
      fs' = (({ fs with
        nodes := (fs.nodes.erase (parent ++ [name])).insert (parent ++ [name']) node } :
          FileSystem).stamp parent).stamp parent := by
  obtain ⟨fs₁, fs₂, hget, h⟩ := of_bind_ok h
  cases hget
  obtain ⟨target, fs₂, htarget, h⟩ := of_bind_ok h
  obtain ⟨htarget, rfl⟩ := of_query_ok htarget
  obtain ⟨target', fs₂, htarget', h⟩ := of_bind_ok h
  obtain ⟨htarget', rfl⟩ := of_query_ok htarget'
  obtain ⟨parent₁, hl₁, -, rfl⟩ := leads_of_target_join hn htarget
  obtain ⟨parent₂, hl₂, -, rfl⟩ := leads_of_target_join hn' htarget'
  obtain rfl := hl₁.unique hl
  obtain rfl := hl₂.unique hl
  obtain ⟨node?, fs₂, hchild, h⟩ := of_bind_ok h
  obtain ⟨hchild, rfl⟩ := of_query_ok hchild
  obtain ⟨node'?, fs₂, hchild', h⟩ := of_bind_ok h
  obtain ⟨hchild', rfl⟩ := of_query_ok hchild'
  have hcontent := content?_of_child hchild
  have hcontent' := content?_of_child hchild'
  rcases node? with _ | ⟨_ | _, time⟩
  · cases h
  · rcases node'? with _ | ⟨_ | _, time'⟩
    · cases h
      exact ⟨_, hcontent, fun _ => by rw [hcontent']; simp, rfl⟩
    · cases h
      exact ⟨_, hcontent, fun _ => by rw [hcontent']; simp, rfl⟩
    · cases h
  · cases h
    exact ⟨_, hcontent, fun hfile => absurd rfl hfile, rfl⟩

/-- Moving a file that is there modifies its directory. -/
theorem rename_modifies (hl : fs.Leads directory parent) (hn : PlainName name)
    (hn' : PlainName name')
    (h : rename (directory.join ⟨name⟩) (directory.join ⟨name'⟩) fs = (.ok (), fs')) :
    (fs.content? (parent ++ [name])).isSome = true ∧ ModifiedSince parent fs fs' := by
  obtain ⟨node, hcontent, -, rfl⟩ := rename_eq hl hn hn' h
  refine ⟨by rw [hcontent]; rfl, ?_⟩
  refine .before (.after (passes_moved (ne_child parent name) (ne_child parent name') node)
    (modifiedSince_stamp ?_)) (passes_stamp _ _ _)
  rw [Table.get?_insert, if_neg (ne_child _ _), Table.get?_erase, if_neg (ne_child _ _)]
  exact isSome_of_isDirectory hl.isDirectory

/-- If it is no directory itself, no other directory is. -/
theorem rename_still (hl : fs.Leads directory parent) (hn : PlainName name)
    (hn' : PlainName name') (hfile : fs.content? (parent ++ [name]) ≠ some .directory)
    (hparent : place ≠ parent) (hd : fs.isDirectory place = true)
    (h : rename (directory.join ⟨name⟩) (directory.join ⟨name'⟩) fs = (.ok (), fs')) :
    fs'.modified? place = fs.modified? place := by
  obtain ⟨node, hcontent, hfile', rfl⟩ := rename_eq hl hn hn' h
  rw [isDirectory_iff] at hd
  have hsource : place ≠ parent ++ [name] := by
    rintro rfl
    exact hfile hd
  have hdestination : place ≠ parent ++ [name'] := by
    rintro rfl
    refine hfile' (fun hnode => hfile ?_) hd
    rw [hcontent, hnode]
  rw [modified?_stamp_of_ne hparent, modified?_stamp_of_ne hparent,
    modified?_moved fs hsource hdestination]

end Times

end Disk

end LeaseCache
