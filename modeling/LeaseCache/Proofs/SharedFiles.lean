import LeaseCache.Proofs.DirectoryMarker
import LeaseCache.Proofs.HookSpec
import LeaseCache.Proofs.Transparency

/-!
# Files that processes share

What processes do to the files of one another's stores: they open stores, which makes directories,
and they write entries. Either way no directory goes, times go forward, and the entries of a
directory are the same unless it was modified (`FileSystem.Proceeds`). A request to a memory in
front of a folder changes that one memory, and files of its own directory alone
(`Request.changed_and_tells`).
-/

namespace LeaseCache

open FileSystem (Leads Passes ModifiedSince Elapsed SameEntries Tells)

namespace FileSystem

variable {fs fs' fs'' : FileSystem} {parent place : Location} {p : Path}

/-! ## What happens to directories -/

/-- Between two states of the files no directory went, and what happened in each was noticed. -/
structure Proceeds (fs fs' : FileSystem) : Prop where
  home : fs'.home = fs.home
  directories : ∀ place, fs.isDirectory place = true → fs'.isDirectory place = true
  noticed : ∀ place, fs.isDirectory place = true → Noticed place fs fs'

instance : IsPreorder FileSystem Proceeds where
  refl _ := ⟨rfl, fun _ => id, fun _ _ => .refl _ _⟩
  trans _ _ _ h h' := {
    home := h'.home.trans h.home
    directories := fun place hd => h'.directories place (h.directories place hd)
    noticed := fun place hd =>
      (h.noticed place hd).trans (h'.noticed place (h.directories place hd)) }

theorem Proceeds.refl (fs : FileSystem) : Proceeds fs fs := refl_of Proceeds fs

theorem Proceeds.trans (h : Proceeds fs fs') (h' : Proceeds fs' fs'') : Proceeds fs fs'' :=
  trans_of Proceeds h h'

theorem Proceeds.leads (h : Proceeds fs fs') (hl : fs.Leads p place) : fs'.Leads p place :=
  hl.mono h.home h.directories

/-- A change in one directory that it tells of is one that is noticed anywhere. -/
theorem Tells.proceeds (h : Tells parent fs fs') : Proceeds fs fs' where
  home := h.home
  directories place hd := (h.directories place).trans hd
  noticed place hd := by
    by_cases hplace : place = parent
    · rw [hplace]
      exact h.toNoticed
    · exact ⟨⟨h.passes.clock, .inl (h.still place hplace hd)⟩,
        .inr fun _ name _ => h.elsewhere place hplace name⟩

/-- A directory that is made modifies the one it is made in. -/
theorem proceeds_makeDirectory (p : Path) : Disk.Within Proceeds (Disk.makeDirectory p) := by
  refine (Disk.within_query _).bind fun target => ?_
  rcases target with ⟨parent, name, slash⟩ | at'
  · refine (Disk.within_query _).bind fun node? => ?_
    rcases node? with _ | node
    · intro fs
      have hcontent : ∀ q, ((fs.place (parent ++ [name]) .directory).stamp parent).content? q =
          if q = parent ++ [name] then some .directory else fs.content? q := by
        intro q
        rw [content?_stamp, content?_place]
      have hpasses := passes_place fs (parent ++ [name]) parent .directory
      refine ⟨home_stamp _ _, fun q hq => ?_, fun q hq => ?_⟩
      · rw [isDirectory_iff] at hq ⊢
        show ((fs.place (parent ++ [name]) .directory).stamp parent).content? q = _
        rw [hcontent, hq, ite_self]
      refine ⟨(passes_place fs _ _ _).trans (passes_stamp _ _ _), ?_⟩
      by_cases hparent : q = parent
      · subst hparent
        refine .inl (.after hpasses (modifiedSince_stamp ?_))
        rw [FileSystem.place, Table.get?_insert, if_neg (ne_child q name)]
        exact isSome_of_isDirectory hq
      · refine .inr fun _ name' _ => ?_
        refine (hcontent _).trans (if_neg fun heq => hparent ?_)
        exact List.append_inj_left' heq rfl
    · exact Disk.within_throw _
  · exact Disk.within_throw _

theorem proceeds_makeDirectories (p : Path) : Disk.Within Proceeds (Disk.makeDirectories p) :=
  Disk.within_makeDirectories proceeds_makeDirectory p

end FileSystem

open FileSystem (Proceeds)

/-! ## What happens to folders -/

namespace EntryFolder

variable {σ : Type} {folder : EntryFolder} {w : World σ} {parent : Location}

theorem act_files {α : Type} (operation : FileCall α) (w : World σ) :
    (act operation w).2.files = (operation w.files).2 := by
  unfold act
  split <;> next h => rw [h]

theorem put_tells {fs : FileSystem} (hl : fs.Leads folder.directory parent) (k : Key) (v : Value) :
    Tells parent fs (folder.put k v fs).2 := by
  obtain ⟨p, hrun⟩ := Moment.run_of_put hl k v []
  exact (hrun.tells (Moment.onTrack_of_noPuts parent fs)).1

/-- The directory tells of a write. -/
theorem write_tells (hl : w.files.Leads folder.directory parent) (wr : Write Value) :
    Tells parent w.files (wr.on folder.store w).2.files := by
  obtain ⟨k, _ | v⟩ := wr
  · exact act_files (folder.remove k) w ▸ remove_tells hl k
  · exact act_files (folder.put k v) w ▸ put_tells hl k v

/-- A folder answers for a key as before while the entries of its directory are the same. -/
theorem get_of_sameEntries {fs fs' : FileSystem} {k : Key} {r : Except StoreError (Option Value)}
    (hl : fs.Leads folder.directory parent) (hl' : fs'.Leads folder.directory parent)
    (hsame : SameEntries parent fs fs') (h : folder.get k fs = (r, fs)) :
    folder.get k fs' = (r, fs') :=
  get_congr hl hl' (hsame k) h

end EntryFolder

/-! ## What a request changes -/

namespace World

variable {σ : Type} {w w' w'' : World σ} {c : Nat} {f g : Cache Value → Cache Value}

theorem changed_setCache (w : World σ) (c : Nat) (f : Cache Value → Cache Value) :
    w.Changed c f (w.setCache c f) :=
  (Alike.refl w).setCache c f

theorem Changed.trans (h : w.Changed c f w') (h' : w'.Changed c g w'') :
    w.Changed c (g ∘ f) w'' where
  cells d := by
    rw [h'.cells, h.cells, h.cells, if_pos rfl]
    split <;> rfl
  kinds n := (h'.kinds n).trans (h.kinds n)
  tables := h'.tables.trans h.tables
  leases := h'.leases.trans h.leases
  registries := h'.registries.trans h.registries

theorem Changed.report (h : w.Changed c f w') (e : Event) : w.Changed c f (w'.report e) :=
  ⟨h.cells, h.kinds, h.tables, h.leases, h.registries⟩

end World

namespace Request

variable {σ : Type} {folder : EntryFolder} {i : Nat} {w : World σ} {parent : Location}

/-- A request to a memory in front of a folder changes this memory, and of the files only what the
directory of the folder tells of. -/
theorem changed_and_tells (hidle : (w.cells.get i).writing = false)
    (hl : w.files.Leads folder.directory parent) (request : Request) :
    (∃ f, w.Changed i f (request.act folder.store i w).2) ∧
      (request.act folder.store i w).2.cells.next = w.cells.next ∧
      Tells parent w.files (request.act folder.store i w).2.files := by
  cases request with
  | clear => exact ⟨⟨_, World.changed_setCache w i _⟩, rfl, .refl _ _⟩
  | get k =>
    obtain ⟨r, hread⟩ := EntryFolder.get_keeps_files hl k
    rw [act_get]
    cases hprobe : (w.cells.get i).cache.probe k with
    | cached e =>
      rw [Facade.get_of_lookup (Facade.lookup_of_cached hprobe)]
      exact ⟨⟨_, (World.changed_setCache w i _).report _⟩, rfl, .refl _ _⟩
    | vacant n =>
      have hcounted := World.changed_setCache w i Cache.countMiss
      have hasked := EntryFolder.store_get (w := w.setCache i Cache.countMiss) hread
      rcases ha : EntryFolder.outcome r with p | (e | x)
      · rw [ha] at hasked
        rw [Facade.get_of_interrupted (Facade.lookup_of_interrupted hprobe hasked)]
        exact ⟨⟨_, hcounted⟩, rfl, .refl _ _⟩
      · rw [ha] at hasked
        rw [Facade.get_of_lookup (Facade.lookup_of_error hprobe hasked)]
        exact ⟨⟨_, hcounted⟩, rfl, .refl _ _⟩
      · rw [ha] at hasked
        rw [Facade.get_of_lookup (Facade.lookup_of_ok hprobe hasked)]
        exact ⟨⟨_, (hcounted.trans (World.changed_setCache _ i _)).report _⟩, rfl, .refl _ _⟩
  | write wr =>
    have hleads : (w.setWriting i true).files.Leads folder.directory parent := hl
    have htells := EntryFolder.write_tells hleads wr
    obtain ⟨r, fs, hstore, -, -⟩ := EntryFolder.write_spec hleads wr
    rw [hstore] at htells
    rw [Request.act, Act.bind_ok _ (Facade.write_of_ok hidle hstore)]
    refine ⟨⟨(·.settle wr r.isOk), ⟨fun d => ?_, fun _ => rfl, rfl, rfl, rfl⟩⟩, rfl, htells⟩
    -- the lock is free again, as it was
    show ((_ : World σ).setWriting i false).cells.get d = _
    rw [World.get_setWriting, World.get_setCache_self]
    by_cases hd : d = i
    · rw [if_pos hd, if_pos hd]
      show ({ (w.setWriting i true).cells.get i with
        cache := ((w.setWriting i true).cells.get i).cache.settle wr r.isOk
        writing := false } : Cell) = _
      rw [World.get_setWriting_self, ← hidle]
    · rw [if_neg hd, if_neg hd, World.get_setCache, if_neg hd]
      exact (World.get_setWriting w i d true).trans (if_neg hd)

end Request

end LeaseCache
