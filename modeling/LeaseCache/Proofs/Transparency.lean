import LeaseCache.Proofs.FacadeSpec
import LeaseCache.Proofs.FolderSpec

/-!
# A memory in front of an entry folder

Keys that share a file are one key, but keys that share an entry of the memory need not share a
file: two spellings of one path are one place in memory and two files on disk. So a memory in front
of a folder is invisible as long as no place is spelled in two ways, and after a put under one
spelling it answers a lookup under the other with a value that the folder does not hold there.

The invariant is `Remembers`: what the memory holds is what the folder would answer, for every
spelling in use.
-/

namespace LeaseCache

open FileSystem (Leads)

variable {σ : Type}

/-- What is asked of a memory in front of a store. -/
inductive Request where
  | get (key : Key)
  /-- A put or a removal. -/
  | write (w : Write Value)
  /-- The memory loses its entries. -/
  | clear

namespace Request

/-- Does what is asked, whatever comes of it. -/
def act (store : Store σ) (i : Nat) : Request → Act σ Unit
  | .get k => do
    let _ ← Facade.get store i k
  | .write w => do
    let _ ← w.on (Facade.toStore store i)
  | .clear => Act.changeCache i Cache.clear

theorem act_get (store : Store σ) (i : Nat) (k : Key) (w : World σ) :
    ((Request.get k).act store i w).2 = (Facade.get store i k w).2 := by
  obtain ⟨r, w', hget⟩ : ∃ r w', Facade.get store i k w = (r, w') := ⟨_, _, rfl⟩
  rw [hget]
  cases r with
  | ok a => exact congrArg Prod.snd (Act.bind_ok _ hget)
  | error p => exact congrArg Prod.snd (Act.bind_error _ hget)

/-- Every get among requests answers as the store itself would at that moment. -/
def Transparent (store : Store σ) (i : Nat) : List Request → World σ → Prop
  | [], _ => True
  | request :: more, w =>
    (∀ k, request = .get k → (Facade.get store i k w).1 = (store.get k w).1) ∧
      Transparent store i more (request.act store i w).2

/-- A request uses one of certain keys, and puts only values that are read back as they were. -/
def Uses (folder : EntryFolder) (keys : Key → Prop) : Request → Prop
  | .get k => keys k
  | .write w => keys w.key ∧
    ∀ v, w.value? = some v → folder.format.decode folder.type (folder.format.encode v) = .ok v
  | .clear => True

end Request

namespace EntryFolder

variable {folder : EntryFolder} {keys : Key → Prop} {i : Nat} {w : World σ} {parent : Location}
  {k l : Key}

/-- Of the keys in use that the folder can store, none names the place of another one. -/
def OneSpelling (folder : EntryFolder) (keys : Key → Prop) : Prop :=
  ∀ {k l name}, keys k → keys l → folder.Stores k name → l.Same k → l = k

/-- Every entry of the memory is what the folder would answer for a key in use. -/
structure Remembers (folder : EntryFolder) (keys : Key → Prop) (i : Nat) (parent : Location)
    (w : World σ) : Prop where
  idle : (w.cells.get i).writing = false
  leads : w.files.Leads folder.directory parent
  entry : ∀ {k e}, keys k → (w.cells.get i).cache.get? k = some e →
    folder.get k w.files = (.ok e.value?, w.files)

/-! ## The folder as a store -/

/-- What a call on the files comes to in a world: a length beyond all memory ends in a panic. -/
def outcome {α : Type} : Except StoreError α → Except Interruption (Except StoreError α)
  | .error (.binary .tooLong) => .error (.panic Binary.Fault.tooLong.message)
  | r => .ok r

theorem act_apply {α : Type} {operation : FileCall α} {r : Except StoreError α} {fs : FileSystem}
    (h : operation w.files = (r, fs)) :
    act operation w = (outcome r, { w with files := fs }) := by
  unfold act outcome
  rw [h]
  split
  · next hlong =>
    cases hlong
    rfl
  · next hshort hr =>
    cases hr
    split
    · exact absurd rfl hshort
    · rfl

theorem outcome_of_short {α : Type} {r : Except StoreError α}
    (h : ∀ e, r = .error e → e ≠ .binary .tooLong) : outcome r = .ok r := by
  unfold outcome
  split
  · exact absurd rfl (h _ rfl)
  · rfl

theorem outcome_eq_ok_iff {α : Type} {r : Except StoreError α} {a : α} :
    outcome r = .ok (.ok a) ↔ r = .ok a := by
  unfold outcome
  split
  · exact ⟨nofun, nofun⟩
  · rw [Except.ok.injEq]

theorem write_spec (hl : w.files.Leads folder.directory parent) (wr : Write Value) :
    ∃ r fs, wr.on folder.store w = (.ok r, { w with files := fs }) ∧
      Kept wr.key parent w.files fs ∧
      (r = .ok () → ∀ v, wr.value? = some v → ∃ name, folder.Stores wr.key name ∧
        fs.content? (parent ++ [name]) = some (.file (folder.format.encode v))) := by
  obtain ⟨k, _ | v⟩ := wr
  · obtain ⟨r, fs, hremove, hkept, hshort⟩ := remove_spec hl k
    refine ⟨r, fs, ?_, hkept, fun _ => nofun⟩
    rw [← outcome_of_short hshort]
    exact act_apply hremove
  · obtain ⟨r, fs, hput, hkept, hshort, hstored⟩ := put_spec hl k v
    refine ⟨r, fs, ?_, hkept, ?_⟩
    · rw [← outcome_of_short hshort]
      exact act_apply hput
    rintro hr v' ⟨⟩
    exact hstored hr

/-- Asking the folder changes nothing. -/
theorem store_get {r : Except StoreError (Option Value)} (h : folder.get k w.files = (r, w.files)) :
    folder.store.get k w = (outcome r, w) :=
  act_apply h

/-! ## The invariant -/

theorem Remembers.setCache {f : Cache Value → Cache Value} (hr : Remembers folder keys i parent w)
    (hf : ∀ {k e}, keys k → (f (w.cells.get i).cache).get? k = some e →
      folder.get k w.files = (.ok e.value?, w.files)) :
    Remembers folder keys i parent (w.setCache i f) where
  idle := by rw [World.get_setCache_self]; exact hr.idle
  leads := hr.leads
  entry hk he := by
    rw [World.get_setCache_self] at he
    exact hf hk he

theorem Remembers.report (hr : Remembers folder keys i parent w) (e : Event) :
    Remembers folder keys i parent (w.report e) :=
  ⟨hr.idle, hr.leads, hr.entry⟩

/-- A get answers as the folder would. Its answer is kept under one spelling only. -/
theorem Remembers.get (hone : folder.OneSpelling keys) (hr : Remembers folder keys i parent w)
    (hk : keys k) :
    ∃ w', Facade.get folder.store i k w = ((folder.store.get k w).1, w') ∧
      Remembers folder keys i parent w' := by
  obtain ⟨r, hread⟩ := get_keeps_files hr.leads k
  rw [store_get hread]
  cases hprobe : (w.cells.get i).cache.probe k with
  | cached e =>
    have he := hr.entry hk (Cache.get?_of_probe hprobe)
    rw [hread] at he
    rw [outcome_eq_ok_iff.2 (Prod.mk.inj he).1]
    exact ⟨_, Facade.get_of_lookup (Facade.lookup_of_cached hprobe),
      (hr.setCache hr.entry).report _⟩
  | vacant n =>
    have hasked := store_get (w := w.setCache i Cache.countMiss) hread
    have hcounted : Remembers folder keys i parent (w.setCache i Cache.countMiss) :=
      hr.setCache hr.entry
    cases ha : outcome r with
    | error p =>
      rw [ha] at hasked
      exact ⟨_, Facade.get_of_interrupted (Facade.lookup_of_interrupted hprobe hasked), hcounted⟩
    | ok a =>
      rw [ha] at hasked
      cases a with
      | error e =>
        exact ⟨_, Facade.get_of_lookup (Facade.lookup_of_error hprobe hasked), hcounted⟩
      | ok x =>
        -- the answer becomes the entry of every spelling of the key, and one of them is in use
        refine ⟨_, Facade.get_of_lookup (Facade.lookup_of_ok hprobe hasked),
          (hcounted.setCache ?_).report _⟩
        rw [outcome_eq_ok_iff.1 ha] at hread
        intro l e hl he
        rcases Cache.get?_fill_cases he with hold | ⟨-, hsame, rfl⟩
        · exact hcounted.entry hl hold
        · obtain ⟨name, hstores⟩ := stores_of_get_ok hr.leads hread
          rw [hone hk hl hstores hsame, Entry.value?_ofOption]
          exact hread

/-- A write changes the file of its key, and in memory the entry of its key. -/
theorem Remembers.write (hone : folder.OneSpelling keys) (hr : Remembers folder keys i parent w)
    {wr : Write Value} (hk : keys wr.key)
    (hv : ∀ v, wr.value? = some v →
      folder.format.decode folder.type (folder.format.encode v) = .ok v) :
    ∃ r w', wr.on (Facade.toStore folder.store i) w = (.ok r, w') ∧
      Remembers folder keys i parent w' := by
  have hleads : (w.setWriting i true).files.Leads folder.directory parent := hr.leads
  obtain ⟨r, fs, hstore, hkept, hstored⟩ := write_spec hleads wr
  refine ⟨r, _, Facade.write_of_ok hr.idle hstore, ?_, hkept.leads hr.leads, ?_⟩
  · simp
  intro l e hl he
  have hentry : ((w.cells.get i).cache.settle wr r.isOk).get? l = some e := by
    simpa using he
  show folder.get l fs = (.ok e.value?, fs)
  by_cases hsame : l.Same wr.key
  · -- the entry is a value that was put, and the file of the key holds it now
    obtain ⟨hok, v, hvalue, rfl⟩ := Cache.put_of_get?_settle hsame hentry
    have hdone : r = .ok () := by
      cases r with
      | ok => rfl
      | error e => cases hok
    obtain ⟨name, hstores, hcontent⟩ := hstored hdone v hvalue
    rw [hone hk hl hstores hsame, get_of_stores (hkept.leads hr.leads) hstores, hcontent, read,
      hv v hvalue]
    rfl
  · rw [Cache.get?_settle_of_not_same hsame] at hentry
    have hne : l ≠ wr.key := by
      rintro rfl
      exact hsame rfl
    exact hkept.get hr.leads hne (hr.entry hl hentry)

theorem Remembers.clear (hr : Remembers folder keys i parent w) :
    Remembers folder keys i parent (w.setCache i Cache.clear) :=
  hr.setCache fun _ he => by cases he

theorem Remembers.request (hone : folder.OneSpelling keys)
    (hr : Remembers folder keys i parent w) {request : Request}
    (huses : request.Uses folder keys) :
    Remembers folder keys i parent (request.act folder.store i w).2 := by
  cases request with
  | get k =>
    obtain ⟨w', hget, hr'⟩ := hr.get hone huses
    rw [Request.act_get, hget]
    exact hr'
  | write wr =>
    obtain ⟨r, w', hwrite, hr'⟩ := hr.write hone huses.1 huses.2
    rw [Request.act, Act.bind_ok _ hwrite]
    exact hr'
  | clear => exact hr.clear

theorem Remembers.transparent (hone : folder.OneSpelling keys)
    (hr : Remembers folder keys i parent w) {requests : List Request}
    (huses : ∀ request ∈ requests, request.Uses folder keys) :
    Request.Transparent folder.store i requests w := by
  induction requests generalizing w with
  | nil => trivial
  | cons request more ih =>
    have hfirst := huses request List.mem_cons_self
    refine ⟨?_, ih (hr.request hone hfirst) fun r hmem => huses r (List.mem_cons_of_mem _ hmem)⟩
    rintro k rfl
    obtain ⟨w', hget, -⟩ := hr.get hone hfirst
    rw [hget]

/-! ## What one spelling is for -/

/-- After a put under one spelling, the facade answers for another one with the value put, and the
folder as it did before. -/
theorem get_of_put_same (hidle : (w.cells.get i).writing = false)
    (hl : w.files.Leads folder.directory parent) {v : Value} {w' : World σ}
    (hput : Facade.put folder.store i k v w = (.ok (.ok ()), w')) (hsame : l.Same k)
    (hne : l ≠ k) :
    (Facade.get folder.store i l w').1 = .ok (.ok (some v)) ∧
      (folder.store.get l w').1 = (folder.store.get l w).1 := by
  have hleads : (w.setWriting i true).files.Leads folder.directory parent := hl
  obtain ⟨r, fs, hstore, hkept, -⟩ := write_spec hleads ⟨k, some v⟩
  have hwritten := Facade.write_of_ok hidle hstore
  rw [show (⟨k, some v⟩ : Write Value).on (Facade.toStore folder.store i) w = _ from hput]
    at hwritten
  obtain ⟨hr, hw'⟩ := Prod.mk.inj hwritten
  cases hr
  have hfiles : w'.files = fs := by
    rw [hw']
    rfl
  obtain ⟨a, hread⟩ := get_keeps_files hl l
  constructor
  · have hentry : ((w.cells.get i).cache.settle ⟨k, some v⟩ true).get? l = some (.present v) :=
      (Cache.get?_put _ _ _ _).trans (if_pos hsame)
    have hprobe : (w'.cells.get i).cache.probe l = .cached (.present v) := by
      rw [hw']
      simp [Cache.probe, hentry, Except.isOk, Except.toBool]
    rw [Facade.get_of_lookup (Facade.lookup_of_cached hprobe)]
    rfl
  · have hread' : folder.get l w'.files = (a, w'.files) := by
      rw [hfiles]
      exact hkept.get hl hne hread
    rw [store_get hread, store_get hread']

/-- A memory in front of a folder is invisible if no place is spelled in two ways; keys that share a
file are one key; and where a put ends well, a lookup of another spelling of its key is answered
with the value put, while the folder answers for it as before. -/
theorem transparent_of_one_spelling_and_visible_otherwise
    (hidle : (w.cells.get i).writing = false)
    (hempty : ∀ k, (w.cells.get i).cache.get? k = none)
    (hl : w.files.Leads folder.directory parent) :
    (∀ keys : Key → Prop, folder.OneSpelling keys → ∀ requests : List Request,
      (∀ request ∈ requests, request.Uses folder keys) →
      Request.Transparent folder.store i requests w) ∧
    (∀ (k l : Key) name, k.fileName = .ok name → l.fileName = .ok name → k.Same l) ∧
    ∀ (k l : Key) v w', l.Same k → l ≠ k → Facade.put folder.store i k v w = (.ok (.ok ()), w') →
      (Facade.get folder.store i l w').1 = .ok (.ok (some v)) ∧
        (folder.store.get l w').1 = (folder.store.get l w).1 := by
  refine ⟨?_, ?_, ?_⟩
  · intro keys hone requests huses
    have hr : Remembers folder keys i parent w := by
      refine ⟨hidle, hl, fun {k e} _ he => ?_⟩
      rw [hempty] at he
      cases he
    exact hr.transparent hone huses
  · intro k l name hk hl
    rw [Key.eq_of_fileName hk hl]
    rfl
  · intro k l v w' hsame hne hput
    exact get_of_put_same hidle hl hput hsame hne

/-! ## A folder with one memory -/

/-- A folder of bytes in the directory `d`. -/
def single : EntryFolder := ⟨Path.ofString "d", .binary, .u8⟩

/-- A world with the directory `d`, nothing in it, and a memory. -/
def singleWorld : World Unit :=
  { World.initial () with
    files := (Disk.makeDirectory (Path.ofString "d") FileSystem.initial).2
    cells := Pool.empty.add ⟨Path.ofString "d", 0, .u8, false, .fresh none⟩ }

theorem leads_single : singleWorld.files.Leads single.directory [[0x77], [0x64]] := ⟨rfl, rfl⟩

/-- With one spelling the memory is invisible, and with two a put shows. -/
theorem one_spelling_hides_and_two_show :
    Request.Transparent single.store 0
      [.write ⟨.path (Path.ofString "a/b"), some (.u8 1)⟩, .get (.path (Path.ofString "a/b")),
        .clear, .get (.path (Path.ofString "a/b"))] singleWorld ∧
    ∃ w', Facade.put single.store 0 (.path (Path.ofString "a//b")) (.u8 1) singleWorld =
        (.ok (.ok ()), w') ∧
      (Facade.get single.store 0 (.path (Path.ofString "a/b")) w').1 = .ok (.ok (some (.u8 1))) ∧
      (single.store.get (.path (Path.ofString "a/b")) w').1 =
        (single.store.get (.path (Path.ofString "a/b")) singleWorld).1 := by
  have hidle : (singleWorld.cells.get 0).writing = false := rfl
  obtain ⟨hone, -, htwo⟩ :=
    transparent_of_one_spelling_and_visible_otherwise hidle (fun _ => rfl) leads_single
  constructor
  · refine hone (· = .path (Path.ofString "a/b")) ?_ _ ?_
    · rintro k l name rfl rfl - -
      rfl
    · intro request hmem
      simp only [List.mem_cons, List.not_mem_nil, or_false] at hmem
      rcases hmem with rfl | rfl | rfl | rfl
      · refine ⟨rfl, ?_⟩
        rintro v ⟨⟩
        rfl
      · rfl
      · trivial
      · rfl
  · exact ⟨_, rfl, htwo (.path (Path.ofString "a//b")) _ (.u8 1) _ (by decide) (by decide) rfl⟩

/-- Two spellings of one path share an entry of the memory and no file. After a put under one of
them the facade answers for the other with a value, and the folder with none. -/
theorem two_spellings_are_told_apart :
    (Key.path (Path.ofString "a//b")).Same (.path (Path.ofString "a/b")) ∧
    (Key.path (Path.ofString "a//b")).fileName ≠ (Key.path (Path.ofString "a/b")).fileName ∧
    ¬ Request.Transparent single.store 0
      [.write ⟨.path (Path.ofString "a//b"), some (.u8 1)⟩, .get (.path (Path.ofString "a/b"))]
      singleWorld := by
  refine ⟨by decide, ?_, ?_⟩
  · intro hsame
    have hne : Path.ofString "a//b" ≠ Path.ofString "a/b" := by decide
    exact hne (Key.path.inj (Key.eq_of_fileName hsame rfl))
  · rintro ⟨-, hget, -⟩
    have hanswers := hget (.path (Path.ofString "a/b")) rfl
    rw [show (Facade.get single.store 0 (.path (Path.ofString "a/b")) _).1 =
      .ok (.ok (some (.u8 1))) from rfl, show (single.store.get (.path (Path.ofString "a/b")) _).1 =
      .ok (.ok none) from rfl] at hanswers
    cases hanswers

end EntryFolder

end LeaseCache
