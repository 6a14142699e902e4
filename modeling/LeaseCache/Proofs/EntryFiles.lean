import LeaseCache.Proofs.FolderSpec
import LeaseCache.Proofs.JsonFaults
import LeaseCache.Proofs.JsonShapes

/-!
# The files of keys

The name of an entry file encodes its key: the hexadecimal digits in it are the text of the key, and
that text is read back as the very key, of its kind and in its spelling (`Key.ofJson_of_toJson`).
The file is a child of the folder's directory, whatever the key holds, and its name is none that a
temporary file can have.

Only a path can have no text. A folder refuses such a key by each of its three calls before it looks
at a file, and says so of no other key, whatever its files hold. Main statement:
`EntryFolder.names_encode_keys`.
-/

namespace LeaseCache

open FileSystem (PlainName checkPath)
open Json (Tree Spells)
open Json.Reader (Takes)

/-! ## Reading a key back -/

namespace Key

/-- A key that is text: if it is a path, its bytes are those of a text. -/
def IsText : Key → Prop
  | .path p => ∃ s, p.bytes = Utf8.ofString s
  | _ => True

theorem tagged_eq_writeObject (kind : String) (content : List UInt8) :
    tagged kind content = Json.writeObject [(kind, content)] := by
  simp [tagged, Json.writeObject, Json.bracketed]

theorem holds_toInt (n : Int64) : IntegerType.int64.Holds n.toInt := by
  have hlow := n.le_toInt
  have hhigh := n.toInt_lt
  simp only [IntegerType.Holds, IntegerType.int64]
  omega

/-- A key of a kind is taken from the object that names the kind. -/
theorem ofJson_tagged {kind : String} {content : List UInt8} {tree : Tree} {k : Key}
    (hkind : kind ∈ kinds) (hcontent : Spells (.value tree) content)
    (h : Takes (contentReader kind) tree k) : ofJson (tagged kind content) = .ok k := by
  have hspells : Spells (.value (.object [(kind, tree)])) (tagged kind content) := by
    rw [tagged_eq_writeObject]
    exact Json.spells_writeObject (.cons ⟨rfl, hcontent⟩ .nil)
  have htakes : Takes reader (.object [(kind, tree)]) k := Json.Reader.takes_choice hkind h
  exact htakes.document (Json.isDocument_of_spells hspells) false

/-- The text of a key is read back as the key. -/
theorem ofJson_of_toJson {k : Key} {json : List UInt8} (h : k.toJson = .ok json) :
    ofJson json = .ok k := by
  rcases tagged_of_toJson h with ⟨s, rfl, rfl⟩ | ⟨n, rfl, rfl⟩ | ⟨p, s, rfl, hp, rfl⟩
  · exact ofJson_tagged (by decide) (Json.spells_write s)
      ((Json.Reader.takes_textOf _ s).map Key.text)
  · have htakes := Json.Reader.takes_integer (by decide) (by decide) (holds_toInt n)
    have hkey := htakes.map fun m => Key.integer (Int64.ofInt m)
    rw [Int64.ofInt_toInt] at hkey
    exact ofJson_tagged (by decide) (Json.spells_ofInt n.toInt) hkey
  · have hkey := (Json.Reader.takes_textOf "path string" s).map fun s => Key.path (Path.ofString s)
    rw [show Path.ofString s = p from congrArg Path.mk hp] at hkey
    exact ofJson_tagged (by decide) (Json.spells_write s) hkey

/-- A key has a text exactly when it is text. -/
theorem isText_iff (k : Key) : k.IsText ↔ ∃ json, k.toJson = .ok json := by
  cases k with
  | text s => exact iff_of_true trivial ⟨_, rfl⟩
  | integer n => exact iff_of_true trivial ⟨_, rfl⟩
  | path p =>
    constructor
    · rintro ⟨s, hs⟩
      have htext : p.toString? = some s := by
        rw [Path.toString?, hs, Utf8.toString?_ofString]
      exact ⟨_, by rw [toJson, htext]⟩
    · rintro ⟨json, hjson⟩
      rcases tagged_of_toJson hjson with ⟨s, hk, -⟩ | ⟨n, hk, -⟩ | ⟨q, s, hk, hq, -⟩
      · cases hk
      · cases hk
      · cases hk
        exact ⟨s, hq.symm⟩

theorem fileName_of_isText {k : Key} (h : k.IsText) : ∃ name, k.fileName = .ok name := by
  obtain ⟨json, hjson⟩ := k.isText_iff.1 h
  exact ⟨_, by rw [fileName, hjson]; rfl⟩

theorem toJson_of_not_isText {k : Key} (h : ¬ k.IsText) :
    k.toJson = .error ⟨.pathNotText, none⟩ := by
  cases k with
  | text s => exact absurd trivial h
  | integer n => exact absurd trivial h
  | path p =>
    rw [toJson]
    cases hs : p.toString? with
    | none => rfl
    | some s => exact absurd ⟨s, (Utf8.ofString_of_toString? hs).symm⟩ h

end Key

/-! ## Children of a directory -/

namespace Path

open FileSystem (join_cases isAbsolute_join segments_append_slash segments_of_noSlash
  segments_ne_nil)

/-- The steps of a path that does not begin at the root. -/
def stepsOf : List (List UInt8) → List Component
  | [0x2E] :: rest => .current :: rest.filterMap innerComponent
  | all => all.filterMap innerComponent

theorem components_of_relative {p : Path} (h : p.isAbsolute = false) :
    p.components = stepsOf (segments p.bytes) := by
  rw [components, h, if_neg Bool.false_ne_true]
  rfl

theorem stepsOf_of_ne_dot {first : List UInt8} (h : first ≠ [0x2E]) (rest : List (List UInt8)) :
    stepsOf (first :: rest) = (first :: rest).filterMap innerComponent := by
  simp [stepsOf, h]

theorem stepsOf_append {segments : List (List UInt8)} (hne : segments ≠ [])
    (more : List (List UInt8)) :
    stepsOf (segments ++ more) = stepsOf segments ++ more.filterMap innerComponent := by
  obtain ⟨first, rest, rfl⟩ := List.exists_cons_of_ne_nil hne
  by_cases hdot : first = [0x2E]
  · subst hdot
    simp [stepsOf]
  · rw [List.cons_append, stepsOf_of_ne_dot hdot, stepsOf_of_ne_dot hdot, ← List.cons_append,
      List.filterMap_append]

theorem innerComponent_of_plain {name : List UInt8} (h : PlainName name) :
    [name].filterMap innerComponent = [.name name] := by
  have hname : innerComponent name = some (.name name) := by
    rw [innerComponent, if_neg h.notEmpty, if_neg (show name ≠ [0x2E] from h.notDot),
      if_neg (show name ≠ [0x2E, 0x2E] from h.notDotDot)]
  simp [hname]

/-- The stretches of a joined path are those of the directory and the name, but for empty ones. -/
theorem segments_join (directory : Path) {name : List UInt8} (h : PlainName name)
    (hne : directory.bytes ≠ []) :
    ∃ front, segments (directory.join ⟨name⟩).bytes = segments front ++ [name] ∧
      (segments directory.bytes = segments front ++ [[]] ∨
        segments directory.bytes = segments front) := by
  rcases join_cases directory h with ⟨hempty, -⟩ | ⟨front, hjoin, hfront⟩
  · exact absurd hempty hne
  · refine ⟨front, ?_, ?_⟩
    · rw [hjoin, segments_append_slash, segments_of_noSlash h.noSlash]
    · rcases hfront with hfront | ⟨hfront, -⟩
      · exact .inl (by rw [hfront, segments_append_slash]; rfl)
      · exact .inr (by rw [hfront])

/-- A plain name adds one step to the path of its directory. -/
theorem components_join (directory : Path) {name : List UInt8} (h : PlainName name) :
    (directory.join ⟨name⟩).components = directory.components ++ [.name name] := by
  have hempty : [[]].filterMap innerComponent = [] := rfl
  by_cases hnil : directory.bytes = []
  · have hbytes : (directory.join ⟨name⟩).bytes = name := by
      rcases join_cases directory h with ⟨-, hjoin⟩ | ⟨front, -, hfront | ⟨hfront, hne⟩⟩
      · exact hjoin
      · rw [hnil] at hfront
        cases front <;> cases hfront
      · exact absurd (hfront.symm.trans hnil) hne
    have hrelative : directory.isAbsolute = false := by rw [isAbsolute, hnil]; rfl
    rw [components_of_relative (by rw [isAbsolute_join directory h, hrelative]),
      components_of_relative hrelative, hbytes, hnil, segments_of_noSlash h.noSlash,
      stepsOf_of_ne_dot h.notDot, innerComponent_of_plain h]
    rfl
  · obtain ⟨front, hjoin, hfront⟩ := segments_join directory h hnil
    have hsteps := segments_ne_nil front
    cases habsolute : directory.isAbsolute with
    | true =>
      rw [components, components, isAbsolute_join directory h, habsolute, if_pos rfl, if_pos rfl,
        hjoin, List.filterMap_append, innerComponent_of_plain h, List.cons_append]
      rcases hfront with hfront | hfront
      · rw [hfront, List.filterMap_append, hempty, List.append_nil]
      · rw [hfront]
    | false =>
      rw [components_of_relative (by rw [isAbsolute_join directory h, habsolute]),
        components_of_relative habsolute, hjoin, stepsOf_append hsteps, innerComponent_of_plain h]
      rcases hfront with hfront | hfront
      · rw [hfront, stepsOf_append hsteps, hempty, List.append_nil]
      · rw [hfront]

end Path

/-! ## Refused keys -/

/-- Nothing stands in the tree that everything begins with but two directories. -/
theorem FileSystem.initial_places {place : Location} {content : Content}
    (h : initial.content? place = some content) : place = [] ∨ place = [[0x77]] := by
  by_cases hroot : place = []
  · exact .inl hroot
  by_cases hhome : place = [[0x77]]
  · exact .inr hhome
  rw [content?, initial, Table.get?_insert, if_neg hhome, Table.get?_insert, if_neg hroot] at h
  cases h

namespace EntryFolder

variable {α : Type} {folder : EntryFolder} {k : Key} {fs : FileSystem}

/-- The failure of a key that has no text. -/
def noText : StoreError := .json ⟨.pathNotText, none⟩

/-- A call that refuses its key: what the files are makes no difference, and they stay as they
are. -/
def Refused (call : FileCall α) : Prop :=
  ∃ failure, ∀ fs, call fs = (.error (.json failure), fs)

theorem call_of_not_isText (folder : EntryFolder) (h : ¬ k.IsText) (f : Path → FileCall α)
    (fs : FileSystem) :
    (do let path ← folder.entryPath k; f path : FileCall α) fs = (.error noText, fs) := by
  have hpath : folder.entryPath k = .error noText := by
    rw [entryPath, Key.fileName, Key.toJson_of_not_isText h]
    rfl
  rw [hpath]
  exact Disk.bind_error f (FileCall.liftExcept_apply _ fs)

theorem decode_ne_noText (format : Format) (type : ValueType) (bytes : List UInt8) :
    format.decode type bytes ≠ .error noText := by
  intro h
  cases format with
  | json =>
    rw [Format.decode] at h
    cases hvalue : Value.ofJson type bytes with
    | ok v =>
      rw [hvalue] at h
      cases h
    | error failure =>
      rw [hvalue] at h
      cases h
      exact Value.ofJson_ne_pathNotText type bytes hvalue
  | binary =>
    rw [Format.decode] at h
    cases hvalue : Value.ofBinary type bytes <;> rw [hvalue] at h <;> cases h

theorem read_ne_noText (folder : EntryFolder) (content : Content) :
    folder.read (some content) ≠ .error noText := by
  intro h
  cases content with
  | directory => cases hformat : folder.format <;> rw [read, hformat] at h <;> cases h
  | file bytes =>
    rw [read] at h
    cases hvalue : folder.format.decode folder.type bytes with
    | ok v =>
      rw [hvalue] at h
      cases h
    | error e =>
      rw [hvalue] at h
      cases h
      exact decode_ne_noText folder.format folder.type bytes hvalue

/-- A key that is text is answered for by what stands under its name, or fails for its path. -/
theorem get_of_isText (folder : EntryFolder) (h : k.IsText) (fs : FileSystem) :
    (folder.get k fs).1 = .ok none ∨ (∃ e, (folder.get k fs).1 = .error (.file e)) ∨
      ∃ parent name content, k.fileName = .ok name ∧
        fs.content? (parent ++ [name]) = some content ∧
        (folder.get k fs).1 = folder.read (some content) := by
  obtain ⟨name, hname⟩ := Key.fileName_of_isText h
  have hplain := Key.plainName_of_fileName hname
  cases hlocate : fs.locate (folder.directory.join ⟨name⟩) with
  | error e =>
    by_cases he : e = .notFound
    · subst he
      left
      rw [get, entryPath_of_named hname, Disk.bind_ok _ (FileCall.liftExcept_apply _ _),
        Disk.bind_ok _ (FileCall.liftDisk_apply (Disk.openExisting_error hlocate))]
      rfl
    · right; left
      exact ⟨e, by rw [get_of_unlocated hname he hlocate]⟩
  | ok place =>
    right; right
    obtain ⟨parent, hl, rfl, hthere⟩ := FileSystem.leads_of_locate_join hplain hlocate
    obtain ⟨content, hcontent⟩ := Option.isSome_iff_exists.1 hthere
    refine ⟨parent, name, content, hname, hcontent, ?_⟩
    rw [get_of_located hname hlocate hcontent]

/-- A put of a key that is text can only fail for its files. -/
theorem put_ne_json (folder : EntryFolder) (h : k.IsText) (v : Value) (fs : FileSystem)
    (failure : Json.Failure) : (folder.put k v fs).1 ≠ .error (.json failure) := by
  obtain ⟨name, hname⟩ := Key.fileName_of_isText h
  rw [put, entryPath_of_named hname, Disk.bind_ok _ (FileCall.liftExcept_apply _ _),
    Disk.bind_ok _ (show (getThe FileSystem : FileCall FileSystem) fs = (.ok fs, fs) from rfl)]
  obtain ⟨r, fs₁, hr⟩ : ∃ r fs₁, replaceEntry (folder.temporaryPath fs.unique)
      (folder.directory.join ⟨name⟩) (folder.format.encode v) fs = (r, fs₁) := ⟨_, _, rfl⟩
  rw [Disk.bind_ok _ (FileCall.liftDisk_apply hr)]
  cases r with
  | ok done => exact nofun
  | error e =>
    obtain ⟨r', fs₂, hr'⟩ : ∃ r' fs₂, Disk.removeFile (folder.temporaryPath fs.unique) fs₁ =
      (r', fs₂) := ⟨_, _, rfl⟩
    dsimp only
    rw [Disk.bind_ok _ (FileCall.liftDisk_apply hr')]
    exact nofun

theorem remove_ne_json (folder : EntryFolder) (h : k.IsText) (fs : FileSystem)
    (failure : Json.Failure) : (folder.remove k fs).1 ≠ .error (.json failure) := by
  obtain ⟨name, hname⟩ := Key.fileName_of_isText h
  rw [remove, entryPath_of_named hname, Disk.bind_ok _ (FileCall.liftExcept_apply _ _)]
  obtain ⟨r, fs₁, hr⟩ : ∃ r fs₁, Disk.removeFile (folder.directory.join ⟨name⟩) fs = (r, fs₁) :=
    ⟨_, _, rfl⟩
  rw [Disk.bind_ok _ (FileCall.liftDisk_apply hr)]
  rcases r with e | ⟨⟩
  · cases e <;> exact nofun
  · exact nofun

/-- No entry stands in the tree that everything begins with, so a key that is text is not refused
there. -/
theorem get_initial_ne_json (folder : EntryFolder) (h : k.IsText) (failure : Json.Failure) :
    (folder.get k FileSystem.initial).1 ≠ .error (.json failure) := by
  rcases folder.get_of_isText h .initial with
    hnone | ⟨e, he⟩ | ⟨parent, name, content, hname, hc, -⟩
  · rw [hnone]
    exact nofun
  · rw [he]
    exact nofun
  · obtain ⟨json, -, rfl⟩ := Key.toJson_of_fileName hname
    rcases FileSystem.initial_places hc with hplace | hplace
    · simp at hplace
    · have hlast := congrArg List.getLast? hplace
      rw [List.getLast?_concat, List.getLast?_singleton, Option.some.injEq] at hlast
      have hlength := congrArg List.length hlast
      rw [List.length_append, show Key.entryExtension.length = 6 from rfl] at hlength
      simp at hlength

/-- A call that goes on with the file of its key refuses the keys without a text, and no others if
it ends without a failure of this kind in one tree of files. -/
theorem refused_iff {f : Path → FileCall α} (fs : FileSystem) (h : k.IsText → ∀ failure,
      ((do let path ← folder.entryPath k; f path : FileCall α) fs).1 ≠ .error (.json failure)) :
    Refused (do let path ← folder.entryPath k; f path) ↔ ¬ k.IsText := by
  constructor
  · rintro ⟨failure, hcall⟩ htext
    exact h htext failure (congrArg Prod.fst (hcall fs))
  · exact fun htext => ⟨⟨.pathNotText, none⟩, folder.call_of_not_isText htext f⟩

/-- In any tree of files, a call that goes on with the file of its key says that the key has no text
if and only if it has none. -/
theorem noText_iff {f : Path → FileCall α}
    (h : k.IsText → ((do let path ← folder.entryPath k; f path : FileCall α) fs).1 ≠
      .error noText) :
    ((do let path ← folder.entryPath k; f path : FileCall α) fs).1 = .error noText ↔
      ¬ k.IsText := by
  constructor
  · exact fun hcall htext => h htext hcall
  · intro htext
    rw [folder.call_of_not_isText htext f fs]

theorem get_ne_noText (folder : EntryFolder) (h : k.IsText) (fs : FileSystem) :
    (folder.get k fs).1 ≠ .error noText := by
  rcases folder.get_of_isText h fs with hnone | ⟨e, he⟩ | ⟨-, -, content, -, -, hread⟩
  · rw [hnone]
    exact nofun
  · rw [he]
    exact nofun
  · rw [hread]
    exact folder.read_ne_noText content

/-- A key that is text is found again in the name of its file: the digits in front of the extension
are its text, which is read back as the key. So keys of different kinds or spellings never share a
file. The file of a key is a child of the folder's directory, in its path and wherever the path
leads, and it has no name that a temporary file could have, whatever is made up in it. A key that is
no text is refused by each call before any file is looked at, and no other key is: on no files does
a call for one end in this failure. -/
theorem names_encode_keys (folder : EntryFolder) :
    (∀ k : Key, k.IsText → ∃ digits json,
      folder.entryPath k = .ok (folder.directory.join ⟨digits ++ Key.entryExtension⟩) ∧
        Hex.decode? digits = some json ∧ Key.ofJson json = .ok k) ∧
    (∀ {k l : Key} {p q : Path}, folder.entryPath k = .ok p → folder.entryPath l = .ok q →
      p.Same q → k = l) ∧
    (∀ {k : Key} {p : Path}, folder.entryPath k = .ok p →
      ∃ name, p = folder.directory.join ⟨name⟩ ∧
        p.components = folder.directory.components ++ [.name name] ∧
        (∀ unique : List UInt8, Utf8.ofString "." ++ unique ++ Utf8.ofString ".tmp" ≠ name) ∧
        ∀ {fs : FileSystem} {target}, fs.target p = .ok target →
          ∃ parent, fs.Leads folder.directory parent ∧ target = .child parent name false) ∧
    (∀ k : Key, (Refused (folder.get k) ↔ ¬ k.IsText) ∧
      (∀ v, Refused (folder.put k v) ↔ ¬ k.IsText) ∧ (Refused (folder.remove k) ↔ ¬ k.IsText)) ∧
    ∀ (k : Key) fs, ((folder.get k fs).1 = .error noText ↔ ¬ k.IsText) ∧
      (∀ v, (folder.put k v fs).1 = .error noText ↔ ¬ k.IsText) ∧
      ((folder.remove k fs).1 = .error noText ↔ ¬ k.IsText) := by
  refine ⟨?_, ?_, ?_, fun k => ?_, fun k fs => ?_⟩
  · intro k htext
    obtain ⟨json, hjson⟩ := k.isText_iff.1 htext
    refine ⟨Hex.encode json, json, entryPath_of_named ?_, Hex.decode?_encode json,
      Key.ofJson_of_toJson hjson⟩
    rw [Key.fileName, hjson]
    rfl
  · intro k l p q hk hl hsame
    obtain ⟨name, hname, rfl⟩ := named_of_entryPath hk
    obtain ⟨name', hname', rfl⟩ := named_of_entryPath hl
    unfold Path.Same at hsame
    rw [Path.components_join _ (Key.plainName_of_fileName hname),
      Path.components_join _ (Key.plainName_of_fileName hname')] at hsame
    have hnames : name = name' := by simpa using hsame
    subst hnames
    exact Key.eq_of_fileName hname hname'
  · intro k p hp
    obtain ⟨name, hname, rfl⟩ := named_of_entryPath hp
    have hplain := Key.plainName_of_fileName hname
    refine ⟨name, rfl, Path.components_join _ hplain, temporary_shape_ne hname,
      fun htarget => ?_⟩
    obtain ⟨parent, hl, -, htarget⟩ := FileSystem.leads_of_target_join hplain htarget
    exact ⟨parent, hl, htarget⟩
  · exact ⟨refused_iff .initial folder.get_initial_ne_json,
      fun v => refused_iff .initial fun h => folder.put_ne_json h v .initial,
      refused_iff .initial fun h => folder.remove_ne_json h .initial⟩
  · exact ⟨noText_iff fun h => folder.get_ne_noText h fs,
      fun v => noText_iff fun h => folder.put_ne_json h v fs _,
      noText_iff fun h => folder.remove_ne_json h fs _⟩

/-- A text with a slash, a quote and a zero byte has a file of its own; a path that is no text is
refused. -/
theorem odd_text_is_encoded :
    (∃ digits json, entryPath ⟨Path.ofString "s", .json, .u8⟩ (.text "../\"\x00") =
        .ok ((Path.ofString "s").join ⟨digits ++ Key.entryExtension⟩) ∧
      Hex.decode? digits = some json ∧ Key.ofJson json = .ok (.text "../\"\x00")) ∧
    Refused (get ⟨Path.ofString "s", .json, .u8⟩ (.path ⟨[0xFF]⟩)) := by
  have hspec := names_encode_keys ⟨Path.ofString "s", .json, .u8⟩
  refine ⟨hspec.1 _ trivial, (hspec.2.2.2.1 _).1.2 ?_⟩
  rintro ⟨s, hs⟩
  have htext := Utf8.toString?_ofString s
  rw [← hs] at htext
  cases htext

end EntryFolder

end LeaseCache
