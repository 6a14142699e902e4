import LeaseCache.FileSystem

/-!
# What operations on files leave alone

What stands at a place is its `content?`; modification times do not count here. An operation on a
file changes what stands at the places it names, and no directory comes or goes (`KeptBut`). So a
path to a directory leads to the same place before and after.
-/

namespace LeaseCache

namespace Disk

variable {ε α β : Type} {x : ExceptT ε (StateM FileSystem) α} {fs fs' : FileSystem}

theorem bind_ok {a : α} (f : α → ExceptT ε (StateM FileSystem) β) (h : x fs = (.ok a, fs')) :
    (x >>= f) fs = f a fs' := by
  show StateT.bind x (ExceptT.bindCont f) fs = _
  rw [StateT.bind, h]
  rfl

theorem bind_error {e : ε} (f : α → ExceptT ε (StateM FileSystem) β)
    (h : x fs = (.error e, fs')) : (x >>= f) fs = (.error e, fs') := by
  show StateT.bind x (ExceptT.bindCont f) fs = _
  rw [StateT.bind, h]
  rfl

theorem query_ok {f : FileSystem → Except FileError α} {a : α} (h : f fs = .ok a) :
    query f fs = (.ok a, fs) := by
  rw [query, bind_ok _ (show (get : Disk FileSystem) fs = (.ok fs, fs) from rfl), h]
  rfl

theorem query_error {f : FileSystem → Except FileError α} {e : FileError} (h : f fs = .error e) :
    query f fs = (.error e, fs) := by
  rw [query, bind_ok _ (show (get : Disk FileSystem) fs = (.ok fs, fs) from rfl), h]
  rfl

/-! ## What came of a composed operation -/

theorem of_bind_ok {f : α → ExceptT ε (StateM FileSystem) β} {b : β}
    (h : (x >>= f) fs = (.ok b, fs')) : ∃ a fs₁, x fs = (.ok a, fs₁) ∧ f a fs₁ = (.ok b, fs') := by
  obtain ⟨r, fs₁, hx⟩ : ∃ r fs₁, x fs = (r, fs₁) := ⟨_, _, rfl⟩
  cases r with
  | ok a => exact ⟨a, fs₁, hx, (bind_ok f hx).symm.trans h⟩
  | error e =>
    rw [bind_error f hx] at h
    cases h

theorem of_bind_error {f : α → ExceptT ε (StateM FileSystem) β} {e : ε}
    (h : (x >>= f) fs = (.error e, fs')) :
    x fs = (.error e, fs') ∨ ∃ a fs₁, x fs = (.ok a, fs₁) ∧ f a fs₁ = (.error e, fs') := by
  obtain ⟨r, fs₁, hx⟩ : ∃ r fs₁, x fs = (r, fs₁) := ⟨_, _, rfl⟩
  cases r with
  | ok a => exact .inr ⟨a, fs₁, hx, (bind_ok f hx).symm.trans h⟩
  | error e' =>
    rw [bind_error f hx] at h
    cases h
    exact .inl hx

theorem of_query_ok {f : FileSystem → Except FileError α} {a : α}
    (h : query f fs = (.ok a, fs')) : f fs = .ok a ∧ fs' = fs := by
  cases hf : f fs with
  | ok b =>
    cases (query_ok hf).symm.trans h
    exact ⟨rfl, rfl⟩
  | error e => cases (query_error hf).symm.trans h

theorem of_query_error {f : FileSystem → Except FileError α} {e : FileError}
    (h : query f fs = (.error e, fs')) : fs' = fs := by
  cases hf : f fs with
  | ok b => cases (query_ok hf).symm.trans h
  | error e' =>
    cases (query_error hf).symm.trans h
    rfl

end Disk

namespace FileSystem

/-- What stands at a place. -/
def content? (fs : FileSystem) (place : Location) : Option Content :=
  (fs.nodes.get? place).map Node.content

variable {fs fs' fs'' : FileSystem} {place here : Location} {places places' : List Location}

theorem isDirectory_iff (fs : FileSystem) (place : Location) :
    fs.isDirectory place = true ↔ fs.content? place = some .directory := by
  unfold isDirectory content?
  cases fs.nodes.get? place with
  | none => simp
  | some node =>
    obtain ⟨content, time⟩ := node
    cases content <;> simp

theorem isSome_of_isDirectory (h : fs.isDirectory place = true) :
    (fs.nodes.get? place).isSome = true := by
  rw [isDirectory_iff, content?, Option.map_eq_some_iff] at h
  obtain ⟨node, hnode, -⟩ := h
  rw [hnode]
  rfl

theorem content?_place (fs : FileSystem) (at' place : Location) (content : Content) :
    (fs.place at' content).content? place =
      if place = at' then some content else fs.content? place := by
  rw [content?, FileSystem.place, Table.get?_insert]
  split <;> rfl

theorem content?_stamp (fs : FileSystem) (at' place : Location) :
    (fs.stamp at').content? place = fs.content? place := by
  unfold stamp
  split
  · next node hnode =>
    rw [content?_place]
    split
    · next hplace =>
      rw [hplace, content?, hnode]
      rfl
    · rfl
  · rfl

theorem content?_remove (fs : FileSystem) (at' place : Location) :
    (fs.remove at').content? place = if place = at' then none else fs.content? place := by
  rw [content?, remove, Table.get?_erase]
  split <;> rfl

theorem home_stamp (fs : FileSystem) (at' : Location) : (fs.stamp at').home = fs.home := by
  unfold stamp
  split <;> rfl

/-! ## What is kept -/

/-- Everything stands as before, but for files at some places. -/
structure KeptBut (places : List Location) (fs fs' : FileSystem) : Prop where
  home : fs'.home = fs.home
  content : ∀ place, place ∉ places → fs'.content? place = fs.content? place
  directories : ∀ place, fs'.isDirectory place = fs.isDirectory place

theorem KeptBut.refl (places : List Location) (fs : FileSystem) : KeptBut places fs fs :=
  ⟨rfl, fun _ _ => rfl, fun _ => rfl⟩

theorem KeptBut.trans (h : KeptBut places fs fs') (h' : KeptBut places fs' fs'') :
    KeptBut places fs fs'' where
  home := h'.home.trans h.home
  content p hp := (h'.content p hp).trans (h.content p hp)
  directories p := (h'.directories p).trans (h.directories p)

theorem KeptBut.mono (h : KeptBut places fs fs') (hp : places ⊆ places') :
    KeptBut places' fs fs' :=
  ⟨h.home, fun p hnot => h.content p fun hin => hnot (hp hin), h.directories⟩

/-- No directory comes or goes where files stand instead of files or of nothing. -/
theorem KeptBut.of_files (hhome : fs'.home = fs.home)
    (hcontent : ∀ p, p ∉ places → fs'.content? p = fs.content? p)
    (hbefore : ∀ p ∈ places, fs.content? p ≠ some .directory)
    (hafter : ∀ p ∈ places, fs'.content? p ≠ some .directory) : KeptBut places fs fs' where
  home := hhome
  content := hcontent
  directories p := by
    rw [Bool.eq_iff_iff, isDirectory_iff, isDirectory_iff]
    by_cases hp : p ∈ places
    · exact ⟨fun h => absurd h (hafter p hp), fun h => absurd h (hbefore p hp)⟩
    · rw [hcontent p hp]

/-! ## Walking -/

theorem walk_append (fs : FileSystem) (here : Location) (names more : List (List UInt8)) :
    fs.walk here (names ++ more) = (fs.walk here names).bind (fs.walk · more) := by
  induction names generalizing here with
  | nil => rfl
  | cons name names ih =>
    rw [List.cons_append, walk, walk, ih, ih, ih]
    split
    · rfl
    split
    · rfl
    split
    · rfl
    split
    · rfl
    split <;> rfl

theorem isDirectory_of_walk {names : List (List UInt8)} (h : fs.walk here names = .ok place)
    (hd : fs.isDirectory place = true) : fs.isDirectory here = true := by
  cases names with
  | nil =>
    rw [Except.ok.inj h]
    exact hd
  | cons name names =>
    rw [walk] at h
    split at h
    · cases h
    · next hhere => simpa using hhere

/-- The way to a directory leads there as long as no directory goes. -/
theorem walk_mono (hdirs : ∀ p, fs.isDirectory p = true → fs'.isDirectory p = true)
    {names : List (List UInt8)} (h : fs.walk here names = .ok place)
    (hd : fs.isDirectory place = true) : fs'.walk here names = .ok place := by
  induction names generalizing here with
  | nil => exact h
  | cons name names ih =>
    have hhere := isDirectory_of_walk h hd
    rw [walk, hhere] at h
    rw [walk, hdirs here hhere]
    by_cases hdot : name = dot
    · rw [if_neg (by simp), if_pos hdot] at h ⊢
      exact ih h
    by_cases hdots : name = dotDot
    · rw [if_neg (by simp), if_neg hdot, if_pos hdots] at h ⊢
      exact ih h
    rw [if_neg (by simp), if_neg hdot, if_neg hdots] at h ⊢
    by_cases hlong : maxName < name.length
    · rw [if_pos hlong] at h
      cases h
    rw [if_neg hlong] at h ⊢
    by_cases hthere : (fs.nodes.get? (here ++ [name])).isSome = true
    · rw [if_pos hthere] at h
      -- more names follow or the walk ends here, so this is a directory in either case
      have hnext := hdirs _ (isDirectory_of_walk h hd)
      rw [if_pos (isSome_of_isDirectory hnext)]
      exact ih h
    · rw [if_neg hthere] at h
      cases h

/-- One more name from a directory. -/
theorem walk_child {name : List UInt8} (hhere : fs.isDirectory here = true) (hdot : name ≠ dot)
    (hdots : name ≠ dotDot) :
    fs.walk here [name] =
      if maxName < name.length then .error .nameTooLong
      else if (fs.content? (here ++ [name])).isSome then .ok (here ++ [name])
      else .error .notFound := by
  rw [walk, hhere, if_neg (by simp), if_neg hdot, if_neg hdots, content?, Option.isSome_map]
  rfl

/-! ## Names in a directory -/

/-- A name that stands for a child of the directory it is joined to. -/
structure PlainName (name : List UInt8) : Prop where
  noSlash : Path.slash ∉ name
  notEmpty : name ≠ []
  notDot : name ≠ dot
  notDotDot : name ≠ dotDot

theorem segments_of_noSlash {bytes : List UInt8} (h : Path.slash ∉ bytes) :
    Path.segments bytes = [bytes] := by
  induction bytes with
  | nil => rfl
  | cons b rest ih =>
    rw [List.mem_cons, not_or] at h
    rw [Path.segments, if_neg (Ne.symm h.1), ih h.2]

theorem segments_ne_nil (bytes : List UInt8) : Path.segments bytes ≠ [] := by
  cases bytes with
  | nil => simp [Path.segments]
  | cons b rest =>
    rw [Path.segments]
    split
    · simp
    · split <;> simp

theorem segments_append_slash (a b : List UInt8) :
    Path.segments (a ++ Path.slash :: b) = Path.segments a ++ Path.segments b := by
  induction a with
  | nil => rfl
  | cons c a ih =>
    rw [List.cons_append, Path.segments, Path.segments, ih]
    split
    · rfl
    · have hne := segments_ne_nil a
      cases ha : Path.segments a with
      | nil => exact absurd ha hne
      | cons s more => rfl

section Join

variable {name : List UInt8} (directory : Path)

theorem PlainName.head?_ne (h : PlainName name) : name.head? ≠ some Path.slash := by
  intro hhead
  exact h.noSlash (List.mem_of_head? hhead)

/-- A name is joined with a slash, unless the directory ends in one or is empty. -/
theorem join_cases (h : PlainName name) :
    directory.bytes = [] ∧ (directory.join ⟨name⟩).bytes = name ∨
      ∃ front, (directory.join ⟨name⟩).bytes = front ++ Path.slash :: name ∧
        (directory.bytes = front ++ [Path.slash] ∨ directory.bytes = front ∧ front ≠ []) := by
  have hrelative : (⟨name⟩ : Path).isAbsolute = false := decide_eq_false h.head?_ne
  rw [Path.join, hrelative, if_neg Bool.false_ne_true]
  by_cases hempty : directory.bytes = []
  · left
    rw [hempty]
    exact ⟨rfl, rfl⟩
  right
  by_cases hslash : directory.bytes.getLast? = some Path.slash
  · obtain ⟨front, hfront⟩ := List.getLast?_eq_some_iff.1 hslash
    refine ⟨front, ?_, .inl hfront⟩
    rw [if_pos (by simp [hslash]), hfront]
    simp
  · refine ⟨directory.bytes, ?_, .inr ⟨rfl, hempty⟩⟩
    rw [if_neg (by simp [hempty, hslash])]

theorem names_join (h : PlainName name) :
    names (directory.join ⟨name⟩) = names directory ++ [name] := by
  have hname : [name].filter (· ≠ []) = [name] := by simp [h.notEmpty]
  unfold names
  rcases join_cases directory h with ⟨hempty, hjoin⟩ | ⟨front, hjoin, hfront⟩
  · rw [hjoin, hempty, segments_of_noSlash h.noSlash, hname]
    rfl
  · rw [hjoin, segments_append_slash, segments_of_noSlash h.noSlash, List.filter_append, hname]
    rcases hfront with hfront | ⟨hfront, -⟩
    · rw [hfront, segments_append_slash, List.filter_append]
      simp [Path.segments]
    · rw [hfront]

theorem isAbsolute_join (h : PlainName name) :
    (directory.join ⟨name⟩).isAbsolute = directory.isAbsolute := by
  unfold Path.isAbsolute
  rcases join_cases directory h with ⟨hempty, hjoin⟩ | ⟨front, hjoin, hfront | ⟨hfront, hne⟩⟩
  · rw [hjoin, hempty]
    simp [h.head?_ne]
  · rw [hjoin, hfront]
    cases front <;> rfl
  · rw [hjoin, hfront]
    cases front with
    | nil => exact absurd rfl hne
    | cons => rfl

theorem origin_join (h : PlainName name) (fs : FileSystem) :
    fs.origin (directory.join ⟨name⟩) = fs.origin directory := by
  rw [origin, origin, isAbsolute_join directory h]

theorem getLast?_join (h : PlainName name) :
    (directory.join ⟨name⟩).bytes.getLast? = name.getLast? := by
  rcases join_cases directory h with ⟨-, hjoin⟩ | ⟨front, hjoin, -⟩
  · rw [hjoin]
  · obtain ⟨b, hb⟩ := Option.ne_none_iff_exists'.1 (mt List.getLast?_eq_none_iff.1 h.notEmpty)
    rw [hjoin, List.getLast?_append, List.getLast?_cons, hb]
    rfl

theorem endsInSlash_join (h : PlainName name) : endsInSlash (directory.join ⟨name⟩) = false := by
  rw [endsInSlash, getLast?_join directory h]
  refine decide_eq_false fun hlast => ?_
  exact h.noSlash (List.mem_of_getLast? hlast)

theorem bytes_join_ne_nil (h : PlainName name) : (directory.join ⟨name⟩).bytes ≠ [] := by
  intro hnil
  have hlast := getLast?_join directory h
  rw [hnil] at hlast
  exact h.notEmpty (List.getLast?_eq_none_iff.1 hlast.symm)

end Join

/-- A path names the directory at a place. -/
structure Leads (fs : FileSystem) (directory : Path) (parent : Location) : Prop where
  walk : fs.walk (fs.origin directory) (names directory) = .ok parent
  isDirectory : fs.isDirectory parent = true

section Leads

variable {directory : Path} {parent : Location} {name : List UInt8} {e : FileError}

theorem Leads.mono (h : fs.Leads directory parent) (hhome : fs'.home = fs.home)
    (hdirs : ∀ p, fs.isDirectory p = true → fs'.isDirectory p = true) :
    fs'.Leads directory parent where
  walk := by
    have horigin : fs'.origin directory = fs.origin directory := by rw [origin, origin, hhome]
    rw [horigin]
    exact walk_mono hdirs h.walk h.isDirectory
  isDirectory := hdirs parent h.isDirectory

theorem Leads.kept (h : fs.Leads directory parent) (hk : KeptBut places fs fs') :
    fs'.Leads directory parent :=
  h.mono hk.home fun p hp => (hk.directories p).trans hp

theorem Leads.unique {parent' : Location} (h : fs.Leads directory parent)
    (h' : fs.Leads directory parent') : parent = parent' :=
  Except.ok.inj (h.walk.symm.trans h'.walk)

theorem target_of_error {p : Path} (h : checkPath p = .error e) : fs.target p = .error e := by
  rw [target, h]
  rfl

theorem locate_of_error {p : Path} (h : checkPath p = .error e) : fs.locate p = .error e := by
  rw [locate, h]
  rfl

theorem Leads.target_join (h : fs.Leads directory parent) (hn : PlainName name)
    (hp : checkPath (directory.join ⟨name⟩) = .ok ()) :
    fs.target (directory.join ⟨name⟩) = .ok (.child parent name false) := by
  rw [target, hp, names_join directory hn, origin_join directory hn, endsInSlash_join directory hn]
  simp only [bind, Except.bind, List.getLast?_concat, hn.notDot, hn.notDotDot, or_self, if_false,
    List.dropLast_concat, h.walk, h.isDirectory, if_true]

theorem Leads.locate_join (h : fs.Leads directory parent) (hn : PlainName name)
    (hp : checkPath (directory.join ⟨name⟩) = .ok ()) :
    fs.locate (directory.join ⟨name⟩) =
      if maxName < name.length then .error .nameTooLong
      else if (fs.content? (parent ++ [name])).isSome then .ok (parent ++ [name])
      else .error .notFound := by
  rw [locate, hp, names_join directory hn, origin_join directory hn, endsInSlash_join directory hn]
  simp only [bind, Except.bind, Bool.false_eq_true, if_false, List.append_nil, walk_append, h.walk]
  exact walk_child h.isDirectory hn.notDot hn.notDotDot

theorem target_eq_child {p : Path} {slash : Bool}
    (h : fs.target p = .ok (.child parent name slash)) :
    names p = (names p).dropLast ++ [name] ∧ name ≠ dot ∧ name ≠ dotDot ∧
      fs.walk (fs.origin p) (names p).dropLast = .ok parent ∧ fs.isDirectory parent = true := by
  rw [target] at h
  cases hp : checkPath p with
  | error e =>
    rw [hp] at h
    cases h
  | ok =>
    rw [hp] at h
    simp only [bind, Except.bind] at h
    cases hlast : (names p).getLast? with
    | none =>
      rw [hlast] at h
      cases h
    | some last =>
      rw [hlast] at h
      dsimp only at h
      by_cases hdots : last = dot ∨ last = dotDot
      · rw [if_pos hdots] at h
        cases hwalk : fs.walk (fs.origin p) (names p) <;> rw [hwalk] at h <;> cases h
      rw [if_neg hdots] at h
      cases hwalk : fs.walk (fs.origin p) (names p).dropLast with
      | error e =>
        rw [hwalk] at h
        cases h
      | ok place =>
        rw [hwalk] at h
        dsimp only at h
        by_cases hd : fs.isDirectory place = true
        · rw [if_pos hd] at h
          cases h
          obtain ⟨front, hfront⟩ := List.getLast?_eq_some_iff.1 hlast
          refine ⟨?_, fun he => hdots (.inl he), fun he => hdots (.inr he), rfl, hd⟩
          rw [hfront, List.dropLast_concat]
        · rw [if_neg hd] at h
          cases h

/-- A path to a name in a directory points there, if it points anywhere. -/
theorem leads_of_target_join {target : Target} (hn : PlainName name)
    (h : fs.target (directory.join ⟨name⟩) = .ok target) :
    ∃ parent, fs.Leads directory parent ∧ checkPath (directory.join ⟨name⟩) = .ok () ∧
      target = .child parent name false := by
  cases hp : checkPath (directory.join ⟨name⟩) with
  | error e =>
    rw [target_of_error hp] at h
    cases h
  | ok =>
    rw [FileSystem.target, hp, names_join directory hn, origin_join directory hn,
      endsInSlash_join directory hn] at h
    simp only [bind, Except.bind, List.getLast?_concat, hn.notDot, hn.notDotDot, or_self, if_false,
      List.dropLast_concat] at h
    cases hwalk : fs.walk (fs.origin directory) (names directory) with
    | error e =>
      rw [hwalk] at h
      cases h
    | ok parent =>
      rw [hwalk] at h
      dsimp only at h
      split at h
      · next hd =>
        cases h
        exact ⟨parent, ⟨hwalk, hd⟩, rfl, rfl⟩
      · cases h

/-- What stands under a name in a directory is found there. -/
theorem leads_of_locate_join (hn : PlainName name)
    (h : fs.locate (directory.join ⟨name⟩) = .ok place) :
    ∃ parent, fs.Leads directory parent ∧ place = parent ++ [name] ∧
      (fs.content? place).isSome := by
  cases hp : checkPath (directory.join ⟨name⟩) with
  | error e =>
    rw [locate_of_error hp] at h
    cases h
  | ok =>
    rw [locate, hp, names_join directory hn, origin_join directory hn,
      endsInSlash_join directory hn] at h
    simp only [bind, Except.bind, Bool.false_eq_true, if_false, List.append_nil, walk_append] at h
    cases hwalk : fs.walk (fs.origin directory) (names directory) with
    | error e =>
      rw [hwalk] at h
      cases h
    | ok parent =>
      rw [hwalk] at h
      dsimp only at h
      cases hd : fs.isDirectory parent with
      | false =>
        rw [walk, hd] at h
        cases h
      | true =>
        rw [walk_child hd hn.notDot hn.notDotDot] at h
        split at h
        · cases h
        split at h
        · next hthere =>
          cases h
          exact ⟨parent, ⟨hwalk, hd⟩, rfl, hthere⟩
        · cases h

/-- A path that names a directory leads to it, also with a slash at its end. -/
theorem leads_of_locate {p : Path} (h : fs.locate p = .ok place)
    (hd : fs.isDirectory place = true) : fs.Leads p place := by
  rw [locate] at h
  cases hp : checkPath p with
  | error e =>
    rw [hp] at h
    cases h
  | ok =>
    rw [hp] at h
    simp only [bind, Except.bind, walk_append] at h
    cases hwalk : fs.walk (fs.origin p) (names p) with
    | error e =>
      rw [hwalk] at h
      cases h
    | ok here =>
      rw [hwalk] at h
      dsimp only at h
      have hsame : here = place := by
        split at h
        · have hhere := isDirectory_of_walk h hd
          rw [walk, hhere, if_neg (by simp), if_pos rfl] at h
          exact Except.ok.inj h
        · exact Except.ok.inj h
      rw [hsame] at hwalk
      exact ⟨hwalk, hd⟩

theorem Leads.locate {p : Path} (h : fs.Leads p place) (hp : checkPath p = .ok ()) :
    fs.locate p = .ok place := by
  rw [FileSystem.locate, hp]
  simp only [bind, Except.bind, walk_append, h.walk]
  split
  · rw [FileSystem.walk, h.isDirectory, if_neg (by simp), if_pos rfl]
    rfl
  · rfl

/-- The way a path takes to a directory stays as long as no directory goes. -/
theorem locate_mono {p : Path} (hhome : fs'.home = fs.home)
    (hdirs : ∀ q, fs.isDirectory q = true → fs'.isDirectory q = true)
    (h : fs.locate p = .ok place) (hd : fs.isDirectory place = true) :
    fs'.locate p = .ok place := by
  have horigin : fs'.origin p = fs.origin p := by rw [origin, origin, hhome]
  rw [locate] at h ⊢
  cases hp : checkPath p with
  | error e =>
    rw [hp] at h
    cases h
  | ok =>
    rw [hp] at h
    rw [horigin]
    exact walk_mono hdirs h hd

end Leads

end FileSystem

end LeaseCache
