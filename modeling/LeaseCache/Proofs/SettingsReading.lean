import LeaseCache.Proofs.JsonSkipping
import LeaseCache.Settings

/-!
# Reading settings

What an object sets depends on the values of its two known names alone: their spelling, the order of
the members, the blanks between them and the members with other names make no difference. Main
statement: `Settings.read_by_the_two_names`, which says exactly when settings are read and which
ones they are.

A member adds to the fields given before it (`Fields.note?`), and the fields of an object are those
of its values for each of the two names by itself (`foldlM_note?`).
-/

namespace LeaseCache.Settings

open LeaseCache.Json (Tree Spells IsDocument Blank)
open LeaseCache.Json.Reader

/-! ## What an object says about a name -/

/-- The values that an object has for a name. -/
def given (name : String) (ms : List (String × Tree)) : List Tree :=
  (ms.filter fun m => m.1 = name).map (·.2)

/-- The name of a master store that a value gives, if it is one or null. -/
def master? : Tree → Option (Option String)
  | .null => some none
  | .text name => some (some name)
  | _ => none

/-- The size hint that a value gives, if it is an integer that fits. -/
def capacity? : Tree → Option UInt64
  | .integer n => if IntegerType.natWord.Holds n then some (UInt64.ofNat n.toNat) else none
  | _ => none

/-- A value for a field that may be given once. -/
def once? {α : Type} (read? : Tree → Option α) : Option α → Tree → Option (Option α)
  | none, tree => (read? tree).map some
  | some _, _ => none

/-- The fields with what a member gives; none if it cannot be added. -/
def Fields.note? (f : Fields) (m : String × Tree) : Option Fields :=
  if m.1 = "masterCacheName" then
    (once? master? f.master m.2).map fun master => { f with master := master }
  else if m.1 = "initialCapacity" then
    (once? capacity? f.capacity m.2).map fun capacity => { f with capacity := capacity }
  else some f

/-! ## What the readers make of a member -/

theorem takes_masterReader {tree : Tree} {master : Option String} (h : master? tree = some master) :
    Takes masterReader tree master := by
  cases tree with
  | null =>
    cases h
    exact takes_optional_null _
  | text name =>
    cases h
    exact takes_optional (takes_textOf _ _) (by simp)
  | flag | integer | fraction | list | object => cases h

theorem declines_masterReader {tree : Tree} (h : master? tree = none) :
    Declines masterReader tree := by
  refine declines_optional (declines_textOf _ ?_) ?_
  · rintro name rfl
    cases h
  · rintro rfl
    cases h

theorem takes_capacityReader {tree : Tree} {capacity : UInt64}
    (h : capacity? tree = some capacity) : Takes capacityReader tree capacity := by
  cases tree with
  | integer n =>
    rw [capacity?] at h
    split at h
    · next hn =>
      cases h
      exact (takes_integer (by decide) (by decide) hn).map fun n => UInt64.ofNat n.toNat
    · cases h
  | null | text | flag | fraction | list | object => cases h

theorem declines_capacityReader {tree : Tree} (h : capacity? tree = none) :
    Declines capacityReader tree := by
  by_cases hinteger : ∃ n, tree = .integer n
  · obtain ⟨n, rfl⟩ := hinteger
    rw [capacity?] at h
    split at h
    · cases h
    · next hn => exact (declines_integer hn).map fun n => UInt64.ofNat n.toNat
  · have hdeclines := declines_integer_of_ne .natWord fun n hn => hinteger ⟨n, hn⟩
    exact hdeclines.map fun n => UInt64.ofNat n.toNat

/-- A field is read if it can be given once more. -/
theorem takesMember_field {α : Type} {r : Json.Reader α} {read? : Tree → Option α} {tree : Tree}
    (h : ∀ a, read? tree = some a → Takes r tree a) (name : String) {seen seen' : Option α}
    (honce : once? read? seen tree = some seen') :
    ∃ a, seen' = some a ∧ TakesMember (field name seen r) tree a := by
  cases seen with
  | some a => cases honce
  | none =>
    obtain ⟨a, ha, rfl⟩ := Option.map_eq_some_iff.1 honce
    exact ⟨a, rfl, (h a ha).field name⟩

theorem declinesMember_field {α : Type} {r : Json.Reader α} {read? : Tree → Option α} {tree : Tree}
    (h : read? tree = none → Declines r tree) (name : String) {seen : Option α}
    (honce : once? read? seen tree = none) : DeclinesMember (field name seen r) tree := by
  cases seen with
  | some a => exact declinesMember_field_again name a r tree
  | none => exact (h (Option.map_eq_none_iff.1 honce)).field name

theorem takesMember_addField {f f' : Fields} {key : String} {tree : Tree}
    (h : f.note? (key, tree) = some f') : TakesMember (addField key f) tree f' := by
  unfold Fields.note? at h
  unfold addField
  split at h
  · next hkey =>
    obtain ⟨master, honce, rfl⟩ := Option.map_eq_some_iff.1 h
    obtain ⟨a, rfl, htakes⟩ := takesMember_field (fun _ => takes_masterReader) key honce
    rw [if_pos hkey]
    exact htakes.bind rfl
  · next hkey =>
    rw [if_neg hkey]
    split at h
    · next hkey' =>
      obtain ⟨capacity, honce, rfl⟩ := Option.map_eq_some_iff.1 h
      obtain ⟨a, rfl, htakes⟩ := takesMember_field (fun _ => takes_capacityReader) key honce
      rw [if_pos hkey']
      exact htakes.bind rfl
    · next hkey' =>
      cases h
      rw [if_neg hkey']
      exact (takes_ignored tree).member.bind rfl

theorem declinesMember_addField {f : Fields} {key : String} {tree : Tree}
    (h : f.note? (key, tree) = none) : DeclinesMember (addField key f) tree := by
  unfold Fields.note? at h
  unfold addField
  split at h
  · next hkey =>
    rw [if_pos hkey]
    exact (declinesMember_field declines_masterReader key (Option.map_eq_none_iff.1 h)).bind _
  · next hkey =>
    rw [if_neg hkey]
    split at h
    · next hkey' =>
      rw [if_pos hkey']
      exact (declinesMember_field declines_capacityReader key (Option.map_eq_none_iff.1 h)).bind _
    · cases h

theorem gives_of_foldlM {ms : List (String × Tree)} {f f' : Fields}
    (h : ms.foldlM Fields.note? f = some f') : Gives addField f ms f' := by
  induction ms generalizing f with
  | nil =>
    cases h
    exact .nil _
  | cons m ms ih =>
    rw [List.foldlM_cons] at h
    obtain ⟨f₁, hnote, hrest⟩ := Option.bind_eq_some_iff.1 h
    exact .cons (takesMember_addField hnote) (ih hrest)

theorem fails_of_foldlM {ms : List (String × Tree)} {f : Fields}
    (h : ms.foldlM Fields.note? f = none) : Fails addField f ms := by
  induction ms generalizing f with
  | nil => cases h
  | cons m ms ih =>
    rw [List.foldlM_cons] at h
    cases hnote : f.note? m with
    | none => exact .here ms (declinesMember_addField hnote)
    | some f₁ =>
      rw [hnote] at h
      exact .later (takesMember_addField hnote) (ih h)

/-! ## The two names, each by itself -/

theorem given_cons_self (name : String) (tree : Tree) (ms : List (String × Tree)) :
    given name ((name, tree) :: ms) = tree :: given name ms := by
  simp [given]

theorem given_cons_of_ne {name key : String} (h : key ≠ name) (tree : Tree)
    (ms : List (String × Tree)) : given name ((key, tree) :: ms) = given name ms := by
  simp [given, h]

/-- The members of an object give what the values of the two names give. -/
theorem foldlM_note? (ms : List (String × Tree)) (f : Fields) :
    ms.foldlM Fields.note? f =
      ((given "masterCacheName" ms).foldlM (once? master?) f.master).bind fun master =>
        ((given "initialCapacity" ms).foldlM (once? capacity?) f.capacity).map fun capacity =>
          ⟨master, capacity⟩ := by
  induction ms generalizing f with
  | nil => rfl
  | cons m ms ih =>
    obtain ⟨key, tree⟩ := m
    rw [List.foldlM_cons, Fields.note?]
    by_cases hkey : key = "masterCacheName"
    · subst hkey
      rw [if_pos rfl, given_cons_self, given_cons_of_ne (by decide), List.foldlM_cons]
      cases once? master? f.master tree with
      | none => rfl
      | some master => exact ih _
    · rw [if_neg hkey, given_cons_of_ne hkey]
      by_cases hkey' : key = "initialCapacity"
      · subst hkey'
        rw [if_pos rfl, given_cons_self, List.foldlM_cons]
        cases once? capacity? f.capacity tree with
        | none =>
          cases (given "masterCacheName" ms).foldlM (once? master?) f.master <;> rfl
        | some capacity => exact ih _
      · rw [if_neg hkey', given_cons_of_ne hkey']
        exact ih f

/-- What the value of a name sets; without a value, the default is set. -/
def setBy {α : Type} (read? : Tree → Option α) (missing : α) : List Tree → Option α
  | [] => some missing
  | tree :: _ => read? tree

/-- A name that is given at most once gives what its value sets. -/
theorem getD_foldlM_once? {α : Type} (read? : Tree → Option α) (missing : α) {trees : List Tree}
    (h : trees.length ≤ 1) :
    (trees.foldlM (once? read?) none).map (·.getD missing) = setBy read? missing trees := by
  match trees, h with
  | [], _ => rfl
  | [tree], _ =>
    simp only [List.foldlM_cons, List.foldlM_nil, once?, setBy]
    cases read? tree <;> rfl

/-- A name that is given twice gives nothing. -/
theorem foldlM_once?_of_repeated {α : Type} (read? : Tree → Option α) {trees : List Tree}
    (h : 1 < trees.length) : trees.foldlM (once? read?) none = none := by
  match trees, h with
  | tree :: tree' :: trees, _ =>
    rw [List.foldlM_cons]
    cases hread : read? tree with
    | none => simp [once?, hread]
    | some a => simp [once?, hread]

/-! ## Settings as they are read -/

/-- An object is read as the settings that its members give. -/
theorem ofJson_of_foldlM {ms : List (String × Tree)} {document : List UInt8} {f : Fields}
    (hdocument : IsDocument (.object ms) document)
    (h : ms.foldlM Fields.note? ⟨none, none⟩ = some f) : ofJson document = .ok f.settings := by
  have htakes : Takes reader (.object ms) f.settings :=
    takes_record (f := fun f : Fields => pure f.settings) (gives_of_foldlM h) rfl _ _
  exact htakes.document hdocument false

/-- An object of which a member is declined is refused. -/
theorem ofJson_of_foldlM_none {ms : List (String × Tree)} {document : List UInt8}
    (hdocument : IsDocument (.object ms) document)
    (h : ms.foldlM Fields.note? ⟨none, none⟩ = none) : ∃ e, ofJson document = .error e := by
  have hdeclines : Declines reader (.object ms) :=
    declines_record (fails_of_foldlM h) _ _ _
  exact hdeclines.document hdocument false

/-- What settings say in JSON. -/
def members (s : Settings) : List (String × Tree) :=
  [("masterCacheName", s.master.elim .null .text), ("initialCapacity", .integer s.capacity.toNat)]

theorem spells_toJson (s : Settings) : Spells (.value (.object s.members)) s.toJson := by
  refine Json.spells_writeObject (.cons ⟨rfl, ?_⟩ (.cons ⟨rfl, ?_⟩ .nil))
  · exact Json.spells_writeOptional Json.spells_write s.master
  · exact Json.spells_ofNat s.capacity.toNat

theorem master?_members (s : Settings) : master? (s.master.elim .null .text) = some s.master := by
  cases s.master <;> rfl

theorem capacity?_toNat (n : UInt64) : capacity? (.integer n.toNat) = some n := by
  have hholds : IntegerType.natWord.Holds n.toNat := by
    have hlt := n.toNat_lt
    simp only [IntegerType.Holds, IntegerType.natWord]
    omega
  rw [capacity?, if_pos hholds, Int.toNat_natCast, UInt64.ofNat_toNat]

/-- Settings that were written are read back. -/
theorem ofJson_toJson (s : Settings) : ofJson s.toJson = .ok s := by
  have hdocument := Json.isDocument_of_spells (spells_toJson s)
  have hfields : s.members.foldlM Fields.note? ⟨none, none⟩ =
      some ⟨some s.master, some s.capacity⟩ := by
    rw [foldlM_note?]
    simp [members, given, once?, master?_members, capacity?_toNat]
  exact ofJson_of_foldlM hdocument hfields

/-! ## Exactly when settings are read -/

theorem capacity?_eq_some_iff (tree : Tree) (capacity : UInt64) :
    capacity? tree = some capacity ↔ tree = .integer capacity.toNat := by
  constructor
  · intro h
    cases tree with
    | integer n =>
      rw [capacity?] at h
      split at h
      · next hn =>
        cases h
        obtain ⟨hlow, hhigh⟩ := hn
        simp only [IntegerType.natWord] at hlow hhigh
        rw [UInt64.toNat_ofNat_of_lt' (show n.toNat < 0x10000000000000000 by omega),
          Int.toNat_of_nonneg hlow]
      · cases h
    | _ => cases h
  · rintro rfl
    exact capacity?_toNat capacity

theorem exists_master?_iff (tree : Tree) :
    (∃ master, master? tree = some master) ↔ tree = .null ∨ ∃ name, tree = .text name := by
  cases tree <;> simp [master?]

theorem exists_capacity?_iff (tree : Tree) :
    (∃ capacity, capacity? tree = some capacity) ↔
      ∃ n : Int, tree = .integer n ∧ 0 ≤ n ∧ n ≤ 0xFFFFFFFFFFFFFFFF := by
  constructor
  · rintro ⟨capacity, hcapacity⟩
    refine ⟨capacity.toNat, (capacity?_eq_some_iff _ _).1 hcapacity, ?_⟩
    have hlt := capacity.toNat_lt
    omega
  · rintro ⟨n, rfl, hn⟩
    exact ⟨_, if_pos hn⟩

/-- An object that gives each of the two names at most once is read as the settings that their
values set, and as no others. -/
theorem ofJson_eq_ok_iff {ms : List (String × Tree)} {document : List UInt8}
    (hdocument : IsDocument (.object ms) document)
    (hmaster : (given "masterCacheName" ms).length ≤ 1)
    (hcapacity : (given "initialCapacity" ms).length ≤ 1) (s : Settings) :
    ofJson document = .ok s ↔
      setBy master? default.master (given "masterCacheName" ms) = some s.master ∧
        setBy capacity? default.capacity (given "initialCapacity" ms) = some s.capacity := by
  have hfields := foldlM_note? ms ⟨none, none⟩
  rw [← getD_foldlM_once? master? default.master hmaster,
    ← getD_foldlM_once? capacity? default.capacity hcapacity]
  have hrefused : ms.foldlM Fields.note? ⟨none, none⟩ = none → ofJson document ≠ .ok s := by
    intro hnone hok
    obtain ⟨e, he⟩ := ofJson_of_foldlM_none hdocument hnone
    rw [he] at hok
    cases hok
  cases hm : (given "masterCacheName" ms).foldlM (once? master?) none with
  | none =>
    rw [hm] at hfields
    exact iff_of_false (hrefused hfields) (by simp)
  | some master =>
    rw [hm] at hfields
    cases hc : (given "initialCapacity" ms).foldlM (once? capacity?) none with
    | none =>
      rw [hc] at hfields
      exact iff_of_false (hrefused hfields) (by simp)
    | some capacity =>
      rw [hc] at hfields
      rw [ofJson_of_foldlM hdocument hfields]
      obtain ⟨m, c⟩ := s
      simp [Fields.settings]

/-- An object that gives one of the two names twice is refused. -/
theorem ofJson_of_repeated {ms : List (String × Tree)} {document : List UInt8}
    (hdocument : IsDocument (.object ms) document)
    (h : 1 < (given "masterCacheName" ms).length ∨ 1 < (given "initialCapacity" ms).length) :
    ∃ e, ofJson document = .error e := by
  refine ofJson_of_foldlM_none hdocument ?_
  rw [foldlM_note?]
  rcases h with h | h
  · rw [foldlM_once?_of_repeated master? h]
    rfl
  · rw [foldlM_once?_of_repeated capacity? h]
    cases (given "masterCacheName" ms).foldlM (once? master?) none <;> rfl

/-- A name that is given at most once sets something if its value, when there is one, is of the
right kind. -/
theorem exists_setBy_iff {α : Type} (read? : Tree → Option α) (missing : α) {trees : List Tree}
    (h : trees.length ≤ 1) :
    (∃ a, setBy read? missing trees = some a) ↔ ∀ tree ∈ trees, ∃ a, read? tree = some a := by
  match trees, h with
  | [], _ => simp [setBy]
  | [tree], _ => simp [setBy]

/-- Settings are read back from their JSON. Of an object that has each of the two names at most
once, whatever its spelling and its other members, settings are read exactly when the value for the
master store is a text or null and the size hint is an integer that fits; they hold these values,
and the defaults for a name that is missing. An object that has one of the names twice is refused.

To the parser `-0` is a floating-point number, as `0.0` and `1e3` are, and none of them is an
integer. -/
theorem read_by_the_two_names :
    (∀ s : Settings, ofJson s.toJson = .ok s) ∧
      ∀ {ms : List (String × Tree)} {document : List UInt8}, IsDocument (.object ms) document →
        ((given "masterCacheName" ms).length ≤ 1 → (given "initialCapacity" ms).length ≤ 1 →
          ((∃ s, ofJson document = .ok s) ↔
            (∀ tree ∈ given "masterCacheName" ms, tree = .null ∨ ∃ name, tree = .text name) ∧
              ∀ tree ∈ given "initialCapacity" ms,
                ∃ n : Int, tree = .integer n ∧ 0 ≤ n ∧ n ≤ 0xFFFFFFFFFFFFFFFF) ∧
          ∀ s, ofJson document = .ok s →
            (given "masterCacheName" ms = [] → s.master = default.master) ∧
            (given "masterCacheName" ms = [.null] → s.master = none) ∧
            (∀ name, given "masterCacheName" ms = [.text name] → s.master = some name) ∧
            (given "initialCapacity" ms = [] → s.capacity = default.capacity) ∧
            ∀ n : Int, given "initialCapacity" ms = [.integer n] → s.capacity.toNat = n) ∧
        (1 < (given "masterCacheName" ms).length ∨ 1 < (given "initialCapacity" ms).length →
          ∃ e, (ofJson document).mapError Failure.settings = .error (.settings e)) := by
  refine ⟨ofJson_toJson, fun {ms document} hdocument => ⟨fun hmaster hcapacity => ⟨?_, ?_⟩, ?_⟩⟩
  · have hkinds : (∃ s, ofJson document = .ok s) ↔
        (∃ master, setBy master? default.master (given "masterCacheName" ms) = some master) ∧
          ∃ capacity,
            setBy capacity? default.capacity (given "initialCapacity" ms) = some capacity := by
      simp only [ofJson_eq_ok_iff hdocument hmaster hcapacity]
      constructor
      · rintro ⟨s, hm, hc⟩
        exact ⟨⟨s.master, hm⟩, s.capacity, hc⟩
      · rintro ⟨⟨master, hm⟩, capacity, hc⟩
        exact ⟨⟨master, capacity⟩, hm, hc⟩
    rw [hkinds, exists_setBy_iff master? _ hmaster, exists_setBy_iff capacity? _ hcapacity]
    refine and_congr (forall₂_congr fun tree _ => ?_) (forall₂_congr fun tree _ => ?_)
    · exact exists_master?_iff tree
    · exact exists_capacity?_iff tree
  · intro s hs
    obtain ⟨hm, hc⟩ := (ofJson_eq_ok_iff hdocument hmaster hcapacity s).1 hs
    refine ⟨fun hnone => ?_, fun hnull => ?_, fun name hname => ?_, fun hnone => ?_, fun n hn => ?_⟩
    · rw [hnone] at hm
      exact (Option.some.inj hm).symm
    · rw [hnull] at hm
      exact (Option.some.inj hm).symm
    · rw [hname] at hm
      exact (Option.some.inj hm).symm
    · rw [hnone] at hc
      exact (Option.some.inj hc).symm
    · rw [hn] at hc
      exact (Tree.integer.inj ((capacity?_eq_some_iff _ _).1 hc)).symm
  · intro hrepeated
    obtain ⟨e, he⟩ := ofJson_of_repeated hdocument hrepeated
    exact ⟨e, by rw [he]; rfl⟩

/-- A member with another name is passed over; a size hint given twice is refused. -/
theorem read_behind_another_name :
    ofJson (Json.writeObject [("other", Json.writeSequence [Digits.ofNat 1, Json.Text.write "a"]),
      ("initialCapacity", Digits.ofNat 8)]) = .ok ⟨none, 8⟩ ∧
    ∃ e, (ofJson (Json.writeObject [("initialCapacity", Digits.ofNat 8),
      ("initialCapacity", Digits.ofNat 8)])).mapError Failure.settings = .error (.settings e) := by
  have height : Spells (.value (.integer 8)) (Digits.ofNat 8) := Json.spells_ofNat 8
  have hlist : Spells (.value (.list [.integer 1, .text "a"]))
      (Json.writeSequence [Digits.ofNat 1, Json.Text.write "a"]) :=
    Json.spells_writeSequence (.cons (Json.spells_ofNat 1) (.cons (Json.spells_write "a") .nil))
  have hother : Spells (.value (.object [("other", .list [.integer 1, .text "a"]),
        ("initialCapacity", .integer 8)]))
      (Json.writeObject [("other", Json.writeSequence [Digits.ofNat 1, Json.Text.write "a"]),
        ("initialCapacity", Digits.ofNat 8)]) :=
    Json.spells_writeObject (.cons ⟨rfl, hlist⟩ (.cons ⟨rfl, height⟩ .nil))
  have htwice : Spells (.value (.object [("initialCapacity", .integer 8),
        ("initialCapacity", .integer 8)]))
      (Json.writeObject
        [("initialCapacity", Digits.ofNat 8), ("initialCapacity", Digits.ofNat 8)]) :=
    Json.spells_writeObject (.cons ⟨rfl, height⟩ (.cons ⟨rfl, height⟩ .nil))
  refine ⟨?_, (read_by_the_two_names.2 (Json.isDocument_of_spells htwice)).2 (.inr (by decide))⟩
  obtain ⟨hread, hfields⟩ :=
    (read_by_the_two_names.2 (Json.isDocument_of_spells hother)).1 (by decide) (by decide)
  obtain ⟨⟨master, capacity⟩, hs⟩ := hread.2 ⟨by simp [given], by simp [given]⟩
  obtain ⟨hmaster, -, -, -, hcapacity⟩ := hfields _ hs
  obtain rfl : master = none := hmaster rfl
  obtain rfl : capacity = 8 := UInt64.toNat_inj.1 (Int.ofNat.inj (hcapacity 8 rfl))
  exact hs

end LeaseCache.Settings
