import LeaseCache.Proofs.BinaryCodes
import LeaseCache.Proofs.FolderSpec
import LeaseCache.Proofs.JsonSkipping

/-!
# Values are read back

A value of any type is read back from what is written for it, in JSON and in the binary format. For
JSON, what is written is a spelling of what the value says (`Value.tree`), and the reader of its
type takes that in any spelling. For the binary format, what is written is a code: bytes after it
are left alone, and a proper beginning of it is too short to be read at all. So an entry file that
was cut off is never taken for another value.

Lengths are written in eight bytes, and a text of a length that no memory holds is refused; values
that memory holds are `Value.FitsMemory`.
-/

namespace LeaseCache

open Json (Tree Spells)

/-! ## JSON -/

/-- What a record says. -/
def Record.tree (r : Record) : Tree :=
  .object [("name", .text r.name), ("size", .integer r.size.toNat),
    ("parent", r.parent.elim .null fun n => .integer n.toInt)]

/-- What an outcome says. -/
def Outcome.tree : Outcome → Tree
  | .upToDate => .text "UpToDate"
  | .executed n => .object [("Executed", .object [("millis", .integer n.toNat)])]
  | .failed s => .object [("Failed", .text s)]
  | .range a b => .object [("Range", .list [.integer a.toInt, .integer b.toInt])]

/-- What a value says. -/
def Value.tree : Value → Tree
  | .string s => .text s
  | .u8 n => .integer n.toNat
  | .i32 n => .integer n.toInt
  | .u32 n => .integer n.toNat
  | .i64 n => .integer n.toInt
  | .u64 n => .integer n.toNat
  | .bool b => .flag b
  | .opt n => n.elim .null fun n => .integer n.toNat
  | .bytes bs => .list (bs.map fun b => .integer b.toNat)
  | .strings ss => .list (ss.map .text)
  | .map m => .object (m.pairs.map fun p => (p.1, .integer p.2.toNat))
  | .record r => r.tree
  | .outcome o => o.tree

/-- Elements of a list are written as elements of a list. -/
theorem spells_map {α : Type} {tree : α → Tree} {write : α → List UInt8}
    (h : ∀ a, Spells (.value (tree a)) (write a)) (as : List α) :
    Spells (.value (.list (as.map tree))) (Json.writeSequence (as.map write)) := by
  refine Json.spells_writeSequence ?_
  induction as with
  | nil => exact .nil
  | cons a as ih => exact .cons (h a) ih

theorem Record.spells (r : Record) : Spells (.value r.tree) (Json.writeObject r.members) := by
  refine Json.spells_writeObject (.cons ⟨rfl, ?_⟩ (.cons ⟨rfl, ?_⟩ (.cons ⟨rfl, ?_⟩ .nil)))
  · exact Json.spells_write r.name
  · exact Json.spells_ofNat r.size.toNat
  · exact Json.spells_writeOptional (fun n : Int32 => Json.spells_ofInt n.toInt) r.parent

theorem Outcome.spells (o : Outcome) : Spells (.value o.tree) o.toJson := by
  cases o with
  | upToDate => exact Json.spells_write "UpToDate"
  | executed n =>
    exact Json.spells_writeObject (.cons ⟨rfl,
      Json.spells_writeObject (.cons ⟨rfl, Json.spells_ofNat n.toNat⟩ .nil)⟩ .nil)
  | failed s => exact Json.spells_writeObject (.cons ⟨rfl, Json.spells_write s⟩ .nil)
  | range a b =>
    exact Json.spells_writeObject (.cons ⟨rfl, Json.spells_writeSequence
      (.cons (Json.spells_ofInt a.toInt) (.cons (Json.spells_ofInt b.toInt) .nil))⟩ .nil)

/-- A value is written as a spelling of what it says. -/
theorem Value.spells (v : Value) : Spells (.value v.tree) v.toJson := by
  cases v with
  | string s => exact Json.spells_write s
  | u8 n => exact Json.spells_ofNat n.toNat
  | i32 n => exact Json.spells_ofInt n.toInt
  | u32 n => exact Json.spells_ofNat n.toNat
  | i64 n => exact Json.spells_ofInt n.toInt
  | u64 n => exact Json.spells_ofNat n.toNat
  | bool b => exact Json.spells_writeFlag b
  | opt n => exact Json.spells_writeOptional (fun n : UInt32 => Json.spells_ofNat n.toNat) n
  | bytes bs => exact spells_map (fun b : UInt8 => Json.spells_ofNat b.toNat) bs
  | strings ss => exact spells_map Json.spells_write ss
  | map m =>
    refine Json.spells_writeObject ?_
    induction m.pairs with
    | nil => exact .nil
    | cons p pairs ih => exact .cons ⟨rfl, Json.spells_ofNat p.2.toNat⟩ ih
  | record r => exact r.spells
  | outcome o => exact o.spells

namespace Json.Reader

/-! ### Integers -/

/-- An integer of a type is read as what is made of it. -/
theorem takes_as {α : Type} {t : IntegerType} {n : Int} {a : α} (hleast : -maxNegative ≤ t.least)
    (hgreatest : t.greatest ≤ maxSignificand) (hholds : t.least ≤ n ∧ n ≤ t.greatest) (f : Int → α)
    (hf : f n = a) : Takes (do return f (← integer t)) (.integer n) a := by
  rw [← hf]
  exact (takes_integer hleast hgreatest hholds).map f

theorem takes_nat8 (n : UInt8) : Takes nat8 (.integer n.toNat) n := by
  have hlt := n.toNat_lt
  refine takes_as (by decide) (by decide) ?_ _ (by simp)
  simp only [IntegerType.nat8]
  omega

theorem takes_nat32 (n : UInt32) : Takes nat32 (.integer n.toNat) n := by
  have hlt := n.toNat_lt
  refine takes_as (by decide) (by decide) ?_ _ (by simp)
  simp only [IntegerType.nat32]
  omega

theorem takes_nat64 (n : UInt64) : Takes nat64 (.integer n.toNat) n := by
  have hlt := n.toNat_lt
  refine takes_as (by decide) (by decide) ?_ _ (by simp)
  simp only [IntegerType.nat64]
  omega

theorem takes_int32 (n : Int32) : Takes int32 (.integer n.toInt) n := by
  have hlow := n.le_toInt
  have hhigh := n.toInt_lt
  refine takes_as (by decide) (by decide) ?_ _ (Int32.ofInt_toInt n)
  simp only [IntegerType.int32]
  omega

theorem takes_int64 (n : Int64) : Takes int64 (.integer n.toInt) n := by
  have hlow := n.le_toInt
  have hhigh := n.toInt_lt
  refine takes_as (by decide) (by decide) ?_ _ (Int64.ofInt_toInt n)
  simp only [IntegerType.int64]
  omega

theorem takes_optional_elim {α : Type} {r : Reader α} {tree : α → Tree}
    (h : ∀ a, Takes r (tree a) a) (hne : ∀ a, tree a ≠ .null) (a? : Option α) :
    Takes (optional r) (a?.elim .null tree) a? := by
  cases a? with
  | none => exact takes_optional_null r
  | some a => exact takes_optional (h a) (hne a)

theorem takes_elements_map {α : Type} {r : Reader α} {tree : α → Tree} (h : ∀ a, Takes r (tree a) a)
    (as : List α) (expected : String) :
    Takes (sequence expected (elements r)) (.list (as.map tree)) as :=
  takes_elements (List.forall₂_map_left_iff.2 (List.forall₂_same.2 fun a _ => h a)) expected

end Json.Reader

/-! ### Maps -/

namespace SortedMap

variable {α : Type}

/-- A key behind all others is added at the end. -/
theorem insertPair_of_last {key : String} {a : α} {pairs : List (String × α)}
    (h : ∀ p ∈ pairs, p.1 < key) : insertPair key a pairs = pairs ++ [(key, a)] := by
  induction pairs with
  | nil => rfl
  | cons p pairs ih =>
    have hp := h p List.mem_cons_self
    rw [insertPair, if_neg (String.lt_asymm hp), if_neg (fun he => String.lt_irrefl _ (he ▸ hp)),
      ih fun q hq => h q (List.mem_cons_of_mem p hq), List.cons_append]

theorem pairs_foldl_insert {m : SortedMap α} {pairs : List (String × α)}
    (h : (m.pairs ++ pairs).Pairwise fun p q => p.1 < q.1) :
    (pairs.foldl (fun m p => m.insert p.1 p.2) m).pairs = m.pairs ++ pairs := by
  induction pairs generalizing m with
  | nil => simp
  | cons p pairs ih =>
    have hlast : (m.insert p.1 p.2).pairs = m.pairs ++ [p] :=
      insertPair_of_last fun q hq => (List.pairwise_append.1 h).2.2 q hq p List.mem_cons_self
    rw [List.foldl_cons, ih (by rw [hlast, List.append_assoc]; exact h), hlast, List.append_assoc]
    rfl

/-- A map is made again from its pairs. -/
theorem ofList_pairs (m : SortedMap α) : ofList m.pairs = m := by
  have hpairs : (ofList m.pairs).pairs = m.pairs := pairs_foldl_insert (m := empty) m.sorted
  obtain ⟨pairs, sorted⟩ := m
  simp only [ofList] at hpairs ⊢
  generalize (pairs.foldl (fun m p => m.insert p.1 p.2) empty) = m at hpairs
  obtain ⟨pairs', sorted'⟩ := m
  subst hpairs
  rfl

end SortedMap

namespace Json.Reader

theorem takes_sortedMap (m : SortedMap UInt64) :
    Takes sortedMap (.object (m.pairs.map fun p => (p.1, .integer p.2.toNat))) m := by
  have hgives : ∀ (pairs : List (String × UInt64)) (m : SortedMap UInt64),
      Gives (fun key m => do return m.insert key (← memberValue nat64)) m
        (pairs.map fun p => (p.1, .integer p.2.toNat))
        (pairs.foldl (fun m p => m.insert p.1 p.2) m) := by
    intro pairs
    induction pairs with
    | nil => exact fun m => .nil m
    | cons p pairs ih => exact fun m => .cons ((takes_nat64 p.2).member.bind rfl) (ih _)
  have hmap := takes_map (hgives m.pairs .empty) "a map"
  rwa [show m.pairs.foldl (fun m p => m.insert p.1 p.2) .empty = m from m.ofList_pairs] at hmap

end Json.Reader

open Json.Reader

/-! ### Records and outcomes -/

theorem Record.takes (r : Record) : Takes Record.reader r.tree r := by
  have hname : TakesMember (addField "name" ⟨none, none, none⟩) (.text r.name)
      ⟨some r.name, none, none⟩ := by
    rw [addField, if_pos rfl]
    exact ((takes_textOf _ r.name).field "name").bind rfl
  have hsize : TakesMember (addField "size" ⟨some r.name, none, none⟩) (.integer r.size.toNat)
      ⟨some r.name, some r.size, none⟩ := by
    rw [addField, if_neg (by decide), if_pos rfl]
    exact ((takes_nat64 r.size).field "size").bind rfl
  have hparent : TakesMember (addField "parent" ⟨some r.name, some r.size, none⟩)
      (r.parent.elim .null fun n => .integer n.toInt)
      ⟨some r.name, some r.size, some r.parent⟩ := by
    rw [addField, if_neg (by decide), if_neg (by decide), if_pos rfl]
    exact ((takes_optional_elim takes_int32 (by simp) r.parent).field "parent").bind rfl
  refine takes_record (.cons hname (.cons hsize (.cons hparent (.nil _)))) ?_ _ _
  rfl

theorem Outcome.takes_executed (n : UInt64) :
    Takes (contentReader "Executed") (.object [("millis", .integer n.toNat)]) (.executed n) := by
  have hmillis : TakesMember (addMillis "millis" none) (.integer n.toNat) (some n) := by
    rw [addMillis, if_pos rfl]
    exact ((takes_nat64 n).field "millis").bind rfl
  refine takes_record (.cons hmillis (.nil _)) ?_ _ _
  rfl

theorem Outcome.takes (o : Outcome) : Takes Outcome.reader o.tree o := by
  cases o with
  | upToDate => exact takes_choice_bare (by decide) rfl
  | executed n => exact takes_choice (by decide) (takes_executed n)
  | failed s =>
    have hcontent : Takes (contentReader "Failed") (.text s) (.failed s) :=
      (takes_textOf _ s).map Outcome.failed
    exact takes_choice (by decide) hcontent
  | range a b =>
    have hcontent : Takes (contentReader "Range") (.list [.integer a.toInt, .integer b.toInt])
        (.range a b) :=
      takes_pair (takes_int32 a) (takes_int32 b) Outcome.range _ _
    exact takes_choice (by decide) hcontent

/-- The reader of a value's type takes what the value says, however it is spelled. -/
theorem Value.takes (v : Value) : Takes (Value.reader v.type) v.tree v := by
  cases v with
  | string s => exact (takes_textOf _ s).map Value.string
  | u8 n => exact (takes_nat8 n).map Value.u8
  | i32 n => exact (takes_int32 n).map Value.i32
  | u32 n => exact (takes_nat32 n).map Value.u32
  | i64 n => exact (takes_int64 n).map Value.i64
  | u64 n => exact (takes_nat64 n).map Value.u64
  | bool b => exact (takes_flag b).map Value.bool
  | opt n => exact (takes_optional_elim takes_nat32 (by simp) n).map Value.opt
  | bytes bs => exact (takes_elements_map takes_nat8 bs _).map Value.bytes
  | strings ss => exact (takes_elements_map (takes_textOf _) ss _).map Value.strings
  | map m => exact (takes_sortedMap m).map Value.map
  | record r => exact r.takes.map Value.record
  | outcome o => exact o.takes.map Value.outcome

theorem Value.ofJson_toJson (v : Value) : Value.ofJson v.type v.toJson = .ok v :=
  v.takes.document (Json.isDocument_of_spells v.spells) true

/-! ## The binary format -/

open Binary.Reader (Codes codes_number codes_flag codes_text codes_optional codes_sequence
  lengthLimit)

/-- A text of a length that memory can have. -/
def FitsMemory (s : String) : Prop := (Utf8.ofString s).length < lengthLimit

/-- A value that memory can hold: no length in it is beyond all memory. -/
def Value.FitsMemory : Value → Prop
  | .string s => LeaseCache.FitsMemory s
  | .bytes bs => bs.length < lengthLimit
  | .strings ss => ss.length < lengthLimit ∧ ∀ s ∈ ss, LeaseCache.FitsMemory s
  | .map m => m.pairs.length < lengthLimit ∧ ∀ p ∈ m.pairs, LeaseCache.FitsMemory p.1
  | .record r => LeaseCache.FitsMemory r.name
  | .outcome (.failed s) => LeaseCache.FitsMemory s
  | _ => True

namespace Binary.Reader

theorem codes_nat8 (n : UInt8) : Codes nat8 (Binary.number 1 n.toNat) n := by
  have hcodes := (codes_number 1 n.toNat n.toNat_lt).map UInt8.ofNat
  rwa [UInt8.ofNat_toNat] at hcodes

theorem codes_nat32 (n : UInt32) : Codes nat32 (Binary.number 4 n.toNat) n := by
  have hcodes := (codes_number 4 n.toNat n.toNat_lt).map UInt32.ofNat
  rwa [UInt32.ofNat_toNat] at hcodes

theorem codes_nat64 (n : UInt64) : Codes nat64 (Binary.number 8 n.toNat) n := by
  have hcodes := (codes_number 8 n.toNat n.toNat_lt).map UInt64.ofNat
  rwa [UInt64.ofNat_toNat] at hcodes

theorem codes_int32 (n : Int32) : Codes int32 (Binary.int32 n) n :=
  (codes_nat32 n.toUInt32).map UInt32.toInt32

theorem codes_int64 (n : Int64) : Codes int64 (Binary.number 8 n.toUInt64.toNat) n :=
  (codes_nat64 n.toUInt64).map UInt64.toInt64

theorem codes_pair {p : String × UInt64} (h : FitsMemory p.1) : Codes pair (Binary.pair p) p := by
  refine (codes_text h).bind ?_
  exact (codes_nat64 p.2).map fun n => (p.1, n)

end Binary.Reader

open Binary.Reader (codes_nat8 codes_nat32 codes_nat64 codes_int32 codes_int64 codes_pair)

theorem Record.codes {r : Record} (h : FitsMemory r.name) :
    Codes Record.binaryReader r.toBinary r := by
  rw [Record.toBinary, List.append_assoc]
  refine (codes_text h).bind ((codes_nat64 r.size).bind ?_)
  exact (codes_optional fun n _ => codes_int32 n).map (Record.mk r.name r.size)

theorem Outcome.codes {o : Outcome} (h : (Value.outcome o).FitsMemory) :
    Codes Outcome.binaryReader o.toBinary o := by
  cases o with
  | upToDate => exact (codes_number 4 0 (by decide)).bind_pure rfl
  | executed n =>
    exact (codes_number 4 1 (by decide)).bind ((codes_nat64 n).map Outcome.executed)
  | failed s =>
    exact (codes_number 4 2 (by decide)).bind ((codes_text h).map Outcome.failed)
  | range a b =>
    rw [Outcome.toBinary, List.append_assoc]
    exact (codes_number 4 3 (by decide)).bind
      ((codes_int32 a).bind ((codes_int32 b).map (Outcome.range a)))

/-- What is written for a value is a code of it. -/
theorem Value.codes {v : Value} (h : v.FitsMemory) :
    Codes (Value.binaryReader v.type) v.toBinary v := by
  cases v with
  | string s => exact (codes_text h).map Value.string
  | u8 n => exact (codes_nat8 n).map Value.u8
  | i32 n => exact (codes_int32 n).map Value.i32
  | u32 n => exact (codes_nat32 n).map Value.u32
  | i64 n => exact (codes_int64 n).map Value.i64
  | u64 n => exact (codes_nat64 n).map Value.u64
  | bool b => exact (codes_flag b).map Value.bool
  | opt n => exact (codes_optional fun n _ => codes_nat32 n).map Value.opt
  | bytes bs => exact (codes_sequence h fun b _ => codes_nat8 b).map Value.bytes
  | strings ss => exact (codes_sequence h.1 fun s hs => codes_text (h.2 s hs)).map Value.strings
  | map m =>
    have hpairs := codes_sequence h.1 fun p hp => codes_pair (h.2 p hp)
    have hmap := hpairs.map fun pairs => Value.map (.ofList pairs)
    rwa [m.ofList_pairs] at hmap
  | record r => exact (Record.codes h).map Value.record
  | outcome o => exact (Outcome.codes h).map Value.outcome

/-! ## Formats and folders -/

namespace Format

theorem decode_json_encode (v : Value) :
    Format.json.decode v.type (Format.json.encode v) = .ok v := by
  show (Value.ofJson v.type v.toJson).mapError StoreError.json = .ok v
  rw [v.ofJson_toJson]
  rfl

theorem decode_binary_encode {v : Value} (h : v.FitsMemory) (more : List UInt8) :
    Format.binary.decode v.type (Format.binary.encode v ++ more) = .ok v := by
  show (Value.ofBinary v.type (v.toBinary ++ more)).mapError StoreError.binary = .ok v
  rw [Value.ofBinary, Binary.Reader.decode_of_codes (Value.codes h) more]
  rfl

theorem decode_binary_prefix {v : Value} (h : v.FitsMemory) {front : List UInt8}
    (hfront : front <+: Format.binary.encode v) (hne : front ≠ Format.binary.encode v) :
    Format.binary.decode v.type front = .error (.binary .short) := by
  show (Value.ofBinary v.type front).mapError StoreError.binary = .error (.binary .short)
  rw [Value.ofBinary, Binary.Reader.decode_of_prefix (Value.codes h) hfront hne]
  rfl

theorem decode_encode {format : Format} {v : Value} (h : format = .json ∨ v.FitsMemory) :
    format.decode v.type (format.encode v) = .ok v := by
  cases format with
  | json => exact decode_json_encode v
  | binary =>
    have hread := decode_binary_encode (h.resolve_left nofun) []
    rwa [List.append_nil] at hread

/-- A value is read back from what either format writes for it; in the binary format, also in front
of other bytes, while every proper beginning of what is written is refused as too short. So a folder
answers for an entry file with the value that was written to it, and refuses a binary one that was
cut off anywhere. -/
theorem values_are_read_back (v : Value) :
    Format.json.decode v.type (Format.json.encode v) = .ok v ∧
    (v.FitsMemory →
      (∀ more, Format.binary.decode v.type (Format.binary.encode v ++ more) = .ok v) ∧
      ∀ front, front <+: Format.binary.encode v → front ≠ Format.binary.encode v →
        Format.binary.decode v.type front = .error (.binary .short)) ∧
    ∀ {folder : EntryFolder} {k : Key} {name : List UInt8} {fs : FileSystem} {parent : Location},
      folder.type = v.type → fs.Leads folder.directory parent → folder.Stores k name →
        (folder.format = .json ∨ v.FitsMemory →
          fs.content? (parent ++ [name]) = some (.file (folder.format.encode v)) →
            folder.get k fs = (.ok (some v), fs)) ∧
        (folder.format = .binary → v.FitsMemory → ∀ front, front <+: Format.binary.encode v →
          front ≠ Format.binary.encode v → fs.content? (parent ++ [name]) = some (.file front) →
            folder.get k fs = (.error (.binary .short), fs)) := by
  refine ⟨decode_json_encode v, fun hv => ⟨decode_binary_encode hv, fun front hfront hne =>
    decode_binary_prefix hv hfront hne⟩, ?_⟩
  intro folder k name fs parent htype hl hs
  have hget := EntryFolder.get_of_stores hl hs
  constructor
  · intro hv hcontent
    rw [hget, hcontent, EntryFolder.read, htype, decode_encode hv]
    rfl
  · intro hformat hv front hfront hne hcontent
    rw [hget, hcontent, EntryFolder.read, htype, hformat, decode_binary_prefix hv hfront hne]
    rfl

end Format

/-- A tree with one file in its root. -/
def FileSystem.holding (name bytes : List UInt8) : FileSystem where
  nodes := (Table.empty.insert [] ⟨.directory, .tick 0⟩).insert [name] ⟨.file bytes, .tick 1⟩
  home := []
  clock := 2
  source := .ofNat

/-- Of a text of two letters, the entry with one more byte is read, and the one that lost its last
letter is refused. -/
theorem Format.cut_off_text_is_refused :
    (Value.string "ab").FitsMemory ∧
    Format.binary.decode .string [2, 0, 0, 0, 0, 0, 0, 0, 0x61, 0x62, 0x63] = .ok (.string "ab") ∧
    ∃ name, (Key.integer 7).fileName = .ok name ∧
      EntryFolder.get ⟨Path.ofString "/", .binary, .string⟩ (.integer 7)
        (.holding name [2, 0, 0, 0, 0, 0, 0, 0, 0x61]) =
          (.error (.binary .short), .holding name [2, 0, 0, 0, 0, 0, 0, 0, 0x61]) := by
  have hv : (Value.string "ab").FitsMemory := by
    show (Utf8.ofString "ab").length < lengthLimit
    decide
  obtain ⟨-, hbinary, hfolder⟩ := values_are_read_back (.string "ab")
  refine ⟨hv, (hbinary hv).1 [0x63],
    Hex.encode (Key.tagged "Integer" (Digits.ofInt 7)) ++ Key.entryExtension, rfl, ?_⟩
  have hstores : EntryFolder.Stores ⟨Path.ofString "/", .binary, .string⟩ (.integer 7)
      (Hex.encode (Key.tagged "Integer" (Digits.ofInt 7)) ++ Key.entryExtension) :=
    ⟨rfl, by decide, rfl⟩
  refine (@hfolder _ _ _ _ [] rfl ⟨rfl, rfl⟩ hstores).2 rfl hv
    [2, 0, 0, 0, 0, 0, 0, 0, 0x61] ?_ ?_ rfl
  · exact ⟨[0x62], rfl⟩
  · decide

end LeaseCache
