import LeaseCache.Proofs.EntryNames
import LeaseCache.Value.Json
import Mathlib.Data.List.Forall2

/-!
# JSON texts

Which bytes are a JSON text, and what the text says, apart from any reader: `Spells` relates what is
said, a `Tree`, to its spellings. A tree has many of them. Blanks stand between tokens, characters
can be escaped in several ways, and of a fraction the tree keeps nothing but that it is one.

Whatever the library writes is a spelling, of the tree that one expects: `spells_write` for texts,
`spells_ofInt` for integers, `spells_writeSequence` and `spells_writeObject` for what holds others.
-/

namespace LeaseCache.Json

open Digits (isDigit)

/-- What a JSON text says. -/
inductive Tree where
  | null
  | flag (value : Bool)
  | integer (value : Int)
  /-- A number with decimals or an exponent, or a zero after a minus sign: it is no integer. -/
  | fraction
  | text (value : String)
  | list (items : List Tree)
  | object (members : List (String × Tree))

/-! ## Tokens -/

/-- Bytes that may stand between tokens. -/
def Blank (bytes : List UInt8) : Prop :=
  ∀ b ∈ bytes, b = 0x20 ∨ b = 0x09 ∨ b = 0x0A ∨ b = 0x0D

/-- Digits of a whole number: there are some, and no zero stands in front of others. -/
structure Whole (ds : List UInt8) : Prop where
  digits : ∀ d ∈ ds, isDigit d = true
  notEmpty : ds ≠ []
  noZeroInFront : ds.head? = some 0x30 → ds = [0x30]

/-- The decimals of a number, with their point; it may have none. -/
inductive Decimals : List UInt8 → Prop where
  | none : Decimals []
  | some {ds : List UInt8} (digits : ∀ d ∈ ds, isDigit d = true) (notEmpty : ds ≠ []) :
      Decimals (0x2E :: ds)

/-- The exponent of a number, with its letter; it may have none. -/
inductive Exponent : List UInt8 → Prop where
  | none : Exponent []
  | some {letter : UInt8} {sign ds : List UInt8} (letter_eq : letter = 0x65 ∨ letter = 0x45)
      (sign_eq : sign = [] ∨ sign = [0x2B] ∨ sign = [0x2D]) (digits : ∀ d ∈ ds, isDigit d = true)
      (notEmpty : ds ≠ []) : Exponent (letter :: (sign ++ ds))

/-- The letters that stand for a character after a backslash. -/
def shortEscapes : List (UInt8 × Char) :=
  [(0x22, '"'), (0x5C, '\\'), (0x2F, '/'), (0x62, '\x08'), (0x66, '\x0C'), (0x6E, '\n'),
    (0x72, '\r'), (0x74, '\t')]

/-- Four hexadecimal digits with a value. -/
def HexUnit (n : Nat) (ds : List UInt8) : Prop :=
  ∃ a b c d, ds = [a, b, c, d] ∧ Text.unit? a b c d = some n

/-- The spellings of a character inside a text. -/
inductive SpellsChar : Char → List UInt8 → Prop where
  | plain {c : Char} (noQuote : c ≠ '"') (noBackslash : c ≠ '\\') (noControl : 0x20 ≤ c.toNat) :
      SpellsChar c (Utf8.encodeChar c)
  | short {letter : UInt8} {c : Char} (escape : (letter, c) ∈ shortEscapes) :
      SpellsChar c [0x5C, letter]
  | unit {c : Char} {ds : List UInt8} (unit : HexUnit c.toNat ds) :
      SpellsChar c (0x5C :: 0x75 :: ds)
  /-- A character beyond four digits is spelled as a surrogate pair. -/
  | pair {c : Char} {ds es : List UInt8} (beyond : 0x10000 ≤ c.toNat)
      (leading : HexUnit (0xD800 + (c.toNat - 0x10000) / 0x400) ds)
      (trailing : HexUnit (0xDC00 + (c.toNat - 0x10000) % 0x400) es) :
      SpellsChar c (0x5C :: 0x75 :: (ds ++ 0x5C :: 0x75 :: es))

/-- The spellings of a sequence of characters. -/
inductive SpellsChars : List Char → List UInt8 → Prop where
  | nil : SpellsChars [] []
  | cons {c : Char} {cs : List Char} {bytes more : List UInt8} (char : SpellsChar c bytes)
      (chars : SpellsChars cs more) : SpellsChars (c :: cs) (bytes ++ more)

/-! ## Values -/

/-- What can be spelled: a value, or a rest of the inside of a list or an object, up to its end. -/
inductive Part where
  | value (tree : Tree)
  /-- The inside of a list. -/
  | items (trees : List Tree)
  /-- What follows an item. -/
  | moreItems (trees : List Tree)
  /-- The inside of an object. -/
  | members (members : List (String × Tree))
  /-- What follows a member. -/
  | moreMembers (members : List (String × Tree))

/-- The spellings of values and of the insides of lists and objects. -/
inductive Spells : Part → List UInt8 → Prop where
  | null : Spells (.value .null) [0x6E, 0x75, 0x6C, 0x6C]
  | true : Spells (.value (.flag true)) [0x74, 0x72, 0x75, 0x65]
  | false : Spells (.value (.flag false)) [0x66, 0x61, 0x6C, 0x73, 0x65]
  | natural {ds : List UInt8} (whole : Whole ds) : Spells (.value (.integer (Digits.value ds))) ds
  | negative {ds : List UInt8} (whole : Whole ds) (notZero : Digits.value ds ≠ 0) :
      Spells (.value (.integer (-(Digits.value ds)))) (0x2D :: ds)
  | minusZero : Spells (.value .fraction) [0x2D, 0x30]
  | fraction {sign ds decimals exponent : List UInt8} (sign_eq : sign = [] ∨ sign = [0x2D])
      (whole : Whole ds) (decimals_eq : Decimals decimals) (exponent_eq : Exponent exponent)
      (notWhole : decimals ++ exponent ≠ []) :
      Spells (.value .fraction) (sign ++ (ds ++ (decimals ++ exponent)))
  | text {s : String} {bytes : List UInt8} (chars : SpellsChars s.toList bytes) :
      Spells (.value (.text s)) (0x22 :: (bytes ++ [0x22]))
  | list {trees : List Tree} {bytes : List UInt8} (items : Spells (.items trees) bytes) :
      Spells (.value (.list trees)) (0x5B :: bytes)
  | object {ms : List (String × Tree)} {bytes : List UInt8} (members : Spells (.members ms) bytes) :
      Spells (.value (.object ms)) (0x7B :: bytes)
  | noItems {ws : List UInt8} (blank : Blank ws) : Spells (.items []) (ws ++ [0x5D])
  | items {ws bytes more : List UInt8} {tree : Tree} {trees : List Tree} (blank : Blank ws)
      (item : Spells (.value tree) bytes) (others : Spells (.moreItems trees) more) :
      Spells (.items (tree :: trees)) (ws ++ (bytes ++ more))
  | noMoreItems {ws : List UInt8} (blank : Blank ws) : Spells (.moreItems []) (ws ++ [0x5D])
  | moreItems {ws bytes : List UInt8} {tree : Tree} {trees : List Tree} (blank : Blank ws)
      (items : Spells (.items (tree :: trees)) bytes) :
      Spells (.moreItems (tree :: trees)) (ws ++ 0x2C :: bytes)
  | noMembers {ws : List UInt8} (blank : Blank ws) : Spells (.members []) (ws ++ [0x7D])
  | members {ws name ws' ws'' bytes more : List UInt8} {key : String} {tree : Tree}
      {ms : List (String × Tree)} (blank : Blank ws) (chars : SpellsChars key.toList name)
      (blank' : Blank ws') (blank'' : Blank ws'') (value : Spells (.value tree) bytes)
      (others : Spells (.moreMembers ms) more) :
      Spells (.members ((key, tree) :: ms))
        (ws ++ 0x22 :: (name ++ 0x22 :: (ws' ++ 0x3A :: (ws'' ++ (bytes ++ more)))))
  | noMoreMembers {ws : List UInt8} (blank : Blank ws) : Spells (.moreMembers []) (ws ++ [0x7D])
  | moreMembers {ws bytes : List UInt8} {m : String × Tree} {ms : List (String × Tree)}
      (blank : Blank ws) (members : Spells (.members (m :: ms)) bytes) :
      Spells (.moreMembers (m :: ms)) (ws ++ 0x2C :: bytes)

/-- A document: a value, with blanks around it. -/
def IsDocument (tree : Tree) (document : List UInt8) : Prop :=
  ∃ ws bytes ws', Blank ws ∧ Spells (.value tree) bytes ∧ Blank ws' ∧
    document = ws ++ (bytes ++ ws')

/-! ## How spellings begin and how they are followed -/

theorem blank_nil : Blank [] := nofun

theorem isDocument_of_spells {tree : Tree} {bytes : List UInt8} (h : Spells (.value tree) bytes) :
    IsDocument tree bytes :=
  ⟨[], bytes, [], blank_nil, h, blank_nil, by simp⟩

/-- The bytes with which a value begins. -/
def Tree.Opens : Tree → UInt8 → Prop
  | .null, b => b = 0x6E
  | .flag true, b => b = 0x74
  | .flag false, b => b = 0x66
  | .integer _, b => isDigit b = true ∨ b = 0x2D
  | .fraction, b => isDigit b = true ∨ b = 0x2D
  | .text _, b => b = 0x22
  | .list _, b => b = 0x5B
  | .object _, b => b = 0x7B

theorem Whole.exists_cons {ds : List UInt8} (h : Whole ds) :
    ∃ d rest, ds = d :: rest ∧ isDigit d = true := by
  cases ds with
  | nil => exact absurd rfl h.notEmpty
  | cons d rest => exact ⟨d, rest, rfl, h.digits d List.mem_cons_self⟩

theorem Spells.exists_cons {tree : Tree} {bytes : List UInt8} (h : Spells (.value tree) bytes) :
    ∃ b rest, bytes = b :: rest ∧ tree.Opens b := by
  cases h with
  | null | true | false | text | list | object => exact ⟨_, _, rfl, rfl⟩
  | natural whole =>
    obtain ⟨d, rest, rfl, hd⟩ := whole.exists_cons
    exact ⟨d, rest, rfl, .inl hd⟩
  | negative | minusZero => exact ⟨_, _, rfl, .inr rfl⟩
  | fraction sign_eq whole =>
    rcases sign_eq with rfl | rfl
    · obtain ⟨d, rest, rfl, hd⟩ := whole.exists_cons
      exact ⟨d, _, rfl, .inl hd⟩
    · exact ⟨_, _, rfl, .inr rfl⟩

theorem Spells.length_pos {tree : Tree} {bytes : List UInt8} (h : Spells (.value tree) bytes) :
    0 < bytes.length := by
  obtain ⟨b, rest, rfl, -⟩ := h.exists_cons
  exact Nat.succ_pos _

/-- The bytes after a value: they do not go on with a number. -/
def Closed (more : List UInt8) : Prop :=
  ∀ b, more.head? = some b → isDigit b = false ∧ b ≠ 0x2E ∧ b ≠ 0x65 ∧ b ≠ 0x45

theorem Blank.closed_append {ws more : List UInt8} (h : Blank ws) (hmore : Closed more) :
    Closed (ws ++ more) := by
  cases ws with
  | nil => exact hmore
  | cons w ws =>
    rintro b ⟨⟩
    rcases h w List.mem_cons_self with rfl | rfl | rfl | rfl <;> decide

theorem closed_nil : Closed [] := nofun

theorem Blank.closed {ws : List UInt8} (h : Blank ws) : Closed ws := by
  have happend := h.closed_append closed_nil
  rwa [List.append_nil] at happend

theorem closed_cons {b : UInt8} (h : b = 0x2C ∨ b = 0x5D ∨ b = 0x7D) (more : List UInt8) :
    Closed (b :: more) := by
  rintro _ ⟨⟩
  rcases h with rfl | rfl | rfl <;> decide

theorem Spells.closed_moreItems {trees : List Tree} {bytes : List UInt8}
    (h : Spells (.moreItems trees) bytes) (rest : List UInt8) : Closed (bytes ++ rest) := by
  cases h with
  | noMoreItems blank =>
    rw [List.append_assoc]
    exact blank.closed_append (closed_cons (.inr (.inl rfl)) _)
  | moreItems blank =>
    rw [List.append_assoc]
    exact blank.closed_append (closed_cons (.inl rfl) _)

theorem Spells.closed_moreMembers {ms : List (String × Tree)} {bytes : List UInt8}
    (h : Spells (.moreMembers ms) bytes) (rest : List UInt8) : Closed (bytes ++ rest) := by
  cases h with
  | noMoreMembers blank =>
    rw [List.append_assoc]
    exact blank.closed_append (closed_cons (.inr (.inr rfl)) _)
  | moreMembers blank =>
    rw [List.append_assoc]
    exact blank.closed_append (closed_cons (.inl rfl) _)

/-! ## What is written is a spelling -/

theorem whole_ofNat (n : Nat) : Whole (Digits.ofNat n) where
  digits _ := Digits.isDigit_of_mem_ofNat
  notEmpty := by
    by_cases hn : n = 0
    · subst hn
      decide
    · obtain ⟨d, hd, -⟩ := Digits.head?_ofNat hn
      rintro hnil
      rw [hnil] at hd
      cases hd
  noZeroInFront := by
    intro hhead
    by_cases hn : n = 0
    · subst hn
      rfl
    · obtain ⟨d, hd, -, hne⟩ := Digits.head?_ofNat hn
      rw [hhead, Option.some.injEq] at hd
      subst hd
      exact absurd rfl hne

theorem spells_ofNat (n : Nat) : Spells (.value (.integer n)) (Digits.ofNat n) := by
  have h := Spells.natural (whole_ofNat n)
  rwa [Digits.value_ofNat] at h

theorem spells_ofInt (n : Int) : Spells (.value (.integer n)) (Digits.ofInt n) := by
  cases n with
  | ofNat n => exact spells_ofNat n
  | negSucc n =>
    have h := Spells.negative (whole_ofNat (n + 1)) (by rw [Digits.value_ofNat]; omega)
    rwa [Digits.value_ofNat] at h

theorem spells_writeFlag (b : Bool) : Spells (.value (.flag b)) (writeFlag b) := by
  cases b
  · exact .false
  · exact .true

/-- The bytes of a character beyond ASCII are no ASCII. -/
theorem le_of_mem_encodeChar {c : Char} (hc : 0x80 ≤ c.toNat) {b : UInt8}
    (hb : b ∈ Utf8.encodeChar c) : 0x80 ≤ b.toNat := by
  have hr := Utf8.toNat_ranges c
  unfold Utf8.encodeChar at hb
  rw [if_neg (by omega)] at hb
  split at hb
  · simp only [List.mem_cons, List.not_mem_nil, or_false] at hb
    rcases hb with rfl | rfl <;> rw [Utf8.toNat_ofNat_byte (by omega)] <;> omega
  split at hb
  · simp only [List.mem_cons, List.not_mem_nil, or_false] at hb
    rcases hb with rfl | rfl | rfl <;> rw [Utf8.toNat_ofNat_byte (by omega)] <;> omega
  · simp only [List.mem_cons, List.not_mem_nil, or_false] at hb
    rcases hb with rfl | rfl | rfl | rfl <;> rw [Utf8.toNat_ofNat_byte (by omega)] <;> omega

theorem mem_shortEscapes {c : Char} {letter : UInt8}
    (h : Text.shortEscape? (UInt8.ofNat c.toNat) = some letter) (hc : c.toNat < 0x80) :
    (letter, c) ∈ shortEscapes := by
  have hchar : c = Char.ofNat (UInt8.ofNat c.toNat).toNat := by
    rw [Utf8.toNat_ofNat_byte (by omega), Char.ofNat_toNat]
  rw [hchar]
  generalize UInt8.ofNat c.toNat = b at h
  unfold Text.shortEscape? at h
  repeat' split at h
  all_goals first
    | cases h
      subst_vars
      decide
    | cases h

/-- A byte beyond ASCII is written as it is. -/
theorem writeByte_of_le {b : UInt8} (h : 0x80 ≤ b.toNat) : Text.writeByte b = [b] := by
  have hshort : Text.shortEscape? b = none := by
    unfold Text.shortEscape?
    repeat' split
    all_goals first
      | rfl
      | subst_vars
        exact absurd h (by decide)
  rw [Text.writeByte, hshort]
  exact if_neg (by omega)

theorem spellsChar_write (c : Char) :
    SpellsChar c ((Utf8.encodeChar c).flatMap Text.writeByte) := by
  by_cases hc : c.toNat < 0x80
  · have hbyte : (UInt8.ofNat c.toNat).toNat = c.toNat := Utf8.toNat_ofNat_byte (by omega)
    rw [Utf8.encodeChar, if_pos hc, List.flatMap_singleton, Text.writeByte]
    cases hshort : Text.shortEscape? (UInt8.ofNat c.toNat) with
    | some letter => exact .short (mem_shortEscapes hshort hc)
    | none =>
      dsimp only
      split
      · next hcontrol =>
        refine .unit ⟨_, _, _, _, rfl, ?_⟩
        rw [Text.unit?_byteDigits hcontrol, hbyte]
      · next hcontrol =>
        have hself : Utf8.encodeChar c = [UInt8.ofNat c.toNat] := by rw [Utf8.encodeChar, if_pos hc]
        rw [← hself]
        refine .plain ?_ ?_ (by omega)
        · rintro rfl
          cases hshort
        · rintro rfl
          cases hshort
  · have hself : ∀ b ∈ Utf8.encodeChar c, Text.writeByte b = [b] :=
      fun b hb => writeByte_of_le (le_of_mem_encodeChar (Nat.not_lt.1 hc) hb)
    have hflat : (Utf8.encodeChar c).flatMap Text.writeByte = Utf8.encodeChar c := by
      rw [List.flatMap_congr hself, List.flatMap_singleton']
    rw [hflat]
    refine .plain ?_ ?_ (by omega)
    · rintro rfl
      exact absurd hc (by decide)
    · rintro rfl
      exact absurd hc (by decide)

theorem spellsChars_write (cs : List Char) :
    SpellsChars cs ((Utf8.encode cs).flatMap Text.writeByte) := by
  induction cs with
  | nil => exact .nil
  | cons c cs ih =>
    rw [Utf8.encode_cons, List.flatMap_append]
    exact .cons (spellsChar_write c) ih

theorem spells_write (s : String) : Spells (.value (.text s)) (Text.write s) :=
  .text (spellsChars_write s.toList)

theorem spells_writeOptional {α : Type} {tree : α → Tree} {write : α → List UInt8}
    (h : ∀ a, Spells (.value (tree a)) (write a)) (a? : Option α) :
    Spells (.value (a?.elim .null tree)) (writeOptional write a?) := by
  cases a? with
  | none => exact .null
  | some a => exact h a

/-- Values with commas between them are the inside of a list. -/
theorem spells_items {trees : List Tree} {parts : List (List UInt8)}
    (h : List.Forall₂ (fun tree part => Spells (.value tree) part) trees parts) :
    Spells (.items trees) ([0x2C].intercalate parts ++ [0x5D]) := by
  induction h with
  | nil => exact .noItems blank_nil
  | @cons tree part trees parts hpart hparts ih =>
    cases hparts with
    | nil =>
      have hitems := Spells.items blank_nil hpart (.noMoreItems blank_nil)
      simpa using hitems
    | cons hnext hothers =>
      have hitems := Spells.items blank_nil hpart (.moreItems blank_nil ih)
      simpa [List.intercalate_cons_cons] using hitems

theorem spells_writeSequence {trees : List Tree} {parts : List (List UInt8)}
    (h : List.Forall₂ (fun tree part => Spells (.value tree) part) trees parts) :
    Spells (.value (.list trees)) (writeSequence parts) :=
  .list (spells_items h)

/-- Members with commas between them are the inside of an object. -/
theorem spells_members {ms : List (String × Tree)} {parts : List (String × List UInt8)}
    (h : List.Forall₂ (fun m part => m.1 = part.1 ∧ Spells (.value m.2) part.2) ms parts) :
    Spells (.members ms)
      ([0x2C].intercalate (parts.map fun m => Text.write m.1 ++ 0x3A :: m.2) ++ [0x7D]) := by
  induction h with
  | nil => exact .noMembers blank_nil
  | @cons m part ms parts hpart hparts ih =>
    obtain ⟨key, tree⟩ := m
    obtain ⟨rfl, hvalue⟩ := hpart
    have hkey := spellsChars_write part.1.toList
    cases hparts with
    | nil =>
      have hmembers := Spells.members blank_nil hkey blank_nil blank_nil hvalue
        (.noMoreMembers blank_nil)
      simpa [Text.write, Utf8.ofString] using hmembers
    | cons hnext hothers =>
      have hmembers := Spells.members blank_nil hkey blank_nil blank_nil hvalue
        (.moreMembers blank_nil ih)
      simpa [Text.write, Utf8.ofString, List.intercalate_cons_cons] using hmembers

theorem spells_writeObject {ms : List (String × Tree)} {parts : List (String × List UInt8)}
    (h : List.Forall₂ (fun m part => m.1 = part.1 ∧ Spells (.value m.2) part.2) ms parts) :
    Spells (.value (.object ms)) (writeObject parts) :=
  .object (spells_members h)

end LeaseCache.Json
