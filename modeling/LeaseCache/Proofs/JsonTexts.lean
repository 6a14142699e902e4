import LeaseCache.Proofs.JsonGrammar

/-!
# Texts in JSON

A spelling of a text is scanned as the bytes of its characters, up to the closing quote, and passed
over up to there when nobody asks for it. Both go character by character, and a character takes its
bytes, or a backslash and what belongs to the escape.
-/

namespace LeaseCache.Json

/-! ## Scanning -/

/-- A byte that stands for itself inside a text. -/
def IsPlain (b : UInt8) : Prop := b ≠ 0x22 ∧ b ≠ 0x5C ∧ ¬ b.toNat < 0x20

theorem isPlain_of_mem_encodeChar {c : Char} (hquote : c ≠ '"') (hslash : c ≠ '\\')
    (hcontrol : 0x20 ≤ c.toNat) {b : UInt8} (hb : b ∈ Utf8.encodeChar c) : IsPlain b := by
  by_cases hc : c.toNat < 0x80
  · rw [Utf8.encodeChar, if_pos hc, List.mem_singleton] at hb
    have hnat : b.toNat = c.toNat := by rw [hb, Utf8.toNat_ofNat_byte (by omega)]
    have hchar : Char.ofNat b.toNat = c := by rw [hnat, Char.ofNat_toNat]
    refine ⟨?_, ?_, by omega⟩
    · rintro rfl
      exact hquote hchar.symm
    · rintro rfl
      exact hslash hchar.symm
  · have hle := le_of_mem_encodeChar (Nat.not_lt.1 hc) hb
    refine ⟨?_, ?_, by omega⟩
    · rintro rfl
      exact absurd hle (by decide)
    · rintro rfl
      exact absurd hle (by decide)

/-- The letter of a short escape stands for the one byte of its character. -/
theorem meaning?_of_mem_shortEscapes {letter : UInt8} {c : Char} (h : (letter, c) ∈ shortEscapes) :
    Text.meaning? letter = some (UInt8.ofNat c.toNat) ∧
      Utf8.encodeChar c = [UInt8.ofNat c.toNat] := by
  have hall : ∀ p ∈ shortEscapes, Text.meaning? p.1 = some (UInt8.ofNat p.2.toNat) ∧
      Utf8.encodeChar p.2 = [UInt8.ofNat p.2.toNat] := by decide
  exact hall (letter, c) h

theorem HexUnit.unit {n : Nat} {ds : List UInt8} (h : HexUnit n ds) (rest : List UInt8) :
    Text.unit (ds ++ rest) = .ok n := by
  obtain ⟨a, b, c, d, rfl, hn⟩ := h
  simp only [List.cons_append, List.nil_append]
  rw [Text.unit, hn]

theorem HexUnit.length {n : Nat} {ds : List UInt8} (h : HexUnit n ds) : ds.length = 4 := by
  obtain ⟨a, b, c, d, rfl, -⟩ := h
  rfl

theorem not_surrogate (c : Char) :
    Text.isTrailing c.toNat = false ∧ Text.isLeading c.toNat = false := by
  have hr := Utf8.toNat_ranges c
  simp only [Text.isTrailing, Text.isLeading, Bool.and_eq_false_iff, decide_eq_false_iff_not]
  omega

/-- The escape of a character is read as it, and is as long as its spelling. -/
theorem escape_of_unit {c : Char} {ds : List UInt8} (h : HexUnit c.toNat ds) (rest : List UInt8) :
    Text.escape (0x75 :: (ds ++ rest)) = .ok (Utf8.encodeChar c, 5) := by
  obtain ⟨htrailing, hleading⟩ := not_surrogate c
  rw [Text.escape, show Text.meaning? 0x75 = none from rfl]
  simp only [if_true, h.unit, bind, Except.bind, htrailing, hleading, Bool.false_eq_true, if_false,
    Char.ofNat_toNat]

theorem escape_of_pair {c : Char} {ds es : List UInt8} (hc : 0x10000 ≤ c.toNat)
    (hds : HexUnit (0xD800 + (c.toNat - 0x10000) / 0x400) ds)
    (hes : HexUnit (0xDC00 + (c.toNat - 0x10000) % 0x400) es) (rest : List UInt8) :
    Text.escape (0x75 :: (ds ++ 0x5C :: 0x75 :: (es ++ rest))) =
      .ok (Utf8.encodeChar c, 11) := by
  have hr := Utf8.toNat_ranges c
  generalize hn : 0xD800 + (c.toNat - 0x10000) / 0x400 = n at hds
  generalize hm : 0xDC00 + (c.toNat - 0x10000) % 0x400 = m at hes
  have hleading : Text.isLeading n = true ∧ Text.isTrailing n = false := by
    simp only [Text.isLeading, Text.isTrailing, Bool.and_eq_true, Bool.and_eq_false_iff,
      decide_eq_true_eq, decide_eq_false_iff_not]
    omega
  have htrailing : Text.isTrailing m = true := by
    simp only [Text.isTrailing, Bool.and_eq_true, decide_eq_true_eq]
    omega
  have hchar : Text.ofPair n m = c := by
    rw [Text.ofPair, show (n - 0xD800) * 0x400 + (m - 0xDC00) + 0x10000 = c.toNat by omega,
      Char.ofNat_toNat]
  have hdrop : (ds ++ 0x5C :: 0x75 :: (es ++ rest)).drop 4 = 0x5C :: 0x75 :: (es ++ rest) := by
    rw [← hds.length, List.drop_left]
  rw [Text.escape, show Text.meaning? 0x75 = none from rfl]
  simp only [if_true, hds.unit, hes.unit, bind, Except.bind, hleading, htrailing, hdrop,
    Bool.false_eq_true, if_false, hchar]

theorem scanAfter_append (skipped rest : List UInt8) :
    Text.scanAfter skipped.length (skipped ++ rest) = Text.scan rest := by
  induction skipped with
  | nil => rfl
  | cons b skipped ih => exact ih

theorem scan_of_plain {bytes : List UInt8} (h : ∀ b ∈ bytes, IsPlain b) (rest : List UInt8) :
    Text.scan (bytes ++ rest) = Text.prepend bytes (Text.scan rest) := by
  induction bytes with
  | nil =>
    cases hscan : Text.scan rest <;> simp [Text.prepend, hscan]
  | cons b bytes ih =>
    obtain ⟨hquote, hslash, hcontrol⟩ := h b List.mem_cons_self
    rw [List.cons_append, Text.scan, Text.scanAfter, if_neg hquote, if_neg hslash, if_neg hcontrol,
      ← Text.scan, ih fun d hd => h d (List.mem_cons_of_mem b hd)]
    cases Text.scan rest <;> rfl

/-- After a backslash, a text goes on after what belongs to the escape. -/
theorem scan_of_escape (escaped : List UInt8) {bytes : List UInt8} (rest : List UInt8)
    (h : Text.escape (escaped ++ rest) = .ok (bytes, escaped.length)) :
    Text.scan (0x5C :: (escaped ++ rest)) = Text.prepend bytes (Text.scan rest) := by
  rw [Text.scan, Text.scanAfter, if_neg (by decide), if_pos rfl, h]
  dsimp only
  rw [scanAfter_append]

/-- A spelled character is scanned as its bytes. -/
theorem scan_of_spellsChar {c : Char} {bytes : List UInt8} (h : SpellsChar c bytes)
    (rest : List UInt8) :
    Text.scan (bytes ++ rest) = Text.prepend (Utf8.encodeChar c) (Text.scan rest) := by
  cases h with
  | plain hquote hslash hcontrol =>
    exact scan_of_plain (fun b => isPlain_of_mem_encodeChar hquote hslash hcontrol) rest
  | @short letter _ hescape =>
    obtain ⟨hmeaning, hbytes⟩ := meaning?_of_mem_shortEscapes hescape
    refine scan_of_escape [letter] rest ?_
    rw [List.singleton_append, Text.escape, hmeaning, hbytes]
    rfl
  | @unit _ ds hunit =>
    refine scan_of_escape (0x75 :: ds) rest ?_
    rw [List.cons_append, escape_of_unit hunit, List.length_cons, hunit.length]
  | @pair _ ds es hc hds hes =>
    refine scan_of_escape (0x75 :: (ds ++ 0x5C :: 0x75 :: es)) rest ?_
    simp only [List.cons_append, List.append_assoc, List.length_cons, List.length_append,
      hds.length, hes.length]
    exact escape_of_pair hc hds hes rest

theorem scan_of_spellsChars {cs : List Char} {bytes : List UInt8} (h : SpellsChars cs bytes)
    (rest : List UInt8) : Text.scan (bytes ++ 0x22 :: rest) = .ok (Utf8.encode cs, rest) := by
  induction h with
  | nil => rfl
  | cons hchar _ ih =>
    rw [List.append_assoc, scan_of_spellsChar hchar, ih, Utf8.encode_cons]
    rfl

/-! ## Passing over -/

theorem passAfter_append (streamed : Bool) (skipped rest : List UInt8) :
    Text.passAfter streamed skipped.length (skipped ++ rest) = Text.passAfter streamed 0 rest := by
  induction skipped with
  | nil => rfl
  | cons b skipped ih => exact ih

theorem pass_of_plain {bytes : List UInt8} (h : ∀ b ∈ bytes, IsPlain b) (streamed : Bool)
    (rest : List UInt8) :
    Text.passAfter streamed 0 (bytes ++ rest) = Text.passAfter streamed 0 rest := by
  induction bytes with
  | nil => rfl
  | cons b bytes ih =>
    obtain ⟨hquote, hslash, hcontrol⟩ := h b List.mem_cons_self
    rw [List.cons_append, Text.passAfter, if_neg hquote, if_neg hslash, if_neg hcontrol,
      ih fun d hd => h d (List.mem_cons_of_mem b hd)]

theorem pass_of_escape (escaped : List UInt8) (streamed : Bool) (rest : List UInt8)
    (h : Text.escapeWidth (escaped ++ rest) = .ok escaped.length) :
    Text.passAfter streamed 0 (0x5C :: (escaped ++ rest)) = Text.passAfter streamed 0 rest := by
  rw [Text.passAfter, if_neg (by decide), if_pos rfl, h]
  exact passAfter_append streamed escaped rest

/-- Four digits are passed over whatever their value. -/
theorem pass_of_unit {n : Nat} {ds : List UInt8} (h : HexUnit n ds) (streamed : Bool)
    (rest : List UInt8) :
    Text.passAfter streamed 0 (0x5C :: 0x75 :: (ds ++ rest)) = Text.passAfter streamed 0 rest := by
  refine pass_of_escape (0x75 :: ds) streamed rest ?_
  rw [List.cons_append, Text.escapeWidth, show Text.meaning? 0x75 = none from rfl, h.unit,
    List.length_cons, h.length]
  rfl

theorem pass_of_spellsChar {c : Char} {bytes : List UInt8} (h : SpellsChar c bytes)
    (streamed : Bool) (rest : List UInt8) :
    Text.passAfter streamed 0 (bytes ++ rest) = Text.passAfter streamed 0 rest := by
  cases h with
  | plain hquote hslash hcontrol =>
    exact pass_of_plain (fun b => isPlain_of_mem_encodeChar hquote hslash hcontrol) streamed rest
  | @short letter _ hescape =>
    refine pass_of_escape [letter] streamed rest ?_
    rw [List.singleton_append, Text.escapeWidth, (meaning?_of_mem_shortEscapes hescape).1]
    rfl
  | unit hunit => exact pass_of_unit hunit streamed rest
  | @pair _ ds es _ hds hes =>
    simp only [List.cons_append, List.append_assoc]
    rw [pass_of_unit hds, pass_of_unit hes]

theorem pass_of_spellsChars {cs : List Char} {bytes : List UInt8} (h : SpellsChars cs bytes)
    (streamed : Bool) (rest : List UInt8) :
    Text.passAfter streamed 0 (bytes ++ 0x22 :: rest) = .ok rest := by
  induction h with
  | nil => rfl
  | cons hchar _ ih => rw [List.append_assoc, pass_of_spellsChar hchar, ih]

end LeaseCache.Json
