import LeaseCache.Key.Json
import LeaseCache.Proofs.Utf8Sound

/-!
# The names of entry files

A key is found again in the name of its entry file: the name is hexadecimal, that gives the text of
the key, the text gives its kind and what it holds. Main statement: `Key.eq_of_fileName`, keys that
share a file are one key. So the file of a key depends on how the key is spelled, and on nothing
else.
-/

namespace LeaseCache

namespace Json.Text

/-! ## A written text is scanned back -/

theorem meaning?_of_shortEscape? {b letter : UInt8} (h : shortEscape? b = some letter) :
    meaning? letter = some b := by
  unfold shortEscape? at h
  repeat' split at h
  all_goals first
    | cases h
      subst_vars
      rfl
    | cases h

theorem unit?_byteDigits {b : UInt8} (h : b.toNat < 0x20) :
    unit? 0x30 0x30 (Hex.digit (b.toNat / 16)) (Hex.digit (b.toNat % 16)) = some b.toNat := by
  have hzero : Hex.value? 0x30 = some 0 := rfl
  rw [unit?, hzero, Hex.value?_digit (by omega), Hex.value?_digit (by omega)]
  simp only [Option.some.injEq]
  omega

/-- What one byte is written as is scanned as that byte. -/
theorem scan_writeByte (b : UInt8) (rest : List UInt8) :
    scan (writeByte b ++ rest) = prepend [b] (scan rest) := by
  unfold writeByte
  cases hshort : shortEscape? b with
  | some letter =>
    -- the byte has a letter of its own
    have hescape : escape (letter :: rest) = .ok ([b], 1) := by
      rw [escape, meaning?_of_shortEscape? hshort]
    simp only [List.cons_append, List.nil_append]
    rw [scan, scanAfter, if_neg (by decide), if_pos rfl, hescape]
    rfl
  | none =>
    by_cases hcontrol : b.toNat < 0x20
    · -- it is written with four digits, of which the first two are zero
      have hunit : unit (0x30 :: 0x30 :: Hex.digit (b.toNat / 16) :: Hex.digit (b.toNat % 16) ::
          rest) = .ok b.toNat := by
        rw [unit, unit?_byteDigits hcontrol]
      have hlow : isTrailing b.toNat = false ∧ isLeading b.toNat = false := by
        simp only [isTrailing, isLeading, Bool.and_eq_false_iff, decide_eq_false_iff_not]
        omega
      have hescape : escape (0x75 :: 0x30 :: 0x30 :: Hex.digit (b.toNat / 16) ::
          Hex.digit (b.toNat % 16) :: rest) = .ok ([b], 5) := by
        rw [escape, show meaning? 0x75 = none from rfl]
        simp only [if_true, hunit, bind, Except.bind, hlow, Bool.false_eq_true, if_false]
        rw [Utf8.encodeChar_one (by omega)]
      simp only [if_pos hcontrol, Hex.byteDigits, List.cons_append, List.nil_append]
      rw [scan, scanAfter, if_neg (by decide), if_pos rfl, hescape]
      rfl
    · -- it stands for itself
      have hquote : b ≠ 0x22 := by
        rintro rfl
        cases hshort
      have hslash : b ≠ 0x5C := by
        rintro rfl
        cases hshort
      simp only [if_neg hcontrol, List.cons_append, List.nil_append]
      rw [scan, scanAfter, if_neg hquote, if_neg hslash, if_neg hcontrol]
      rfl

/-- A text is scanned back up to its closing quote. -/
theorem scan_write (bytes rest : List UInt8) :
    scan (bytes.flatMap writeByte ++ 0x22 :: rest) = .ok (bytes, rest) := by
  induction bytes with
  | nil => rfl
  | cons b bytes ih => rw [List.flatMap_cons, List.append_assoc, scan_writeByte, ih]; rfl

/-- What is written before the same bytes is the same text. -/
theorem write_append_inj {s t : String} {rest rest' : List UInt8}
    (h : write s ++ rest = write t ++ rest') : s = t ∧ rest = rest' := by
  have hscan : ∀ (u : String) (more : List UInt8),
      scan ((write u ++ more).tail) = .ok (Utf8.ofString u, more) := by
    intro u more
    have htail : (write u ++ more).tail = (Utf8.ofString u).flatMap writeByte ++ 0x22 :: more := by
      simp [write]
    rw [htail, scan_write]
  have hs := hscan s rest
  rw [h, hscan] at hs
  obtain ⟨htext, hrest⟩ := Prod.mk.inj (Except.ok.inj hs)
  exact ⟨(Utf8.ofString_injective htext).symm, hrest.symm⟩

theorem write_injective {s t : String} (h : write s = write t) : s = t :=
  (write_append_inj (congrArg (· ++ ([] : List UInt8)) h)).1

end Json.Text

namespace Digits

theorem ofNat_injective {m n : Nat} (h : ofNat m = ofNat n) : m = n := by
  rw [← value_ofNat m, h, value_ofNat]

theorem minus_not_mem_ofNat (n : Nat) : (0x2D : UInt8) ∉ ofNat n := by
  intro hmem
  have hdigit := isDigit_of_mem_ofNat hmem
  cases hdigit

theorem ofInt_injective {m n : Int} (h : ofInt m = ofInt n) : m = n := by
  cases m with
  | ofNat m =>
    cases n with
    | ofNat n => exact congrArg Int.ofNat (ofNat_injective h)
    | negSucc n =>
      refine absurd ?_ (minus_not_mem_ofNat m)
      rw [show ofNat m = 0x2D :: ofNat (n + 1) from h]
      exact List.mem_cons_self
  | negSucc m =>
    cases n with
    | ofNat n =>
      refine absurd ?_ (minus_not_mem_ofNat n)
      rw [← show 0x2D :: ofNat (m + 1) = ofNat n from h]
      exact List.mem_cons_self
    | negSucc n =>
      have hdigits := ofNat_injective (List.tail_eq_of_cons_eq h)
      rw [Nat.succ.inj hdigits]

end Digits

namespace Hex

theorem encode_injective {a b : List UInt8} (h : encode a = encode b) : a = b := by
  have hread := decode?_encode b
  rw [← h, decode?_encode] at hread
  exact Option.some.inj hread

end Hex

namespace Key

theorem tagged_inj {kind kind' : String} {content content' : List UInt8}
    (h : tagged kind content = tagged kind' content') : kind = kind' ∧ content = content' := by
  unfold tagged at h
  simp only [List.append_assoc] at h
  obtain ⟨hkind, hrest⟩ := Json.Text.write_append_inj (List.tail_eq_of_cons_eq h)
  exact ⟨hkind, List.append_cancel_right (List.tail_eq_of_cons_eq hrest)⟩

/-- The text of a key is made of its kind and what it holds. Only a path can have no text, and its
text is its bytes. -/
theorem tagged_of_toJson {k : Key} {json : List UInt8} (h : k.toJson = .ok json) :
    (∃ s, k = .text s ∧ json = tagged "Text" (Json.Text.write s)) ∨
      (∃ n, k = .integer n ∧ json = tagged "Integer" (Digits.ofInt n.toInt)) ∨
      ∃ p s, k = .path p ∧ Utf8.ofString s = p.bytes ∧
        json = tagged "Path" (Json.Text.write s) := by
  cases k with
  | text s => exact .inl ⟨s, rfl, (Except.ok.inj h).symm⟩
  | integer n => exact .inr (.inl ⟨n, rfl, (Except.ok.inj h).symm⟩)
  | path p =>
    rw [toJson] at h
    cases hs : p.toString? with
    | none =>
      rw [hs] at h
      cases h
    | some s =>
      rw [hs] at h
      exact .inr (.inr ⟨p, s, rfl, Utf8.ofString_of_toString? hs, (Except.ok.inj h).symm⟩)

/-- Keys with one text are one key. -/
theorem eq_of_toJson {k l : Key} {json : List UInt8} (hk : k.toJson = .ok json)
    (hl : l.toJson = .ok json) : k = l := by
  rcases tagged_of_toJson hk with ⟨s, rfl, hjson⟩ | ⟨m, rfl, hjson⟩ | ⟨p, s, rfl, hp, hjson⟩
  · rcases tagged_of_toJson hl with ⟨t, rfl, hjson'⟩ | ⟨n, rfl, hjson'⟩ | ⟨q, t, rfl, -, hjson'⟩
    · rw [Json.Text.write_injective (tagged_inj (hjson.symm.trans hjson')).2]
    · exact absurd (tagged_inj (hjson.symm.trans hjson')).1 (by decide)
    · exact absurd (tagged_inj (hjson.symm.trans hjson')).1 (by decide)
  · rcases tagged_of_toJson hl with ⟨t, rfl, hjson'⟩ | ⟨n, rfl, hjson'⟩ | ⟨q, t, rfl, -, hjson'⟩
    · exact absurd (tagged_inj (hjson.symm.trans hjson')).1 (by decide)
    · have hdigits := (tagged_inj (hjson.symm.trans hjson')).2
      rw [Int64.toInt_inj.1 (Digits.ofInt_injective hdigits)]
    · exact absurd (tagged_inj (hjson.symm.trans hjson')).1 (by decide)
  · rcases tagged_of_toJson hl with ⟨t, rfl, hjson'⟩ | ⟨n, rfl, hjson'⟩ | ⟨q, t, rfl, hq, hjson'⟩
    · exact absurd (tagged_inj (hjson.symm.trans hjson')).1 (by decide)
    · exact absurd (tagged_inj (hjson.symm.trans hjson')).1 (by decide)
    · have htext : s = t := Json.Text.write_injective (tagged_inj (hjson.symm.trans hjson')).2
      have hbytes : p.bytes = q.bytes := by rw [← hp, ← hq, htext]
      obtain ⟨bytes⟩ := p
      obtain ⟨bytes'⟩ := q
      rw [show bytes = bytes' from hbytes]

/-- The name of a file is made from the text of its key. -/
theorem toJson_of_fileName {k : Key} {name : List UInt8} (h : k.fileName = .ok name) :
    ∃ json, k.toJson = .ok json ∧ name = Hex.encode json ++ entryExtension := by
  unfold fileName at h
  cases hjson : k.toJson with
  | error e =>
    rw [hjson] at h
    cases h
  | ok json =>
    rw [hjson] at h
    exact ⟨json, rfl, (Except.ok.inj h).symm⟩

/-- Keys that share a file are one key. -/
theorem eq_of_fileName {k l : Key} {name : List UInt8} (hk : k.fileName = .ok name)
    (hl : l.fileName = .ok name) : k = l := by
  obtain ⟨json, hjson, hname⟩ := toJson_of_fileName hk
  obtain ⟨json', hjson', hname'⟩ := toJson_of_fileName hl
  have hsame : json = json' :=
    Hex.encode_injective (List.append_cancel_right (hname.symm.trans hname'))
  subst hsame
  exact eq_of_toJson hjson hjson'

end Key

end LeaseCache
