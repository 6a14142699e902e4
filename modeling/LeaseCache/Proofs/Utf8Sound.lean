import LeaseCache.Text.Utf8

/-!
# What is read as UTF-8 was written

`decode_encode` says that every text is read back from its bytes. Here is the other half: bytes that
are read as a text are the bytes of that text, so no text has two spellings.
-/

namespace LeaseCache.Utf8

theorem ofNat_toNat_eq (a : UInt8) {n : Nat} (h : n = a.toNat) : UInt8.ofNat n = a := by
  rw [h]
  exact UInt8.ofNat_toNat

theorem tailBits_lt {b : UInt8} (h : isTail b = true) : tailBits b < 64 := by
  simp only [isTail, Bool.and_eq_true, decide_eq_true_eq] at h
  unfold tailBits
  omega

theorem ofNat_tailBits {b : UInt8} (h : isTail b = true) : UInt8.ofNat (0x80 + tailBits b) = b := by
  simp only [isTail, Bool.and_eq_true, decide_eq_true_eq] at h
  apply ofNat_toNat_eq
  unfold tailBits
  omega

theorem toNat_ofNat {n : Nat} (h : n < 0xD800 ∨ 0xDFFF < n ∧ n < 0x110000) :
    (Char.ofNat n).toNat = n := by
  rw [Char.ofNat, dif_pos h]
  rfl

theorem encodeChar_one {a : UInt8} (h : a.toNat < 0x80) :
    encodeChar (Char.ofNat a.toNat) = [a] := by
  rw [encodeChar, toNat_ofNat (by omega)]
  simp only [if_pos h, ofNat_toNat_eq a rfl]

theorem encodeChar_two {a b : UInt8} (h : 0xC2 ≤ a.toNat) (h' : a.toNat < 0xE0)
    (hb : isTail b = true) :
    encodeChar (Char.ofNat ((a.toNat - 0xC0) * 64 + tailBits b)) = [a, b] := by
  have hlt := tailBits_lt hb
  have ha : UInt8.ofNat (0xC0 + ((a.toNat - 0xC0) * 64 + tailBits b) / 64) = a :=
    ofNat_toNat_eq a (by omega)
  have hbits : ((a.toNat - 0xC0) * 64 + tailBits b) % 64 = tailBits b := by omega
  rw [encodeChar, toNat_ofNat (by omega)]
  rw [if_neg (by omega), if_pos (by omega), ha, hbits, ofNat_tailBits hb]

theorem encodeChar_three {a b c : UInt8} (h : 0xE0 ≤ a.toNat) (h' : a.toNat < 0xF0)
    (hb : isSecond 0xE0 0xED 0x20 a b = true) (hc : isTail c = true) :
    encodeChar (Char.ofNat ((a.toNat - 0xE0) * 4096 + tailBits b * 64 + tailBits c)) =
      [a, b, c] := by
  obtain ⟨htail, hshort, hsurrogate⟩ := isSecond_iff.1 hb
  have hltb := tailBits_lt htail
  have hltc := tailBits_lt hc
  -- `omega` reads the digits of `n` in base 64 off `hn`
  generalize hn : (a.toNat - 0xE0) * 4096 + tailBits b * 64 + tailBits c = n
  have ha : UInt8.ofNat (0xE0 + n / 4096) = a := ofNat_toNat_eq a (by omega)
  have hbitsb : n / 64 % 64 = tailBits b := by omega
  have hbitsc : n % 64 = tailBits c := by omega
  rw [encodeChar, toNat_ofNat (by omega)]
  rw [if_neg (by omega), if_neg (by omega), if_pos (by omega), ha, hbitsb, hbitsc,
    ofNat_tailBits htail, ofNat_tailBits hc]

theorem encodeChar_four {a b c d : UInt8} (h : 0xF0 ≤ a.toNat) (h' : a.toNat < 0xF5)
    (hb : isSecond 0xF0 0xF4 0x10 a b = true) (hc : isTail c = true) (hd : isTail d = true) :
    encodeChar (Char.ofNat ((a.toNat - 0xF0) * 262144 + tailBits b * 4096 + tailBits c * 64 +
      tailBits d)) = [a, b, c, d] := by
  obtain ⟨htail, hshort, hlarge⟩ := isSecond_iff.1 hb
  have hltb := tailBits_lt htail
  have hltc := tailBits_lt hc
  have hltd := tailBits_lt hd
  generalize hn : (a.toNat - 0xF0) * 262144 + tailBits b * 4096 + tailBits c * 64 + tailBits d = n
  have ha : UInt8.ofNat (0xF0 + n / 262144) = a := ofNat_toNat_eq a (by omega)
  have hbitsb : n / 4096 % 64 = tailBits b := by omega
  have hbitsc : n / 64 % 64 = tailBits c := by omega
  have hbitsd : n % 64 = tailBits d := by omega
  rw [encodeChar, toNat_ofNat (by omega)]
  rw [if_neg (by omega), if_neg (by omega), if_neg (by omega), ha, hbitsb, hbitsc, hbitsd,
    ofNat_tailBits htail, ofNat_tailBits hc, ofNat_tailBits hd]

/-- A piece that is a character stands for the bytes it was cut from. -/
theorem encodeChar_of_piece {a : UInt8} {rest : List UInt8} {c : Char}
    (h : (piece a rest).1 = .char c) :
    encodeChar c ++ rest.drop (piece a rest).2 = a :: rest := by
  revert h
  fun_cases piece a rest with
  | case1 _ n hone =>
    intro h
    rw [← Piece.char.inj h, encodeChar_one hone]
    rfl
  | case4 n _ htail htwo b more hb =>
    intro h
    rw [← Piece.char.inj h, encodeChar_two (Nat.not_lt.1 htail) htwo hb]
    rfl
  | case8 n _ _ htwo hthree b hb d more hd =>
    intro h
    rw [← Piece.char.inj h, encodeChar_three (Nat.not_lt.1 htwo) hthree hb hd]
    rfl
  | case14 n _ _ _ hthree hfour b hb d hd e more he =>
    intro h
    rw [← Piece.char.inj h, encodeChar_four (Nat.not_lt.1 hthree) hfour hb hd he]
    rfl
  | _ =>
    intro h
    cases h

theorem encode_of_join (bytes : List UInt8) {index : Nat} {cs : List Char}
    (h : join index (pieces bytes) = .ok cs) : encode cs = bytes := by
  induction hlength : bytes.length using Nat.strongRecOn generalizing bytes index cs with
  | ind length ih =>
    cases bytes with
    | nil =>
      cases h
      rfl
    | cons a rest =>
      rw [pieces_cons] at h
      cases hp : (piece a rest).1 with
      | char c =>
        rw [hp, join] at h
        cases hrest :
            join (index + (encodeChar c).length) (pieces (rest.drop (piece a rest).2)) with
        | ok cs' =>
          rw [hrest] at h
          have hshorter : (rest.drop (piece a rest).2).length < length := by
            rw [← hlength, List.length_drop, List.length_cons]
            omega
          rw [← Except.ok.inj h, encode_cons, ih _ hshorter _ hrest rfl]
          exact encodeChar_of_piece hp
        | error e =>
          rw [hrest] at h
          cases h
      | broken n =>
        rw [hp, join] at h
        cases h
      | cut n =>
        rw [hp, join] at h
        cases h

/-- Bytes that are read as a text are the bytes of that text. -/
theorem ofString_of_toString? {bytes : List UInt8} {s : String} (h : toString? bytes = some s) :
    ofString s = bytes := by
  unfold toString? at h
  split at h
  · next cs hdecode =>
    rw [← Option.some.inj h, ofString, String.toList_ofList]
    exact encode_of_join bytes hdecode
  · cases h

theorem ofString_injective {s t : String} (h : ofString s = ofString t) : s = t := by
  have hread := toString?_ofString t
  rw [← h, toString?_ofString] at hread
  exact Option.some.inj hread

end LeaseCache.Utf8
