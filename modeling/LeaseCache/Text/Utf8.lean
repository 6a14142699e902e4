/-!
# UTF-8

The bytes of a text, and the way back.

`pieces` cuts a byte sequence into characters and malformed stretches. A malformed stretch is as
long as it could still have begun a character, so a reader that goes on after it resynchronises at
the next possible lead byte. Both readers are views of the pieces: `decode` refuses the first
malformed stretch and says where it stands, `lossy` puts U+FFFD in place of each.
-/

namespace LeaseCache.Utf8

/-! ## Writing -/

/-- The bytes of one character. -/
def encodeChar (c : Char) : List UInt8 :=
  let n := c.toNat
  if n < 0x80 then [UInt8.ofNat n]
  else if n < 0x800 then [UInt8.ofNat (0xC0 + n / 64), UInt8.ofNat (0x80 + n % 64)]
  else if n < 0x10000 then
    [UInt8.ofNat (0xE0 + n / 4096), UInt8.ofNat (0x80 + n / 64 % 64), UInt8.ofNat (0x80 + n % 64)]
  else
    [UInt8.ofNat (0xF0 + n / 262144), UInt8.ofNat (0x80 + n / 4096 % 64),
      UInt8.ofNat (0x80 + n / 64 % 64), UInt8.ofNat (0x80 + n % 64)]

/-- The bytes of a sequence of characters. -/
def encode (cs : List Char) : List UInt8 := cs.flatMap encodeChar

@[simp] theorem encode_nil : encode [] = [] := rfl

@[simp] theorem encode_cons (c : Char) (cs : List Char) :
    encode (c :: cs) = encodeChar c ++ encode cs := by
  simp [encode]

theorem encode_append (cs ds : List Char) : encode (cs ++ ds) = encode cs ++ encode ds := by
  simp [encode]

/-- The bytes of a text. -/
def ofString (s : String) : List UInt8 := encode s.toList

/-! ## Cutting into pieces -/

/-- What stands at one place of a byte sequence. -/
inductive Piece where
  /-- A whole character. -/
  | char (c : Char)
  /-- So many bytes that no character begins with. -/
  | broken (bytes : Nat)
  /-- So many bytes that begin a character, and then the end. -/
  | cut (bytes : Nat)
  deriving DecidableEq, Repr

/-- A byte that continues a character. -/
def isTail (b : UInt8) : Bool := 0x80 ≤ b.toNat && b.toNat ≤ 0xBF

/-- The six bits that a continuing byte adds. -/
def tailBits (b : UInt8) : Nat := b.toNat - 0x80

/-- The second byte of a character that begins with `a`. After `first` its bits begin at `bound`,
since there would be a shorter form; after `last` they end before it, since what follows are the
surrogates or lies past U+10FFFF. -/
def isSecond (first last bound : Nat) (a b : UInt8) : Bool :=
  isTail b && (a.toNat ≠ first || bound ≤ tailBits b) && (a.toNat ≠ last || tailBits b < bound)

/-- The piece that begins with byte `a`, and how many of the following bytes belong to it. -/
def piece (a : UInt8) (rest : List UInt8) : Piece × Nat :=
  let n := a.toNat
  if n < 0x80 then (.char (Char.ofNat n), 0)
  else if n < 0xC2 then (.broken 1, 0)
  else if n < 0xE0 then
    match rest with
    | [] => (.cut 1, 0)
    | b :: _ =>
      if isTail b then (.char (Char.ofNat ((n - 0xC0) * 64 + tailBits b)), 1) else (.broken 1, 0)
  else if n < 0xF0 then
    match rest with
    | [] => (.cut 1, 0)
    | b :: rest =>
      if isSecond 0xE0 0xED 0x20 a b then
        match rest with
        | [] => (.cut 2, 1)
        | c :: _ =>
          if isTail c then
            (.char (Char.ofNat ((n - 0xE0) * 4096 + tailBits b * 64 + tailBits c)), 2)
          else (.broken 2, 1)
      else (.broken 1, 0)
  else if n < 0xF5 then
    match rest with
    | [] => (.cut 1, 0)
    | b :: rest =>
      if isSecond 0xF0 0xF4 0x10 a b then
        match rest with
        | [] => (.cut 2, 1)
        | c :: rest =>
          if isTail c then
            match rest with
            | [] => (.cut 3, 2)
            | d :: _ =>
              if isTail d then
                (.char (Char.ofNat
                  ((n - 0xF0) * 262144 + tailBits b * 4096 + tailBits c * 64 + tailBits d)), 3)
              else (.broken 3, 2)
          else (.broken 2, 1)
      else (.broken 1, 0)
  else (.broken 1, 0)

/-- The pieces after the first `skip` bytes. -/
def piecesAfter : Nat → List UInt8 → List Piece
  | _, [] => []
  | skip + 1, _ :: rest => piecesAfter skip rest
  | 0, a :: rest => (piece a rest).1 :: piecesAfter (piece a rest).2 rest

/-- Cuts a byte sequence into characters and malformed stretches. -/
def pieces (bytes : List UInt8) : List Piece := piecesAfter 0 bytes

theorem piecesAfter_eq_drop (skip : Nat) (bytes : List UInt8) :
    piecesAfter skip bytes = pieces (bytes.drop skip) := by
  induction bytes generalizing skip with
  | nil => simp [piecesAfter, pieces]
  | cons b rest ih =>
    cases skip with
    | zero => rfl
    | succ skip => simpa [piecesAfter] using ih skip

theorem pieces_cons (a : UInt8) (rest : List UInt8) :
    pieces (a :: rest) = (piece a rest).1 :: pieces (rest.drop (piece a rest).2) := by
  rw [← piecesAfter_eq_drop]
  rfl

/-! ## Reading -/

/-- Where a byte sequence stops being UTF-8, and how long the malformed stretch is; no length when
the sequence ends inside a character. -/
structure Malformed where
  index : Nat
  length : Option Nat
  deriving DecidableEq, Repr

/-- The wording of a malformed stretch. -/
def Malformed.message (e : Malformed) : String :=
  match e.length with
  | some n => "invalid utf-8 sequence of " ++ toString n ++ " bytes from index " ++ toString e.index
  | none => "incomplete utf-8 byte sequence from index " ++ toString e.index

/-- The characters of the pieces from byte `index` on, if all of them are characters. -/
def join (index : Nat) : List Piece → Except Malformed (List Char)
  | [] => .ok []
  | .char c :: rest =>
    match join (index + (encodeChar c).length) rest with
    | .ok cs => .ok (c :: cs)
    | .error e => .error e
  | .broken n :: _ => .error ⟨index, some n⟩
  | .cut _ :: _ => .error ⟨index, none⟩

/-- The characters of a byte sequence; the first malformed stretch is an error. -/
def decode (bytes : List UInt8) : Except Malformed (List Char) := join 0 (pieces bytes)

/-- The text of a byte sequence, if it is one. -/
def toString? (bytes : List UInt8) : Option String :=
  match decode bytes with
  | .ok cs => some (String.ofList cs)
  | .error _ => none

/-- The character shown for a piece. -/
def Piece.shown : Piece → Char
  | .char c => c
  | .broken _ => '\uFFFD'
  | .cut _ => '\uFFFD'

/-- The text of a byte sequence, with U+FFFD for each malformed stretch. -/
def lossy (bytes : List UInt8) : String := String.ofList ((pieces bytes).map Piece.shown)

/-! ## What was written is read back -/

theorem toNat_ofNat_byte {n : Nat} (h : n < 256) : (UInt8.ofNat n).toNat = n := by
  simp [UInt8.toNat_ofNat', Nat.mod_eq_of_lt h]

theorem isTail_ofNat {n : Nat} (h : n < 64) : isTail (UInt8.ofNat (0x80 + n)) = true := by
  simp only [isTail, toNat_ofNat_byte (show 0x80 + n < 256 by omega), Bool.and_eq_true,
    decide_eq_true_eq]
  omega

theorem tailBits_ofNat {n : Nat} (h : n < 64) : tailBits (UInt8.ofNat (0x80 + n)) = n := by
  have e := toNat_ofNat_byte (show 0x80 + n < 256 by omega)
  unfold tailBits
  omega

theorem isSecond_iff {first last bound : Nat} {a b : UInt8} :
    isSecond first last bound a b = true ↔
      isTail b = true ∧ (a.toNat = first → bound ≤ tailBits b) ∧
        (a.toNat = last → tailBits b < bound) := by
  simp only [isSecond, Bool.and_eq_true, Bool.or_eq_true, decide_eq_true_eq, and_assoc,
    ne_eq, Decidable.imp_iff_not_or]

/-- A character stands below the surrogates or above them. -/
theorem toNat_ranges (c : Char) :
    c.toNat < 0xD800 ∨ (0xDFFF < c.toNat ∧ c.toNat < 0x110000) := by
  have h := c.valid
  simp only [UInt32.isValidChar, Nat.isValidChar] at h
  exact h

private theorem pieces_two {n : Nat} (h1 : 0x80 ≤ n) (h2 : n < 0x800) (rest : List UInt8) :
    pieces (UInt8.ofNat (0xC0 + n / 64) :: UInt8.ofNat (0x80 + n % 64) :: rest) =
      .char (Char.ofNat n) :: pieces rest := by
  have e1 : (UInt8.ofNat (0xC0 + n / 64)).toNat = 0xC0 + n / 64 := toNat_ofNat_byte (by omega)
  have hp : piece (UInt8.ofNat (0xC0 + n / 64)) (UInt8.ofNat (0x80 + n % 64) :: rest) =
      (.char (Char.ofNat n), 1) := by
    rw [piece.eq_def]
    simp only [e1]
    rw [if_neg (by omega), if_neg (by omega), if_pos (by omega)]
    simp only [isTail_ofNat (show n % 64 < 64 by omega), tailBits_ofNat (show n % 64 < 64 by omega),
      if_true]
    rw [show (0xC0 + n / 64 - 0xC0) * 64 + n % 64 = n by omega]
  rw [pieces_cons, hp]
  rfl

private theorem pieces_three {n : Nat} (h1 : 0x800 ≤ n) (h2 : n < 0x10000)
    (hs : n < 0xD800 ∨ 0xDFFF < n) (rest : List UInt8) :
    pieces (UInt8.ofNat (0xE0 + n / 4096) :: UInt8.ofNat (0x80 + n / 64 % 64) ::
      UInt8.ofNat (0x80 + n % 64) :: rest) = .char (Char.ofNat n) :: pieces rest := by
  have e1 : (UInt8.ofNat (0xE0 + n / 4096)).toNat = 0xE0 + n / 4096 := toNat_ofNat_byte (by omega)
  have t2 : isSecond 0xE0 0xED 0x20 (UInt8.ofNat (0xE0 + n / 4096))
      (UInt8.ofNat (0x80 + n / 64 % 64)) = true := by
    rw [isSecond_iff, e1, tailBits_ofNat (by omega)]
    exact ⟨isTail_ofNat (by omega), by omega, by omega⟩
  have hp : piece (UInt8.ofNat (0xE0 + n / 4096))
      (UInt8.ofNat (0x80 + n / 64 % 64) :: UInt8.ofNat (0x80 + n % 64) :: rest) =
      (.char (Char.ofNat n), 2) := by
    rw [piece.eq_def]
    simp only [e1]
    rw [if_neg (by omega), if_neg (by omega), if_neg (by omega), if_pos (by omega)]
    simp only [t2, isTail_ofNat (show n % 64 < 64 by omega),
      tailBits_ofNat (show n % 64 < 64 by omega), tailBits_ofNat (show n / 64 % 64 < 64 by omega),
      if_true]
    rw [show (0xE0 + n / 4096 - 0xE0) * 4096 + n / 64 % 64 * 64 + n % 64 = n by omega]
  rw [pieces_cons, hp]
  rfl

private theorem pieces_four {n : Nat} (h1 : 0x10000 ≤ n) (h2 : n < 0x110000) (rest : List UInt8) :
    pieces (UInt8.ofNat (0xF0 + n / 262144) :: UInt8.ofNat (0x80 + n / 4096 % 64) ::
      UInt8.ofNat (0x80 + n / 64 % 64) :: UInt8.ofNat (0x80 + n % 64) :: rest) =
      .char (Char.ofNat n) :: pieces rest := by
  have e1 : (UInt8.ofNat (0xF0 + n / 262144)).toNat = 0xF0 + n / 262144 :=
    toNat_ofNat_byte (by omega)
  have t2 : isSecond 0xF0 0xF4 0x10 (UInt8.ofNat (0xF0 + n / 262144))
      (UInt8.ofNat (0x80 + n / 4096 % 64)) = true := by
    rw [isSecond_iff, e1, tailBits_ofNat (by omega)]
    exact ⟨isTail_ofNat (by omega), by omega, by omega⟩
  have hp : piece (UInt8.ofNat (0xF0 + n / 262144))
      (UInt8.ofNat (0x80 + n / 4096 % 64) :: UInt8.ofNat (0x80 + n / 64 % 64) ::
        UInt8.ofNat (0x80 + n % 64) :: rest) = (.char (Char.ofNat n), 3) := by
    rw [piece.eq_def]
    simp only [e1]
    rw [if_neg (by omega), if_neg (by omega), if_neg (by omega), if_neg (by omega),
      if_pos (by omega)]
    simp only [t2, isTail_ofNat (show n % 64 < 64 by omega),
      isTail_ofNat (show n / 64 % 64 < 64 by omega),
      tailBits_ofNat (show n % 64 < 64 by omega), tailBits_ofNat (show n / 64 % 64 < 64 by omega),
      tailBits_ofNat (show n / 4096 % 64 < 64 by omega), if_true]
    rw [show (0xF0 + n / 262144 - 0xF0) * 262144 + n / 4096 % 64 * 4096 + n / 64 % 64 * 64 +
      n % 64 = n by omega]
  rw [pieces_cons, hp]
  rfl

theorem pieces_encodeChar (c : Char) (rest : List UInt8) :
    pieces (encodeChar c ++ rest) = .char c :: pieces rest := by
  have hr := toNat_ranges c
  have hc : Char.ofNat c.toNat = c := Char.ofNat_toNat c
  unfold encodeChar
  by_cases h1 : c.toNat < 0x80
  · have e1 : (UInt8.ofNat c.toNat).toNat = c.toNat := toNat_ofNat_byte (by omega)
    have hp : piece (UInt8.ofNat c.toNat) rest = (.char c, 0) := by
      rw [piece.eq_def]
      simp only [e1]
      rw [if_pos h1, hc]
    rw [if_pos h1, List.singleton_append, pieces_cons, hp]
    rfl
  rw [if_neg h1]
  by_cases h2 : c.toNat < 0x800
  · rw [if_pos h2]
    simpa [hc] using pieces_two (by omega) h2 rest
  rw [if_neg h2]
  by_cases h3 : c.toNat < 0x10000
  · rw [if_pos h3]
    simpa [hc] using pieces_three (by omega) h3 (by omega) rest
  · rw [if_neg h3]
    simpa [hc] using pieces_four (n := c.toNat) (by omega) (by omega) rest

theorem pieces_encode (cs : List Char) : pieces (encode cs) = cs.map .char := by
  induction cs with
  | nil => rfl
  | cons c cs ih => simp [pieces_encodeChar, ih]

theorem join_map_char (index : Nat) (cs : List Char) : join index (cs.map .char) = .ok cs := by
  induction cs generalizing index with
  | nil => rfl
  | cons c cs ih => simp [join, ih]

/-- Reading returns the characters that were written. -/
theorem decode_encode (cs : List Char) : decode (encode cs) = .ok cs := by
  rw [decode, pieces_encode, join_map_char]

/-- A text is read back from its bytes. -/
theorem toString?_ofString (s : String) : toString? (ofString s) = some s := by
  simp [toString?, ofString, decode_encode]

/-- A text is shown unchanged. -/
theorem lossy_ofString (s : String) : lossy (ofString s) = s := by
  have h : (s.toList.map Piece.char).map Piece.shown = s.toList := by
    rw [List.map_map]
    exact List.map_id _
  rw [lossy, ofString, pieces_encode, h, String.ofList_toList]

end LeaseCache.Utf8
