import LeaseCache.Json.Reader
import LeaseCache.Text.Hex
import LeaseCache.Text.Utf8

/-!
# JSON texts

`Text.write` puts a text between quotes; `Text.scan` reads one from the byte after the opening quote
on. A text is checked to be UTF-8 once its closing quote is read. Where it is not, the fault is as
many bytes before that place as the text has from the first malformed byte on.
-/

namespace LeaseCache.Json

namespace Text

/-! ## Writing -/

/-- The letter that follows the backslash of a short escape. -/
def shortEscape? (b : UInt8) : Option UInt8 :=
  if b = 0x22 then some 0x22
  else if b = 0x5C then some 0x5C
  else if b = 0x08 then some 0x62
  else if b = 0x09 then some 0x74
  else if b = 0x0A then some 0x6E
  else if b = 0x0C then some 0x66
  else if b = 0x0D then some 0x72
  else none

/-- One byte of a text as it is written. -/
def writeByte (b : UInt8) : List UInt8 :=
  match shortEscape? b with
  | some letter => [0x5C, letter]
  | none => if b.toNat < 0x20 then [0x5C, 0x75, 0x30, 0x30] ++ Hex.byteDigits b else [b]

/-- A text between quotes. -/
def write (s : String) : List UInt8 :=
  0x22 :: ((Utf8.ofString s).flatMap writeByte ++ [0x22])

/-! ## Escapes -/

/-- The byte that a letter after a backslash stands for. -/
def meaning? (letter : UInt8) : Option UInt8 :=
  if letter = 0x22 then some 0x22
  else if letter = 0x5C then some 0x5C
  else if letter = 0x2F then some 0x2F
  else if letter = 0x62 then some 0x08
  else if letter = 0x66 then some 0x0C
  else if letter = 0x6E then some 0x0A
  else if letter = 0x72 then some 0x0D
  else if letter = 0x74 then some 0x09
  else none

/-- A fault inside a text, and the number of bytes after it. -/
structure Stop where
  cause : Cause
  unread : Nat

/-- The value of four hexadecimal digits. -/
def unit? (a b c d : UInt8) : Option Nat :=
  match Hex.value? a, Hex.value? b, Hex.value? c, Hex.value? d with
  | some w, some x, some y, some z => some (((w * 16 + x) * 16 + y) * 16 + z)
  | _, _, _, _ => none

/-- The value of the four hexadecimal digits at the front. -/
def unit : List UInt8 → Except Stop Nat
  | a :: b :: c :: d :: rest =>
    match unit? a b c d with
    | some n => .ok n
    | none => .error ⟨.invalidEscape, rest.length⟩
  | _ => .error ⟨.endInText, 0⟩

/-- Whether a unit opens a surrogate pair. -/
def isLeading (n : Nat) : Bool := 0xD800 ≤ n && n ≤ 0xDBFF

/-- Whether a unit closes a surrogate pair. -/
def isTrailing (n : Nat) : Bool := 0xDC00 ≤ n && n ≤ 0xDFFF

/-- The character of a surrogate pair. -/
def ofPair (leading trailing : Nat) : Char :=
  Char.ofNat ((leading - 0xD800) * 0x400 + (trailing - 0xDC00) + 0x10000)

/-- What an escape stands for, and how many bytes after its backslash belong to it. -/
def escape : List UInt8 → Except Stop (List UInt8 × Nat)
  | [] => .error ⟨.endInText, 0⟩
  | letter :: rest =>
    match meaning? letter with
    | some b => .ok ([b], 1)
    | none =>
      if letter = 0x75 then do
        let n ← unit rest
        if isTrailing n then .error ⟨.loneSurrogate, rest.length - 4⟩
        else if isLeading n then
          match rest.drop 4 with
          | [] => .error ⟨.endInText, 0⟩
          | 0x5C :: more =>
            match more with
            | [] => .error ⟨.endInText, 0⟩
            | 0x75 :: more =>
              let m ← unit more
              if isTrailing m then .ok (Utf8.encodeChar (ofPair n m), 11)
              else .error ⟨.loneSurrogate, more.length - 4⟩
            | _ :: more => .error ⟨.halfSurrogatePair, more.length⟩
          | _ :: more => .error ⟨.halfSurrogatePair, more.length⟩
        else .ok (Utf8.encodeChar (Char.ofNat n), 5)
      else .error ⟨.invalidEscape, rest.length⟩

/-! ## Reading -/

/-- Puts bytes in front of a text that was read. -/
def prepend (bytes : List UInt8) :
    Except Stop (List UInt8 × List UInt8) → Except Stop (List UInt8 × List UInt8)
  | .ok (text, rest) => .ok (bytes ++ text, rest)
  | .error stop => .error stop

/-- Reads a text up to its closing quote, after the first `skip` bytes: its bytes, and what follows
the quote. -/
def scanAfter : Nat → List UInt8 → Except Stop (List UInt8 × List UInt8)
  | _, [] => .error ⟨.endInText, 0⟩
  | skip + 1, _ :: rest => scanAfter skip rest
  | 0, b :: rest =>
    if b = 0x22 then .ok ([], rest)
    else if b = 0x5C then
      match escape rest with
      | .ok (bytes, width) => prepend bytes (scanAfter width rest)
      | .error stop => .error stop
    else if b.toNat < 0x20 then .error ⟨.controlCharacter, rest.length⟩
    else prepend [b] (scanAfter 0 rest)

/-- Reads a text up to its closing quote. -/
def scan (bytes : List UInt8) : Except Stop (List UInt8 × List UInt8) := scanAfter 0 bytes

/-- The width of an escape in a text that is passed over; surrogates need no partner there. -/
def escapeWidth : List UInt8 → Except Stop Nat
  | [] => .error ⟨.endInText, 0⟩
  | letter :: rest =>
    if (meaning? letter).isSome then .ok 1
    else if letter = 0x75 then
      match unit rest with
      | .ok _ => .ok 5
      | .error stop => .error stop
    else .error ⟨.invalidEscape, rest.length⟩

/-- Passes over a text up to its closing quote, after the first `skip` bytes: what follows the
quote. A control character counts as read in a stream only. -/
def passAfter (streamed : Bool) : Nat → List UInt8 → Except Stop (List UInt8)
  | _, [] => .error ⟨.endInText, 0⟩
  | skip + 1, _ :: rest => passAfter streamed skip rest
  | 0, b :: rest =>
    if b = 0x22 then .ok rest
    else if b = 0x5C then
      match escapeWidth rest with
      | .ok width => passAfter streamed width rest
      | .error stop => .error stop
    else if b.toNat < 0x20 then
      .error ⟨.controlCharacter, if streamed then rest.length else rest.length + 1⟩
    else passAfter streamed 0 rest

end Text

namespace Reader

/-- Reads a text after its opening quote. -/
def textBody : Reader String := fun c =>
  match Text.scan c.rest with
  | .ok (bytes, rest) =>
    match Utf8.decode bytes with
    | .ok cs => (.ok (String.ofList cs), { c with rest := rest, ahead := false })
    | .error e =>
      (.error ⟨.invalidCodePoint, some (rest.length + (bytes.length - e.index))⟩,
        { c with rest := rest, ahead := false })
  | .error stop => (.error ⟨stop.cause, some stop.unread⟩, { c with rest := [], ahead := false })

/-- Passes over a text after its opening quote. -/
def passTextBody : Reader Unit := fun c =>
  match Text.passAfter c.streamed 0 c.rest with
  | .ok rest => (.ok (), { c with rest := rest, ahead := false })
  | .error stop => (.error ⟨stop.cause, some stop.unread⟩, { c with rest := [], ahead := false })

end Reader

end LeaseCache.Json
