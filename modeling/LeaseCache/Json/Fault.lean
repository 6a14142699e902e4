import LeaseCache.Decimal.Shortest
import LeaseCache.Text.Quoted

/-!
# What can be wrong with a JSON document

A fault is a cause and a place. The cause says what is wrong, in one wording per constructor; the
place is the number of bytes not yet read, from which `Position.ofUnread` finds line and column.
-/

namespace LeaseCache.Json

/-- What stands where something else was expected. -/
inductive Found where
  | null
  | flag (value : Bool)
  | natural (value : Nat)
  | negative (value : Int)
  | real (value : Float)
  | text (value : String)
  | sequence
  | map
  /-- A variant that is only named. -/
  | bareVariant

/-- Fractions stand in messages in positional form from a hundred-thousandth up to sixteen digits
before the point. -/
def fractionStyle : Shortest.Style := ⟨-5, 16, "+"⟩

/-- The wording of what was found. -/
def Found.shown : Found → String
  | .null => "null"
  | .flag b => "boolean `" ++ (if b then "true" else "false") ++ "`"
  | .natural n => "integer `" ++ toString n ++ "`"
  | .negative n => "integer `" ++ toString n ++ "`"
  | .real x => "floating point `" ++ Shortest.render fractionStyle x ++ "`"
  | .text s => "string " ++ Quoted.render s
  | .sequence => "sequence"
  | .map => "map"
  | .bareVariant => "unit variant"

/-- What is wrong. -/
inductive Cause where
  | endInList
  | endInObject
  | endInText
  | endInValue
  | expectedColon
  | expectedCommaOrBracket
  | expectedCommaOrBrace
  | expectedWord
  | expectedValue
  | invalidEscape
  | invalidNumber
  | numberOutOfRange
  | invalidCodePoint
  | controlCharacter
  | keyNotText
  | loneSurrogate
  | halfSurrogatePair
  | trailingComma
  | trailingCharacters
  /-- A value of the wrong kind. -/
  | wrongKind (found : Found) (expected : String)
  /-- A value of the right kind that does not fit. -/
  | wrongValue (found : Found) (expected : String)
  /-- A sequence that is too short. -/
  | wrongLength (length : Nat) (expected : String)
  | unknownVariant (name : String) (variants : List String)
  | missingField (name : String)
  | repeatedField (name : String)
  /-- A path that is no text cannot be written. -/
  | pathNotText
  /-- The document could not be read on; the wording is the file system's. -/
  | unreadable (message : String)

/-- A name as it stands in messages. -/
def ticked (name : String) : String := "`" ++ name ++ "`"

/-- The wording of a choice among names. -/
def oneOf : List String → String
  | [] => "there are no variants"
  | [a] => "expected " ++ ticked a
  | [a, b] => "expected " ++ ticked a ++ " or " ++ ticked b
  | names => "expected one of " ++ ", ".intercalate (names.map ticked)

/-- The wording of a cause. -/
def Cause.message : Cause → String
  | .endInList => "EOF while parsing a list"
  | .endInObject => "EOF while parsing an object"
  | .endInText => "EOF while parsing a string"
  | .endInValue => "EOF while parsing a value"
  | .expectedColon => "expected `:`"
  | .expectedCommaOrBracket => "expected `,` or `]`"
  | .expectedCommaOrBrace => "expected `,` or `\x7d`"
  | .expectedWord => "expected ident"
  | .expectedValue => "expected value"
  | .invalidEscape => "invalid escape"
  | .invalidNumber => "invalid number"
  | .numberOutOfRange => "number out of range"
  | .invalidCodePoint => "invalid unicode code point"
  | .controlCharacter => "control character (\\u0000-\\u001F) found while parsing a string"
  | .keyNotText => "key must be a string"
  | .loneSurrogate => "lone leading surrogate in hex escape"
  | .halfSurrogatePair => "unexpected end of hex escape"
  | .trailingComma => "trailing comma"
  | .trailingCharacters => "trailing characters"
  | .wrongKind found expected => "invalid type: " ++ found.shown ++ ", expected " ++ expected
  | .wrongValue found expected => "invalid value: " ++ found.shown ++ ", expected " ++ expected
  | .wrongLength n expected => "invalid length " ++ toString n ++ ", expected " ++ expected
  | .unknownVariant name variants => "unknown variant " ++ ticked name ++ ", " ++ oneOf variants
  | .missingField name => "missing field " ++ ticked name
  | .repeatedField name => "duplicate field " ++ ticked name
  | .pathNotText => "path contains invalid UTF-8 characters"
  | .unreadable message => message

/-- A cause, and how many bytes were not yet read when it was noticed; no number for a cause that
is not tied to a place. -/
structure Fault where
  cause : Cause
  unread : Option Nat

/-- A place in a document: lines count from one, columns count the bytes of the line before it. -/
structure Position where
  line : Nat
  column : Nat
  deriving DecidableEq, Repr

/-- The place after a run of bytes. -/
def Position.after (bytes : List UInt8) : Position :=
  bytes.foldl (fun p b => if b = 0x0A then ⟨p.line + 1, 0⟩ else ⟨p.line, p.column + 1⟩) ⟨1, 0⟩

/-- The place with so many bytes of a document left. -/
def Position.ofUnread (document : List UInt8) (unread : Nat) : Position :=
  .after (document.take (document.length - unread))

/-- A fault of a known document. -/
structure Failure where
  cause : Cause
  position : Option Position

/-- A fault, placed in its document. -/
def Fault.inDocument (fault : Fault) (document : List UInt8) : Failure :=
  ⟨fault.cause, fault.unread.map (Position.ofUnread document)⟩

/-- The wording of a failure. -/
def Failure.message (f : Failure) : String :=
  match f.position with
  | none => f.cause.message
  | some p =>
    f.cause.message ++ " at line " ++ toString p.line ++ " column " ++ toString p.column

end LeaseCache.Json
