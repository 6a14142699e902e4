import LeaseCache.Json.Fault

/-!
# Reading a JSON document byte by byte

A reader moves a cursor over a document. It keeps the cursor when it fails, since a closing bracket
is still looked for after a fault inside the brackets, and a fault that has no place yet gets the
place where that search ends.

A byte can be looked at without being read. In a document that arrives as a stream such a byte
counts as read in the place of a fault; in a document at hand it does not, unless the fault is about
that very byte (`failLooking`).
-/

namespace LeaseCache.Json

/-- Where a reader stands. -/
structure Cursor where
  /-- The bytes not yet read. -/
  rest : List UInt8
  /-- The document arrives as a stream. -/
  streamed : Bool
  /-- The first unread byte has been looked at and counts as read. -/
  ahead : Bool

/-- The beginning of a document. -/
def Cursor.start (document : List UInt8) (streamed : Bool) : Cursor := ⟨document, streamed, false⟩

/-- The number of bytes that do not count as read. -/
def Cursor.unread (c : Cursor) : Nat := c.rest.length - if c.ahead then 1 else 0

/-- Something that reads a part of a document. -/
def Reader (α : Type) : Type := Cursor → Except Fault α × Cursor

namespace Reader

variable {α β : Type}

instance : Monad Reader where
  pure a := fun c => (.ok a, c)
  bind r f := fun c =>
    match r c with
    | (.ok a, c') => f a c'
    | (.error e, c') => (.error e, c')

theorem pure_apply (a : α) (c : Cursor) : (pure a : Reader α) c = (.ok a, c) := rfl

theorem bind_ok {r : Reader α} {c c' : Cursor} {a : α} (f : α → Reader β)
    (h : r c = (.ok a, c')) : (r >>= f) c = f a c' := by
  simp [bind, h]

theorem bind_error {r : Reader α} {c c' : Cursor} {e : Fault} (f : α → Reader β)
    (h : r c = (.error e, c')) : (r >>= f) c = (.error e, c') := by
  simp [bind, h]

/-! ## Faults -/

/-- A fault at the bytes read so far. -/
def fail (cause : Cause) : Reader α := fun c => (.error ⟨cause, some c.unread⟩, c)

/-- A fault about the byte looked at, which counts as read. -/
def failLooking (cause : Cause) : Reader α := fun c => (.error ⟨cause, some (c.rest.length - 1)⟩, c)

/-- A fault of the value read, without a place of its own. -/
def failUnplaced (cause : Cause) : Reader α := fun c => (.error ⟨cause, none⟩, c)

/-- Gives a fault without a place the place where the reader stopped. -/
def placed (r : Reader α) : Reader α := fun c =>
  match r c with
  | (.error ⟨cause, none⟩, c') => (.error ⟨cause, some c'.unread⟩, c')
  | result => result

/-- Reads a body and then what closes it, also after a fault in the body, which wins. -/
def closedBy (body : Reader α) (close : Reader Unit) : Reader α := fun c =>
  match body c with
  | (.ok a, c') =>
    match close c' with
    | (.ok (), c'') => (.ok a, c'')
    | (.error e, c'') => (.error e, c'')
  | (.error e, c') => (.error e, (close c').2)

/-! ## Bytes -/

/-- Looks at the next byte. -/
def peek : Reader (Option UInt8) := fun c =>
  (.ok c.rest.head?, { c with ahead := c.streamed && !c.rest.isEmpty })

/-- Passes over the byte looked at. -/
def advance : Reader Unit := fun c => (.ok (), { c with rest := c.rest.tail, ahead := false })

/-- Reads the next byte. -/
def next : Reader (Option UInt8) := fun c =>
  (.ok c.rest.head?, { c with rest := c.rest.tail, ahead := false })

/-- A byte that may stand between tokens. -/
def isBlank (b : UInt8) : Bool := b = 0x20 || b = 0x0A || b = 0x09 || b = 0x0D

/-- Passes over blanks and looks at the next byte. -/
def peekToken : Reader (Option UInt8) := fun c =>
  peek { c with rest := c.rest.dropWhile isBlank }

/-- Looks at the first byte of a value. -/
def peekValue : Reader UInt8 := do
  match ← peekToken with
  | some b => pure b
  | none => failLooking .endInValue

/-- Reads the remaining bytes of a word. -/
def word : List UInt8 → Reader Unit
  | [] => pure ()
  | expected :: more => do
    match ← next with
    | none => fail .endInValue
    | some b => if b = expected then word more else fail .expectedWord

/-- Reads the colon after a key. -/
def colon : Reader Unit := do
  match ← peekToken with
  | some 0x3A => advance
  | some _ => failLooking .expectedColon
  | none => failLooking .endInObject

/-- Nothing but blanks is left. -/
def atEnd : Reader Unit := do
  match ← peekToken with
  | some _ => failLooking .trailingCharacters
  | none => pure ()

/-- Reads a whole document. -/
def document (r : Reader α) (bytes : List UInt8) (streamed : Bool) : Except Failure α :=
  match (do let a ← r; atEnd; pure a : Reader α) (.start bytes streamed) with
  | (.ok a, _) => .ok a
  | (.error fault, _) => .error (fault.inDocument bytes)

end Reader

end LeaseCache.Json
