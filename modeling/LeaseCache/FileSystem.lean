import LeaseCache.Path
import LeaseCache.Signal
import LeaseCache.Table
import LeaseCache.UniqueName

/-!
# The file system

A tree of files and directories, held as a table from places to nodes; a place is the list of names
that leads to it from the root. Every modification gets a tick of the clock, and no tick is given
twice. Creating, removing and renaming a child modifies its directory; writing a file in place
modifies that file alone.

Operations keep what they did before they failed, so they are a state under an error and not the
other way round.
-/

namespace LeaseCache

/-- Why an operation on files failed. -/
inductive FileError where
  | notFound
  | exists
  | notDirectory
  | isDirectory
  | nameTooLong
  /-- A name with a byte of value zero. -/
  | invalidName
  /-- The content of a file is no text. -/
  | notText
  /-- Any other failure, in its own words. -/
  | other (message : String)
  deriving DecidableEq, Repr

/-- The wording of a failure. -/
def FileError.message : FileError → String
  | .notFound => "No such file or directory (os error 2)"
  | .exists => "File exists (os error 17)"
  | .notDirectory => "Not a directory (os error 20)"
  | .isDirectory => "Is a directory (os error 21)"
  | .nameTooLong => "File name too long (os error 36)"
  | .invalidName => "file name contained an unexpected NUL byte"
  | .notText => "stream did not contain valid UTF-8"
  | .other message => message

/-- A place in the tree. -/
abbrev Location := List (List UInt8)

/-- What a node holds. -/
inductive Content where
  | file (bytes : List UInt8)
  | directory
  deriving DecidableEq, Repr

/-- A file or a directory. -/
structure Node where
  content : Content
  modified : Timestamp
  deriving DecidableEq, Repr

/-- The tree, the working directory, the next tick of the clock, and the names that are made up at
each tick. -/
structure FileSystem where
  nodes : Table Location Node
  home : Location
  clock : Nat
  source : Nat → UniqueName

/-- An operation on files. -/
abbrev Disk := ExceptT FileError (StateM FileSystem)

namespace FileSystem

/-- A tree with an empty working directory. -/
def initial : FileSystem where
  nodes :=
    (Table.empty.insert [] ⟨.directory, .tick 0⟩).insert [[0x77]] ⟨.directory, .tick 1⟩
  home := [[0x77]]
  clock := 2
  source := .ofNat

/-- The name that is made up now. -/
def unique (fs : FileSystem) : UniqueName := fs.source fs.clock

/-- Whether a place is a directory. -/
def isDirectory (fs : FileSystem) (place : Location) : Bool :=
  match fs.nodes.get? place with
  | some ⟨.directory, _⟩ => true
  | _ => false

/-! ## Finding places -/

/-- A dot, which names the directory it stands in. -/
def dot : List UInt8 := [0x2E]

/-- Two dots, which name the directory above. -/
def dotDot : List UInt8 := [0x2E, 0x2E]

/-- The length of the longest name. -/
def maxName : Nat := 255

/-- The length of the longest path. -/
def maxPath : Nat := 4095

/-- The names in a path. -/
def names (p : Path) : List (List UInt8) := (Path.segments p.bytes).filter (· ≠ [])

/-- Whether a path ends in a slash, so that it can only be a directory. -/
def endsInSlash (p : Path) : Bool := p.bytes.getLast? = some Path.slash

/-- The place where a path begins. -/
def origin (fs : FileSystem) (p : Path) : Location := if p.isAbsolute then [] else fs.home

/-- The place that names lead to from `here`. Every step needs a directory to start from. -/
def walk (fs : FileSystem) (here : Location) : List (List UInt8) → Except FileError Location
  | [] => .ok here
  | name :: more =>
    if !fs.isDirectory here then .error .notDirectory
    else if name = dot then walk fs here more
    else if name = dotDot then walk fs here.dropLast more
    else if maxName < name.length then .error .nameTooLong
    else if (fs.nodes.get? (here ++ [name])).isSome then walk fs (here ++ [name]) more
    else .error .notFound

/-- Refuses paths that no file system call takes. -/
def checkPath (p : Path) : Except FileError Unit :=
  if p.bytes.contains 0 then .error .invalidName
  else if p.bytes = [] then .error .notFound
  else if maxPath < p.bytes.length then .error .nameTooLong
  else .ok ()

/-- The place that a path names, if something is there. -/
def locate (fs : FileSystem) (p : Path) : Except FileError Location := do
  checkPath p
  walk fs (fs.origin p) (names p ++ if endsInSlash p then [dot] else [])

/-- Where a path points when its last name need not be there yet. -/
inductive Target where
  /-- A name in a directory, with or without a slash after it. -/
  | child (parent : Location) (name : List UInt8) (slash : Bool)
  /-- A directory that is there already: the root, or one named by dots. -/
  | existing (place : Location)

/-- Where a path points. -/
def target (fs : FileSystem) (p : Path) : Except FileError Target := do
  checkPath p
  match (names p).getLast? with
  | none => return .existing (fs.origin p)
  | some name =>
    if name = dot ∨ name = dotDot then
      return .existing (← walk fs (fs.origin p) (names p))
    else
      let parent ← walk fs (fs.origin p) (names p).dropLast
      if fs.isDirectory parent then .ok (.child parent name (endsInSlash p))
      else .error .notDirectory

/-- What stands under a name in a directory, if anything does. -/
def child? (fs : FileSystem) (parent : Location) (name : List UInt8) :
    Except FileError (Option Node) :=
  if maxName < name.length then .error .nameTooLong
  else .ok (fs.nodes.get? (parent ++ [name]))

/-! ## Changing nodes -/

/-- Puts a node at a place, modified now. -/
def place (fs : FileSystem) (at' : Location) (content : Content) : FileSystem :=
  { fs with
    nodes := fs.nodes.insert at' ⟨content, .tick fs.clock⟩
    clock := fs.clock + 1 }

/-- Modifies the node at a place without changing its content. -/
def stamp (fs : FileSystem) (at' : Location) : FileSystem :=
  match fs.nodes.get? at' with
  | some node => fs.place at' node.content
  | none => fs

/-- Sets the modification time of the node at a place. -/
def setModified (fs : FileSystem) (at' : Location) (time : Timestamp) : FileSystem :=
  match fs.nodes.get? at' with
  | some node => { fs with nodes := fs.nodes.insert at' { node with modified := time } }
  | none => fs

/-- Takes the node at a place away. -/
def remove (fs : FileSystem) (at' : Location) : FileSystem :=
  { fs with nodes := fs.nodes.erase at' }

/-- Takes away what stands below a directory. -/
def clear (fs : FileSystem) (place : Location) : FileSystem :=
  let below := fs.nodes.keys.filter fun key => place.isPrefixOf key && key ≠ place
  if below.isEmpty then fs else (below.foldl remove fs).stamp place

end FileSystem

namespace Disk

open FileSystem (Target)

/-- What is found out about the tree as it is. -/
def query {α : Type} (f : FileSystem → Except FileError α) : Disk α := do
  match f (← get) with
  | .ok a => pure a
  | .error e => throw e

/-! ## Directories -/

/-- Makes a directory. -/
def makeDirectory (p : Path) : Disk Unit := do
  match ← query (·.target p) with
  | .existing _ => throw .exists
  | .child parent name _ =>
    if (← query (·.child? parent name)).isSome then throw .exists
    modify fun fs => (fs.place (parent ++ [name]) .directory).stamp parent

/-- Whether a path names a directory. -/
def namesDirectory (fs : FileSystem) (p : Path) : Bool :=
  match fs.locate p with
  | .ok place => fs.isDirectory place
  | .error _ => false

/-- Makes a directory where none is yet. -/
def makeMissingDirectory (p : Path) : Disk Unit := do
  try makeDirectory p
  catch e => if namesDirectory (← get) p then pure () else throw e

/-- Makes a directory and those above it, as far as they are missing; looks at so many of them. -/
def makeDirectoriesWithin : Nat → Path → Disk Unit
  | 0, _ => throw .notFound
  | room + 1, p => do
    if p.bytes = [] then return
    try makeMissingDirectory p
    catch
      | .notFound =>
        match p.parent? with
        | some parent =>
          makeDirectoriesWithin room parent
          makeMissingDirectory p
        | none => throw .notFound
      | e => throw e

/-- Makes a directory and those above it, as far as they are missing. -/
def makeDirectories (p : Path) : Disk Unit := makeDirectoriesWithin (p.bytes.length + 1) p

/-- The names in a directory, in order. -/
def list (p : Path) : Disk (List (List UInt8)) := do
  let place ← query (·.locate p)
  let fs ← get
  if !fs.isDirectory place then throw .notDirectory
  let children := fs.nodes.keys.filterMap fun key =>
    match key.getLast? with
    | some name => if key.dropLast = place then some name else none
    | none => none
  return children.mergeSort fun a b => compareBytes a b ≠ .gt

/-! ## Files -/

/-- Finds a file or directory to read from. -/
def openExisting (p : Path) : Disk Location := query (·.locate p)

/-- The content of an open file; an open directory has none. -/
def readOpen (place : Location) : Disk (List UInt8) := do
  match (← get).nodes.get? place with
  | some ⟨.file bytes, _⟩ => return bytes
  | some ⟨.directory, _⟩ => throw .isDirectory
  | none => throw .notFound

/-- The content of a file. -/
def readContents (p : Path) : Disk (List UInt8) := do readOpen (← openExisting p)

/-- The content of a file, which must be text. -/
def readText (p : Path) : Disk String := do
  match Utf8.toString? (← readContents p) with
  | some s => return s
  | none => throw .notText

/-- Opens a file for writing; it is new or loses what it held. A path that ends in a slash is
refused before its last name is looked up. -/
def create (p : Path) : Disk Location := do
  match ← query (·.target p) with
  | .existing _ => throw .isDirectory
  | .child _ _ true => throw .isDirectory
  | .child parent name false =>
    match ← query (·.child? parent name) with
    | some ⟨.directory, _⟩ => throw .isDirectory
    | some ⟨.file _, _⟩ => modify (·.place (parent ++ [name]) (.file []))
    | none => modify fun fs => (fs.place (parent ++ [name]) (.file [])).stamp parent
    return parent ++ [name]

/-- Writes bytes at the end of an open file. -/
def append (place : Location) (bytes : List UInt8) : Disk Unit := do
  let fs ← get
  match fs.nodes.get? place with
  | some ⟨.file old, _⟩ => set (fs.place place (.file (old ++ bytes)))
  | _ => throw .notFound

/-- Writes a whole file, new or in place of what it held. -/
def writeFile (p : Path) (bytes : List UInt8) : Disk Unit := do append (← create p) bytes

/-- Removes a file. -/
def removeFile (p : Path) : Disk Unit := do
  match ← query (·.target p) with
  | .existing _ => throw .isDirectory
  | .child parent name slash =>
    match ← query (·.child? parent name) with
    | none => throw .notFound
    | some ⟨.directory, _⟩ => throw .isDirectory
    | some ⟨.file _, _⟩ =>
      if slash then throw .notDirectory
      modify fun fs => (fs.remove (parent ++ [name])).stamp parent

/-- Moves a file to another name, in place of a file that is there. -/
def rename (source destination : Path) : Disk Unit := do
  let fs ← get
  match ← query (·.target source), ← query (·.target destination) with
  | .child parent name _, .child parent' name' _ =>
    match ← query (·.child? parent name), ← query (·.child? parent' name') with
    | none, _ => throw .notFound
    | some ⟨.file _, _⟩, some ⟨.directory, _⟩ => throw .isDirectory
    | some node, _ =>
      let nodes := (fs.nodes.erase (parent ++ [name])).insert (parent' ++ [name']) node
      set (({ fs with nodes := nodes }.stamp parent).stamp parent')
  | _, _ => throw .exists

/-! ## Anything -/

/-- Why a directory that is not named by its own name cannot be removed. -/
def removalRefusal (p : Path) : FileError :=
  match (FileSystem.names p).getLast? with
  | none => .other "Device or resource busy (os error 16)"
  | some name =>
    if name = FileSystem.dot then .other "Invalid argument (os error 22)"
    else .other "Directory not empty (os error 39)"

/-- Removes a file, or a directory with what it holds. A directory named by dots is emptied and then
refused, unless the path to it went with what it held. -/
def removeAll (p : Path) : Disk Unit := do
  match ← query (·.target p) with
  | .existing place =>
    modify (·.clear place)
    let fs ← get
    match fs.walk (fs.origin p) (FileSystem.names p).dropLast with
    | .error .notFound => pure ()
    | .error e => throw e
    | .ok _ => throw (removalRefusal p)
  | .child parent name slash =>
    match ← query (·.child? parent name) with
    | none => throw .notFound
    | some ⟨.file _, _⟩ => if slash then throw .notDirectory
    | some ⟨.directory, _⟩ => modify (·.clear (parent ++ [name]))
    modify fun fs => (fs.remove (parent ++ [name])).stamp parent

/-- The modification time of a file or directory. -/
def modified (p : Path) : Disk Timestamp := do
  let place ← query (·.locate p)
  match (← get).nodes.get? place with
  | some node => return node.modified
  | none => throw .notFound

/-- Sets the modification time of a file or directory. -/
def setModified (p : Path) (time : Timestamp) : Disk Unit := do
  let place ← query (·.locate p)
  modify (·.setModified place time)

/-- Gives a file or directory a new modification time. -/
def touch (p : Path) : Disk Unit := do
  let place ← query (·.locate p)
  modify (·.stamp place)

end Disk

end LeaseCache
