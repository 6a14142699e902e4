import LeaseCache.Key.Json
import LeaseCache.Store.Basic
import LeaseCache.Value.Binary
import LeaseCache.Value.Json

/-!
# Entry folders

A store with one file per key in a directory. The name of the file is found from the key alone, so
every process that opens the directory sees the same entries. A value is written to a temporary file
that then takes the entry's name: a reader sees the old entry or the new one, and every write
modifies the directory, which makes it a marker for the whole store.
-/

namespace LeaseCache

/-- How values are written in entry files. -/
inductive Format where
  | json
  | binary
  deriving DecidableEq, Repr

namespace Format

/-- A value as it is written. -/
def encode : Format → Value → List UInt8
  | .json => Value.toJson
  | .binary => Value.toBinary

/-- The value of a type that is written. -/
def decode (format : Format) (type : ValueType) (bytes : List UInt8) : Except StoreError Value :=
  match format with
  | .json => (Value.ofJson type bytes).mapError .json
  | .binary => (Value.ofBinary type bytes).mapError .binary

/-- The failure to read a file that is open. -/
def unreadable (format : Format) (e : FileError) : StoreError :=
  match format with
  | .json => .json ⟨.unreadable e.message, none⟩
  | .binary => .binary (.unreadable e.message)

end Format

/-- What a store in files does: it can fail, and keeps what it did to the files before. -/
abbrev FileCall := ExceptT StoreError (StateM FileSystem)

/-- A directory with one file per key. -/
structure EntryFolder where
  directory : Path
  format : Format
  type : ValueType
  deriving DecidableEq, Repr

namespace EntryFolder

/-- Opens a directory as a store; it is made if it is missing. -/
def create (folder : EntryFolder) : Disk Unit := Disk.makeDirectories folder.directory

/-- The file of a key. -/
def entryPath (folder : EntryFolder) (k : Key) : Except StoreError Path :=
  match k.fileName with
  | .ok name => .ok (folder.directory.join ⟨name⟩)
  | .error e => .error (.json e)

/-- The name of a temporary file. -/
def temporaryName (unique : UniqueName) : List UInt8 :=
  Utf8.ofString "." ++ unique.bytes ++ Utf8.ofString ".tmp"

/-- The path of a temporary file. -/
def temporaryPath (folder : EntryFolder) (unique : UniqueName) : Path :=
  folder.directory.join ⟨temporaryName unique⟩

/-- The value of a key. -/
def get (folder : EntryFolder) (k : Key) : FileCall (Option Value) := do
  let path ← folder.entryPath k
  match ← (Disk.openExisting path).run with
  | .error .notFound => return none
  | .error e => throw (.file e)
  | .ok place =>
    match ← (Disk.readOpen place).run with
    | .error e => throw (folder.format.unreadable e)
    | .ok bytes => some <$> (folder.format.decode folder.type bytes : Except StoreError Value)

/-- Writes a temporary file and gives it the name of the entry. -/
def replaceEntry (temporary path : Path) (bytes : List UInt8) : Disk Unit := do
  let place ← Disk.create temporary
  Disk.append place bytes
  Disk.rename temporary path

/-- Sets the value of a key. A failed attempt leaves no temporary file. -/
def put (folder : EntryFolder) (k : Key) (v : Value) : FileCall Unit := do
  let path ← folder.entryPath k
  let temporary := folder.temporaryPath (← getThe FileSystem).unique
  match ← (replaceEntry temporary path (folder.format.encode v)).run with
  | .ok () => return
  | .error e =>
    let _ ← (Disk.removeFile temporary).run
    throw (.file e)

/-- Removes the value of a key, if there is one. -/
def remove (folder : EntryFolder) (k : Key) : FileCall Unit := do
  let path ← folder.entryPath k
  match ← (Disk.removeFile path).run with
  | .ok () => return
  | .error .notFound => return
  | .error e => throw (.file e)

/-- Does something with the files of a world. A length beyond all memory ends in a panic. -/
def act {σ α : Type} (operation : FileCall α) : Act σ (Except StoreError α) := fun w =>
  match operation w.files with
  | (.error (.binary .tooLong), files) =>
    (.error (.panic Binary.Fault.tooLong.message), { w with files := files })
  | (result, files) => (.ok result, { w with files := files })

/-- The folder as a store of a world. -/
def store {σ : Type} (folder : EntryFolder) : Store σ where
  get k := act (folder.get k)
  put k v := act (folder.put k v)
  remove k := act (folder.remove k)

end EntryFolder

end LeaseCache
