import LeaseCache.Failure
import LeaseCache.Value.Json

/-!
# Settings

What can be set for a cabinet with memory: the name of a master store, whose file then is the marker
of every store, and a hint for the size of the tables. Both may be left out; unknown members are
passed over.
-/

namespace LeaseCache

open LeaseCache.Json (Reader)

/-- The settings of a cabinet with memory. -/
structure Settings where
  master : Option String
  capacity : UInt64
  deriving DecidableEq, Repr

namespace Settings

/-- The settings when nothing is set. -/
def default : Settings := ⟨none, 0⟩

/-- The settings with a master store. -/
def withMaster (s : Settings) (name : String) : Settings := { s with master := some name }

/-- Settings in JSON. -/
def toJson (s : Settings) : List UInt8 :=
  Json.writeObject [("masterCacheName", Json.writeOptional Json.Text.write s.master),
    ("initialCapacity", Digits.ofNat s.capacity.toNat)]

/-- The settings that have been given. -/
structure Fields where
  master : Option (Option String)
  capacity : Option UInt64

/-- Given settings, with the defaults for the others. -/
def Fields.settings (f : Fields) : Settings :=
  ⟨f.master.getD default.master, f.capacity.getD default.capacity⟩

/-- Reads the name of the master store. -/
def masterReader : Reader (Option String) := Reader.optional Reader.text

/-- Reads the size hint. -/
def capacityReader : Reader UInt64 := do
  return UInt64.ofNat (← Reader.integer .natWord).toNat

/-- Reads a member. -/
def addField (key : String) (f : Fields) : Reader Fields := do
  if key = "masterCacheName" then
    return { f with master := some (← Reader.field key f.master masterReader) }
  else if key = "initialCapacity" then
    return { f with capacity := some (← Reader.field key f.capacity capacityReader) }
  else
    Reader.memberValue Reader.ignored
    return f

/-- Reads settings, given as an object or as the sequence of the two. -/
def reader : Reader Settings :=
  Reader.record "struct MemoryCachingConfig"
    (do
      match ← Reader.element true masterReader with
      | none => return default
      | some master =>
        let capacity ← Reader.element false capacityReader
        return ⟨master, capacity.getD default.capacity⟩)
    (do
      let f ← Reader.members addField ⟨none, none⟩
      return f.settings)

/-- The settings that a text holds. -/
def ofJson (bytes : List UInt8) : Except Json.Failure Settings :=
  Reader.document reader bytes false

/-- The settings that a file holds. -/
def ofFile (p : Path) : ExceptT Failure (StateM FileSystem) Settings := do
  match ← (Disk.readText p).run with
  | .error e => throw (.file e)
  | .ok text =>
    match ofJson (Utf8.ofString text) with
    | .ok settings => return settings
    | .error e => throw (.settings e)

end Settings

end LeaseCache
