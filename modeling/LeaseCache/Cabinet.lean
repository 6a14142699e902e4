import LeaseCache.Lease
import LeaseCache.Settings
import LeaseCache.Store.EntryFolder
import LeaseCache.Store.Facade

/-!
# Cabinets

A cabinet is a directory of stores under one lock. The plain cabinet keeps every store as an entry
folder; a cabinet with memory puts a facade in front of every store of another cabinet and runs the
hooks of a lease at the edges of its access. Cabinets with memory can be stacked. The file of a
store is resolved against the base directory once, at the bottom.
-/

namespace LeaseCache

/-- A directory of stores. -/
inductive Cabinet where
  /-- Every store is an entry folder. -/
  | plain (base : Path) (format : Format)
  /-- A memory in front of every store of another cabinet. -/
  | remembering (target : Cabinet) (lease : Nat) (settings : Settings)

/-- A store that a cabinet has opened. -/
inductive OpenStore where
  | folder (folder : EntryFolder)
  | facade (store : OpenStore) (cell : Nat)

namespace OpenStore

/-- An open store as a store of a world. -/
def store {σ : Type} : OpenStore → Store σ
  | .folder f => f.store
  | .facade inner cell => Facade.toStore inner.store cell

/-- The entry folder at the bottom. -/
def bottom : OpenStore → EntryFolder
  | .folder f => f
  | .facade inner _ => inner.bottom

end OpenStore

namespace Cabinet

variable {σ : Type}

/-- The base directory. -/
def base : Cabinet → Path
  | .plain base _ => base
  | .remembering target _ _ => target.base

/-- The place of a store. -/
def storePath (c : Cabinet) (file : Path) : Path := c.base.join file

/-- Opens a plain cabinet; its base directory is made if it is missing. -/
def create (base : Path) : Disk Unit := Disk.makeDirectories base

/-- What the marker of a store looks at: the master store if there is one, else the store itself. -/
def markerKind (c : Cabinet) (settings : Settings) (path : Path) : MarkerKind :=
  match settings.master with
  | some master => .file (c.base.join (Path.ofString master))
  | none => .file path

/-- The access to a cabinet, with the hooks of every lease on the way down. A plain cabinet only
reports what is done. -/
def access : Cabinet → Access σ
  | .plain base _ =>
    { useCache := fun operation body => do
        Act.emit (.opened .useCache operation base)
        body
      longRunning := fun operation body => do
        Act.emit (.opened .longRunning operation base)
        body }
  | .remembering target lease _ => Lease.wrap lease target.access

/-- Opens the store in a file. Of the settings of a memory only the name of the master store has an
effect; the initial capacity is left out, since it only reserves room. -/
def openStore (type : ValueType) (file : Path) : Cabinet → Act σ (Except Failure OpenStore)
  | .plain base format => do
    let folder : EntryFolder := ⟨base.join file, format, type⟩
    match ← Act.disk folder.create with
    | .ok () => return .ok (.folder folder)
    | .error e => return .error (.store (.file e))
  | .remembering target lease settings => do
    let path := target.storePath file
    match ← target.openStore type file with
    | .error e => return .error (.createStore path e)
    | .ok store =>
      let registry := (← Act.look (·.leases.get lease)).registry
      let makeMarker := Marker.new (target.markerKind settings path)
      match ← Registry.acquire registry path type makeMarker with
      | .error e => return .error e
      | .ok cell => return .ok (.facade store cell)

end Cabinet

end LeaseCache
