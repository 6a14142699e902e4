import LeaseCache.World

/-!
# Memories and their markers

The steps that read a marker: setting up a memory, recording the marker before exclusive access is
given up, and comparing it after access has come back. A marker that cannot be read is reported and
counts as a change.
-/

namespace LeaseCache

variable {σ : Type}

namespace Marker

/-- A new marker; its number. -/
def new (kind : MarkerKind) : Act σ Nat := do
  let i ← Act.look (·.markers.next)
  Act.change fun w => { w with markers := w.markers.add ⟨kind, 0⟩ }
  return i

/-- Reads a marker, which is counted. -/
def read (i : Nat) : Act σ (Except String Signal) := do
  Act.change fun w =>
    { w with markers := w.markers.modify i fun m => { m with reads := m.reads + 1 } }
  match (← Act.look (·.markers.get i)).kind with
  | .counter generation => return .ok (.generation generation)
  | .fixed answer => return answer
  | .file path =>
    match ← Act.disk (Disk.modified path) with
    | .ok time => return .ok (.modified time)
    | .error e => return .error e.message

/-- Raises the count of a marker. -/
def advance (i : Nat) : Act σ Unit :=
  Act.change fun w =>
    { w with
      markers := w.markers.modify i fun m =>
        match m.kind with
        | .counter generation => { m with kind := .counter (generation + 1) }
        | _ => m }

/-- Sets the answer of a marker. -/
def set (i : Nat) (answer : Except String Signal) : Act σ Unit :=
  Act.change fun w =>
    { w with markers := w.markers.modify i fun m => { m with kind := .fixed answer } }

end Marker

namespace Memory

/-- Reads the marker of a store for its memory; a failure is reported. -/
def reading (handle : Path) (marker : Nat) : Act σ (Option Signal) := do
  match ← Marker.read marker with
  | .ok signal => return some signal
  | .error message =>
    Act.emit (.unreadableMarker handle message)
    return none

/-- Sets up the memory of a store; its number. The initial capacity, which only reserves room, is
left out. -/
def new (handle : Path) (marker : Nat) (type : ValueType) : Act σ Nat := do
  let observed ← reading handle marker
  Act.emit (.created handle observed)
  let i ← Act.look (·.cells.next)
  Act.change fun w =>
    { w with cells := w.cells.add ⟨handle, marker, type, false, .fresh observed⟩ }
  return i

/-- Takes the marker as it is now for the one that the entries are right for. -/
def recordMarker (i : Nat) : Act σ Unit := do
  let cell ← Act.cell i
  let current ← reading cell.handle cell.marker
  Act.emit (.recordedMarker cell.handle current)
  Act.changeCache i (·.record current)

/-- Drops the entries unless the marker shows that they are still right; whether they were
dropped. -/
def invalidateIfStale (i : Nat) : Act σ Bool := do
  let cell ← Act.cell i
  let current ← reading cell.handle cell.marker
  let cache := (← Act.cell i).cache
  if cache.isFresh current then return false
  Act.changeCache i (·.invalidate current)
  Act.emit (.invalidated cell.handle cache.baseline current cache.size)
  return true

end Memory

end LeaseCache
