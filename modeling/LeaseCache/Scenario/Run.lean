import LeaseCache.Scenario.Stock

/-!
# Running a scenario

Each kind of step is done by one function, which is handed `run` for the steps inside it. A panic
gives up the steps up to the nearest attempt, or the whole step of the scenario, and the scenario
goes on with the next one.

Steps are nested no deeper than there are steps: a step inside a step, or one that a store does
because a script says so, is done at most once. So the number of steps is room enough.
-/

namespace LeaseCache.Scenario

open Play

variable {α : Type}

/-! ## Files and markers -/

/-- Does something with the files. -/
def filesStep (operation : Disk Answer) : Play Answer := do
  match ← Act.disk operation with
  | .ok answer => return answer
  | .error e => return .fileFailure e.message

/-- Does something with the file at a path that need not be there. -/
def presentStep (operation : Disk Unit) : Play Answer := do
  match ← Act.disk operation with
  | .ok () => return .ok true
  | .error _ => return .ok false

/-- Makes a marker. -/
def markerStep (name : String) (kind : MarkerKind) : Play Answer := do
  let i ← Marker.new kind
  change fun s => { s with markers := s.markers.insert name i }
  match kind with
  | .file path => return .markerOf path
  | _ => return .ok true

/-- Reads a marker. -/
def signalStep (name : String) : Play Answer := do
  let i ← named Scene.markers name
  match ← Marker.read i with
  | .error message => return .fileFailure message
  | .ok signal =>
    let before := (← look Scene.signals).get? i
    change fun s => { s with signals := s.signals.insert i signal }
    let marker ← Act.look (·.markers.get i)
    let seen :=
      match marker.kind with
      | .file _ => SeenSignal.fileTime
      | _ => .value signal
    return .signal seen (before.map fun b => decide (b ≠ signal)) marker.reads

/-! ## Memories and registries -/

/-- Does something with a memory. -/
def memoryStep (name : String) (f : Nat → Play Answer) : Play Answer := do
  f (← named Scene.memories name)

/-- An entry of values for an entry of literals. -/
def entryValue (type : ValueType) : Entry Literal → Play (Entry Value)
  | .absent => pure .absent
  | .present l => do return .present (← value type l)

/-- The names of memories that are the same as one, in order. -/
def sameNames (memories : Table String Nat) (cell : Nat) : List String :=
  ((memories.pairs.filter fun p => p.2 = cell).map Prod.fst).mergeSort fun a b => decide (a ≤ b)

/-- Asks a registry for a memory. -/
def acquireStep (name registry : String) (type : ValueType) (handle : Path) (marker : String)
    (markerPanic : Option String) : Play Answer := do
  let i ← named Scene.registries registry
  let known := (← Act.look (·.registries.get i)).contains handle
  let makeMarker : Play Nat :=
    match markerPanic with
    | some message => Act.panic message
    | none => named Scene.markers marker
  match ← Registry.acquire i handle type makeMarker with
  | .error e => return .notAcquired (!known) e
  | .ok cell =>
    let same := sameNames (← look Scene.memories) cell
    change fun s => { s with memories := s.memories.insert name cell }
    return .acquired (!known) same (← Act.cell cell).handle (← stats cell)

/-- The number of a registry. -/
def registryNumber : RegistryRef → Play Nat
  | .registry name => named Scene.registries name
  | .lease name => do
    let i ← lease name
    return (← Act.look (·.leases.get i)).registry

/-- Describes a registry. -/
def describeRegistryStep (ref : RegistryRef) (asked : List Path) : Play Answer := do
  let i ← registryNumber ref
  let registry ← Act.look (·.registries.get i)
  let handles ← Act.look fun w => registry.cells.values.map fun cell => (w.cells.get cell).handle
  return .registry (asked.map registry.contains) (Path.sort handles)

/-- Does something with the memory for a place in a registry. -/
def placeStep (registry : String) (handle : Path) (f : Nat → Play Answer) : Play Answer := do
  let i ← named Scene.registries registry
  match (← Act.look (·.registries.get i)).cell? handle with
  | some cell => f cell
  | none => return .noPlace

/-! ## Stores and facades -/

/-- Names a store. -/
def nameStore (name : String) (type : ValueType) (kind : StockKind) : Play Unit :=
  change fun s =>
    { s with
      stores := s.stores.insert name s.stock.next
      stock := s.stock.add ⟨name, type, kind, ⟨0, 0, 0⟩, ⟨[], [], []⟩⟩ }

/-- Makes a store. -/
def storeStep (name : String) (type : ValueType) : StoreSource → Play Answer
  | .memory => do
    nameStore name type (.table (← Store.newTable))
    return .ok true
  | .facade facade => do
    nameStore name type (.facade (← named Scene.facades facade))
    return .ok true
  | .folder format directory => do
    let folder : EntryFolder := ⟨directory, format, type⟩
    match ← Act.disk folder.create with
    | .ok () =>
      nameStore name type (.folder folder)
      return .ok true
    | .error e => return .storeFailed (.file e)

/-- Calls a store directly. -/
def directStep (run : Step → Play Unit) (name : String)
    (call : Store Scene → Play (Except StoreError α)) (answer : α → Answer) : Play Answer := do
  let store ← bareStore run (← named Scene.stores name)
  match ← call store with
  | .ok a => return answer a
  | .error e => return .storeFailed e

/-- Describes a store. -/
def describeStoreStep (name : String) (asked : Option (List Key)) : Play Answer := do
  let store ← stock (← named Scene.stores name)
  match store.kind with
  | .table i =>
    let table ← Act.look (·.tables.get i)
    let contains := asked.map fun keys => keys.map fun k => table.contains k.identity
    return .store store.calls (some table.size) contains
  | _ => return .store store.calls none none

/-- Adds scripts for a call. -/
def scriptStep (name : String) (call : StoreCall) (queue : List Script) : Play Answer := do
  changeStock (← named Scene.stores name) fun s =>
    { s with scripts := s.scripts.setQueue (s.scripts.queue call ++ queue) call }
  return .ok true

/-- Names a facade, and its memory by the same name. -/
def nameFacade (name : String) (facade : FacadeRef) : Play Unit :=
  change fun s =>
    { s with
      facades := s.facades.insert name facade
      memories := s.memories.insert name facade.cell }

/-- Puts a memory in front of a store. -/
def facadeStep (name store memory : String) : Play Answer := do
  let i ← named Scene.stores store
  let cell ← named Scene.memories memory
  nameFacade name ⟨.stock i, cell⟩
  return .stats (← stats cell)

/-- Calls a facade. -/
def facadeCall (run : Step → Play Unit) (name : String)
    (call : Store Scene → Nat → Play (Except StoreError α)) (answer : α → Stats → Answer) :
    Play Answer := do
  let facade ← named Scene.facades name
  let store ← backing run facade.backing
  match ← call store facade.cell with
  | .ok a => return answer a (← stats facade.cell)
  | .error e => return .storeFailedWith e (← stats facade.cell)

/-! ## Phases -/

/-- The lock owner of a scenario. -/
def sceneAccess (fault : Option AccessFault) : Access Scene where
  useCache operation body := do
    say (.access .useCache operation false)
    if fault = some .before then Act.panic "lock unavailable"
    let a ← body
    say (.access .useCache operation true)
    if fault = some .after then Act.panic "lock lost"
    return a
  longRunning operation body := do
    say (.access .longRunning operation false)
    if fault = some .before then Act.panic "lock unavailable"
    let a ← body
    say (.access .longRunning operation true)
    if fault = some .after then Act.panic "lock lost"
    return a

/-- Does steps inside a phase. -/
def phaseStep (run : Step → Play Unit) (word : String) (steps : List Step)
    (phase : Play Unit → Play Unit) : Play Answer := do
  phase do
    say (.enter word)
    runAll run steps
  return .left steps.length

/-- Does steps up to a panic. -/
def attemptStep (run : Step → Play Unit) (steps : List Step) : Play Answer := do
  match ← Act.attempt (runAll run steps) with
  | .ok () => return .ran steps.length
  | .error message => return .caught message

/-- Runs a hook of a lease. -/
def hookStep (name : String) (hook : Nat → Play Unit) : Play Answer := do
  let i ← lease name
  hook i
  return .phase (← Act.look (·.leases.get i)).phase

/-! ## Cabinets -/

/-- Opens a cabinet with memory. -/
def cabinetStep (name : String) (base : Path) (format : Format) (settings : String)
    (registry : Option String) : Play Answer := do
  match Settings.ofJson (Utf8.ofString settings) with
  | .error e => return .failed (.settings e)
  | .ok settings =>
    match ← Act.disk (Cabinet.create base) with
    | .error e => return .failed (.store (.file e))
    | .ok () =>
      let i ←
        match registry with
        | some name => named Scene.registries name
        | none => Registry.new
      let lease ← Lease.new i
      let cabinet : Cabinet := .remembering (.plain base format) lease settings
      change fun s => { s with cabinets := s.cabinets.insert name cabinet }
      return .cabinet cabinet.base

/-- Opens a store of a cabinet. -/
def openStoreStep (name cabinet : String) (file : Path) (type : ValueType) : Play Answer := do
  let cabinet ← named Scene.cabinets cabinet
  match ← cabinet.openStore type file with
  | .error e => return .failed e
  | .ok (.folder folder) => return .openedPlain folder.directory
  | .ok (.facade inner cell) =>
    nameFacade name ⟨.opened inner, cell⟩
    return .opened inner.bottom.directory (← Act.cell cell).handle (← stats cell)

/-- Opens a store of the cabinet behind the memory. -/
def openPlainStoreStep (name cabinet : String) (file : Path) (type : ValueType) : Play Answer := do
  match ← named Scene.cabinets cabinet with
  | .plain .. => Act.panic ("no memory in front of " ++ cabinet)
  | .remembering target _ _ =>
    match ← target.openStore type file with
    | .error e => return .failed e
    | .ok (.folder folder) =>
      nameStore name type (.folder folder)
      return .openedPlain folder.directory
    | .ok (.facade inner cell) =>
      nameStore name type (.facade ⟨.opened inner, cell⟩)
      return .openedPlain inner.bottom.directory

/-! ## Steps -/

/-- Does an action known by a word. -/
def perform (run : Step → Play Unit) (word : String) : Action → Play Answer
  | .makeDirectory p => filesStep do Disk.makeDirectories p; return .ok true
  | .writeFile p bytes => filesStep do Disk.writeFile p bytes; return .ok true
  | .removeAll p => filesStep do Disk.removeAll p; return .ok true
  | .touch p => presentStep (Disk.touch p)
  | .setModified p seconds nanoseconds =>
    presentStep (Disk.setModified p (.instant seconds nanoseconds))
  | .list p => filesStep do return .names ((← Disk.list p).map Path.mk)
  | .readContents p asHex => filesStep do
    let bytes ← Disk.readContents p
    match if asHex then none else Utf8.toString? bytes with
    | some s => return .text s
    | none => return .hex bytes
  | .marker name kind => markerStep name kind
  | .advance name => do
    Marker.advance (← named Scene.markers name)
    return .ok true
  | .setMarker name answer => do
    Marker.set (← named Scene.markers name) answer
    return .ok true
  | .signal name => signalStep name
  | .reads name => do
    let i ← named Scene.markers name
    return .reads (← Act.look (·.markers.get i)).reads
  | .memory name type handle marker => do
    let cell ← Memory.new handle (← named Scene.markers marker) type
    change fun s => { s with memories := s.memories.insert name cell }
    return .stats (← stats cell)
  | .entry name key => memoryStep name fun cell => do
    return .entry ((← Act.cell cell).cache.get? key) (← stats cell)
  | .putEntry name key entry => memoryStep name fun cell => do
    let entry ← entryValue (← Act.cell cell).type entry
    Act.changeCache cell (·.put key entry)
    return .stats (← stats cell)
  | .removeEntry name key => memoryStep name fun cell => do
    let entry := (← Act.cell cell).cache.get? key
    Act.changeCache cell (·.remove key)
    return .entry entry (← stats cell)
  | .clear name => memoryStep name fun cell => do
    let size := (← Act.cell cell).cache.size
    Act.changeCache cell Cache.clear
    return .dropped size (← stats cell)
  | .record name => memoryStep name fun cell => do
    Memory.recordMarker cell
    return .stats (← stats cell)
  | .invalidate name => memoryStep name fun cell => do
    let cleared ← Memory.invalidateIfStale cell
    return .cleared cleared (← stats cell)
  | .describe name => memoryStep name fun cell => do
    return .memory (← Act.cell cell).handle (← stats cell)
  | .registry name => do
    let i ← Registry.new
    change fun s => { s with registries := s.registries.insert name i }
    return .ok true
  | .acquire name registry type handle marker markerPanic =>
    acquireStep name registry type handle marker markerPanic
  | .describeRegistry ref asked => describeRegistryStep ref asked
  | .recordPlace registry handle => placeStep registry handle fun cell => do
    Memory.recordMarker cell
    return .ok true
  | .invalidatePlace registry handle => placeStep registry handle fun cell => do
    return .placeCleared (← Memory.invalidateIfStale cell)
  | .store name type source => storeStep name type source
  | .storeGet name key => directStep run name (fun s => s.get key) .got
  | .storePut name key literal => do
    let v ← value (← stock (← named Scene.stores name)).type literal
    directStep run name (fun s => s.put key v) fun _ => .ok true
  | .storeRemove name key => directStep run name (fun s => s.remove key) fun _ => .ok true
  | .describeStore name asked => describeStoreStep name asked
  | .script name call queue => scriptStep name call queue
  | .facade name store memory => facadeStep name store memory
  | .get name key => do
    let key ← Facade.checkedKey key
    facadeCall run name (fun s cell => Facade.get s cell key) .gotWith
  | .lookup name key => facadeCall run name (fun s cell => Facade.lookup s cell key) .lookup
  | .put name key literal => do
    let facade ← named Scene.facades name
    let v ← value (← Act.cell facade.cell).type literal
    let key ← Facade.checkedKey key
    facadeCall run name (fun s cell => Facade.put s cell key v) fun _ => .done
  | .remove name key => do
    let key ← Facade.checkedKey key
    facadeCall run name (fun s cell => Facade.remove s cell key) fun _ => .done
  | .lease name registry => do
    let i ← Lease.new (← named Scene.registries registry)
    change fun s => { s with leases := s.leases.insert name i }
    return .ok true
  | .phase name => hookStep name fun _ => pure ()
  | .acquired name => hookStep name Lease.beforeAcquired
  | .released name => hookStep name Lease.beforeReleased
  | .locked name steps => do
    let i ← lease name
    phaseStep run word steps (Lease.locked i)
  | .unlocked name steps => do
    let i ← lease name
    phaseStep run word steps (Lease.unlocked i)
  | .useStore name operation fault steps => do
    let i ← lease name
    phaseStep run word steps ((Lease.wrap i (sceneAccess fault)).useCache operation)
  | .longRunning name operation fault steps => do
    let i ← lease name
    phaseStep run word steps ((Lease.wrap i (sceneAccess fault)).longRunning operation)
  | .panic message => Act.panic message
  | .attempt steps => attemptStep run steps
  | .cabinet name base format settings registry => cabinetStep name base format settings registry
  | .openStore name cabinet file type => openStoreStep name cabinet file type
  | .openPlainStore name cabinet file type => openPlainStoreStep name cabinet file type
  | .storePath cabinet file => do return .path ((← named Scene.cabinets cabinet).storePath file)
  | .useCabinet cabinet operation steps => do
    let c ← named Scene.cabinets cabinet
    phaseStep run word steps (c.access.useCache operation)
  | .longCabinet cabinet operation steps => do
    let c ← named Scene.cabinets cabinet
    phaseStep run word steps (c.access.longRunning operation)

/-- Does a step and logs its answer, with room for so many steps inside each other. -/
def runStep : Nat → Step → Play Unit
  | 0, _ => Act.interrupt .exhausted
  | room + 1, .mk word action => do
    let answer ← perform (runStep room) word action
    say (.answer word answer)

/-- Does the steps of a scenario; one that panics is given up. -/
def runTop (room : Nat) : List Step → Play Unit
  | [] => collectEvents
  | step :: rest => do
    match ← Act.attempt (runStep room step) with
    | .ok () => pure ()
    | .error message => say (.panicked message)
    runTop room rest

/-- The log of a scenario. -/
def run (steps : List Step) (withEvents : Bool) : List Line :=
  (runTop (countSteps steps + 1) steps (.initial (.initial withEvents))).2.scene.log

end LeaseCache.Scenario
