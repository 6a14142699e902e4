import LeaseCache.Lease
import LeaseCache.Scenario.Literal
import LeaseCache.Settings
import LeaseCache.Store.EntryFolder

/-!
# Scenarios

A scenario is a list of steps that act on things it has named: files, markers, memories, registries,
stores, facades, leases and cabinets. Some steps hold further steps, to be done inside a phase, or
by a store while it answers. A step keeps the word by which its answer is known.
-/

namespace LeaseCache.Scenario

/-- The calls of a store. -/
inductive StoreCall where
  | get
  | put
  | remove
  deriving DecidableEq, Repr

/-- The word for a call. -/
def StoreCall.name : StoreCall → String
  | .get => "get"
  | .put => "put"
  | .remove => "remove"

/-- What a named store is. -/
inductive StoreSource where
  | memory
  | folder (format : Format) (directory : Path)
  /-- A facade used as a store. -/
  | facade (name : String)

/-- Where a registry is looked for. -/
inductive RegistryRef where
  | registry (name : String)
  | lease (name : String)

/-- When the lock owner of a scenario panics. -/
inductive AccessFault where
  | before
  | after
  deriving DecidableEq

mutual

/-- A step and the word for it. -/
inductive Step where
  | mk (word : String) (action : Action)

/-- What a step does. -/
inductive Action where
  -- files
  | makeDirectory (path : Path)
  | writeFile (path : Path) (bytes : List UInt8)
  | removeAll (path : Path)
  | touch (path : Path)
  | setModified (path : Path) (seconds nanoseconds : Nat)
  | list (path : Path)
  | readContents (path : Path) (asHex : Bool)
  -- markers
  | marker (name : String) (kind : MarkerKind)
  | advance (marker : String)
  | setMarker (marker : String) (answer : Except String Signal)
  | signal (marker : String)
  | reads (marker : String)
  -- memories
  | memory (name : String) (type : ValueType) (handle : Path) (marker : String)
  | entry (memory : String) (key : Key)
  | putEntry (memory : String) (key : Key) (entry : Entry Literal)
  | removeEntry (memory : String) (key : Key)
  | clear (memory : String)
  | record (memory : String)
  | invalidate (memory : String)
  | describe (memory : String)
  -- registries
  | registry (name : String)
  | acquire (name registry : String) (type : ValueType) (handle : Path) (marker : String)
      (markerPanic : Option String)
  | describeRegistry (registry : RegistryRef) (asked : List Path)
  | recordPlace (registry : String) (handle : Path)
  | invalidatePlace (registry : String) (handle : Path)
  -- stores and facades
  | store (name : String) (type : ValueType) (source : StoreSource)
  | storeGet (store : String) (key : Key)
  | storePut (store : String) (key : Key) (value : Literal)
  | storeRemove (store : String) (key : Key)
  | describeStore (store : String) (asked : Option (List Key))
  | script (store : String) (call : StoreCall) (queue : List Script)
  | facade (name store memory : String)
  | get (facade : String) (key : DynamicKey)
  | lookup (facade : String) (key : Key)
  | put (facade : String) (key : DynamicKey) (value : Literal)
  | remove (facade : String) (key : DynamicKey)
  -- leases
  | lease (name registry : String)
  | phase (lease : String)
  | acquired (lease : String)
  | released (lease : String)
  | locked (lease : String) (steps : List Step)
  | unlocked (lease : String) (steps : List Step)
  | useStore (lease operation : String) (fault : Option AccessFault) (steps : List Step)
  | longRunning (lease operation : String) (fault : Option AccessFault) (steps : List Step)
  -- panics
  | panic (message : String)
  | attempt (steps : List Step)
  -- cabinets
  | cabinet (name : String) (base : Path) (format : Format) (settings : String)
      (registry : Option String)
  | openStore (name cabinet : String) (file : Path) (type : ValueType)
  | openPlainStore (name cabinet : String) (file : Path) (type : ValueType)
  | storePath (cabinet : String) (file : Path)
  | useCabinet (cabinet operation : String) (steps : List Step)
  | longCabinet (cabinet operation : String) (steps : List Step)

/-- How a store behaves in one call: what it does before, whether it panics or fails, what it does
after the real operation, and whether it then fails. -/
inductive Script where
  | mk (before : List Step) (panic fail : Option String) (after : List Step)
      (failAfter : Option String)

end

mutual

/-- The number of steps in a step, itself included. -/
def Step.count : Step → Nat
  | .mk _ action => action.count + 1

/-- The number of steps in an action. -/
def Action.count : Action → Nat
  | .locked _ steps => countSteps steps
  | .unlocked _ steps => countSteps steps
  | .useStore _ _ _ steps => countSteps steps
  | .longRunning _ _ _ steps => countSteps steps
  | .attempt steps => countSteps steps
  | .useCabinet _ _ steps => countSteps steps
  | .longCabinet _ _ steps => countSteps steps
  | .script _ _ queue => countScripts queue
  | _ => 0

/-- The number of steps in a script. -/
def Script.count : Script → Nat
  | .mk before _ _ after _ => countSteps before + countSteps after

/-- The number of steps in a list of steps. -/
def countSteps : List Step → Nat
  | [] => 0
  | step :: rest => step.count + countSteps rest

/-- The number of steps in a list of scripts. -/
def countScripts : List Script → Nat
  | [] => 0
  | script :: rest => script.count + countScripts rest

end

end LeaseCache.Scenario
