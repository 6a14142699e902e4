import LeaseCache.Signal
import LeaseCache.Key
import LeaseCache.Value

/-!
# Events

What the library reports while it runs. Each event has a level, a wording and named fields; opening
the span of an operation is an event too.
-/

namespace LeaseCache

/-- How much an event matters. -/
inductive Level where
  | trace | debug | warn
  deriving DecidableEq, Repr

/-- What a field of an event holds. -/
inductive FieldValue where
  | text (value : String)
  | number (value : Int)
  | flag (value : Bool)
  deriving DecidableEq, Repr

/-- An operation on a cabinet that other processes take notice of. -/
inductive Operation where
  /-- Work with exclusive access. -/
  | useCache
  /-- Work with exclusive access given up for its duration. -/
  | longRunning
  deriving DecidableEq, Repr

/-- The name of an operation. -/
def Operation.name : Operation → String
  | .useCache => "use_cache"
  | .longRunning => "long_running_operation"

/-- Something that is reported. -/
inductive Event where
  /-- The memory of a store was set up. -/
  | created (store : Path) (observed : Option Signal)
  | unreadableMarker (store : Path) (error : String)
  | recordedMarker (store : Path) (current : Option Signal)
  | invalidated (store : Path) (previous current : Option Signal) (dropped : Nat)
  | hit (store : Path) (key : Key)
  | miss (store : Path) (key : Key) (kept : Bool)
  | registered (store : Path) (type : ValueType)
  | released (depth : Int)
  | acquired (depth : Int) (invalidated : Nat)
  /-- The span of an operation was opened. -/
  | opened (operation : Operation) (name : String) (base : Path)
  deriving DecidableEq

/-- The level of an event. -/
def Event.level : Event → Level
  | .created .. => .debug
  | .unreadableMarker .. => .warn
  | .recordedMarker .. => .trace
  | .invalidated .. => .debug
  | .hit .. => .trace
  | .miss .. => .trace
  | .registered .. => .debug
  | .released .. => .trace
  | .acquired .. => .trace
  | .opened .. => .debug

/-- The wording of an event, or the name of the span that was opened. -/
def Event.message : Event → String
  | .created .. => "created in-memory cache data"
  | .unreadableMarker .. => "expiration marker is unreadable"
  | .recordedMarker .. => "recorded expiration marker"
  | .invalidated .. => "expiration marker changed, dropped in-memory entries"
  | .hit .. => "cache hit"
  | .miss .. => "cache miss"
  | .registered .. => "registered store for memory caching"
  | .released .. => "released exclusive store access"
  | .acquired .. => "acquired exclusive store access"
  | .opened operation .. => operation.name

/-- The fields of an event. -/
def Event.fields : Event → List (String × FieldValue)
  | .created store observed =>
    [("store", .text store.shown), ("observed", .text (Signal.shownReading observed))]
  | .unreadableMarker store error => [("store", .text store.shown), ("error", .text error)]
  | .recordedMarker store current =>
    [("store", .text store.shown), ("current", .text (Signal.shownReading current))]
  | .invalidated store previous current dropped =>
    [("store", .text store.shown), ("previous", .text (Signal.shownReading previous)),
      ("current", .text (Signal.shownReading current)), ("dropped", .number dropped)]
  | .hit store key => [("store", .text store.shown), ("key", .text key.shown)]
  | .miss store key kept =>
    [("store", .text store.shown), ("key", .text key.shown), ("kept", .flag kept)]
  | .registered store type => [("store", .text store.shown), ("value_type", .text type.name)]
  | .released depth => [("depth", .number depth)]
  | .acquired depth dropped => [("depth", .number depth), ("invalidated", .number dropped)]
  | .opened _ name base => [("operation", .text name), ("base_dir", .text base.shown)]

end LeaseCache
