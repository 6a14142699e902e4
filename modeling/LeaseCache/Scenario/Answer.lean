import LeaseCache.Cabinet
import LeaseCache.Scenario.Step

/-!
# The log of a scenario

Every finished step leaves an answer in the log; stores, lock owners and phases leave lines of their
own in between, and so do events.
-/

namespace LeaseCache.Scenario

/-- The size and the counters of a memory. -/
structure Stats where
  size : Nat
  hits : Nat
  misses : Nat
  invalidations : Nat

/-- The statistics of a memory. -/
def Stats.of (c : Cache Value) : Stats := ⟨c.size, c.hits, c.misses, c.invalidations⟩

/-- How often facades called a store. -/
structure Calls where
  gets : Nat
  puts : Nat
  removes : Nat

/-- A signal as an answer shows it; the time of a file is not shown. -/
inductive SeenSignal where
  | value (signal : Signal)
  | fileTime

/-- The answer of a finished step. -/
inductive Answer where
  | ok (flag : Bool)
  | markerOf (path : Path)
  /-- A failure outside any store, in its own words. -/
  | fileFailure (message : String)
  | names (names : List Path)
  | text (content : String)
  | hex (bytes : List UInt8)
  | signal (signal : SeenSignal) (changed : Option Bool) (reads : Nat)
  | reads (count : Nat)
  | stats (stats : Stats)
  | entry (entry : Option (Entry Value)) (stats : Stats)
  | dropped (count : Nat) (stats : Stats)
  | cleared (flag : Bool) (stats : Stats)
  | memory (handle : Path) (stats : Stats)
  | acquired (created : Bool) (sameAs : List String) (handle : Path) (stats : Stats)
  | notAcquired (created : Bool) (failure : Failure)
  | registry (contains : List Bool) (handles : List Path)
  | placeCleared (flag : Bool)
  | noPlace
  | got (value? : Option Value)
  | gotWith (value? : Option Value) (stats : Stats)
  | lookup (lookup : Lookup Value) (stats : Stats)
  | done (stats : Stats)
  | storeFailed (error : StoreError)
  | storeFailedWith (error : StoreError) (stats : Stats)
  | store (calls : Calls) (size : Option Nat) (contains : Option (List Bool))
  | phase (phase : Phase)
  /-- The steps inside a phase are done and the phase is over. -/
  | left (ran : Nat)
  | ran (count : Nat)
  | caught (message : String)
  | failed (failure : Failure)
  | cabinet (base : Path)
  | opened (directory handle : Path) (stats : Stats)
  | openedPlain (directory : Path)
  | path (path : Path)

/-- A line of the log. -/
inductive Line where
  | answer (word : String) (answer : Answer)
  /-- A store is about to do steps of its own. -/
  | during (call : StoreCall) (store : String) (after : Bool)
  /-- The lock owner of the scenario begins or ends an operation. -/
  | access (operation : Operation) (name : String) (after : Bool)
  /-- The steps inside a phase begin. -/
  | enter (word : String)
  | event (event : Event)
  /-- A step was given up because of a panic. -/
  | panicked (message : String)

end LeaseCache.Scenario
