import LeaseCache.Scenario.Scene

/-!
# The stores of a scenario

A store of a scenario counts the calls of its facades and plays its scripts: it can do steps before
and after the real operation, panic, or fail instead of it or after it. `run` does a step.
-/

namespace LeaseCache.Scenario

/-- Counts a call. -/
def Calls.count (c : Calls) : StoreCall → Calls
  | .get => { c with gets := c.gets + 1 }
  | .put => { c with puts := c.puts + 1 }
  | .remove => { c with removes := c.removes + 1 }

/-- The scripts for a call. -/
def Scripts.queue (s : Scripts) : StoreCall → List Script
  | .get => s.gets
  | .put => s.puts
  | .remove => s.removes

/-- Sets the scripts for a call. -/
def Scripts.setQueue (s : Scripts) (queue : List Script) : StoreCall → Scripts
  | .get => { s with gets := queue }
  | .put => { s with puts := queue }
  | .remove => { s with removes := queue }

namespace Play

variable {α : Type}

/-- Does steps one after the other. -/
def runAll (run : Step → Play Unit) : List Step → Play Unit
  | [] => pure ()
  | step :: rest => do
    run step
    runAll run rest

/-- Does the steps that a store does around a call. -/
def runAround (run : Step → Play Unit) (i : Nat) (call : StoreCall) (after : Bool)
    (steps : List Step) : Play Unit := do
  if steps.isEmpty then return
  say (.during call (← stock i).name after)
  runAll run steps

/-- Plays a script around an operation. -/
def playScript (run : Step → Play Unit) (i : Nat) (call : StoreCall)
    (operation : Play (Except StoreError α)) : Script → Play (Except StoreError α)
  | .mk before panic fail after failAfter => do
    runAround run i call false before
    if let some message := panic then Act.panic message
    if let some message := fail then return .error (.raised message)
    let result ← operation
    runAround run i call true after
    if let some message := failAfter then return .error (.raised message)
    return result

/-- A call of a facade: it is counted, and plays the next script for it, if there is one. -/
def called (run : Step → Play Unit) (i : Nat) (call : StoreCall)
    (operation : Play (Except StoreError α)) : Play (Except StoreError α) := do
  changeStock i fun s => { s with calls := s.calls.count call }
  match (← stock i).scripts.queue call with
  | [] => operation
  | script :: rest =>
    changeStock i fun s => { s with scripts := s.scripts.setQueue rest call }
    playScript run i call operation script

/-- What a store does by itself; `deeper` are the stores made before it. -/
def bare (deeper : Nat → Store Scene) : StockKind → Store Scene
  | .table table => Store.table table
  | .folder folder => folder.store
  | .facade ⟨.opened store, cell⟩ => Facade.toStore store.store cell
  | .facade ⟨.stock i, cell⟩ => Facade.toStore (deeper i) cell

/-- The store under a number as facades see it, through at most `hops` facades used as stores. -/
def seenStore (run : Step → Play Unit) : Nat → Nat → Store Scene
  | 0, _ =>
    { get := fun _ => Act.interrupt .exhausted
      put := fun _ _ => Act.interrupt .exhausted
      remove := fun _ => Act.interrupt .exhausted }
  | hops + 1, i =>
    { get := fun k =>
        called run i .get do (bare (seenStore run hops) (← stock i).kind).get k
      put := fun k v =>
        called run i .put do (bare (seenStore run hops) (← stock i).kind).put k v
      remove := fun k =>
        called run i .remove do (bare (seenStore run hops) (← stock i).kind).remove k }

/-- The number of facades that a call can pass through. -/
def hops : Play Nat := do return (← look (·.stock.next)) + 1

/-- The store under a number, without its scripts and counters. -/
def bareStore (run : Step → Play Unit) (i : Nat) : Play (Store Scene) := do
  return bare (seenStore run (← hops)) (← stock i).kind

/-- The store behind a facade. -/
def backing (run : Step → Play Unit) : Backing → Play (Store Scene)
  | .opened store => return store.store
  | .stock i => do return seenStore run (← hops) i

end Play

end LeaseCache.Scenario
