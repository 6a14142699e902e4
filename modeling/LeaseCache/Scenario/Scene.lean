import LeaseCache.Scenario.Answer

/-!
# The scene of a scenario

What a scenario has named, and its log. A name can be given again; things that were built from its
former bearer keep that.
-/

namespace LeaseCache.Scenario

/-- What stands behind a facade. -/
inductive Backing where
  /-- A store of the scenario, with its scripts and counters. -/
  | stock (store : Nat)
  | opened (store : OpenStore)

/-- A facade: what stands behind it, and its memory. -/
structure FacadeRef where
  backing : Backing
  cell : Nat

/-- What a store of the scenario does when no script says otherwise. -/
inductive StockKind where
  | table (table : Nat)
  | folder (folder : EntryFolder)
  | facade (facade : FacadeRef)

/-- The scripts that a store has yet to play, for each call. -/
structure Scripts where
  gets : List Script
  puts : List Script
  removes : List Script

/-- A store of the scenario. -/
structure Stock where
  name : String
  type : ValueType
  kind : StockKind
  calls : Calls
  scripts : Scripts

instance : Inhabited Stock := ⟨⟨"", .string, .table 0, ⟨0, 0, 0⟩, ⟨[], [], []⟩⟩⟩

/-- What a scenario has named, and its log. -/
structure Scene where
  markers : Table String Nat
  /-- The last signal that a step got from a marker. -/
  signals : Table Nat Signal
  memories : Table String Nat
  registries : Table String Nat
  stores : Table String Nat
  stock : Pool Stock
  facades : Table String FacadeRef
  leases : Table String Nat
  cabinets : Table String Cabinet
  /-- Events are part of the log. -/
  withEvents : Bool
  log : List Line

/-- A scene in which nothing is named. -/
def Scene.initial (withEvents : Bool) : Scene :=
  ⟨.empty, .empty, .empty, .empty, .empty, .empty, .empty, .empty, .empty, withEvents, []⟩

/-- Something done in a scenario. -/
abbrev Play (α : Type) := Act Scene α

namespace Play

variable {α : Type}

/-- Looks at the scene. -/
def look (f : Scene → α) : Play α := Act.look fun w => f w.scene

/-- Changes the scene. -/
def change (f : Scene → Scene) : Play Unit := Act.change fun w => { w with scene := f w.scene }

/-- Moves the events reported so far into the log. -/
def collectEvents : Play Unit :=
  Act.change fun w =>
    { w with
      journal := []
      scene :=
        { w.scene with
          log := if w.scene.withEvents then w.scene.log ++ w.journal.map .event else w.scene.log } }

/-- Writes a line into the log. -/
def say (line : Line) : Play Unit := do
  collectEvents
  change fun s => { s with log := s.log ++ [line] }

/-- What a name stands for. -/
def named (what : Scene → Table String α) (name : String) : Play α := do
  match (← look what).get? name with
  | some a => return a
  | none => Act.panic ("nothing is named " ++ name)

/-- The value that a literal means for a type. -/
def value (type : ValueType) (literal : Literal) : Play Value :=
  match literal.value? type with
  | some v => pure v
  | none => Act.panic ("not a value of type " ++ type.name)

/-- The statistics of a memory. -/
def stats (cell : Nat) : Play Stats := do return .of (← Act.cell cell).cache

/-- The lease of a name: its own, or that of a cabinet. -/
def lease (name : String) : Play Nat := do
  match (← look Scene.leases).get? name with
  | some lease => return lease
  | none =>
    match ← named Scene.cabinets name with
    | .remembering _ lease _ => return lease
    | .plain .. => Act.panic ("no lease on " ++ name)

/-- The store of the scenario under a number. -/
def stock (i : Nat) : Play Stock := look (·.stock.get i)

/-- Changes a store of the scenario. -/
def changeStock (i : Nat) (f : Stock → Stock) : Play Unit :=
  change fun s => { s with stock := s.stock.modify i f }

end Play

end LeaseCache.Scenario
