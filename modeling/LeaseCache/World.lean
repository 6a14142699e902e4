import LeaseCache.Cache
import LeaseCache.Event
import LeaseCache.Failure
import LeaseCache.Pool

/-!
# The world and what acts on it

A `World` holds everything that is shared and changes: files, markers, memories, tables, registries,
leases, the events reported so far, and whatever the caller adds as `scene`.

An `Act` changes a world. It can be interrupted, above all by a panic; the world is kept as it was
at that moment, and `Act.ensuring` runs what must happen on the way out in either case.
-/

namespace LeaseCache

/-- What a marker looks at. -/
inductive MarkerKind where
  /-- A count that the writers of the store raise. -/
  | counter (generation : UInt64)
  /-- The modification time of a file or directory. -/
  | file (path : Path)
  /-- An answer that was set, or the words of a failure. -/
  | fixed (answer : Except String Signal)

/-- A marker, and how often it was read. -/
structure Marker where
  kind : MarkerKind
  reads : Nat

instance : Inhabited Marker := ⟨⟨.counter 0, 0⟩⟩

/-- A memory in its place: the handle of its store, the number of its marker, the type of its
values, and whether a write through it is going on. -/
structure Cell where
  handle : Path
  marker : Nat
  type : ValueType
  writing : Bool
  cache : Cache Value

instance : Inhabited Cell := ⟨⟨⟨[]⟩, 0, .string, false, .fresh none⟩⟩

/-- The memories of the stores opened so far: the number of one for each place. -/
structure Registry where
  cells : Table (List Component) Nat

instance : Inhabited Registry := ⟨⟨.empty⟩⟩

/-- The hooks at the edges of exclusive access to the stores of a registry. The depth is the number
of acquisitions less the number of releases. -/
structure Lease where
  registry : Nat
  depth : Int

instance : Inhabited Lease := ⟨⟨0, 0⟩⟩

/-- Everything that is shared and changes. -/
structure World (σ : Type) where
  files : FileSystem
  markers : Pool Marker
  cells : Pool Cell
  tables : Pool (Table Identity Value)
  registries : Pool Registry
  leases : Pool Lease
  journal : List Event
  scene : σ

/-- A world in which nothing has happened. -/
def World.initial {σ : Type} (scene : σ) : World σ :=
  ⟨.initial, .empty, .empty, .empty, .empty, .empty, [], scene⟩

/-- Why an act did not end. -/
inductive Interruption where
  | panic (message : String)
  /-- It waits for a write that waits for it. -/
  | blocked
  /-- It was nested more deeply than it was given room for. -/
  | exhausted
  deriving DecidableEq, Repr

/-- Something that changes a world. -/
def Act (σ α : Type) : Type := World σ → Except Interruption α × World σ

namespace Act

variable {σ α β : Type}

instance : Monad (Act σ) where
  pure a := fun w => (.ok a, w)
  bind act f := fun w =>
    match act w with
    | (.ok a, w') => f a w'
    | (.error i, w') => (.error i, w')

theorem pure_apply (a : α) (w : World σ) : (pure a : Act σ α) w = (.ok a, w) := rfl

theorem bind_ok {act : Act σ α} {w w' : World σ} {a : α} (f : α → Act σ β)
    (h : act w = (.ok a, w')) : (act >>= f) w = f a w' := by
  simp [bind, h]

theorem bind_error {act : Act σ α} {w w' : World σ} {i : Interruption} (f : α → Act σ β)
    (h : act w = (.error i, w')) : (act >>= f) w = (.error i, w') := by
  simp [bind, h]

/-- Looks at the world. -/
def look (f : World σ → α) : Act σ α := fun w => (.ok (f w), w)

/-- Changes the world. -/
def change (f : World σ → World σ) : Act σ Unit := fun w => (.ok (), f w)

/-- Stops. -/
def interrupt (i : Interruption) : Act σ α := fun w => (.error i, w)

/-- Panics. -/
def panic (message : String) : Act σ α := interrupt (.panic message)

/-- Does `closing` after `body`, also when that was interrupted. -/
def ensuring (body : Act σ α) (closing : Act σ Unit) : Act σ α := fun w =>
  match body w with
  | (.ok a, w') =>
    match closing w' with
    | (.ok (), w'') => (.ok a, w'')
    | (.error i, w'') => (.error i, w'')
  | (.error i, w') => (.error i, (closing w').2)

/-- Does something and gives the words of the panic it ended in, if it did. -/
def attempt (body : Act σ α) : Act σ (Except String α) := fun w =>
  match body w with
  | (.ok a, w') => (.ok (.ok a), w')
  | (.error (.panic message), w') => (.ok (.error message), w')
  | (.error i, w') => (.error i, w')

/-- Reports an event. -/
def emit (e : Event) : Act σ Unit := change fun w => { w with journal := w.journal ++ [e] }

/-- Does something with the files. -/
def disk (operation : Disk α) : Act σ (Except FileError α) := fun w =>
  match operation w.files with
  | (result, files) => (.ok result, { w with files := files })

/-- The memory under a number. -/
def cell (i : Nat) : Act σ Cell := look (·.cells.get i)

/-- Changes the memory under a number. -/
def changeCell (i : Nat) (f : Cell → Cell) : Act σ Unit :=
  change fun w => { w with cells := w.cells.modify i f }

/-- Changes the entries and counters of the memory under a number. -/
def changeCache (i : Nat) (f : Cache Value → Cache Value) : Act σ Unit :=
  changeCell i fun c => { c with cache := f c.cache }

end Act

end LeaseCache
