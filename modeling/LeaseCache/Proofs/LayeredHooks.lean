import LeaseCache.Cabinet
import LeaseCache.Proofs.HookSweep

/-!
# Hooks inside the lock

Leases can be put around an access one after the other, as cabinets with memory are stacked. However
many there are, the hooks lie inside the time for which the lock is held: the markers are compared
after it was acquired and before anything is done, and recorded after the last thing was done and
before it is released. Main statement: `Lease.hooks_inside_the_lock`.

What is done through the outermost lease (`Nest`) leaves a list of edges (`Nest.trace`), which tells
what became of the world. `Follows` goes along such a list and allows every edge in its place only.
-/

namespace LeaseCache

variable {σ α : Type}

/-! ## Between two changes -/

/-- Does something between two changes of the world, of which the second is made also when that was
interrupted. -/
def Act.between (before after : World σ → World σ) (body : Act σ α) : Act σ α := fun w =>
  ((body (before w)).1, after (body (before w)).2)

theorem Act.between_between (before after before' after' : World σ → World σ) (body : Act σ α) :
    Act.between before after (Act.between before' after' body) =
      Act.between (before' ∘ before) (after ∘ after') body := rfl

theorem Act.ensuring_of_ok {body : Act σ α} {closing : Act σ Unit}
    (hclosing : ∀ w, ∃ w', closing w = (.ok (), w')) :
    Act.ensuring body closing = Act.between id (fun w => (closing w).2) body := by
  funext w
  obtain ⟨r, w₁, hbody⟩ : ∃ r w₁, body w = (r, w₁) := ⟨_, _, rfl⟩
  obtain ⟨w₂, hclosed⟩ := hclosing w₁
  cases r <;> simp only [Act.ensuring, Act.between, id_eq, hbody, hclosed]

/-! ## Hooks -/

namespace Lease

/-- What the hook of a phase makes of a world. -/
def hook (i : Nat) (phase : Phase) (w : World σ) : World σ := (enter i phase w).2

/-- A hook ends well in every world, and so it hides no panic and adds none. -/
theorem enter_eq_hook (i : Nat) (phase : Phase) (w : World σ) :
    enter i phase w = (.ok (), hook i phase w) := by
  obtain ⟨w', henter, -⟩ := enter_ends i phase w
  rw [hook, henter]

theorem guard_eq (i : Nat) (phase : Phase) (w : World σ) :
    guard i phase w = (.ok ⟨i, phase.other⟩, hook i phase w) :=
  Act.bind_ok _ (enter_eq_hook i phase w)

/-- The scope of a guard lies between the hooks that it runs when it is made and when it is
dropped. -/
theorem guard_eq_between (i : Nat) (phase : Phase) (body : Act σ α) :
    (do let guard ← guard i phase; Act.ensuring body guard.drop) =
      Act.between (hook i phase) (hook i phase.other) body := by
  have hensuring : Act.ensuring body (enter i phase.other) =
      Act.between id (hook i phase.other) body :=
    Act.ensuring_of_ok fun w => ⟨_, enter_eq_hook i phase.other w⟩
  funext w
  exact (Act.bind_ok _ (guard_eq i phase w)).trans (congrFun hensuring _)

/-- What is done in a phase is done in the scope of a guard. -/
theorem guard_eq_enter (i : Nat) (phase : Phase) (body : Act σ α) :
    (do let guard ← guard i phase; Act.ensuring body guard.drop) =
      (do enter i phase; Act.ensuring body (enter i phase.other)) := by
  funext w
  rw [Act.bind_ok _ (enter_eq_hook i phase w)]
  exact Act.bind_ok _ (guard_eq i phase w)

theorem locked_eq_between (i : Nat) (body : Act σ α) :
    locked i body = Act.between (hook i .locked) (hook i .unlocked) body :=
  (guard_eq_enter i .locked body).symm.trans (guard_eq_between i .locked body)

theorem unlocked_eq_between (i : Nat) (body : Act σ α) :
    unlocked i body = Act.between (hook i .unlocked) (hook i .locked) body :=
  (guard_eq_enter i .unlocked body).symm.trans (guard_eq_between i .unlocked body)

end Lease

/-! ## Locks and the leases around them -/

/-- What a lock does when it is acquired and when it is released. -/
structure Lock (σ : Type) where
  acquire : Operation → String → World σ → World σ
  release : Operation → String → World σ → World σ

/-- An access does what is asked of it once: with a lock held for that, or given up for it. -/
structure Access.Holds (access : Access σ) (lock : Lock σ) : Prop where
  useCache : ∀ {α : Type} name (body : Act σ α), access.useCache name body =
    Act.between (lock.acquire .useCache name) (lock.release .useCache name) body
  longRunning : ∀ {α : Type} name (body : Act σ α), access.longRunning name body =
    Act.between (lock.release .longRunning name) (lock.acquire .longRunning name) body

/-- An access with leases around it, the first of them outermost. -/
def Lease.wrapAll : List Nat → Access σ → Access σ
  | [], access => access
  | l :: inner, access => Lease.wrap l (wrapAll inner access)

/-- Something that is done at the edges of access, or between them. -/
inductive Edge (σ : Type) where
  | acquire (operation : Operation) (name : String)
  | release (operation : Operation) (name : String)
  /-- The hook of a lease that compares markers. -/
  | check (lease : Nat)
  /-- The hook of a lease that records markers. -/
  | record (lease : Nat)
  | action (act : Act σ Unit)

/-- What an edge makes of a world. -/
def Edge.apply (lock : Lock σ) : Edge σ → World σ → World σ
  | .acquire operation name => lock.acquire operation name
  | .release operation name => lock.release operation name
  | .check l => Lease.hook l .locked
  | .record l => Lease.hook l .unlocked
  | .action act => fun w => (act w).2

/-- What edges make of a world, one after the other. -/
def perform (lock : Lock σ) (edges : List (Edge σ)) (w : World σ) : World σ :=
  edges.foldl (fun w edge => edge.apply lock w) w

/-- Access is obtained: the lock is acquired, and the leases compare markers, the innermost first.
-/
def arrival (layers : List Nat) (operation : Operation) (name : String) : List (Edge σ) :=
  .acquire operation name :: layers.reverse.map .check

/-- Access is given up: the leases record markers, the outermost first, and the lock is released. -/
def departure (layers : List Nat) (operation : Operation) (name : String) : List (Edge σ) :=
  layers.map .record ++ [.release operation name]

section Wrapped

variable {lock : Lock σ} {access : Access σ}

theorem perform_append (lock : Lock σ) (edges more : List (Edge σ)) (w : World σ) :
    perform lock (edges ++ more) w = perform lock more (perform lock edges w) :=
  List.foldl_append

theorem perform_arrival_cons (lock : Lock σ) (l : Nat) (inner : List Nat) (operation : Operation)
    (name : String) :
    perform lock (arrival (l :: inner) operation name) =
      Lease.hook l .locked ∘ perform lock (arrival inner operation name) := by
  funext w
  rw [arrival, List.reverse_cons, List.map_append, ← List.cons_append, perform_append]
  rfl

theorem perform_departure_cons (lock : Lock σ) (l : Nat) (inner : List Nat)
    (operation : Operation) (name : String) :
    perform lock (departure (l :: inner) operation name) =
      perform lock (departure inner operation name) ∘ Lease.hook l .unlocked := rfl

/-- A lease more runs its hook inside the others and inside the access. -/
theorem Lease.wrapAll_useCache (haccess : access.Holds lock) (layers : List Nat) (name : String)
    (body : Act σ α) :
    (wrapAll layers access).useCache name body =
      Act.between (perform lock (arrival layers .useCache name))
        (perform lock (departure layers .useCache name)) body := by
  induction layers generalizing body with
  | nil => exact haccess.useCache name body
  | cons l inner ih =>
    -- the hooks of `l` are nearer to the body than all others, so it is the body that grows
    show (wrapAll inner access).useCache name (locked l body) = _
    rw [ih, locked_eq_between, Act.between_between, perform_arrival_cons, perform_departure_cons]

/-- A lease more runs its hook around the others and around the access. -/
theorem Lease.wrapAll_longRunning (haccess : access.Holds lock) (layers : List Nat) (name : String)
    (body : Act σ α) :
    (wrapAll layers access).longRunning name body =
      Act.between (perform lock (departure layers .longRunning name))
        (perform lock (arrival layers .longRunning name)) body := by
  induction layers with
  | nil => exact haccess.longRunning name body
  | cons l inner ih =>
    -- the hooks of `l` are outside all others, and the body stays what it is
    show unlocked l ((wrapAll inner access).longRunning name body) = _
    rw [ih, unlocked_eq_between, Act.between_between, perform_arrival_cons,
      perform_departure_cons]

end Wrapped

/-! ## Nested work -/

/-- Work that asks for access and gives it up. A panic passes over what is left to do, up to the
next `attempt` around it. -/
inductive Nest (σ : Type) where
  /-- Anything that does not ask, which can panic. -/
  | action (act : Act σ Unit)
  | seq (first next : Nest σ)
  /-- What is done depends on the world. -/
  | depending (next : World σ → Nest σ)
  /-- Catches a panic. -/
  | attempt (body : Nest σ)
  | useCache (name : String) (body : Nest σ)
  | longRunning (name : String) (body : Nest σ)

namespace Nest

/-- How work ends in which a panic is caught. -/
def caught : Except Interruption Unit → Except Interruption Unit
  | .error (.panic _) => .ok ()
  | r => r

/-- Does the work with an access. -/
def act (access : Access σ) : Nest σ → Act σ Unit
  | .action act => act
  | .seq first next => do
    first.act access
    next.act access
  | .depending next => fun w => (next w).act access w
  | .attempt body => do
    let _ ← Act.attempt (body.act access)
  | .useCache name body => access.useCache name (body.act access)
  | .longRunning name body => access.longRunning name (body.act access)

/-- The edges of the work and how it ends, with leases around a lock. -/
def trace (layers : List Nat) (lock : Lock σ) :
    Nest σ → World σ → Except Interruption Unit × List (Edge σ)
  | .action act, w => ((act w).1, [.action act])
  | .seq first next, w =>
    match first.trace layers lock w with
    | (.ok (), edges) =>
      let (r, more) := next.trace layers lock (perform lock edges w)
      (r, edges ++ more)
    | (.error i, edges) => (.error i, edges)
  | .depending next, w => (next w).trace layers lock w
  | .attempt body, w =>
    let (r, edges) := body.trace layers lock w
    (caught r, edges)
  | .useCache name body, w =>
    let before := arrival layers .useCache name
    let (r, edges) := body.trace layers lock (perform lock before w)
    (r, before ++ edges ++ departure layers .useCache name)
  | .longRunning name body, w =>
    let before := departure layers .longRunning name
    let (r, edges) := body.trace layers lock (perform lock before w)
    (r, before ++ edges ++ arrival layers .longRunning name)

/-- Access is asked for where it is given up, and given up where it is there. -/
def Alternates : Phase → Nest σ → Prop
  | _, .action _ => True
  | phase, .seq first next => first.Alternates phase ∧ next.Alternates phase
  | phase, .depending next => ∀ w, (next w).Alternates phase
  | phase, .attempt body => body.Alternates phase
  | phase, .useCache _ body => phase = .unlocked ∧ body.Alternates .locked
  | phase, .longRunning _ body => phase = .locked ∧ body.Alternates .unlocked

end Nest

section Nested

variable {lock : Lock σ} {access : Access σ} {layers : List Nat}

/-- What lies between two lists of edges leads on from the one to the other. -/
theorem between_perform {body : Act σ Unit} {before after edges : List (Edge σ)}
    {r : Except Interruption Unit} {w : World σ}
    (h : body (perform lock before w) = (r, perform lock edges (perform lock before w))) :
    Act.between (perform lock before) (perform lock after) body w =
      (r, perform lock (before ++ edges ++ after) w) := by
  rw [Act.between, h, perform_append, perform_append]

theorem attempt_eq_caught (body : Act σ Unit) (w : World σ) :
    (do let _ ← Act.attempt body) w = (Nest.caught (body w).1, (body w).2) := by
  obtain ⟨r, w', hbody⟩ : ∃ r w', body w = (r, w') := ⟨_, _, rfl⟩
  have hattempt : Act.attempt body w = Act.attempt (fun _ => (r, w')) w := by
    simp only [Act.attempt, hbody]
  rw [hbody]
  rcases r with (_ | _ | _) | _
  · exact Act.bind_ok _ hattempt
  · exact Act.bind_error _ hattempt
  · exact Act.bind_error _ hattempt
  · exact Act.bind_ok _ hattempt

/-- The trace tells how the work ends and what it makes of the world. -/
theorem Nest.act_eq_trace (haccess : access.Holds lock) (layers : List Nat) (nest : Nest σ)
    (w : World σ) :
    nest.act (Lease.wrapAll layers access) w =
      ((nest.trace layers lock w).1, perform lock (nest.trace layers lock w).2 w) := by
  induction nest generalizing w with
  | action act => rfl
  | seq first next ihfirst ihnext =>
    have hfirst := ihfirst w
    rw [act, trace]
    cases htrace : first.trace layers lock w with
    | mk r edges =>
      rw [htrace] at hfirst
      cases r with
      | ok =>
        rw [Act.bind_ok _ hfirst, ihnext]
        exact congrArg _ (perform_append ..).symm
      | error i => rw [Act.bind_error _ hfirst]
  | depending next ih => exact ih w w
  | attempt body ih =>
    rw [act, attempt_eq_caught, ih]
    rfl
  | useCache name body ih =>
    rw [act, Lease.wrapAll_useCache haccess]
    exact between_perform (ih _)
  | longRunning name body ih =>
    rw [act, Lease.wrapAll_longRunning haccess]
    exact between_perform (ih _)

end Nested

/-! ## Every edge in its place -/

/-- How far one is with the lock. -/
inductive Standing where
  /-- The lock is not held. -/
  | away
  /-- The lock is held, and these leases have not compared their markers since, and these others
  have not recorded them. -/
  | held (unchecked unrecorded : List Nat)

/-- How far one is outside all calls, if access is there or not. -/
def Standing.base (layers : List Nat) : Phase → Standing
  | .locked => .held [] layers
  | .unlocked => .away

/-- The edges that are in their place. Hooks are only while the lock is held. While it is held,
anything else is done only when every lease has compared its markers and none has recorded them, and
the lock is released only when every lease has. -/
inductive Standing.Next (layers : List Nat) : Standing → Edge σ → Standing → Prop
  | acquire (operation name) :
    Next layers .away (.acquire operation name) (.held layers.reverse layers)
  | check (l unchecked) :
    Next layers (.held (l :: unchecked) layers) (.check l) (.held unchecked layers)
  | inside (act) : Next layers (.held [] layers) (.action act) (.held [] layers)
  | record (l unrecorded) :
    Next layers (.held [] (l :: unrecorded)) (.record l) (.held [] unrecorded)
  | release (operation name) : Next layers (.held [] []) (.release operation name) .away
  | outside (act) : Next layers .away (.action act) .away

/-- Edges that are in their place, one after the other. -/
inductive Follows (layers : List Nat) : Standing → List (Edge σ) → Standing → Prop
  | nil (s) : Follows layers s [] s
  | cons {s s' s'' edge edges} : Standing.Next layers s edge s' → Follows layers s' edges s'' →
    Follows layers s (edge :: edges) s''

section Places

variable {layers : List Nat} {s s' s'' : Standing} {edges more : List (Edge σ)}

theorem Follows.append (h : Follows layers s edges s') (h' : Follows layers s' more s'') :
    Follows layers s (edges ++ more) s'' := by
  induction h with
  | nil => exact h'
  | cons hnext _ ih => exact .cons hnext (ih h')

theorem follows_checks (layers unchecked : List Nat) :
    Follows layers (.held unchecked layers) (unchecked.map .check : List (Edge σ))
      (.held [] layers) := by
  induction unchecked with
  | nil => exact .nil _
  | cons l rest ih => exact .cons (.check l rest) ih

theorem follows_records (layers unrecorded : List Nat) :
    Follows layers (.held [] unrecorded) (unrecorded.map .record : List (Edge σ))
      (.held [] []) := by
  induction unrecorded with
  | nil => exact .nil _
  | cons l rest ih => exact .cons (.record l rest) ih

theorem follows_arrival (layers : List Nat) (operation : Operation) (name : String) :
    Follows layers .away (arrival layers operation name : List (Edge σ)) (.held [] layers) :=
  .cons (.acquire operation name) (follows_checks layers layers.reverse)

theorem follows_departure (layers : List Nat) (operation : Operation) (name : String) :
    Follows layers (.held [] layers) (departure layers operation name : List (Edge σ)) .away :=
  (follows_records layers layers).append (.cons (.release operation name) (.nil _))

/-- Work leaves the lock as it found it, wherever it panics. -/
theorem Nest.follows_trace (layers : List Nat) (lock : Lock σ) {nest : Nest σ} {phase : Phase}
    (h : nest.Alternates phase) (w : World σ) :
    Follows layers (.base layers phase) (nest.trace layers lock w).2 (.base layers phase) := by
  induction nest generalizing phase w with
  | action act =>
    cases phase with
    | locked => exact .cons (.inside act) (.nil _)
    | unlocked => exact .cons (.outside act) (.nil _)
  | seq first next ihfirst ihnext =>
    have hfirst := ihfirst h.1 w
    rw [trace]
    cases htrace : first.trace layers lock w with
    | mk r edges =>
      rw [htrace] at hfirst
      cases r with
      | ok => exact hfirst.append (ihnext h.2 _)
      | error i =>
        -- the second part is passed over, and the first ends where it began all the same
        exact hfirst
  | depending next ih => exact ih w (h w) w
  | attempt body ih => exact ih h w
  | useCache name body ih =>
    obtain ⟨rfl, hbody⟩ := h
    exact ((follows_arrival layers ..).append (ih hbody _)).append (follows_departure layers ..)
  | longRunning name body ih =>
    obtain ⟨rfl, hbody⟩ := h
    exact ((follows_departure layers ..).append (ih hbody _)).append (follows_arrival layers ..)

end Places

/-! ## Stacked cabinets -/

namespace Cabinet

/-- The plain cabinet at the bottom. -/
def bottom : Cabinet → Cabinet
  | .plain base format => .plain base format
  | .remembering target _ _ => target.bottom

/-- The leases of the memories, the outermost first. -/
def leases : Cabinet → List Nat
  | .plain _ _ => []
  | .remembering target lease _ => lease :: target.leases

/-- The access to a cabinet is that to its bottom with the leases around it. -/
theorem access_eq_wrapAll (c : Cabinet) :
    (c.access : Access σ) = Lease.wrapAll c.leases c.bottom.access := by
  induction c with
  | plain => rfl
  | remembering target lease _ ih =>
    exact congrArg (Lease.wrap lease) ih

end Cabinet

/-- There is no lock; the span of an operation is opened where one would be acquired for it, or
released. -/
def Lock.span (base : Path) : Lock σ where
  acquire operation name w := match operation with
    | .useCache => w.report (.opened .useCache name base)
    | .longRunning => w
  release operation name w := match operation with
    | .useCache => w
    | .longRunning => w.report (.opened .longRunning name base)

theorem Cabinet.bottom_holds (c : Cabinet) :
    (c.bottom.access : Access σ).Holds (.span c.base) := by
  induction c with
  | plain base format => exact ⟨fun _ _ => rfl, fun _ _ => rfl⟩
  | remembering target _ _ ih => exact ih

/-- The hooks lie inside the time for which the lock is held, however many leases there are, one
around the other. Work with access acquires the lock, lets the leases compare their markers, the
innermost first, then does what it does, lets the leases record their markers, the outermost first,
and releases the lock. An operation with access given up does this the other way round. Neither
depends on how what is done ends. Whatever is nested in whatever, with panics and catches anywhere,
ends as its trace does and makes of the world what the edges of its trace make of it one after the
other; and if access is asked for and given up in turn, every edge is in its place. The access to a
cabinet is of this form. -/
theorem Lease.hooks_inside_the_lock {lock : Lock σ} {access : Access σ}
    (haccess : access.Holds lock) (layers : List Nat) :
    (∀ {α : Type} name (body : Act σ α), (wrapAll layers access).useCache name body =
      Act.between (perform lock (arrival layers .useCache name))
        (perform lock (departure layers .useCache name)) body) ∧
    (∀ {α : Type} name (body : Act σ α), (wrapAll layers access).longRunning name body =
      Act.between (perform lock (departure layers .longRunning name))
        (perform lock (arrival layers .longRunning name)) body) ∧
    (∀ (nest : Nest σ) w, nest.act (wrapAll layers access) w =
      ((nest.trace layers lock w).1, perform lock (nest.trace layers lock w).2 w)) ∧
    (∀ {nest : Nest σ} {phase} w, nest.Alternates phase →
      Follows layers (.base layers phase) (nest.trace layers lock w).2 (.base layers phase)) ∧
    ∀ c : Cabinet, (c.access : Access σ) = wrapAll c.leases c.bottom.access ∧
      (c.bottom.access : Access σ).Holds (.span c.base) :=
  ⟨wrapAll_useCache haccess layers, wrapAll_longRunning haccess layers,
    Nest.act_eq_trace haccess layers, fun w h => Nest.follows_trace layers lock h w,
    fun c => ⟨c.access_eq_wrapAll, c.bottom_holds⟩⟩

/-- A panic while access is given up inside work with access. -/
def breaking : Nest Unit :=
  .useCache "build" (.seq (.longRunning "run" (.action (Act.panic "broken"))) (.action (pure ())))

/-- A cabinet with two memories, one on top of the other. -/
def twoMemories : Cabinet :=
  .remembering (.remembering (.plain (Path.ofString "c") .json) 0 .default) 1 .default

/-- A world with two leases on one store each. -/
def twoLeases : World Unit :=
  let prepare : Act Unit Unit := do
    let inner ← Registry.new
    let _ ← Registry.acquire inner (Path.ofString "a") .u8 (Marker.new (.counter 0))
    let _ ← Lease.new inner
    let outer ← Registry.new
    let _ ← Registry.acquire outer (Path.ofString "a") .u8 (Marker.new (.counter 0))
    let _ ← Lease.new outer
  (prepare (World.initial ())).2

/-- The panic leaves no hook out, and none outside. -/
theorem breaking_keeps_hooks_inside_the_lock :
    let lock : Lock Unit := .span (Path.ofString "c")
    let edges := (breaking.trace [1, 0] lock twoLeases).2
    edges = [.acquire .useCache "build", .check 0, .check 1, .record 1, .record 0,
        .release .longRunning "run", .action (Act.panic "broken"), .acquire .longRunning "run",
        .check 0, .check 1, .record 1, .record 0, .release .useCache "build"] ∧
      Follows [1, 0] .away edges .away ∧
      breaking.act twoMemories.access twoLeases =
        (.error (.panic "broken"), perform lock edges twoLeases) ∧
      (perform lock edges twoLeases).hooks =
        [.locked, .locked, .unlocked, .unlocked, .locked, .locked, .unlocked, .unlocked] := by
  have hbottom : (twoMemories.bottom.access : Access Unit).Holds (.span twoMemories.base) :=
    twoMemories.bottom_holds
  obtain ⟨-, -, hact, hfollows, hcabinet⟩ := Lease.hooks_inside_the_lock hbottom [1, 0]
  have halternates : breaking.Alternates .unlocked := ⟨rfl, ⟨rfl, trivial⟩, trivial⟩
  refine ⟨rfl, hfollows twoLeases halternates, ?_, by decide +kernel⟩
  rw [(hcabinet twoMemories).1]
  exact hact breaking twoLeases

end LeaseCache
