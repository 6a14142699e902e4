import LeaseCache.Cabinet
import LeaseCache.Proofs.HookSpec

/-!
# Programs of lock phases

A `Program` uses the stores and gives access up for long operations, nested and one after the other
in any way, and in between looks up keys, writes, or lets another process write. Run on a world, it
does one `Move` after the other, and a `View` follows what the moves do to one store, its memory,
its marker and the depth. Main statement: `Program.run_ok`, running a program does what its moves do
to the view.
-/

namespace LeaseCache

variable {σ : Type}

/-- One store, its memory and its marker, and the depth of the lease. -/
structure View where
  cache : Cache Value
  content : Identity → Option Value
  signal : Signal
  depth : Int

/-- What happens to a view. -/
inductive Move where
  /-- The acquire hook. -/
  | acquired
  /-- The release hook. -/
  | released
  | lookup (key : Key)
  /-- A write through the facade; it can move the marker. -/
  | write (w : Write Value) (moved : Option Signal)
  /-- A write of another process; it moves the marker. -/
  | foreign (w : Write Value) (signal : Signal)

/-- A lookup that was made: its answer, and what the store held then. -/
structure Report where
  answer : Except StoreError (Option Value)
  held : Option Value

/-- The answer is what the store held. -/
def Report.Right (r : Report) : Prop := r.answer = .ok r.held

/-- What a store holds after a write. -/
def Write.apply (w : Write Value) (content : Identity → Option Value) :
    Identity → Option Value :=
  fun l => if w.key.identity = l then w.value? else content l

namespace Cache

variable {V : Type}

/-- What a lookup does to the memory when the store holds `x`. -/
def ask (c : Cache V) (k : Key) (x : Option V) : Cache V :=
  match c.probe k with
  | .cached _ => c.countHit
  | .vacant n => c.countMiss.fill k (.ofOption x) n

/-- What a lookup answers when the store holds `x`. -/
def answer (c : Cache V) (k : Key) (x : Option V) : Option V :=
  match c.probe k with
  | .cached e => e.value?
  | .vacant _ => x

end Cache

namespace View

/-- A move of the view. -/
def step (v : View) : Move → View
  | .acquired => { v with cache := v.cache.invalidate (some v.signal), depth := v.depth + 1 }
  | .released => { v with cache := v.cache.record (some v.signal), depth := v.depth - 1 }
  | .lookup k => { v with cache := v.cache.ask k (v.content k.identity) }
  | .write w moved =>
    { v with
      cache := v.cache.settle w true
      content := w.apply v.content
      signal := moved.getD v.signal }
  | .foreign w signal => { v with content := w.apply v.content, signal := signal }

/-- The view after moves. -/
def run (v : View) (moves : List Move) : View := moves.foldl step v

/-- What a move reports, if it is a lookup. -/
def report? (v : View) : Move → Option Report
  | .lookup k => some ⟨.ok (v.cache.answer k (v.content k.identity)), v.content k.identity⟩
  | _ => none

/-- The lookups among moves. -/
def reports (v : View) : List Move → List Report
  | [] => []
  | move :: more => (v.report? move).toList ++ reports (v.step move) more

theorem run_cons (v : View) (m : Move) (ms : List Move) : v.run (m :: ms) = (v.step m).run ms :=
  rfl

theorem run_append (v : View) (ms ns : List Move) : v.run (ms ++ ns) = (v.run ms).run ns :=
  List.foldl_append

theorem reports_acquired (v : View) (ms : List Move) :
    v.reports (.acquired :: ms) = (v.step .acquired).reports ms := rfl

theorem reports_released (v : View) (ms : List Move) :
    v.reports (.released :: ms) = (v.step .released).reports ms := rfl

theorem reports_append (v : View) (ms ns : List Move) :
    v.reports (ms ++ ns) = v.reports ms ++ (v.run ms).reports ns := by
  induction ms generalizing v with
  | nil => rfl
  | cons m ms ih =>
    rw [List.cons_append, reports, reports, ih, List.append_assoc]
    rfl

end View

/-- What a process does with a store. -/
inductive Program where
  | done
  | lookup (key : Key) (rest : Program)
  | write (w : Write Value) (moved : Option Signal) (rest : Program)
  | foreign (w : Write Value) (signal : Signal) (rest : Program)
  | useStore (operation : String) (body rest : Program)
  | longRunning (operation : String) (body rest : Program)

/-- The moves of a program. -/
def Program.moves : Program → List Move
  | .done => []
  | .lookup k rest => .lookup k :: rest.moves
  | .write w moved rest => .write w moved :: rest.moves
  | .foreign w signal rest => .foreign w signal :: rest.moves
  | .useStore _ body rest => .acquired :: (body.moves ++ .released :: rest.moves)
  | .longRunning _ body rest => .released :: (body.moves ++ .acquired :: rest.moves)

/-- Where a program finds its store, the memory, the marker and the lease. -/
structure Site where
  table : Nat
  cell : Nat
  marker : Nat
  lease : Nat

namespace Site

/-- The store behind the memory. -/
def store (site : Site) : Store σ := .table site.table

/-- Looks a key up through the facade; the answer, and what the store held then. -/
def lookup (site : Site) (k : Key) : Act σ Report := do
  let held ← Act.look fun w => (w.tables.get site.table).get? k.identity
  let answer ← Facade.get site.store site.cell k
  return ⟨answer, held⟩

/-- Moves the marker. -/
def moveMarker (site : Site) : Option Signal → Act σ Unit
  | some signal => Marker.set site.marker (.ok signal)
  | none => pure ()

/-- A write through the facade. -/
def write (site : Site) (wr : Write Value) (moved : Option Signal) : Act σ Unit := do
  let _ ← wr.on (Facade.toStore site.store site.cell)
  site.moveMarker moved

/-- A write of another process. -/
def foreign (site : Site) (wr : Write Value) (signal : Signal) : Act σ Unit := do
  let _ ← wr.on site.store
  site.moveMarker (some signal)

end Site

/-- Runs a program, with the hooks of the lease at the edges of the access; the lookups it made. -/
def Program.run (site : Site) (access : Access σ) : Program → Act σ (List Report)
  | .done => pure []
  | .lookup k rest => do
    let report ← site.lookup k
    return report :: (← rest.run site access)
  | .write wr moved rest => do
    site.write wr moved
    rest.run site access
  | .foreign wr signal rest => do
    site.foreign wr signal
    rest.run site access
  | .useStore operation body rest => do
    let first ← (Lease.wrap site.lease access).useCache operation (body.run site access)
    return first ++ (← rest.run site access)
  | .longRunning operation body rest => do
    let first ← (Lease.wrap site.lease access).longRunning operation (body.run site access)
    return first ++ (← rest.run site access)

/-! ## What a world shows of a view -/

/-- A world shows a view: at the site stand the memory, no write of it going on, a marker that can
be read, and a lease whose registry has the memory among others. -/
structure View.Shown (site : Site) (w : World σ) (v : View) : Prop where
  cache : (w.cells.get site.cell).cache = v.cache
  idle : (w.cells.get site.cell).writing = false
  watched : (w.cells.get site.cell).marker = site.marker
  signal : (w.markers.get site.marker).kind = .fixed (.ok v.signal)
  content : ∀ l, (w.tables.get site.table).get? l = v.content l
  depth : (w.leases.get site.lease).depth = v.depth
  registered : site.cell ∈ (w.registries.get (w.leases.get site.lease).registry).cells.values

namespace View.Shown

variable {site : Site} {w w' : World σ} {v : View}

theorem of_alike (hs : v.Shown site w) (h : w.Alike w') : v.Shown site w' where
  cache := by rw [h.cells, hs.cache]
  idle := by rw [h.cells, hs.idle]
  watched := by rw [h.cells, hs.watched]
  signal := by rw [h.kinds, hs.signal]
  content l := by rw [h.tables, hs.content]
  depth := by rw [h.leases, hs.depth]
  registered := by rw [h.leases, h.registries]; exact hs.registered

theorem changed_self {f : Cache Value → Cache Value} (hs : v.Shown site w)
    (h : w.Changed site.cell f w') : ({ v with cache := f v.cache } : View).Shown site w' where
  cache := by rw [h.cells, if_pos rfl, hs.cache]
  idle := by rw [h.cells, if_pos rfl, hs.idle]
  watched := by rw [h.cells, if_pos rfl, hs.watched]
  signal := by rw [h.kinds, hs.signal]
  content l := by rw [h.tables, hs.content]
  depth := by rw [h.leases, hs.depth]
  registered := by rw [h.leases, h.registries]; exact hs.registered

theorem changed_other {c : Nat} {f : Cache Value → Cache Value} (hs : v.Shown site w)
    (hc : c ≠ site.cell) (h : w.Changed c f w') : v.Shown site w' where
  cache := by rw [h.cells, if_neg hc.symm, hs.cache]
  idle := by rw [h.cells, if_neg hc.symm, hs.idle]
  watched := by rw [h.cells, if_neg hc.symm, hs.watched]
  signal := by rw [h.kinds, hs.signal]
  content l := by rw [h.tables, hs.content]
  depth := by rw [h.leases, hs.depth]
  registered := by rw [h.leases, h.registries]; exact hs.registered

/-- The lease is in its locked phase while the depth is positive. -/
theorem phase_eq_locked_iff (hs : v.Shown site w) :
    (w.leases.get site.lease).phase = .locked ↔ 0 < v.depth := by
  rw [Lease.phase_eq_locked_iff, hs.depth]

/-! ## The hooks -/

/-- Recording twice is recording once. -/
theorem recordAll_ok (hs : v.Shown site w) (cells : List Nat) :
    ∃ w', Lease.recordAll cells w = (.ok (), w') ∧
      ({ v with cache :=
        if site.cell ∈ cells then v.cache.record (some v.signal) else v.cache } : View).Shown
          site w' := by
  induction cells generalizing w v with
  | nil => exact ⟨w, rfl, hs⟩
  | cons c rest ih =>
    obtain ⟨r, w₁, hrecord, hchanged, hfixed⟩ := Memory.recordMarker_ok c w
    rw [Lease.recordAll, Act.bind_ok _ hrecord]
    by_cases hc : c = site.cell
    · subst hc
      have hr : r = some v.signal := hfixed (.ok v.signal) (by rw [hs.watched, hs.signal])
      subst hr
      obtain ⟨w', hrest, hs'⟩ := ih (hs.changed_self hchanged)
      refine ⟨w', hrest, ?_⟩
      rw [if_pos List.mem_cons_self]
      rw [show Cache.record (Cache.record v.cache (some v.signal)) (some v.signal) =
        v.cache.record (some v.signal) from rfl, ite_self] at hs'
      exact hs'
    · obtain ⟨w', hrest, hs'⟩ := ih (hs.changed_other hc hchanged)
      refine ⟨w', hrest, ?_⟩
      simpa only [List.mem_cons, Ne.symm hc, false_or] using hs'

/-- Invalidating twice is invalidating once. -/
theorem invalidateAll_ok (hs : v.Shown site w) (cells : List Nat) :
    ∃ n w', Lease.invalidateAll cells w = (.ok n, w') ∧
      ({ v with cache :=
        if site.cell ∈ cells then v.cache.invalidate (some v.signal) else v.cache } : View).Shown
          site w' := by
  induction cells generalizing w v with
  | nil => exact ⟨0, w, rfl, hs⟩
  | cons c rest ih =>
    obtain ⟨r, b, w₁, hinvalidate, hchanged, hfixed⟩ := Memory.invalidateIfStale_ok c w
    rw [Lease.invalidateAll, Act.bind_ok _ hinvalidate]
    by_cases hc : c = site.cell
    · subst hc
      have hr : r = some v.signal := hfixed (.ok v.signal) (by rw [hs.watched, hs.signal])
      subst hr
      obtain ⟨n, w', hrest, hs'⟩ := ih (hs.changed_self hchanged)
      rw [Act.bind_ok _ hrest]
      refine ⟨_, w', rfl, ?_⟩
      rw [if_pos List.mem_cons_self]
      rw [Cache.invalidate_invalidate, ite_self] at hs'
      exact hs'
    · obtain ⟨n, w', hrest, hs'⟩ := ih (hs.changed_other hc hchanged)
      rw [Act.bind_ok _ hrest]
      refine ⟨_, w', rfl, ?_⟩
      simpa only [List.mem_cons, Ne.symm hc, false_or] using hs'

theorem shift (hs : v.Shown site w) (by' : Int) :
    ∃ w', Lease.shift site.lease by' w = (.ok (v.depth + by'), w') ∧
      ({ v with depth := v.depth + by' } : View).Shown site w' := by
  let w' : World σ :=
    { w with leases := w.leases.modify site.lease fun l => { l with depth := l.depth + by' } }
  have hlease : w'.leases.get site.lease =
      { w.leases.get site.lease with depth := v.depth + by' } := by
    rw [Pool.get_modify, if_pos rfl, hs.depth]
  refine ⟨w', ?_, hs.cache, hs.idle, hs.watched, hs.signal, hs.content, ?_, ?_⟩
  · show (Except.ok (w'.leases.get site.lease).depth, w') = _
    rw [hlease]
  · rw [hlease]
  · rw [hlease]
    exact hs.registered

theorem beforeReleased_ok (hs : v.Shown site w) :
    ∃ w', Lease.beforeReleased site.lease w = (.ok (), w') ∧ (v.step .released).Shown site w' := by
  obtain ⟨w₁, hrecord, hs₁⟩ :=
    hs.recordAll_ok (w.registries.get (w.leases.get site.lease).registry).cells.values
  rw [if_pos hs.registered] at hs₁
  obtain ⟨w₂, hshift, hs₂⟩ := hs₁.shift (-1)
  rw [Lease.beforeReleased, Act.bind_ok _ (show Lease.cells site.lease w = (.ok _, w) from rfl),
    Act.bind_ok _ hrecord, Act.bind_ok _ hshift]
  exact ⟨_, rfl, hs₂.of_alike (w₂.alike_report _)⟩

theorem beforeAcquired_ok (hs : v.Shown site w) :
    ∃ w', Lease.beforeAcquired site.lease w = (.ok (), w') ∧ (v.step .acquired).Shown site w' := by
  obtain ⟨w₁, hshift, hs₁⟩ := hs.shift 1
  obtain ⟨n, w₂, hinvalidate, hs₂⟩ :=
    hs₁.invalidateAll_ok (w₁.registries.get (w₁.leases.get site.lease).registry).cells.values
  rw [if_pos hs₁.registered] at hs₂
  rw [Lease.beforeAcquired, Act.bind_ok _ hshift,
    Act.bind_ok _ (show Lease.cells site.lease w₁ = (.ok _, w₁) from rfl),
    Act.bind_ok _ hinvalidate]
  exact ⟨_, rfl, hs₂.of_alike (w₂.alike_report _)⟩

/-! ## Lookups and writes -/

theorem setCache (hs : v.Shown site w) (f : Cache Value → Cache Value) :
    ({ v with cache := f v.cache } : View).Shown site (w.setCache site.cell f) :=
  hs.changed_self ((World.Alike.refl w).setCache site.cell f)

theorem lookup_ok (hs : v.Shown site w) (k : Key) :
    ∃ w', site.lookup k w =
        (.ok ⟨.ok (v.cache.answer k (v.content k.identity)), v.content k.identity⟩, w') ∧
      (v.step (.lookup k)).Shown site w' := by
  have hheld : (w.tables.get site.table).get? k.identity = v.content k.identity := hs.content _
  have hanswer : ∀ {x w'}, Facade.get site.store site.cell k w = (.ok (.ok x), w') →
      site.lookup k w = (.ok ⟨.ok x, v.content k.identity⟩, w') := by
    intro x w' hget
    rw [Site.lookup, Act.bind_ok _ (show Act.look _ w = (.ok _, w) from rfl), hheld,
      Act.bind_ok _ hget]
    rfl
  cases hprobe : v.cache.probe k with
  | cached e =>
    have hlookup : Facade.lookup site.store site.cell k w = _ :=
      Facade.lookup_of_cached (hs.cache ▸ hprobe)
    have hs' := (hs.setCache Cache.countHit).of_alike
      (World.alike_report _ (.hit (w.cells.get site.cell).handle k))
    rw [View.step, Cache.answer, Cache.ask, hprobe]
    exact ⟨_, hanswer (Facade.get_of_lookup hlookup), hs'⟩
  | vacant n =>
    have hget : (site.store : Store σ).get k (w.setCache site.cell Cache.countMiss) =
        (.ok (.ok (v.content k.identity)), w.setCache site.cell Cache.countMiss) := by
      rw [← hheld]
      rfl
    have hlookup := Facade.lookup_of_ok (hs.cache ▸ hprobe) hget
    have hs' := (hs.setCache Cache.countMiss).setCache
      (·.fill k (.ofOption (v.content k.identity)) n)
    rw [View.step, Cache.answer, Cache.ask, hprobe]
    exact ⟨_, hanswer (Facade.get_of_lookup hlookup), hs'.of_alike (World.alike_report _ _)⟩

end View.Shown

/-- A write on a table changes what the table holds and nothing else. -/
theorem Write.on_table (wr : Write Value) (j : Nat) (w : World σ) :
    ∃ t : Table Identity Value,
      wr.on (Store.table j) w = (.ok (.ok ()), { w with tables := w.tables.set j t }) ∧
      ∀ l, t.get? l = wr.apply (w.tables.get j).get? l := by
  obtain ⟨k, _ | x⟩ := wr
  · refine ⟨(w.tables.get j).erase k.identity, rfl, fun l => ?_⟩
    rw [Table.get?_erase]
    simp only [Write.apply, eq_comm]
  · refine ⟨(w.tables.get j).insert k.identity x, rfl, fun l => ?_⟩
    rw [Table.get?_insert]
    simp only [Write.apply, eq_comm]

namespace View.Shown

variable {site : Site} {w w' : World σ} {v : View}

theorem setTable (hs : v.Shown site w) {content : Identity → Option Value}
    {t : Table Identity Value} (ht : ∀ l, t.get? l = content l) :
    ({ v with content := content } : View).Shown site
      { w with tables := w.tables.set site.table t } where
  cache := hs.cache
  idle := hs.idle
  watched := hs.watched
  signal := hs.signal
  content l := by rw [Pool.get_set, if_pos rfl, ht]
  depth := hs.depth
  registered := hs.registered

theorem moveMarker (hs : v.Shown site w) (moved : Option Signal) :
    ∃ w', site.moveMarker moved w = (.ok (), w') ∧
      ({ v with signal := moved.getD v.signal } : View).Shown site w' := by
  cases moved with
  | none => exact ⟨w, rfl, hs⟩
  | some signal =>
    refine ⟨_, rfl, hs.cache, hs.idle, hs.watched, ?_, hs.content, hs.depth, hs.registered⟩
    rw [Pool.get_modify, if_pos rfl]
    rfl

theorem foreign_ok (hs : v.Shown site w) (wr : Write Value) (signal : Signal) :
    ∃ w', site.foreign wr signal w = (.ok (), w') ∧
      (v.step (.foreign wr signal)).Shown site w' := by
  obtain ⟨t, hon, ht⟩ := wr.on_table site.table w
  have hs₁ := hs.setTable fun l => (ht l).trans (by rw [funext hs.content])
  rw [Site.foreign, Site.store, Act.bind_ok _ hon]
  exact hs₁.moveMarker (some signal)

theorem write_ok (hs : v.Shown site w) (wr : Write Value) (moved : Option Signal) :
    ∃ w', site.write wr moved w = (.ok (), w') ∧ (v.step (.write wr moved)).Shown site w' := by
  obtain ⟨t, hon, ht⟩ := wr.on_table site.table (w.setWriting site.cell true)
  have hs₁ : ({ v with
        cache := v.cache.settle wr true
        content := wr.apply v.content } : View).Shown
      site (((({ w.setWriting site.cell true with
        tables := w.tables.set site.table t } : World σ).setCache site.cell
          (·.settle wr true)).setWriting site.cell false)) := by
    refine ⟨?_, ?_, ?_, hs.signal, fun l => ?_, hs.depth, hs.registered⟩
    · simp [hs.cache]
    · simp
    · simp [hs.watched]
    · show ((w.tables.set site.table t).get site.table).get? l = _
      rw [Pool.get_set, if_pos rfl, ht, ← funext hs.content]
      rfl
  rw [Site.write, Site.store, Act.bind_ok _ (Facade.write_of_ok hs.idle hon)]
  exact hs₁.moveMarker moved

/-! ## Whole programs -/

/-- What runs between two hooks. -/
theorem between_ok {α : Type} {opening closing : Act σ Unit} {body : Act σ α} {m n : Move}
    {moves : List Move} {a : α} (hs : v.Shown site w)
    (hopening : ∀ {v : View} {w}, v.Shown site w →
      ∃ w', opening w = (.ok (), w') ∧ (v.step m).Shown site w')
    (hbody : ∀ {w}, (v.step m).Shown site w →
      ∃ w', body w = (.ok a, w') ∧ ((v.step m).run moves).Shown site w')
    (hclosing : ∀ {v : View} {w}, v.Shown site w →
      ∃ w', closing w = (.ok (), w') ∧ (v.step n).Shown site w') :
    ∃ w', (opening >>= fun _ => Act.ensuring body closing) w = (.ok a, w') ∧
      (((v.step m).run moves).step n).Shown site w' := by
  obtain ⟨w₁, hopened, hs₁⟩ := hopening hs
  obtain ⟨w₂, hran, hs₂⟩ := hbody hs₁
  obtain ⟨w₃, hclosed, hs₃⟩ := hclosing hs₂
  refine ⟨w₃, ?_, hs₃⟩
  rw [Act.bind_ok _ hopened, Act.ensuring_ok hran hclosed]

/-- What runs once, among things that leave the view alone. -/
theorem around_ok {α : Type} {around body : Act σ α} {a : α} {v' : View} (hs : v.Shown site w)
    (haround : ∃ w₁ w₂, w.Alike w₁ ∧ (body w₁).2.Alike w₂ ∧ around w = ((body w₁).1, w₂))
    (hbody : ∀ {w}, v.Shown site w → ∃ w', body w = (.ok a, w') ∧ v'.Shown site w') :
    ∃ w', around w = (.ok a, w') ∧ v'.Shown site w' := by
  obtain ⟨w₁, w₂, halike₁, halike₂, hran⟩ := haround
  obtain ⟨w', hbodied, hs'⟩ := hbody (hs.of_alike halike₁)
  rw [hbodied] at halike₂ hran
  exact ⟨w₂, hran, hs'.of_alike halike₂⟩

end View.Shown

/-- An access that runs the work once and touches no memory, marker, store or lease by itself. -/
structure Access.Faithful (access : Access σ) : Prop where
  useCache : ∀ {α : Type} (operation : String) (body : Act σ α) (w : World σ), ∃ w₁ w₂,
    w.Alike w₁ ∧ (body w₁).2.Alike w₂ ∧ access.useCache operation body w = ((body w₁).1, w₂)
  longRunning : ∀ {α : Type} (operation : String) (body : Act σ α) (w : World σ), ∃ w₁ w₂,
    w.Alike w₁ ∧ (body w₁).2.Alike w₂ ∧ access.longRunning operation body w = ((body w₁).1, w₂)

/-- The access to a plain cabinet reports what is done, and does it. -/
theorem Cabinet.faithful_access_plain (base : Path) (format : Format) :
    ((Cabinet.plain base format).access : Access σ).Faithful where
  useCache operation _ w := ⟨w.report (.opened .useCache operation base), _,
    w.alike_report _, .refl _, rfl⟩
  longRunning operation _ w := ⟨w.report (.opened .longRunning operation base), _,
    w.alike_report _, .refl _, rfl⟩

/-- Running a program does its moves, and reports the lookups among them. -/
theorem Program.run_ok {access : Access σ} (ha : access.Faithful) (site : Site) (p : Program)
    {w : World σ} {v : View} (hs : v.Shown site w) :
    ∃ w', p.run site access w = (.ok (v.reports p.moves), w') ∧
      (v.run p.moves).Shown site w' := by
  induction p generalizing w v with
  | done => exact ⟨w, rfl, hs⟩
  | lookup k rest ih =>
    obtain ⟨w₁, hlookup, hs₁⟩ := hs.lookup_ok k
    obtain ⟨w₂, hrest, hs₂⟩ := ih hs₁
    rw [run, Act.bind_ok _ hlookup, Act.bind_ok _ hrest]
    exact ⟨w₂, rfl, hs₂⟩
  | write wr moved rest ih =>
    obtain ⟨w₁, hwrite, hs₁⟩ := hs.write_ok wr moved
    obtain ⟨w₂, hrest, hs₂⟩ := ih hs₁
    rw [run, Act.bind_ok _ hwrite]
    exact ⟨w₂, hrest, hs₂⟩
  | foreign wr signal rest ih =>
    obtain ⟨w₁, hforeign, hs₁⟩ := hs.foreign_ok wr signal
    obtain ⟨w₂, hrest, hs₂⟩ := ih hs₁
    rw [run, Act.bind_ok _ hforeign]
    exact ⟨w₂, hrest, hs₂⟩
  | useStore operation body rest ihbody ihrest =>
    -- the hooks run inside the access here, and around it in the next case
    have hlocked : ∀ {w : World σ}, v.Shown site w →
        ∃ w', Lease.locked site.lease (body.run site access) w =
          (.ok ((v.step .acquired).reports body.moves), w') ∧
          (((v.step .acquired).run body.moves).step .released).Shown site w' :=
      fun hs => hs.between_ok View.Shown.beforeAcquired_ok ihbody View.Shown.beforeReleased_ok
    obtain ⟨w', hran, hs'⟩ := hs.around_ok (ha.useCache operation _ w) hlocked
    have hwrapped : (Lease.wrap site.lease access).useCache operation (body.run site access) w =
        (.ok ((v.step .acquired).reports body.moves), w') := hran
    obtain ⟨w'', hrest, hs''⟩ := ihrest hs'
    refine ⟨w'', ?_, ?_⟩
    · rw [run, Act.bind_ok _ hwrapped, Act.bind_ok _ hrest, moves,
        View.reports_acquired, View.reports_append, View.reports_released]
      rfl
    · rw [moves, View.run_cons, View.run_append, View.run_cons]
      exact hs''
  | longRunning operation body rest ihbody ihrest =>
    have hlong : ∀ {w : World σ}, (v.step .released).Shown site w →
        ∃ w', access.longRunning operation (body.run site access) w =
          (.ok ((v.step .released).reports body.moves), w') ∧
          ((v.step .released).run body.moves).Shown site w' :=
      fun hs => hs.around_ok (ha.longRunning operation _ _) ihbody
    obtain ⟨w', hran, hs'⟩ :=
      hs.between_ok View.Shown.beforeReleased_ok hlong View.Shown.beforeAcquired_ok
    have hwrapped : (Lease.wrap site.lease access).longRunning operation (body.run site access) w =
        (.ok ((v.step .released).reports body.moves), w') := hran
    obtain ⟨w'', hrest, hs''⟩ := ihrest hs'
    refine ⟨w'', ?_, ?_⟩
    · rw [run, Act.bind_ok _ hwrapped, Act.bind_ok _ hrest, moves,
        View.reports_released, View.reports_append, View.reports_acquired]
      rfl
    · rw [moves, View.run_cons, View.run_append, View.run_cons]
      exact hs''

end LeaseCache
