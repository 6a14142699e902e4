import LeaseCache.Proofs.HookSpec
import LeaseCache.Proofs.StoreCalls
import Mathlib.Data.Finset.Card
import Mathlib.Data.List.Permutation

/-!
# When a store is asked

The keys a memory knows are told by what was done with it: lookups and puts that end well add their
key, failed puts and removals take it away, and an invalidation that drops anything takes all away
(`known`). A lookup asks the store if and only if its key is not among them, so the store is asked
for a key again only after it has failed, or after the key was lost.

What a memory does for one errand is one step (`Cache.Serves`), whichever facade and store it comes
through. The keys, the counters and the calls of the store are then laws of these steps, and of runs
of them (`Cache.ServesAll`).
-/

namespace LeaseCache

/-! ## What is done with a memory -/

/-- What was done with a memory, and how it ended. -/
inductive Deed where
  /-- A lookup, and whether it ended well. -/
  | looked (key : Key) (ok : Bool)
  /-- A put or a removal, and whether it ended well. -/
  | wrote (w : Write Value) (ok : Bool)
  | recorded
  /-- The memory was compared with its marker, and lost its entries or not. -/
  | compared (dropped : Bool)
  /-- A marker shows something else. -/
  | marked

namespace Deed

/-- The keys a memory knows after a deed. -/
def learn (keys : Finset Identity) : Deed → Finset Identity
  | .looked k true => insert k.identity keys
  | .wrote ⟨k, some _⟩ true => insert k.identity keys
  | .wrote w _ => keys.erase w.key.identity
  | .compared true => ∅
  | _ => keys

/-- A deed after which a key is no longer known. -/
def Loses (k : Key) (deed : Deed) : Prop := k.identity ∉ deed.learn {k.identity}

theorem mem_learn {keys : Finset Identity} {k : Key} {deed : Deed} (hk : k.identity ∈ keys)
    (hkept : ¬ deed.Loses k) : k.identity ∈ deed.learn keys := by
  rw [Loses, not_not] at hkept
  unfold learn at hkept ⊢
  split at hkept
  · exact Finset.mem_insert_of_mem hk
  · exact Finset.mem_insert_of_mem hk
  · rw [Finset.mem_erase] at hkept
    exact Finset.mem_erase.2 ⟨hkept.1, hk⟩
  · cases hkept
  · exact hk

/-- Whether a deed is a lookup. -/
def isLookup : Deed → Bool
  | .looked .. => true
  | _ => false

/-- Whether a deed dropped all entries. -/
def isDrop : Deed → Bool
  | .compared dropped => dropped
  | _ => false

end Deed

/-- The keys a memory knows after deeds, the first of them at the beginning. -/
def known (deeds : List Deed) : Finset Identity := deeds.foldl Deed.learn ∅

namespace Asked

/-- Whether a call asks for a value. -/
def isGet : Asked → Bool
  | .get .. => true
  | .write .. => false

/-- Whether a call asks for the value of a key. -/
def asks (k : Key) : Asked → Bool
  | .get l _ => decide (l.Same k)
  | .write .. => false

/-- Whether a call asks for the value of a key, and the store answered. -/
def answers (k : Key) : Asked → Bool
  | .get l r => decide (l.Same k) && r.isOk
  | .write .. => false

theorem asks_of_answers {k : Key} {a : Asked} (h : a.answers k = true) : a.asks k = true := by
  cases a with
  | get l r =>
    rw [answers, Bool.and_eq_true] at h
    exact h.1
  | write wr r => cases h

end Asked

/-! ## The keys of a memory -/

namespace Cache

variable {V : Type} {c : Cache V} {k : Key}

/-- The keys that have entries. -/
def keys (c : Cache V) : Finset Identity := c.entries.keys.toFinset

theorem mem_keys {l : Identity} : l ∈ c.keys ↔ (c.entries.get? l).isSome := by
  rw [keys, List.mem_toFinset, ← Table.contains_iff_mem_keys, Table.contains]

theorem identity_mem_keys : k.identity ∈ c.keys ↔ ∃ e, c.get? k = some e := by
  rw [mem_keys, Option.isSome_iff_exists, get?]

theorem card_keys (c : Cache V) : c.keys.card = c.size := by
  have hdistinct : c.entries.keys.Nodup := c.entries.distinct
  rw [keys, List.toFinset_card_of_nodup hdistinct, Table.keys, List.length_map, size, Table.size]

theorem keys_put (c : Cache V) (k : Key) (e : Entry V) :
    (c.put k e).keys = insert k.identity c.keys := by
  ext l
  rw [mem_keys, Finset.mem_insert, mem_keys, put, Table.get?_insert]
  split <;> simp [*]

theorem keys_remove (c : Cache V) (k : Key) : (c.remove k).keys = c.keys.erase k.identity := by
  ext l
  rw [mem_keys, Finset.mem_erase, mem_keys, remove, Table.get?_erase]
  split <;> simp [*]

theorem keys_fill (c : Cache V) (k : Key) (e : Entry V) :
    (c.fill k e c.epoch).keys = insert k.identity c.keys := by
  ext l
  rw [mem_keys, Finset.mem_insert, mem_keys, fill, accepts, if_pos (decide_eq_true rfl),
    Table.get?_insertIfNew]
  split <;> simp [*]

theorem keys_invalidate {reading : Option Signal} (h : c.isFresh reading = false) :
    (c.invalidate reading).keys = ∅ := by
  rw [invalidate, if_neg (by simp [h])]
  rfl

theorem keys_settle (c : Cache Value) (wr : Write Value) (ok : Bool) :
    (c.settle wr ok).keys = (Deed.wrote wr ok).learn c.keys := by
  obtain ⟨k, _ | v⟩ := wr <;> cases ok
  all_goals first | exact keys_remove _ _ | exact keys_put _ _ _

end Cache

/-! ## One step of a memory -/

namespace Cache

/-- What a memory does for a deed: the calls of the store it comes to, and the memory afterwards. -/
inductive Serves : Cache Value → Deed → List Asked → Cache Value → Prop where
  | hit {c : Cache Value} {k e} : c.get? k = some e → Serves c (.looked k true) [] c.countHit
  | miss {c : Cache Value} {k} (x) : c.get? k = none →
    Serves c (.looked k true) [.get k (.ok x)] (c.countMiss.fill k (.ofOption x) c.epoch)
  | failed {c : Cache Value} {k} (e) : c.get? k = none →
    Serves c (.looked k false) [.get k (.error e)] c.countMiss
  | wrote {c : Cache Value} (wr) (r : Except StoreError Unit) :
    Serves c (.wrote wr r.isOk) [.write wr r] (c.settle wr r.isOk)
  | recorded {c : Cache Value} (reading) : Serves c .recorded [] (c.record reading)
  | kept {c : Cache Value} : Serves c (.compared false) [] c
  | dropped {c : Cache Value} {reading} : c.isFresh reading = false →
    Serves c (.compared true) [] (c.invalidate reading)
  | marked {c : Cache Value} : Serves c .marked [] c

theorem counters_fill (c : Cache V) (k : Key) (e : Entry V) (n : Nat) :
    (c.fill k e n).hits = c.hits ∧ (c.fill k e n).misses = c.misses ∧
      (c.fill k e n).invalidations = c.invalidations := by
  unfold fill
  split <;> exact ⟨rfl, rfl, rfl⟩

theorem counters_settle (c : Cache V) (wr : Write V) (ok : Bool) :
    (c.settle wr ok).hits = c.hits ∧ (c.settle wr ok).misses = c.misses ∧
      (c.settle wr ok).invalidations = c.invalidations := by
  unfold settle
  split <;> exact ⟨rfl, rfl, rfl⟩

theorem counters_invalidate {c : Cache V} {reading : Option Signal}
    (h : c.isFresh reading = false) :
    (c.invalidate reading).hits = c.hits ∧ (c.invalidate reading).misses = c.misses ∧
      (c.invalidate reading).invalidations = c.invalidations + 1 := by
  rw [invalidate, if_neg (by simp [h])]
  exact ⟨rfl, rfl, rfl⟩

namespace Serves

variable {c c' : Cache Value} {deed : Deed} {calls : List Asked} {k : Key}

theorem keys (h : c.Serves deed calls c') : c'.keys = deed.learn c.keys := by
  cases h with
  | hit hfound => exact (Finset.insert_eq_of_mem (identity_mem_keys.2 ⟨_, hfound⟩)).symm
  | miss x _ => exact keys_fill c.countMiss _ _
  | wrote wr r => exact keys_settle c wr r.isOk
  | dropped hstale => exact keys_invalidate hstale
  | _ => rfl

/-- Every lookup is counted once, every call that asks for a value is counted as a miss, and every
drop as an invalidation. -/
theorem counters (h : c.Serves deed calls c') :
    c'.hits + c'.misses = c.hits + c.misses + [deed].countP Deed.isLookup ∧
      c'.misses = c.misses + calls.countP Asked.isGet ∧
      c'.invalidations = c.invalidations + [deed].countP Deed.isDrop := by
  cases h with
  | hit _ => exact ⟨Nat.add_right_comm _ _ _, rfl, rfl⟩
  | miss x _ =>
    obtain ⟨hhits, hmisses, hinvalidations⟩ := counters_fill c.countMiss _ (.ofOption x) c.epoch
    rw [hhits, hmisses, hinvalidations]
    exact ⟨rfl, rfl, rfl⟩
  | wrote wr r =>
    obtain ⟨hhits, hmisses, hinvalidations⟩ := counters_settle c wr r.isOk
    rw [hhits, hmisses, hinvalidations]
    exact ⟨rfl, rfl, rfl⟩
  | dropped hstale =>
    obtain ⟨hhits, hmisses, hinvalidations⟩ := counters_invalidate hstale
    rw [hhits, hmisses, hinvalidations]
    exact ⟨rfl, rfl, rfl⟩
  | _ => exact ⟨rfl, rfl, rfl⟩

/-- A key that is known is not asked for. -/
theorem asks_of_mem (h : c.Serves deed calls c') (hk : k.identity ∈ c.keys) :
    calls.countP (Asked.asks k) = 0 := by
  obtain ⟨e, hentry⟩ := identity_mem_keys.1 hk
  have hother : ∀ {l}, c.get? l = none → ¬ l.Same k := by
    intro l hnone hsame
    rw [get?, hsame, ← get?, hentry] at hnone
    cases hnone
  cases h with
  | miss x hnone => simp [Asked.asks, hother hnone]
  | failed e hnone => simp [Asked.asks, hother hnone]
  | _ => rfl

/-- A store that answers for a key makes it known. -/
theorem answers_cases (h : c.Serves deed calls c') (k : Key) :
    calls.countP (Asked.answers k) = 0 ∨
      calls.countP (Asked.answers k) = 1 ∧ k.identity ∈ c'.keys := by
  cases h with
  | @miss l x hnone =>
    by_cases hsame : l.Same k
    · refine .inr ⟨by simp [Asked.answers, hsame, Except.isOk, Except.toBool], ?_⟩
      rw [(Serves.miss x hnone).keys, ← hsame]
      exact Finset.mem_insert_self _ _
    · exact .inl (by simp [Asked.answers, hsame])
  | failed e hnone => exact .inl (by simp [Asked.answers, Except.isOk, Except.toBool])
  | _ => exact .inl rfl

/-- A key that is known stays so unless the deed loses it. -/
theorem mem_keys (h : c.Serves deed calls c') (hk : k.identity ∈ c.keys) (hkept : ¬ deed.Loses k) :
    k.identity ∈ c'.keys := by
  rw [h.keys]
  exact Deed.mem_learn hk hkept

end Serves

/-! ## Runs -/

/-- What a memory does for deeds, one after the other. -/
inductive ServesAll : Cache Value → List Deed → List Asked → Cache Value → Prop where
  | nil {c : Cache Value} : ServesAll c [] [] c
  | cons {c c' c'' : Cache Value} {deed deeds calls more} : c.Serves deed calls c' →
    ServesAll c' deeds more c'' → ServesAll c (deed :: deeds) (calls ++ more) c''

namespace ServesAll

variable {c c' : Cache Value} {deeds : List Deed} {calls : List Asked} {k : Key}

theorem keys (h : c.ServesAll deeds calls c') : c'.keys = deeds.foldl Deed.learn c.keys := by
  induction h with
  | nil => rfl
  | cons hstep _ ih => rw [ih, hstep.keys, List.foldl_cons]

theorem counters (h : c.ServesAll deeds calls c') :
    c'.hits + c'.misses = c.hits + c.misses + deeds.countP Deed.isLookup ∧
      c'.misses = c.misses + calls.countP Asked.isGet ∧
      c'.invalidations = c.invalidations + deeds.countP Deed.isDrop := by
  induction h with
  | nil => exact ⟨rfl, rfl, rfl⟩
  | @cons c c' c'' deed deeds calls more hstep _ ih =>
    obtain ⟨hlookups, hmisses, hdrops⟩ := hstep.counters
    have hsplit (p : Deed → Bool) :
        (deed :: deeds).countP p = [deed].countP p + deeds.countP p := by
      rw [← List.countP_append, List.singleton_append]
    rw [hsplit, hsplit, List.countP_append]
    omega

/-- A key that is known is not asked for, as long as it is not lost. -/
theorem asks_of_mem (h : c.ServesAll deeds calls c') (hk : k.identity ∈ c.keys)
    (hkept : ∀ deed ∈ deeds, ¬ deed.Loses k) : calls.countP (Asked.asks k) = 0 := by
  induction h with
  | nil => rfl
  | cons hstep _ ih =>
    rw [List.forall_mem_cons] at hkept
    rw [List.countP_append, hstep.asks_of_mem hk, ih (hstep.mem_keys hk hkept.1) hkept.2]

/-- As long as a key is not lost, the store answers for it once at most. -/
theorem answers_le_one (h : c.ServesAll deeds calls c')
    (hkept : ∀ deed ∈ deeds, ¬ deed.Loses k) : calls.countP (Asked.answers k) ≤ 1 := by
  induction h with
  | nil => exact Nat.zero_le 1
  | @cons c c' c'' deed deeds calls more hstep hmore ih =>
    rw [List.forall_mem_cons] at hkept
    rw [List.countP_append]
    rcases hstep.answers_cases k with hzero | ⟨hone, hknown⟩
    · rw [hzero, Nat.zero_add]
      exact ih hkept.2
    · -- the first answer has made the key known, so it is not asked for again
      have hnone := hmore.asks_of_mem hknown hkept.2
      have hle : more.countP (Asked.answers k) ≤ more.countP (Asked.asks k) :=
        List.countP_mono_left fun a _ => Asked.asks_of_answers
      omega

end ServesAll

end Cache

/-! ## Errands -/

/-- What is done with a memory: lookups and writes through one of its facades, and what its hooks
do; and markers change. -/
inductive Errand (ι : Type) where
  | lookup (facade : ι) (key : Key)
  | get (facade : ι) (key : Key)
  /-- A put or a removal. -/
  | write (facade : ι) (w : Write Value)
  | record
  | compare
  | mark (marker : Nat) (kind : MarkerKind)

variable {σ ι : Type}

namespace Errand

/-- Runs an errand over a memory; each facade has a store of its own. -/
def act (stores : ι → Store σ) (i : Nat) : Errand ι → Act σ Deed
  | .lookup f k => do
    return .looked k (← Facade.lookup (stores f) i k).isOk
  | .get f k => do
    return .looked k (← Facade.get (stores f) i k).isOk
  | .write f w => do
    return .wrote w (← w.on (Facade.toStore (stores f) i)).isOk
  | .record => do
    Memory.recordMarker i
    return .recorded
  | .compare => do
    return .compared (← Memory.invalidateIfStale i)
  | .mark n kind => do
    Act.change fun w => { w with markers := w.markers.modify n fun m => { m with kind := kind } }
    return .marked

/-- Runs errands, one after the other. -/
def all (stores : ι → Store σ) (i : Nat) : List (Errand ι) → Act σ (List Deed)
  | [] => pure []
  | errand :: more => do
    let deed ← errand.act stores i
    return deed :: (← all stores i more)

end Errand

/-- A memory that served a deed: the calls of the store are noted, and no write goes on. -/
structure World.Served (i : Nat) (log : σ → List Asked) (w : World σ) (deed : Deed)
    (calls : List Asked) (w' : World σ) : Prop where
  serves : (w.cells.get i).cache.Serves deed calls (w'.cells.get i).cache
  idle : (w'.cells.get i).writing = false
  log : log w'.scene = log w.scene ++ calls

section Errands

variable {stores : ι → Store σ} {store : Store σ} {log : σ → List Asked} {i : Nat} {w : World σ}

/-- A lookup of a key that is known is answered from memory; any other makes one call of the store,
and comes back with what the store said to it. -/
theorem Facade.lookup_served (hspares : store.Spares i) (hlogged : store.Logged log)
    (hidle : (w.cells.get i).writing = false) (k : Key) :
    ∃ r calls w', lookup store i k w = (.ok r, w') ∧
      w.Served i log (.looked k r.isOk) calls w' ∧
      (k.identity ∈ (w.cells.get i).cache.keys ∧ (∃ x, r = .ok (.hit x)) ∧ calls = [] ∨
        k.identity ∉ (w.cells.get i).cache.keys ∧ ∃ a, r = a.map .miss ∧ calls = [.get k a]) := by
  cases hprobe : (w.cells.get i).cache.probe k with
  | cached e =>
    have hfound := Cache.get?_of_probe hprobe
    refine ⟨_, [], _, lookup_of_cached hprobe, ⟨?_, ?_, ?_⟩,
      .inl ⟨Cache.identity_mem_keys.2 ⟨e, hfound⟩, ⟨_, rfl⟩, rfl⟩⟩
    · show Cache.Serves _ _ _ ((w.setCache i Cache.countHit).cells.get i).cache
      rw [World.get_setCache_self]
      exact .hit hfound
    · show ((w.setCache i Cache.countHit).cells.get i).writing = false
      rw [World.get_setCache_self]
      exact hidle
    · exact (List.append_nil _).symm
  | vacant n =>
    obtain ⟨hnone, rfl⟩ := Cache.get?_of_vacant hprobe
    have hunknown : k.identity ∉ (w.cells.get i).cache.keys := by
      rw [Cache.identity_mem_keys, hnone]
      rintro ⟨e, ⟨⟩⟩
    obtain ⟨r, w', hget, hcell⟩ := hspares.get k (w.setCache i Cache.countMiss)
    rw [World.get_setCache_self] at hcell
    have hlog := hlogged.get hget
    cases r with
    | error e =>
      refine ⟨_, [.get k (.error e)], w', lookup_of_error hprobe hget, ⟨?_, ?_, hlog⟩,
        .inr ⟨hunknown, .error e, rfl, rfl⟩⟩
      · rw [hcell]
        exact .failed e hnone
      · rw [hcell]
        exact hidle
    | ok x =>
      let kept := w'.setCache i (·.fill k (.ofOption x) (w.cells.get i).cache.epoch)
      refine ⟨_, [.get k (.ok x)], _, lookup_of_ok hprobe hget, ⟨?_, ?_, hlog⟩,
        .inr ⟨hunknown, .ok x, rfl, rfl⟩⟩
      · show Cache.Serves _ _ _ (kept.cells.get i).cache
        rw [World.get_setCache_self, hcell]
        exact .miss x hnone
      · show (kept.cells.get i).writing = false
        rw [World.get_setCache_self, hcell]
        exact hidle

/-- A write makes one call of the store, and comes back with what the store said to it. -/
theorem Facade.write_served (hspares : store.Spares i) (hlogged : store.Logged log)
    (hidle : (w.cells.get i).writing = false) (wr : Write Value) :
    ∃ r w', wr.on (toStore store i) w = (.ok r, w') ∧
      w.Served i log (.wrote wr r.isOk) [.write wr r] w' := by
  obtain ⟨r, w', hwrite, hcell⟩ := hspares.write wr (w.setWriting i true)
  rw [World.get_setWriting_self] at hcell
  have hlog := hlogged.write hwrite
  refine ⟨r, _, write_of_ok hidle hwrite, ?_, ?_, hlog⟩
  · rw [World.get_setWriting_self, World.get_setCache_self, hcell]
    exact .wrote wr r
  · rw [World.get_setWriting_self]

theorem Errand.act_served (hspares : ∀ f, (stores f).Spares i)
    (hlogged : ∀ f, (stores f).Logged log) (hidle : (w.cells.get i).writing = false)
    (errand : Errand ι) :
    ∃ deed calls w', errand.act stores i w = (.ok deed, w') ∧ w.Served i log deed calls w' := by
  cases errand with
  | lookup f k =>
    obtain ⟨r, calls, w', hlookup, hserved, -⟩ :=
      Facade.lookup_served (hspares f) (hlogged f) hidle k
    exact ⟨_, calls, w', Act.bind_ok _ hlookup, hserved⟩
  | get f k =>
    obtain ⟨r, calls, w', hlookup, hserved, -⟩ :=
      Facade.lookup_served (hspares f) (hlogged f) hidle k
    refine ⟨_, calls, w', Act.bind_ok _ (Facade.get_of_lookup hlookup), ?_⟩
    cases r <;> exact hserved
  | write f wr =>
    obtain ⟨r, w', hwrite, hserved⟩ := Facade.write_served (hspares f) (hlogged f) hidle wr
    exact ⟨_, _, w', Act.bind_ok _ hwrite, hserved⟩
  | record =>
    obtain ⟨r, markers, journal, hrecord, -⟩ := Memory.recordMarker_eq i w
    refine ⟨_, [], _, Act.bind_ok _ hrecord, ⟨?_, ?_, (List.append_nil _).symm⟩⟩
    · rw [World.get_setCache_self]
      exact .recorded r
    · rw [World.get_setCache_self]
      exact hidle
  | compare =>
    obtain ⟨r, markers, journal, ⟨-, hkept⟩ | ⟨hstale, hdropped⟩, -⟩ :=
      Memory.invalidateIfStale_cases i w
    · exact ⟨_, [], _, Act.bind_ok _ hkept, ⟨.kept, hidle, (List.append_nil _).symm⟩⟩
    · refine ⟨_, [], _, Act.bind_ok _ hdropped, ⟨?_, ?_, (List.append_nil _).symm⟩⟩
      · rw [World.get_setCache_self]
        exact .dropped hstale
      · rw [World.get_setCache_self]
        exact hidle
  | mark n kind => exact ⟨_, [], _, rfl, ⟨.marked, hidle, (List.append_nil _).symm⟩⟩

theorem Errand.all_served (hspares : ∀ f, (stores f).Spares i)
    (hlogged : ∀ f, (stores f).Logged log) (hidle : (w.cells.get i).writing = false)
    (errands : List (Errand ι)) :
    ∃ deeds calls w', all stores i errands w = (.ok deeds, w') ∧
      (w.cells.get i).cache.ServesAll deeds calls (w'.cells.get i).cache ∧
      (w'.cells.get i).writing = false ∧ log w'.scene = log w.scene ++ calls := by
  induction errands generalizing w with
  | nil => exact ⟨[], [], w, rfl, .nil, hidle, (List.append_nil _).symm⟩
  | cons errand more ih =>
    obtain ⟨deed, calls, w₁, hact, hserved⟩ := act_served hspares hlogged hidle errand
    obtain ⟨deeds, calls', w₂, hall, hserves, hidle', hlog⟩ := ih hserved.idle
    refine ⟨deed :: deeds, calls ++ calls', w₂, ?_, .cons hserved.serves hserves, hidle', ?_⟩
    · rw [all, Act.bind_ok _ hact, Act.bind_ok _ hall]
      rfl
    · rw [hlog, hserved.log, List.append_assoc]

/-- A new memory knows nothing and has counted nothing. -/
theorem Memory.new_cell {handle : Path} {marker : Nat} {type : ValueType} {w₀ : World σ}
    (h : new handle marker type w₀ = (.ok i, w)) :
    ∃ r, w.cells.get i = ⟨handle, marker, type, false, .fresh r⟩ := by
  obtain ⟨r, markers, journal, hreading, -⟩ := reading_eq handle marker w₀
  rw [new, Act.bind_ok _ hreading] at h
  cases h
  exact ⟨r, (Pool.get_add _ _ _).trans (if_pos rfl)⟩

/-- After any errands over a new memory, through any of its facades: it holds entries for the keys
that are known, and its counters are the numbers of lookups, of values asked for and of drops. The
next lookup is a hit and makes no call if and only if its key is known, and otherwise it makes one
call and is counted as a miss; the next write makes one call. And in any further errands that do not
lose a key the store answers for it once at most, and is not asked for it if it is known. -/
theorem Memory.asks_for_unknown_keys_only {handle : Path} {marker : Nat} {type : ValueType}
    {w₀ : World σ} (hnew : new handle marker type w₀ = (.ok i, w))
    (hspares : ∀ f, (stores f).Spares i) (hlogged : ∀ f, (stores f).Logged log)
    (errands : List (Errand ι)) :
    ∃ deeds calls w', Errand.all stores i errands w = (.ok deeds, w') ∧
      log w'.scene = log w.scene ++ calls ∧
      (w'.cells.get i).cache.size = (known deeds).card ∧
      (w'.cells.get i).cache.hits + (w'.cells.get i).cache.misses =
        deeds.countP Deed.isLookup ∧
      (w'.cells.get i).cache.misses = calls.countP Asked.isGet ∧
      (w'.cells.get i).cache.invalidations = deeds.countP Deed.isDrop ∧
      (∀ f k, ∃ r calls' w'', Facade.lookup (stores f) i k w' = (.ok r, w'') ∧
        Facade.get (stores f) i k w' = (.ok (r.map Lookup.value?), w'') ∧
        log w''.scene = log w'.scene ++ calls' ∧
        (k.identity ∈ known deeds → (∃ x, r = .ok (.hit x)) ∧ calls' = []) ∧
        (k.identity ∉ known deeds → ∃ a, r = a.map .miss ∧ calls' = [.get k a] ∧
          (w''.cells.get i).cache.misses = (w'.cells.get i).cache.misses + 1)) ∧
      (∀ f wr, ∃ r w'', Write.on wr (Facade.toStore (stores f) i) w' = (.ok r, w'') ∧
        log w''.scene = log w'.scene ++ [.write wr r]) ∧
      ∀ more, ∃ deeds' calls' w'', Errand.all stores i more w' = (.ok deeds', w'') ∧
        log w''.scene = log w'.scene ++ calls' ∧
        ∀ k, (∀ deed ∈ deeds', ¬ deed.Loses k) → calls'.countP (Asked.answers k) ≤ 1 ∧
          (k.identity ∈ known deeds → calls'.countP (Asked.asks k) = 0) := by
  obtain ⟨reading, hcell⟩ := new_cell hnew
  have hidle : (w.cells.get i).writing = false := by rw [hcell]
  obtain ⟨deeds, calls, w', hall, hserves, hidle', hlog⟩ :=
    Errand.all_served hspares hlogged hidle errands
  have hkeys : (w'.cells.get i).cache.keys = known deeds := by
    rw [hserves.keys, hcell]
    rfl
  obtain ⟨hlookups, hmisses, hdrops⟩ := hserves.counters
  rw [hcell] at hlookups hmisses hdrops
  refine ⟨deeds, calls, w', hall, hlog, ?_, hlookups.trans (Nat.zero_add _),
    hmisses.trans (Nat.zero_add _), hdrops.trans (Nat.zero_add _), ?_, ?_, ?_⟩
  · rw [← hkeys, Cache.card_keys]
  · intro f k
    obtain ⟨r, calls', w'', hlookup, hserved, hcases⟩ :=
      Facade.lookup_served (hspares f) (hlogged f) hidle' k
    rw [hkeys] at hcases
    refine ⟨r, calls', w'', hlookup, Facade.get_of_lookup hlookup, hserved.log, ?_, ?_⟩
    · intro hk
      rcases hcases with ⟨-, hhit⟩ | ⟨hunknown, -⟩
      · exact hhit
      · exact absurd hk hunknown
    · intro hk
      rcases hcases with ⟨hfound, -⟩ | ⟨-, a, hanswer, rfl⟩
      · exact absurd hfound hk
      · exact ⟨a, hanswer, rfl, hserved.serves.counters.2.1⟩
  · intro f wr
    obtain ⟨r, w'', hwrite, hserved⟩ := Facade.write_served (hspares f) (hlogged f) hidle' wr
    exact ⟨r, w'', hwrite, hserved.log⟩
  · intro more
    obtain ⟨deeds', calls', w'', hmore, hserves', -, hlog'⟩ :=
      Errand.all_served hspares hlogged hidle' more
    refine ⟨deeds', calls', w'', hmore, hlog', fun k hkept => ?_⟩
    refine ⟨hserves'.answers_le_one hkept, fun hk => hserves'.asks_of_mem ?_ hkept⟩
    rw [hkeys]
    exact hk

end Errands

/-! ## Two facades over one memory -/

/-- Two stores over one table: one that fails for the key 8, and one that does not. -/
def twoStores : Bool → Store (Unit × List Asked)
  | true => Store.fragile
  | false => (Store.table 0).watched

/-- A world with a marker and an empty table. -/
def markedWorld : World (Unit × List Asked) :=
  { World.initial ((), []) with
    markers := Pool.empty.add ⟨.counter 0, 0⟩
    tables := Pool.empty.add .empty }

/-- Lookups that miss, hit and fail, a put that fails and one that does not, and a marker that
moves. -/
def mixedErrands : List (Errand Bool) :=
  [.lookup true (.integer 7), .get false (.integer 7), .get true (.integer 8),
    .write true ⟨.integer 8, some (.u8 1)⟩, .write false ⟨.integer 8, some (.u8 2)⟩,
    .mark 0 (.counter 1), .compare, .lookup false (.integer 7)]

theorem spares_twoStores (f : Bool) (i : Nat) : (twoStores f).Spares i := by
  cases f
  · exact (Store.isMap_table 0).watched.spares i
  · exact Store.isMap_fragile.spares i

theorem logged_twoStores (f : Bool) : (twoStores f).Logged Prod.snd := by
  cases f
  · exact Store.logged_watched _
  · exact Store.logged_fragile

/-- Of the four lookups one is a hit; what was known was dropped, so one key is left, and the next
lookup of it makes no call. -/
theorem mixed_errands_know_one_key :
    ∃ i w deeds w', Memory.new (Path.ofString "d") 0 .u8 markedWorld = (.ok i, w) ∧
      Errand.all twoStores i mixedErrands w = (.ok deeds, w') ∧
      known deeds = {.integer 7} ∧ (w'.cells.get i).cache.size = 1 ∧
      (w'.cells.get i).cache.hits + (w'.cells.get i).cache.misses = 4 ∧
      (w'.cells.get i).cache.invalidations = 1 ∧
      ∃ x w'', Facade.lookup (twoStores true) i (.integer 7) w' = (.ok (.ok (.hit x)), w'') ∧
        w''.scene.2 = w'.scene.2 := by
  obtain ⟨w, hnew⟩ : ∃ w, Memory.new (Path.ofString "d") 0 .u8 markedWorld = (.ok 0, w) := ⟨_, rfl⟩
  have hdeeds : ((Memory.new (Path.ofString "d") 0 .u8 >>= fun i =>
      Errand.all twoStores i mixedErrands) markedWorld).1 =
      .ok [.looked (.integer 7) true, .looked (.integer 7) true, .looked (.integer 8) false,
        .wrote ⟨.integer 8, some (.u8 1)⟩ false, .wrote ⟨.integer 8, some (.u8 2)⟩ true, .marked,
        .compared true, .looked (.integer 7) true] := by cbv
  obtain ⟨deeds, calls, w', hall, -, hsize, hlookups, -, hdrops, hnext, -⟩ :=
    Memory.asks_for_unknown_keys_only hnew (fun f => spares_twoStores f 0) logged_twoStores
      mixedErrands
  rw [Act.bind_ok _ hnew, hall] at hdeeds
  cases hdeeds
  obtain ⟨r, calls', w'', hlookup, -, hlog, hhit, -⟩ := hnext true (.integer 7)
  obtain ⟨⟨x, rfl⟩, rfl⟩ := hhit (by decide)
  exact ⟨0, w, _, w', hnew, hall, by decide, hsize.trans (by decide), hlookups, hdrops, x, w'',
    hlookup, hlog.trans (List.append_nil _)⟩

end LeaseCache
