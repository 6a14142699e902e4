import LeaseCache.Proofs.LayeredHooks
import LeaseCache.Proofs.RegistrySpec

/-!
# When entries are dropped

The memories under a lease are created, recorded and compared in any order, by hooks or one by one,
while entries come and go and markers move, fail and recover. What became of a memory is told by the
list of these occurrences: a comparison keeps the entries if and only if the marker shows what it
showed at the last event that fixed the baseline (`Occurrence.fixed`). Main statement:
`Course.kept_iff_shows_what_was_fixed`, which also says that nothing is lost as long as every move
of a marker is followed by a recording before the next comparison, and that the order in which a
registry lists its memories is nothing to a hook.
-/

namespace LeaseCache

variable {σ : Type}

/-! ## What has happened -/

/-- Something that concerns the baseline of a memory, with what its marker showed then. -/
inductive Occurrence where
  | created (cell : Nat) (reading : Option Signal)
  | recorded (cell : Nat) (reading : Option Signal)
  | compared (cell : Nat) (reading : Option Signal) (dropped : Bool)
  /-- A marker shows something else than before, or may do so. -/
  | moved (marker : Nat)
  deriving DecidableEq

namespace Occurrence

/-- What the marker of a memory showed at the last event that fixed the baseline: the creation, a
recording, or a comparison that dropped the entries. The newest occurrence stands first. -/
def fixed (c : Nat) : List Occurrence → Option Signal
  | [] => none
  | .created d reading :: older => if d = c then reading else fixed c older
  | .recorded d reading :: older => if d = c then reading else fixed c older
  | .compared d reading dropped :: older => if d = c ∧ dropped then reading else fixed c older
  | .moved _ :: older => fixed c older

/-- How often a comparison dropped the entries of a memory. -/
def drops (c : Nat) : List Occurrence → Nat
  | [] => 0
  | .created .. :: older => drops c older
  | .recorded .. :: older => drops c older
  | .compared d _ dropped :: older => drops c older + if d = c ∧ dropped then 1 else 0
  | .moved _ :: older => drops c older

/-- A marker has not moved since the memory was created or last recorded. -/
def Settled (c marker : Nat) : List Occurrence → Prop
  | [] => True
  | .created d _ :: older => d = c ∨ Settled c marker older
  | .recorded d _ :: older => d = c ∨ Settled c marker older
  | .compared .. :: older => Settled c marker older
  | .moved n :: older => n ≠ marker ∧ Settled c marker older

/-- The marker of a memory could be read whenever it was, and each of its moves was followed by a
recording before the next comparison. -/
def Heeded (c marker : Nat) : List Occurrence → Prop
  | [] => True
  | .created d reading :: older => (d = c → reading.isSome) ∧ Heeded c marker older
  | .recorded d reading :: older => (d = c → reading.isSome) ∧ Heeded c marker older
  | .compared d reading _ :: older =>
    (d = c → reading.isSome ∧ Settled c marker older) ∧ Heeded c marker older
  | .moved _ :: older => Heeded c marker older

variable {c marker : Nat} {moves : List Nat} {log : List Occurrence}

theorem fixed_moves : fixed c (moves.map moved ++ log) = fixed c log := by
  induction moves with
  | nil => rfl
  | cons n moves ih => exact ih

theorem drops_moves : drops c (moves.map moved ++ log) = drops c log := by
  induction moves with
  | nil => rfl
  | cons n moves ih => exact ih

theorem heeded_moves (h : Heeded c marker (moves.map moved ++ log)) : Heeded c marker log := by
  induction moves with
  | nil => exact h
  | cons n moves ih => exact ih h

theorem settled_moves (h : Settled c marker (moves.map moved ++ log)) :
    marker ∉ moves ∧ Settled c marker log := by
  induction moves with
  | nil => exact ⟨List.not_mem_nil, h⟩
  | cons n moves ih =>
    obtain ⟨hnot, hlog⟩ := ih h.2
    exact ⟨fun hmem => (List.mem_cons.1 hmem).elim (Ne.symm h.1) hnot, hlog⟩

end Occurrence

open Occurrence (fixed drops Settled Heeded)
open World (Sweep)

/-! ## What happens -/

/-- What a marker shows to a memory. -/
def World.shown (w : World σ) (c : Nat) : Option Signal :=
  (w.signal (w.cells.get c).marker).toOption

/-- What the hook of a phase does to a memory, as an occurrence. -/
def World.noted (w : World σ) (phase : Phase) (c : Nat) : Occurrence :=
  match phase with
  | .unlocked => .recorded c (w.shown c)
  | .locked => .compared c (w.shown c) (!(w.cells.get c).cache.isFresh (w.shown c))

/-- Between two worlds a lease kept its memories and they their baselines, and no markers but these
have moved. What the memories hold may have changed. -/
structure Beside (i : Nat) (moves : List Nat) (w w' : World σ) : Prop where
  registry : (w'.leases.get i).registry = (w.leases.get i).registry
  apart : Registry.Apart (w.leases.get i).registry w w'
  baseline : ∀ c ∈ w.memories i, (w'.cells.get c).cache.baseline = (w.cells.get c).cache.baseline
  invalidations : ∀ c ∈ w.memories i,
    (w'.cells.get c).cache.invalidations = (w.cells.get c).cache.invalidations
  signal : ∀ n, n ∉ moves → w'.signal n = w.signal n

/-- What has happened to the memories under a lease that began without any, the newest occurrence
first, and the world after it. -/
inductive Course (i : Nat) : List Occurrence → World σ → Prop
  | start {w} : (w.registries.get (w.leases.get i).registry).cells = .empty → Course i [] w
  | create {log w} (handle type marker) : Course i log w →
    (w.registries.get (w.leases.get i).registry).cell? handle = none →
    Course i (.created w.cells.next (w.signal marker).toOption :: log)
      (Registry.acquire (w.leases.get i).registry handle type (pure marker) w).2
  | record {log w} (c) : Course i log w → c ∈ w.memories i →
    Course i (.recorded c (w.shown c) :: log) (Memory.recordMarker c w).2
  | compare {log w} (c dropped) : Course i log w → c ∈ w.memories i →
    (Memory.invalidateIfStale c w).1 = .ok dropped →
    Course i (.compared c (w.shown c) dropped :: log) (Memory.invalidateIfStale c w).2
  | meanwhile {log w w'} (moves) : Course i log w → Beside i moves w w' →
    Course i (moves.map .moved ++ log) w'

section Beside

variable {i c : Nat} {w w' : World σ} {moves : List Nat}

theorem Beside.memories (h : Beside i moves w w') : w'.memories i = w.memories i := by
  rw [World.memories, h.registry, h.apart.registry]
  rfl

/-- The markers and the files may change as they like. -/
theorem beside_of_same (i : Nat) (hleases : (w'.leases.get i).registry = (w.leases.get i).registry)
    (hregistries : w'.registries = w.registries) (hcells : w'.cells = w.cells)
    (hsignal : ∀ n, n ∉ moves → w'.signal n = w.signal n) : Beside i moves w w' where
  registry := hleases
  apart := .of_same _ hregistries hcells
  baseline c _ := by rw [hcells]
  invalidations c _ := by rw [hcells]
  signal := hsignal

/-- Whatever is done to the entries of a memory is nothing to its baseline. -/
theorem beside_setCache (i c : Nat) {f : Cache Value → Cache Value} (w : World σ)
    (hbaseline : ∀ cache, (f cache).baseline = cache.baseline)
    (hinvalidations : ∀ cache, (f cache).invalidations = cache.invalidations) :
    Beside i [] w (w.setCache c f) where
  registry := rfl
  apart := by
    refine ⟨rfl, Nat.le_refl _, ?_, ?_, ?_⟩
    all_goals
      intro d _
      rw [World.get_setCache]
      split
      · next hd => rw [hd]
      · rfl
  baseline d _ := by
    rw [World.get_setCache]
    split
    · next hd => rw [hd]; exact hbaseline _
    · rfl
  invalidations d _ := by
    rw [World.get_setCache]
    split
    · next hd => rw [hd]; exact hinvalidations _
    · rfl
  signal n _ := rfl

end Beside

/-! ## What the occurrences tell -/

namespace Cache

variable {V : Type} (c : Cache V) (reading : Option Signal)

theorem baseline_invalidate :
    (c.invalidate reading).baseline = if c.isFresh reading then c.baseline else reading := by
  unfold invalidate
  split <;> rfl

theorem invalidations_invalidate :
    (c.invalidate reading).invalidations =
      c.invalidations + if c.isFresh reading then 0 else 1 := by
  unfold invalidate
  split <;> rfl

end Cache

/-- The occurrences tell the baseline of every memory and how often its entries were dropped; and
if its marker was heeded, they were never dropped, and the marker still shows what was fixed unless
it has moved since. -/
structure Told (i : Nat) (log : List Occurrence) (w : World σ) : Prop where
  sound : Registry.Sound (w.leases.get i).registry w
  baseline : ∀ c ∈ w.memories i, (w.cells.get c).cache.baseline = fixed c log
  invalidations : ∀ c ∈ w.memories i, (w.cells.get c).cache.invalidations = drops c log
  unborn : ∀ c, w.cells.next ≤ c → drops c log = 0
  heeded : ∀ c ∈ w.memories i, Heeded c (w.cells.get c).marker log →
    drops c log = 0 ∧ (Settled c (w.cells.get c).marker log → fixed c log = w.shown c)

namespace Told

variable {i c : Nat} {log : List Occurrence} {w w' : World σ} {moves : List Nat}

theorem lt_next (h : Told i log w) (hc : c ∈ w.memories i) : c < w.cells.next :=
  h.sound.old c hc

theorem start (h : (w.registries.get (w.leases.get i).registry).cells = .empty) : Told i [] w := by
  have hnone : w.memories i = [] := by
    rw [World.memories, h]
    rfl
  have hnot : ∀ c, c ∉ w.memories i := by
    intro c
    rw [hnone]
    exact List.not_mem_nil
  refine ⟨⟨?_, fun c hc => absurd hc (hnot c)⟩, fun c hc => absurd hc (hnot c),
    fun c hc => absurd hc (hnot c), fun _ _ => rfl, fun c hc => absurd hc (hnot c)⟩
  rw [show (w.registries.get (w.leases.get i).registry).cells.values = [] from hnone]
  exact List.nodup_nil

theorem meanwhile (h : Told i log w) (hb : Beside i moves w w') :
    Told i (moves.map .moved ++ log) w' := by
  have hmarker : ∀ c ∈ w.memories i, (w'.cells.get c).marker = (w.cells.get c).marker :=
    hb.apart.marker
  refine ⟨?_, ?_, ?_, ?_, ?_⟩
  · rw [hb.registry]
    exact h.sound.apart hb.apart
  · intro c hc
    rw [hb.memories] at hc
    rw [hb.baseline c hc, h.baseline c hc, Occurrence.fixed_moves]
  · intro c hc
    rw [hb.memories] at hc
    rw [hb.invalidations c hc, h.invalidations c hc, Occurrence.drops_moves]
  · intro c hc
    rw [Occurrence.drops_moves]
    exact h.unborn c (Nat.le_trans hb.apart.next hc)
  · intro c hc hheeded
    rw [hb.memories] at hc
    rw [hmarker c hc] at hheeded ⊢
    obtain ⟨hdrops, hfixed⟩ := h.heeded c hc (Occurrence.heeded_moves hheeded)
    refine ⟨Occurrence.drops_moves.trans hdrops, fun hsettled => ?_⟩
    obtain ⟨hnot, hsettled⟩ := Occurrence.settled_moves hsettled
    rw [Occurrence.fixed_moves, hfixed hsettled, World.shown, World.shown, hmarker c hc,
      hb.signal _ hnot]

theorem memories_register {handle : Path}
    (hnone : (w.registries.get (w.leases.get i).registry).cell? handle = none) (type : ValueType)
    (marker : Nat) :
    (w.register (w.leases.get i).registry handle type marker).memories i =
      w.memories i ++ [w.cells.next] := by
  rw [World.memories]
  show ((w.registries.modify _ _).get (w.leases.get i).registry).cells.values = _
  rw [Pool.get_modify, if_pos rfl]
  exact Table.values_insert _ hnone _

theorem signal_register (w : World σ) (r : Nat) (handle : Path) (type : ValueType)
    (marker n : Nat) : (w.register r handle type marker).signal n = w.signal n := by
  rw [World.signal, World.signal]
  show ((w.countRead marker).markers.get n).kind.signal w.files = _
  rw [w.kind_countRead]

/-- A new memory is right for what its marker shows, and the others are not touched. -/
theorem create (h : Told i log w) {handle : Path}
    (hnone : (w.registries.get (w.leases.get i).registry).cell? handle = none) (type : ValueType)
    (marker : Nat) :
    Told i (.created w.cells.next (w.signal marker).toOption :: log)
      (w.register (w.leases.get i).registry handle type marker) := by
  have hsound : Registry.Sound (w.leases.get i).registry
      (w.register (w.leases.get i).registry handle type marker) := by
    have hmade : Registry.Apart (w.leases.get i).registry w ((pure marker : Act σ Nat) w).2 :=
      .refl _ w
    have hacquire := h.sound.acquire handle type hmade
    rwa [Registry.acquire_of_made hnone type (Act.pure_apply marker w)] at hacquire
  have hcells : ∀ c, (w.register (w.leases.get i).registry handle type marker).cells.get c =
      if c = w.cells.next then ⟨handle, marker, type, false, .fresh (w.signal marker).toOption⟩
      else w.cells.get c :=
    fun c => Pool.get_add _ _ _
  have hmem : ∀ {c}, c ∈ (w.register (w.leases.get i).registry handle type marker).memories i →
      c = w.cells.next ∨ c ∈ w.memories i ∧ w.cells.next ≠ c := by
    intro c hc
    rw [memories_register hnone, List.mem_append, List.mem_singleton] at hc
    rcases hc with hc | hc
    · exact .inr ⟨hc, Nat.ne_of_gt (h.lt_next hc)⟩
    · exact .inl hc
  refine ⟨hsound, ?_, ?_, ?_, ?_⟩
  · intro c hc
    rw [hcells, fixed]
    rcases hmem hc with rfl | ⟨hc, hne⟩
    · rw [if_pos rfl, if_pos rfl]
      rfl
    · rw [if_neg hne.symm, if_neg hne]
      exact h.baseline c hc
  · intro c hc
    rw [hcells, drops]
    rcases hmem hc with rfl | ⟨hc, hne⟩
    · rw [if_pos rfl, h.unborn _ (Nat.le_refl _)]
      rfl
    · rw [if_neg hne.symm]
      exact h.invalidations c hc
  · intro c hc
    exact h.unborn c (Nat.le_of_succ_le hc)
  · intro c hc hheeded
    rcases hmem hc with rfl | ⟨hc, hne⟩
    · refine ⟨h.unborn _ (Nat.le_refl _), fun _ => ?_⟩
      rw [fixed, if_pos rfl, World.shown, hcells, if_pos rfl, signal_register]
    · rw [hcells, if_neg hne.symm] at hheeded ⊢
      obtain ⟨hdrops, hfixed⟩ := h.heeded c hc hheeded.2
      refine ⟨hdrops, fun hsettled => ?_⟩
      rw [fixed, if_neg hne, hfixed (hsettled.resolve_left hne), World.shown, World.shown, hcells,
        if_neg hne.symm, signal_register]

/-! ### One memory is recorded or compared -/

theorem memories_sweep {ids : List Nat} {change : Option Signal → Cache Value → Cache Value}
    (hs : Sweep ids change w w') (i : Nat) : w'.memories i = w.memories i := by
  rw [World.memories, World.memories, hs.leases, hs.registries]

theorem shown_sweep {ids : List Nat} {change : Option Signal → Cache Value → Cache Value}
    (hs : Sweep ids change w w') (c : Nat) : w'.shown c = w.shown c := by
  rw [World.shown, World.shown, hs.marker, hs.signal]

theorem sound_sweep {ids : List Nat} {change : Option Signal → Cache Value → Cache Value}
    (h : Told i log w) (hs : Sweep ids change w w') :
    Registry.Sound (w'.leases.get i).registry w' := by
  rw [hs.leases]
  exact ⟨by rw [hs.registries]; exact h.sound.nodup,
    by rw [hs.registries, hs.next]; exact h.sound.old⟩

theorem cache_sweep {change : Option Signal → Cache Value → Cache Value}
    (hs : Sweep [c] change w w') (d : Nat) :
    (w'.cells.get d).cache =
      if c = d then change (w.shown c) (w.cells.get c).cache else (w.cells.get d).cache := by
  rw [hs.cells]
  by_cases hd : c = d
  · subst hd
    rw [if_pos (List.mem_singleton_self c), if_pos rfl]
    rfl
  · rw [if_neg (fun hmem => hd (List.mem_singleton.1 hmem).symm), if_neg hd]

theorem record (h : Told i log w) (hs : Sweep [c] Phase.unlocked.change w w') :
    Told i (.recorded c (w.shown c) :: log) w' := by
  refine ⟨h.sound_sweep hs, ?_, ?_, ?_, ?_⟩
  · intro d hd
    rw [memories_sweep hs] at hd
    rw [cache_sweep hs, fixed]
    split
    · rfl
    · exact h.baseline d hd
  · intro d hd
    rw [memories_sweep hs] at hd
    rw [cache_sweep hs, drops]
    split
    · next hcd =>
      subst hcd
      exact h.invalidations c hd
    · exact h.invalidations d hd
  · intro d hd
    rw [hs.next] at hd
    exact h.unborn d hd
  · intro d hd hheeded
    rw [memories_sweep hs] at hd
    rw [hs.marker] at hheeded ⊢
    obtain ⟨hdrops, hfixed⟩ := h.heeded d hd hheeded.2
    refine ⟨hdrops, fun hsettled => ?_⟩
    rw [fixed, shown_sweep hs]
    by_cases hcd : c = d
    · rw [if_pos hcd, hcd]
    · rw [if_neg hcd]
      exact hfixed (hsettled.resolve_left hcd)

/-- A comparison whose reading is what was fixed keeps the entries. -/
theorem isFresh_iff (h : Told i log w) (hc : c ∈ w.memories i) :
    (w.cells.get c).cache.isFresh (w.shown c) = true ↔
      ∃ s, w.signal (w.cells.get c).marker = .ok s ∧ fixed c log = some s := by
  have hshown : ∀ s, w.shown c = some s ↔ w.signal (w.cells.get c).marker = .ok s := by
    intro s
    rw [World.shown]
    cases w.signal (w.cells.get c).marker <;> simp [Except.toOption]
  rw [Cache.isFresh, Bool.and_eq_true, decide_eq_true_iff, h.baseline c hc]
  constructor
  · rintro ⟨hsome, hfixed⟩
    obtain ⟨s, hs⟩ := Option.isSome_iff_exists.1 hsome
    exact ⟨s, (hshown s).1 hs, hfixed.trans hs⟩
  · rintro ⟨s, hs, hfixed⟩
    rw [(hshown s).2 hs, hfixed]
    exact ⟨rfl, rfl⟩

theorem compare (h : Told i log w) (hc : c ∈ w.memories i)
    (hs : Sweep [c] Phase.locked.change w w') :
    Told i (w.noted .locked c :: log) w' := by
  obtain ⟨fresh, hfresh⟩ : ∃ fresh, (w.cells.get c).cache.isFresh (w.shown c) = fresh := ⟨_, rfl⟩
  rw [show w.noted .locked c = .compared c (w.shown c) (!fresh) by rw [World.noted, hfresh]]
  refine ⟨h.sound_sweep hs, ?_, ?_, ?_, ?_⟩
  · intro d hd
    rw [memories_sweep hs] at hd
    rw [cache_sweep hs, fixed]
    by_cases hcd : c = d
    · subst hcd
      rw [if_pos rfl, Phase.change, Cache.baseline_invalidate, hfresh, ← h.baseline c hd]
      cases fresh <;> simp
    · rw [if_neg hcd, if_neg fun hand => hcd hand.1]
      exact h.baseline d hd
  · intro d hd
    rw [memories_sweep hs] at hd
    rw [cache_sweep hs, drops]
    by_cases hcd : c = d
    · subst hcd
      rw [if_pos rfl, Phase.change, Cache.invalidations_invalidate, hfresh, h.invalidations c hd]
      cases fresh <;> simp
    · rw [if_neg hcd, if_neg fun hand => hcd hand.1]
      exact h.invalidations d hd
  · intro d hd
    rw [hs.next] at hd
    have hcd : c ≠ d := Nat.ne_of_lt (Nat.lt_of_lt_of_le (h.lt_next hc) hd)
    rw [drops, if_neg fun hand => hcd hand.1]
    exact h.unborn d hd
  · intro d hd hheeded
    rw [memories_sweep hs] at hd
    rw [hs.marker] at hheeded ⊢
    obtain ⟨hdrops, hfixed⟩ := h.heeded d hd hheeded.2
    have hkept : ¬ (c = d ∧ (!fresh) = true) := by
      rintro ⟨rfl, hstale⟩
      -- the marker has not moved since it was fixed, so the comparison found it there
      obtain ⟨hsome, hsettled⟩ := hheeded.1 rfl
      have hbaseline : (w.cells.get c).cache.baseline = w.shown c :=
        (h.baseline c hd).trans (hfixed hsettled)
      have htrue : (w.cells.get c).cache.isFresh (w.shown c) = true := by
        rw [Cache.isFresh, hbaseline, hsome]
        simp
      rw [← hfresh, htrue] at hstale
      cases hstale
    rw [drops, fixed, if_neg hkept, if_neg hkept, shown_sweep hs]
    exact ⟨hdrops, hfixed⟩

end Told

namespace Course

variable {i c : Nat} {log : List Occurrence} {w w' : World σ}

/-- A comparison ends with whether it dropped the entries. -/
theorem compare_noted (h : Course i log w) (hc : c ∈ w.memories i) :
    Course i (w.noted .locked c :: log) (Memory.invalidateIfStale c w).2 := by
  obtain ⟨w', hrun, -⟩ := Memory.invalidateIfStale_sweep c w
  exact h.compare c _ hc (congrArg Prod.fst hrun)

theorem told (h : Course i log w) : Told i log w := by
  induction h with
  | start hempty => exact .start hempty
  | create handle type marker _ hnone ih =>
    rw [Registry.acquire_of_made hnone type (Act.pure_apply marker _)]
    exact ih.create hnone type marker
  | @record log w c _ hc ih =>
    obtain ⟨w', hrun, hs⟩ := Memory.recordMarker_sweep c w
    rw [hrun]
    exact ih.record hs
  | @compare log w c dropped _ hc hdropped ih =>
    obtain ⟨w', hrun, hs⟩ := Memory.invalidateIfStale_sweep c w
    rw [hrun] at hdropped ⊢
    cases hdropped
    exact ih.compare hc hs
  | meanwhile moves _ hb ih => exact ih.meanwhile hb

/-! ## Hooks -/

/-- What is done to one memory is not noted of another one. -/
theorem noted_sweep {phase phase' : Phase} (hs : Sweep [c] phase.change w w') {d : Nat}
    (hd : d ≠ c) : w'.noted phase' d = w.noted phase' d := by
  have hcache := Told.cache_sweep hs d
  rw [if_neg hd.symm] at hcache
  cases phase' <;> simp only [World.noted, Told.shown_sweep hs, hcache]

theorem map_noted_sweep {phase phase' : Phase} (hs : Sweep [c] phase.change w w')
    {ids : List Nat} (hc : c ∉ ids) : ids.map (w'.noted phase') = ids.map (w.noted phase') :=
  List.map_congr_left fun _ hd => noted_sweep hs fun heq => hc (heq ▸ hd)

theorem recordAll (h : Course i log w) {ids : List Nat} (hids : ∀ c ∈ ids, c ∈ w.memories i)
    (hnodup : ids.Nodup) :
    Course i ((ids.map (w.noted .unlocked)).reverse ++ log) (Lease.recordAll ids w).2 := by
  induction ids generalizing log w with
  | nil => exact h
  | cons c rest ih =>
    rw [List.nodup_cons] at hnodup
    have hfirst := h.record c (hids c List.mem_cons_self)
    obtain ⟨w₁, hrun, hs⟩ := Memory.recordMarker_sweep c w
    rw [hrun] at hfirst
    have hrest := ih hfirst (fun d hd => by
      rw [Told.memories_sweep hs]
      exact hids d (List.mem_cons_of_mem _ hd)) hnodup.2
    rw [map_noted_sweep hs hnodup.1] at hrest
    rw [Lease.recordAll, Act.bind_ok _ hrun, List.map_cons, List.reverse_cons, List.append_assoc]
    exact hrest

theorem invalidateAll (h : Course i log w) {ids : List Nat} (hids : ∀ c ∈ ids, c ∈ w.memories i)
    (hnodup : ids.Nodup) :
    Course i ((ids.map (w.noted .locked)).reverse ++ log) (Lease.invalidateAll ids w).2 := by
  induction ids generalizing log w with
  | nil => exact h
  | cons c rest ih =>
    rw [List.nodup_cons] at hnodup
    have hfirst := h.compare_noted (hids c List.mem_cons_self)
    obtain ⟨w₁, hrun, hs⟩ := Memory.invalidateIfStale_sweep c w
    rw [hrun] at hfirst
    have hrest := ih hfirst (fun d hd => by
      rw [Told.memories_sweep hs]
      exact hids d (List.mem_cons_of_mem _ hd)) hnodup.2
    rw [map_noted_sweep hs hnodup.1] at hrest
    obtain ⟨n, w₂, hothers, -⟩ := Lease.invalidateAll_sweep rest w₁
    rw [hothers] at hrest
    rw [Lease.invalidateAll, Act.bind_ok _ hrun, Act.bind_ok _ hothers, List.map_cons,
      List.reverse_cons, List.append_assoc]
    exact hrest

theorem registry_shifted (i : Nat) (by' : Int) (w : World σ) :
    ((w.leases.modify i fun l => { l with depth := l.depth + by' }).get i).registry =
      (w.leases.get i).registry := by
  rw [Lease.get_shifted, if_pos rfl]

/-- A hook records or compares each memory once. -/
theorem hook (h : Course i log w) (phase : Phase) :
    Course i (((w.memories i).map (w.noted phase)).reverse ++ log) (Lease.hook i phase w) := by
  have hnodup : (w.memories i).Nodup := h.told.sound.nodup
  cases phase with
  | unlocked =>
    obtain ⟨w₁, hrecord, -⟩ := Lease.recordAll_sweep (w.memories i) w
    have hrecorded := h.recordAll (fun c hc => hc) hnodup
    rw [hrecord] at hrecorded
    rw [Lease.hook, Lease.enter, Lease.beforeReleased,
      Act.bind_ok _ (show Lease.cells i w = (.ok (w.memories i), w) from rfl),
      Act.bind_ok _ hrecord, Act.bind_ok _ (Lease.shift_eq i (-1) w₁)]
    exact hrecorded.meanwhile []
      (beside_of_same i (registry_shifted i (-1) w₁) rfl rfl fun _ _ => rfl)
  | locked =>
    let w₁ : World σ :=
      { w with leases := w.leases.modify i fun l => { l with depth := l.depth + 1 } }
    have hmemories : w₁.memories i = w.memories i := Lease.memories_shifted i 1 w
    have hshifted : Course i log w₁ :=
      h.meanwhile [] (beside_of_same i (registry_shifted i 1 w) rfl rfl fun _ _ => rfl)
    obtain ⟨n, w₂, hinvalidate, -⟩ := Lease.invalidateAll_sweep (w.memories i) w₁
    have hcompared := hshifted.invalidateAll (fun c hc => by rwa [hmemories]) hnodup
    rw [hinvalidate] at hcompared
    rw [Lease.hook, Lease.enter, Lease.beforeAcquired, Act.bind_ok _ (Lease.shift_eq i 1 w),
      Act.bind_ok _ (show Lease.cells i w₁ = (.ok (w₁.memories i), w₁) from rfl), hmemories,
      Act.bind_ok _ hinvalidate]
    exact hcompared.meanwhile [] (beside_of_same i rfl rfl rfl fun _ _ => rfl)

/-- A hook leaves everything but the baseline of a memory whose marker was heeded. -/
theorem hook_of_heeded (h : Course i log w) {phase : Phase} (hc : c ∈ w.memories i)
    (hheeded : Heeded c (w.cells.get c).marker
      (((w.memories i).map (w.noted phase)).reverse ++ log)) :
    ((Lease.hook i phase w).cells.get c).cache =
      { (w.cells.get c).cache with baseline := w.shown c } := by
  obtain ⟨w', henter, hentered⟩ := Lease.enter_spec (w := w) (i := i) phase h.told.sound.nodup
  have hhook : Lease.hook i phase w = w' := congrArg Prod.snd henter
  have htold := (h.hook phase).told
  rw [hhook] at htold ⊢
  have hcache : (w'.cells.get c).cache = phase.change (w.shown c) (w.cells.get c).cache := by
    rw [hentered.cells, if_pos hc]
    rfl
  cases phase with
  | unlocked => exact hcache
  | locked =>
    have hmem : c ∈ w'.memories i := by
      rwa [World.memories, hentered.lease, hentered.registries]
    have hmarker := hentered.marker c
    -- the entries were never dropped, so not by this hook either
    have hnever := htold.invalidations c hmem
    rw [(htold.heeded c hmem (hmarker ▸ hheeded)).1, hcache, Phase.change,
      Cache.invalidations_invalidate] at hnever
    have hfresh : (w.cells.get c).cache.isFresh (w.shown c) = true := by
      cases hstale : (w.cells.get c).cache.isFresh (w.shown c) with
      | true => rfl
      | false => rw [hstale] at hnever; cases hnever
    have hbaseline : (w.cells.get c).cache.baseline = w.shown c :=
      of_decide_eq_true (Bool.and_eq_true_iff.1 hfresh).2
    have hkept : Phase.locked.change (w.shown c) (w.cells.get c).cache = (w.cells.get c).cache :=
      if_pos hfresh
    rw [hcache, hkept, ← hbaseline]

end Course

/-- The order in which a registry lists its memories is nothing to a hook. -/
theorem Lease.cells_hook_of_perm {i : Nat} {w w' : World σ} (hnodup : (w.memories i).Nodup)
    (hcells : w'.cells = w.cells) (hmarkers : w'.markers = w.markers) (hfiles : w'.files = w.files)
    (hperm : (w'.memories i).Perm (w.memories i)) (phase : Phase) (c : Nat) :
    (hook i phase w').cells.get c = (hook i phase w).cells.get c := by
  obtain ⟨w₁, henter, hentered⟩ := enter_spec (w := w) (i := i) phase hnodup
  obtain ⟨w₁', henter', hentered'⟩ :=
    enter_spec (w := w') (i := i) phase (hperm.nodup_iff.2 hnodup)
  have hchanged : w'.changed phase.change c = w.changed phase.change c := by
    rw [World.changed, World.changed, World.signal, World.signal, hcells, hmarkers, hfiles]
  rw [hook, hook, henter, henter', hentered.cells, hentered'.cells, hchanged, hcells]
  simp only [hperm.mem_iff]

/-- A comparison keeps the entries of a memory if and only if its marker shows what it showed at the
last event that fixed the baseline. Kept, the memory is what it was; else it has no entries, its
baseline is what the marker shows now, and the drop is counted. A hook does this to every memory
once, in whatever order the registry lists them; and if a marker could be read whenever it was, and
each of its moves was followed by a recording before the next comparison, hooks change nothing but
the baseline of the memory. -/
theorem Course.kept_iff_shows_what_was_fixed {i : Nat} {log : List Occurrence} {w : World σ}
    (h : Course i log w) :
    (∀ c ∈ w.memories i, (w.cells.get c).cache.baseline = fixed c log ∧
      (w.cells.get c).cache.invalidations = drops c log ∧
      ∃ dropped w', Memory.invalidateIfStale c w = (.ok dropped, w') ∧
        Course i (.compared c (w.shown c) dropped :: log) w' ∧
        (dropped = false ↔
          ∃ s, w.signal (w.cells.get c).marker = .ok s ∧ fixed c log = some s) ∧
        (dropped = false → w'.cells.get c = w.cells.get c) ∧
        (dropped = true → w'.cells.get c = { w.cells.get c with
          cache := { (w.cells.get c).cache with
            entries := .empty
            epoch := (w.cells.get c).cache.epoch + 1
            baseline := w.shown c
            invalidations := (w.cells.get c).cache.invalidations + 1 } }) ∧
        ∀ d, d ≠ c → w'.cells.get d = w.cells.get d) ∧
    ∀ phase, Course i (((w.memories i).map (w.noted phase)).reverse ++ log)
        (Lease.hook i phase w) ∧
      (∀ c ∈ w.memories i, Heeded c (w.cells.get c).marker
          (((w.memories i).map (w.noted phase)).reverse ++ log) →
        ((Lease.hook i phase w).cells.get c).cache =
          { (w.cells.get c).cache with baseline := w.shown c }) ∧
      ∀ w₂ : World σ, w₂.cells = w.cells → w₂.markers = w.markers → w₂.files = w.files →
        (w₂.memories i).Perm (w.memories i) →
        ∀ c, (Lease.hook i phase w₂).cells.get c = (Lease.hook i phase w).cells.get c := by
  have htold := h.told
  refine ⟨fun c hc => ⟨htold.baseline c hc, htold.invalidations c hc, ?_⟩, fun phase =>
    ⟨h.hook phase, fun c hc => h.hook_of_heeded hc, fun w₂ hcells hmarkers hfiles hperm =>
      Lease.cells_hook_of_perm htold.sound.nodup hcells hmarkers hfiles hperm phase⟩⟩
  obtain ⟨w', hrun, hs⟩ : ∃ w', Memory.invalidateIfStale c w =
      (.ok (!(w.cells.get c).cache.isFresh (w.shown c)), w') ∧ Sweep [c] Phase.locked.change w w' :=
    Memory.invalidateIfStale_sweep c w
  have hcourse := h.compare_noted hc
  rw [hrun] at hcourse
  have hself : w'.cells.get c = { w.cells.get c with
      cache := (w.cells.get c).cache.invalidate (w.shown c) } := by
    rw [hs.cells, if_pos (List.mem_singleton_self c)]
    rfl
  refine ⟨_, w', hrun, hcourse, ?_, ?_, ?_, ?_⟩
  · rw [Bool.not_eq_false']
    exact htold.isFresh_iff hc
  · intro hkept
    rw [hself, Cache.invalidate, if_pos (by simpa using hkept)]
  · intro hdropped
    rw [hself, Cache.invalidate, if_neg (by simpa using hdropped)]
    rfl
  · intro d hd
    rw [hs.cells, if_neg fun hmem => hd (List.mem_singleton.1 hmem)]

/-! ## A marker that failed in between -/

/-- A world with a lease on a registry without memories, and a marker. -/
def World.unopened : World Unit :=
  { World.initial () with
    markers := Pool.empty.add ⟨.fixed (.ok (.generation 0)), 0⟩
    registries := Pool.empty.add ⟨.empty⟩
    leases := Pool.empty.add ⟨0, 0⟩ }

/-- What a marker shows is set, and nothing else. -/
theorem beside_set (i n : Nat) (answer : Except String Signal) (w : World σ) :
    Beside i [n] w (Marker.set n answer w).2 := by
  refine beside_of_same i rfl rfl rfl fun m hm => ?_
  rw [World.signal, World.signal]
  show ((w.markers.modify n _).get m).kind.signal w.files = _
  rw [Pool.get_modify, if_neg fun heq => hm (List.mem_singleton.2 heq)]

/-- An entry is put, and the marker fails while another process has access. Once it shows what it
showed before, the memory does not trust it: the comparison that drops the entries has found no
signal. -/
theorem recovered_marker_is_not_trusted :
    ∃ (log : List Occurrence) (w : World Unit), Course 0 log w ∧
      w.signal 0 = .ok (.generation 0) ∧ fixed 0 log = none ∧
      ∃ w', Memory.invalidateIfStale 0 w = (.ok true, w') ∧
        (w'.cells.get 0).cache.invalidations = 2 := by
  have created := (Course.start (i := 0) (w := World.unopened) rfl).create
    (Path.ofString "a") .u8 0 rfl
  have written := created.meanwhile []
    (beside_setCache 0 0 _ (f := (·.put (.integer 7) (.present (.u8 1)))) (fun _ => rfl)
      fun _ => rfl)
  have released := written.hook .unlocked
  have failed := released.meanwhile [0] (beside_set 0 0 (.error "gone") _)
  have dropped := failed.hook .locked
  have recovered := dropped.meanwhile [0] (beside_set 0 0 (.ok (.generation 0)) _)
  obtain ⟨hmemories, -⟩ := recovered.kept_iff_shows_what_was_fixed
  obtain ⟨-, -, was, w', hrun, -, hkept, -, hcleared, -⟩ := hmemories 0 (by decide)
  refine ⟨_, _, recovered, rfl, rfl, w', ?_⟩
  cases was with
  | false =>
    obtain ⟨s, -, hfixed⟩ := hkept.1 rfl
    cases hfixed
  | true =>
    refine ⟨hrun, ?_⟩
    rw [hcleared rfl]
    rfl

end LeaseCache
