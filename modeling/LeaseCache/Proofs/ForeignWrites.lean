import LeaseCache.Proofs.LockPhases

/-!
# Foreign writes and the release hook

A release hook takes the marker as it finds it for the baseline. While access is held that is right,
since the memory is right then. But a program can run a release hook without access, by a long
operation at top level or inside another one; and if another process has written since the last
hook, the new signal becomes the baseline of the old entries, and no later acquire hook drops them.

So the lookups of a program are right if no release hook runs over a foreign write that no acquire
hook has seen (`Watchful`). This cannot be weakened: whether a written key that was remembered is
read right depends on nothing but the first hook after the write.
-/

namespace LeaseCache

variable {σ : Type}

/-- The signals that a move makes the marker show. -/
def Move.shows : Move → List Signal
  | .write _ moved => moved.toList
  | .foreign _ s => [s]
  | _ => []

/-- What a move may be made for: lookups and writes need the locked phase, and another process needs
the depth not to be positive, and moves the marker to a signal not shown before. -/
def Move.Allowed (depth : Int) (shown : List Signal) : Move → Prop
  | .lookup _ => 0 < depth
  | .write _ _ => 0 < depth
  | .foreign _ s => depth ≤ 0 ∧ s ∉ shown
  | _ => True

/-- Every move is made when it may be. -/
def Admissible (v : View) (shown : List Signal) : List Move → Prop
  | [] => True
  | m :: more => m.Allowed v.depth shown ∧ Admissible (v.step m) (m.shows ++ shown) more

/-- No release hook runs over a foreign write that no acquire hook has seen. -/
def Watchful (unseen : Bool) : List Move → Prop
  | [] => True
  | .acquired :: more => Watchful false more
  | .released :: more => unseen = false ∧ Watchful false more
  | .foreign _ _ :: more => Watchful true more
  | .lookup _ :: more => Watchful unseen more
  | .write _ _ :: more => Watchful unseen more

/-- The moves that are hooks. -/
def Move.IsHook (m : Move) : Prop := m = .acquired ∨ m = .released

namespace Cache

variable {V : Type} {c : Cache V} {k l : Key} {x : Option V} {e : Entry V}

theorem answer_of_get? (h : c.get? k = some e) : c.answer k x = e.value? := by
  rw [answer, probe, h]

theorem answer_of_vacant (h : c.get? k = none) : c.answer k x = x := by
  rw [answer, probe, h]

/-- An entry after a lookup was there before, or is what the store holds. -/
theorem get?_ask_cases (h : (c.ask k x).get? l = some e) :
    c.get? l = some e ∨ l.Same k ∧ e.value? = x := by
  unfold ask at h
  split at h
  · exact .inl h
  · rcases get?_fill_cases h with hold | ⟨-, hl, rfl⟩
    · exact .inl hold
    · exact .inr ⟨hl, Entry.value?_ofOption x⟩

theorem baseline_ask (c : Cache V) (k : Key) (x : Option V) :
    (c.ask k x).baseline = c.baseline := by
  unfold ask
  split
  · rfl
  · exact baseline_fill _ _ _ _

end Cache

theorem Write.apply_of_same {w : Write Value} {k : Key} (h : k.Same w.key)
    (content : Identity → Option Value) : w.apply content k.identity = w.value? :=
  if_pos h.symm

theorem Write.apply_of_not_same {w : Write Value} {k : Key} (h : ¬ k.Same w.key)
    (content : Identity → Option Value) : w.apply content k.identity = content k.identity :=
  if_neg fun he => h he.symm

namespace View

variable {v : View} {shown : List Signal} {unseen : Bool} {k : Key} {m : Move}

/-! ## Signals -/

/-- The marker's signal and the baseline have been shown. -/
structure Noted (v : View) (shown : List Signal) : Prop where
  signal : v.signal ∈ shown
  baseline : ∀ s, v.cache.baseline = some s → s ∈ shown

theorem Noted.step (h : v.Noted shown) (m : Move) : (v.step m).Noted (m.shows ++ shown) := by
  cases m with
  | acquired =>
    refine ⟨h.signal, ?_⟩
    intro s hs
    rcases v.cache.invalidate_cases (some v.signal) with ⟨-, hkept⟩ | ⟨-, -, hbaseline⟩
    · rw [View.step, hkept] at hs
      exact h.baseline s hs
    · rw [View.step, hbaseline] at hs
      cases hs
      exact h.signal
  | released =>
    refine ⟨h.signal, ?_⟩
    intro s hs
    cases hs
    exact h.signal
  | lookup k =>
    refine ⟨h.signal, ?_⟩
    intro s hs
    rw [View.step, Cache.baseline_ask] at hs
    exact h.baseline s hs
  | write w moved =>
    constructor
    · cases moved with
      | none => exact h.signal
      | some s => exact List.mem_cons_self
    · intro s hs
      rw [View.step, Cache.baseline_settle] at hs
      exact List.mem_append_right _ (h.baseline s hs)
  | foreign w s =>
    exact ⟨List.mem_cons_self, fun t ht => List.mem_cons_of_mem s (h.baseline t ht)⟩

/-! ## Right entries -/

/-- Every entry is what the store holds. -/
def Right (v : View) : Prop := ∀ k e, v.cache.get? k = some e → e.value? = v.content k.identity

/-- A lookup is right if and only if the entry of its key is, when there is one. -/
theorem right_lookup_iff {r : Report} (hr : v.report? (.lookup k) = some r) :
    r.Right ↔ ∀ e, v.cache.get? k = some e → e.value? = v.content k.identity := by
  cases hr
  rw [Report.Right, Except.ok.injEq]
  cases hk : v.cache.get? k with
  | none =>
    rw [Cache.answer_of_vacant hk]
    exact ⟨fun _ => nofun, fun _ => rfl⟩
  | some e =>
    rw [Cache.answer_of_get? hk]
    constructor
    · intro h f hf
      cases hf
      exact h
    · intro h
      exact h e rfl

theorem right_fresh {s : Option Signal} (h : v.cache = .fresh s) : v.Right := by
  intro k e he
  rw [h] at he
  cases he

theorem Right.lookup (h : v.Right) (k : Key) : (v.step (.lookup k)).Right := by
  intro l e he
  rcases Cache.get?_ask_cases he with hold | ⟨hl, hx⟩
  · exact h l e hold
  · rw [hx]
    exact congrArg v.content hl.symm

theorem Right.write (h : v.Right) (w : Write Value) (moved : Option Signal) :
    (v.step (.write w moved)).Right := by
  intro l e he
  by_cases hl : l.Same w.key
  · obtain ⟨-, hx⟩ := Cache.value?_of_get?_settle hl he
    rw [hx]
    exact (Write.apply_of_same hl v.content).symm
  · rw [View.step, Cache.get?_settle_of_not_same hl] at he
    rw [h l e he]
    exact (Write.apply_of_not_same hl v.content).symm

/-- An acquire hook makes the entries right if the marker has left the baseline. -/
theorem right_acquired (h : v.cache.baseline = some v.signal → v.Right) :
    (v.step .acquired).Right := by
  intro l e he
  rcases v.cache.invalidate_cases (some v.signal) with ⟨hfresh, hkept⟩ | ⟨hentries, -, -⟩
  · have hbaseline : v.cache.baseline = some v.signal :=
      of_decide_eq_true (Bool.and_eq_true_iff.1 hfresh).2
    rw [View.step, hkept] at he
    exact h hbaseline l e he
  · rw [View.step, Cache.get?, hentries] at he
    cases he

/-- The entries are right, or the depth is not positive and the marker has left the baseline, by a
foreign write that no acquire hook has seen. -/
structure Warned (v : View) (unseen : Bool) : Prop where
  right : unseen = false → v.Right
  moved : unseen = true → v.depth ≤ 0 ∧ v.cache.baseline ≠ some v.signal

theorem Warned.right_of_locked (h : v.Warned unseen) (hdepth : 0 < v.depth) :
    unseen = false ∧ v.Right := by
  cases unseen with
  | false => exact ⟨rfl, h.right rfl⟩
  | true => exact absurd (h.moved rfl).1 (Int.not_le.2 hdepth)

theorem warned_of_right (h : v.Right) : v.Warned false := ⟨fun _ => h, nofun⟩

/-- Every lookup of an admissible, watchful run is right. -/
theorem reports_right {moves : List Move} (hn : v.Noted shown) (hv : v.Warned unseen)
    (ha : Admissible v shown moves) (hw : Watchful unseen moves) :
    ∀ r ∈ v.reports moves, r.Right := by
  -- `Warned` carries a foreign write from where it is made to the next acquire hook
  induction moves generalizing v shown unseen with
  | nil =>
    intro r hr
    cases hr
  | cons m more ih =>
    obtain ⟨hallowed, ha⟩ := ha
    have hnext := hn.step m
    intro r hr
    rw [reports, List.mem_append] at hr
    cases m with
    | acquired =>
      refine ih hnext (warned_of_right (right_acquired fun hbaseline => ?_)) ha hw r
        (hr.resolve_left List.not_mem_nil)
      cases unseen with
      | false => exact hv.right rfl
      | true => exact absurd hbaseline (hv.moved rfl).2
    | released =>
      obtain ⟨rfl, hw⟩ := hw
      exact ih hnext (warned_of_right (hv.right rfl)) ha hw r (hr.resolve_left List.not_mem_nil)
    | lookup k =>
      obtain ⟨rfl, hright⟩ := hv.right_of_locked hallowed
      rcases hr with hr | hr
      · exact (right_lookup_iff (Option.mem_toList.1 hr)).2 (hright k)
      · exact ih hnext (warned_of_right (hright.lookup k)) ha hw r hr
    | write w moved =>
      obtain ⟨rfl, hright⟩ := hv.right_of_locked hallowed
      exact ih hnext (warned_of_right (hright.write w moved)) ha hw r
        (hr.resolve_left List.not_mem_nil)
    | foreign w s =>
      -- the signal is new, so it is not the baseline
      have hwarned : (v.step (.foreign w s)).Warned true := by
        refine ⟨fun hseen => absurd hseen (by decide), fun _ => ⟨hallowed.1, ?_⟩⟩
        intro hbaseline
        exact hallowed.2 (hn.baseline s hbaseline)
      exact ih hnext hwarned ha hw r (hr.resolve_left List.not_mem_nil)

/-! ## What the first hook after a foreign write decides -/

/-- While the marker shows the baseline, hooks keep the entries. -/
theorem run_hooks {hooks : List Move} (hh : ∀ m ∈ hooks, m.IsHook)
    (hv : v.cache.baseline = some v.signal) :
    (v.run hooks).cache.entries = v.cache.entries ∧ (v.run hooks).content = v.content := by
  induction hooks generalizing v with
  | nil => exact ⟨rfl, rfl⟩
  | cons m hooks ih =>
    have hrest : ∀ m ∈ hooks, m.IsHook := fun m hm => hh m (List.mem_cons_of_mem _ hm)
    rcases hh m List.mem_cons_self with rfl | rfl
    · have hkept : v.cache.invalidate (some v.signal) = v.cache := by
        refine if_pos ?_
        rw [Cache.isFresh, hv]
        simp
      obtain ⟨hentries, hcontent⟩ := ih (v := v.step .acquired) hrest (by rw [View.step, hkept, hv])
      exact ⟨hentries.trans (congrArg Cache.entries hkept), hcontent⟩
    · exact ih (v := v.step .released) hrest rfl

theorem reports_hooks {hooks : List Move} (hh : ∀ m ∈ hooks, m.IsHook) : v.reports hooks = [] := by
  induction hooks generalizing v with
  | nil => rfl
  | cons m hooks ih =>
    have hrest : ∀ m ∈ hooks, m.IsHook := fun m hm => hh m (List.mem_cons_of_mem _ hm)
    rcases hh m List.mem_cons_self with rfl | rfl
    · exact ih hrest
    · exact ih hrest

/-- A foreign write replaces the value of a key that is remembered, and hooks follow. The key is
read right if and only if the first of them is an acquire hook. -/
theorem right_report_iff {w : Write Value} {s : Signal} {hooks : List Move} {e : Entry Value}
    {r : Report} (hn : v.Noted shown) (ha : (Move.foreign w s).Allowed v.depth shown)
    (hh : ∀ m ∈ hooks, m.IsHook) (hk : k.Same w.key) (he : v.cache.get? k = some e)
    (hne : e.value? ≠ w.value?)
    (hr : ((v.step (.foreign w s)).run hooks).report? (.lookup k) = some r) :
    r.Right ↔ hooks.head? = some .acquired := by
  have hheld : (v.step (.foreign w s)).content k.identity = w.value? :=
    Write.apply_of_same hk v.content
  rw [right_lookup_iff hr]
  cases hooks with
  | nil =>
    refine ⟨fun hright => absurd ?_ hne, nofun⟩
    rw [← hheld]
    exact hright e he
  | cons m hooks =>
    have hrest : ∀ m ∈ hooks, m.IsHook := fun m hm => hh m (List.mem_cons_of_mem _ hm)
    rcases hh m List.mem_cons_self with rfl | rfl
    · -- the marker has left the baseline, so the acquire hook drops the entry
      refine ⟨fun _ => rfl, fun _ f hf => ?_⟩
      rcases v.cache.invalidate_cases (some s) with ⟨hfresh, -⟩ | ⟨hempty, -, hbaseline⟩
      · have hsame := of_decide_eq_true (Bool.and_eq_true_iff.1 hfresh).2
        exact absurd (hn.baseline s hsame) ha.2
      · obtain ⟨hentries, -⟩ :=
          run_hooks (v := (v.step (.foreign w s)).step .acquired) hrest hbaseline
        rw [run, List.foldl_cons, ← run, Cache.get?, hentries] at hf
        rw [View.step, View.step, hempty] at hf
        cases hf
    · -- the release hook takes the new signal for the baseline of the old entry
      obtain ⟨hentries, hcontent⟩ :=
        run_hooks (v := (v.step (.foreign w s)).step .released) hrest rfl
      refine ⟨fun hright => absurd ?_ hne, fun hhead => by cases hhead⟩
      rw [← hheld]
      have hentry : ((v.step (.foreign w s)).run (.released :: hooks)).cache.get? k = some e := by
        rw [run, List.foldl_cons, ← run, Cache.get?, hentries]
        exact he
      rw [hright e hentry, run, List.foldl_cons, ← run, hcontent]
      rfl

end View

/-! ## Programs -/

theorem Admissible.append {v : View} {shown : List Signal} {ms ns : List Move}
    (h : Admissible v shown (ms ++ ns)) (hn : v.Noted shown) :
    ∃ shown', (v.run ms).Noted shown' ∧ Admissible (v.run ms) shown' ns := by
  induction ms generalizing v shown with
  | nil => exact ⟨shown, hn, h⟩
  | cons m ms ih => exact ih h.2 (hn.step m)

/-- Lookups in a program are right if no release hook runs over a foreign write that no acquire hook
has seen. And where a foreign write replaces what is remembered of a key, and only hooks lie between
it and the next lookup of the key, that lookup is right if and only if the first of them is an
acquire hook. -/
theorem Program.watchful_reads_are_right_and_first_hook_decides {access : Access σ}
    (hf : access.Faithful) {site : Site} {w : World σ} {v : View} (hs : v.Shown site w)
    (hfresh : v.cache = .fresh (some v.signal)) {p : Program}
    (ha : Admissible v [v.signal] p.moves) :
    ∃ reports w', p.run site access w = (.ok reports, w') ∧
      (Watchful false p.moves → ∀ r ∈ reports, r.Right) ∧
      ∀ before wr s hooks k after e,
        p.moves = before ++ .foreign wr s :: (hooks ++ .lookup k :: after) →
        (∀ m ∈ hooks, m.IsHook) → k.Same wr.key →
        (v.run before).cache.get? k = some e → e.value? ≠ wr.value? →
        ∃ r, reports[(v.reports before).length]? = some r ∧
          (r.Right ↔ hooks.head? = some .acquired) := by
  obtain ⟨w', hrun, -⟩ := p.run_ok hf site hs
  have hnoted : v.Noted [v.signal] := by
    refine ⟨List.mem_cons_self, fun s hs => ?_⟩
    rw [hfresh] at hs
    cases hs
    exact List.mem_cons_self
  refine ⟨_, w', hrun, ?_, ?_⟩
  · intro hwatchful
    exact View.reports_right hnoted (View.warned_of_right (View.right_fresh hfresh)) ha hwatchful
  · intro before wr s hooks k after e hmoves hhooks hk he hne
    rw [hmoves] at ha ⊢
    obtain ⟨shown, hnoted', hforeign, -⟩ := ha.append hnoted
    refine ⟨_, ?_, View.right_report_iff hnoted' hforeign hhooks hk he hne rfl⟩
    rw [View.reports_append, View.reports, View.reports_append, View.reports_hooks hhooks]
    simp [View.report?, View.reports]

/-! ## One store under a lease -/

/-- A world with one store, nothing in it, its memory and its marker, under a lease. -/
def World.single : World Unit :=
  { World.initial () with
    markers := Pool.empty.add ⟨.fixed (.ok (.generation 0)), 0⟩
    cells := Pool.empty.add ⟨⟨[]⟩, 0, .u8, false, .fresh (some (.generation 0))⟩
    tables := Pool.empty.add .empty
    registries := Pool.empty.add ⟨Table.empty.insert [] 0⟩
    leases := Pool.empty.add ⟨0, 0⟩ }

/-- Where everything stands in that world. -/
def Site.single : Site := ⟨0, 0, 0, 0⟩

/-- What that world shows. -/
def View.single : View := ⟨.fresh (some (.generation 0)), fun _ => none, .generation 0, 0⟩

theorem View.shown_single : View.single.Shown Site.single World.single :=
  ⟨rfl, rfl, rfl, rfl, fun _ => rfl, rfl, List.mem_singleton.2 rfl⟩

/-- A key is written, another process writes it during a long operation, and it is looked up. -/
def Program.heeding : Program :=
  .useStore "a" (.write ⟨.integer 7, some (.u8 1)⟩ none
    (.longRunning "b" (.foreign ⟨.integer 7, some (.u8 2)⟩ (.generation 1) .done)
      (.lookup (.integer 7) .done))) .done

/-- A key is written, another process writes it, a long operation starts without access, and the key
is looked up. -/
def Program.masking : Program :=
  .useStore "a" (.write ⟨.integer 7, some (.u8 1)⟩ none .done)
    (.foreign ⟨.integer 7, some (.u8 2)⟩ (.generation 1)
      (.longRunning "b" .done (.useStore "c" (.lookup (.integer 7) .done) .done)))

theorem Program.heeding_reads_the_foreign_write :
    ∃ w', Program.heeding.run Site.single (Cabinet.plain ⟨[]⟩ .json).access World.single =
      (.ok [⟨.ok (some (.u8 2)), some (.u8 2)⟩], w') ∧
      (∀ r ∈ [(⟨.ok (some (.u8 2)), some (.u8 2)⟩ : Report)], r.Right) ∧
      ∃ r : Report, [(⟨.ok (some (.u8 2)), some (.u8 2)⟩ : Report)][0]? = some r ∧
        (r.Right ↔ [Move.acquired].head? = some .acquired) := by
  have ha : Admissible View.single [.generation 0] heeding.moves := by
    simp [heeding, moves, Admissible, Move.Allowed, Move.shows, View.step, View.single]
  have hw : Watchful false heeding.moves := by
    simp [heeding, moves, Watchful]
  obtain ⟨reports, w', hrun, hright, hfirst⟩ := watchful_reads_are_right_and_first_hook_decides
    (Cabinet.faithful_access_plain ⟨[]⟩ .json) View.shown_single rfl ha
  have hreports : reports = [⟨.ok (some (.u8 2)), some (.u8 2)⟩] :=
    Except.ok.inj (congrArg Prod.fst hrun).symm
  subst hreports
  refine ⟨w', hrun, hright hw, ?_⟩
  exact hfirst [.acquired, .write ⟨.integer 7, some (.u8 1)⟩ none, .released] _ _ [.acquired] _ _
    (.present (.u8 1)) rfl (fun m hm => .inl (List.mem_singleton.1 hm)) rfl rfl (by decide)

/-- A long operation that starts without access masks a foreign write: the program is admissible,
and its lookup answers with the old value. -/
theorem Program.masking_hides_the_foreign_write :
    Admissible View.single [.generation 0] masking.moves ∧
    ∃ w', Program.masking.run Site.single (Cabinet.plain ⟨[]⟩ .json).access World.single =
      (.ok [⟨.ok (some (.u8 1)), some (.u8 2)⟩], w') ∧
      ¬ (⟨.ok (some (.u8 1)), some (.u8 2)⟩ : Report).Right := by
  refine ⟨?_, _, rfl, ?_⟩
  · simp [masking, moves, Admissible, Move.Allowed, Move.shows, View.step, View.single]
  · intro hright
    cases hright

end LeaseCache
