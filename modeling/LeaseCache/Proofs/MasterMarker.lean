import LeaseCache.Proofs.SharedTurns

/-!
# A master store as the marker

Whether the master's directory as a marker keeps the other stores right. A turn that asks nothing of
the master store leaves its time as it is, whatever was written. So a store is read right if each
time that its entries had changed the master's directory was modified too (`Commons.Covered`), as it
is for the master store itself; and where it was not, what is remembered is answered, be it right or
not. Main statement: `Commons.Season.right_where_the_master_tells`.
-/

namespace LeaseCache.Commons

open FileSystem (ModifiedSince Proceeds checkPath)

variable {σ : Type} {s : Commons} {w : World σ} {p : Nat}

/-! ## Where the master tells -/

/-- What happens in the master's own directory is always noticed. -/
theorem Season.covers_hub {log : List Turn} (h : s.Season log w) (p : Nat) {fs : FileSystem}
    (hfiles : Proceeds w.files fs) : s.Covered p s.hub log fs := by
  induction h generalizing fs with
  | start => trivial
  | opened _ _ hopen _ ih =>
    obtain ⟨w₁, hstays, -, rfl | ⟨-, -, rfl⟩⟩ := openStore_cases hopen
    · exact ih (hstays.files.trans hfiles)
    · exact ih (hstays.files.trans hfiles)
  | turn q name deeds hseason hq hpermits ih =>
    have hstays := hseason.kept.stays_turn hq name hpermits
    have hhub := (hseason.kept.tended.stays hstays).hub
    rw [Covered]
    split
    · exact (hfiles.noticed _ hhub.isDirectory).entries.imp_right fun hsame =>
        ⟨hsame, ih (.refl _)⟩
    · exact ih (hstays.files.trans hfiles)

/-- Work with access is done between the hooks. In it, a get is right if the store is covered, as
the master store always is. But a turn in which nothing is asked of the master store leaves its
directory the time that it had; and what was remembered when the turn came back is read right if and
only if the marker cannot be read, the master's directory was modified since the process had its
last turn, or the folder still holds it. -/
theorem Season.right_where_the_master_tells {log : List Turn} (h : s.Season log w)
    (hp : p ∈ s.processes) (name : String) :
    (∀ {α : Type} (body : Act σ α), (s.cabinet p).access.useCache name body w =
      ((body (s.begun p name w)).1, Lease.hook p .unlocked (body (s.begun p name w)).2)) ∧
    (∀ deeds, s.Permits p w deeds →
      s.Right (fun c => s.Covered p (s.place c) log w.files) deeds (s.begun p name w)) ∧
    s.Covered p s.hub log w.files ∧
    (∀ deeds, s.Permits p w deeds → (∀ d ∈ deeds, s.place d.cell ≠ s.hub) →
      ((s.cabinet p).access.useCache name (s.acts deeds) w).2.files.modified? s.hub =
        w.files.modified? s.hub) ∧
    ∀ c ∈ w.memories p, ∀ k e, s.keys c k → (w.cells.get c).cache.get? k = some e →
      ∃ fs, lastLeft p log = some fs ∧
        ((Facade.get (s.folder c).store c k (s.begun p name w)).1 =
            ((s.folder c).store.get k (s.begun p name w)).1 ↔
          checkPath s.path ≠ .ok () ∨ ModifiedSince s.hub fs w.files ∨
            (s.folder c).get k w.files = (.ok e.value?, w.files)) := by
  have hkept := h.kept
  refine ⟨fun body => s.useCache_eq p name body w, ?_, h.covers_hub p (.refl _), ?_, ?_⟩
  · intro deeds hpermits
    exact (hkept.turn_cases hp name hpermits).1
  · intro deeds hpermits
    exact (hkept.turn_cases hp name hpermits).2.2
  · intro c hc k e hk he
    exact right_iff_of_remembered hkept.tended hp name (hkept.away p hp c hc) hc hk he

/-! ## Two processes -/

/-- Two processes with a store `s`; the second has the master store `m` too. -/
def pair : Commons where
  base := Path.ofString "b"
  master := "m"
  processes := [0, 1]
  format _ := .json
  capacity _ := 0
  hub := [[0x77], [0x62], [0x6D]]
  folder c := ⟨Path.ofString (if c = 2 then "b/m" else "b/s"), .json, .u8⟩
  place c := [[0x77], [0x62], [if c = 2 then 0x6D else 0x73]]
  keys _ k := k = .integer 7
  oneSpelling := by
    rintro c k l name rfl rfl - -
    rfl

/-- Two leases on registries without memories, and the directory of the master store. -/
def pairStart : World Unit :=
  let prepare : Act Unit Unit := do
    let first ← Registry.new
    let _ ← Lease.new first
    let second ← Registry.new
    let _ ← Lease.new second
    let _ ← Act.disk (Disk.makeDirectories (Path.ofString "b/m"))
  (prepare (World.initial ())).2

/-- A process of the two opens a store. -/
def pairOpen (p : Nat) (file : String) (w : World Unit) :
    Except Interruption (Except Failure OpenStore) × World Unit :=
  (pair.cabinet p).openStore .u8 (Path.ofString file) w

/-- Both have opened their stores; the memories are 0, and 1 and 2. -/
def pairOpened : World Unit :=
  (pairOpen 1 "m" (pairOpen 1 "s" (pairOpen 0 "s" pairStart).2).2).2

/-- A value is put under the key 7. -/
def putSeven (c : Nat) (v : UInt8) : Deed := ⟨c, .write ⟨.integer 7, some (.u8 v)⟩⟩

/-- The world after a turn of one of the two. -/
def pairTurn (p : Nat) (deeds : List Deed) (w : World Unit) : World Unit :=
  ((pair.cabinet p).access.useCache "build" (pair.acts deeds) w).2

/-- The first puts 1 into the store, and in its turn the second puts 2 there and does some more. -/
def pairWritten (more : List Deed) : World Unit :=
  pairTurn 1 (putSeven 1 2 :: more) (pairTurn 0 [putSeven 0 1] pairOpened)

/-- The store that was opened, and its memory. -/
def opening? : Except Interruption (Except Failure OpenStore) → Option (EntryFolder × Nat)
  | .ok (.ok (.facade (.folder folder) c)) => some (folder, c)
  | _ => none

theorem of_opening? {x : Except Interruption (Except Failure OpenStore)} {folder : EntryFolder}
    {c : Nat} (h : opening? x = some (folder, c)) : x = .ok (.ok (.facade (.folder folder) c)) := by
  unfold opening? at h
  split at h
  · cases h
    rfl
  · cases h

theorem memories_pairStart : ∀ p ∈ pair.processes, pairStart.memories p = [] := by decide

theorem tended_pairStart : pair.Tended pairStart := by
  refine ⟨⟨rfl, rfl⟩, ?_, by decide, fun p hp => ?_, fun p hp q hq c hc => ?_, fun p hp c hc => ?_,
    fun p hp c hc => ?_⟩
  · exact (Disk.ticks_makeDirectories pair.hub (Path.ofString "b/m") FileSystem.initial).elapsed
      (FileSystem.elapsed_initial _)
  · rw [memories_pairStart p hp]
    exact List.nodup_nil
  all_goals
    rw [memories_pairStart p hp] at hc
    cases hc

theorem Season.pairOpen {log : List Turn} {w : World Unit} (h : pair.Season log w) (p : Nat)
    (file : String) (c : Nat) (hp : p ∈ pair.processes)
    (hopen : opening? (pairOpen p file w).1 = some (pair.folder c, c))
    (hleads : (Commons.pairOpen p file w).2.files.Leads (pair.folder c).directory (pair.place c))
    (hsingle : ∀ d ∈ w.memories p, pair.place d = pair.place c → d = c) :
    pair.Season log (Commons.pairOpen p file w).2 := by
  refine h.opened hp (Prod.ext (of_opening? hopen) rfl) ?_
  rintro folder c' hanswer
  cases hanswer
  exact ⟨rfl, hleads, hsingle⟩

theorem season_pairOpened : pair.Season [] pairOpened := by
  have hstart : pair.Season [] pairStart := by
    refine .start tended_pairStart fun p hp c hc => ?_
    rw [memories_pairStart p hp] at hc
    cases hc
  have hfirst := hstart.pairOpen 0 "s" 0 (by decide) (by decide +kernel)
    ⟨by decide +kernel, by decide +kernel⟩ (by decide +kernel)
  have hsecond := hfirst.pairOpen 1 "s" 1 (by decide) (by decide +kernel)
    ⟨by decide +kernel, by decide +kernel⟩ (by decide +kernel)
  exact hsecond.pairOpen 1 "m" 2 (by decide) (by decide +kernel)
    ⟨by decide +kernel, by decide +kernel⟩ (by decide +kernel)

theorem Season.pairTurn {log : List Turn} {w : World Unit} (h : pair.Season log w) (p : Nat)
    (deeds : List Deed) (hp : p ∈ pair.processes) (hpermits : pair.Permits p w deeds) :
    pair.Season (⟨p, w.files, (Commons.pairTurn p deeds w).files⟩ :: log)
      (Commons.pairTurn p deeds w) :=
  h.turn p "build" deeds hp hpermits

theorem uses_putSeven (c : Nat) {v : UInt8}
    (h : Format.json.decode .u8 (Format.json.encode (.u8 v)) = .ok (.u8 v)) :
    (putSeven c v).request.Uses (pair.folder c) (pair.keys c) := by
  refine ⟨rfl, ?_⟩
  rintro v' ⟨⟩
  exact h

/-- The two take their turns. -/
theorem season_pairWritten {more : List Deed}
    (hmore : pair.Permits 1 (pairTurn 0 [putSeven 0 1] pairOpened) more) :
    pair.Season [⟨1, (pairTurn 0 [putSeven 0 1] pairOpened).files, (pairWritten more).files⟩,
      ⟨0, pairOpened.files, (pairTurn 0 [putSeven 0 1] pairOpened).files⟩] (pairWritten more) := by
  have hfirst := season_pairOpened.pairTurn 0 [putSeven 0 1] (by decide)
    (List.forall_mem_singleton.2 ⟨by decide +kernel, uses_putSeven 0 rfl⟩)
  exact hfirst.pairTurn 1 (putSeven 1 2 :: more) (by decide)
    (List.forall_mem_cons.2 ⟨⟨by decide +kernel, uses_putSeven 1 rfl⟩, hmore⟩)

/-- What a get found. -/
theorem of_found {x : Except Interruption (Except StoreError (Option Value))} {v : Option Value}
    (h : x.toOption.bind Except.toOption = some v) : x = .ok (.ok v) := by
  rcases x with p | (e | v') <;> cases h
  rfl

/-- The second process has written the master store too, so the first one sees what it wrote. -/
theorem write_beside_the_master_is_seen :
    ∃ log, pair.Season log (pairWritten [putSeven 2 3]) ∧ 0 ∈ pair.processes ∧
      pair.Covered 0 (pair.place 0) log (pairWritten [putSeven 2 3]).files ∧
      ((pair.cabinet 0).access.useCache "build" (Facade.get (pair.folder 0).store 0 (.integer 7))
        (pairWritten [putSeven 2 3])).1 = .ok (.ok (some (.u8 2))) := by
  have hmore : pair.Permits 1 (pairTurn 0 [putSeven 0 1] pairOpened) [putSeven 2 3] :=
    List.forall_mem_singleton.2 ⟨by decide +kernel, uses_putSeven 2 rfl⟩
  have hseason := season_pairWritten hmore
  -- the first turn is the last one of the process, and after it the master was modified
  have hmodified : ModifiedSince pair.hub (pairTurn 0 [putSeven 0 1] pairOpened).files
      (pairWritten [putSeven 2 3]).files :=
    ⟨22, by decide +kernel, by decide +kernel, by decide +kernel⟩
  have hcovered : ∀ {f₀ f₁ f₂ fs}, ModifiedSince pair.hub f₁ fs →
      pair.Covered 0 (pair.place 0) [⟨1, f₁, f₂⟩, ⟨0, f₀, f₁⟩] fs := by
    intro f₀ f₁ f₂ fs hmodified
    refine covered_of_modified fun fs' hleft => ?_
    cases hleft
    exact hmodified
  refine ⟨_, hseason, by decide, hcovered hmodified, ?_⟩
  obtain ⟨haccess, hright, -⟩ :=
    hseason.right_where_the_master_tells (show 0 ∈ pair.processes by decide) "build"
  have hpermits : pair.Permits 0 (pairWritten [putSeven 2 3]) [⟨0, .get (.integer 7)⟩] :=
    List.forall_mem_singleton.2 ⟨by decide +kernel, rfl⟩
  rw [haccess, (hright _ hpermits).1 (.integer 7) rfl (hcovered hmodified)]
  exact of_found (by decide +kernel)

/-- The second process has written the store alone, and the first one still answers with its own
value. -/
theorem write_of_another_store_is_not_seen :
    (∃ log, pair.Season log (pairWritten [])) ∧
    ((pair.cabinet 0).access.useCache "build" (Facade.get (pair.folder 0).store 0 (.integer 7))
      (pairWritten [])).1 = .ok (.ok (some (.u8 1))) ∧
    ((pair.cabinet 0).access.useCache "build" ((pair.folder 0).store.get (.integer 7))
      (pairWritten [])).1 = .ok (.ok (some (.u8 2))) :=
  ⟨⟨_, season_pairWritten (List.forall_mem_nil _)⟩, of_found (by decide +kernel),
    of_found (by decide +kernel)⟩

end LeaseCache.Commons
