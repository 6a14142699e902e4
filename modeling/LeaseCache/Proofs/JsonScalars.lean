import LeaseCache.Proofs.JsonReading

/-!
# Reading scalars

A reader takes a value (`Takes`) or declines it (`Declines`), whatever the spelling of the value,
the blanks before it and the bytes after it. Texts, flags and integers of a type are taken in all
their spellings; of another value, and of an integer beyond the type, each of their readers is sure
to decline it.
-/

namespace LeaseCache.Json

open Digits (isDigit digitValue valueFrom value)

/-- The bytes after digits. -/
def EndsDigits (rest : List UInt8) : Prop := ∀ b, rest.head? = some b → isDigit b = false

theorem Closed.endsDigits {more : List UInt8} (h : Closed more) : EndsDigits more :=
  fun b hb => (h b hb).1

/-- A number that was read stands for an integer. -/
def Number.Stands : Number → Int → Prop
  | .natural k, n => n = k
  | .negative k, n => n = k
  | .real _, _ => False

/-! ## Significands -/

theorem le_valueFrom (n : Nat) (ds : List UInt8) : n ≤ valueFrom n ds := by
  induction ds generalizing n with
  | nil => exact Nat.le_refl n
  | cons d ds ih => exact Nat.le_trans (by omega) (ih (n * 10 + digitValue d))

/-- Digits that fit are kept exactly. -/
theorem significand_of_le {n : Nat} {ds : List UInt8} (h : valueFrom n ds ≤ maxSignificand) :
    ds.foldl Significand.push ⟨n, 0⟩ = ⟨valueFrom n ds, 0⟩ := by
  induction ds generalizing n with
  | nil => rfl
  | cons d ds ih =>
    have hd : n * 10 + digitValue d ≤ maxSignificand := Nat.le_trans (le_valueFrom _ ds) h
    rw [List.foldl_cons, Significand.push, if_pos (by simp [hd])]
    exact ih h

theorem dropped_foldl_push {s : Significand} (h : s.dropped ≠ 0) (ds : List UInt8) :
    (ds.foldl Significand.push s).dropped ≠ 0 := by
  induction ds generalizing s with
  | nil => exact h
  | cons d ds ih =>
    refine ih ?_
    rw [Significand.push, if_neg (by simp [h])]
    exact Nat.succ_ne_zero _

/-- Of digits that do not fit some are dropped. -/
theorem dropped_significand {n : Nat} {ds : List UInt8} (hn : n ≤ maxSignificand)
    (h : maxSignificand < valueFrom n ds) : (ds.foldl Significand.push ⟨n, 0⟩).dropped ≠ 0 := by
  induction ds generalizing n with
  | nil => exact absurd hn (Nat.not_le.2 h)
  | cons d ds ih =>
    by_cases hd : n * 10 + digitValue d ≤ maxSignificand
    · rw [List.foldl_cons, Significand.push, if_pos (by simp [hd])]
      exact ih hd h
    · rw [List.foldl_cons, Significand.push, if_neg (by simp [hd])]
      exact dropped_foldl_push (Nat.succ_ne_zero _) ds

namespace Reader

variable {rest more : List UInt8} {α β : Type} {r : Reader α} {tree : Tree} {a : α}

/-! ## Numbers -/

theorem reads_digits {ds : List UInt8} (hds : ∀ d ∈ ds, isDigit d = true)
    (hrest : EndsDigits rest) : Reads digits (ds ++ rest) ds rest := by
  intro c hc
  have htake : c.rest.takeWhile isDigit = ds := by
    rw [hc, List.takeWhile_append_of_pos hds]
    cases rest with
    | nil => simp
    | cons b rest => simp [hrest b rfl]
  have hdrop : c.rest.dropWhile isDigit = rest := by
    rw [hc, List.dropWhile_append_of_pos hds]
    cases rest with
    | nil => rfl
    | cons b rest => simp [hrest b rfl]
  obtain ⟨c', hc', hr⟩ := (reads_peek rest).ok (c := { c with rest := rest }) rfl
  refine ⟨c', hc', ?_⟩
  rw [digits, htake, hdrop, hr]
  rfl

theorem unsignedNumber_goesOn {ds : List UInt8} (hds : Whole ds) (hrest : EndsDigits rest)
    (positive : Bool) :
    GoesOn (unsignedNumber positive) (ds ++ rest)
      (afterInteger positive (ds.foldl Significand.push ⟨0, 0⟩)) rest := by
  obtain ⟨d, more, rfl, hd⟩ := hds.exists_cons
  refine ((reads_next d (more ++ rest)).goesOn _).trans ?_
  split
  · next hnone => cases hnone
  · next hzero =>
    -- a zero in front is the only digit
    obtain rfl : d = 0x30 := Option.some.inj hzero
    obtain rfl : more = [] := List.tail_eq_of_cons_eq (hds.noZeroInFront rfl)
    refine ((reads_peek rest).goesOn _).trans ?_
    cases hhead : rest.head? with
    | none => exact fun c hc => ⟨c, hc, rfl⟩
    | some b =>
      dsimp only
      rw [if_neg (by simp [hrest b hhead])]
      exact fun c hc => ⟨c, hc, rfl⟩
  · next hsome =>
    cases hsome
    rw [if_pos hd]
    exact (reads_digits (fun b hb => hds.digits b (List.mem_cons_of_mem _ hb)) hrest).goesOn _

/-- The bytes with which a fraction or an exponent begins. -/
def OpensFraction (bytes : List UInt8) : Prop :=
  ∃ b more, bytes = b :: more ∧ (b = 0x2E ∨ b = 0x65 ∨ b = 0x45)

theorem OpensFraction.endsDigits (h : OpensFraction rest) : EndsDigits rest := by
  obtain ⟨b, more, rfl, hb⟩ := h
  rintro _ ⟨⟩
  rcases hb with rfl | rfl | rfl <;> rfl

theorem opensFraction_append {decimals exponent : List UInt8} (h : Decimals decimals)
    (h' : Exponent exponent) (hne : decimals ++ exponent ≠ []) (more : List UInt8) :
    OpensFraction (decimals ++ exponent ++ more) := by
  cases h with
  | some digits notEmpty => exact ⟨_, _, rfl, .inl rfl⟩
  | none =>
    cases h' with
    | none => exact absurd rfl hne
    | some letter_eq => exact ⟨_, _, rfl, .inr letter_eq⟩

/-- After the digits of a fraction, only a fraction is read. -/
theorem afterInteger_of_fraction (h : OpensFraction rest) (positive : Bool) (s : Significand) :
    ∃ r : Reader Float, GoesOn (afterInteger positive s) rest (Number.real <$> r) rest := by
  obtain ⟨b, more, rfl, rfl | rfl | rfl⟩ := h
  · exact ⟨_, (reads_peek _).goesOn _⟩
  · exact ⟨_, (reads_peek _).goesOn _⟩
  · exact ⟨_, (reads_peek _).goesOn _⟩

/-- The number of which only the digits of an integer are there. -/
def wholeNumber (positive : Bool) (s : Significand) : Reader Number :=
  if s.dropped ≠ 0 then Number.real <$> fraction positive s.value s.dropped
  else if positive then pure (.natural s.value)
  else if s.value = 0 || maxNegative < s.value then pure (.real (-s.value.toUInt64.toFloat))
  else pure (.negative (-s.value))

theorem afterInteger_of_closed (h : Closed more) (positive : Bool) (s : Significand) :
    GoesOn (afterInteger positive s) more (wholeNumber positive s) more := by
  refine ((reads_peek more).goesOn _).trans fun c hc => ⟨c, hc, ?_⟩
  cases hhead : more.head? with
  | none => rfl
  | some b =>
    obtain ⟨-, hpoint, hsmall, hlarge⟩ := h b hhead
    simp [hpoint, hsmall, hlarge, wholeNumber]

theorem wholeNumber_dropped {s : Significand} (h : s.dropped ≠ 0) (positive : Bool) :
    ∃ r : Reader Float, wholeNumber positive s = Number.real <$> r :=
  ⟨_, if_pos h⟩

theorem wholeNumber_minus {v : Nat} (h : v = 0 ∨ maxNegative < v) :
    ∃ r : Reader Float, wholeNumber false ⟨v, 0⟩ = Number.real <$> r := by
  refine ⟨pure (-v.toUInt64.toFloat), ?_⟩
  rw [wholeNumber, if_neg (by simp), if_neg (by simp), if_pos (by simpa using h)]
  rfl

/-- Digits are the natural number that they stand for, or too many. -/
theorem wholeNumber_natural (ds : List UInt8) :
    wholeNumber true (ds.foldl Significand.push ⟨0, 0⟩) = pure (.natural (value ds)) ∨
      maxSignificand < value ds ∧ ∃ r : Reader Float,
        wholeNumber true (ds.foldl Significand.push ⟨0, 0⟩) = Number.real <$> r := by
  by_cases hfits : value ds ≤ maxSignificand
  · left
    rw [significand_of_le hfits]
    rfl
  · have hlarge := Nat.not_le.1 hfits
    exact .inr ⟨hlarge, wholeNumber_dropped (dropped_significand (Nat.zero_le _) hlarge) true⟩

/-- Digits after a minus sign are the negative number that they stand for, or too many. -/
theorem wholeNumber_negative {ds : List UInt8} (hds : value ds ≠ 0) :
    wholeNumber false (ds.foldl Significand.push ⟨0, 0⟩) = pure (.negative (-value ds)) ∨
      maxNegative < value ds ∧ ∃ r : Reader Float,
        wholeNumber false (ds.foldl Significand.push ⟨0, 0⟩) = Number.real <$> r := by
  by_cases hfits : value ds ≤ maxSignificand
  · rw [significand_of_le hfits]
    by_cases hlow : value ds ≤ maxNegative
    · left
      rw [wholeNumber, if_neg (by simp), if_neg (by simp), if_neg (by simpa using ⟨hds, hlow⟩)]
      rfl
    · exact .inr ⟨Nat.not_le.1 hlow, wholeNumber_minus (.inr (Nat.not_le.1 hlow))⟩
  · have hlarge := Nat.not_le.1 hfits
    exact .inr ⟨Nat.lt_trans (by decide) hlarge,
      wholeNumber_dropped (dropped_significand (Nat.zero_le _) hlarge) false⟩

/-- A number goes on after its sign and its digits. -/
theorem number_goesOn {sign ds : List UInt8} (hsign : sign = [] ∨ sign = [0x2D]) (hds : Whole ds)
    (hrest : EndsDigits rest) :
    ∃ b tail, sign ++ ds = b :: tail ∧ (isDigit b = true ∨ b = 0x2D) ∧
      GoesOn (number b) (sign ++ (ds ++ rest))
        (afterInteger sign.isEmpty (ds.foldl Significand.push ⟨0, 0⟩)) rest := by
  rcases hsign with rfl | rfl
  · obtain ⟨d, tail, rfl, hd⟩ := hds.exists_cons
    have hminus : d ≠ 0x2D := by
      rintro rfl
      cases hd
    refine ⟨d, tail, rfl, .inl hd, ?_⟩
    rw [number, if_neg hminus]
    exact unsignedNumber_goesOn hds hrest true
  · refine ⟨0x2D, ds, rfl, .inr rfl, ?_⟩
    rw [number, if_pos rfl]
    exact ((reads_advance _ _).goesOn _).trans (unsignedNumber_goesOn hds hrest false)

/-- An integer is read as it is, unless 64 bits do not hold it; then at most a fraction is read. -/
theorem number_of_integer {n : Int} {bytes : List UInt8}
    (h : Spells (.value (.integer n)) bytes) (hmore : Closed more) :
    ∃ b tail, bytes = b :: tail ∧ (isDigit b = true ∨ b = 0x2D) ∧
      ((∃ x, x.Stands n ∧ Reads (number b) (bytes ++ more) x more) ∨
        (n < -maxNegative ∨ maxSignificand < n) ∧
          ∃ r : Reader Float, GoesOn (number b) (bytes ++ more) (Number.real <$> r) more) := by
  cases h with
  | natural whole =>
    obtain ⟨b, tail, hcons, hb, hnumber⟩ :=
      number_goesOn (.inl rfl) whole (hmore.endsDigits)
    refine ⟨b, tail, hcons, hb, ?_⟩
    have hgoes := hnumber.trans (afterInteger_of_closed hmore _ _)
    rcases wholeNumber_natural bytes with hnatural | ⟨hlarge, r, hr⟩
    · refine .inl ⟨.natural (value bytes), rfl, ?_⟩
      rw [Reads, ← hnatural]
      exact hgoes
    · refine .inr ⟨.inr (Int.ofNat_lt.2 hlarge), r, ?_⟩
      rw [← hr]
      exact hgoes
  | @negative ds whole notZero =>
    obtain ⟨b, tail, hcons, hb, hnumber⟩ :=
      number_goesOn (.inr rfl) whole (hmore.endsDigits)
    refine ⟨b, tail, hcons, hb, ?_⟩
    have hgoes := hnumber.trans (afterInteger_of_closed hmore _ _)
    rcases wholeNumber_negative notZero with hnegative | ⟨hlarge, r, hr⟩
    · refine .inl ⟨.negative (-value ds), rfl, ?_⟩
      rw [Reads, ← hnegative]
      exact hgoes
    · refine .inr ⟨.inl (by omega), r, ?_⟩
      rw [← hr]
      exact hgoes

/-- In the place of a fraction at most a fraction is read. -/
theorem number_of_fraction {bytes : List UInt8} (h : Spells (.value .fraction) bytes)
    (hmore : Closed more) :
    ∃ b tail, bytes = b :: tail ∧ (isDigit b = true ∨ b = 0x2D) ∧
      ∃ (r : Reader Float) (left : List UInt8),
        GoesOn (number b) (bytes ++ more) (Number.real <$> r) left := by
  cases h with
  | minusZero =>
    have hzero : Whole [0x30] := whole_ofNat 0
    obtain ⟨b, tail, hcons, hb, hnumber⟩ := number_goesOn (.inr rfl) hzero hmore.endsDigits
    obtain ⟨r, hr⟩ := wholeNumber_minus (.inl rfl)
    refine ⟨b, tail, hcons, hb, r, more, ?_⟩
    rw [← hr]
    exact hnumber.trans (afterInteger_of_closed hmore _ _)
  | @fraction sign ds decimals exponent sign_eq whole decimals_eq exponent_eq notWhole =>
    have hopens : OpensFraction (decimals ++ exponent ++ more) :=
      opensFraction_append decimals_eq exponent_eq notWhole more
    obtain ⟨b, tail, hcons, hb, hnumber⟩ := number_goesOn sign_eq whole hopens.endsDigits
    obtain ⟨r, hr⟩ := afterInteger_of_fraction hopens sign.isEmpty
      (ds.foldl Significand.push ⟨0, 0⟩)
    refine ⟨b, tail ++ (decimals ++ exponent), ?_, hb, r, decimals ++ exponent ++ more, ?_⟩
    · rw [← List.append_assoc, hcons, List.cons_append]
    · have hgoes := hnumber.trans hr
      simpa using hgoes

theorem integerOf_of_stands (t : IntegerType) {x : Number} {n : Int} (h : x.Stands n) :
    integerOf t x = if t.Holds n then pure n else failUnplaced (.wrongValue x.found t.name) := by
  cases x with
  | natural k => cases h; rfl
  | negative k => cases h; rfl
  | real x => exact h.elim

/-- A fraction is no integer of any type. -/
theorem refuses_integerOf_real (t : IntegerType) (r : Reader Float) (bytes : List UInt8) :
    Refuses (Number.real <$> r >>= integerOf t) bytes := by
  intro c hc
  rcases hr : r c with ⟨_ | x, c'⟩
  · next e => exact ⟨e, c', bind_error _ (bind_error _ hr)⟩
  · have hreal : (Number.real <$> r) c = (.ok (.real x), c') := bind_ok _ hr
    exact ⟨_, c', bind_ok _ hreal⟩

/-! ## Taking and declining -/

/-- A reader reads a value, however it is spelled. -/
def Takes (r : Reader α) (tree : Tree) (a : α) : Prop :=
  ∀ ⦃bytes ws more : List UInt8⦄, Spells (.value tree) bytes → Blank ws → Closed more →
    Reads r (ws ++ (bytes ++ more)) a more

/-- A reader refuses a value, however it is spelled. -/
def Declines (r : Reader α) (tree : Tree) : Prop :=
  ∀ ⦃bytes ws more : List UInt8⦄, Spells (.value tree) bytes → Blank ws → Closed more →
    Refuses r (ws ++ (bytes ++ more))

theorem Takes.map (f : α → β) (h : Takes r tree a) : Takes (f <$> r) tree (f a) :=
  fun _ _ _ hbytes hws hmore => (h hbytes hws hmore).map f

theorem Declines.map (f : α → β) (h : Declines r tree) : Declines (f <$> r) tree :=
  fun _ _ _ hbytes hws hmore => (h hbytes hws hmore).map f

theorem Takes.document {bytes : List UInt8} (h : Takes r tree a) (hbytes : IsDocument tree bytes)
    (streamed : Bool) : document r bytes streamed = .ok a := by
  obtain ⟨ws, bytes, ws', hws, hbytes, hws', rfl⟩ := hbytes
  exact document_of_reads (h hbytes hws hws'.closed) hws' streamed

theorem Declines.document {bytes : List UInt8} (h : Declines r tree)
    (hbytes : IsDocument tree bytes) (streamed : Bool) :
    ∃ failure, document r bytes streamed = .error failure := by
  obtain ⟨ws, bytes, ws', hws, hbytes, hws', rfl⟩ := hbytes
  exact document_of_refuses (h hbytes hws hws'.closed) streamed

theorem text_of_opens (h : tree.Opens 0x22) : ∃ s, tree = .text s := by
  cases tree with
  | text s => exact ⟨s, rfl⟩
  | flag value => cases value <;> simp [Tree.Opens] at h
  | null | integer | fraction | list | object => simp [Tree.Opens, isDigit] at h

theorem null_of_opens (h : tree.Opens 0x6E) : tree = .null := by
  cases tree with
  | null => rfl
  | flag value => cases value <;> simp [Tree.Opens] at h
  | text | integer | fraction | list | object => simp [Tree.Opens, isDigit] at h

theorem number_of_opens {b : UInt8} (h : tree.Opens b) (hb : isDigit b = true ∨ b = 0x2D) :
    (∃ n, tree = .integer n) ∨ tree = .fraction := by
  cases tree with
  | integer n => exact .inl ⟨n, rfl⟩
  | fraction => exact .inr rfl
  | flag value => cases value <;> simp [Tree.Opens] at h <;> simp [h, isDigit] at hb
  | null | text | list | object =>
    simp only [Tree.Opens] at h
    simp [h, isDigit] at hb

theorem not_blank_of_opens {b : UInt8} (h : tree.Opens b) : isBlank b = false := by
  cases hblank : isBlank b with
  | false => rfl
  | true =>
    -- a blank opens nothing
    simp only [isBlank, Bool.or_eq_true, decide_eq_true_eq] at hblank
    rcases hblank with ((rfl | rfl) | rfl) | rfl <;> cases tree with
    | flag value => cases value <;> simp [Tree.Opens] at h
    | _ => simp [Tree.Opens, isDigit] at h

/-- The first byte of a value is looked at behind the blanks. -/
theorem looks_at_value {bytes ws : List UInt8} (h : Spells (.value tree) bytes) (hws : Blank ws)
    (more : List UInt8) :
    ∃ b, tree.Opens b ∧ Reads peekToken (ws ++ (bytes ++ more)) (some b) (bytes ++ more) ∧
      Reads peekValue (ws ++ (bytes ++ more)) b (bytes ++ more) := by
  obtain ⟨b, tail, rfl, hb⟩ := h.exists_cons
  exact ⟨b, hb, reads_peekToken hws (not_blank_of_opens hb) _,
    reads_peekValue hws (not_blank_of_opens hb) _⟩

/-- What stands in the place of another kind of value is refused, whatever it is. -/
theorem refuses_wrongKind (expected : String) (bytes : List UInt8) :
    Refuses (wrongKind expected : Reader α) bytes := by
  intro c hc
  rcases hfound : whatIsHere c with ⟨_ | found, c'⟩
  · next e => exact ⟨e, c', bind_error _ hfound⟩
  · exact ⟨_, c', bind_ok _ hfound⟩

theorem takes_textOf (expected s : String) : Takes (textOf expected) (.text s) s := by
  intro bytes ws more hbytes hws hmore
  cases hbytes with
  | @text _ chars hchars =>
    refine (reads_peekValue hws rfl _).bind ((reads_advance _ _).bind ?_)
    simpa using reads_textBody hchars more

theorem declines_textOf (expected : String) (h : ∀ s, tree ≠ .text s) :
    Declines (textOf expected) tree := by
  intro bytes ws more hbytes hws hmore
  obtain ⟨b, hb, -, hpeek⟩ := looks_at_value hbytes hws more
  have hquote : b ≠ 0x22 := by
    rintro rfl
    obtain ⟨s, hs⟩ := text_of_opens hb
    exact h s hs
  refine hpeek.refuses ?_
  simp only
  exact refuses_wrongKind expected _

theorem takes_flag (b : Bool) : Takes flag (.flag b) b := by
  intro bytes ws more hbytes hws hmore
  cases hbytes with
  | true =>
    exact (reads_peekValue hws rfl _).bind ((reads_advance _ _).bind
      ((reads_word [0x72, 0x75, 0x65] more).bind (reads_pure true more)))
  | false =>
    exact (reads_peekValue hws rfl _).bind ((reads_advance _ _).bind
      ((reads_word [0x61, 0x6C, 0x73, 0x65] more).bind (reads_pure false more)))

/-- An integer of a type that fits 64 bits is read as it is. -/
theorem takes_integer {t : IntegerType} (hleast : -maxNegative ≤ t.least)
    (hgreatest : t.greatest ≤ maxSignificand) {n : Int} (h : t.Holds n) :
    Takes (integer t) (.integer n) n := by
  intro bytes ws more hbytes hws hmore
  obtain ⟨b, tail, rfl, hb, hnumber⟩ := number_of_integer hbytes hmore
  have hopens : (Tree.integer n).Opens b := hb
  refine (reads_peekValue hws (not_blank_of_opens hopens) _).bind ?_
  rw [if_pos (by simpa using hb)]
  rcases hnumber with ⟨x, hx, hreads⟩ | ⟨hbeyond, -⟩
  · refine (hreads.bind ?_).placed
    rw [integerOf_of_stands t hx, if_pos h]
    exact reads_pure n more
  · have hlow := Int.le_trans hleast h.1
    have hhigh := Int.le_trans h.2 hgreatest
    omega

theorem declines_integer {t : IntegerType} {n : Int} (h : ¬ t.Holds n) :
    Declines (integer t) (.integer n) := by
  intro bytes ws more hbytes hws hmore
  obtain ⟨b, tail, rfl, hb, hnumber⟩ := number_of_integer hbytes hmore
  have hopens : (Tree.integer n).Opens b := hb
  refine (reads_peekValue hws (not_blank_of_opens hopens) _).refuses ?_
  rw [if_pos (by simpa using hb)]
  refine Refuses.placed ?_
  rcases hnumber with ⟨x, hx, hreads⟩ | ⟨-, r, hgoes⟩
  · refine hreads.refuses ?_
    rw [integerOf_of_stands t hx, if_neg h]
    exact refuses_failUnplaced _ _
  · exact (hgoes.bind _).refuses (refuses_integerOf_real t r more)

/-- What is no integer is declined where an integer is asked for. -/
theorem declines_integer_of_ne (t : IntegerType) (h : ∀ n, tree ≠ .integer n) :
    Declines (integer t) tree := by
  intro bytes ws more hbytes hws hmore
  by_cases hfraction : tree = .fraction
  · subst hfraction
    obtain ⟨b, tail, rfl, hb, r, left, hgoes⟩ := number_of_fraction hbytes hmore
    have hopens : Tree.fraction.Opens b := hb
    refine (reads_peekValue hws (not_blank_of_opens hopens) _).refuses ?_
    rw [if_pos (by simpa using hb)]
    exact ((hgoes.bind _).refuses (refuses_integerOf_real t r left)).placed
  · obtain ⟨b, hb, -, hpeek⟩ := looks_at_value hbytes hws more
    have hother : ¬ (isDigit b = true ∨ b = 0x2D) := by
      intro hnumber
      rcases number_of_opens hb hnumber with ⟨n, hn⟩ | hn
      · exact h n hn
      · exact hfraction hn
    refine hpeek.refuses ?_
    rw [if_neg (by simpa using hother)]
    exact refuses_wrongKind t.name _

theorem takes_optional_null (r : Reader α) : Takes (optional r) .null none := by
  intro bytes ws more hbytes hws hmore
  cases hbytes with
  | null =>
    exact (reads_peekToken hws rfl _).bind ((reads_advance _ _).bind
      ((reads_word [0x75, 0x6C, 0x6C] more).bind (reads_pure none more)))

/-- Where no null stands, the value itself is read. -/
theorem optional_goesOn (r : Reader α) {bytes ws : List UInt8} (hne : tree ≠ .null)
    (h : Spells (.value tree) bytes) (hws : Blank ws) (more : List UInt8) :
    GoesOn (optional r) (ws ++ (bytes ++ more)) (some <$> r) (bytes ++ more) := by
  obtain ⟨b, hb, hpeek, -⟩ := looks_at_value h hws more
  have hletter : b ≠ 0x6E := by
    rintro rfl
    exact hne (null_of_opens hb)
  refine (hpeek.goesOn _).trans fun c hc => ⟨c, hc, ?_⟩
  simp [hletter]

theorem takes_optional (h : Takes r tree a) (hne : tree ≠ .null) :
    Takes (optional r) tree (some a) :=
  fun _ _ _ hbytes hws hmore =>
    (optional_goesOn r hne hbytes hws _).trans ((h hbytes blank_nil hmore).map some)

theorem declines_optional (h : Declines r tree) (hne : tree ≠ .null) :
    Declines (optional r) tree :=
  fun _ _ _ hbytes hws hmore =>
    (optional_goesOn r hne hbytes hws _).refuses ((h hbytes blank_nil hmore).map some)

end Reader

end LeaseCache.Json
