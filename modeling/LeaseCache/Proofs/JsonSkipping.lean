import LeaseCache.Proofs.JsonShapes

/-!
# Passing over values

A value of any shape is passed over, however deep it is nested: the number of its bytes is room
enough (`passed_of_spells`), and `ignored` gives more than that. The induction is on the spelling;
it goes through the insides of lists and objects as well, where `Passed` tells what each of the
loops does from its place on.
-/

namespace LeaseCache.Json.Reader

open Digits (isDigit)

variable {rest : List UInt8}

/-! ## Numbers -/

/-- Passes over the digits of an exponent. -/
def passExponentDigits : Reader Unit := do
  match ← next with
  | none => fail .invalidNumber
  | some d =>
    if isDigit d then
      let _ ← digits
      pure ()
    else fail .invalidNumber

theorem reads_passExponentDigits {d : UInt8} {more : List UInt8}
    (hds : ∀ b ∈ d :: more, isDigit b = true) (hrest : EndsDigits rest) :
    Reads passExponentDigits (d :: (more ++ rest)) () rest := by
  refine (reads_next d _).bind ?_
  simp only [hds d List.mem_cons_self, if_true]
  have hmore := reads_digits (fun b hb => hds b (List.mem_cons_of_mem _ hb)) hrest
  exact hmore.bind (reads_pure () rest)

theorem reads_passExponent {bytes : List UInt8} (h : Exponent bytes) (hne : bytes ≠ [])
    (hrest : EndsDigits rest) : Reads passExponent (bytes ++ rest) () rest := by
  cases h with
  | none => exact absurd rfl hne
  | @some letter sign ds letter_eq sign_eq hds notEmpty =>
    obtain ⟨d, more, rfl⟩ := List.exists_cons_of_ne_nil notEmpty
    have hdigits := reads_passExponentDigits hds hrest
    rw [List.cons_append, List.append_assoc, List.cons_append]
    refine (reads_advance letter _).bind ((reads_peek _).bind ?_)
    rcases sign_eq with rfl | rfl | rfl
    · -- without a sign the first digit is looked at
      have hd : isDigit d = true := hds d List.mem_cons_self
      have hplus : d ≠ 0x2B := by rintro rfl; cases hd
      have hminus : d ≠ 0x2D := by rintro rfl; cases hd
      split
      · next hhead => exact absurd (Option.some.inj hhead) hplus
      · next hhead => exact absurd (Option.some.inj hhead) hminus
      · exact hdigits
    · exact (reads_advance _ _).bind hdigits
    · exact (reads_advance _ _).bind hdigits

theorem Exponent.endsDigits {bytes : List UInt8} (h : Exponent bytes) (hrest : Closed rest) :
    EndsDigits (bytes ++ rest) := by
  cases h with
  | none => exact hrest.endsDigits
  | some letter_eq =>
    rintro _ ⟨⟩
    rcases letter_eq with rfl | rfl <;> rfl

theorem reads_passDecimals {bytes exponent : List UInt8} (h : Decimals bytes) (hne : bytes ≠ [])
    (hexponent : Exponent exponent) (hrest : Closed rest) :
    Reads passDecimals (bytes ++ (exponent ++ rest)) () rest := by
  cases h with
  | none => exact absurd rfl hne
  | @some ds hds notEmpty =>
    have hdigits := reads_digits hds (Exponent.endsDigits hexponent hrest)
    refine (reads_advance _ _).bind (hdigits.bind ?_)
    rw [if_neg (by simpa using notEmpty)]
    refine (reads_peek _).bind ?_
    cases hexponent with
    | none =>
      cases hhead : rest.head? with
      | none => simpa [hhead] using reads_pure () rest
      | some b =>
        obtain ⟨-, -, hsmall, hlarge⟩ := hrest b hhead
        simpa [hhead, hsmall, hlarge] using reads_pure () rest
    | some letter_eq sign_eq digits' notEmpty' =>
      have hpass := reads_passExponent (.some letter_eq sign_eq digits' notEmpty')
        (List.cons_ne_nil _ _) hrest.endsDigits
      rcases letter_eq with rfl | rfl
      · exact hpass
      · exact hpass

theorem reads_passAfterInteger {decimals exponent : List UInt8} (h : Decimals decimals)
    (hexponent : Exponent exponent) (hrest : Closed rest) :
    Reads passAfterInteger (decimals ++ (exponent ++ rest)) () rest := by
  refine (reads_peek _).bind ?_
  cases h with
  | some digits notEmpty =>
    exact reads_passDecimals (.some digits notEmpty) (List.cons_ne_nil _ _) hexponent hrest
  | none =>
    cases hexponent with
    | none =>
      cases hhead : rest.head? with
      | none => simpa [hhead] using reads_pure () rest
      | some b =>
        obtain ⟨-, hpoint, hsmall, hlarge⟩ := hrest b hhead
        simpa [hhead, hpoint, hsmall, hlarge] using reads_pure () rest
    | some letter_eq sign_eq digits' notEmpty' =>
      have hpass := reads_passExponent (.some letter_eq sign_eq digits' notEmpty')
        (List.cons_ne_nil _ _) hrest.endsDigits
      rcases letter_eq with rfl | rfl
      · exact hpass
      · exact hpass

theorem reads_passUnsigned {ds decimals exponent : List UInt8} (hds : Whole ds)
    (h : Decimals decimals) (hexponent : Exponent exponent) (hrest : Closed rest) :
    Reads passUnsigned (ds ++ (decimals ++ (exponent ++ rest))) () rest := by
  have hafter := reads_passAfterInteger h hexponent hrest
  have hends : EndsDigits (decimals ++ (exponent ++ rest)) := by
    cases h with
    | none => exact (show EndsDigits (exponent ++ rest) from Exponent.endsDigits hexponent hrest)
    | some =>
      rintro _ ⟨⟩
      rfl
  obtain ⟨d, more, rfl, hd⟩ := hds.exists_cons
  refine (reads_next d _).bind ?_
  split
  · next hnone => cases hnone
  · next hzero =>
    -- a zero in front is the only digit
    obtain rfl : d = 0x30 := Option.some.inj hzero
    obtain rfl : more = [] := List.tail_eq_of_cons_eq (hds.noZeroInFront rfl)
    refine (reads_peek (decimals ++ (exponent ++ rest))).bind ?_
    cases hhead : (decimals ++ (exponent ++ rest)).head? with
    | none => exact hafter
    | some b =>
      dsimp only
      rw [if_neg (by simp [hends b hhead])]
      exact hafter
  · next hsome =>
    cases hsome
    rw [if_pos hd]
    exact (reads_digits (fun b hb => hds.digits b (List.mem_cons_of_mem _ hb)) hends).bind hafter

/-! ## Lists and objects -/

/-- Passes over a list from what follows its bracket on. -/
def passList (room : Nat) : Reader Unit := do
  match ← peekToken with
  | none => failLooking .endInList
  | some 0x5D => advance
  | some _ => passItems room

/-- Passes over what follows an item. -/
def passMoreItems (room : Nat) : Reader Unit := do
  match ← peekToken with
  | some 0x2C => advance; passItems room
  | some 0x5D => advance
  | some _ => failLooking .expectedCommaOrBracket
  | none => failLooking .endInList

/-- Passes over an object from what follows its brace on. -/
def passObject (room : Nat) : Reader Unit := do
  match ← peekToken with
  | none => failLooking .endInObject
  | some 0x7D => advance
  | some _ => passMembers room

/-- Passes over what follows a member. -/
def passMoreMembers (room : Nat) : Reader Unit := do
  match ← peekToken with
  | some 0x2C => advance; passMembers room
  | some 0x7D => advance
  | some _ => failLooking .expectedCommaOrBrace
  | none => failLooking .endInObject

theorem passItems_succ (room : Nat) :
    passItems (room + 1) = (do passValue room; passMoreItems room) := by
  rw [passItems]
  rfl

theorem passMembers_succ (room : Nat) :
    passMembers (room + 1) = (do passKey; passValue room; passMoreMembers room) := by
  rw [passMembers]
  rfl

theorem reads_passKey {ws ws' name : List UInt8} {key : String} (hws : Blank ws)
    (hname : SpellsChars key.toList name) (hws' : Blank ws') (rest : List UInt8) :
    Reads passKey (ws ++ 0x22 :: (name ++ 0x22 :: (ws' ++ 0x3A :: rest))) () rest :=
  (reads_peekToken hws rfl _).bind ((reads_advance _ _).bind
    ((reads_passTextBody hname _).bind (reads_colon hws' rest)))

/-- A number is passed over from its first digit on. -/
theorem passValue_goesOn {ws bytes : List UInt8} {b : UInt8} (hws : Blank ws)
    (hb : isDigit b = true) (room : Nat) :
    GoesOn (passValue (room + 1)) (ws ++ b :: bytes) passUnsigned (b :: bytes) := by
  have hblank : isBlank b = false := not_blank_of_opens (show Tree.fraction.Opens b from .inl hb)
  rw [passValue]
  refine ((reads_peekValue hws hblank bytes).goesOn _).trans fun c hc => ⟨c, hc, ?_⟩
  split
  all_goals first
    | rw [if_pos hb]
    | cases hb

/-- What passing over does to a part of a document. -/
def Passed : Part → List UInt8 → Prop
  | .value _, bytes => ∀ (ws rest : List UInt8) (room : Nat), Blank ws → bytes.length ≤ room →
      Closed rest → Reads (passValue room) (ws ++ (bytes ++ rest)) () rest
  | .items trees, bytes => ∀ {room : Nat} (rest : List UInt8), bytes.length ≤ room →
      Reads (passList room) (bytes ++ rest) () rest ∧
        (trees ≠ [] → Reads (passItems room) (bytes ++ rest) () rest)
  | .moreItems _, bytes => ∀ {room : Nat} (rest : List UInt8), bytes.length ≤ room →
      Reads (passMoreItems room) (bytes ++ rest) () rest
  | .members ms, bytes => ∀ {room : Nat} (rest : List UInt8), bytes.length ≤ room →
      Reads (passObject room) (bytes ++ rest) () rest ∧
        (ms ≠ [] → Reads (passMembers room) (bytes ++ rest) () rest)
  | .moreMembers _, bytes => ∀ {room : Nat} (rest : List UInt8), bytes.length ≤ room →
      Reads (passMoreMembers room) (bytes ++ rest) () rest

/-- A number is passed over with its decimals and its exponent. -/
theorem passed_number {tree : Tree} {sign ds decimals exponent : List UInt8}
    (hsign : sign = [] ∨ sign = [0x2D]) (hds : Whole ds) (h : Decimals decimals)
    (hexponent : Exponent exponent) :
    Passed (.value tree) (sign ++ (ds ++ (decimals ++ exponent))) := by
  intro ws rest room hws hroom hclosed
  have hunsigned := reads_passUnsigned hds h hexponent hclosed
  obtain ⟨d, more, rfl, hd⟩ := hds.exists_cons
  simp only [List.length_append, List.length_cons] at hroom
  obtain ⟨room, rfl⟩ : ∃ n, room = n + 1 := ⟨room - 1, by omega⟩
  simp only [List.append_assoc, List.cons_append] at hunsigned ⊢
  rcases hsign with rfl | rfl
  · exact (passValue_goesOn hws hd room).trans hunsigned
  · rw [passValue]
    exact (reads_peekValue hws rfl _).bind ((reads_advance _ _).bind hunsigned)

theorem Spells.length_moreItems {trees : List Tree} {bytes : List UInt8}
    (h : Spells (.moreItems trees) bytes) : 0 < bytes.length := by
  cases h <;> simp only [List.length_append, List.length_cons] <;> omega

/-- A value is passed over in one round for its first byte and as much room as its other bytes need.
-/
theorem passed_opened {tree : Tree} {b : UInt8} {bytes : List UInt8}
    (h : ∀ {ws rest : List UInt8} {room : Nat}, Blank ws → bytes.length ≤ room → Closed rest →
      Reads (passValue (room + 1)) (ws ++ b :: (bytes ++ rest)) () rest) :
    Passed (.value tree) (b :: bytes) := by
  intro ws rest room hws hroom hclosed
  rw [List.length_cons] at hroom
  obtain ⟨room, rfl⟩ : ∃ n, room = n + 1 := ⟨room - 1, by omega⟩
  exact h hws (by omega) hclosed

/-- An item and those after it are passed over, with blanks before the item. -/
theorem passed_items {ws value more : List UInt8} {tree : Tree} {trees : List Tree}
    (blank : Blank ws) (item : Spells (.value tree) value)
    (others : Spells (.moreItems trees) more) (hitem : Passed (.value tree) value)
    (hothers : Passed (.moreItems trees) more) :
    Passed (.items (tree :: trees)) (ws ++ (value ++ more)) := by
  intro room rest hroom
  have hvalue := item.length_pos
  have hmore := Spells.length_moreItems others
  simp only [List.length_append] at hroom
  obtain ⟨room, rfl⟩ : ∃ n, room = n + 1 := ⟨room - 1, by omega⟩
  -- blanks before the item make no difference
  have hitems : ∀ {ws' : List UInt8}, Blank ws' →
      Reads (passItems (room + 1)) (ws' ++ (value ++ (more ++ rest))) () rest := by
    intro ws' hws'
    rw [passItems_succ]
    exact (hitem _ _ _ hws' (by omega) (others.closed_moreItems rest)).bind
      (hothers rest (by omega))
  simp only [List.append_assoc]
  refine ⟨?_, fun _ => hitems blank⟩
  obtain ⟨b, hb, hpeek, -⟩ := looks_at_value item blank (more ++ rest)
  refine hpeek.bind ?_
  split
  · next hnone => cases hnone
  · next hend => exact absurd (Option.some.inj hend) (ne_of_opens hb)
  · exact hitems blank_nil

/-- A member and those after it are passed over, with blanks before the key. -/
theorem passed_members {ws name ws' ws'' value more : List UInt8} {key : String} {tree : Tree}
    {ms : List (String × Tree)} (blank : Blank ws) (chars : SpellsChars key.toList name)
    (blank' : Blank ws') (blank'' : Blank ws'') (others : Spells (.moreMembers ms) more)
    (hvalue : Passed (.value tree) value) (hothers : Passed (.moreMembers ms) more) :
    Passed (.members ((key, tree) :: ms))
      (ws ++ 0x22 :: (name ++ 0x22 :: (ws' ++ 0x3A :: (ws'' ++ (value ++ more))))) := by
  intro room rest hroom
  simp only [List.length_append, List.length_cons] at hroom
  obtain ⟨room, rfl⟩ : ∃ n, room = n + 1 := ⟨room - 1, by omega⟩
  let left := ws'' ++ (value ++ (more ++ rest))
  have hmembers : ∀ {front : List UInt8}, Blank front →
      Reads (passMembers (room + 1))
        (front ++ 0x22 :: (name ++ 0x22 :: (ws' ++ 0x3A :: left))) () rest := by
    intro front hfront
    rw [passMembers_succ]
    exact (reads_passKey hfront chars blank' left).bind
      ((hvalue _ _ _ blank'' (by omega) (others.closed_moreMembers rest)).bind
        (hothers rest (by omega)))
  simp only [List.append_assoc, List.cons_append]
  exact ⟨(reads_peekToken blank rfl _).bind (hmembers blank_nil), fun _ => hmembers blank⟩

/-- Whatever is well formed is passed over, in as much room as it has bytes. -/
theorem passed_of_spells {part : Part} {bytes : List UInt8} (h : Spells part bytes) :
    Passed part bytes := by
  induction h with
  | null | true | false =>
    refine passed_opened fun hws _ _ => ?_
    rw [passValue]
    exact (reads_peekValue hws rfl _).bind ((reads_advance _ _).bind (reads_word _ _))
  | @natural ds whole =>
    have hpassed :=
      @passed_number (.integer (Digits.value ds)) [] ds [] [] (.inl rfl) whole .none .none
    simpa using hpassed
  | @negative ds whole =>
    have hpassed :=
      @passed_number (.integer (-Digits.value ds)) [0x2D] ds [] [] (.inr rfl) whole .none .none
    simpa using hpassed
  | minusZero => exact passed_number (.inr rfl) (whole_ofNat 0) .none .none
  | fraction sign_eq whole decimals_eq exponent_eq =>
    exact passed_number sign_eq whole decimals_eq exponent_eq
  | text chars =>
    refine passed_opened fun hws _ _ => ?_
    rw [passValue, List.append_assoc]
    exact (reads_peekValue hws rfl _).bind ((reads_advance _ _).bind (reads_passTextBody chars _))
  | list items ih =>
    refine passed_opened fun hws hroom _ => ?_
    rw [passValue]
    exact (reads_peekValue hws rfl _).bind ((reads_advance _ _).bind (ih _ hroom).1)
  | object members ih =>
    refine passed_opened fun hws hroom _ => ?_
    rw [passValue]
    exact (reads_peekValue hws rfl _).bind ((reads_advance _ _).bind (ih _ hroom).1)
  | noItems blank =>
    intro room rest hroom
    rw [List.append_assoc]
    exact ⟨(reads_peekToken blank rfl _).bind (reads_advance _ _), fun hne => absurd rfl hne⟩
  | items blank item others ihItem ihOthers => exact passed_items blank item others ihItem ihOthers
  | noMoreItems blank =>
    intro room rest hroom
    rw [List.append_assoc]
    exact (reads_peekToken blank rfl _).bind (reads_advance _ _)
  | moreItems blank items ih =>
    intro room rest hroom
    simp only [List.length_append, List.length_cons] at hroom
    rw [List.append_assoc]
    exact (reads_peekToken blank rfl _).bind ((reads_advance _ _).bind
      ((ih rest (by omega)).2 (List.cons_ne_nil _ _)))
  | noMembers blank =>
    intro room rest hroom
    rw [List.append_assoc]
    exact ⟨(reads_peekToken blank rfl _).bind (reads_advance _ _), fun hne => absurd rfl hne⟩
  | members blank chars blank' blank'' value others ihValue ihOthers =>
    exact passed_members blank chars blank' blank'' others ihValue ihOthers
  | noMoreMembers blank =>
    intro room rest hroom
    rw [List.append_assoc]
    exact (reads_peekToken blank rfl _).bind (reads_advance _ _)
  | moreMembers blank members ih =>
    intro room rest hroom
    simp only [List.length_append, List.length_cons] at hroom
    rw [List.append_assoc]
    exact (reads_peekToken blank rfl _).bind ((reads_advance _ _).bind
      ((ih rest (by omega)).2 (List.cons_ne_nil _ _)))

/-- A value that nobody asked for is passed over, whatever it is. -/
theorem takes_ignored (tree : Tree) : Takes ignored tree () := by
  intro bytes ws more hbytes hws hmore c hc
  have hroom : bytes.length ≤ 2 * c.rest.length + 2 := by
    rw [hc, List.length_append, List.length_append]
    omega
  exact passed_of_spells hbytes ws more _ hws hroom hmore c hc

end LeaseCache.Json.Reader
