import LeaseCache.Value.Json

/-!
# Faults of readers

Most faults are placed where they are noticed, and a fault without a place is about what a value is.
So that a path has no text is nothing a reader of values finds out
(`Value.ofJson_ne_pathNotText`): it is only said where a key is written.
-/

namespace LeaseCache.Json.Reader

open Digits (isDigit digitValue)

variable {α β : Type} {r : Reader α}

/-- A reader never says, without a place, that a path has no text. -/
def NoPathFault (r : Reader α) : Prop := ∀ c c', r c ≠ (.error ⟨.pathNotText, none⟩, c')

/-! ## Composition -/

theorem noPathFault_pure (a : α) : NoPathFault (pure a) := by
  intro c c' h
  cases h

theorem NoPathFault.bind {f : α → Reader β} (h : NoPathFault r) (hf : ∀ a, NoPathFault (f a)) :
    NoPathFault (r >>= f) := by
  intro c c'
  cases hr : r c with
  | mk result c₁ =>
    cases result with
    | ok a =>
      rw [bind_ok f hr]
      exact hf a c₁ c'
    | error e =>
      rw [bind_error f hr]
      rintro ⟨⟩
      exact h c c' hr

theorem NoPathFault.map (f : α → β) (h : NoPathFault r) : NoPathFault (f <$> r) :=
  h.bind fun a => noPathFault_pure (f a)

theorem noPathFault_placed (r : Reader α) : NoPathFault (placed r) := by
  intro c c' h
  unfold placed at h
  split at h
  · cases h
  · next hnone => exact hnone _ _ h

theorem noPathFault_fail (cause : Cause) : NoPathFault (fail cause : Reader α) := by
  intro c c' h
  cases h

theorem noPathFault_failLooking (cause : Cause) : NoPathFault (failLooking cause : Reader α) := by
  intro c c' h
  cases h

theorem noPathFault_failUnplaced {cause : Cause} (hcause : cause ≠ .pathNotText) :
    NoPathFault (failUnplaced cause : Reader α) := by
  intro c c' h
  cases h
  exact hcause rfl

/-! ## Bytes, words and texts -/

theorem noPathFault_peek : NoPathFault peek := by
  intro c c' h
  cases h

theorem noPathFault_advance : NoPathFault advance := by
  intro c c' h
  cases h

theorem noPathFault_next : NoPathFault next := by
  intro c c' h
  cases h

/-- What goes on with the next byte fails at the end. -/
theorem noPathFault_nextByte {f : Option UInt8 → Reader α} {cause : Cause}
    (hnone : f none = fail cause) (hsome : ∀ d, NoPathFault (f (some d))) :
    NoPathFault (next >>= f) := by
  refine noPathFault_next.bind fun b => ?_
  cases b with
  | none =>
    rw [hnone]
    exact noPathFault_fail _
  | some d => exact hsome d

theorem noPathFault_peekToken : NoPathFault peekToken := by
  intro c c' h
  cases h

theorem noPathFault_peekValue : NoPathFault peekValue := by
  refine noPathFault_peekToken.bind fun b => ?_
  split
  · exact noPathFault_pure _
  · exact noPathFault_failLooking _

theorem noPathFault_word (w : List UInt8) : NoPathFault (word w) := by
  induction w with
  | nil => exact noPathFault_pure ()
  | cons expected more ih =>
    refine noPathFault_next.bind fun b => ?_
    split
    · exact noPathFault_fail _
    · split
      · exact ih
      · exact noPathFault_fail _

theorem noPathFault_colon : NoPathFault colon := by
  refine noPathFault_peekToken.bind fun b => ?_
  split
  · exact noPathFault_advance
  · exact noPathFault_failLooking _
  · exact noPathFault_failLooking _

theorem noPathFault_atEnd : NoPathFault atEnd := by
  refine noPathFault_peekToken.bind fun b => ?_
  split
  · exact noPathFault_failLooking _
  · exact noPathFault_pure ()

theorem noPathFault_textBody : NoPathFault textBody := by
  intro c c' h
  unfold textBody at h
  split at h
  · split at h <;> cases h
  · simp at h

/-! ## Numbers -/

theorem noPathFault_digits : NoPathFault digits := by
  intro c c' h
  cases h

theorem noPathFault_fraction (positive : Bool) (value : Nat) (exponent : Int) :
    NoPathFault (fraction positive value exponent) := by
  unfold fraction
  split
  · exact noPathFault_pure _
  · exact noPathFault_fail _

theorem noPathFault_exponentFrom (positive : Bool) (value : Nat) (scale : Int) (raises : Bool)
    (first : Nat) : NoPathFault (exponentFrom positive value scale raises first) := by
  intro c c'
  unfold exponentFrom
  split
  · exact noPathFault_peek.bind (fun _ => noPathFault_fraction _ _ _) _ _
  · have hrest : NoPathFault (do
        if value ≠ 0 && raises then fail .numberOutOfRange
        else
          let _ ← digits
          pure (if positive then 0 else -0) : Reader Float) := by
      split
      · exact noPathFault_fail _
      · exact noPathFault_digits.bind fun _ => noPathFault_pure _
    exact hrest _ _

theorem noPathFault_exponent (positive : Bool) (value : Nat) (scale : Int) :
    NoPathFault (exponent positive value scale) := by
  have hdigit : ∀ raises d, NoPathFault
      (if isDigit d then exponentFrom positive value scale raises (digitValue d)
        else fail .invalidNumber) := by
    intro raises d
    split
    · exact noPathFault_exponentFrom _ _ _ _ _
    · exact noPathFault_fail _
  refine noPathFault_advance.bind fun _ => noPathFault_peek.bind fun b => ?_
  split
  · exact noPathFault_advance.bind fun _ =>
      (noPathFault_pure true).bind fun raises => noPathFault_nextByte rfl (hdigit raises)
  · exact noPathFault_advance.bind fun _ =>
      (noPathFault_pure false).bind fun raises => noPathFault_nextByte rfl (hdigit raises)
  · exact (noPathFault_pure true).bind fun raises => noPathFault_nextByte rfl (hdigit raises)

theorem noPathFault_decimals (positive : Bool) (s : Significand) :
    NoPathFault (decimals positive s) := by
  refine noPathFault_advance.bind fun _ => noPathFault_digits.bind fun ds => ?_
  split
  · refine noPathFault_peek.bind fun b => ?_
    split <;> exact noPathFault_failLooking _
  · refine noPathFault_peek.bind fun b => ?_
    split
    · exact noPathFault_exponent _ _ _
    · exact noPathFault_exponent _ _ _
    · exact noPathFault_fraction _ _ _

theorem noPathFault_afterInteger (positive : Bool) (s : Significand) :
    NoPathFault (afterInteger positive s) := by
  refine noPathFault_peek.bind fun b => ?_
  split
  · exact (noPathFault_decimals _ _).map _
  · exact (noPathFault_exponent _ _ _).map _
  · exact (noPathFault_exponent _ _ _).map _
  · split
    · exact (noPathFault_fraction _ _ _).map _
    · split
      · exact noPathFault_pure _
      · split <;> exact noPathFault_pure _

theorem noPathFault_unsignedNumber (positive : Bool) : NoPathFault (unsignedNumber positive) := by
  refine noPathFault_next.bind fun b => ?_
  split
  · exact noPathFault_fail _
  · refine noPathFault_peek.bind fun d => ?_
    split
    · split
      · exact noPathFault_failLooking _
      · exact noPathFault_afterInteger _ _
    · exact noPathFault_afterInteger _ _
  · split
    · exact noPathFault_digits.bind fun ds => noPathFault_afterInteger _ _
    · exact noPathFault_fail _

theorem noPathFault_number (first : UInt8) : NoPathFault (number first) := by
  unfold number
  split
  · exact noPathFault_advance.bind fun _ => noPathFault_unsignedNumber _
  · exact noPathFault_unsignedNumber _

/-! ## Shapes -/

theorem noPathFault_wrongKind (expected : String) :
    NoPathFault (wrongKind expected : Reader α) := by
  have hword : ∀ w (found : Found), NoPathFault (do advance; word w; pure found : Reader Found) :=
    fun w found => noPathFault_advance.bind fun _ =>
      (noPathFault_word w).bind fun _ => noPathFault_pure found
  have hhere : NoPathFault whatIsHere := by
    refine noPathFault_peek.bind fun b => ?_
    split
    · exact hword _ _
    · exact hword _ _
    · exact hword _ _
    · exact noPathFault_advance.bind fun _ => noPathFault_textBody.map _
    · exact noPathFault_pure _
    · exact noPathFault_pure _
    · split
      · exact (noPathFault_number _).map _
      · exact noPathFault_failLooking _
    · exact noPathFault_failLooking _
  exact hhere.bind fun found => noPathFault_placed _

theorem noPathFault_textOf (expected : String) : NoPathFault (textOf expected) := by
  refine noPathFault_peekValue.bind fun b => ?_
  split
  · exact noPathFault_advance.bind fun _ => noPathFault_textBody
  · exact noPathFault_wrongKind _

theorem noPathFault_integer (t : IntegerType) : NoPathFault (integer t) := by
  refine noPathFault_peekValue.bind fun b => ?_
  split
  · exact noPathFault_placed _
  · exact noPathFault_wrongKind _

theorem noPathFault_flag : NoPathFault flag := by
  refine noPathFault_peekValue.bind fun b => ?_
  split
  · exact noPathFault_advance.bind fun _ => (noPathFault_word _).bind fun _ => noPathFault_pure _
  · exact noPathFault_advance.bind fun _ => (noPathFault_word _).bind fun _ => noPathFault_pure _
  · exact noPathFault_wrongKind _

theorem noPathFault_nothing : NoPathFault nothing := by
  refine noPathFault_peekValue.bind fun b => ?_
  split
  · exact noPathFault_advance.bind fun _ => noPathFault_word _
  · exact noPathFault_wrongKind _

theorem NoPathFault.optional (h : NoPathFault r) : NoPathFault (optional r) := by
  refine noPathFault_peekToken.bind fun b => ?_
  split
  · exact noPathFault_advance.bind fun _ => (noPathFault_word _).bind fun _ => noPathFault_pure _
  · exact h.map _

theorem noPathFault_sequence (expected : String) (body : Reader α) :
    NoPathFault (sequence expected body) := by
  refine noPathFault_peekValue.bind fun b => ?_
  split
  · exact noPathFault_placed _
  · exact noPathFault_wrongKind _

theorem noPathFault_map (expected : String) (body : Reader α) :
    NoPathFault (map expected body) := by
  refine noPathFault_peekValue.bind fun b => ?_
  split
  · exact noPathFault_placed _
  · exact noPathFault_wrongKind _

theorem noPathFault_record (expected : String) (ofSequence ofObject : Reader α) :
    NoPathFault (record expected ofSequence ofObject) := by
  refine noPathFault_peekValue.bind fun b => ?_
  split
  · exact noPathFault_placed _
  · exact noPathFault_placed _
  · exact noPathFault_wrongKind _

theorem noPathFault_variantName (variants : List String) : NoPathFault (variantName variants) := by
  refine noPathFault_advance.bind fun _ => noPathFault_textBody.bind fun name => ?_
  split
  · exact noPathFault_pure _
  · exact noPathFault_placed _

theorem noPathFault_choice (variants : List String) {content bare : String → Reader α}
    (hcontent : ∀ name, NoPathFault (content name)) (hbare : ∀ name, NoPathFault (bare name)) :
    NoPathFault (choice variants content bare) := by
  have hkey : NoPathFault (variantKey variants) := by
    refine noPathFault_peekToken.bind fun b => ?_
    split
    · exact noPathFault_variantName _
    · exact noPathFault_failLooking _
    · exact noPathFault_failLooking _
    · exact noPathFault_failLooking _
  refine noPathFault_peekToken.bind fun b => ?_
  split
  · refine noPathFault_advance.bind fun _ => hkey.bind fun name => noPathFault_colon.bind fun _ =>
      (hcontent name).bind fun a => noPathFault_peekToken.bind fun b => ?_
    split
    · exact noPathFault_advance.bind fun _ => noPathFault_pure a
    · exact noPathFault_fail _
    · exact noPathFault_fail _
  · exact (noPathFault_variantName _).bind fun name => hbare name
  · exact noPathFault_failLooking _
  · exact noPathFault_failLooking _

theorem noPathFault_bareVariant (expected : String) :
    NoPathFault (bareVariant expected : Reader α) :=
  noPathFault_failUnplaced nofun

/-- A document that is refused for a fault without a place is so by its reader. -/
theorem NoPathFault.document (h : NoPathFault r) (bytes : List UInt8) (streamed : Bool) :
    document r bytes streamed ≠ .error ⟨.pathNotText, none⟩ := by
  have hall : NoPathFault (do let a ← r; atEnd; pure a) :=
    h.bind fun a => noPathFault_atEnd.bind fun _ => noPathFault_pure a
  intro hd
  unfold Reader.document at hd
  split at hd
  · cases hd
  · next fault c' hfault =>
    obtain ⟨cause, unread⟩ := fault
    rw [Fault.inDocument, Except.error.injEq, Failure.mk.injEq, Option.map_eq_none_iff] at hd
    obtain ⟨rfl, rfl⟩ := hd
    exact hall _ _ hfault

end LeaseCache.Json.Reader

namespace LeaseCache

open Json.Reader

theorem Outcome.noPathFault_reader : NoPathFault Outcome.reader := by
  refine noPathFault_choice _ (fun variant => ?_) (fun variant => ?_)
  · unfold contentReader
    split
    · exact noPathFault_nothing.bind fun _ => noPathFault_pure _
    · split
      · exact noPathFault_record _ _ _
      · split
        · exact (noPathFault_textOf _).map _
        · exact noPathFault_sequence _ _
  · unfold bareReader
    split
    · exact noPathFault_pure _
    · split
      · exact noPathFault_bareVariant _
      · split <;> exact noPathFault_bareVariant _

theorem Value.noPathFault_reader (type : ValueType) : NoPathFault (Value.reader type) := by
  cases type with
  | string => exact (noPathFault_textOf _).map _
  | u8 => exact ((noPathFault_integer _).map _).map _
  | i32 => exact ((noPathFault_integer _).map _).map _
  | u32 => exact ((noPathFault_integer _).map _).map _
  | i64 => exact ((noPathFault_integer _).map _).map _
  | u64 => exact ((noPathFault_integer _).map _).map _
  | bool => exact noPathFault_flag.map _
  | opt => exact (((noPathFault_integer _).map _).optional).map _
  | bytes => exact (noPathFault_sequence _ _).map _
  | strings => exact (noPathFault_sequence _ _).map _
  | map => exact (noPathFault_map _ _).map _
  | record => exact (noPathFault_record _ _ _).map _
  | outcome => exact Outcome.noPathFault_reader.map _

/-- A value is not refused because a path has no text. -/
theorem Value.ofJson_ne_pathNotText (type : ValueType) (bytes : List UInt8) :
    Value.ofJson type bytes ≠ .error ⟨.pathNotText, none⟩ :=
  (Value.noPathFault_reader type).document bytes true

end LeaseCache
