/-!
# Decimal digits

Natural numbers and integers in decimal, as bytes. Main statements: `value_ofNat`, the digits of a
number have its value; `isDigit_of_mem_ofNat`, they are digits; `head_ofNat_ne_zero`, the first of
them is a zero only in the number zero.
-/

namespace LeaseCache.Digits

/-- A byte that is a decimal digit. -/
def isDigit (b : UInt8) : Bool := 0x30 ≤ b.toNat && b.toNat ≤ 0x39

/-- The digit with value `n`, for `n` below ten. -/
def digit (n : Nat) : UInt8 := UInt8.ofNat (0x30 + n)

/-- The value of a digit. -/
def digitValue (b : UInt8) : Nat := b.toNat - 0x30

/-- The value of a digit sequence that follows a number `seen`. -/
def valueFrom (seen : Nat) (ds : List UInt8) : Nat :=
  ds.foldl (fun n d => n * 10 + digitValue d) seen

/-- The value of a digit sequence. -/
def value (ds : List UInt8) : Nat := valueFrom 0 ds

/-- The digits of a number with at most `room + 1` of them. -/
def ofNatWithin : Nat → Nat → List UInt8
  | 0, n => [digit (n % 10)]
  | room + 1, n => if n < 10 then [digit n] else ofNatWithin room (n / 10) ++ [digit (n % 10)]

/-- The digits of a natural number. -/
def ofNat (n : Nat) : List UInt8 := ofNatWithin n n

/-- The digits of an integer, after a minus sign if it is negative. -/
def ofInt : Int → List UInt8
  | .ofNat n => ofNat n
  | .negSucc n => 0x2D :: ofNat (n + 1)

theorem digit_value_table : ∀ n < 10, digitValue (digit n) = n ∧ isDigit (digit n) = true := by
  decide

theorem digitValue_digit {n : Nat} (h : n < 10) : digitValue (digit n) = n :=
  (digit_value_table n h).1

theorem isDigit_digit {n : Nat} (h : n < 10) : isDigit (digit n) = true :=
  (digit_value_table n h).2

theorem valueFrom_append (seen : Nat) (ds es : List UInt8) :
    valueFrom seen (ds ++ es) = valueFrom (valueFrom seen ds) es := by
  simp [valueFrom]

theorem value_ofNatWithin {room n : Nat} (h : n ≤ room) : value (ofNatWithin room n) = n := by
  induction room generalizing n with
  | zero =>
    obtain rfl : n = 0 := by omega
    rfl
  | succ room ih =>
    unfold ofNatWithin
    split
    · rename_i hn
      simp [value, valueFrom, digitValue_digit hn]
    · rw [value, valueFrom_append, ← value, ih (by omega)]
      simp only [valueFrom, List.foldl_cons, List.foldl_nil,
        digitValue_digit (show n % 10 < 10 by omega)]
      omega

/-- The digits of a number have its value. -/
theorem value_ofNat (n : Nat) : value (ofNat n) = n := value_ofNatWithin (Nat.le_refl n)

theorem isDigit_of_mem_ofNatWithin {room n : Nat} {d : UInt8} (hd : d ∈ ofNatWithin room n) :
    isDigit d = true := by
  induction room generalizing n with
  | zero =>
    rw [ofNatWithin, List.mem_singleton] at hd
    exact hd ▸ isDigit_digit (by omega)
  | succ room ih =>
    unfold ofNatWithin at hd
    split at hd
    · rename_i hn
      rw [List.mem_singleton] at hd
      exact hd ▸ isDigit_digit hn
    · rcases List.mem_append.1 hd with hd | hd
      · exact ih hd
      · rw [List.mem_singleton] at hd
        exact hd ▸ isDigit_digit (by omega)

/-- A written number holds digits only. -/
theorem isDigit_of_mem_ofNat {n : Nat} {d : UInt8} (hd : d ∈ ofNat n) : isDigit d = true :=
  isDigit_of_mem_ofNatWithin hd

theorem head?_ofNatWithin {room n : Nat} (h : n ≤ room) (hn : n ≠ 0) :
    ∃ d, (ofNatWithin room n).head? = some d ∧ isDigit d = true ∧ digitValue d ≠ 0 := by
  induction room generalizing n with
  | zero => omega
  | succ room ih =>
    unfold ofNatWithin
    split
    · rename_i hlt
      exact ⟨digit n, rfl, isDigit_digit hlt, by rw [digitValue_digit hlt]; exact hn⟩
    · obtain ⟨d, hd, hrest⟩ := ih (n := n / 10) (by omega) (by omega)
      exact ⟨d, by simp [List.head?_append, hd], hrest⟩

/-- A number other than zero is written without a zero in front. -/
theorem head?_ofNat {n : Nat} (hn : n ≠ 0) :
    ∃ d, (ofNat n).head? = some d ∧ isDigit d = true ∧ digitValue d ≠ 0 :=
  head?_ofNatWithin (Nat.le_refl n) hn

end LeaseCache.Digits
