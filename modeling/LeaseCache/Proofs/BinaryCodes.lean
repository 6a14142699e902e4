import LeaseCache.Binary

/-!
# Binary codes

A byte sequence codes a value for a reader if the reader takes the value from its front, whatever
follows, and finds every proper beginning of it too short (`Codes`). Codes of what is read one after
another are joined (`Codes.bind`), so whatever is made of numbers, texts and values in a row is
coded by what is written for it.
-/

namespace LeaseCache.Binary.Reader

variable {α β : Type} {r : Reader α} {bytes bytes' : List UInt8} {a : α} {b : β}

/-- For a reader, bytes stand for a value, and no proper beginning of them stands for any. -/
structure Codes (r : Reader α) (bytes : List UInt8) (a : α) : Prop where
  reads : ∀ more, r (bytes ++ more) = .ok (a, more)
  short : ∀ front, front <+: bytes → front ≠ bytes → r front = .error .short

theorem bind_ok {rest rest' : List UInt8} (f : α → Reader β) (h : r rest = .ok (a, rest')) :
    (r >>= f) rest = f a rest' := by
  show StateT.bind r f rest = _
  rw [StateT.bind, h]
  rfl

theorem bind_error {rest : List UInt8} {e : Fault} (f : α → Reader β) (h : r rest = .error e) :
    (r >>= f) rest = .error e := by
  show StateT.bind r f rest = _
  rw [StateT.bind, h]
  rfl

theorem codes_pure (a : α) : Codes (pure a : Reader α) [] a where
  reads _ := rfl
  short _ hfront hne := absurd (List.prefix_nil.1 hfront) hne

/-- Codes of what is read one after another are joined. -/
theorem Codes.bind {f : α → Reader β} (h : Codes r bytes a) (h' : Codes (f a) bytes' b) :
    Codes (r >>= f) (bytes ++ bytes') b where
  reads more := by
    rw [List.append_assoc, bind_ok f (h.reads (bytes' ++ more))]
    exact h'.reads more
  short front hfront hne := by
    obtain ⟨rest, hrest⟩ := hfront
    rcases List.append_eq_append_iff.1 hrest with ⟨left, hbytes, -⟩ | ⟨more, hmore, hbytes'⟩
    · -- the first code is not finished, or just so
      by_cases hleft : left = []
      · rw [hleft, List.append_nil] at hbytes
        subst hbytes
        have hread := h.reads []
        rw [List.append_nil] at hread
        rw [bind_ok f hread]
        refine h'.short [] List.nil_prefix fun hnil => hne ?_
        rw [← hnil, List.append_nil]
      · refine bind_error f (h.short front ⟨left, hbytes.symm⟩ fun hsame => hleft ?_)
        rw [hsame] at hbytes
        exact List.self_eq_append_right.1 hbytes
    · subst hmore
      rw [bind_ok f (h.reads more)]
      refine h'.short more ⟨rest, hbytes'.symm⟩ fun hsame => hne ?_
      rw [hsame]

/-- What is made of a value without reading on has the code of the value. -/
theorem Codes.bind_pure {f : α → Reader β} (h : Codes r bytes a) (hf : f a = pure b) :
    Codes (r >>= f) bytes b := by
  have hbind := h.bind (f := f) (hf ▸ codes_pure b)
  rwa [List.append_nil] at hbind

theorem Codes.map (f : α → β) (h : Codes r bytes a) : Codes (f <$> r) bytes (f a) :=
  h.bind_pure (f := fun a => pure (f a)) rfl

theorem codes_take (bytes : List UInt8) : Codes (take bytes.length) bytes bytes where
  reads more := by
    rw [take, if_pos (by simp), List.take_left, List.drop_left]
  short front hfront hne := by
    have hlength : front.length < bytes.length :=
      Nat.lt_of_le_of_ne hfront.length_le fun hsame => hne (hfront.eq_of_length hsame)
    rw [take, if_neg (by omega)]

/-! ## Numbers -/

theorem length_number (width n : Nat) : (Binary.number width n).length = width := by
  induction width generalizing n with
  | zero => rfl
  | succ width ih => rw [Binary.number, List.length_cons, ih]

/-- The first number that is too large for so many bytes. -/
def limit : Nat → Nat
  | 0 => 1
  | width + 1 => 256 * limit width

/-- A number that its bytes can hold is the value of them. -/
theorem value_number {width n : Nat} (h : n < limit width) :
    value (Binary.number width n) = n := by
  induction width generalizing n with
  | zero =>
    obtain rfl : n = 0 := Nat.lt_one_iff.1 h
    rfl
  | succ width ih =>
    have hrest : n / 256 < limit width := Nat.div_lt_of_lt_mul h
    have hbyte : (UInt8.ofNat (n % 256)).toNat = n % 256 :=
      UInt8.toNat_ofNat_of_lt' (show n % 256 < 256 by omega)
    rw [Binary.number, value, ih hrest, hbyte]
    omega

theorem codes_number (width n : Nat) (h : n < limit width) :
    Codes (number width) (Binary.number width n) n := by
  have htake := codes_take (Binary.number width n)
  rw [length_number] at htake
  have hmap := htake.map value
  rwa [value_number h] at hmap

theorem codes_length {n : Nat} (h : n < lengthLimit) :
    Codes (number 8) (Binary.length n) n :=
  codes_number 8 n (Nat.lt_trans h (by decide))

/-! ## What is made of numbers -/

theorem codes_flag (b : Bool) : Codes flag (Binary.flag b) b := by
  cases b
  · exact (codes_number 1 0 (by decide)).bind_pure rfl
  · exact (codes_number 1 1 (by decide)).bind_pure rfl

theorem codes_text {s : String} (h : (Utf8.ofString s).length < lengthLimit) :
    Codes text (Binary.text s) s := by
  have hdecode : Utf8.decode (Utf8.ofString s) = .ok s.toList := Utf8.decode_encode s.toList
  refine (codes_length h).bind ?_
  rw [if_neg (Nat.not_le.2 h)]
  refine (codes_take (Utf8.ofString s)).bind_pure ?_
  rw [hdecode]
  simp

theorem codes_optional {write : α → List UInt8} {a? : Option α}
    (h : ∀ a, a? = some a → Codes r (write a) a) :
    Codes (optional r) (Binary.optional write a?) a? := by
  cases a? with
  | none => exact (codes_number 1 0 (by decide)).bind_pure rfl
  | some a =>
    refine (codes_number 1 1 (by decide)).bind ?_
    exact (h a rfl).map some

theorem codes_times {write : α → List UInt8} {xs : List α}
    (h : ∀ x ∈ xs, Codes r (write x) x) : Codes (times r xs.length) (xs.flatMap write) xs := by
  induction xs with
  | nil => exact codes_pure []
  | cons x xs ih =>
    rw [List.flatMap_cons]
    exact (h x List.mem_cons_self).bind
      ((ih fun y hy => h y (List.mem_cons_of_mem x hy)).map (x :: ·))

theorem codes_sequence {write : α → List UInt8} {xs : List α} (hlength : xs.length < lengthLimit)
    (h : ∀ x ∈ xs, Codes r (write x) x) : Codes (sequence r) (Binary.sequence write xs) xs :=
  (codes_length hlength).bind (codes_times h)

/-- What is coded is decoded, also in front of other bytes. -/
theorem decode_of_codes (h : Codes r bytes a) (more : List UInt8) :
    decode r (bytes ++ more) = .ok a := by
  rw [decode, h.reads more]

/-- A beginning of a code is too short to be decoded. -/
theorem decode_of_prefix {front : List UInt8} (h : Codes r bytes a) (hfront : front <+: bytes)
    (hne : front ≠ bytes) : decode r front = .error .short := by
  rw [decode, h.short front hfront hne]

end LeaseCache.Binary.Reader
