import LeaseCache.Proofs.JsonTexts

/-!
# Reading spellings

How a reader moves over a document. `GoesOn` composes: a reader at some bytes goes on as another one
at the bytes that are left. A reader that goes on as `pure a` has read `a`, and one that goes on as
a reader that refuses refuses too.
-/

namespace LeaseCache.Json.Reader

variable {α β : Type} {r r' r'' : Reader α} {a : α} {bytes rest rest' : List UInt8}

/-! ## Going on -/

/-- At `bytes` a reader does what another does at `rest`. -/
def GoesOn (r : Reader α) (bytes : List UInt8) (r' : Reader α) (rest : List UInt8) : Prop :=
  ∀ c : Cursor, c.rest = bytes → ∃ c' : Cursor, c'.rest = rest ∧ r c = r' c'

/-- From `bytes` a reader reads a value and leaves `rest`. -/
def Reads (r : Reader α) (bytes : List UInt8) (a : α) (rest : List UInt8) : Prop :=
  GoesOn r bytes (pure a) rest

/-- At `bytes` a reader ends in a fault. -/
def Refuses (r : Reader α) (bytes : List UInt8) : Prop :=
  ∀ c : Cursor, c.rest = bytes → ∃ e c', r c = (.error e, c')

theorem GoesOn.trans (h : GoesOn r bytes r' rest) (h' : GoesOn r' rest r'' rest') :
    GoesOn r bytes r'' rest' := by
  intro c hc
  obtain ⟨c₁, hc₁, hr⟩ := h c hc
  obtain ⟨c₂, hc₂, hr'⟩ := h' c₁ hc₁
  exact ⟨c₂, hc₂, hr.trans hr'⟩

theorem GoesOn.refuses (h : GoesOn r bytes r' rest) (h' : Refuses r' rest) : Refuses r bytes := by
  intro c hc
  obtain ⟨c₁, hc₁, hr⟩ := h c hc
  rw [hr]
  exact h' c₁ hc₁

theorem Reads.ok (h : Reads r bytes a rest) {c : Cursor} (hc : c.rest = bytes) :
    ∃ c', c'.rest = rest ∧ r c = (.ok a, c') :=
  h c hc

theorem reads_pure (a : α) (bytes : List UInt8) : Reads (pure a) bytes a bytes :=
  fun c hc => ⟨c, hc, rfl⟩

theorem GoesOn.bind (h : GoesOn r bytes r' rest) (f : α → Reader β) :
    GoesOn (r >>= f) bytes (r' >>= f) rest := by
  intro c hc
  obtain ⟨c', hc', hr⟩ := h c hc
  refine ⟨c', hc', ?_⟩
  simp only [Bind.bind, hr]

theorem Reads.goesOn (h : Reads r bytes a rest) (f : α → Reader β) :
    GoesOn (r >>= f) bytes (f a) rest := by
  intro c hc
  obtain ⟨c', hc', hr⟩ := h.ok hc
  exact ⟨c', hc', bind_ok f hr⟩

theorem Reads.bind {b : β} {f : α → Reader β} (h : Reads r bytes a rest)
    (h' : Reads (f a) rest b rest') : Reads (r >>= f) bytes b rest' :=
  (h.goesOn f).trans h'

theorem Reads.map (f : α → β) (h : Reads r bytes a rest) : Reads (f <$> r) bytes (f a) rest :=
  h.goesOn _

theorem Reads.refuses {f : α → Reader β} (h : Reads r bytes a rest) (h' : Refuses (f a) rest) :
    Refuses (r >>= f) bytes :=
  (h.goesOn f).refuses h'

theorem Refuses.bind (f : α → Reader β) (h : Refuses r bytes) : Refuses (r >>= f) bytes := by
  intro c hc
  obtain ⟨e, c', hr⟩ := h c hc
  exact ⟨e, c', bind_error f hr⟩

theorem Refuses.map (f : α → β) (h : Refuses r bytes) : Refuses (f <$> r) bytes :=
  h.bind _

theorem Reads.placed (h : Reads r bytes a rest) : Reads (placed r) bytes a rest := by
  intro c hc
  obtain ⟨c', hc', hr⟩ := h.ok hc
  refine ⟨c', hc', ?_⟩
  rw [Reader.placed, hr]
  rfl

theorem Refuses.placed (h : Refuses r bytes) : Refuses (placed r) bytes := by
  intro c hc
  obtain ⟨⟨cause, _ | unread⟩, c', hr⟩ := h c hc
  · exact ⟨⟨cause, some c'.unread⟩, c', by rw [Reader.placed, hr]⟩
  · exact ⟨⟨cause, some unread⟩, c', by rw [Reader.placed, hr]⟩

theorem Reads.closedBy {close : Reader Unit} (h : Reads r bytes a rest)
    (h' : Reads close rest () rest') : Reads (closedBy r close) bytes a rest' := by
  intro c hc
  obtain ⟨c₁, hc₁, hr⟩ := h.ok hc
  obtain ⟨c₂, hc₂, hclose⟩ := h'.ok hc₁
  refine ⟨c₂, hc₂, ?_⟩
  rw [Reader.closedBy, hr]
  dsimp only
  rw [hclose]
  rfl

theorem Refuses.closedBy (close : Reader Unit) (h : Refuses r bytes) :
    Refuses (closedBy r close) bytes := by
  intro c hc
  obtain ⟨e, c', hr⟩ := h c hc
  exact ⟨e, (close c').2, by rw [Reader.closedBy, hr]⟩

theorem refuses_failUnplaced (cause : Cause) (bytes : List UInt8) :
    Refuses (failUnplaced cause : Reader α) bytes :=
  fun c _ => ⟨_, c, rfl⟩

/-! ## Bytes and blanks -/

theorem reads_peek (bytes : List UInt8) : Reads peek bytes bytes.head? bytes := by
  rintro c rfl
  exact ⟨{ c with ahead := c.streamed && !c.rest.isEmpty }, rfl, rfl⟩

theorem reads_advance (b : UInt8) (bytes : List UInt8) : Reads advance (b :: bytes) () bytes := by
  intro c hc
  refine ⟨{ c with rest := bytes, ahead := false }, rfl, ?_⟩
  rw [advance, hc]
  rfl

theorem reads_next (b : UInt8) (bytes : List UInt8) : Reads next (b :: bytes) (some b) bytes := by
  intro c hc
  refine ⟨{ c with rest := bytes, ahead := false }, rfl, ?_⟩
  rw [next, hc]
  rfl

theorem dropWhile_isBlank {ws : List UInt8} (hws : Blank ws) (rest : List UInt8) :
    (ws ++ rest).dropWhile isBlank = rest.dropWhile isBlank := by
  refine List.dropWhile_append_of_pos fun b hb => ?_
  rcases hws b hb with rfl | rfl | rfl | rfl <;> decide

theorem reads_peekToken {ws : List UInt8} {b : UInt8} (hws : Blank ws) (hb : isBlank b = false)
    (rest : List UInt8) : Reads peekToken (ws ++ b :: rest) (some b) (b :: rest) := by
  intro c hc
  have hdrop : c.rest.dropWhile isBlank = b :: rest := by
    rw [hc, dropWhile_isBlank hws,
      List.dropWhile_cons_of_neg (by rw [hb]; exact Bool.false_ne_true)]
  obtain ⟨c', hc', hr⟩ := (reads_peek (b :: rest)).ok (c := { c with rest := b :: rest }) rfl
  refine ⟨c', hc', ?_⟩
  rw [peekToken, hdrop, hr]
  rfl

theorem reads_peekToken_end {ws : List UInt8} (hws : Blank ws) : Reads peekToken ws none [] := by
  intro c hc
  have hdrop : c.rest.dropWhile isBlank = [] := by
    have happend := dropWhile_isBlank hws []
    rwa [List.append_nil, ← hc] at happend
  obtain ⟨c', hc', hr⟩ := (reads_peek []).ok (c := { c with rest := [] }) rfl
  refine ⟨c', hc', ?_⟩
  rw [peekToken, hdrop, hr]
  rfl

theorem reads_peekValue {ws : List UInt8} {b : UInt8} (hws : Blank ws) (hb : isBlank b = false)
    (rest : List UInt8) : Reads peekValue (ws ++ b :: rest) b (b :: rest) :=
  (reads_peekToken hws hb rest).bind (reads_pure b _)

theorem reads_word (w rest : List UInt8) : Reads (word w) (w ++ rest) () rest := by
  induction w with
  | nil => exact reads_pure () rest
  | cons b w ih =>
    refine (reads_next b (w ++ rest)).bind ?_
    dsimp only
    rw [if_pos rfl]
    exact ih

theorem reads_colon {ws : List UInt8} (hws : Blank ws) (rest : List UInt8) :
    Reads colon (ws ++ 0x3A :: rest) () rest :=
  (reads_peekToken hws rfl rest).bind (reads_advance _ _)

theorem document_of_reads {ws : List UInt8} (h : Reads r bytes a ws) (hws : Blank ws)
    (streamed : Bool) : document r bytes streamed = .ok a := by
  have hatEnd : Reads atEnd ws () [] := (reads_peekToken_end hws).bind (reads_pure () [])
  have hall : Reads (do let a ← r; atEnd; pure a) bytes a [] :=
    h.bind (hatEnd.bind (reads_pure a []))
  obtain ⟨c', -, hr⟩ := hall.ok (c := .start bytes streamed) rfl
  rw [document, hr]

theorem document_of_refuses (h : Refuses r bytes) (streamed : Bool) :
    ∃ failure, document r bytes streamed = .error failure := by
  obtain ⟨e, c', hr⟩ := h.bind (fun a => do atEnd; pure a) (.start bytes streamed) rfl
  exact ⟨e.inDocument bytes, by rw [document, hr]⟩

/-! ## Texts -/

theorem reads_textBody {s : String} {bytes : List UInt8} (h : SpellsChars s.toList bytes)
    (rest : List UInt8) : Reads textBody (bytes ++ 0x22 :: rest) s rest := by
  intro c hc
  refine ⟨{ c with rest := rest, ahead := false }, rfl, ?_⟩
  have hdecode : Utf8.decode (Utf8.encode s.toList) = .ok s.toList := Utf8.decode_encode _
  simp only [textBody, hc, scan_of_spellsChars h, hdecode, String.ofList_toList, pure_apply]

theorem reads_passTextBody {s : String} {bytes : List UInt8} (h : SpellsChars s.toList bytes)
    (rest : List UInt8) : Reads passTextBody (bytes ++ 0x22 :: rest) () rest := by
  intro c hc
  refine ⟨{ c with rest := rest, ahead := false }, rfl, ?_⟩
  simp only [passTextBody, hc, pass_of_spellsChars h, pure_apply]

end LeaseCache.Json.Reader
