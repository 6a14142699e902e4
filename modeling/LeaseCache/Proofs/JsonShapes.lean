import LeaseCache.Proofs.JsonScalars

/-!
# Reading sequences, objects and choices

The loops over elements and members read a list or an object element by element and member by
member, in the order of the text. What a loop over members does to an object is told without its
spelling: `Gives` is a run of the members in which every value is taken, `Fails` one in which the
value of some member is declined. A loop in so many rounds as there are bytes left comes to the end
of the object (`reads_membersWithin`) or to the member that is declined (`refuses_membersWithin`).
-/

namespace LeaseCache.Json.Reader

variable {α β σ : Type} {r : Reader α} {tree : Tree} {a : α} {bytes ws rest : List UInt8}

/-! ## Elements -/

/-- What is left of a list at its first item, or after an item. -/
def itemsLeft (first : Bool) (trees : List Tree) : Part :=
  if first then .items trees else .moreItems trees

/-- What is left of an object at its first member, or after a member. -/
def membersLeft (first : Bool) (ms : List (String × Tree)) : Part :=
  if first then .members ms else .moreMembers ms

theorem blank_of_itemsLeft {first : Bool} (h : Spells (itemsLeft first []) bytes) :
    ∃ ws, Blank ws ∧ bytes = ws ++ [0x5D] := by
  cases first with
  | true =>
    cases (show Spells (.items []) bytes from h) with
    | noItems blank => exact ⟨_, blank, rfl⟩
  | false =>
    cases (show Spells (.moreItems []) bytes from h) with
    | noMoreItems blank => exact ⟨_, blank, rfl⟩

theorem blank_of_membersLeft {first : Bool} (h : Spells (membersLeft first []) bytes) :
    ∃ ws, Blank ws ∧ bytes = ws ++ [0x7D] := by
  cases first with
  | true =>
    cases (show Spells (.members []) bytes from h) with
    | noMembers blank => exact ⟨_, blank, rfl⟩
  | false =>
    cases (show Spells (.moreMembers []) bytes from h) with
    | noMoreMembers blank => exact ⟨_, blank, rfl⟩

theorem reads_endSequence (hws : Blank ws) (rest : List UInt8) :
    Reads endSequence (ws ++ 0x5D :: rest) () rest :=
  (reads_peekToken hws rfl _).bind (reads_advance _ _)

theorem reads_endObject (hws : Blank ws) (rest : List UInt8) :
    Reads endObject (ws ++ 0x7D :: rest) () rest :=
  (reads_peekToken hws rfl _).bind (reads_advance _ _)

theorem reads_element_end (first : Bool) (r : Reader α) (hws : Blank ws) (rest : List UInt8) :
    Reads (element first r) (ws ++ 0x5D :: rest) none (0x5D :: rest) :=
  ((reads_peekToken hws rfl _).bind (reads_pure false _)).bind (reads_pure none _)

/-- A value does not begin like the end of a list. -/
theorem ne_of_opens {b : UInt8} (h : tree.Opens b) : b ≠ 0x5D := by
  rintro rfl
  cases tree with
  | flag value => cases value <;> simp [Tree.Opens] at h
  | _ => simp [Tree.Opens, Digits.isDigit] at h

/-- In front of another element its value is left, and what follows it. -/
theorem reads_moreElements {first : Bool} {trees : List Tree}
    (hbytes : Spells (itemsLeft first (tree :: trees)) bytes) :
    ∃ value more, Spells (.value tree) value ∧ Spells (.moreItems trees) more ∧
      more.length < bytes.length ∧
      ∀ rest, Reads (moreElements first) (bytes ++ rest) true (value ++ (more ++ rest)) := by
  cases first with
  | true =>
    cases hbytes with
    | @items ws value more _ _ blank item others =>
      have hvalue := item.length_pos
      refine ⟨value, more, item, others, by simp only [List.length_append]; omega, fun rest => ?_⟩
      obtain ⟨b, hb, hpeek, -⟩ := looks_at_value item blank (more ++ rest)
      rw [List.append_assoc, List.append_assoc]
      refine hpeek.bind ?_
      split
      · next hnone => cases hnone
      · next hend => exact absurd (Option.some.inj hend) (ne_of_opens hb)
      · exact reads_pure true _
  | false =>
    cases hbytes with
    | @moreItems ws _ _ _ blank items =>
      cases items with
      | @items ws' value more _ _ blank' item others =>
        refine ⟨value, more, item, others, ?_, fun rest => ?_⟩
        · simp only [List.length_append, List.length_cons]
          omega
        · obtain ⟨b, hb, hpeek, -⟩ := looks_at_value item blank' (more ++ rest)
          rw [List.append_assoc, List.cons_append, List.append_assoc, List.append_assoc]
          refine (reads_peekToken blank rfl _).bind ((reads_advance _ _).bind (hpeek.bind ?_))
          split
          · next hend => exact absurd (Option.some.inj hend) (ne_of_opens hb)
          · exact reads_pure true _
          · next hnone => cases hnone

/-- Another element is read, and what follows it is left. -/
theorem reads_element {first : Bool} {trees : List Tree} (h : Takes r tree a)
    (hbytes : Spells (itemsLeft first (tree :: trees)) bytes) :
    ∃ more, Spells (itemsLeft false trees) more ∧ more.length < bytes.length ∧
      ∀ rest, Reads (element first r) (bytes ++ rest) (some a) (more ++ rest) := by
  obtain ⟨value, more, item, others, hlength, hmore⟩ := reads_moreElements hbytes
  refine ⟨more, others, hlength, fun rest => ?_⟩
  exact (hmore rest).bind ((h item blank_nil (others.closed_moreItems rest)).map some)

/-- Elements are read up to the end of their list. -/
theorem reads_elementsWithin {trees : List Tree} {as : List α} (h : List.Forall₂ (Takes r) trees as)
    (first : Bool) (hbytes : Spells (itemsLeft first trees) bytes) {room : Nat}
    (hroom : bytes.length ≤ room) (rest : List UInt8) :
    Reads (elementsWithin r room first) (bytes ++ rest) as (0x5D :: rest) := by
  induction h generalizing first bytes room with
  | nil =>
    obtain ⟨ws, hws, rfl⟩ := blank_of_itemsLeft hbytes
    rw [List.length_append, List.length_singleton] at hroom
    obtain ⟨room, rfl⟩ : ∃ n, room = n + 1 := ⟨room - 1, by omega⟩
    rw [List.append_assoc]
    exact (reads_element_end first r hws rest).bind (reads_pure [] _)
  | cons htakes _ ih =>
    obtain ⟨more, hmore, hlength, hreads⟩ := reads_element htakes hbytes
    obtain ⟨room, rfl⟩ : ∃ n, room = n + 1 := ⟨room - 1, by omega⟩
    exact (hreads rest).bind ((ih false hmore (by omega)).bind (reads_pure _ _))

theorem takes_elements {trees : List Tree} {as : List α} (h : List.Forall₂ (Takes r) trees as)
    (expected : String) : Takes (sequence expected (elements r)) (.list trees) as := by
  intro bytes ws more hbytes hws hmore
  cases hbytes with
  | @list _ inner items =>
    refine (reads_peekValue hws rfl _).bind (Reads.placed ?_)
    have hbody : Reads (elements r) (inner ++ more) as (0x5D :: more) := by
      rintro c hc
      have hroom : inner.length ≤ c.rest.length + 1 := by
        rw [hc, List.length_append]
        omega
      exact reads_elementsWithin h true items hroom more c hc
    exact ((reads_advance _ _).bind hbody).closedBy (reads_endSequence blank_nil more)

theorem reads_position (index : Nat) {trees : List Tree} (h : Takes r tree a) (expected : String)
    (hbytes : Spells (itemsLeft (index = 0) (tree :: trees)) bytes) :
    ∃ more, Spells (itemsLeft false trees) more ∧
      ∀ rest, Reads (position index expected r) (bytes ++ rest) a (more ++ rest) := by
  obtain ⟨more, hmore, -, hreads⟩ := reads_element h hbytes
  exact ⟨more, hmore, fun rest => (hreads rest).bind (reads_pure a _)⟩

/-- A sequence of two is taken in its order. -/
theorem takes_pair {γ : Type} {r' : Reader β} {tree' : Tree} {b : β} (h : Takes r tree a)
    (h' : Takes r' tree' b) (f : α → β → γ) (expected length : String) :
    Takes (sequence expected do
      let x ← position 0 length r
      let y ← position 1 length r'
      return f x y) (.list [tree, tree']) (f a b) := by
  intro bytes ws more hbytes hws hmore
  cases hbytes with
  | @list _ inner items =>
    obtain ⟨left, hleft, hfirst⟩ := reads_position 0 h length items
    obtain ⟨left', hleft', hsecond⟩ := reads_position 1 h' length hleft
    obtain ⟨ws', hws', rfl⟩ := blank_of_itemsLeft hleft'
    have hend := hsecond more
    rw [List.append_assoc] at hend
    refine (reads_peekValue hws rfl _).bind (Reads.placed ?_)
    refine Reads.closedBy ((reads_advance _ _).bind ?_) (reads_endSequence hws' more)
    exact (hfirst more).bind (hend.bind (reads_pure (f a b) _))

/-! ## Members -/

/-- A reader reads the value of a member, from what follows the key on. -/
def TakesMember (r : Reader α) (tree : Tree) (a : α) : Prop :=
  ∀ ⦃bytes ws ws' more : List UInt8⦄, Spells (.value tree) bytes → Blank ws → Blank ws' →
    Closed more → Reads r (ws ++ 0x3A :: (ws' ++ (bytes ++ more))) a more

/-- A reader refuses the value of a member. -/
def DeclinesMember (r : Reader α) (tree : Tree) : Prop :=
  ∀ ⦃bytes ws ws' more : List UInt8⦄, Spells (.value tree) bytes → Blank ws → Blank ws' →
    Closed more → Refuses r (ws ++ 0x3A :: (ws' ++ (bytes ++ more)))

theorem TakesMember.bind {b : β} {f : α → Reader β} (h : TakesMember r tree a) (hf : f a = pure b) :
    TakesMember (r >>= f) tree b := by
  intro bytes ws ws' more hbytes hws hws' hmore
  refine (h hbytes hws hws' hmore).bind ?_
  rw [hf]
  exact reads_pure b more

theorem DeclinesMember.bind (f : α → Reader β) (h : DeclinesMember r tree) :
    DeclinesMember (r >>= f) tree :=
  fun _ _ _ _ hbytes hws hws' hmore => (h hbytes hws hws' hmore).bind f

theorem Takes.member (h : Takes r tree a) : TakesMember (memberValue r) tree a :=
  fun _ _ _ _ hbytes hws hws' hmore => (reads_colon hws _).bind (h hbytes hws' hmore)

theorem Declines.member (h : Declines r tree) : DeclinesMember (memberValue r) tree :=
  fun _ _ _ _ hbytes hws hws' hmore => (reads_colon hws _).refuses (h hbytes hws' hmore)

theorem field_none (name : String) (r : Reader α) : field name none r = memberValue r := rfl

theorem Takes.field (h : Takes r tree a) (name : String) :
    TakesMember (field name none r) tree a := by
  rw [field_none]
  exact h.member

theorem Declines.field (h : Declines r tree) (name : String) :
    DeclinesMember (field name none r) tree := by
  rw [field_none]
  exact h.member

/-- A field that has been given is not read again. -/
theorem declinesMember_field_again (name : String) (seen : α) (r : Reader α) (tree : Tree) :
    DeclinesMember (field name (some seen) r) tree :=
  fun _ _ _ _ _ _ _ _ => (refuses_failUnplaced (.repeatedField name) _).bind _

/-- A run over members, each of which is taken. -/
inductive Gives (add : String → σ → Reader σ) : σ → List (String × Tree) → σ → Prop where
  | nil (s : σ) : Gives add s [] s
  | cons {s s' s'' : σ} {key : String} {tree : Tree} {ms : List (String × Tree)}
      (member : TakesMember (add key s) tree s') (others : Gives add s' ms s'') :
      Gives add s ((key, tree) :: ms) s''

/-- A run over members, one of which is declined. -/
inductive Fails (add : String → σ → Reader σ) : σ → List (String × Tree) → Prop where
  | here {s : σ} {key : String} {tree : Tree} (ms : List (String × Tree))
      (member : DeclinesMember (add key s) tree) : Fails add s ((key, tree) :: ms)
  | later {s s' : σ} {key : String} {tree : Tree} {ms : List (String × Tree)}
      (member : TakesMember (add key s) tree s') (others : Fails add s' ms) :
      Fails add s ((key, tree) :: ms)

theorem reads_memberKey_end (first : Bool) (hws : Blank ws) (rest : List UInt8) :
    Reads (memberKey first) (ws ++ 0x7D :: rest) none (0x7D :: rest) :=
  ((reads_peekToken hws rfl _).bind (reads_pure false _)).bind (reads_pure none _)

/-- The key of another member is read; its value and the members after it are left. -/
theorem reads_memberKey {first : Bool} {key : String} {ms : List (String × Tree)}
    (hbytes : Spells (membersLeft first ((key, tree) :: ms)) bytes) :
    ∃ ws ws' value more, Blank ws ∧ Blank ws' ∧ Spells (.value tree) value ∧
      Spells (membersLeft false ms) more ∧ more.length < bytes.length ∧
      ∀ rest, Reads (memberKey first) (bytes ++ rest) (some key)
        (ws ++ 0x3A :: (ws' ++ (value ++ (more ++ rest)))) := by
  cases first with
  | true =>
    cases hbytes with
    | @members ws name ws' ws'' value more _ _ _ blank chars blank' blank'' item others =>
      refine ⟨ws', ws'', value, more, blank', blank'', item, others, ?_, fun rest => ?_⟩
      · simp only [List.length_append, List.length_cons]
        omega
      · let left := ws' ++ 0x3A :: (ws'' ++ (value ++ (more ++ rest)))
        have hmore : Reads (moreMembers true) (ws ++ 0x22 :: (name ++ 0x22 :: left)) true
            (0x22 :: (name ++ 0x22 :: left)) :=
          (reads_peekToken blank rfl _).bind (reads_pure true _)
        simp only [List.append_assoc, List.cons_append]
        exact hmore.bind ((reads_advance _ _).bind ((reads_textBody chars left).map some))
  | false =>
    cases hbytes with
    | @moreMembers ws _ _ _ blank members =>
      cases members with
      | @members ws₁ name ws' ws'' value more _ _ _ blank₁ chars blank' blank'' item others =>
        refine ⟨ws', ws'', value, more, blank', blank'', item, others, ?_, fun rest => ?_⟩
        · simp only [List.length_append, List.length_cons]
          omega
        · let left := ws' ++ 0x3A :: (ws'' ++ (value ++ (more ++ rest)))
          have hmore : Reads (moreMembers false)
              (ws ++ 0x2C :: (ws₁ ++ 0x22 :: (name ++ 0x22 :: left))) true
              (0x22 :: (name ++ 0x22 :: left)) :=
            (reads_peekToken blank rfl _).bind ((reads_advance _ _).bind
              ((reads_peekToken blank₁ rfl _).bind (reads_pure true _)))
          simp only [List.append_assoc, List.cons_append]
          exact hmore.bind ((reads_advance _ _).bind ((reads_textBody chars left).map some))

/-- Members are read up to the end of their object when each of them is taken. -/
theorem reads_membersWithin {add : String → σ → Reader σ} {s s' : σ} {ms : List (String × Tree)}
    (h : Gives add s ms s') (first : Bool) (hbytes : Spells (membersLeft first ms) bytes)
    {room : Nat} (hroom : bytes.length ≤ room) (rest : List UInt8) :
    Reads (membersWithin add room first s) (bytes ++ rest) s' (0x7D :: rest) := by
  induction h generalizing first bytes room with
  | nil s =>
    obtain ⟨ws, hws, rfl⟩ := blank_of_membersLeft hbytes
    rw [List.length_append, List.length_singleton] at hroom
    obtain ⟨room, rfl⟩ : ∃ n, room = n + 1 := ⟨room - 1, by omega⟩
    rw [List.append_assoc]
    exact (reads_memberKey_end first hws rest).bind (reads_pure s _)
  | cons member _ ih =>
    obtain ⟨ws, ws', value, more, hws, hws', hvalue, hmore, hlength, hkey⟩ := reads_memberKey hbytes
    obtain ⟨room, rfl⟩ : ∃ n, room = n + 1 := ⟨room - 1, by omega⟩
    have hclosed : Closed (more ++ rest) := Spells.closed_moreMembers hmore rest
    exact (hkey rest).bind ((member hvalue hws hws' hclosed).bind (ih false hmore (by omega)))

/-- The loop over members fails when one of them is declined. -/
theorem refuses_membersWithin {add : String → σ → Reader σ} {s : σ} {ms : List (String × Tree)}
    (h : Fails add s ms) (first : Bool) (hbytes : Spells (membersLeft first ms) bytes)
    {room : Nat} (hroom : bytes.length ≤ room) (rest : List UInt8) :
    Refuses (membersWithin add room first s) (bytes ++ rest) := by
  induction h generalizing first bytes room with
  | here ms member =>
    obtain ⟨ws, ws', value, more, hws, hws', hvalue, hmore, hlength, hkey⟩ := reads_memberKey hbytes
    obtain ⟨room, rfl⟩ : ∃ n, room = n + 1 := ⟨room - 1, by omega⟩
    have hclosed : Closed (more ++ rest) := Spells.closed_moreMembers hmore rest
    exact (hkey rest).refuses ((member hvalue hws hws' hclosed).bind _)
  | later member _ ih =>
    obtain ⟨ws, ws', value, more, hws, hws', hvalue, hmore, hlength, hkey⟩ := reads_memberKey hbytes
    obtain ⟨room, rfl⟩ : ∃ n, room = n + 1 := ⟨room - 1, by omega⟩
    have hclosed : Closed (more ++ rest) := Spells.closed_moreMembers hmore rest
    exact (hkey rest).refuses ((member hvalue hws hws' hclosed).refuses (ih false hmore (by omega)))

/-- The members of an object are read, and its end is left. -/
theorem reads_members {add : String → σ → Reader σ} {s s' : σ} {ms : List (String × Tree)}
    (h : Gives add s ms s') (hbytes : Spells (.members ms) bytes) (rest : List UInt8) :
    Reads (members add s) (bytes ++ rest) s' (0x7D :: rest) := by
  intro c hc
  have hroom : bytes.length ≤ c.rest.length + 1 := by
    rw [hc, List.length_append]
    omega
  exact reads_membersWithin h true hbytes hroom rest c hc

theorem refuses_members {add : String → σ → Reader σ} {s : σ} {ms : List (String × Tree)}
    (h : Fails add s ms) (hbytes : Spells (.members ms) bytes) (rest : List UInt8) :
    Refuses (members add s) (bytes ++ rest) := by
  intro c hc
  have hroom : bytes.length ≤ c.rest.length + 1 := by
    rw [hc, List.length_append]
    omega
  exact refuses_membersWithin h true hbytes hroom rest c hc

theorem takes_map {add : String → σ → Reader σ} {s s' : σ} {ms : List (String × Tree)}
    (h : Gives add s ms s') (expected : String) :
    Takes (map expected (members add s)) (.object ms) s' := by
  intro bytes ws more hbytes hws hmore
  cases hbytes with
  | object members =>
    exact (reads_peekValue hws rfl _).bind (Reads.placed
      (((reads_advance _ _).bind (reads_members h members more)).closedBy
        (reads_endObject blank_nil more)))

/-- A record is taken from an object when its members are, and something is made of them. -/
theorem takes_record {add : String → σ → Reader σ} {s s' : σ} {ms : List (String × Tree)}
    {f : σ → Reader α} (h : Gives add s ms s') (hf : f s' = pure a) (expected : String)
    (ofSequence : Reader α) :
    Takes (record expected ofSequence (members add s >>= f)) (.object ms) a := by
  intro bytes ws more hbytes hws hmore
  cases hbytes with
  | @object _ bytes inner =>
    refine (reads_peekValue hws rfl _).bind (Reads.placed ?_)
    have hfields : Reads (members add s >>= f) (bytes ++ more) a (0x7D :: more) := by
      refine (reads_members h inner more).bind ?_
      rw [hf]
      exact reads_pure a _
    exact ((reads_advance _ _).bind hfields).closedBy (reads_endObject blank_nil more)

/-- A record is declined when a member is. -/
theorem declines_record {add : String → σ → Reader σ} {s : σ} {ms : List (String × Tree)}
    (h : Fails add s ms) (expected : String) (ofSequence : Reader α) (f : σ → Reader α) :
    Declines (record expected ofSequence (members add s >>= f)) (.object ms) := by
  intro bytes ws more hbytes hws hmore
  cases hbytes with
  | object inner =>
    refine (reads_peekValue hws rfl _).refuses (Refuses.placed ?_)
    exact ((reads_advance _ _).refuses ((refuses_members h inner more).bind f)).closedBy endObject

/-! ## Choices -/

theorem reads_variantName {variants : List String} {name : String} (hname : name ∈ variants)
    {chars : List UInt8} (h : SpellsChars name.toList chars) (rest : List UInt8) :
    Reads (variantName variants) (0x22 :: (chars ++ 0x22 :: rest)) name rest := by
  refine (reads_advance _ _).bind ((reads_textBody h rest).bind ?_)
  rw [if_pos (List.contains_iff_mem.2 hname)]
  exact reads_pure name rest

/-- A variant that is only named is taken if nothing belongs to it. -/
theorem takes_choice_bare {variants : List String} {content bare : String → Reader α}
    {name : String} (hname : name ∈ variants) (h : bare name = pure a) :
    Takes (choice variants content bare) (.text name) a := by
  intro bytes ws more hbytes hws hmore
  cases hbytes with
  | @text _ chars hchars =>
    have hvariant := reads_variantName hname hchars more
    simp only [List.cons_append, List.append_assoc, List.nil_append]
    refine (reads_peekToken hws rfl _).bind (hvariant.bind ?_)
    rw [h]
    exact reads_pure a more

/-- A variant with its content is taken from an object with one member. -/
theorem takes_choice {variants : List String} {content bare : String → Reader α} {name : String}
    (hname : name ∈ variants) (h : Takes (content name) tree a) :
    Takes (choice variants content bare) (.object [(name, tree)]) a := by
  intro bytes ws more hbytes hws hmore
  cases hbytes with
  | object inner =>
    cases inner with
    | @members ws₁ chars ws' ws'' value left _ _ _ blank hchars blank' blank'' item others =>
      cases others with
      | @noMoreMembers ws₂ blank₂ =>
        have hclosed : Closed (ws₂ ++ 0x7D :: more) :=
          blank₂.closed_append (closed_cons (.inr (.inr rfl)) _)
        let left := ws' ++ 0x3A :: (ws'' ++ (value ++ (ws₂ ++ 0x7D :: more)))
        have hkey :
            Reads (variantKey variants) (ws₁ ++ 0x22 :: (chars ++ 0x22 :: left)) name left :=
          (reads_peekToken blank rfl _).bind (reads_variantName hname hchars left)
        simp only [List.append_assoc, List.cons_append, List.nil_append]
        refine (reads_peekToken hws rfl _).bind ((reads_advance _ _).bind ?_)
        exact hkey.bind ((reads_colon blank' _).bind ((h item blank'' hclosed).bind
          ((reads_peekToken blank₂ rfl _).bind ((reads_advance _ _).bind (reads_pure a more)))))

end LeaseCache.Json.Reader
