import RegexTree.Proofs.Alike.Escape
import RegexTree.Proofs.Forms.Class

/-! # Classes at places that look alike
Inside a class only a closing bracket or the end of input ends what is before it, since a dash
before any other character may begin the upper end of a range. A class that has its closing bracket
is the same at two places that look alike, whatever follows it
(`CharacterClass.alike_read_of_closed`). -/

namespace RegexTree

open Cursor (Alike)

variable {m n : Nat} {s t r : List Char} {a b : Cursor} {x : Char}

/-- The text is empty or begins with a closing bracket, which ends what is before it in a class. -/
def ClosesClass (t : List Char) : Prop := ∀ x, t.head? = some x → x = ']'

/-- What ends a class ends everything. -/
theorem ClosesClass.delimits (h : ClosesClass t) : Delimits t := by
  intro x hx
  rw [h x hx]
  decide

/-- The empty text closes a class. -/
theorem ClosesClass.nil : ClosesClass [] := by
  intro x hx
  cases hx

/-- A closing bracket closes a class. -/
theorem ClosesClass.bracket (t : List Char) : ClosesClass (']' :: t) := by
  intro x hx
  exact (Option.some.inj hx).symm

/-! ## Atoms and members -/

/-- As an atom of a class, an `Escaped` is moved as on its own. -/
theorem ClassAtom.shift_ofEscaped (n : Nat) (e : Escaped) :
    (ofEscaped e).shift n = ofEscaped (e.shift n) := by
  cases e <;> rfl

/-- A `ClassAtom` is the same at both places. -/
theorem ClassAtom.alike_read (h : Alike m n s t a b) (ht : Delimits t) (ha : a.rest = x :: r)
    (hs : s <:+ (read x a).2.rest) (hu : Uncut s t (read x a).1.invalids) :
    (read x a).1.shift m = (read x b).1.shift n ∧ Alike m n s t (read x a).2 (read x b).2 := by
  by_cases hx : x = '\\'
  · subst hx
    have hread : ∀ c : Cursor,
        read '\\' c = (ofEscaped (Escaped.read true c).1, (Escaped.read true c).2) := by
      intro c
      rw [read, if_pos rfl]
    rw [hread a] at hs hu ⊢
    rw [hread b]
    rw [invalids_ofEscaped] at hu
    obtain ⟨hshift, halike⟩ := Escaped.alike_read h ht ha hs hu
    refine ⟨?_, halike⟩
    rw [shift_ofEscaped, shift_ofEscaped, hshift]
  · have hread : ∀ c : Cursor, read x c = (literal (c.spanTo c.next) x, c.next) := by
      intro c
      rw [read, if_neg hx]
    rw [hread a] at hs ⊢
    rw [hread b]
    obtain ⟨-, hnext⟩ := h.next ha hs
    refine ⟨?_, hnext⟩
    rw [shift, shift, h.shift_spanTo hnext]

namespace ClassMember

/-- Before a dash and a character other than the closing bracket `readHigh?` reads the upper end of
a range. -/
theorem readHigh?_of_dash {c : Cursor} (h : c.rest = '-' :: x :: r) (hx : x ≠ ']') :
    readHigh? c =
      some (c.spanTo c.next, (ClassAtom.read x c.next).1, (ClassAtom.read x c.next).2) := by
  unfold readHigh?
  rw [h]
  exact if_neg hx

/-- Elsewhere no upper end is read. -/
theorem readHigh?_eq_none {c : Cursor} (h : ∀ x r, c.rest = '-' :: x :: r → x = ']') :
    readHigh? c = none := by
  unfold readHigh?
  split
  · rename_i x r hrest
    exact if_pos (h x r hrest)
  · rfl

/-- The upper end of a range is read at neither place or at both, moved. -/
theorem alike_readHigh? (h : Alike m n s t a b) (ht : ClosesClass t)
    (hs : ∀ delimiter high later, readHigh? a = some (delimiter, high, later) → s <:+ later.rest)
    (hu : ∀ delimiter high later, readHigh? a = some (delimiter, high, later) →
      Uncut s t high.invalids) :
    (readHigh? a = none ∧ readHigh? b = none) ∨
      ∃ delimiter high later delimiter' high' later',
        readHigh? a = some (delimiter, high, later) ∧
          readHigh? b = some (delimiter', high', later') ∧
            delimiter.shift m = delimiter'.shift n ∧ high.shift m = high'.shift n ∧
              Alike m n s t later later' := by
  by_cases hdash : ∃ x r, a.rest = '-' :: x :: r ∧ x ≠ ']'
  · obtain ⟨x, r, hrest, hx⟩ := hdash
    have hread := readHigh?_of_dash hrest hx
    have hstay := hs _ _ _ hread
    have hnextRest : a.next.rest = x :: r := Cursor.rest_next hrest
    have hfirst := (ClassAtom.reaches_read x a.next).stays hstay
    obtain ⟨-, hnext⟩ := h.next hrest ((a.next.reaches_next).stays hfirst)
    obtain ⟨⟨r', hrest'⟩, -⟩ := hnext.next hnextRest hfirst
    have hbRest : b.rest = '-' :: x :: r' := by
      obtain ⟨⟨v, hv⟩, -⟩ := h.next hrest ((a.next.reaches_next).stays hfirst)
      rw [hv, ← hrest', Cursor.rest_next hv]
    obtain ⟨hshift, halike⟩ :=
      ClassAtom.alike_read hnext ht.delimits hnextRest hstay (hu _ _ _ hread)
    exact .inr ⟨_, _, _, _, _, _, hread, readHigh?_of_dash hbRest hx, h.shift_spanTo hnext, hshift,
      halike⟩
  · have hnone : ∀ x r, a.rest = '-' :: x :: r → x = ']' := by
      intro x r hrest
      exact Decidable.byContradiction fun hx => hdash ⟨x, r, hrest, hx⟩
    refine .inl ⟨readHigh?_eq_none hnone, readHigh?_eq_none fun x r hrest => ?_⟩
    -- the dash and what follows it stand in the common text, or behind it
    obtain ⟨-, u, hu, hv⟩ := h
    rw [hrest] at hv
    rcases u with _ | ⟨y, _ | ⟨z, u⟩⟩
    · have hbad : '-' = ']' := ht '-' (by rw [← List.nil_append t, ← hv]; rfl)
      exact absurd hbad (by decide)
    · exact ht x (by rw [← (List.cons.inj hv).2.trans (List.nil_append t)]; rfl)
    · obtain ⟨rfl, htail⟩ := List.cons.inj hv
      obtain ⟨rfl, -⟩ := List.cons.inj htail
      exact hnone x (u ++ s) hu

/-- A `ClassMember` is the same at both places. -/
theorem alike_read (h : Alike m n s t a b) (ht : ClosesClass t) (ha : a.rest = x :: r)
    (hs : s <:+ (read x a).2.rest) (hu : Uncut s t (read x a).1.invalids) :
    (read x a).1.shift m = (read x b).1.shift n ∧ Alike m n s t (read x a).2 (read x b).2 := by
  have hsome : ∀ {c later : Cursor} {delimiter : Span} {high : ClassAtom},
      readHigh? (ClassAtom.read x c).2 = some (delimiter, high, later) →
        read x c = (range ⟨(ClassAtom.read x c).1, delimiter, high⟩, later) := by
    intro c later delimiter high hread
    simp only [read, hread]
  have hnone : ∀ {c : Cursor}, readHigh? (ClassAtom.read x c).2 = none →
      read x c = (atom (ClassAtom.read x c).1, (ClassAtom.read x c).2) := by
    intro c hread
    simp only [read, hread]
  -- what is asked of the member holds of its lower end, whether a range begins there or not
  have hlow : s <:+ (ClassAtom.read x a).2.rest ∧ Uncut s t (ClassAtom.read x a).1.invalids := by
    cases hread : readHigh? (ClassAtom.read x a).2 with
    | none =>
      rw [hnone hread] at hs hu
      exact ⟨hs, hu⟩
    | some result =>
      obtain ⟨delimiter, high, later⟩ := result
      rw [hsome hread] at hs hu
      exact ⟨(reaches_of_readHigh? hread).stays hs, hu.of_subset (List.subset_append_left _ _)⟩
  obtain ⟨hshift, halike⟩ := ClassAtom.alike_read h ht.delimits ha hlow.1 hlow.2
  have hsHigh : ∀ delimiter high later, readHigh? (ClassAtom.read x a).2 =
      some (delimiter, high, later) → s <:+ later.rest := by
    intro delimiter high later hread
    rw [hsome hread] at hs
    exact hs
  have huHigh : ∀ delimiter high later, readHigh? (ClassAtom.read x a).2 =
      some (delimiter, high, later) → Uncut s t high.invalids := by
    intro delimiter high later hread
    rw [hsome hread] at hu
    exact hu.of_subset (List.subset_append_right _ _)
  rcases alike_readHigh? halike ht hsHigh huHigh with
    ⟨hreadA, hreadB⟩ | ⟨_, _, _, _, _, _, hreadA, hreadB, hdelimiter, hhigh, hlater⟩
  · rw [hnone hreadA, hnone hreadB]
    exact ⟨congrArg atom hshift, halike⟩
  · rw [hsome hreadA, hsome hreadB]
    refine ⟨?_, hlater⟩
    simp only [shift, ClassRange.shift, hshift, hdelimiter, hhigh]

end ClassMember

/-! ## Classes -/

namespace CharacterClass

/-- No members are read where nothing but a closing bracket stands. -/
theorem readMembers_of_closes {c : Cursor} (h : ClosesClass c.rest) : readMembers c = ([], c) := by
  rw [readMembers]
  split
  · rfl
  · rename_i x text hrest
    exact if_pos (h x (by rw [hrest]; rfl))

/-- Before any other character a member is read, and then the other members. -/
theorem readMembers_of_rest {c : Cursor} (h : c.rest = x :: r) (hx : x ≠ ']') :
    readMembers c = ((ClassMember.read x c).1 :: (readMembers (ClassMember.read x c).2).1,
      (readMembers (ClassMember.read x c).2).2) := by
  rw [readMembers]
  split
  · rename_i hrest
    rw [hrest] at h
    cases h
  · rename_i y text hrest
    obtain rfl : y = x := (List.cons.inj (hrest.symm.trans h)).1
    rw [if_neg hx]

/-- Members are the same at both places. -/
theorem alike_readMembers (h : Alike m n s t a b) (ht : ClosesClass t)
    (hs : s <:+ (readMembers a).2.rest)
    (hu : Uncut s t ((readMembers a).1.flatMap (·.invalids))) :
    (readMembers a).1.map (·.shift m) = (readMembers b).1.map (·.shift n) ∧
      Alike m n s t (readMembers a).2 (readMembers b).2 := by
  fun_induction readMembers a generalizing b with
  | case1 a hrest =>
    have hclose : ClosesClass b.rest := h.forall_head ht (hrest ▸ ClosesClass.nil)
    rw [readMembers_of_closes hclose]
    exact ⟨rfl, h⟩
  | case2 a text hrest =>
    have hclose : ClosesClass b.rest := h.forall_head ht (hrest ▸ ClosesClass.bracket text)
    rw [readMembers_of_closes hclose]
    exact ⟨rfl, h⟩
  | case3 a x text hrest hx members later hread ih =>
    rw [hread] at ih
    have hreach : (ClassMember.read x a).2.Reaches later := by
      have := reaches_readMembers (ClassMember.read x a).2
      rwa [hread] at this
    have hstay := hreach.stays hs
    obtain ⟨hmember, hnext⟩ := ClassMember.alike_read h ht hrest hstay
      (hu.of_subset (by rw [List.flatMap_cons]; exact List.subset_append_left _ _))
    obtain ⟨hmembers, hlater⟩ := ih hnext hs
      (hu.of_subset (by rw [List.flatMap_cons]; exact List.subset_append_right _ _))
    obtain ⟨⟨text', hrest'⟩, -⟩ := h.next hrest ((ClassMember.reaches_read x a).stays hstay)
    rw [readMembers_of_rest hrest' hx]
    refine ⟨?_, hlater⟩
    rw [List.map_cons, List.map_cons, hmember, hmembers]

/-- The place behind the members of a class, with the cursor on its opening bracket. -/
def afterMembers (c : Cursor) : Cursor := (readMembers (c.next.skipOptional '^').2).2

/-- A class is read in five parts, and `afterMembers` is where the last of them begins. -/
theorem read_eq (c : Cursor) :
    read c = (⟨c.spanTo ((afterMembers c).skipOptional ']').2, c.spanTo c.next,
      (c.next.skipOptional '^').1, (readMembers (c.next.skipOptional '^').2).1,
      ((afterMembers c).skipOptional ']').1⟩, ((afterMembers c).skipOptional ']').2) := rfl

/-- The members of a class lie behind its opening bracket. -/
theorem next_reaches_afterMembers (c : Cursor) : c.next.Reaches (afterMembers c) :=
  (Cursor.reaches_skipOptional '^' c.next).trans (reaches_readMembers _)

/-- Behind its members a class is closed, or the input has ended. -/
theorem closesClass_afterMembers (c : Cursor) : ClosesClass (afterMembers c).rest :=
  (members_of_readMembers _).2

/-- Up to `afterMembers` a class is the same at both places. -/
theorem alike_afterMembers (h : Alike m n s t a b) (ht : ClosesClass t) (ha : a.rest = '[' :: r)
    (hs : s <:+ (afterMembers a).rest)
    (hu : Uncut s t ((read a).1.members.flatMap (·.invalids))) :
    Alike m n s t a.next b.next ∧
      (read a).1.negation.map (·.shift m) = (read b).1.negation.map (·.shift n) ∧
        (read a).1.members.map (·.shift m) = (read b).1.members.map (·.shift n) ∧
          Alike m n s t (afterMembers a) (afterMembers b) := by
  obtain ⟨-, hnext⟩ := h.next ha ((next_reaches_afterMembers a).stays hs)
  obtain ⟨hnegation, hstart⟩ :=
    hnext.skipOptional ht.delimits (by decide) ((reaches_readMembers _).stays hs)
  obtain ⟨hmembers, hstop⟩ := alike_readMembers hstart ht hs hu
  exact ⟨hnext, hnegation, hmembers, hstop⟩

/-- A class without its closing bracket ends with the input, and is cut off by it. -/
theorem of_closing_eq_none {c : Cursor} (h : (afterMembers c).accept? ']' = none) :
    (afterMembers c).rest = [] ∧ ∃ i ∈ (read c).1.invalids, i.IsCutOff := by
  have hrest : (afterMembers c).rest = [] := by
    have hclose := closesClass_afterMembers c
    have hne := Cursor.head_ne_of_accept? h
    cases hrest : (afterMembers c).rest with
    | nil => rfl
    | cons x r =>
      rw [hrest] at hclose hne
      exact absurd (congrArg some (hclose x rfl)) hne
  refine ⟨hrest, ⟨.emptyAt (read c).1.span.stop, .unterminatedClass⟩, ?_, .inr (.inl rfl)⟩
  have hclosing : (read c).1.closing = none := by
    rw [read_eq]
    show ((afterMembers c).skipOptional ']').1 = none
    rw [Cursor.skipOptional, h]
  refine List.mem_append_right _ ?_
  rw [missingBracket, isClosed, hclosing]
  exact List.mem_singleton.mpr rfl

/-- A class is the same at both places if its parts are. -/
theorem shift_read (h : Alike m n s t a b) (hopening : Alike m n s t a.next b.next)
    (hnegation : (read a).1.negation.map (·.shift m) = (read b).1.negation.map (·.shift n))
    (hmembers : (read a).1.members.map (·.shift m) = (read b).1.members.map (·.shift n))
    (hclosing : (read a).1.closing.map (·.shift m) = (read b).1.closing.map (·.shift n))
    (hlater : Alike m n s t (read a).2 (read b).2) :
    (read a).1.shift m = (read b).1.shift n := by
  rw [shift, shift, hnegation, hmembers, hclosing]
  show mk ((a.spanTo (read a).2).shift m) ((a.spanTo a.next).shift m) _ _ _ =
    mk ((b.spanTo (read b).2).shift n) ((b.spanTo b.next).shift n) _ _ _
  rw [h.shift_spanTo hlater, h.shift_spanTo hopening]

/-- A class with its closing bracket is the same at both places. -/
theorem alike_read_of_closed (h : Alike m n s t a b) (ha : a.rest = '[' :: r) {later : Cursor}
    (hclose : (afterMembers a).accept? ']' = some later) (hs : s <:+ later.rest) :
    (read a).1.shift m = (read b).1.shift n ∧ Alike m n s t (read a).2 (read b).2 := by
  have hread := Cursor.reads_of_accept? hclose
  have hreach := a.reaches_next.trans (next_reaches_afterMembers a)
  -- up to the closing bracket, the members cannot see what follows the class
  obtain ⟨v, hv, hinner⟩ := h.narrow hreach (hread.reaches.stays hs)
  obtain ⟨w, hw⟩ := hs
  have hvw : v = ']' :: w := by
    refine (List.append_left_inj s).mp ?_
    rw [← hv, hread.1, ← hw]
    rfl
  subst hvw
  obtain ⟨hnext, hnegation, hmembers, hstop⟩ := alike_afterMembers hinner
    (.bracket (w ++ t)) ha ⟨[], hv.symm⟩ fun hnil => absurd hnil (List.cons_ne_nil _ _)
  obtain ⟨later', hclose', halike⟩ := hstop.widen.of_accept? hclose ⟨w, hw⟩
  have hskip :
      (afterMembers a).skipOptional ']' = (some ((afterMembers a).spanTo later), later) := by
    rw [Cursor.skipOptional, hclose]
  have hskip' :
      (afterMembers b).skipOptional ']' = (some ((afterMembers b).spanTo later'), later') := by
    rw [Cursor.skipOptional, hclose']
  have hlater : Alike m n s t (read a).2 (read b).2 := by
    rw [read_eq, read_eq, hskip, hskip']
    exact halike
  refine ⟨shift_read h hnext.widen hnegation hmembers ?_ hlater, hlater⟩
  rw [read_eq, read_eq, hskip, hskip']
  exact congrArg some (hstop.widen.shift_spanTo halike)

/-- A class is the same at both places, if it is not cut off (`Uncut`). -/
theorem alike_read (h : Alike m n s t a b) (ha : a.rest = '[' :: r)
    (hs : s <:+ (read a).2.rest) (hu : Uncut s t (read a).1.invalids) :
    (read a).1.shift m = (read b).1.shift n ∧ Alike m n s t (read a).2 (read b).2 := by
  have hskips : ∀ c : Cursor, (afterMembers c).accept? ']' = none →
      (afterMembers c).skipOptional ']' = (none, afterMembers c) := by
    intro c hc
    rw [Cursor.skipOptional, hc]
  cases hclose : (afterMembers a).accept? ']' with
  | some later =>
    refine alike_read_of_closed h ha hclose ?_
    rw [read_eq, Cursor.skipOptional, hclose] at hs
    exact hs
  | none =>
    -- the input ends here, so it has to end at the other place as well
    obtain ⟨hrest, i, hi, hcut⟩ := of_closing_eq_none hclose
    have hskip := hskips a hclose
    have hsnil : s = [] := by
      rw [read_eq, hskip] at hs
      exact List.suffix_nil.mp (hrest ▸ hs)
    have htnil : t = [] := Decidable.byContradiction fun hne => hu hsnil hne i hi hcut
    subst hsnil htnil
    obtain ⟨hnext, hnegation, hmembers, hstop⟩ :=
      alike_afterMembers h .nil ha List.nil_suffix (Uncut.nil _ _)
    have hskip' := hskips b (Cursor.accept?_eq_none (by rw [hstop.rest_of_rest_eq hrest]; simp))
    have hlater : Alike m n [] [] (read a).2 (read b).2 := by
      rw [read_eq, read_eq, hskip, hskip']
      exact hstop
    refine ⟨shift_read h hnext hnegation hmembers ?_ hlater, hlater⟩
    rw [read_eq, read_eq, hskip, hskip']
    rfl

end CharacterClass

end RegexTree
