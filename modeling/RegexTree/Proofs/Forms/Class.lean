import RegexTree.CharacterClass
import RegexTree.Proofs.Forms.Escape

/-! # Forms of character classes
What the atoms, the members and the whole of a character class are made of. The main statement,
`CharacterClass.takes_read`, says that the reader of classes takes an opening bracket, a caret where
one follows it, members one after the other, and a closing bracket unless the input ends first. -/

namespace RegexTree

/-! ## Atoms and members -/

namespace ClassAtom

/-- What an atom of a class turns out to be: a literal or an `Escaped`. -/
inductive Takes (c later : Cursor) : ClassAtom → Prop where
  /-- A character that stands for itself. -/
  | literal {x : Char} (hx : x ≠ '\\') (hclose : x ≠ ']') (hread : c.Reads [x] later) :
      Takes c later (.literal (c.spanTo later) x)
  /-- A backslash sequence. -/
  | escaped {e : Escaped} (he : Escaped.Takes true c later e) : Takes c later (ofEscaped e)

/-- An atom takes at least one character. -/
theorem Takes.reads {c later : Cursor} {a : ClassAtom} (h : Takes c later a) :
    ∃ x w, c.Reads (x :: w) later := by
  cases h with
  | literal hx hclose hread => exact ⟨_, _, hread⟩
  | escaped he => exact ⟨_, he.reads⟩

/-- An atom stands where it was read. -/
theorem Takes.span_eq {c later : Cursor} {a : ClassAtom} (h : Takes c later a) :
    a.span = c.spanTo later := by
  cases h with
  | literal => rfl
  | escaped he => cases he <;> rfl

/-- An atom is read by `ClassAtom.read` as one of the forms. -/
theorem takes_read {c : Cursor} {x : Char} {t : List Char} (h : c.rest = x :: t)
    (hclose : x ≠ ']') : Takes c (read x c).2 (read x c).1 := by
  unfold read
  split
  · rename_i hx
    exact .escaped (Escaped.takes_read (hx ▸ h))
  · rename_i hx
    exact .literal hx hclose (Cursor.reads_next h)

end ClassAtom

namespace ClassMember

/-- The atoms of a member: the one that it is, or the two ends of a range. -/
def atoms : ClassMember → List ClassAtom
  | atom a => [a]
  | range r => [r.low, r.high]

/-- What a member turns out to be. -/
inductive Takes (c later : Cursor) : ClassMember → Prop where
  /-- A single atom, which no range begins with. -/
  | atom {a : ClassAtom} (ha : ClassAtom.Takes c later a) : Takes c later (.atom a)
  /-- Two atoms with a dash between them. -/
  | range {low high : ClassAtom} {dash afterDash : Cursor} (hlow : ClassAtom.Takes c dash low)
      (hdash : dash.Reads ['-'] afterDash) (hhigh : ClassAtom.Takes afterDash later high) :
      Takes c later (.range ⟨low, dash.spanTo afterDash, high⟩)

/-- A member takes at least one character. -/
theorem Takes.reads {c later : Cursor} {m : ClassMember} (h : Takes c later m) :
    ∃ x w, c.Reads (x :: w) later := by
  cases h with
  | atom ha => exact ha.reads
  | range hlow hdash hhigh =>
    obtain ⟨x, w, hread⟩ := hlow.reads
    obtain ⟨y, v, hreadHigh⟩ := hhigh.reads
    exact ⟨x, _, (hread.trans hdash).trans hreadHigh⟩

/-- A member stands where it was read. -/
theorem Takes.span_eq {c later : Cursor} {m : ClassMember} (h : Takes c later m) :
    m.span = c.spanTo later := by
  cases h with
  | atom ha => exact ha.span_eq
  | range hlow hdash hhigh =>
    obtain ⟨_, _, hreadLow⟩ := hlow.reads
    obtain ⟨_, _, hreadHigh⟩ := hhigh.reads
    rw [span, ClassRange.span, hlow.span_eq, hhigh.span_eq]
    exact hreadLow.reaches.cover_spanTo hdash.reaches hreadHigh.reaches

/-- The upper end that `readHigh?` reads is an atom after a dash. -/
theorem takes_of_readHigh? {c later : Cursor} {delimiter : Span} {high : ClassAtom}
    (h : readHigh? c = some (delimiter, high, later)) :
    ∃ middle, c.Reads ['-'] middle ∧ delimiter = c.spanTo middle ∧
      ClassAtom.Takes middle later high := by
  unfold readHigh? at h
  split at h
  · rename_i x t hrest
    split at h
    · cases h
    · rename_i hclose
      have hdash := Cursor.reads_next hrest
      have hnext : c.next.rest = x :: t := List.append_cancel_left (hdash.1.symm.trans hrest)
      cases h
      exact ⟨c.next, hdash, rfl, ClassAtom.takes_read hnext hclose⟩
  · cases h

/-- A member is read by `ClassMember.read` as one of the forms. -/
theorem takes_read {c : Cursor} {x : Char} {t : List Char} (h : c.rest = x :: t)
    (hclose : x ≠ ']') : Takes c (read x c).2 (read x c).1 := by
  have hlow := ClassAtom.takes_read h hclose
  unfold read
  dsimp only
  split
  · rename_i delimiter high later hhigh
    obtain ⟨middle, hdash, rfl, hatom⟩ := takes_of_readHigh? hhigh
    exact .range hlow hdash hatom
  · exact .atom hlow

end ClassMember

/-! ## Classes -/

namespace CharacterClass

/-- Members one after the other. -/
inductive Members : Cursor → List ClassMember → Cursor → Prop where
  /-- No more members. -/
  | nil {c : Cursor} : Members c [] c
  /-- A member and those after it. -/
  | cons {c middle later : Cursor} {m : ClassMember} {ms : List ClassMember}
      (hm : ClassMember.Takes c middle m) (hms : Members middle ms later) :
      Members c (m :: ms) later

/-- The `Members` of a class end at a later place. -/
theorem Members.reaches {c later : Cursor} {ms : List ClassMember} (h : Members c ms later) :
    c.Reaches later := by
  induction h with
  | nil => exact .refl _
  | cons hm hms ih =>
    obtain ⟨x, w, hread⟩ := hm.reads
    exact hread.reaches.trans ih

/-- Every atom of `Members` that stand one after the other is read somewhere among them. -/
theorem Members.takes_of_mem {c later : Cursor} {ms : List ClassMember} (h : Members c ms later) :
    ∀ m ∈ ms, ∀ a ∈ m.atoms, ∃ start stop, c.Reaches start ∧ ClassAtom.Takes start stop a := by
  induction h with
  | nil => exact List.forall_mem_nil _
  | @cons c middle later m ms hm hms ih =>
    refine List.forall_mem_cons.mpr ⟨?_, ?_⟩
    · cases hm with
      | atom ha => exact List.forall_mem_singleton.mpr ⟨c, middle, .refl c, ha⟩
      | range hlow hdash hhigh =>
        obtain ⟨x, w, hread⟩ := hlow.reads
        refine List.forall_mem_cons.mpr ⟨⟨c, _, .refl c, hlow⟩, ?_⟩
        exact List.forall_mem_singleton.mpr ⟨_, middle, (hread.trans hdash).reaches, hhigh⟩
    · intro m hm' a ha
      obtain ⟨x, w, hread⟩ := hm.reads
      obtain ⟨start, stop, hstart, htakes⟩ := ih m hm' a ha
      exact ⟨start, stop, hread.reaches.trans hstart, htakes⟩

/-- The members that `readMembers` reads stand one after the other, and a closing bracket or the end
of input follows them. -/
theorem members_of_readMembers (c : Cursor) :
    Members c (readMembers c).1 (readMembers c).2 ∧
      ∀ x, (readMembers c).2.rest.head? = some x → x = ']' := by
  fun_induction readMembers c with
  | case1 c hrest => exact ⟨.nil, by simp [hrest]⟩
  | case2 c text hrest => exact ⟨.nil, by simp [hrest]⟩
  | case3 c x text hrest hx members later hread ih =>
    rw [hread] at ih
    exact ⟨.cons (ClassMember.takes_read hrest hx) ih.1, ih.2⟩

/-- What a class turns out to be: an opening bracket, perhaps a caret, members, and a closing
bracket unless the input ends first. -/
inductive Takes (c later : Cursor) : CharacterClass → Prop where
  /-- The parts of a class. -/
  | mk {negation closing : Option Span} {members : List ClassMember}
      {inside start stop : Cursor} (hopen : c.Reads ['['] inside)
      (hnegation : Cursor.Skips '^' inside start negation) (hmembers : Members start members stop)
      (hclosing : Cursor.Skips ']' stop later closing)
      (hend : closing = none → later.rest = []) :
      Takes c later ⟨c.spanTo later, c.spanTo inside, negation, members, closing⟩

/-- A class begins with its opening bracket. -/
theorem Takes.reads {c later : Cursor} {s : CharacterClass} (h : Takes c later s) :
    ∃ w, c.Reads ('[' :: w) later := by
  obtain ⟨hopen, hnegation, hmembers, hclosing, -⟩ := h
  obtain ⟨w, hw⟩ := (hnegation.reaches.trans hmembers.reaches).trans hclosing.reaches
  exact ⟨w, hopen.trans hw⟩

/-- A class is read by `CharacterClass.read` in this form. -/
theorem takes_read {c : Cursor} {t : List Char} (h : c.rest = '[' :: t) :
    Takes c (read c).2 (read c).1 := by
  have hnegation := Cursor.skips_skipOptional '^' c.next
  obtain ⟨hmembers, hend⟩ := members_of_readMembers (c.next.skipOptional '^').2
  have hclosing := Cursor.skips_skipOptional ']' (readMembers (c.next.skipOptional '^').2).2
  refine .mk (Cursor.reads_next h) hnegation hmembers hclosing fun hnone => ?_
  -- only a closing bracket can follow the members, so without one the input has ended
  obtain ⟨hlater, hnext⟩ := hclosing.of_none hnone
  refine (congrArg Cursor.rest hlater).trans ?_
  cases hrest : (readMembers (c.next.skipOptional '^').2).2.rest with
  | nil => rfl
  | cons x t => exact absurd (hend x (by simp [hrest])) fun hx => hnext (by simp [hrest, hx])

end CharacterClass

end RegexTree
