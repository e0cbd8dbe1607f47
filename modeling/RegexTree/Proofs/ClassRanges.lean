import RegexTree.Proofs.Isolation
import RegexTree.Proofs.Repair.Derivation

/-! # Ranges in character classes
The body of a class is cut from left to right into atoms (`CutInto`), and members put one atom or
three of them together (`ClassMember.pieces`). The main statement says that no atom is lost in
between, and that a dash delimits a range exactly where the atom before it begins a member and
another atom follows. A dash that is left as a member of its own is therefore the first member, the
last one, or stands behind a range. -/

namespace RegexTree

/-! ## Pieces of a class -/

/-- What an atom does in its member. -/
inductive ClassRole where
  /-- It is the member. -/
  | single
  /-- It is the lower end of a range. -/
  | low
  /-- It is the dash of a range. -/
  | delimiter
  /-- It is the upper end of a range. -/
  | high
  deriving DecidableEq, Repr

/-- An atom of a class and what it does there. -/
structure ClassPiece where
  /-- What the atom does in its member. -/
  role : ClassRole
  /-- The atom, which is a literal dash if it delimits a range. -/
  atom : ClassAtom
  deriving DecidableEq, Repr

/-- The atom is a dash that stands for itself. -/
def ClassAtom.IsDash (a : ClassAtom) : Prop := ∃ span, a = .literal span '-'

/-- A member begins with this piece. -/
def ClassPiece.BeginsMember (p : ClassPiece) : Prop := p.role = .single ∨ p.role = .low

/-- The atom that the member begins with. -/
def ClassMember.low : ClassMember → ClassAtom
  | .atom a => a
  | .range r => r.low

/-- The pieces of a member from left to right. -/
def ClassMember.pieces : ClassMember → List ClassPiece
  | .atom a => [⟨.single, a⟩]
  | .range r => [⟨.low, r.low⟩, ⟨.delimiter, .literal r.delimiter '-'⟩, ⟨.high, r.high⟩]

namespace CharacterClass

/-- The pieces of a class from left to right. -/
def pieces (s : CharacterClass) : List ClassPiece := s.members.flatMap (·.pieces)

/-- Where the members of a class stand, between its opening and its closing bracket. -/
def bodySpan (s : CharacterClass) : Span :=
  ⟨(s.negation.getD s.opening).stop, (s.closing.map (·.start)).getD s.span.stop⟩

/-- What stands at a place of a class is cut into these atoms, up to a closing bracket or the end of
input. -/
inductive CutInto : Cursor → List ClassAtom → Cursor → Prop where
  /-- Nothing but a closing bracket stands there. -/
  | nil {c : Cursor} (hend : ∀ x, c.rest.head? = some x → x = ']') : CutInto c [] c
  /-- A backslash sequence, and what is behind it. -/
  | escaped {c later : Cursor} {t : List Char} {as : List ClassAtom} (hrest : c.rest = '\\' :: t)
      (has : CutInto (Escaped.read true c).2 as later) :
      CutInto c (.ofEscaped (Escaped.read true c).1 :: as) later
  /-- Any other character, and what is behind it. -/
  | literal {c next later : Cursor} {x : Char} {as : List ClassAtom} (hx : x ≠ '\\')
      (hclose : x ≠ ']') (hread : c.Reads [x] next) (has : CutInto next as later) :
      CutInto c (.literal (c.spanTo next) x :: as) later

/-- A single atom stands before another member only if no dash could begin a range behind it: a
member behind it that begins with a dash is only this dash, and the last one. -/
def RangesFormed (ms : List ClassMember) : Prop :=
  ∀ before a m after, ms = before ++ .atom a :: m :: after → m.low.IsDash →
    m = .atom m.low ∧ after = []

end CharacterClass

variable {c later : Cursor} {x : Char} {t : List Char}

/-- What is skipped ends where the reader goes on, and where nothing is skipped it stays. -/
theorem Cursor.Skips.stop_getD {skipped : Option Span} (h : Skips x c later skipped) (s : Span)
    (hs : s.stop = c.pos) : (skipped.getD s).stop = later.pos := by
  cases h with
  | absent => exact hs
  | present => rfl

/-- What is skipped begins where the reader was, and where nothing is skipped it stays. -/
theorem Cursor.Skips.start_getD {skipped : Option Span} (h : Skips x c later skipped) :
    (skipped.map (·.start)).getD later.pos = c.pos := by
  cases h with
  | absent => rfl
  | present => rfl

/-! ## Members that are read -/

/-- A character that is no backslash is read as itself. -/
theorem ClassAtom.read_of_ne (hx : x ≠ '\\') (c : Cursor) :
    read x c = (.literal (c.spanTo c.next) x, c.next) := by
  rw [read, if_neg hx]

/-- Only a dash is read as a dash. -/
theorem ClassAtom.eq_of_isDash_read (h : (read x c).1.IsDash) : x = '-' := by
  obtain ⟨span, hdash⟩ := h
  by_cases hx : x = '\\'
  · rw [read, if_pos hx] at hdash
    change ofEscaped (Escaped.read true c).1 = _ at hdash
    cases hescaped : (Escaped.read true c).1 <;> rw [hescaped] at hdash <;> cases hdash
  · rw [read_of_ne hx] at hdash
    exact (ClassAtom.literal.inj hdash).2

namespace ClassMember

/-- Behind the lower end stand a dash and an atom, and a range is read, or the atom stays single. -/
theorem read_cases (x : Char) (c : Cursor) :
    (∃ y r, (ClassAtom.read x c).2.rest = '-' :: y :: r ∧ y ≠ ']' ∧
      let dash := (ClassAtom.read x c).2
      let high := ClassAtom.read y dash.next
      read x c = (.range ⟨(ClassAtom.read x c).1, dash.spanTo dash.next, high.1⟩, high.2)) ∨
    (readHigh? (ClassAtom.read x c).2 = none ∧
      read x c = (.atom (ClassAtom.read x c).1, (ClassAtom.read x c).2)) := by
  by_cases hdash : ∃ y r, (ClassAtom.read x c).2.rest = '-' :: y :: r ∧ y ≠ ']'
  · obtain ⟨y, r, hrest, hy⟩ := hdash
    refine .inl ⟨y, r, hrest, hy, ?_⟩
    simp only [read, readHigh?_of_dash hrest hy]
  · have hnone : readHigh? (ClassAtom.read x c).2 = none := by
      refine readHigh?_eq_none fun y r hrest => ?_
      exact Decidable.byContradiction fun hy => hdash ⟨y, r, hrest, hy⟩
    refine .inr ⟨hnone, ?_⟩
    simp only [read, hnone]

/-- A member begins with the `ClassAtom` that stands there. -/
theorem low_read (x : Char) (c : Cursor) : (read x c).1.low = (ClassAtom.read x c).1 := by
  rcases read_cases x c with ⟨y, r, -, -, hread⟩ | ⟨-, hread⟩
  · rw [hread]
    rfl
  · rw [hread]
    rfl

end ClassMember

namespace CharacterClass

/-- An atom that is read is the first that its place is cut into. -/
theorem CutInto.of_read {as : List ClassAtom} (hrest : c.rest = x :: t) (hclose : x ≠ ']')
    (has : CutInto (ClassAtom.read x c).2 as later) :
    CutInto c ((ClassAtom.read x c).1 :: as) later := by
  by_cases hx : x = '\\'
  · subst hx
    exact .escaped hrest has
  · rw [ClassAtom.read_of_ne hx] at has ⊢
    exact .literal hx hclose (Cursor.reads_next hrest) has

/-- The pieces of a `ClassMember` that is read are the first that its place is cut into. -/
theorem CutInto.of_readMember {as : List ClassAtom} (hrest : c.rest = x :: t) (hclose : x ≠ ']')
    (has : CutInto (ClassMember.read x c).2 as later) :
    CutInto c ((ClassMember.read x c).1.pieces.map (·.atom) ++ as) later := by
  rcases ClassMember.read_cases x c with ⟨y, r, hdash, hy, hread⟩ | ⟨-, hread⟩
  · rw [hread] at has ⊢
    have hhigh := CutInto.of_read (Cursor.rest_next hdash) hy has
    have hdelimiter := CutInto.literal (by decide) (by decide) (Cursor.reads_next hdash) hhigh
    exact .of_read hrest hclose hdelimiter
  · rw [hread] at has ⊢
    exact .of_read hrest hclose has

/-- The pieces of `readMembers` are what their place is cut into. -/
theorem cutInto_readMembers (c : Cursor) :
    CutInto c (((readMembers c).1.flatMap (·.pieces)).map (·.atom)) (readMembers c).2 := by
  fun_induction readMembers c with
  | case1 c hrest => exact .nil (by simp [hrest])
  | case2 c text hrest => exact .nil (by simp [hrest])
  | case3 c x text hrest hx members later hread ih =>
    rw [hread] at ih
    rw [List.flatMap_cons, List.map_append]
    exact .of_readMember hrest hx ih

/-- Where no upper end of a range can be read, a member that begins with a dash is only the dash,
and no other member is behind it. -/
theorem readMembers_of_dash {m : ClassMember} {after : List ClassMember}
    (hnone : ClassMember.readHigh? c = none) (hmembers : (readMembers c).1 = m :: after)
    (hdash : m.low.IsDash) : m = .atom m.low ∧ after = [] := by
  cases hrest : c.rest with
  | nil =>
    rw [readMembers_of_closes (hrest ▸ .nil)] at hmembers
    cases hmembers
  | cons y t =>
    by_cases hy : y = ']'
    · rw [readMembers_of_closes (by rw [hrest, hy]; exact .bracket t)] at hmembers
      cases hmembers
    · rw [readMembers_of_rest hrest hy] at hmembers
      obtain ⟨rfl, rfl⟩ := List.cons.inj hmembers
      rw [ClassMember.low_read] at hdash
      obtain rfl := ClassAtom.eq_of_isDash_read hdash
      -- behind the dash the class ends, since otherwise it would delimit a range
      have hcloses : ClosesClass c.next.rest := by
        rw [Cursor.rest_next hrest]
        intro z hz
        obtain ⟨r, rfl⟩ := List.head?_eq_some_iff.mp hz
        refine Decidable.byContradiction fun hne => ?_
        rw [ClassMember.readHigh?_of_dash hrest hne] at hnone
        cases hnone
      have hread : ClassMember.read '-' c = (.atom (.literal (c.spanTo c.next) '-'), c.next) := by
        rcases ClassMember.read_cases '-' c with ⟨y, r, hmore, -⟩ | ⟨-, hread⟩
        · have hmore' : c.next.rest = '-' :: y :: r := hmore
          exact absurd (hcloses '-' (by rw [hmore']; rfl)) (by decide)
        · exact hread
      rw [hread, readMembers_of_closes hcloses]
      exact ⟨rfl, rfl⟩

/-- Members are read so that every dash that can delimit a range does (`RangesFormed`). -/
theorem rangesFormed_readMembers (c : Cursor) : RangesFormed (readMembers c).1 := by
  fun_induction readMembers c with
  | case1 =>
    intro before a m after hsplit
    simp at hsplit
  | case2 =>
    intro before a m after hsplit
    simp at hsplit
  | case3 c x text hrest hx members later hread ih =>
    rw [hread] at ih
    intro before a m after hsplit hdash
    cases before with
    | nil =>
      obtain ⟨hatom, rfl⟩ := List.cons.inj hsplit
      rcases ClassMember.read_cases x c with ⟨y, r, -, -, hmember⟩ | ⟨hnone, hmember⟩
      · rw [hmember] at hatom
        cases hatom
      · rw [hmember] at hread
        exact readMembers_of_dash hnone (congrArg Prod.fst hread) hdash
    | cons b before => exact ih before a m after (List.cons.inj hsplit).2 hdash

/-! ## Dashes -/

/-- A dash that is a member of its own is the first member or the last one, or stands behind a
range. -/
theorem RangesFormed.single_dash {ms before after : List ClassMember} {span : Span}
    (h : RangesFormed ms) (hms : ms = before ++ .atom (.literal span '-') :: after) :
    before = [] ∨ after = [] ∨ ∃ r, before.getLast? = some (.range r) := by
  rcases List.eq_nil_or_concat before with rfl | ⟨init, m, rfl⟩
  · exact .inl rfl
  · cases m with
    | range r => exact .inr (.inr ⟨r, by simp⟩)
    | atom a =>
      have hsplit : ms = init ++ .atom a :: .atom (.literal span '-') :: after := by
        rw [hms, List.concat_eq_append, List.append_assoc]
        rfl
      exact .inr (.inl (h init a _ after hsplit ⟨span, rfl⟩).2)

/-- A piece of a class is a piece of one of its members. -/
theorem exists_of_pieces_eq {ms : List ClassMember} {before after : List ClassPiece}
    {p : ClassPiece} (h : ms.flatMap (·.pieces) = before ++ p :: after) :
    ∃ init m rest front back, ms = init ++ m :: rest ∧ m.pieces = front ++ p :: back ∧
      before = init.flatMap (·.pieces) ++ front ∧ after = back ++ rest.flatMap (·.pieces) := by
  induction ms generalizing before with
  | nil => simp at h
  | cons m ms ih =>
    rw [List.flatMap_cons] at h
    rcases List.append_eq_append_iff.mp h with ⟨front, rfl, hrest⟩ | ⟨back, hm, hafter⟩
    · obtain ⟨init, m', rest, front, back, rfl, hpieces, rfl, rfl⟩ := ih hrest
      exact ⟨m :: init, m', rest, front, back, rfl, hpieces, by simp, rfl⟩
    · cases back with
      | nil =>
        have hrest : ms.flatMap (·.pieces) = [] ++ p :: after := hafter.symm
        obtain ⟨init, m', rest, front, back, rfl, hpieces, hinit, rfl⟩ := ih hrest
        refine ⟨m :: init, m', rest, front, back, rfl, hpieces, ?_, rfl⟩
        rw [List.flatMap_cons, List.append_assoc, ← hinit, hm, List.append_nil, List.append_nil]
      | cons q back =>
        obtain ⟨rfl, rfl⟩ := List.cons.inj hafter
        exact ⟨[], m, ms, before, back, rfl, hm, rfl, rfl⟩

/-- The last of the `pieces` of members in a row is the last one of the last member. -/
theorem getLast?_pieces (init : List ClassMember) (m : ClassMember) :
    ((init ++ [m]).flatMap (·.pieces)).getLast? = m.pieces.getLast? := by
  cases m with
  | atom a => simp [ClassMember.pieces]
  | range r => simp [ClassMember.pieces]

/-- A dash that is a member of its own, behind a piece that a member begins with, is the last
member. -/
theorem RangesFormed.eq_nil_of_single {init rest : List ClassMember} {a : ClassAtom}
    {q : ClassPiece} (h : RangesFormed (init ++ .atom a :: rest)) (hdash : a.IsDash)
    (hq : (init.flatMap (·.pieces)).getLast? = some q) (hbegins : q.BeginsMember) : rest = [] := by
  rcases List.eq_nil_or_concat init with rfl | ⟨init, m, rfl⟩
  · cases hq
  · rw [List.concat_eq_append, getLast?_pieces] at hq
    cases m with
    | atom b => exact (h init b (.atom a) rest (by simp) hdash).2
    | range r =>
      -- the last piece of a range is its upper end
      cases hq
      rcases hbegins with hrole | hrole <;> cases hrole

/-- A dash delimits a range exactly where a member begins with the piece before it and the piece
behind it is another atom. -/
theorem RangesFormed.delimiter_iff {ms : List ClassMember} {before after : List ClassPiece}
    {p : ClassPiece} (h : RangesFormed ms) (hpieces : ms.flatMap (·.pieces) = before ++ p :: after)
    (hdash : p.atom.IsDash) :
    p.role = .delimiter ↔ (∃ q, before.getLast? = some q ∧ q.BeginsMember) ∧
      ∃ q, after.head? = some q ∧ q.role ≠ .delimiter := by
  obtain ⟨init, m, rest, front, back, rfl, hm, rfl, rfl⟩ := exists_of_pieces_eq hpieces
  cases m with
  | atom a =>
    obtain ⟨rfl, rfl, rfl⟩ : front = [] ∧ p = ⟨.single, a⟩ ∧ back = [] := by
      simpa [ClassMember.pieces, List.singleton_eq_append_iff] using hm
    refine iff_of_false (by simp) ?_
    rintro ⟨⟨q, hq, hbegins⟩, r, hr, -⟩
    rw [List.append_nil] at hq
    obtain rfl := h.eq_nil_of_single hdash hq hbegins
    cases hr
  | range r =>
    rw [ClassMember.pieces] at hm
    -- the piece is the lower end, the dash in between or the upper end
    rcases front with _ | ⟨low, _ | ⟨dash, _ | ⟨high, front⟩⟩⟩
    · cases hm
      refine iff_of_false (by simp) ?_
      rintro ⟨-, q, hq, hrole⟩
      cases hq
      exact hrole rfl
    · cases hm
      exact iff_of_true rfl ⟨⟨_, List.getLast?_concat, .inr rfl⟩, _, rfl, by simp⟩
    · cases hm
      refine iff_of_false (by simp) ?_
      rintro ⟨⟨q, hq, hbegins⟩, -⟩
      rw [List.getLast?_append] at hq
      cases hq
      rcases hbegins with hrole | hrole <;> cases hrole
    · simp at hm

/-! ## Texts -/

/-- What a place is cut into lies behind it. -/
theorem CutInto.reaches {as : List ClassAtom} (h : CutInto c as later) : c.Reaches later := by
  induction h with
  | nil => exact .refl _
  | escaped hrest has ih =>
    exact ((Cursor.reaches_next _).trans (Escaped.reaches_read true _)).trans ih
  | literal hx hclose hread has ih => exact hread.reaches.trans ih

/-- The atoms that a text is cut into have the whole text between them. -/
theorem CutInto.text_eq {source : String} {as : List ClassAtom} (h : CutInto c as later)
    (hc : (Cursor.ofString source).Reaches c) :
    as.flatMap (fun a => (a.span.textIn source).toList) =
      ((c.spanTo later).textIn source).toList := by
  have hfirst : ∀ {c middle later : Cursor} {span : Span}, (Cursor.ofString source).Reaches c →
      c.Reaches middle → middle.Reaches later → span = c.spanTo middle →
        (span.textIn source).toList ++ ((middle.spanTo later).textIn source).toList =
          ((c.spanTo later).textIn source).toList := by
    rintro c middle later span hc ⟨w, hw⟩ ⟨v, hv⟩ rfl
    rw [hc.toList_textIn hw, (hc.trans hw.reaches).toList_textIn hv, hc.toList_textIn (hw.trans hv)]
  induction h with
  | nil => exact (hc.toList_textIn (.refl _)).symm
  | @escaped c later t as hrest has ih =>
    have hreach := c.reaches_next.trans (Escaped.reaches_read true c)
    have hspan := (ClassAtom.Takes.escaped (Escaped.takes_read hrest)).span_eq
    rw [List.flatMap_cons, ih (hc.trans hreach), hfirst hc hreach has.reaches hspan]
  | literal hx hclose hread has ih =>
    rw [List.flatMap_cons, ih (hc.trans hread.reaches)]
    exact hfirst hc hread.reaches has.reaches rfl

/-- The `bodySpan` of a class that is read stands behind its opening bracket and caret. -/
theorem bodySpan_read (c : Cursor) :
    (read c).1.bodySpan = (c.next.skipOptional '^').2.spanTo (afterMembers c) := by
  have hstart := (Cursor.skips_skipOptional '^' c.next).stop_getD (c.spanTo c.next) rfl
  have hstop := (Cursor.skips_skipOptional ']' (afterMembers c)).start_getD
  rw [bodySpan, read_eq]
  dsimp only [Cursor.spanTo] at hstart hstop ⊢
  rw [hstart, hstop]

end CharacterClass

/-! ## Classes of a pattern -/

/-- Every class of a pattern, at any depth, is read where its opening bracket stands. -/
theorem Regex.exists_read_of_class {pattern : String} {u : Term} {s : CharacterClass}
    (hu : u ∈ (parse pattern).terms) (hs : u.element = .atom (.characterClass s)) :
    ∃ c, (Cursor.ofString pattern).Reaches c ∧ s = (CharacterClass.read c).1 := by
  obtain ⟨nested, first, a, b, ha, hstands⟩ := standsAt_of_mem_terms hu
  obtain ⟨element, q⟩ := u
  cases hs
  cases hstands with
  | lexeme hread hterm =>
    obtain rfl := Lexeme.eq_of_term?_class hterm
    obtain ⟨r, -, hclass, -⟩ := hread.eq_class
    exact ⟨a, ha, hclass⟩

/-- How the pieces of a class follow from its text. -/
structure CharacterClass.IsWellCut (source : String) (s : CharacterClass) : Prop where
  /-- The atoms of the pieces are what the body of the class is cut into from left to right. -/
  cut : ∃ start stop, (Cursor.ofString source).Reaches start ∧ s.bodySpan = start.spanTo stop ∧
    CutInto start (s.pieces.map (·.atom)) stop
  /-- Together the pieces are the text of the body. -/
  text : s.pieces.flatMap (fun p => (p.atom.span.textIn source).toList) =
    (s.bodySpan.textIn source).toList
  /-- A dash delimits a range exactly where a member begins with the piece before it and the piece
  behind it is another atom. -/
  delimiter : ∀ before p after, s.pieces = before ++ p :: after → p.atom.IsDash →
    (p.role = .delimiter ↔ (∃ q, before.getLast? = some q ∧ q.BeginsMember) ∧
      ∃ q, after.head? = some q ∧ q.role ≠ .delimiter)
  /-- A dash that is a member of its own is the first member or the last one, or stands behind a
  range. -/
  single : ∀ before span after, s.members = before ++ .atom (.literal span '-') :: after →
    before = [] ∨ after = [] ∨ ∃ r, before.getLast? = some (.range r)

/-- In every class of a pattern, at any depth, no atom is lost and dashes delimit all the ranges
that they can. -/
theorem Regex.class_isWellCut {pattern : String} {u : Term} {s : CharacterClass}
    (hu : u ∈ (parse pattern).terms) (hs : u.element = .atom (.characterClass s)) :
    s.IsWellCut pattern := by
  obtain ⟨c, hc, rfl⟩ := exists_read_of_class hu hs
  have hstart : (Cursor.ofString pattern).Reaches (c.next.skipOptional '^').2 :=
    (hc.trans c.reaches_next).trans (Cursor.reaches_skipOptional '^' c.next)
  have hcut := CharacterClass.cutInto_readMembers (c.next.skipOptional '^').2
  have hformed := CharacterClass.rangesFormed_readMembers (c.next.skipOptional '^').2
  refine ⟨⟨_, _, hstart, CharacterClass.bodySpan_read c, hcut⟩, ?_, ?_, ?_⟩
  · have htext := hcut.text_eq hstart
    rw [List.flatMap_map] at htext
    rw [CharacterClass.bodySpan_read]
    exact htext
  · intro before p after hpieces hdash
    exact hformed.delimiter_iff hpieces hdash
  · intro before span after hmembers
    exact hformed.single_dash hmembers

/-- A class with dashes at its beginning, in the middle and at its end: the second one delimits a
range, the last two are members of their own. -/
theorem Regex.class_isWellCut_dashes :
    let s : CharacterClass := (CharacterClass.read (.ofString "[^--a--]")).1
    let u : Term := ⟨.atom (.characterClass s), none⟩
    u ∈ (parse "[^--a--]").terms ∧ u.element = .atom (.characterClass s) ∧
      s.pieces.map (·.role) = [.low, .delimiter, .high, .single, .single] ∧
      s.IsWellCut "[^--a--]" := by
  intro s u
  have hu : u ∈ (parse "[^--a--]").terms := by decide +kernel
  exact ⟨hu, rfl, by decide +kernel, class_isWellCut hu rfl⟩

end RegexTree
