import RegexTree.Proofs.Partition
import RegexTree.Proofs.Spans

/-! # Totality of parsing
Parsing from an offset is impossible exactly where no character begins and the text does not end;
otherwise it runs to the end of the text. The main statement collects what a run never violates
(`Reading.IsSafe`): each iteration of a loop goes strictly forward to a boundary between characters,
the pattern can be cut at every place that is reached, all spans mark parts of the pattern, and the
arithmetic on digits and surrogates stays in range. -/

namespace RegexTree

/-! ## Loops -/

/-- The places at which the loop over lexemes stands in a run from a place, and those at which the
loop over the members of a class does. -/
inductive Visits (c : Cursor) : (inClass : Bool) → Cursor → Prop where
  /-- A run begins with the loop over lexemes. -/
  | start : Visits c false c
  /-- A lexeme is read. -/
  | lexeme {d e : Cursor} {l : Lexeme} (hd : Visits c false d) (hread : Lexeme.ReadAt d e l) :
      Visits c false e
  /-- The members of a class begin after its bracket and its caret. -/
  | opening {d : Cursor} {t : List Char} (hd : Visits c false d) (hrest : d.rest = '[' :: t) :
      Visits c true (d.next.skipOptional '^').2
  /-- A member is read. -/
  | member {d : Cursor} {x : Char} {t : List Char} (hd : Visits c true d)
      (hrest : d.rest = x :: t) (hx : x ≠ ']') : Visits c true (ClassMember.read x d).2

/-- In a run from a place, one iteration of a loop leads from a second place to a third. -/
inductive Iterates (c d e : Cursor) : Prop where
  /-- An iteration of the loop over lexemes. -/
  | lexeme {l : Lexeme} (hd : Visits c false d) (hread : Lexeme.ReadAt d e l)
  /-- An iteration of the loop over members. -/
  | member {x : Char} {t : List Char} (hd : Visits c true d) (hrest : d.rest = x :: t)
      (hx : x ≠ ']') (hread : (ClassMember.read x d).2 = e)

/-- A place that a run `Visits` is reached. -/
theorem Visits.reaches {c d : Cursor} {inClass : Bool} (h : Visits c inClass d) : c.Reaches d := by
  induction h with
  | start => exact .refl c
  | lexeme hd hread ih => exact ih.trans hread.reaches
  | @opening d t hd hrest ih =>
    exact ih.trans (d.reaches_next.trans (Cursor.reaches_skipOptional '^' d.next))
  | @member d x t hd hrest hx ih =>
    exact ih.trans (d.reaches_next.trans (ClassMember.reaches_read x d))

/-- Whatever lies beyond `next` lies strictly further on. -/
theorem Cursor.pos_lt_of_reaches_next {c later : Cursor} {x : Char} {t : List Char}
    (h : c.rest = x :: t) (hr : c.next.Reaches later) : c.pos < later.pos := by
  have hx := Char.utf8Size_pos x
  have hnext : c.next.pos = c.pos + x.utf8Size := (Cursor.reads_next h).2
  have hle := hr.pos_le
  omega

/-- What `Iterates` in a loop goes strictly forward. -/
theorem Iterates.pos_lt {c d e : Cursor} (h : Iterates c d e) : d.pos < e.pos := by
  cases h with
  | lexeme hd hread =>
    obtain ⟨x, t, hrest, hread⟩ := hread
    have hr := Lexeme.reaches_read x d
    rw [hread] at hr
    exact Cursor.pos_lt_of_reaches_next hrest hr
  | @member x t hd hrest hx hread =>
    subst hread
    exact Cursor.pos_lt_of_reaches_next hrest (ClassMember.reaches_read x d)

/-- What `Iterates` in a loop leads to a later place of the run. -/
theorem Iterates.reaches {c d e : Cursor} (h : Iterates c d e) : c.Reaches e := by
  cases h with
  | lexeme hd hread => exact (hd.lexeme hread).reaches
  | member hd hrest hx hread =>
    subst hread
    exact (hd.member hrest hx).reaches

/-- The loop over lexemes, `Assembly.readAll`, ends at a place that it visits. -/
theorem visits_readAll (a : Assembly) {b c : Cursor} (h : Visits b false c) :
    Visits b false (a.readAll c).2 := by
  fun_induction Assembly.readAll a c with
  | case1 a c hrest => exact h
  | case2 a c x t hrest ih => exact ih (h.lexeme (Lexeme.readAt_read hrest))

/-! ## Spans -/

/-- The spans of bars and terms of a disjunction mark texts where it is `DerivedAt`. -/
theorem Disjunction.DerivedAt.marks {d : Disjunction} {nested : Bool} {c later : Cursor}
    (h : d.DerivedAt nested c later) : Span.AllMark c later d.solidSpans := by
  obtain ⟨mid, hderives, -⟩ := h
  obtain ⟨hterms, hbars, hothers⟩ := hderives.marks
  -- the first alternative is derived by itself, the others with the bars before them
  refine hbars.append ?_
  rw [alternatives, List.flatMap_cons, List.flatMap_append, List.flatMap_map]
  exact hterms.append hothers

/-- A disjunction and its alternatives lie where the disjunction is `DerivedAt`. -/
theorem Disjunction.DerivedAt.between {d : Disjunction} {nested : Bool} {c later : Cursor}
    (h : d.DerivedAt nested c later) : ∀ s ∈ d.openSpans, s.Between c later := by
  obtain ⟨⟨span, terms⟩, others⟩ := d
  obtain ⟨mid, hderives, rfl⟩ := h
  obtain ⟨hmid, hlater⟩ := hderives.reaches
  intro s hs
  simp only [openSpans, alternatives, List.map_cons, List.map_map, List.mem_cons, List.mem_map,
    Function.comp_apply] at hs
  rcases hs with rfl | rfl | ⟨b, hb, rfl⟩
  · rw [hderives.span_eq]
    exact .whole (hmid.trans hlater)
  · exact (Span.Between.whole hmid).mono (.refl c) hlater
  · exact hderives.between_of_mem b hb

/-! ## Arithmetic -/

/-- Two halves of a surrogate pair are no smaller than what `combineSurrogates` subtracts from them,
and together they are a character. -/
theorem GroupName.isValidChar_combineSurrogates {lead trail : Nat}
    (hlead : isLeadSurrogate lead = true) (htrail : isTrailSurrogate trail = true) :
    0xD800 ≤ lead ∧ 0xDC00 ≤ trail ∧ combineSurrogates lead trail ≤ CodePoint.last ∧
      (combineSurrogates lead trail).isValidChar := by
  simp only [isLeadSurrogate, isTrailSurrogate, Bool.and_eq_true, decide_eq_true_eq] at hlead htrail
  -- a pair lies above the surrogates themselves, so its value is in no gap of the code points
  have hvalue : 0x10000 ≤ combineSurrogates lead trail ∧
      combineSurrogates lead trail ≤ 0x10FFFF := by
    unfold combineSurrogates
    omega
  refine ⟨hlead.1, htrail.1, hvalue.2, .inr ?_⟩
  omega

/-! ## Safety of a run -/

/-- What a run from a place of a pattern never violates. -/
structure Reading.IsSafe (pattern : String) (c : Cursor) : Prop where
  /-- Each iteration of a loop goes strictly forward to a boundary between characters. -/
  iterations : ∀ d e, Iterates c d e →
    d.pos < e.pos ∧ e.pos ≤ pattern.utf8ByteSize ∧ (⟨e.pos⟩ : String.Pos.Raw).IsValid pattern
  /-- Every place that is reached, by whichever reader, is the one that the pattern has at its offset:
  cutting the pattern there is possible and gives what is left to be read. -/
  slices : ∀ d, c.Reaches d → Cursor.ofString? pattern d.pos = some d
  /-- The run ends at the end of the pattern, which the loop over lexemes reaches. -/
  final : Visits c false ((Assembly.startingAt c.pos).readAll c).2 ∧
    ((Assembly.startingAt c.pos).readAll c).2.pos = pattern.utf8ByteSize
  /-- The span of the `Regex` is the whole pattern. -/
  whole : (ofCursor pattern c).regex.span = ⟨0, pattern.utf8ByteSize⟩
  /-- At any depth, terms and their tokens mark parts of the pattern that are not empty. -/
  solid : ∀ d ∈ (ofCursor pattern c).regex.disjunctions, ∀ s ∈ d.solidSpans,
    s.start < s.stop ∧ s.IsPartOf pattern
  /-- At any depth, alternatives and disjunctions mark parts of the pattern. -/
  between : ∀ d ∈ (ofCursor pattern c).regex.disjunctions, ∀ s ∈ d.openSpans, s.IsPartOf pattern
  /-- Every digit of a run of decimal digits is no smaller than the zero that is subtracted. -/
  digits : ∀ d, c.Reaches d → ∀ x ∈ d.run isDecimalDigit,
    48 ≤ x.toNat ∧ x.toNat = 48 + Numeral.digitValue x ∧ Numeral.digitValue x ≤ 9
  /-- Surrogates that are combined are no smaller than what is subtracted, and give a character. -/
  surrogates : ∀ lead trail, GroupName.isLeadSurrogate lead = true →
    GroupName.isTrailSurrogate trail = true → 0xD800 ≤ lead ∧ 0xDC00 ≤ trail ∧
      GroupName.combineSurrogates lead trail ≤ CodePoint.last ∧
        (GroupName.combineSurrogates lead trail).isValidChar

/-- Every run from a place of a pattern is safe. -/
theorem Reading.isSafe {pattern : String} {c : Cursor} (h : (Cursor.ofString pattern).Reaches c) :
    IsSafe pattern c where
  iterations := by
    intro d e hde
    have he := (h.trans hde.reaches).isValid
    exact ⟨hde.pos_lt, String.Pos.Raw.le_iff.mp he.le_rawEndPos, he⟩
  slices := fun _ hd => (h.trans hd).ofString?_pos
  final := by
    have hreach := h.trans (Assembly.reaches_readAll (Assembly.startingAt c.pos) c)
    exact ⟨visits_readAll _ .start, hreach.pos_of_end (Assembly.readAll_rest _ c)⟩
  whole := rfl
  solid := by
    intro d hd s hs
    -- the disjunction is derived from a place that is itself a place of the pattern
    obtain ⟨nested, a, b, ha, hab⟩ := derivedAt_of_mem_disjunctions hd
    have hmarks := hab.marks s hs
    exact ⟨hmarks.start_lt, hmarks.between.isPartOf (h.trans ha)⟩
  between := by
    intro d hd s hs
    obtain ⟨nested, a, b, ha, hab⟩ := derivedAt_of_mem_disjunctions hd
    exact (hab.between s hs).isPartOf (h.trans ha)
  digits := fun d _ x hx => Numeral.toNat_of_isDecimalDigit (Cursor.of_mem_run hx)
  surrogates := fun lead trail hlead htrail =>
    GroupName.isValidChar_combineSurrogates hlead htrail

/-- An offset that is no boundary between characters lies past the end or inside a character. -/
theorem not_isValid_iff (pattern : String) (offset : Nat) :
    ¬ (⟨offset⟩ : String.Pos.Raw).IsValid pattern ↔
      pattern.utf8ByteSize < offset ∨ ¬ (⟨offset⟩ : String.Pos.Raw).IsValid pattern := by
  constructor
  · exact .inr
  · rintro (hlt | hinvalid)
    · intro hvalid
      have hle := String.Pos.Raw.le_iff.mp hvalid.le_rawEndPos
      exact absurd hlt (Nat.not_lt.mpr hle)
    · exact hinvalid

/-- Parsing a pattern from an offset fails exactly where the offset is past the end or inside a
character. Otherwise there is a typed tree and the run to it is safe, and from the beginning all
nodes of the uniform tree mark parts of the pattern and are covered by their children. -/
theorem Regex.parseFrom?_total (pattern : String) (offset : Nat) :
    (parseFrom? pattern offset = none ↔
      pattern.utf8ByteSize < offset ∨ ¬ (⟨offset⟩ : String.Pos.Raw).IsValid pattern) ∧
    ((⟨offset⟩ : String.Pos.Raw).IsValid pattern →
      ∃ c, Cursor.ofString? pattern offset = some c ∧
        parseFrom? pattern offset = some (Reading.ofCursor pattern c).regex ∧
          Reading.IsSafe pattern c) ∧
    ∀ n ∈ (Tree.parse pattern).root.preorder, n.span.IsPartOf pattern ∧
      (n.isBranch = true → Node.covers n.span n.children = true) := by
  refine ⟨?_, ?_, ?_⟩
  -- without a cursor at the offset nothing is parsed
  · rw [← not_isValid_iff, ← Cursor.ofString?_isSome_iff, parseFrom?, Reading.ofOffset?]
    simp
  · intro hvalid
    obtain ⟨c, hc⟩ :=
      Option.isSome_iff_exists.mp ((Cursor.ofString?_isSome_iff pattern offset).mpr hvalid)
    refine ⟨c, hc, ?_, Reading.isSafe (Cursor.reaches_of_ofString? hc)⟩
    simp [parseFrom?, Reading.ofOffset?, hc]
  -- the uniform tree is a tiling, whose nodes all lie between its ends
  · intro n hn
    obtain ⟨later, -, -, htiles⟩ := Tree.tiles_root pattern
    exact ⟨(htiles.between n hn).isPartOf (.refl _), htiles.covers_of_mem n hn⟩

end RegexTree
