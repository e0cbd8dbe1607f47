import RegexTree.Proofs.Grammar.Readers
import RegexTree.Proofs.Grammar.Soundness
import RegexTree.Tree

/-! # The accepted language
What the grammar derives is read without complaint: by induction on the derivation of what is read,
which goes along with the phrase (`Derives.complete`). Together with soundness, a pattern passes the
check exactly if the grammar derives it. -/

namespace RegexTree

variable {c later : Cursor} {t : List Char}

/-- What stands behind a disjunction: nothing, or the closing parenthesis of the group around it. -/
def IsEnd (nested : Bool) (t : List Char) : Prop :=
  ∀ x, t.head? = some x → nested = true ∧ x = ')'

/-- Behind the body of a group stands its closing parenthesis. -/
theorem isEnd_close (t : List Char) : IsEnd true (')' :: t) := by
  rintro x ⟨⟩
  exact ⟨rfl, rfl⟩

variable {nested : Bool}

/-- No operator stands behind a disjunction. -/
theorem IsEnd.head_ne (ht : IsEnd nested t) {x : Char} (hx : x ≠ ')') : t.head? ≠ some x :=
  fun hhead => hx (ht x hhead).2

/-- No digit stands behind a disjunction. -/
theorem IsEnd.not_isDecimalDigit (ht : IsEnd nested t) {x : Char} (hhead : t.head? = some x) :
    isDecimalDigit x = false := by
  rw [(ht x hhead).2]
  decide

/-- A `Grammar.Disjunction` begins with no operator. -/
theorem Grammar.Disjunction.head_ne {s : List Char} (h : Disjunction s t) (ht : IsEnd nested t)
    {x : Char} (hx : x ∈ ['*', '+', '?', '{']) : s.head? ≠ some x := by
  intro hhead
  have hoperator : ∀ y ∈ ['*', '+', '?', '{'], (y ∈ nonStarters ∧ y ≠ '|') ∧ y ≠ ')' :=
    forall_mem_of_all (by decide)
  have heq : s = t := by
    refine h.eq_of_head fun y hy => ?_
    obtain rfl : x = y := Option.some.inj (hhead.symm.trans hy)
    exact (hoperator x hx).1
  exact ht.head_ne (hoperator x hx).2 (heq ▸ hhead)

/-- Behind the quantifier that is read, if one is, stands the rest of the disjunction
(`Grammar.Tail`). -/
theorem Quantifier.Follows.disjunction {q : Option Quantifier} (h : Follows c later q)
    (htail : Grammar.Tail c.rest t) (ht : IsEnd nested t) : Grammar.Disjunction later.rest t := by
  cases htail with
  | once hd =>
    cases h with
    | absent => exact hd
    | present hq =>
      -- a quantifier begins with an operator, the rest of a disjunction does not
      obtain ⟨x, w, hx, hread⟩ := hq.reads
      exact absurd (by rw [hread.1]; rfl) (hd.head_ne ht hx)
  | repeated hgrammar hd =>
    obtain ⟨r, stop, hr, hstop⟩ := hgrammar.exists_takes (hd.head_ne ht (by decide))
    cases h with
    | absent hnone => exact absurd hr (hnone stop r)
    | present hq =>
      -- the reader finds one quantifier only, so it is the one of the grammar
      have heq := (read?_eq_some_iff.mpr hq).symm.trans (read?_eq_some_iff.mpr hr)
      simp only [Option.some.injEq, Prod.mk.injEq] at heq
      rw [heq.2, hstop]
      exact hd

/-- A lexeme that is a term is no bar, no opening, and no closing parenthesis of a group. -/
theorem Lexeme.ReadAt.head_of_term {first : Bool} {l : Lexeme} {v : Term} (h : ReadAt c later l)
    (hv : l.term? nested first = some v) :
    ∃ x s, c.rest = x :: s ∧ read x c = (l, later) ∧ x ≠ '|' ∧ x ≠ '(' ∧
      (nested = true → x ≠ ')') := by
  obtain ⟨x, s, hrest, hread⟩ := h
  refine ⟨x, s, hrest, hread, ?_, ?_, ?_⟩
  · rintro rfl
    rw [read_bar hrest] at hread
    cases hread
    cases hv
  · rintro rfl
    rw [read_open hrest] at hread
    cases hread
    cases hv
  · rintro rfl rfl
    rw [read_close hrest] at hread
    cases hread
    cases hv

/-- Where a `Grammar.Disjunction` stands, a term without a group is read without complaint, and the
rest of the disjunction stands behind it. -/
theorem Lexeme.ReadAt.disjunction {first : Bool} {l : Lexeme} {v : Term} (h : ReadAt c later l)
    (hv : l.term? nested first = some v) (hd : Grammar.Disjunction c.rest t)
    (ht : IsEnd nested t) : v.element.invalids = [] ∧ Grammar.Disjunction later.rest t := by
  obtain ⟨x, s, hrest, hread, hbar, hopen, hclose⟩ := h.head_of_term hv
  -- the disjunction goes on, since a parenthesis that ends it is no term
  have hne : c.rest ≠ t := by
    rintro rfl
    obtain ⟨hnested, hx⟩ := ht x (by rw [hrest]; rfl)
    exact hclose hnested hx
  have hhead : c.rest.head? ≠ some '|' := by simpa [hrest] using hbar
  obtain ⟨u, he, htail⟩ := hd.element_of_head hne hhead
  obtain ⟨y, hy, hstart⟩ := he.head
  obtain rfl : x = y := by simpa [hrest] using hy
  have hatom : x ∉ Atom.nonStarters := by
    simp_all [Atom.nonStarters, Grammar.nonStarters]
  rw [read_atom hrest hatom] at hread
  cases hread
  cases hv
  obtain ⟨hvalid, digits, hdigits, rfl⟩ := Atom.readsTo_of_element hrest hopen he
  -- the reader may have gone beyond the element of the grammar, but only over digits
  have htail := htail.of_digits hdigits fun z hz => ht.not_isDecimalDigit hz
  refine ⟨by rw [Element.invalids, hvalid], ?_⟩
  exact (Quantifier.follows_readOptional _).disjunction htail ht

/-- Where a disjunction stands, a group is opened without complaint, its body stands behind the
opening, and the rest of the disjunction behind the closing parenthesis. -/
theorem Lexeme.ReadAt.body {o : GroupOpening} (h : ReadAt c later (.opening o))
    (hd : Grammar.Disjunction c.rest t) (ht : IsEnd nested t) :
    o.kind.invalids = [] ∧
      ∃ u, Grammar.Disjunction later.rest (')' :: u) ∧ Grammar.Tail u t := by
  obtain ⟨w, hw⟩ : ∃ w, c.Reads ('(' :: w) later := by
    cases h.takes with
    | opening ho => exact ho.reads
  obtain ⟨x, s, hrest, hread⟩ := h
  obtain rfl : '(' = x := (List.cons.inj (hw.1.symm.trans hrest)).1
  have hne : c.rest ≠ t := by
    rintro rfl
    have hhead : c.rest.head? = some '(' := by rw [hrest]; rfl
    exact ht.head_ne (by decide) hhead
  obtain ⟨u, he, htail⟩ := hd.element_of_head hne (by simp [hrest])
  rw [hrest] at he
  obtain ⟨v, hi, hbody⟩ := he.group_of_head
  obtain ⟨hvalid, hinside⟩ :=
    GroupOpening.read_of_identifier hrest hi (hbody.head_ne (isEnd_close u) (by decide))
  rw [read_open hrest] at hread
  cases hread
  exact ⟨hvalid, u, by rw [hinside]; exact hbody, htail⟩

/-- Where a `Grammar.Disjunction` stands, all of it is read, and without complaint. -/
theorem Derives.complete {first : Bool} {mid : Cursor} {terms : List Term} {others : List Branch}
    (h : Derives nested first c terms mid others later) (hd : Grammar.Disjunction c.rest t)
    (ht : IsEnd nested t) :
    Term.invalidsOfAll terms = [] ∧ Branch.invalidsOfAll others = [] ∧ later.rest = t := by
  -- the text that is left behind changes where the derivation goes into a group
  induction h generalizing t with
  | stop hend =>
    refine ⟨rfl, rfl, hd.eq_of_head fun x hx => ?_⟩
    rcases hend with hend | ⟨-, hclose⟩
    · rw [hend] at hx
      cases hx
    · obtain rfl : ')' = x := Option.some.inj (hclose.symm.trans hx)
      decide
  | bar hbar hread hrest ih =>
    rw [hbar.1] at hd
    obtain ⟨hterms, hothers, hlater⟩ := ih (hd.of_bar (ht.head_ne (by decide))) ht
    refine ⟨rfl, ?_, hlater⟩
    rw [Branch.invalidsOfAll, Alternative.invalids, hterms, hothers]
    rfl
  | term hread hterm hrest ih =>
    obtain ⟨hvalid, hnext⟩ := hread.disjunction hterm hd ht
    obtain ⟨hterms, hothers, hlater⟩ := ih hnext ht
    exact ⟨by rw [Term.invalidsOfAll_cons, hvalid, hterms]; rfl, hothers, hlater⟩
  | @group _ _ c inside innerMid bodyEnd close next mid later o innerTerms terms innerOthers others
      closing q ho hread hbody hclose hrest ihbody ih =>
    obtain ⟨hkind, u, hinner, htail⟩ := hread.body hd ht
    obtain ⟨hinnerTerms, hinnerOthers, hend⟩ := ihbody hinner (isEnd_close u)
    cases hclose with
    | missing hmissing =>
      -- the parenthesis of the grammar stands behind the body, so the input has not ended
      rw [hmissing] at hend
      cases hend
    | closed hclose hq =>
      obtain rfl : close.rest = u := (List.cons.inj (hclose.1.symm.trans hend)).2
      obtain ⟨hterms, hothers, hlater⟩ := ih (hq.disjunction htail ht) ht
      refine ⟨?_, hothers, hlater⟩
      rw [Term.invalidsOfAll_cons, Element.invalids, Group.invalids, Disjunction.invalids,
        Alternative.invalids, hkind, hinnerTerms, hinnerOthers, hterms]
      rfl

/-- A pattern makes sense throughout exactly if the grammar derives it. -/
theorem Regex.invalids_parse_eq_nil_iff (pattern : String) :
    (Regex.parse pattern).invalids = [] ↔ Grammar.Disjunction pattern.toList [] := by
  obtain ⟨terms, mid, others, later, h, hend, -⟩ := Regex.exists_derives pattern
  rw [Regex.invalids, h.body_eq, Disjunction.invalids, Alternative.invalids,
    List.append_eq_nil_iff]
  constructor
  · rintro ⟨hterms, hothers⟩
    rw [← hend]
    exact h.disjunction hterms hothers
  · intro hd
    obtain ⟨hterms, hothers, -⟩ := h.complete hd nofun
    exact ⟨hterms, hothers⟩

/-- The accepted language is the grammar: a pattern passes the check, and its tree has no invalid
node, exactly if the grammar derives the pattern. -/
theorem Regex.check_iff_disjunction (pattern : String) :
    ((∃ regex, Regex.check pattern = .ok regex) ↔ Grammar.Disjunction pattern.toList []) ∧
      ((Tree.parse pattern).hasInvalid = false ↔ Grammar.Disjunction pattern.toList []) := by
  constructor
  · rw [← invalids_parse_eq_nil_iff, ← Tree.diagnostics_parse]
    simp only [check_eq_ok_iff, exists_eq_left]
  · rw [Tree.hasInvalid_parse, invalids_parse_eq_nil_iff]

end RegexTree
