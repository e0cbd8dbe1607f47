import RegexTree.Proofs.Derivation
import RegexTree.Proofs.Diagnostics
import RegexTree.Proofs.Grammar.Basic

/-! # Soundness of reading
What is read without complaint is a phrase of the grammar. Each form of an escape, a class, an atom
and so on, unless it is invalid, is an instance of a production; the main statement,
`Derives.disjunction`, follows by induction on derivations. -/

namespace RegexTree

variable {c later : Cursor}

/-! ## Escapes and classes -/

/-- The braces of a property hold its value, or its name and its value. -/
theorem UnicodeProperty.Form.escape {negated : Bool} {x : Char} {inside close : Cursor}
    {p : UnicodeProperty} (hp : Form negated inside close p) (hx : x = 'p' ∨ x = 'P')
    (hopen : c.Reads ['\\', x, '{'] inside) (hclose : close.Reads ['}'] later) :
    Grammar.Escape c.rest later.rest := by
  cases hp with
  | value hword hread =>
    rw [hopen.1, hread.1, hclose.1]
    exact .property hx hword
  | named hname hreadName hoperator hword hread =>
    rw [hopen.1, hreadName.1, hoperator.1, hread.1, hclose.1]
    exact .namedProperty hx hname hword

/-- A valid `Escaped` is an escape of the grammar, or a character that stands for itself, or the
letter for a backspace. -/
theorem Escaped.Takes.escape {inClass : Bool} {e : Escaped} (h : Takes inClass c later e)
    (hvalid : e.invalids = []) :
    Grammar.Escape c.rest later.rest ∨ ∃ x, c.rest = '\\' :: x :: later.rest ∧
      ((x ∈ syntaxChars ∨ x = '/') ∨ inClass = true ∧ (x = '-' ∨ x = 'b')) := by
  cases h with
  | @special x hx hread =>
    rw [hread.1]
    rcases hx with hx | ⟨hclass, rfl⟩
    · exact .inl (.special (by simpa [isSpecialEscape] using hx))
    -- the grammar counts the backspace among the members of classes
    · exact .inr ⟨'b', rfl, .inr ⟨hclass, .inr rfl⟩⟩
  | controlLetter hx hread =>
    rw [hread.1]
    exact .inl (.control hx)
  | @hexadecimal digits hlength hdigits hread =>
    match digits, hlength with
    | [a, b], _ =>
      rw [hread.1]
      exact .inl (.hexadecimal (hdigits a (by simp)) (hdigits b (by simp)))
  | unicode hp hread =>
    rw [hread.1]
    exact .inl (.unicode hp)
  | null hread hnext =>
    rw [hread.1]
    exact .inl (.null hnext)
  | @identity x hx hread =>
    rw [hread.1]
    refine .inr ⟨x, rfl, ?_⟩
    rcases hx with hx | ⟨hclass, rfl⟩
    · exact .inl (isIdentityEscape_iff.mp hx)
    · exact .inr ⟨hclass, .inl rfl⟩
  | predefined hx hread =>
    rw [hread.1]
    exact .inl (.predefined (by simpa [isClassEscape] using hx))
  | property hx hopen hp hclose => exact .inl (hp.escape hx hopen hclose)
  | lone => cases hvalid
  | bad => cases hvalid

/-- A valid `ClassAtom` is a `Grammar.Member`. -/
theorem ClassAtom.Takes.member {a : ClassAtom} (h : Takes c later a) (hvalid : a.invalids = []) :
    Grammar.Member c.rest later.rest := by
  cases h with
  | literal hx hclose hread =>
    rw [hread.1]
    exact .literal hclose hx
  | escaped he =>
    rw [invalids_ofEscaped] at hvalid
    rcases he.escape hvalid with hescape | ⟨x, hrest, hx | ⟨-, rfl | rfl⟩⟩
    · exact .escape hescape
    · rw [hrest]
      rcases hx with hx | hx
      · exact .identity (.inl hx)
      · exact .identity (.inr (.inl hx))
    · rw [hrest]
      exact .identity (.inr (.inr rfl))
    · rw [hrest]
      exact .backspace

/-- Valid members of a class are members of the grammar, three of them for each range. -/
theorem CharacterClass.Members.members {ms : List ClassMember} (h : Members c ms later)
    (hvalid : ms.flatMap (·.invalids) = []) {t : List Char}
    (ht : Grammar.Members later.rest t) : Grammar.Members c.rest t := by
  induction h with
  | nil => exact ht
  | cons hm hms ih =>
    rw [List.flatMap_cons, List.append_eq_nil_iff] at hvalid
    have hrest := ih hvalid.2 ht
    cases hm with
    | atom ha => exact .cons (ha.member hvalid.1) hrest
    | range hlow hdash hhigh =>
      -- both ends and the dash between them are members
      obtain ⟨hlowValid, hhighValid⟩ := List.append_eq_nil_iff.mp hvalid.1
      refine .cons (hlow.member hlowValid) ?_
      rw [hdash.1]
      refine .cons (.literal (by decide) (by decide)) ?_
      exact .cons (hhigh.member hhighValid) hrest

/-- A valid `CharacterClass` is an element of the grammar. -/
theorem CharacterClass.Takes.element {s : CharacterClass} (h : Takes c later s)
    (hvalid : s.invalids = []) : Grammar.Element c.rest later.rest := by
  obtain ⟨hopen, hnegation, hmembers, hclosing, -⟩ := h
  obtain ⟨hvalid, hclosed⟩ := List.append_eq_nil_iff.mp hvalid
  cases hclosing with
  -- a class that is cut off is invalid
  | absent => cases hclosed
  | present hclose =>
    have hms := hmembers.members hvalid .nil
    rw [hclose.1] at hms
    cases hnegation with
    | absent =>
      rw [hopen.1]
      exact .set hms
    | present hcaret =>
      rw [hopen.1, hcaret.1]
      exact .negatedSet hms

/-! ## Quantifiers -/

/-- A `Count` is a `Grammar.Operator`. -/
theorem Count.Takes.operator {count : Count} (h : Takes c later count) :
    Grammar.Operator c.rest later.rest := by
  obtain ⟨hopen, hdigits, hread, hupper, hclose⟩ := h
  rw [hopen.1, hread.1]
  cases hupper with
  | none =>
    rw [hclose.1]
    exact .exact hdigits
  | comma hcomma =>
    rw [hcomma.1, hclose.1]
    exact .bounded hdigits (List.forall_mem_nil _)
  | bound hcomma hmore hreadMore =>
    rw [hcomma.1, hreadMore.1, hclose.1]
    exact .bounded hdigits hmore.2

/-- A `Quantifier` that is read is one of the grammar. -/
theorem Quantifier.Takes.quantifier {q : Quantifier} (h : Takes c later q) :
    Grammar.Quantifier c.rest later.rest := by
  obtain @⟨kind, mark, middle, hkind, hmark⟩ := h
  have hoperator : Grammar.Operator c.rest middle.rest := by
    cases hkind with
    | zeroOrMore hread =>
      rw [hread.1]
      exact .star
    | oneOrMore hread =>
      rw [hread.1]
      exact .plus
    | optional hread =>
      rw [hread.1]
      exact .optional
    | count hcount => exact hcount.operator
  cases hmark with
  | absent => exact .eager hoperator
  | present hread => exact .lazy (by rw [hread.1] at hoperator; exact hoperator)

/-- The text of a quantifier that is read is a quantifier of the grammar. -/
theorem Quantifier.Takes.quantifier_of_reads {q : Quantifier} {w : List Char}
    (h : Takes c later q) (hw : c.Reads w later) : Grammar.Quantifier w [] := by
  obtain ⟨v, hv, hquantifier⟩ := h.quantifier.exists_text
  obtain rfl : w = v := List.append_cancel_right (hw.1.symm.trans hv)
  exact hquantifier

/-- An element and the quantifier that follows it, if one does, are a `Grammar.Term`. -/
theorem Quantifier.Follows.term {q : Option Quantifier} (h : Follows c later q) {s : List Char}
    (he : Grammar.Element s c.rest) : Grammar.Term s later.rest := by
  cases h with
  | absent => exact .once he
  | present hq => exact .repeated he hq.quantifier

/-! ## Elements -/

/-- A valid `Atom` is a `Grammar.Element`. -/
theorem Atom.Takes.element {a : Atom} (h : Takes c later a) (hvalid : a.invalids = []) :
    Grammar.Element c.rest later.rest := by
  cases h with
  | literal hx hread =>
    rw [hread.1]
    exact .literal (isPatternChar_iff.mp hx)
  | anyCharacter hread =>
    rw [hread.1]
    exact .symbol (by decide)
  | atStart hread =>
    rw [hread.1]
    exact .symbol (by decide)
  | atEnd hread =>
    rw [hread.1]
    exact .symbol (by decide)
  | boundary hx hread =>
    rw [hread.1]
    exact .boundary (by simpa [isWordBoundaryMarker] using hx)
  | numeric hd hzero hdigits hread =>
    rw [hread.1]
    exact .number hd hzero hdigits
  | reference hr =>
    cases hr with
    | named hopen hne hw hread hclose =>
      rw [hopen.1, hread.1, hclose.1]
      exact .name hne hw
    | bare => cases hvalid
    | malformed => cases hvalid
  | escaped he =>
    rw [invalids_ofEscaped] at hvalid
    rcases he.escape hvalid with hescape | ⟨x, hrest, hx | ⟨hclass, -⟩⟩
    · exact .escape hescape
    · rw [hrest]
      exact .identity hx
    · cases hclass
  | characterClass hs => exact hs.element hvalid
  | stray => cases hvalid

/-- A valid identifier of a group is an identifier of the grammar. -/
theorem GroupKind.Takes.identifier {kind : GroupKind} (h : Takes c later kind)
    (hvalid : kind.invalids = []) : Grammar.Identifier c.rest later.rest := by
  cases h with
  | plain hword hread =>
    rw [hread.1]
    refine .fixed ?_
    rcases eq_of_mem_identifiers hword with
      ⟨rfl, -⟩ | ⟨rfl, -⟩ | ⟨rfl, -⟩ | ⟨rfl, -⟩ | ⟨rfl, -⟩ <;> decide
  | named hopen hne hw hread hclose =>
    rw [hopen.1, hread.1, hclose.1]
    exact .named hne hw
  | badName => cases hvalid
  | unknown => cases hvalid

/-- A valid opening and the body and the closing parenthesis behind it are an element. -/
theorem GroupOpening.Takes.element {inside close : Cursor} {o : GroupOpening}
    (h : Takes c inside o) (hvalid : o.kind.invalids = [])
    (hbody : Grammar.Disjunction inside.rest close.rest) (hclose : close.Reads [')'] later) :
    Grammar.Element c.rest later.rest := by
  rw [hclose.1] at hbody
  cases h with
  | anonymous hread =>
    rw [hread.1]
    exact .group .none hbody
  | identified hopen hkind =>
    rw [hopen.1]
    exact .group (hkind.identifier hvalid) hbody

/-- A valid `Term` without a group is one of the grammar. -/
theorem Term.Takes.term {nested first : Bool} {t : Term} (h : Takes nested first c later t)
    (hvalid : t.element.invalids = []) : Grammar.Term c.rest later.rest := by
  cases h with
  | atom ha hq =>
    rw [Element.invalids] at hvalid
    exact hq.term (ha.element hvalid)
  -- all other terms make no sense
  | _ => simp [Element.invalids, Atom.invalids] at hvalid

/-! ## Disjunctions -/

/-- The terms and the branches that are derived without complaint are an alternative and the rest of
a disjunction. -/
theorem Derives.alternative {nested first : Bool} {mid : Cursor} {terms : List Term}
    {others : List Branch} (h : Derives nested first c terms mid others later)
    (hterms : Term.invalidsOfAll terms = []) (hothers : Branch.invalidsOfAll others = []) :
    Grammar.Alternative c.rest mid.rest ∧
      ∀ s, Grammar.Alternative s mid.rest → Grammar.Disjunction s later.rest := by
  induction h with
  | stop => exact ⟨.nil, fun s hs => .last hs⟩
  | bar hbar hread hrest ih =>
    -- the alternative ends here, and what follows the bar is a disjunction by itself
    rw [Branch.invalidsOfAll, List.append_eq_nil_iff, Alternative.invalids] at hothers
    obtain ⟨hnext, hdisjunction⟩ := ih hothers.1 hothers.2
    refine ⟨.nil, fun s hs => ?_⟩
    rw [hbar.1] at hs
    exact .bar hs (hdisjunction _ hnext)
  | term hread hterm hrest ih =>
    rw [Term.invalidsOfAll_cons, List.append_eq_nil_iff] at hterms
    obtain ⟨hnext, hdisjunction⟩ := ih hterms.2 hothers
    exact ⟨.cons ((hread.takes_term hterm).term hterms.1) hnext, hdisjunction⟩
  | group ho hread hbody hclose hrest ihbody ih =>
    rw [Term.invalidsOfAll_cons, List.append_eq_nil_iff, Element.invalids, Group.invalids,
      List.append_eq_nil_iff, List.append_eq_nil_iff, Disjunction.invalids,
      List.append_eq_nil_iff, Alternative.invalids] at hterms
    obtain ⟨⟨⟨hkind, hinner⟩, hclosed⟩, hterms⟩ := hterms
    obtain ⟨hbodyAlternative, hbodyDisjunction⟩ := ihbody hinner.1 hinner.2
    obtain ⟨hnext, hdisjunction⟩ := ih hterms hothers
    cases hclose with
    -- a group that is cut off is invalid
    | missing => cases hclosed
    | closed hclose hq =>
      have helement := ho.element hkind (hbodyDisjunction _ hbodyAlternative) hclose
      exact ⟨.cons (hq.term helement) hnext, hdisjunction⟩

/-- What is derived without complaint is a `Grammar.Disjunction`. -/
theorem Derives.disjunction {nested first : Bool} {mid : Cursor} {terms : List Term}
    {others : List Branch} (h : Derives nested first c terms mid others later)
    (hterms : Term.invalidsOfAll terms = []) (hothers : Branch.invalidsOfAll others = []) :
    Grammar.Disjunction c.rest later.rest := by
  obtain ⟨halternative, hdisjunction⟩ := h.alternative hterms hothers
  exact hdisjunction _ halternative

end RegexTree
