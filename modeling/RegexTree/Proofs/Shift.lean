import RegexTree.Lexeme
import RegexTree.Regex.Basic

/-! # Shifted trees
A part of a pattern that is moved to a later offset keeps everything but its spans, all of which
move by the same number of bytes (`Span.shift`). The main statements say that moving by nothing
changes nothing and how the spans and the parts of what is moved are found. -/

namespace RegexTree

/-! ## Escapes and classes -/

/-- The same `Invalid` with more bytes in front. -/
def Invalid.shift (n : Nat) (i : Invalid) : Invalid := ⟨i.span.shift n, i.reason⟩

/-- The same word with more bytes in front. -/
def PropertyToken.shift (n : Nat) (t : PropertyToken) : PropertyToken := ⟨t.text, t.span.shift n⟩

/-- The same name with more bytes in front. -/
def PropertyName.shift (n : Nat) (p : PropertyName) : PropertyName :=
  ⟨p.token.shift n, p.operator.shift n⟩

/-- The same property with more bytes in front. -/
def UnicodeProperty.shift (n : Nat) (p : UnicodeProperty) : UnicodeProperty :=
  ⟨p.negated, p.name.map (·.shift n), p.value.shift n⟩

/-- The same escaped character with more bytes in front. -/
def Escape.shift (n : Nat) (e : Escape) : Escape := ⟨e.span.shift n, e.kind⟩

/-- The same kind of escaped set with more bytes in front. -/
def ClassEscapeKind.shift (n : Nat) : ClassEscapeKind → ClassEscapeKind
  | predefined letter => predefined letter
  | property p => property (p.shift n)

/-- The same escaped set with more bytes in front. -/
def ClassEscape.shift (n : Nat) (e : ClassEscape) : ClassEscape :=
  ⟨e.span.shift n, e.kind.shift n⟩

/-- The same `Escaped` with more bytes in front. -/
def Escaped.shift (n : Nat) : Escaped → Escaped
  | character e => character (e.shift n)
  | set e => set (e.shift n)
  | invalid i => invalid (i.shift n)

/-- The same atom of a class with more bytes in front. -/
def ClassAtom.shift (n : Nat) : ClassAtom → ClassAtom
  | literal span value => literal (span.shift n) value
  | escape e => escape (e.shift n)
  | classEscape e => classEscape (e.shift n)
  | invalid i => invalid (i.shift n)

/-- The same range with more bytes in front. -/
def ClassRange.shift (n : Nat) (r : ClassRange) : ClassRange :=
  ⟨r.low.shift n, r.delimiter.shift n, r.high.shift n⟩

/-- The same `ClassMember` with more bytes in front. -/
def ClassMember.shift (n : Nat) : ClassMember → ClassMember
  | atom a => atom (a.shift n)
  | range r => range (r.shift n)

/-- The same class with more bytes in front. -/
def CharacterClass.shift (n : Nat) (c : CharacterClass) : CharacterClass :=
  ⟨c.span.shift n, c.opening.shift n, c.negation.map (·.shift n), c.members.map (·.shift n),
    c.closing.map (·.shift n)⟩

/-! ## Names, quantifiers and atoms -/

/-- The same name with more bytes in front. -/
def GroupName.shift (n : Nat) (g : GroupName) : GroupName := ⟨g.name, g.span.shift n⟩

/-- The same reference with more bytes in front. -/
def Backreference.shift (n : Nat) : Backreference → Backreference
  | numeric span index => numeric (span.shift n) index
  | named span name => named (span.shift n) (name.shift n)

/-- The same bound with more bytes in front. -/
def Bound.shift (n : Nat) (b : Bound) : Bound := ⟨b.value, b.span.shift n⟩

/-- The same upper part with more bytes in front. -/
def UpperPart.shift (n : Nat) (u : UpperPart) : UpperPart :=
  ⟨u.delimiter.shift n, u.max.map (·.shift n)⟩

/-- The same count with more bytes in front. -/
def Count.shift (n : Nat) (c : Count) : Count := ⟨c.min.shift n, c.upper.map (·.shift n)⟩

/-- The same operator with more bytes in front. -/
def QuantifierKind.shift (n : Nat) : QuantifierKind → QuantifierKind
  | count c => count (c.shift n)
  | kind => kind

/-- The same quantifier with more bytes in front. -/
def Quantifier.shift (n : Nat) (q : Quantifier) : Quantifier :=
  ⟨q.kind.shift n, q.operator.shift n, q.lazyMark.map (·.shift n)⟩

/-- The same `Atom` with more bytes in front. -/
def Atom.shift (n : Nat) : Atom → Atom
  | literal span value => literal (span.shift n) value
  | anyCharacter span => anyCharacter (span.shift n)
  | assertion span kind => assertion (span.shift n) kind
  | escape e => escape (e.shift n)
  | classEscape e => classEscape (e.shift n)
  | characterClass c => characterClass (c.shift n)
  | backreference b => backreference (b.shift n)
  | invalid i => invalid (i.shift n)

/-! ## Groups and lexemes -/

/-- The same identifier with more bytes in front. -/
def GroupKind.shift (n : Nat) : GroupKind → GroupKind
  | anonymous => anonymous
  | nonCapturing span => nonCapturing (span.shift n)
  | named span name => named (span.shift n) (name.shift n)
  | lookahead span => lookahead (span.shift n)
  | negativeLookahead span => negativeLookahead (span.shift n)
  | lookbehind span => lookbehind (span.shift n)
  | negativeLookbehind span => negativeLookbehind (span.shift n)
  | malformed i => malformed (i.shift n)

/-- The same opening with more bytes in front. -/
def GroupOpening.shift (n : Nat) (o : GroupOpening) : GroupOpening :=
  ⟨o.parenthesis.shift n, o.kind.shift n⟩

/-- The same `Lexeme` with more bytes in front. -/
def Lexeme.shift (n : Nat) : Lexeme → Lexeme
  | bar span => bar (span.shift n)
  | opening o => opening (o.shift n)
  | closing span q => closing (span.shift n) (q.map (·.shift n))
  | atom a q => atom (a.shift n) (q.map (·.shift n))
  | strayQuantifier span => strayQuantifier (span.shift n)
  | strayBrace i => strayBrace (i.shift n)

mutual

/-- The same disjunction with more bytes in front. -/
def Disjunction.shift (n : Nat) : Disjunction → Disjunction
  | ⟨first, others⟩ => ⟨first.shift n, Branch.shiftAll n others⟩

/-- The same bars and alternatives with more bytes in front, in the recursion of
`Disjunction.shift`. -/
def Branch.shiftAll (n : Nat) : List Branch → List Branch
  | [] => []
  | ⟨bar, alternative⟩ :: others => ⟨bar.shift n, alternative.shift n⟩ :: Branch.shiftAll n others

/-- The same alternative with more bytes in front. -/
def Alternative.shift (n : Nat) : Alternative → Alternative
  | ⟨span, terms⟩ => ⟨span.shift n, Term.shiftAll n terms⟩

/-- The same terms with more bytes in front, in the recursion of `Disjunction.shift`. -/
def Term.shiftAll (n : Nat) : List Term → List Term
  | [] => []
  | ⟨element, q⟩ :: terms => ⟨element.shift n, q.map (·.shift n)⟩ :: Term.shiftAll n terms

/-- The same element with more bytes in front. -/
def Element.shift (n : Nat) : Element → Element
  | .atom a => .atom (a.shift n)
  | .group g => .group (g.shift n)

/-- The same group with more bytes in front. -/
def Group.shift (n : Nat) : Group → Group
  | ⟨span, opening, body, closing⟩ =>
    ⟨span.shift n, opening.shift n, body.shift n, closing.map (·.shift n)⟩

end

/-- The same term with more bytes in front. -/
def Term.shift (n : Nat) (t : Term) : Term := ⟨t.element.shift n, t.quantifier.map (·.shift n)⟩

/-- The same branch with more bytes in front. -/
def Branch.shift (n : Nat) (b : Branch) : Branch := ⟨b.bar.shift n, b.alternative.shift n⟩

/-! ## Parts of what is moved -/

/-- Terms are moved by `shiftAll` one by one. -/
theorem Term.shiftAll_eq_map (n : Nat) (terms : List Term) :
    shiftAll n terms = terms.map (·.shift n) := by
  induction terms with
  | nil => rw [shiftAll, List.map_nil]
  | cons t terms ih =>
    obtain ⟨element, q⟩ := t
    rw [shiftAll, ih, List.map_cons, Term.shift]

/-- Terms are moved by `shiftAll` where the first and the others are. -/
theorem Term.shiftAll_cons (n : Nat) (t : Term) (terms : List Term) :
    shiftAll n (t :: terms) = t.shift n :: shiftAll n terms := by
  rw [shiftAll_eq_map, shiftAll_eq_map, List.map_cons]

/-- Branches are moved by `shiftAll` one by one. -/
theorem Branch.shiftAll_eq_map (n : Nat) (others : List Branch) :
    shiftAll n others = others.map (·.shift n) := by
  induction others with
  | nil => rw [shiftAll, List.map_nil]
  | cons b others ih =>
    obtain ⟨bar, alternative⟩ := b
    rw [shiftAll, ih, List.map_cons, Branch.shift]

/-- A disjunction that is moved by `shift` has the first alternative moved. -/
theorem Disjunction.first_shift (n : Nat) (d : Disjunction) :
    (d.shift n).first = d.first.shift n := by
  obtain ⟨first, others⟩ := d
  rw [Disjunction.shift]

/-- A disjunction that is moved by `shift` has its `alternatives` moved. -/
theorem Disjunction.alternatives_shift (n : Nat) (d : Disjunction) :
    (d.shift n).alternatives = d.alternatives.map (·.shift n) := by
  obtain ⟨first, others⟩ := d
  rw [Disjunction.shift, Branch.shiftAll_eq_map, alternatives, alternatives, List.map_cons,
    List.map_map, List.map_map]
  rfl

/-- A disjunction that is moved by `shift` has its `bars` moved. -/
theorem Disjunction.bars_shift (n : Nat) (d : Disjunction) :
    (d.shift n).bars = d.bars.map (·.shift n) := by
  obtain ⟨first, others⟩ := d
  rw [Disjunction.shift, Branch.shiftAll_eq_map, bars, bars, List.map_map, List.map_map]
  rfl

/-! ## Moving by nothing -/

/-- An invalid span that is moved by nothing stays as it is. -/
@[simp] theorem Invalid.shift_zero (i : Invalid) : i.shift 0 = i := rfl

/-- A word that is moved by nothing stays as it is. -/
@[simp] theorem PropertyToken.shift_zero (t : PropertyToken) : t.shift 0 = t := rfl

/-- A name that is moved by nothing stays as it is. -/
@[simp] theorem PropertyName.shift_zero (p : PropertyName) : p.shift 0 = p := rfl

/-- A property that is moved by nothing stays as it is. -/
@[simp] theorem UnicodeProperty.shift_zero (p : UnicodeProperty) : p.shift 0 = p := by
  simp [shift]

/-- An escaped character that is moved by nothing stays as it is. -/
@[simp] theorem Escape.shift_zero (e : Escape) : e.shift 0 = e := rfl

/-- An escaped set that is moved by nothing stays as it is. -/
@[simp] theorem ClassEscape.shift_zero (e : ClassEscape) : e.shift 0 = e := by
  obtain ⟨span, letter | p⟩ := e <;> simp [shift, ClassEscapeKind.shift]

/-- An atom of a class that is moved by nothing stays as it is. -/
@[simp] theorem ClassAtom.shift_zero (a : ClassAtom) : a.shift 0 = a := by
  cases a <;> simp [shift]

/-- A member that is moved by nothing stays as it is. -/
@[simp] theorem ClassMember.shift_zero (m : ClassMember) : m.shift 0 = m := by
  cases m <;> simp [shift, ClassRange.shift]

/-- A class that is moved by nothing stays as it is. -/
@[simp] theorem CharacterClass.shift_zero (c : CharacterClass) : c.shift 0 = c := by
  simp [shift]

/-- A name of a group that is moved by nothing stays as it is. -/
@[simp] theorem GroupName.shift_zero (g : GroupName) : g.shift 0 = g := rfl

/-- A reference that is moved by nothing stays as it is. -/
@[simp] theorem Backreference.shift_zero (b : Backreference) : b.shift 0 = b := by
  cases b <;> simp [shift]

/-- A bound that is moved by nothing stays as it is. -/
@[simp] theorem Bound.shift_zero (b : Bound) : b.shift 0 = b := rfl

/-- An upper part that is moved by nothing stays as it is. -/
@[simp] theorem UpperPart.shift_zero (u : UpperPart) : u.shift 0 = u := by
  simp [shift]

/-- An operator that is moved by nothing stays as it is. -/
@[simp] theorem QuantifierKind.shift_zero (kind : QuantifierKind) : kind.shift 0 = kind := by
  cases kind <;> simp [shift, Count.shift]

/-- A quantifier that is moved by nothing stays as it is. -/
@[simp] theorem Quantifier.shift_zero (q : Quantifier) : q.shift 0 = q := by
  simp [shift]

/-- An atom that is moved by nothing stays as it is. -/
@[simp] theorem Atom.shift_zero (a : Atom) : a.shift 0 = a := by
  cases a <;> simp [shift]

/-- An opening that is moved by nothing stays as it is. -/
@[simp] theorem GroupOpening.shift_zero (o : GroupOpening) : o.shift 0 = o := by
  obtain ⟨parenthesis, kind⟩ := o
  cases kind <;> simp [shift, GroupKind.shift]

/-- A lexeme that is moved by nothing stays as it is. -/
@[simp] theorem Lexeme.shift_zero (l : Lexeme) : l.shift 0 = l := by
  cases l <;> simp [shift]

mutual

/-- A disjunction that is moved by nothing stays as it is. -/
theorem Disjunction.shift_zero : (d : Disjunction) → d.shift 0 = d
  | ⟨first, others⟩ => by
    rw [Disjunction.shift, Alternative.shift_zero first, Branch.shiftAll_zero others]

/-- Branches that are moved by nothing stay as they are. -/
theorem Branch.shiftAll_zero : (others : List Branch) → Branch.shiftAll 0 others = others
  | [] => by rw [Branch.shiftAll]
  | ⟨bar, alternative⟩ :: others => by
    rw [Branch.shiftAll, Alternative.shift_zero alternative, Branch.shiftAll_zero others,
      Span.shift_zero]

/-- An alternative that is moved by nothing stays as it is. -/
theorem Alternative.shift_zero : (a : Alternative) → a.shift 0 = a
  | ⟨span, terms⟩ => by rw [Alternative.shift, Term.shiftAll_zero terms, Span.shift_zero]

/-- Terms that are moved by nothing stay as they are. -/
theorem Term.shiftAll_zero : (terms : List Term) → Term.shiftAll 0 terms = terms
  | [] => by rw [Term.shiftAll]
  | ⟨element, q⟩ :: terms => by
    rw [Term.shiftAll, Element.shift_zero element, Term.shiftAll_zero terms]
    simp

/-- An element that is moved by nothing stays as it is. -/
theorem Element.shift_zero : (e : Element) → e.shift 0 = e
  | .atom a => by rw [Element.shift, Atom.shift_zero]
  | .group g => by rw [Element.shift, Group.shift_zero g]

/-- A group that is moved by nothing stays as it is. -/
theorem Group.shift_zero : (g : Group) → g.shift 0 = g
  | ⟨span, opening, body, closing⟩ => by
    rw [Group.shift, Disjunction.shift_zero body]
    simp

end

/-- A term that is moved by nothing stays as it is. -/
@[simp] theorem Term.shift_zero (t : Term) : t.shift 0 = t := by
  obtain ⟨element, q⟩ := t
  simp [Term.shift, Element.shift_zero]

end RegexTree
