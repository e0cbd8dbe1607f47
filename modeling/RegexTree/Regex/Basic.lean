import RegexTree.Atom
import RegexTree.Group
import RegexTree.Quantifier

/-! # Regular expressions
The typed tree of a pattern, `Regex`: alternatives between bars, terms in alternatives, and in each
term an atom or a group with an optional quantifier. A disjunction is a first alternative and
further ones with the bar before each, so there is always one alternative more than there are bars
(`Disjunction.length_alternatives`). -/

namespace RegexTree

mutual

/-- Alternatives between bars. -/
structure Disjunction where
  /-- The first alternative. -/
  first : Alternative
  /-- The other alternatives. -/
  others : List Branch

/-- A bar of a `Disjunction` and the alternative after it. -/
structure Branch where
  /-- Where the bar stands. -/
  bar : Span
  /-- The alternative after the bar. -/
  alternative : Alternative

/-- A sequence of terms, which may be empty. -/
structure Alternative where
  /-- Where the alternative stands. -/
  span : Span
  /-- The terms in source order. -/
  terms : List Term

/-- An element and how often it repeats. -/
structure Term where
  /-- What repeats. -/
  element : Element
  /-- How often it repeats, unless once. -/
  quantifier : Option Quantifier

/-- What a quantifier can follow. -/
inductive Element where
  /-- An atom. -/
  | atom (atom : Atom)
  /-- A group. -/
  | group (group : Group)

/-- A pattern in parentheses. -/
structure Group where
  /-- Where the group stands. -/
  span : Span
  /-- The opening parenthesis and the identifier. -/
  opening : GroupOpening
  /-- What stands between the parentheses. -/
  body : Disjunction
  /-- Where the closing parenthesis stands, if the group is closed. -/
  closing : Option Span

end

/-- The typed tree of a pattern. -/
structure Regex where
  /-- Where the pattern stands. -/
  span : Span
  /-- The alternatives of the pattern. -/
  body : Disjunction

/-! ## Spans and parts -/

namespace Group

/-- The group has its closing parenthesis. -/
def isClosed (g : Group) : Bool := g.closing.isSome

/-- The zero-width stand-in for a missing closing parenthesis. -/
def missingParenthesis (g : Group) : Option Invalid :=
  if g.isClosed then none else some ⟨.emptyAt g.span.stop, .unterminatedGroup⟩

/-- The group keeps what it matched. -/
def isCapturing (g : Group) : Bool := g.opening.kind.isCapturing

end Group

/-- Where the element stands. -/
def Element.span : Element → Span
  | atom a => a.span
  | group g => g.span

/-- Where the term stands, with its quantifier: both are in the `Span.cover` of their spans. -/
def Term.span (t : Term) : Span :=
  match t.quantifier with
  | none => t.element.span
  | some q => t.element.span.cover q.span

namespace Disjunction

/-- The alternatives in source order; there is at least one. -/
def alternatives (d : Disjunction) : List Alternative := d.first :: d.others.map (·.alternative)

/-- The bars in source order. -/
def bars (d : Disjunction) : List Span := d.others.map (·.bar)

/-- The last alternative. -/
def last (d : Disjunction) : Alternative :=
  match d.others.getLast? with
  | none => d.first
  | some branch => branch.alternative

/-- Where the disjunction stands, from its first alternative to its last. -/
def span (d : Disjunction) : Span := d.first.span.through d.last.span

/-- A disjunction has one of its `alternatives` more than it has `bars`. -/
theorem length_alternatives (d : Disjunction) : d.alternatives.length = d.bars.length + 1 := by
  simp [alternatives, bars]

end Disjunction

end RegexTree
