import RegexTree.Invalid
import RegexTree.Numeral
import RegexTree.Cursor

/-! # Quantifiers
A quantifier is a star, a plus, a question mark or a count in braces, with a question mark after it
where it is lazy. A count keeps both bounds as written, also where they are out of order; a bound
beyond 32 bits counts as the largest (`Bound.ofDigits`). -/

namespace RegexTree

/-- A bound of a count. -/
structure Bound where
  /-- The number. -/
  value : Nat
  /-- Where its digits stand. -/
  span : Span
  deriving DecidableEq, Repr

/-- What follows the lower bound of a count: a comma and, unless the count is open, a bound. -/
structure UpperPart where
  /-- Where the comma stands. -/
  delimiter : Span
  /-- The upper bound. -/
  max : Option Bound
  deriving DecidableEq, Repr

/-- A count in braces. -/
structure Count where
  /-- The lower bound. -/
  min : Bound
  /-- The comma and the upper bound, if there is a comma. -/
  upper : Option UpperPart
  deriving DecidableEq, Repr

/-- How often a quantifier repeats. -/
inductive QuantifierKind where
  /-- Any number of times. -/
  | zeroOrMore
  /-- At least once. -/
  | oneOrMore
  /-- At most once. -/
  | optional
  /-- As often as a count says. -/
  | count (count : Count)
  deriving DecidableEq, Repr

/-- A repetition of what precedes it. -/
structure Quantifier where
  /-- How often it repeats. -/
  kind : QuantifierKind
  /-- Where it stands, without the mark that makes it lazy. -/
  operator : Span
  /-- Where the mark stands that makes it lazy. -/
  lazyMark : Option Span
  deriving DecidableEq, Repr

/-! ## Bounds and counts -/

namespace Bound

/-- The largest bound. -/
def maxValue : Nat := Numeral.max32

/-- The digits between two places as a bound. They are read as a number of 64 bits
(`Numeral.max64`), which is then cut down to 32 bits (`Numeral.max32`). -/
def ofDigits (c : Cursor) (digits : List Char) : Bound :=
  ⟨min (Numeral.decimalUpTo Numeral.max64 digits) maxValue, c.spanTo (c.past digits)⟩

end Bound

namespace UpperPart

/-- Read a comma and the digits after it as an `UpperPart`. -/
def read? (c : Cursor) : Option (UpperPart × Cursor) :=
  (c.accept? ',').map fun afterComma =>
    let digits := afterComma.run isDecimalDigit
    (⟨c.spanTo afterComma, if digits = [] then none else some (.ofDigits afterComma digits)⟩,
      afterComma.past digits)

/-- Reading an upper part does not go back. -/
theorem reaches_of_read? {c later : Cursor} {u : UpperPart} (h : read? c = some (u, later)) :
    c.Reaches later := by
  obtain ⟨afterComma, hcomma, heq⟩ := Option.map_eq_some_iff.mp h
  cases heq
  exact (Cursor.reaches_of_accept? hcomma).trans (Cursor.reaches_past_run _ _)

end UpperPart

namespace Count

/-- The upper bound. -/
def max (c : Count) : Option Bound := c.upper.bind (·.max)

/-- Both bounds are there and out of order. -/
def isReversed (c : Count) : Bool := c.max.any fun m => m.value < c.min.value

/-- Read what follows the lower bound, up to the closing brace: an `UpperPart` or nothing. -/
def readUpper (c : Cursor) : Option UpperPart × Cursor :=
  match UpperPart.read? c with
  | some (upper, later) => (some upper, later)
  | none => (none, c)

/-- Read a count with the cursor on its opening brace. -/
def read? (c : Cursor) : Option (Count × Cursor) := do
  let inside ← c.accept? '{'
  let digits := inside.run isDecimalDigit
  let (upper, afterUpper) := readUpper (inside.past digits)
  let later ← afterUpper.accept? '}'
  -- without a lower bound the braces are no count
  if digits = [] then none else some (⟨.ofDigits inside digits, upper⟩, later)

/-- A character that may stand between the braces of a `Count`. -/
def allows (x : Char) : Bool := isDecimalDigit x || x == ','

/-- The place after what looks like the inside of a count and its closing brace, unless neither is
there. -/
def pastMalformed? (c : Cursor) : Option Cursor :=
  let inside := c.run allows
  match (c.past inside).accept? '}' with
  | some later => some later
  | none => if inside = [] then none else some (c.past inside)

/-- Reading an upper part, where there is one, does not go back. -/
theorem reaches_readUpper (c : Cursor) : c.Reaches (readUpper c).2 := by
  unfold readUpper
  split
  · exact UpperPart.reaches_of_read? (by assumption)
  · exact Cursor.Reaches.refl c

/-- Reading a `Count` goes beyond its opening brace. -/
theorem reaches_of_read? {c later : Cursor} {count : Count} (h : read? c = some (count, later)) :
    c.next.Reaches later := by
  simp only [read?, Option.bind_eq_bind, Option.bind_eq_some_iff] at h
  obtain ⟨inside, hinside, after, hafter, h⟩ := h
  have hnext : inside = c.next := by
    unfold Cursor.accept? at hinside
    split at hinside
    · cases hinside
    · split at hinside
      · cases hinside
        rfl
      · cases hinside
  subst hnext
  split at h
  · cases h
  · cases h
    exact ((Cursor.reaches_past_run isDecimalDigit _).trans (reaches_readUpper _)).trans
      (Cursor.reaches_of_accept? hafter)

/-- Leaving a malformed count by `pastMalformed?` does not go back. -/
theorem reaches_of_pastMalformed? {c later : Cursor} (h : pastMalformed? c = some later) :
    c.Reaches later := by
  have hr := Cursor.reaches_past_run allows c
  unfold pastMalformed? at h
  dsimp only at h
  split at h
  · rename_i hclose
    cases h
    exact hr.trans (Cursor.reaches_of_accept? hclose)
  · split at h
    · cases h
    · cases h
      exact hr

end Count

/-! ## Quantifiers -/

namespace Quantifier

/-- Where the quantifier stands, with the `lazyMark`. -/
def span (q : Quantifier) : Span :=
  match q.lazyMark with
  | none => q.operator
  | some mark => q.operator.through mark

/-- The quantifier repeats as rarely as possible. -/
def isLazy (q : Quantifier) : Bool := q.lazyMark.isSome

/-- Read a quantifier without the `lazyMark`. -/
def readKind? (c : Cursor) : Option (QuantifierKind × Cursor) :=
  match c.rest with
  | '*' :: _ => some (.zeroOrMore, c.next)
  | '+' :: _ => some (.oneOrMore, c.next)
  | '?' :: _ => some (.optional, c.next)
  | '{' :: _ => (Count.read? c).map fun (count, later) => (.count count, later)
  | _ => none

/-- Read a quantifier: its operator by `readKind?` and the mark behind it. -/
def read? (c : Cursor) : Option (Quantifier × Cursor) :=
  (readKind? c).map fun (kind, afterKind) =>
    let (mark, later) := afterKind.skipOptional '?'
    (⟨kind, c.spanTo afterKind, mark⟩, later)

/-- Read a quantifier, as `read?` does, if one stands at the cursor. -/
def readOptional (c : Cursor) : Option Quantifier × Cursor :=
  match read? c with
  | some (q, later) => (some q, later)
  | none => (none, c)

/-- Reading an operator by `readKind?` goes beyond its first character. -/
theorem reaches_of_readKind? {c later : Cursor} {kind : QuantifierKind}
    (h : readKind? c = some (kind, later)) : c.next.Reaches later := by
  unfold readKind? at h
  split at h
  · cases h
    exact Cursor.Reaches.refl _
  · cases h
    exact Cursor.Reaches.refl _
  · cases h
    exact Cursor.Reaches.refl _
  · obtain ⟨⟨count, stop⟩, hcount, heq⟩ := Option.map_eq_some_iff.mp h
    cases heq
    exact Count.reaches_of_read? hcount
  · cases h

/-- Reading a `Quantifier` goes beyond its first character. -/
theorem reaches_of_read? {c later : Cursor} {q : Quantifier} (h : read? c = some (q, later)) :
    c.next.Reaches later := by
  obtain ⟨⟨kind, afterKind⟩, hkind, heq⟩ := Option.map_eq_some_iff.mp h
  cases heq
  exact (reaches_of_readKind? hkind).trans (Cursor.reaches_skipOptional '?' afterKind)

/-- Reading a quantifier, where there is one, does not go back. -/
theorem reaches_readOptional (c : Cursor) : c.Reaches (readOptional c).2 := by
  unfold readOptional
  split
  · rename_i hread
    exact c.reaches_next.trans (reaches_of_read? hread)
  · exact Cursor.Reaches.refl c

end Quantifier

end RegexTree
