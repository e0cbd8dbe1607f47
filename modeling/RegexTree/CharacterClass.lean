import RegexTree.Escape.Basic

/-! # Character classes
A class in brackets holds atoms and ranges of atoms. A dash delimits a range only when an atom that
begins a member precedes it and another atom follows it (`ClassMember.readHigh?`); any other dash is
a member of its own. A class that is cut off by the end of input keeps its members and has no
closing bracket. -/

namespace RegexTree

/-- One character or set of a class. -/
inductive ClassAtom where
  /-- A character that stands for itself. -/
  | literal (span : Span) (value : Char)
  /-- An escaped character. -/
  | escape (escape : Escape)
  /-- An escaped set of characters. -/
  | classEscape (escape : ClassEscape)
  /-- A backslash sequence that makes no sense. -/
  | invalid (invalid : Invalid)
  deriving DecidableEq, Repr

/-- All characters from one to another. -/
structure ClassRange where
  /-- Where the range begins. -/
  low : ClassAtom
  /-- Where the dash stands. -/
  delimiter : Span
  /-- Where the range ends. -/
  high : ClassAtom
  deriving DecidableEq, Repr

/-- A member of a class. -/
inductive ClassMember where
  /-- A single atom. -/
  | atom (atom : ClassAtom)
  /-- A range of atoms. -/
  | range (range : ClassRange)
  deriving DecidableEq, Repr

/-- A set of characters in brackets. -/
structure CharacterClass where
  /-- Where the class stands. -/
  span : Span
  /-- Where the opening bracket stands. -/
  opening : Span
  /-- Where the caret stands that turns the class into its complement. -/
  negation : Option Span
  /-- The members in source order. -/
  members : List ClassMember
  /-- Where the closing bracket stands, if the class is closed. -/
  closing : Option Span
  deriving DecidableEq, Repr

/-! ## Atoms of a class -/

namespace ClassAtom

/-- Where the atom stands. -/
def span : ClassAtom → Span
  | literal span _ => span
  | escape e => e.span
  | classEscape e => e.span
  | invalid i => i.span

/-- What makes no sense in an atom. -/
def invalids : ClassAtom → List Invalid
  | invalid i => [i]
  | _ => []

/-- An `Escaped` as an atom of a class. -/
def ofEscaped : Escaped → ClassAtom
  | .character e => escape e
  | .set e => classEscape e
  | .invalid i => invalid i

/-- Read an atom that begins with the given character. -/
def read (x : Char) (c : Cursor) : ClassAtom × Cursor :=
  if x = '\\' then
    let (escaped, later) := Escaped.read true c
    (ofEscaped escaped, later)
  else (literal (c.spanTo c.next) x, c.next)

/-- Reading a `ClassAtom` goes beyond its first character. -/
theorem reaches_read (x : Char) (c : Cursor) : c.next.Reaches (read x c).2 := by
  unfold read
  split
  · exact Escaped.reaches_read true c
  · exact Cursor.Reaches.refl _

end ClassAtom

/-! ## Ranges and members -/

/-- Where the range stands, in the `Span.cover` of its ends. -/
def ClassRange.span (r : ClassRange) : Span := r.low.span.cover r.high.span

namespace ClassMember

/-- Where the member stands. -/
def span : ClassMember → Span
  | atom a => a.span
  | range r => r.span

/-- What makes no sense in a member. -/
def invalids : ClassMember → List Invalid
  | atom a => a.invalids
  | range r => r.low.invalids ++ r.high.invalids

/-- Read the dash and the upper end of a `ClassRange` after its lower end, if they follow. -/
def readHigh? (c : Cursor) : Option (Span × ClassAtom × Cursor) :=
  match c.rest with
  | '-' :: x :: _ =>
    -- a dash before the closing bracket is a member of its own
    if x = ']' then none
    else
      let (high, later) := ClassAtom.read x c.next
      some (c.spanTo c.next, high, later)
  | _ => none

/-- Read a member that begins with the given character. -/
def read (x : Char) (c : Cursor) : ClassMember × Cursor :=
  let (low, afterLow) := ClassAtom.read x c
  match readHigh? afterLow with
  | some (delimiter, high, later) => (range ⟨low, delimiter, high⟩, later)
  | none => (atom low, afterLow)

/-- The upper end of a range lies after its dash. -/
theorem reaches_of_readHigh? {c later : Cursor} {delimiter : Span} {high : ClassAtom}
    (h : readHigh? c = some (delimiter, high, later)) : c.Reaches later := by
  unfold readHigh? at h
  split at h
  · rename_i x _ _
    split at h
    · cases h
    · cases h
      exact (c.reaches_next.trans c.next.reaches_next).trans (ClassAtom.reaches_read x c.next)
  · cases h

/-- Reading a `ClassMember` goes beyond its first character. -/
theorem reaches_read (x : Char) (c : Cursor) : c.next.Reaches (read x c).2 := by
  have hr := ClassAtom.reaches_read x c
  unfold read
  dsimp only
  split
  · rename_i hhigh
    exact hr.trans (reaches_of_readHigh? hhigh)
  · exact hr

end ClassMember

/-! ## Classes -/

namespace CharacterClass

/-- The class is the complement of what its members say. -/
def negated (c : CharacterClass) : Bool := c.negation.isSome

/-- The class has its closing bracket. -/
def isClosed (c : CharacterClass) : Bool := c.closing.isSome

/-- The zero-width stand-in for a missing closing bracket, an `Invalid` at the end of the class. -/
def missingBracket (c : CharacterClass) : Option Invalid :=
  if c.isClosed then none else some ⟨.emptyAt c.span.stop, .unterminatedClass⟩

/-- Read the members of a class, up to its closing bracket or the end of input. -/
def readMembers (c : Cursor) : List ClassMember × Cursor :=
  match _hrest : c.rest with
  | [] => ([], c)
  | x :: _ =>
    if x = ']' then ([], c)
    else
      let (members, later) := readMembers (ClassMember.read x c).2
      ((ClassMember.read x c).1 :: members, later)
termination_by c.rest.length
decreasing_by exact (ClassMember.reaches_read x c).length_lt _hrest

/-- Read a class with the cursor on its opening bracket, its members by `readMembers`. -/
def read (c : Cursor) : CharacterClass × Cursor :=
  let (negation, afterNegation) := c.next.skipOptional '^'
  let (members, afterMembers) := readMembers afterNegation
  let (closing, later) := afterMembers.skipOptional ']'
  (⟨c.spanTo later, c.spanTo c.next, negation, members, closing⟩, later)

/-- Reading members by `readMembers` does not go back. -/
theorem reaches_readMembers (c : Cursor) : c.Reaches (readMembers c).2 := by
  fun_induction readMembers c with
  | case1 => exact Cursor.Reaches.refl _
  | case2 => exact Cursor.Reaches.refl _
  | case3 c x text hrest hx members later hread ih =>
    rw [hread] at ih
    exact (c.reaches_next.trans (ClassMember.reaches_read x c)).trans ih

/-- Reading a `CharacterClass` goes beyond the opening bracket. -/
theorem reaches_read (c : Cursor) : c.next.Reaches (read c).2 :=
  ((Cursor.reaches_skipOptional '^' c.next).trans (reaches_readMembers _)).trans
    (Cursor.reaches_skipOptional ']' _)

end CharacterClass

end RegexTree
