import RegexTree.Atom
import RegexTree.Group
import RegexTree.Quantifier

/-! # Lexemes
The lexical units of a pattern: bars, openings and closings of groups, atoms with their quantifiers,
and quantifiers that follow nothing they could repeat. Cutting a pattern into lexemes needs no
knowledge of the groups around; what a stray closing parenthesis or quantifier means is decided when
the tree is assembled (`Assembly.push`). Every lexeme takes at least one character
(`Lexeme.reaches_read`). -/

namespace RegexTree

/-- A lexical unit of a pattern. -/
inductive Lexeme where
  /-- A bar between alternatives. -/
  | bar (span : Span)
  /-- The opening of a group. -/
  | opening (opening : GroupOpening)
  /-- A closing parenthesis and the quantifier of the group that it closes. -/
  | closing (span : Span) (quantifier : Option Quantifier)
  /-- An atom and its quantifier. -/
  | atom (atom : Atom) (quantifier : Option Quantifier)
  /-- A well-formed quantifier where something to repeat is expected. -/
  | strayQuantifier (span : Span)
  /-- A brace, where something to repeat is expected, that begins no well-formed quantifier. -/
  | strayBrace (invalid : Invalid)
  deriving DecidableEq, Repr

namespace Lexeme

/-- Read a brace that begins no well-formed quantifier, with what looks like a count after it
(`Count.pastMalformed?`). -/
def readBrace (c : Cursor) : Lexeme × Cursor :=
  match Count.pastMalformed? c.next with
  | some later => (strayBrace ⟨c.spanTo later, .badQuantifier⟩, later)
  | none => (strayBrace ⟨c.spanTo c.next, .unknownConstruct⟩, c.next)

/-- Read a lexeme that begins with the given character and is no `strayQuantifier`. -/
def readPlain (x : Char) (c : Cursor) : Lexeme × Cursor :=
  if x = '|' then (bar (c.spanTo c.next), c.next)
  else if x = '(' then
    let (o, later) := GroupOpening.read c
    (opening o, later)
  else if x = ')' then
    -- the quantifier repeats the whole group
    let (quantifier, later) := Quantifier.readOptional c.next
    (closing (c.spanTo c.next) quantifier, later)
  else if x = '{' then readBrace c
  else
    let (a, afterAtom) := Atom.read x c
    let (quantifier, later) := Quantifier.readOptional afterAtom
    (atom a quantifier, later)

/-- Read the lexeme that begins with the given character. -/
def read (x : Char) (c : Cursor) : Lexeme × Cursor :=
  -- quantifiers of elements are read with them, so one that stands here is stray
  match Quantifier.read? c with
  | some (_, later) => (strayQuantifier (c.spanTo later), later)
  | none => readPlain x c

/-! ## Every lexeme takes at least one character -/

/-- Reading a stray brace by `readBrace` goes beyond it. -/
theorem reaches_readBrace (c : Cursor) : c.next.Reaches (readBrace c).2 := by
  unfold readBrace
  split
  · exact Count.reaches_of_pastMalformed? (by assumption)
  · exact Cursor.Reaches.refl _

/-- Reading a lexeme that is no quantifier goes beyond its first character. -/
theorem reaches_readPlain (x : Char) (c : Cursor) : c.next.Reaches (readPlain x c).2 := by
  unfold readPlain
  split
  · exact Cursor.Reaches.refl _
  · split
    · exact GroupOpening.reaches_read c
    · split
      · exact Quantifier.reaches_readOptional c.next
      · split
        · exact reaches_readBrace c
        · exact (Atom.reaches_read x c).trans (Quantifier.reaches_readOptional _)

/-- Reading a `Lexeme` goes beyond its first character. -/
theorem reaches_read (x : Char) (c : Cursor) : c.next.Reaches (read x c).2 := by
  unfold read
  split
  · rename_i hread
    exact Quantifier.reaches_of_read? hread
  · exact reaches_readPlain x c

end Lexeme

end RegexTree
