import RegexTree.Backreference
import RegexTree.CharacterClass

/-! # Atoms
What can be repeated, but for groups: characters, sets of characters, assertions and references.
Every atom takes at least one character, also where it makes no sense (`Atom.reaches_read`). -/

namespace RegexTree

/-- What an assertion demands of its place. -/
inductive AssertionKind where
  /-- The beginning of the text. -/
  | atStart
  /-- The end of the text. -/
  | atEnd
  /-- The boundary of a word. -/
  | wordBoundary
  /-- No boundary of a word. -/
  | nonWordBoundary
  deriving DecidableEq, Repr

/-- A unit of a pattern that is no group. -/
inductive Atom where
  /-- A character that stands for itself. -/
  | literal (span : Span) (value : Char)
  /-- The dot. -/
  | anyCharacter (span : Span)
  /-- A demand on the place. -/
  | assertion (span : Span) (kind : AssertionKind)
  /-- An escaped character. -/
  | escape (escape : Escape)
  /-- An escaped set of characters. -/
  | classEscape (escape : ClassEscape)
  /-- A set of characters in brackets. -/
  | characterClass (set : CharacterClass)
  /-- A reference to a group. -/
  | backreference (reference : Backreference)
  /-- A span that makes no sense. -/
  | invalid (invalid : Invalid)
  deriving DecidableEq, Repr

namespace Atom

/-- Where the atom stands. -/
def span : Atom → Span
  | literal span _ => span
  | anyCharacter span => span
  | assertion span _ => span
  | escape e => e.span
  | classEscape e => e.span
  | characterClass c => c.span
  | backreference b => b.span
  | invalid i => i.span

/-- An `Escaped` as an atom. -/
def ofEscaped : Escaped → Atom
  | .character e => escape e
  | .set e => classEscape e
  | .invalid i => invalid i

/-- A `Backreference` that was read, or the `Invalid` in its place, as an atom. -/
def ofReference : Except Invalid Backreference → Atom
  | .ok reference => backreference reference
  | .error i => invalid i

/-- Read a backslash sequence whose second character is given, with the cursor on the backslash:
assertions and references come before `Escaped.read`. -/
def readBackslash (x : Char) (c : Cursor) : Atom × Cursor :=
  let body := c.next
  if isWordBoundaryMarker x then
    (assertion (c.spanTo body.next) (if x = 'b' then .wordBoundary else .nonWordBoundary),
      body.next)
  -- a zero begins the null escape
  else if isDecimalDigit x && x != '0' then
    let (reference, later) := Backreference.readNumeric c body
    (backreference reference, later)
  else if x = 'k' then
    let (reference, later) := Backreference.readNamed c body.next
    (ofReference reference, later)
  else
    let (escaped, later) := Escaped.read false c
    (ofEscaped escaped, later)

/-- Read an atom that begins with the given character. -/
def read (x : Char) (c : Cursor) : Atom × Cursor :=
  if x = '^' then (assertion (c.spanTo c.next) .atStart, c.next)
  else if x = '$' then (assertion (c.spanTo c.next) .atEnd, c.next)
  else if x = '.' then (anyCharacter (c.spanTo c.next), c.next)
  else if x = '[' then
    let (set, later) := CharacterClass.read c
    (characterClass set, later)
  else if x = '\\' then
    match c.next.rest with
    | [] =>
      let (escaped, later) := Escaped.read false c
      (ofEscaped escaped, later)
    | y :: _ => readBackslash y c
  else if isPatternChar x then (literal (c.spanTo c.next) x, c.next)
  else (invalid ⟨c.spanTo c.next, .unknownConstruct⟩, c.next)

/-- Reading a backslash sequence by `readBackslash` goes beyond the backslash. -/
theorem reaches_readBackslash (x : Char) (c : Cursor) : c.next.Reaches (readBackslash x c).2 := by
  have hn := c.next.reaches_next
  unfold readBackslash
  dsimp only
  split
  · exact hn
  · split
    · exact Backreference.reaches_readNumeric c c.next
    · split
      · exact hn.trans (Backreference.reaches_readNamed c c.next.next)
      · exact Escaped.reaches_read false c

/-- Reading an `Atom` goes beyond its first character. -/
theorem reaches_read (x : Char) (c : Cursor) : c.next.Reaches (read x c).2 := by
  unfold read
  split
  · exact Cursor.Reaches.refl _
  · split
    · exact Cursor.Reaches.refl _
    · split
      · exact Cursor.Reaches.refl _
      · split
        · exact CharacterClass.reaches_read c
        · split
          · split
            · exact Escaped.reaches_read false c
            · exact reaches_readBackslash _ c
          · split
            · exact Cursor.Reaches.refl _
            · exact Cursor.Reaches.refl _

end Atom

end RegexTree
