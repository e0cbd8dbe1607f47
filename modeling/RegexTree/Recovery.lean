import RegexTree.Character
import RegexTree.Cursor

/-! # Recovery
A construct that should end with a closing character but is malformed is left at that character if
no syntax character comes first; what follows a bracket or a bar is never swallowed. Otherwise only
the run of characters that could belong to the construct is left. All of this is
`Cursor.recover`. -/

namespace RegexTree.Cursor

/-- A malformed construct up to a closing character may run over this character. A backslash is
allowed in names, which may hold escapes. -/
def isSkippable (closer : Char) (escapes : Bool) (x : Char) : Bool :=
  x != closer && (isPatternChar x || (escapes && x == '\\'))

/-- The place after the next closing character, if only characters that are `isSkippable` come
before it. -/
def pastCloser? (closer : Char) (escapes : Bool) (c : Cursor) : Option Cursor :=
  (c.past (c.run (isSkippable closer escapes))).accept? closer

/-- The place where reading goes on after a malformed construct: after its closing character
(`pastCloser?`), or after the characters that could belong to it. -/
def recover (closer : Char) (escapes : Bool) (belongs : Char → Bool) (c : Cursor) : Cursor :=
  (c.pastCloser? closer escapes).getD (c.past (c.run belongs))

/-- The place that `pastCloser?` gives is reached. -/
theorem reaches_of_pastCloser? {closer : Char} {escapes : Bool} {c later : Cursor}
    (h : c.pastCloser? closer escapes = some later) : c.Reaches later :=
  (reaches_past_run _ c).trans (reaches_of_accept? h)

/-- Leaving a malformed construct by `recover` does not go back. -/
theorem reaches_recover (closer : Char) (escapes : Bool) (belongs : Char → Bool) (c : Cursor) :
    c.Reaches (c.recover closer escapes belongs) := by
  unfold recover
  cases h : c.pastCloser? closer escapes with
  | none => exact reaches_past_run belongs c
  | some later => exact reaches_of_pastCloser? h

end RegexTree.Cursor
