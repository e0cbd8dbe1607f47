import RegexTree.GroupName
import RegexTree.Invalid

/-! # Backreferences
A reference to a group by its number or by its name. Numbers of any length are read; those that
exceed 64 bits count as the largest (`Backreference.maxIndex`). -/

namespace RegexTree

/-- A reference to a group. -/
inductive Backreference where
  /-- By number, from one on. -/
  | numeric (span : Span) (index : Nat)
  /-- By name. -/
  | named (span : Span) (name : GroupName)
  deriving DecidableEq, Repr

namespace Backreference

/-- The largest number of a group. -/
def maxIndex : Nat := Numeral.max64

/-- Where the reference stands. -/
def span : Backreference → Span
  | numeric span _ => span
  | named span _ => span

/-- Read a reference by number from its backslash, with the second cursor on the first digit. -/
def readNumeric (c body : Cursor) : Backreference × Cursor :=
  let digits := body.run isDecimalDigit
  let later := body.past digits
  (.numeric (c.spanTo later) (Numeral.decimalUpTo maxIndex digits), later)

/-- Read a reference by name from its backslash, with the second cursor after the letter k. Anything
short of a bracketed `GroupName` makes the whole construct invalid. -/
def readNamed (c body : Cursor) : Except Invalid Backreference × Cursor :=
  match body.accept? '<' with
  | none => (.error ⟨c.spanTo body, .badBackreference⟩, body)
  | some inside =>
    match GroupName.read? inside with
    | some (name, afterName) =>
      let later := afterName.next
      (.ok (.named (c.spanTo later) name), later)
    | none =>
      let later := GroupName.recover inside
      (.error ⟨c.spanTo later, .badBackreference⟩, later)

/-- Reading a number by `readNumeric` does not go back. -/
theorem reaches_readNumeric (c body : Cursor) : body.Reaches (readNumeric c body).2 :=
  Cursor.reaches_past_run isDecimalDigit body

/-- Reading a name by `readNamed` does not go back. -/
theorem reaches_readNamed (c body : Cursor) : body.Reaches (readNamed c body).2 := by
  unfold readNamed
  split
  · exact Cursor.Reaches.refl _
  · rename_i inside hinside
    have hr := Cursor.reaches_of_accept? hinside
    split
    · rename_i hread
      exact (hr.trans (GroupName.reaches_of_read? hread)).trans (Cursor.reaches_next _)
    · exact hr.trans (GroupName.reaches_recover inside)

end Backreference

end RegexTree
