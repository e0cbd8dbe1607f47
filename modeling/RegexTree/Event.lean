import RegexTree.CharacterClass
import RegexTree.Group
import RegexTree.Text.Quoted

/-! # Events
What reading a pattern reports, in the order in which it is noticed: each `Invalid` with its text,
and each class and group that the end of input cut off, with the place where it opened. -/

namespace RegexTree

/-- Something to report about a pattern. -/
inductive Event where
  /-- A span makes no sense. -/
  | invalid (invalid : Invalid)
  /-- The input ended before the class that opened here. -/
  | unterminatedClass (opening : Span)
  /-- The input ended before the group that opened here. -/
  | unterminatedGroup (opening : Span)
  deriving DecidableEq, Repr

namespace Event

/-- The wording of an event in the reading of a source. -/
def message (source : String) : Event → String
  | invalid i =>
    "invalid " ++ i.reason.tag ++ " at " ++ i.span.display ++ ": " ++
      Text.quoted (i.span.textIn source)
  | unterminatedClass opening => "unterminated class opened at " ++ opening.display
  | unterminatedGroup opening => "unterminated group opened at " ++ opening.display

/-- A line of the log, with the `message` of an event: events are of use for debugging. -/
def logLine (source : String) (e : Event) : String := "DEBUG " ++ e.message source

end Event

end RegexTree
