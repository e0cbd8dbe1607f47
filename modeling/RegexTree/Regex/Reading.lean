import RegexTree.Regex.Assembly
import RegexTree.Regex.DecidableEq

/-! # Parsing
A pattern has no delimiters and no flags. Parsing it with `Regex.parse` never fails: what makes no
sense is kept as invalid spans, and the whole input is covered. Parsing may also begin at a later
place, where a character begins (`Regex.parseFrom?`). -/

namespace RegexTree

/-- The result of parsing: the typed tree and what there was to report. -/
structure Reading where
  /-- The typed tree. -/
  regex : Regex
  /-- The events in the order in which they were noticed. -/
  events : List Event
  deriving DecidableEq

namespace Reading

/-- Parse a pattern from a `Cursor` of it to the end, by `Assembly.readAll`. -/
def ofCursor (pattern : String) (c : Cursor) : Reading :=
  let (assembly, stop) := (Assembly.startingAt c.pos).readAll c
  ⟨⟨⟨0, pattern.utf8ByteSize⟩, assembly.finish stop.pos⟩, assembly.allEvents⟩

/-- Parse a pattern. -/
def ofPattern (pattern : String) : Reading := ofCursor pattern (.ofString pattern)

/-- Parse a pattern from a byte offset on; this is impossible where `Cursor.ofString?` gives no
place, past the end or inside a character. -/
def ofOffset? (pattern : String) (offset : Nat) : Option Reading :=
  (Cursor.ofString? pattern offset).map (ofCursor pattern)

/-- Parsing from the offset zero is `ofPattern`. -/
theorem ofOffset?_zero (pattern : String) : ofOffset? pattern 0 = some (ofPattern pattern) := by
  simp [ofOffset?, Cursor.ofString?, Cursor.dropBytes?, ofPattern, Cursor.ofString]

end Reading

namespace Regex

/-- The typed tree of a pattern: what `Reading.ofPattern` has read. -/
def parse (pattern : String) : Regex := (Reading.ofPattern pattern).regex

/-- The events of parsing a pattern. -/
def events (pattern : String) : List Event := (Reading.ofPattern pattern).events

/-- The typed tree of a pattern from a byte offset on, if a character begins there or the pattern
ends there. -/
def parseFrom? (pattern : String) (offset : Nat) : Option Regex :=
  (Reading.ofOffset? pattern offset).map (·.regex)

/-- From the beginning, `parseFrom?` gives the tree of `parse`. -/
theorem parseFrom?_zero (pattern : String) : parseFrom? pattern 0 = some (parse pattern) := by
  simp [parseFrom?, Reading.ofOffset?_zero, parse]

end Regex

end RegexTree
