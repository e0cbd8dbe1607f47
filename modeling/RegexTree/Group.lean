import RegexTree.GroupName
import RegexTree.Invalid

/-! # Openings of groups
A group opens with a parenthesis. A question mark after it begins an identifier, which says what
kind of group follows (`GroupKind`); one that says nothing known is kept as an invalid span. -/

namespace RegexTree

/-- The kind of a group, with its identifier. -/
inductive GroupKind where
  /-- A capturing group without an identifier. -/
  | anonymous
  /-- A group that captures nothing. -/
  | nonCapturing (identifier : Span)
  /-- A capturing group with a name. -/
  | named (identifier : Span) (name : GroupName)
  /-- What follows the place must match. -/
  | lookahead (identifier : Span)
  /-- What follows the place must not match. -/
  | negativeLookahead (identifier : Span)
  /-- What precedes the place must match. -/
  | lookbehind (identifier : Span)
  /-- What precedes the place must not match. -/
  | negativeLookbehind (identifier : Span)
  /-- The identifier is none of the known ones. -/
  | malformed (identifier : Invalid)
  deriving DecidableEq, Repr

/-- A parenthesis and the identifier after it. -/
structure GroupOpening where
  /-- Where the parenthesis stands. -/
  parenthesis : Span
  /-- What kind of group follows. -/
  kind : GroupKind
  deriving DecidableEq, Repr

/-! ## Identifiers -/

namespace GroupKind

/-- Where the identifier stands. -/
def identifier : GroupKind → Option Span
  | anonymous => none
  | nonCapturing span => some span
  | named span _ => some span
  | lookahead span => some span
  | negativeLookahead span => some span
  | lookbehind span => some span
  | negativeLookbehind span => some span
  | malformed invalid => some invalid.span

/-- The group keeps what it matched. -/
def isCapturing : GroupKind → Bool
  | anonymous => true
  | named _ _ => true
  | _ => false

/-- The identifiers without a name, longer ones before their beginnings. -/
def identifiers : List (List Char × (Span → GroupKind)) :=
  [(['?', '<', '='], lookbehind), (['?', '<', '!'], negativeLookbehind),
    (['?', ':'], nonCapturing), (['?', '='], lookahead), (['?', '!'], negativeLookahead)]

/-- Read one of the `identifiers` without a name. -/
def readPlain? (c : Cursor) : Option (GroupKind × Cursor) :=
  identifiers.findSome? fun (word, kind) =>
    (c.acceptAll? word).map fun later => (kind (c.spanTo later), later)

/-- Read the name of a group from its identifier, with the second cursor after the opening angle
bracket. -/
def readNamed (c inside : Cursor) : GroupKind × Cursor :=
  match GroupName.read? inside with
  | some (name, afterName) => (named (c.spanTo afterName.next) name, afterName.next)
  | none =>
    let later := GroupName.recover inside
    (malformed ⟨c.spanTo later, .badGroupName⟩, later)

/-- Read an identifier with the cursor on its question mark, by `readPlain?` or `readNamed`; any
other is `malformed`. -/
def readIdentifier (c : Cursor) : GroupKind × Cursor :=
  match readPlain? c with
  | some result => result
  | none =>
    -- the lookbehinds begin like a name and have been tried before it
    match c.acceptAll? ['?', '<'] with
    | some inside => readNamed c inside
    | none => (malformed ⟨c.spanTo c.next, .unknownConstruct⟩, c.next)

/-- Reading an identifier without a name does not go back. -/
theorem reaches_of_readPlain? {c later : Cursor} {kind : GroupKind}
    (h : readPlain? c = some (kind, later)) : c.Reaches later := by
  obtain ⟨⟨word, build⟩, -, h⟩ := List.exists_of_findSome?_eq_some h
  obtain ⟨after, hafter, heq⟩ := Option.map_eq_some_iff.mp h
  cases heq
  exact Cursor.reaches_of_acceptAll? hafter

/-- Reading the name of a group does not go back. -/
theorem reaches_readNamed (c inside : Cursor) : inside.Reaches (readNamed c inside).2 := by
  unfold readNamed
  split
  · rename_i hread
    exact (GroupName.reaches_of_read? hread).trans (Cursor.reaches_next _)
  · exact GroupName.reaches_recover inside

/-- Reading an identifier by `readIdentifier` does not go back. -/
theorem reaches_readIdentifier (c : Cursor) : c.Reaches (readIdentifier c).2 := by
  unfold readIdentifier
  split
  · rename_i result hread
    exact reaches_of_readPlain? hread
  · split
    · rename_i inside hinside
      exact (Cursor.reaches_of_acceptAll? hinside).trans (reaches_readNamed c inside)
    · exact c.reaches_next

end GroupKind

/-! ## Openings -/

namespace GroupOpening

/-- Where the body of the group begins. -/
def stop (o : GroupOpening) : Nat :=
  match o.kind.identifier with
  | none => o.parenthesis.stop
  | some identifier => identifier.stop

/-- Read an opening with the cursor on its parenthesis; `GroupKind.readIdentifier` reads what a
question mark begins. -/
def read (c : Cursor) : GroupOpening × Cursor :=
  let inside := c.next
  if inside.rest.head? = some '?' then
    let (kind, later) := GroupKind.readIdentifier inside
    (⟨c.spanTo inside, kind⟩, later)
  else (⟨c.spanTo inside, .anonymous⟩, inside)

/-- Reading a `GroupOpening` goes beyond the parenthesis. -/
theorem reaches_read (c : Cursor) : c.next.Reaches (read c).2 := by
  unfold read
  dsimp only
  split
  · exact GroupKind.reaches_readIdentifier c.next
  · exact Cursor.Reaches.refl _

end GroupOpening

end RegexTree
