import RegexTree.Character
import RegexTree.Cursor

/-! # Unicode properties in escapes
The braces of a property escape hold a value, or a name and a value with an equals sign between
them. Only this shape is checked (`UnicodeProperty.read?`); the words are not looked up. -/

namespace RegexTree

/-- A word of a property, with its place. -/
structure PropertyToken where
  /-- The word. -/
  text : String
  /-- Where it stands. -/
  span : Span
  deriving DecidableEq, Repr

/-- The name of a property, with the equals sign after it. -/
structure PropertyName where
  /-- The name. -/
  token : PropertyToken
  /-- Where the equals sign stands. -/
  operator : Span
  deriving DecidableEq, Repr

/-- A value of a Unicode property, or its complement. -/
structure UnicodeProperty where
  /-- The characters without the property are meant. -/
  negated : Bool
  /-- The name, where one is given. -/
  name : Option PropertyName
  /-- The value. -/
  value : PropertyToken
  deriving DecidableEq, Repr

/-- Read a word of characters that are `isPropertyChar`, which is not empty. -/
def PropertyToken.read? (c : Cursor) : Option (PropertyToken × Cursor) :=
  let word := c.run isPropertyChar
  if word = [] then none else some (⟨String.ofList word, c.spanTo (c.past word)⟩, c.past word)

/-- Reading a word does not go back. -/
theorem PropertyToken.reaches_of_read? {c later : Cursor} {t : PropertyToken}
    (h : read? c = some (t, later)) : c.Reaches later := by
  unfold read? at h
  dsimp only at h
  split at h
  · cases h
  · cases h
    exact Cursor.reaches_past_run isPropertyChar c

namespace UnicodeProperty

/-- A character that may stand between the braces. -/
def allows (x : Char) : Bool := isPropertyChar x || x == '='

/-- Read what stands between the braces, with or without a name. -/
def readBody? (negated : Bool) (c : Cursor) : Option (UnicodeProperty × Cursor) := do
  let (first, afterFirst) ← PropertyToken.read? c
  match afterFirst.accept? '=' with
  | none => some (⟨negated, none, first⟩, afterFirst)
  | some afterOperator =>
    let (value, later) ← PropertyToken.read? afterOperator
    some (⟨negated, some ⟨first, afterFirst.spanTo afterOperator⟩, value⟩, later)

/-- Read a property by `readBody?` and the brace that closes it, with the cursor after the opening
brace. -/
def read? (negated : Bool) (c : Cursor) : Option (UnicodeProperty × Cursor) := do
  let (property, afterBody) ← readBody? negated c
  let later ← afterBody.accept? '}'
  some (property, later)

/-- Reading what stands between the braces does not go back. -/
theorem reaches_of_readBody? {negated : Bool} {c later : Cursor} {p : UnicodeProperty}
    (h : readBody? negated c = some (p, later)) : c.Reaches later := by
  simp only [readBody?, Option.bind_eq_bind, Option.bind_eq_some_iff, Prod.exists] at h
  obtain ⟨first, afterFirst, hfirst, h⟩ := h
  have hr := PropertyToken.reaches_of_read? hfirst
  split at h
  · cases h
    exact hr
  · rename_i afterOperator hop
    simp only [Option.bind_eq_some_iff, Prod.exists] at h
    obtain ⟨value, after, hvalue, h⟩ := h
    cases h
    exact (hr.trans (Cursor.reaches_of_accept? hop)).trans (PropertyToken.reaches_of_read? hvalue)

/-- Reading a `UnicodeProperty` does not go back. -/
theorem reaches_of_read? {negated : Bool} {c later : Cursor} {p : UnicodeProperty}
    (h : read? negated c = some (p, later)) : c.Reaches later := by
  simp only [read?, Option.bind_eq_bind, Option.bind_eq_some_iff, Prod.exists] at h
  obtain ⟨property, afterBody, hbody, closed, hclosed, h⟩ := h
  cases h
  exact (reaches_of_readBody? hbody).trans (Cursor.reaches_of_accept? hclosed)

end UnicodeProperty

end RegexTree
