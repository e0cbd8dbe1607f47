import RegexTree.Escape.CodePoint
import RegexTree.Recovery

/-! # Group names
A name is a non-empty run of name characters, any of which may be written as the escape of a code
point. Two escapes that form a surrogate pair stand for one character (`GroupName.readEscaped?`),
and any other surrogate for the replacement character (`GroupName.decode`). -/

namespace RegexTree

/-- The name of a group. -/
structure GroupName where
  /-- The name with its escapes resolved. -/
  name : String
  /-- Where the name stands as written, without the angle brackets. -/
  span : Span
  deriving DecidableEq, Repr

namespace GroupName

/-! ## Elements of a name -/

/-- The first half of a surrogate pair. -/
def isLeadSurrogate (n : Nat) : Bool := 0xD800 ≤ n && n ≤ 0xDBFF

/-- The second half of a surrogate pair. -/
def isTrailSurrogate (n : Nat) : Bool := 0xDC00 ≤ n && n ≤ 0xDFFF

/-- The code point that a surrogate pair stands for. -/
def combineSurrogates (lead trail : Nat) : Nat :=
  0x10000 + (lead - 0xD800) * 0x400 + (trail - 0xDC00)

/-- Read the escape of a code point with the cursor on the backslash. -/
def readCode? (c : Cursor) : Option (Nat × Cursor) :=
  if ['\\', 'u'].isPrefixOf c.rest then
    match CodePoint.read c.next with
    | (some code, later) => some (code.value, later)
    | (none, _) => none
  else none

/-- The second half of a surrogate pair, if its escape, read by `readCode?`, stands at the
cursor. -/
def readTrail? (c : Cursor) : Option (Nat × Cursor) := do
  let (trail, later) ← readCode? c
  if isTrailSurrogate trail then some (trail, later) else none

/-- The character of a code point; a lone surrogate has none and becomes the replacement
character. -/
def decode (n : Nat) : Char := (CodePoint.toChar? n).getD '\ufffd'

/-- Read one escaped character, which a surrogate pair writes in two escapes. -/
def readEscaped? (c : Cursor) : Option (Char × Cursor) := do
  let (code, afterCode) ← readCode? c
  -- only the first half of a pair looks ahead for the second
  match if isLeadSurrogate code then readTrail? afterCode else none with
  | some (trail, later) => some (decode (combineSurrogates code trail), later)
  | none => some (decode code, afterCode)

/-- The character may stand in a name as itself, at its beginning or later. -/
def allows (first : Bool) (x : Char) : Bool :=
  if first then isGroupNameStart x else isGroupNameContinue x

/-- Read one character of a name, written as itself (`allows`) or escaped (`readEscaped?`). -/
def readElement? (first : Bool) (c : Cursor) : Option (Char × Cursor) :=
  match c.rest with
  | [] => none
  | x :: _ =>
    if x = '\\' then readEscaped? c
    else if allows first x then some (x, c.next)
    else none

/-! ## Every element takes at least one character -/

/-- What `readCode?` reads takes the backslash and the letter, and what follows them. -/
theorem reaches_of_readCode? {c later : Cursor} {n : Nat} (h : readCode? c = some (n, later)) :
    c.next.next.Reaches later := by
  unfold readCode? at h
  split at h
  · have hr := CodePoint.reaches_read c.next
    split at h
    · rename_i hread
      rw [hread] at hr
      cases h
      exact hr
    · cases h
  · cases h

/-- Reading the second half of a pair by `readTrail?` does not go back. -/
theorem reaches_of_readTrail? {c later : Cursor} {n : Nat} (h : readTrail? c = some (n, later)) :
    c.Reaches later := by
  simp only [readTrail?, Option.bind_eq_bind, Option.bind_eq_some_iff, Prod.exists] at h
  obtain ⟨trail, afterTrail, hcode, h⟩ := h
  split at h
  · cases h
    exact (c.reaches_next.trans c.next.reaches_next).trans (reaches_of_readCode? hcode)
  · cases h

/-- Reading an escaped character by `readEscaped?` goes beyond the backslash. -/
theorem reaches_of_readEscaped? {c later : Cursor} {x : Char}
    (h : readEscaped? c = some (x, later)) : c.next.Reaches later := by
  simp only [readEscaped?, Option.bind_eq_bind, Option.bind_eq_some_iff, Prod.exists] at h
  obtain ⟨code, afterCode, hcode, h⟩ := h
  have hr := c.next.reaches_next.trans (reaches_of_readCode? hcode)
  split at h
  · rename_i trail after hpair
    simp only [Option.some.injEq, Prod.mk.injEq] at h
    obtain ⟨-, rfl⟩ := h
    split at hpair
    · exact hr.trans (reaches_of_readTrail? hpair)
    · cases hpair
  · simp only [Option.some.injEq, Prod.mk.injEq] at h
    obtain ⟨-, rfl⟩ := h
    exact hr

/-- Reading an element by `readElement?` goes beyond its first character. -/
theorem reaches_of_readElement? {first : Bool} {c later : Cursor} {x : Char}
    (h : readElement? first c = some (x, later)) : c.next.Reaches later := by
  unfold readElement? at h
  split at h
  · cases h
  · split at h
    · exact reaches_of_readEscaped? h
    · split at h
      · cases h
        exact Cursor.Reaches.refl _
      · cases h

/-- Reading an element leaves fewer characters. -/
theorem length_lt_of_readElement? {first : Bool} {c later : Cursor} {x : Char}
    (h : readElement? first c = some (x, later)) : later.rest.length < c.rest.length := by
  have hr := reaches_of_readElement? h
  unfold readElement? at h
  split at h
  · cases h
  · rename_i hrest
    exact hr.length_lt hrest

/-! ## Names -/

/-- Read the characters of a name, each by `readElement?`, up to, and not including, the closing
bracket. -/
def readElements? (first : Bool) (c : Cursor) : Option (List Char × Cursor) :=
  if c.rest.head? = some '>' then some ([], c)
  else
    match _hread : readElement? first c with
    | none => none
    | some (x, later) => (readElements? false later).map fun (xs, stop) => (x :: xs, stop)
termination_by c.rest.length
decreasing_by exact length_lt_of_readElement? _hread

/-- Read a name, with the cursor after the opening bracket and, in the end, on the closing one. -/
def read? (c : Cursor) : Option (GroupName × Cursor) := do
  let (name, later) ← readElements? true c
  if name = [] then none else some (⟨String.ofList name, c.spanTo later⟩, later)

/-- Where reading goes on after a malformed name: `Cursor.recover` for the closing bracket and the
characters of names. -/
def recover (c : Cursor) : Cursor := c.recover '>' true isGroupNameContinue

/-- Reading the characters of a name does not go back. -/
theorem reaches_of_readElements? {first : Bool} {c later : Cursor} {name : List Char}
    (h : readElements? first c = some (name, later)) : c.Reaches later := by
  fun_induction readElements? first c generalizing name with
  | case1 =>
    cases h
    exact Cursor.Reaches.refl _
  | case2 => cases h
  | case3 first c hclose x next hx ih =>
    obtain ⟨⟨xs, stop⟩, hxs, heq⟩ := Option.map_eq_some_iff.mp h
    cases heq
    exact (c.reaches_next.trans (reaches_of_readElement? hx)).trans (ih hxs)

/-- What `readElements?` reads is followed by the closing bracket. -/
theorem head_of_readElements? {first : Bool} {c later : Cursor} {name : List Char}
    (h : readElements? first c = some (name, later)) : later.rest.head? = some '>' := by
  fun_induction readElements? first c generalizing name with
  | case1 =>
    cases h
    assumption
  | case2 => cases h
  | case3 first c hclose x next hx ih =>
    obtain ⟨⟨xs, stop⟩, hxs, heq⟩ := Option.map_eq_some_iff.mp h
    cases heq
    exact ih hxs

/-- Reading a `GroupName` does not go back. -/
theorem reaches_of_read? {c later : Cursor} {name : GroupName}
    (h : read? c = some (name, later)) : c.Reaches later := by
  simp only [read?, Option.bind_eq_bind, Option.bind_eq_some_iff, Prod.exists] at h
  obtain ⟨chars, stop, hchars, h⟩ := h
  split at h
  · cases h
  · cases h
    exact reaches_of_readElements? hchars

/-- Leaving a malformed name by `recover` does not go back. -/
theorem reaches_recover (c : Cursor) : c.Reaches (recover c) :=
  Cursor.reaches_recover _ _ _ c

end GroupName

end RegexTree
