import RegexTree.Escape.CodePoint
import RegexTree.Escape.Property
import RegexTree.Invalid
import RegexTree.Recovery

/-! # Escapes
A backslash sequence names one character, or a set of characters, or is invalid. The same sequences
mean the same inside a character class and outside, but for the letter b and the dash, which are
escapes only inside. The reader, `Escaped.read`, always leaves the sequence behind, also where it is
invalid. -/

namespace RegexTree

/-- How an escape names its character. -/
inductive EscapeKind where
  /-- A letter for a control character: one of f, n, r, t, v, or b inside a class. -/
  | special (letter : Char)
  /-- A control character by its letter; the code is that of the letter modulo 32. -/
  | controlLetter (letter : Char) (code : Nat)
  /-- Two hexadecimal digits after the letter x. -/
  | hexadecimal (code : Nat)
  /-- A code point after the letter u. -/
  | unicode (codePoint : CodePoint)
  /-- The digit zero for the null character. -/
  | null
  /-- A character that stands for itself. -/
  | identity (char : Char)
  deriving DecidableEq, Repr

/-- A backslash sequence that names one character. -/
structure Escape where
  /-- Where it stands. -/
  span : Span
  /-- How it names its character. -/
  kind : EscapeKind
  deriving DecidableEq, Repr

/-- How an escape names its set of characters. -/
inductive ClassEscapeKind where
  /-- A letter for a predefined set: one of d, D, s, S, w, W. -/
  | predefined (letter : Char)
  /-- The characters with a Unicode property, or without it. -/
  | property (property : UnicodeProperty)
  deriving DecidableEq, Repr

/-- A backslash sequence that names a set of characters. -/
structure ClassEscape where
  /-- Where it stands. -/
  span : Span
  /-- How it names its set. -/
  kind : ClassEscapeKind
  deriving DecidableEq, Repr

/-- The control character that a letter names. -/
def specialChar? : Char → Option Char
  | 'f' => some '\x0c'
  | 'n' => some '\n'
  | 'r' => some '\r'
  | 't' => some '\t'
  | 'v' => some '\x0b'
  | 'b' => some '\x08'
  | _ => none

/-- The character that an escape stands for; a lone surrogate is none (`CodePoint.toChar?`). -/
def Escape.value (e : Escape) : Option Char :=
  match e.kind with
  | .special letter => specialChar? letter
  | .controlLetter _ code => CodePoint.toChar? code
  | .hexadecimal code => CodePoint.toChar? code
  | .unicode codePoint => CodePoint.toChar? codePoint.value
  | .null => some '\x00'
  | .identity char => some char

/-! ## Reading -/

/-- What a backslash sequence turns out to be. -/
inductive Escaped where
  /-- One character. -/
  | character (escape : Escape)
  /-- A set of characters. -/
  | set (escape : ClassEscape)
  /-- Neither. -/
  | invalid (invalid : Invalid)
  deriving DecidableEq, Repr

namespace Escaped

/-- The sequence between two places names one character. -/
def named (c later : Cursor) (kind : EscapeKind) : Escaped × Cursor :=
  (.character ⟨c.spanTo later, kind⟩, later)

/-- The sequence between two places is invalid. -/
def bad (c later : Cursor) : Escaped × Cursor :=
  (.invalid ⟨c.spanTo later, .badEscape⟩, later)

/-- Read a control escape from its backslash, with the second cursor after the letter c. -/
def readControl (c body : Cursor) : Escaped × Cursor :=
  match body.rest with
  | [] => bad c body
  | letter :: _ =>
    if isControlLetter letter then named c body.next (.controlLetter letter (letter.toNat % 32))
    else bad c body

/-- Read a hexadecimal escape from its backslash, with the second cursor after the letter x. -/
def readHexadecimal (c body : Cursor) : Escaped × Cursor :=
  let digits := body.runUpTo 2 isHexDigit
  let code := Numeral.hexadecimalUpTo Numeral.max32 digits
  if digits.length = 2 then named c (body.past digits) (.hexadecimal code)
  else bad c (body.past digits)

/-- Read a Unicode escape from its backslash, with the second cursor on the letter u. -/
def readUnicode (c body : Cursor) : Escaped × Cursor :=
  match CodePoint.read body with
  | (some codePoint, later) => named c later (.unicode codePoint)
  | (none, later) => bad c later

/-- Read a null escape from its backslash, with the second cursor after the zero, which no digit may
follow. -/
def readNull (c body : Cursor) : Escaped × Cursor :=
  let digits := body.run isDecimalDigit
  if digits = [] then named c body .null else bad c (body.past digits)

/-- Read a property escape from its backslash, with the second cursor after the letter p. -/
def readProperty (negated : Bool) (c body : Cursor) : Escaped × Cursor :=
  match body.accept? '{' with
  | none => bad c body
  | some inside =>
    match UnicodeProperty.read? negated inside with
    | some (property, later) => (.set ⟨c.spanTo later, .property property⟩, later)
    | none => bad c (inside.recover '}' false UnicodeProperty.allows)

/-- Read an `Escaped` whose second character is given, with the first cursor on the backslash and
the second one on that character. -/
def readBody (inClass : Bool) (x : Char) (c body : Cursor) : Escaped × Cursor :=
  if isSpecialEscape x || (inClass && x == 'b') then named c body.next (.special x)
  else if x = 'c' then readControl c body.next
  else if x = 'x' then readHexadecimal c body.next
  -- names share the reader of code points, which begins on the letter
  else if x = 'u' then readUnicode c body
  else if x = '0' then readNull c body.next
  else if isClassEscape x then (.set ⟨c.spanTo body.next, .predefined x⟩, body.next)
  else if x = 'p' || x = 'P' then readProperty (x == 'P') c body.next
  else if isIdentityEscape x || (inClass && isClassIdentityEscape x) then
    named c body.next (.identity x)
  else bad c body.next

/-- Read a backslash sequence with the cursor on the backslash. -/
def read (inClass : Bool) (c : Cursor) : Escaped × Cursor :=
  match c.next.rest with
  | [] => bad c c.next
  | x :: _ => readBody inClass x c c.next

/-! ## What is read lies after the backslash -/

/-- Reading a control letter by `readControl` does not go back. -/
theorem reaches_readControl (c body : Cursor) : body.Reaches (readControl c body).2 := by
  unfold readControl
  split
  · exact Cursor.Reaches.refl _
  · split
    · exact Cursor.reaches_next _
    · exact Cursor.Reaches.refl _

/-- Reading two digits by `readHexadecimal` does not go back. -/
theorem reaches_readHexadecimal (c body : Cursor) : body.Reaches (readHexadecimal c body).2 := by
  have hr := Cursor.reaches_past_runUpTo 2 isHexDigit body
  unfold readHexadecimal
  dsimp only
  split
  · exact hr
  · exact hr

/-- Reading a code point by `readUnicode` does not go back. -/
theorem reaches_readUnicode (c body : Cursor) : body.Reaches (readUnicode c body).2 := by
  have hr := body.reaches_next.trans (CodePoint.reaches_read body)
  unfold readUnicode
  split <;> rename_i hread <;> rw [hread] at hr <;> exact hr

/-- Reading the digits after a zero by `readNull` does not go back. -/
theorem reaches_readNull (c body : Cursor) : body.Reaches (readNull c body).2 := by
  have hr := Cursor.reaches_past_run isDecimalDigit body
  unfold readNull
  dsimp only
  split
  · exact Cursor.Reaches.refl _
  · exact hr

/-- Reading a property by `readProperty` does not go back. -/
theorem reaches_readProperty (negated : Bool) (c body : Cursor) :
    body.Reaches (readProperty negated c body).2 := by
  unfold readProperty
  split
  · exact Cursor.Reaches.refl _
  · rename_i inside hinside
    have hr := Cursor.reaches_of_accept? hinside
    split
    · rename_i hread
      exact hr.trans (UnicodeProperty.reaches_of_read? hread)
    · exact hr.trans (Cursor.reaches_recover _ _ _ inside)

/-- Reading what follows the backslash does not go back. -/
theorem reaches_readBody (inClass : Bool) (x : Char) (c body : Cursor) :
    body.Reaches (readBody inClass x c body).2 := by
  have hn := body.reaches_next
  unfold readBody
  repeat' split
  · exact hn
  · exact hn.trans (reaches_readControl c body.next)
  · exact hn.trans (reaches_readHexadecimal c body.next)
  · exact reaches_readUnicode c body
  · exact hn.trans (reaches_readNull c body.next)
  · exact hn
  · exact hn.trans (reaches_readProperty _ c body.next)
  · exact hn
  · exact hn

/-- Reading an `Escaped` goes beyond the backslash. -/
theorem reaches_read (inClass : Bool) (c : Cursor) : c.next.Reaches (read inClass c).2 := by
  unfold read
  split
  · exact Cursor.Reaches.refl _
  · exact reaches_readBody _ _ _ _

/-- The flag of `readBody`, inside a class or outside, makes a difference only for the letter b and
the dash. -/
theorem readBody_congr (x : Char) (c body : Cursor) (hb : x ≠ 'b') (hd : x ≠ '-') :
    readBody true x c body = readBody false x c body := by
  simp [readBody, isClassIdentityEscape, hb, hd]

end Escaped

end RegexTree
