import RegexTree.Cursor
import RegexTree.Numeral

/-! # Code points in escapes
A code point is written as four hexadecimal digits after the letter u, or as any number of them in
braces. The braced form has no value above the last code point of Unicode (`CodePoint.last`).
Failing, the reader still leaves the digits behind, and the closing brace where there is one. -/

namespace RegexTree

/-- A code point as written in an escape. -/
structure CodePoint where
  /-- The number that the digits stand for. -/
  value : Nat
  /-- The digits stand in braces. -/
  braced : Bool
  deriving DecidableEq, Repr

namespace CodePoint

/-- The last code point of Unicode. -/
def last : Nat := 0x10FFFF

/-- A number as a character, unless it is a surrogate or too large. -/
def toChar? (n : Nat) : Option Char :=
  if h : n.isValidChar then some (Char.ofNatAux n h) else none

/-- Read what follows an opening brace. -/
def readBraced (c : Cursor) : Option CodePoint × Cursor :=
  let digits := c.run isHexDigit
  let value := Numeral.hexadecimalUpTo Numeral.max32 digits
  match (c.past digits).accept? '}' with
  | none => (none, c.past digits)
  | some later => (if digits ≠ [] ∧ value ≤ last then some ⟨value, true⟩ else none, later)

/-- Read four digits. -/
def readPlain (c : Cursor) : Option CodePoint × Cursor :=
  let digits := c.runUpTo 4 isHexDigit
  let value := Numeral.hexadecimalUpTo Numeral.max32 digits
  (if digits.length = 4 then some ⟨value, false⟩ else none, c.past digits)

/-- Read a code point with the cursor on the letter u: `readBraced` where a brace follows, else
`readPlain`. -/
def read (c : Cursor) : Option CodePoint × Cursor :=
  match c.next.accept? '{' with
  | some inside => readBraced inside
  | none => readPlain c.next

/-- Reading the braced form does not go back. -/
theorem reaches_readBraced (c : Cursor) : c.Reaches (readBraced c).2 := by
  have hrun := Cursor.reaches_past_run isHexDigit c
  unfold readBraced
  dsimp only
  split
  · exact hrun
  · exact hrun.trans (Cursor.reaches_of_accept? (by assumption))

/-- Reading the form of four digits does not go back. -/
theorem reaches_readPlain (c : Cursor) : c.Reaches (readPlain c).2 :=
  Cursor.reaches_past_runUpTo 4 isHexDigit c

/-- Reading a `CodePoint` goes beyond the letter. -/
theorem reaches_read (c : Cursor) : c.next.Reaches (read c).2 := by
  unfold read
  split
  · exact (Cursor.reaches_of_accept? (by assumption)).trans (reaches_readBraced _)
  · exact reaches_readPlain _

/-- What a character's code point stands for by `toChar?` is that character. -/
theorem toChar?_toNat (c : Char) : toChar? c.toNat = some c := by
  have h : c.toNat.isValidChar := c.valid
  rw [toChar?, dif_pos h]
  rfl

/-- The character that `toChar?` gives for a number has this number. -/
theorem toNat_of_toChar? {n : Nat} {x : Char} (h : toChar? n = some x) : x.toNat = n := by
  unfold toChar? at h
  by_cases hn : n.isValidChar
  · rw [dif_pos hn] at h
    obtain rfl := Option.some.inj h
    rfl
  · rw [dif_neg hn] at h
    cases h

end CodePoint

end RegexTree
