import Mathlib.Data.List.Basic
import RegexTree.Proofs.Grammar.Readers

/-! # Spellings
A character can be written as itself or as one of several escapes, most of which have numbers in
them. This module says which texts spell a character (`Spelling`) and a list of characters
(`Spells`), in terms of the usual digits of its number, and that the readers make of such a text the
character that is spelled. -/

namespace RegexTree

/-! ## Numbers in base sixteen -/

/-- The text is a number in base sixteen: its digits, in either case, behind any number of zeros. -/
def IsHexNumeral (n : Nat) (digits : List Char) : Prop :=
  ∃ zeros, digits.map Char.toLower = List.replicate zeros '0' ++ Nat.toDigits 16 n

namespace Numeral

/-- The case of a letter makes no difference to the digit that it is. -/
theorem isHexDigit_of_toLower {d : Char} (h : isHexDigit d.toLower = true) :
    isHexDigit d = true ∧ digitValue d.toLower = digitValue d := by
  by_cases hupper : d.isUpper = true
  · -- the letters from A to Z are checked one by one
    have hletter : ∀ n ∈ List.range' 65 26, isHexDigit (Char.ofNat n).toLower = true →
        isHexDigit (Char.ofNat n) = true ∧
          digitValue (Char.ofNat n).toLower = digitValue (Char.ofNat n) := by decide
    have hd : Char.ofNat d.toNat = d := Char.ofNat_toNat d
    have hrange : d.toNat ∈ List.range' 65 26 := by
      obtain ⟨hA, hZ⟩ : 'A'.val ≤ d.val ∧ d.val ≤ 'Z'.val := of_decide_eq_true hupper
      have hlow := UInt32.le_iff_toNat_le.mp hA
      have hhigh := UInt32.le_iff_toNat_le.mp hZ
      rw [List.mem_range'_1]
      exact ⟨hlow, Nat.lt_of_le_of_lt hhigh (by decide)⟩
    exact hd ▸ hletter _ hrange (hd.symm ▸ h)
  · have hlower : d.toLower = d := dif_neg fun hd => hupper (decide_eq_true hd)
    rw [hlower] at h ⊢
    exact ⟨h, rfl⟩

/-- Letters in lower case make the same number. -/
theorem value_map_toLower (base : Nat) {digits : List Char}
    (h : ∀ d ∈ digits, isHexDigit d.toLower = true) :
    value base (digits.map Char.toLower) = value base digits := by
  have hdigit : ∀ d ∈ digits, digitValue d.toLower = digitValue d := fun d hd =>
    (isHexDigit_of_toLower (h d hd)).2
  rw [value, value, List.foldl_map]
  exact List.foldl_ext _ _ _ fun n d hd => by rw [hdigit d hd]

/-- Zeros before a number do not change its `value`. -/
theorem value_replicate_zero (base zeros : Nat) (digits : List Char) :
    value base (List.replicate zeros '0' ++ digits) = value base digits := by
  induction zeros with
  | zero => rfl
  | succ zeros ih => rw [List.replicate_succ, List.cons_append, value_zero_cons, ih]

/-- The digits of a number in base sixteen stand for the number, by `hexadecimal`. -/
theorem hexadecimal_toDigits (n : Nat) :
    (∀ d ∈ Nat.toDigits 16 n, isHexDigit d = true) ∧ hexadecimal (Nat.toDigits 16 n) = n := by
  have hdigit : ∀ k < 16, isHexDigit k.digitChar = true ∧ digitValue k.digitChar = k := by decide
  induction n using Nat.strongRecOn with
  | ind n ih =>
    rw [Nat.toDigits_eq_if (by decide)]
    by_cases hlt : n < 16
    · rw [if_pos hlt]
      obtain ⟨hhex, hvalue⟩ := hdigit n hlt
      exact ⟨by simp [hhex], by simp [hexadecimal, value, hvalue]⟩
    · rw [if_neg hlt]
      obtain ⟨hhexRest, hrest⟩ := ih (n / 16) (by omega)
      obtain ⟨hhex, hvalue⟩ := hdigit (n % 16) (by omega)
      refine ⟨List.forall_mem_append.mpr ⟨hhexRest, by simp [hhex]⟩, ?_⟩
      rw [hexadecimal, value_concat, hvalue]
      rw [hexadecimal] at hrest
      omega

end Numeral

namespace IsHexNumeral

variable {n : Nat} {digits : List Char}

/-- In lower case an `IsHexNumeral` has only digits. -/
theorem isHexDigit_toLower (h : IsHexNumeral n digits) :
    ∀ d ∈ digits, isHexDigit d.toLower = true := by
  obtain ⟨zeros, hlower⟩ := h
  have hzeros : ∀ d ∈ List.replicate zeros '0', isHexDigit d = true := by
    intro d hd
    rw [List.eq_of_mem_replicate hd]
    decide
  have hall := List.forall_mem_append.mpr ⟨hzeros, (Numeral.hexadecimal_toDigits n).1⟩
  rw [← hlower] at hall
  exact fun d hd => hall _ (List.mem_map_of_mem hd)

/-- A number in base sixteen has only digits. -/
theorem forall_isHexDigit (h : IsHexNumeral n digits) : ∀ d ∈ digits, isHexDigit d = true :=
  fun d hd => (Numeral.isHexDigit_of_toLower (h.isHexDigit_toLower d hd)).1

/-- A number in base sixteen stands for the number. -/
theorem hexadecimal_eq (h : IsHexNumeral n digits) : Numeral.hexadecimal digits = n := by
  obtain ⟨zeros, hlower⟩ := id h
  calc Numeral.hexadecimal digits
      = Numeral.hexadecimal (digits.map Char.toLower) :=
        (Numeral.value_map_toLower 16 h.isHexDigit_toLower).symm
    _ = Numeral.hexadecimal (List.replicate zeros '0' ++ Nat.toDigits 16 n) := by rw [hlower]
    _ = Numeral.hexadecimal (Nat.toDigits 16 n) := Numeral.value_replicate_zero 16 zeros _
    _ = n := (Numeral.hexadecimal_toDigits n).2

/-- A number in base sixteen has a digit. -/
theorem ne_nil (h : IsHexNumeral n digits) : digits ≠ [] := by
  obtain ⟨zeros, hlower⟩ := h
  rintro rfl
  exact Nat.toDigits_ne_nil (List.append_eq_nil_iff.mp hlower.symm).2

end IsHexNumeral

/-! ## Spellings of a character -/

/-- The control characters that have a letter of their own, with the letter. -/
def letterEscapes : List (Char × Char) :=
  [('f', '\x0c'), ('n', '\n'), ('r', '\r'), ('t', '\t'), ('v', '\x0b')]

/-- The texts that spell a character, inside a class or outside. -/
inductive Spelling (inClass : Bool) (x : Char) : List Char → Prop where
  /-- The character itself, if it has no meaning of its own. -/
  | literal (hx : x ∉ syntaxChars) (hdash : inClass = true → x ≠ '-') : Spelling inClass x [x]
  /-- A backslash and the character, if it has a meaning of its own or is a slash. -/
  | identity (hx : (x ∈ syntaxChars ∨ x = '/') ∨ inClass = true ∧ x = '-') :
      Spelling inClass x ['\\', x]
  /-- The letter of a control character. -/
  | letter {l : Char} (hl : (l, x) ∈ letterEscapes) : Spelling inClass x ['\\', l]
  /-- The letter for a backspace, which only a class has. -/
  | backspace (hclass : inClass = true) (hx : x = '\x08') : Spelling inClass x ['\\', 'b']
  /-- The letter whose place in the alphabet is the code of a control character, in either case. -/
  | control {l : Char} (hx : 1 ≤ x.toNat ∧ x.toNat ≤ 26)
      (hl : l.toNat = 64 + x.toNat ∨ l.toNat = 96 + x.toNat) : Spelling inClass x ['\\', 'c', l]
  /-- Two hexadecimal digits. -/
  | hexadecimal {digits : List Char} (hlength : digits.length = 2)
      (hdigits : IsHexNumeral x.toNat digits) : Spelling inClass x ('\\' :: 'x' :: digits)
  /-- Four hexadecimal digits. -/
  | unicode {digits : List Char} (hlength : digits.length = 4)
      (hdigits : IsHexNumeral x.toNat digits) : Spelling inClass x ('\\' :: 'u' :: digits)
  /-- Any number of hexadecimal digits in braces. -/
  | braced {digits : List Char} (hdigits : IsHexNumeral x.toNat digits) :
      Spelling inClass x ('\\' :: ('u' :: '{' :: digits ++ ['}']))
  /-- The digit zero for the null character. -/
  | null (hx : x = '\x00') : Spelling inClass x ['\\', '0']

/-- A text spells characters if it is made of their spellings in a row, and no decimal digit stands
behind a zero that spells a character. -/
inductive Spells (inClass : Bool) : List Char → List Char → Prop where
  /-- No characters. -/
  | nil : Spells inClass [] []
  /-- A character and those after it. -/
  | cons {x : Char} {w value text : List Char} (hw : Spelling inClass x w)
      (hnext : w = ['\\', '0'] → ∀ y, text.head? = some y → isDecimalDigit y = false)
      (hrest : Spells inClass value text) : Spells inClass (x :: value) (w ++ text)

namespace Spelling

variable {inClass : Bool} {x : Char} {w : List Char} {c later : Cursor}

/-- The letter at a place of the alphabet is a control letter and names the control character with
the number of the place. -/
theorem control_of_toNat {l : Char} (hx : 1 ≤ x.toNat ∧ x.toNat ≤ 26)
    (hl : l.toNat = 64 + x.toNat ∨ l.toNat = 96 + x.toNat) :
    isControlLetter l = true ∧ l.toNat % 32 = x.toNat := by
  refine ⟨?_, by omega⟩
  have hletter : ∀ n ∈ List.range' 65 26 ++ List.range' 97 26,
      isControlLetter (Char.ofNat n) = true := by decide
  have hrange : l.toNat ∈ List.range' 65 26 ++ List.range' 97 26 := by
    simp only [List.mem_append, List.mem_range'_1]
    omega
  have hchar := hletter l.toNat hrange
  rwa [Char.ofNat_toNat] at hchar

/-- The number of a character is no larger than `CodePoint.last`. -/
theorem toNat_le_last (x : Char) : x.toNat ≤ CodePoint.last := by
  have hvalid : x.toNat.isValidChar := x.valid
  simp only [Nat.isValidChar] at hvalid
  simp only [CodePoint.last]
  omega

/-- A number in base sixteen stands for the character with this number. -/
theorem toChar?_hexadecimal {digits : List Char} (h : IsHexNumeral x.toNat digits) :
    CodePoint.toChar? (Numeral.hexadecimal digits) = some x := by
  rw [h.hexadecimal_eq, CodePoint.toChar?_toNat]

/-- A `Spelling` is the character itself or an escape with this character as its value. -/
theorem literal_or_takes (h : Spelling inClass x w) (hread : c.Reads w later)
    (hnext : w = ['\\', '0'] → ∀ y, later.rest.head? = some y → isDecimalDigit y = false) :
    (w = [x] ∧ x ∉ syntaxChars ∧ (inClass = true → x ≠ '-')) ∨
      ∃ e : Escape, Escaped.Takes inClass c later (.character e) ∧ e.value = some x := by
  cases h with
  | literal hx hdash => exact .inl ⟨rfl, hx, hdash⟩
  | identity hx =>
    rw [← isIdentityEscape_iff] at hx
    exact .inr ⟨_, .identity hx hread, rfl⟩
  | letter hl =>
    have hletters : ∀ p ∈ letterEscapes,
        isSpecialEscape p.1 = true ∧ specialChar? p.1 = some p.2 := by decide
    obtain ⟨hspecial, hvalue⟩ := hletters _ hl
    exact .inr ⟨_, .special (.inl hspecial) hread, hvalue⟩
  | backspace hclass hx => exact .inr ⟨_, .special (.inr ⟨hclass, rfl⟩) hread, hx ▸ rfl⟩
  | control hx hl =>
    obtain ⟨hletter, hcode⟩ := control_of_toNat hx hl
    have hvalue := (congrArg CodePoint.toChar? hcode).trans (CodePoint.toChar?_toNat x)
    exact .inr ⟨_, .controlLetter hletter hread, hvalue⟩
  | hexadecimal hlength hdigits =>
    exact .inr ⟨_, .hexadecimal hlength hdigits.forall_isHexDigit hread,
      toChar?_hexadecimal hdigits⟩
  | unicode hlength hdigits =>
    exact .inr ⟨_, .unicode (.plain hlength hdigits.forall_isHexDigit) hread,
      toChar?_hexadecimal hdigits⟩
  | braced hdigits =>
    have hle := Nat.le_trans (Nat.le_of_eq hdigits.hexadecimal_eq) (toNat_le_last x)
    exact .inr ⟨_, .unicode (.braced hdigits.ne_nil hdigits.forall_isHexDigit hle) hread,
      toChar?_hexadecimal hdigits⟩
  | null hx => exact .inr ⟨_, .null hread (hnext rfl), hx ▸ rfl⟩

/-- A spelling begins with the character itself or with a backslash. -/
theorem exists_cons (h : Spelling inClass x w) :
    ∃ y u, w = y :: u ∧ (y = '\\' ∨ y ∉ syntaxChars ∧ (inClass = true → y ≠ '-')) := by
  cases h with
  | literal hx hdash => exact ⟨x, [], rfl, .inr ⟨hx, hdash⟩⟩
  | _ => exact ⟨'\\', _, rfl, .inl rfl⟩

end Spelling

end RegexTree
