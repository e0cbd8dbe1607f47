import RegexTree.Proofs.Spelling.Basic
import RegexTree.Proofs.Words
import RegexTree.Text.Quoted

/-! # Reading quoted texts
A quoted text is read back one written form at a time: what follows a backslash says which character
is meant, and every other character but the quote stands for itself. The main statements are that
reading gives back every text that was quoted, whichever characters are taken as unreadable
(`unquote?_quoted`), and that there is no line end between the quotes. -/

namespace RegexTree.Text

/-! ## Written forms -/

/-- The characters that are written as a backslash and a letter, with the letter. -/
def quotedLetters : List (Char × Char) :=
  [('0', '\x00'), ('t', '\t'), ('r', '\r'), ('n', '\n'), ('\\', '\\'), ('"', '"')]

/-- The forms in which a character can stand between quotes. -/
inductive QuotedForm (c : Char) : List Char → Prop where
  /-- A backslash and a letter. -/
  | letter {l : Char} (hl : (l, c) ∈ quotedLetters) : QuotedForm c ['\\', l]
  /-- The code point in braces. -/
  | codePoint : QuotedForm c ('\\' :: 'u' :: '{' :: (Nat.toDigits 16 c.toNat ++ ['}']))
  /-- The character itself, if it would not end the text, the line or begin another form. -/
  | itself (hquote : c ≠ '"') (hline : c ≠ '\n') (hslash : c ≠ '\\') : QuotedForm c [c]

/-- Every character is written by `quotedChar` in one of the forms. -/
theorem quotedForm_quotedChar (c : Char) : QuotedForm c (quotedChar c).toList := by
  by_cases hletter : c ∈ quotedLetters.map Prod.snd
  · obtain ⟨⟨l, _⟩, hl, rfl⟩ := List.mem_map.mp hletter
    have hall : ∀ p ∈ quotedLetters, (quotedChar p.2).toList = ['\\', p.1] := by decide
    rw [hall _ hl]
    exact .letter hl
  · simp only [quotedLetters, List.map_cons, List.map_nil, List.mem_cons, List.not_mem_nil,
      or_false, not_or] at hletter
    obtain ⟨hnull, htab, hreturn, hline, hslash, hquote⟩ := hletter
    rw [quotedChar, if_neg hnull, if_neg htab, if_neg hreturn, if_neg hline, if_neg hslash,
      if_neg hquote]
    by_cases hunreadable : isUnreadable c = true
    · have hform : ("\\u\x7b" ++ hexDigits c.toNat ++ "\x7d").toList =
          '\\' :: 'u' :: '{' :: (Nat.toDigits 16 c.toNat ++ ['}']) := by
        simp [hexDigits]
      rw [if_pos hunreadable, hform]
      exact .codePoint
    · rw [if_neg hunreadable, Char.toString_eq_singleton, String.toList_singleton]
      exact .itself hquote hline hslash

/-- Putting texts together puts their characters together. -/
theorem toList_foldl_append {α : Type} (f : α → String) (xs : List α) (out : String) :
    (xs.foldl (fun out x => out ++ f x) out).toList =
      out.toList ++ xs.flatMap fun x => (f x).toList := by
  induction xs generalizing out with
  | nil => rw [List.foldl_nil, List.flatMap_nil, List.append_nil]
  | cons x xs ih =>
    rw [List.foldl_cons, ih, String.toList_append, List.append_assoc, List.flatMap_cons]

/-- The written forms of a text, one after the other. -/
def quotedBody (text : List Char) : List Char := text.flatMap fun c => (quotedChar c).toList

/-- A quoted text is the written forms of its characters (`quotedBody`) between quotes. -/
theorem toList_quoted (text : String) :
    (quoted text).toList = '"' :: (quotedBody text.toList ++ ['"']) := by
  rw [quoted, String.toList_push, toList_foldl_append]
  rfl

/-- Digits in base sixteen are not line ends. -/
theorem newline_not_mem_toDigits (n : Nat) : '\n' ∉ Nat.toDigits 16 n := by
  intro hmem
  have hdigit := (Numeral.hexadecimal_toDigits n).1 _ hmem
  exact absurd hdigit (by decide)

/-- No `QuotedForm` has a line end in it. -/
theorem QuotedForm.newline_not_mem {c : Char} {form : List Char} (h : QuotedForm c form) :
    '\n' ∉ form := by
  cases h with
  | letter hl =>
    have hall : ∀ p ∈ quotedLetters, '\n' ∉ ['\\', p.1] := by decide
    exact hall _ hl
  | codePoint => simp [newline_not_mem_toDigits]
  | itself hquote hline hslash => simpa using Ne.symm hline

/-- There is no line end in a quoted text. -/
theorem newline_not_mem_quoted (text : String) : '\n' ∉ (quoted text).toList := by
  have hbody : '\n' ∉ quotedBody text.toList := by
    rw [quotedBody, List.mem_flatMap]
    rintro ⟨c, -, hmem⟩
    exact (quotedForm_quotedChar c).newline_not_mem hmem
  simp [toList_quoted, hbody]

/-! ## Reading -/

/-- The character whose code point stands before a closing brace, and what stands behind the
brace. -/
def readBraced? (text : List Char) : Option (Char × List Char) :=
  match text.dropWhile isHexDigit with
  | '}' :: rest =>
    (CodePoint.toChar? (Numeral.hexadecimal (text.takeWhile isHexDigit))).map (·, rest)
  | _ => none

/-- The character whose form a text begins with, and what stands behind the form. -/
def readQuotedChar? : List Char → Option (Char × List Char)
  | [] => none
  | '"' :: _ => none
  | '\\' :: 'u' :: '{' :: text => readBraced? text
  | '\\' :: l :: rest => (quotedLetters.lookup l).map (·, rest)
  | ['\\'] => none
  | c :: rest => some (c, rest)

/-- What stands behind the closing brace is shorter. -/
theorem length_lt_of_readBraced? {text rest : List Char} {c : Char}
    (h : readBraced? text = some (c, rest)) : rest.length < text.length := by
  rw [readBraced?] at h
  split at h
  · next later hdrop =>
    obtain ⟨x, -, heq⟩ := Option.map_eq_some_iff.mp h
    cases heq
    have hle := (List.dropWhile_suffix isHexDigit (l := text)).length_le
    rw [hdrop, List.length_cons] at hle
    omega
  · cases h

/-- What stands behind a form is shorter. -/
theorem length_lt_of_readQuotedChar? {text rest : List Char} {c : Char}
    (h : readQuotedChar? text = some (c, rest)) : rest.length < text.length := by
  unfold readQuotedChar? at h
  split at h
  · cases h
  · cases h
  · have hlt := length_lt_of_readBraced? h
    simp only [List.length_cons]
    omega
  · obtain ⟨x, -, heq⟩ := Option.map_eq_some_iff.mp h
    cases heq
    simp only [List.length_cons]
    omega
  · cases h
  · cases h
    exact Nat.lt_succ_self _

/-- The text whose forms stand before a closing quote, which is the last character. -/
def unquoteFrom? (text : List Char) : Option (List Char) :=
  if text = ['"'] then some []
  else
    match _h : readQuotedChar? text with
    | none => none
    | some (c, rest) => (unquoteFrom? rest).map (c :: ·)
termination_by text.length
decreasing_by exact length_lt_of_readQuotedChar? _h

/-- The text that a quoted text was made of. -/
def unquote? (text : String) : Option String :=
  match text.toList with
  | '"' :: rest => (unquoteFrom? rest).map String.ofList
  | _ => none

/-- A code point in braces is read by `readBraced?` as its character. -/
theorem readBraced?_toDigits (c : Char) (rest : List Char) :
    readBraced? (Nat.toDigits 16 c.toNat ++ '}' :: rest) = some (c, rest) := by
  obtain ⟨hdigits, hvalue⟩ := Numeral.hexadecimal_toDigits c.toNat
  have hbrace : ∀ y ∈ ('}' :: rest).head?, isHexDigit y = false := by
    rintro _ ⟨⟩
    rfl
  obtain ⟨htake, hdrop⟩ := takeWhile_dropWhile_append hdigits hbrace
  rw [readBraced?, htake, hdrop, hvalue, CodePoint.toChar?_toNat]
  rfl

/-- A form is read as the character that it is a form of. -/
theorem QuotedForm.readQuotedChar?_append {c : Char} {form : List Char} (h : QuotedForm c form)
    (rest : List Char) : readQuotedChar? (form ++ rest) = some (c, rest) := by
  cases h with
  | @letter l hl =>
    have hlookup : ∀ p ∈ quotedLetters, p.1 ≠ 'u' ∧ quotedLetters.lookup p.1 = some p.2 := by decide
    obtain ⟨hu, hc⟩ := hlookup _ hl
    show readQuotedChar? ('\\' :: l :: rest) = some (c, rest)
    rw [readQuotedChar?, hc, Option.map_some]
    exact fun _ hl _ => hu hl
  | codePoint =>
    show readQuotedChar? ('\\' :: 'u' :: '{' :: (Nat.toDigits 16 c.toNat ++ ['}'] ++ rest)) = _
    rw [readQuotedChar?, List.append_assoc, List.singleton_append, readBraced?_toDigits]
  | itself hquote hline hslash =>
    show readQuotedChar? (c :: rest) = some (c, rest)
    rw [readQuotedChar?]
    · exact hquote
    · exact fun _ hc _ => hslash hc
    · exact fun _ _ hc _ => hslash hc
    · exact fun hc _ => hslash hc

/-- Reading back what was quoted gives the text. -/
theorem unquoteFrom?_quotedBody (text : List Char) :
    unquoteFrom? (quotedBody text ++ ['"']) = some text := by
  induction text with
  | nil => rw [unquoteFrom?]; rfl
  | cons c text ih =>
    have hread := (quotedForm_quotedChar c).readQuotedChar?_append (quotedBody text ++ ['"'])
    have hcons : quotedBody (c :: text) ++ ['"'] =
        (quotedChar c).toList ++ (quotedBody text ++ ['"']) := List.append_assoc _ _ _
    have hne : (quotedChar c).toList ++ (quotedBody text ++ ['"']) ≠ ['"'] := by
      -- a form cannot be read from a quote
      intro hquote
      rw [hquote] at hread
      cases hread
    rw [hcons, unquoteFrom?, if_neg hne]
    split
    · next hnone =>
      rw [hread] at hnone
      cases hnone
    · next d rest hsome =>
      rw [hread] at hsome
      cases hsome
      rw [ih, Option.map_some]

/-- A quoted text is read back as the text that was quoted. -/
theorem unquote?_quoted (text : String) : unquote? (quoted text) = some text := by
  rw [unquote?, toList_quoted]
  show (unquoteFrom? (quotedBody text.toList ++ ['"'])).map String.ofList = some text
  rw [unquoteFrom?_quotedBody, Option.map_some, String.ofList_toList]

end RegexTree.Text
