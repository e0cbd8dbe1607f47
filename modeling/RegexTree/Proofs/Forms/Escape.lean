import RegexTree.Escape.Basic
import RegexTree.Proofs.Numerals
import RegexTree.Proofs.Places

/-! # Forms of escapes
What a backslash sequence is made of, form by form, valid or not. The main statement,
`Escaped.takes_read`, says that the reader of escapes always takes one of these forms, so that
everything else about escapes follows from a case distinction on forms. -/

namespace RegexTree

/-! ## Code points -/

namespace CodePoint

/-- The texts of a `CodePoint`, from its letter on. -/
inductive Form : CodePoint → List Char → Prop where
  /-- Four digits after the letter. -/
  | plain {digits : List Char} (hlength : digits.length = 4)
      (hdigits : ∀ d ∈ digits, isHexDigit d = true) :
      Form ⟨Numeral.hexadecimal digits, false⟩ ('u' :: digits)
  /-- Digits in braces, whose value is no larger than the last code point. -/
  | braced {digits : List Char} (hne : digits ≠ [])
      (hdigits : ∀ d ∈ digits, isHexDigit d = true)
      (hle : Numeral.hexadecimal digits ≤ last) :
      Form ⟨Numeral.hexadecimal digits, true⟩ ('u' :: '{' :: digits ++ ['}'])

/-- The value of a code point that is written is no larger than `last`. -/
theorem Form.value_le {p : CodePoint} {w : List Char} (h : Form p w) : p.value ≤ last := by
  cases h with
  | plain hlength hdigits => exact Numeral.hexadecimal_le_last (Nat.le_of_eq hlength)
  | braced hne hdigits hle => exact hle

/-- The texts that are taken, from the letter on, where there is no `CodePoint.Form`. -/
inductive BadForm : List Char → Prop where
  /-- Fewer than four digits. -/
  | short {digits : List Char} (hlength : digits.length < 4)
      (hdigits : ∀ d ∈ digits, isHexDigit d = true) : BadForm ('u' :: digits)
  /-- Digits after a brace that is not closed. -/
  | unclosed {digits : List Char} (hdigits : ∀ d ∈ digits, isHexDigit d = true) :
      BadForm ('u' :: '{' :: digits)
  /-- Braces around no digits or around too large a number. -/
  | closed {digits : List Char} (hdigits : ∀ d ∈ digits, isHexDigit d = true)
      (hvalue : digits = [] ∨ last < Numeral.hexadecimal digits) :
      BadForm ('u' :: '{' :: digits ++ ['}'])

/-- A number is read as a code point exactly where it is one: what saturates in
`Numeral.hexadecimalUpTo` stays above the last code point. -/
theorem hexadecimalUpTo_le_last_iff (digits : List Char) :
    Numeral.hexadecimalUpTo Numeral.max32 digits ≤ last ↔ Numeral.hexadecimal digits ≤ last := by
  have hlast : last < Numeral.max32 := by decide
  rw [Numeral.hexadecimalUpTo_eq_min]
  omega

/-- A code point is read exactly. -/
theorem hexadecimalUpTo_of_le_last {digits : List Char} (h : Numeral.hexadecimal digits ≤ last) :
    Numeral.hexadecimalUpTo Numeral.max32 digits = Numeral.hexadecimal digits := by
  have hlast : last ≤ Numeral.max32 := by decide
  exact Numeral.hexadecimalUpTo_eq (Nat.le_trans h hlast)

/-- What reading a code point takes, by its result: a `Form` or a `BadForm`. -/
def Takes (c later : Cursor) : Option CodePoint → Prop
  | some p => ∃ w, Form p w ∧ c.Reads w later
  | none => ∃ w, BadForm w ∧ c.Reads w later

/-- Reading by `readBraced` takes one of the forms with a brace. -/
theorem takes_readBraced {c inside : Cursor} (h : c.Reads ['u', '{'] inside) :
    Takes c (readBraced inside).2 (readBraced inside).1 := by
  have hrun := Cursor.reads_run isHexDigit inside
  have hdigits : ∀ d ∈ inside.run isHexDigit, isHexDigit d = true := fun d hd =>
    Cursor.of_mem_run hd
  unfold readBraced
  dsimp only
  split
  · exact ⟨_, .unclosed hdigits, h.trans hrun⟩
  · rename_i later hclose
    have hread := h.trans (hrun.trans (Cursor.reads_of_accept? hclose))
    by_cases hvalid : inside.run isHexDigit ≠ [] ∧
        Numeral.hexadecimal (inside.run isHexDigit) ≤ last
    · rw [hexadecimalUpTo_of_le_last hvalid.2, if_pos hvalid]
      exact ⟨_, .braced hvalid.1 hdigits hvalid.2, hread⟩
    · have hsaturated : ¬ (inside.run isHexDigit ≠ [] ∧
          Numeral.hexadecimalUpTo Numeral.max32 (inside.run isHexDigit) ≤ last) :=
        fun h => hvalid ⟨h.1, (hexadecimalUpTo_le_last_iff _).mp h.2⟩
      rw [if_neg hsaturated]
      refine ⟨_, .closed hdigits ?_, hread⟩
      by_cases hne : inside.run isHexDigit = []
      · exact .inl hne
      · exact .inr (Nat.lt_of_not_le fun hle => hvalid ⟨hne, hle⟩)

/-- Reading by `readPlain` takes at most four digits. -/
theorem takes_readPlain {c body : Cursor} (h : c.Reads ['u'] body) :
    Takes c (readPlain body).2 (readPlain body).1 := by
  have hrun := h.trans (Cursor.reads_runUpTo 4 isHexDigit body)
  have hdigits : ∀ d ∈ body.runUpTo 4 isHexDigit, isHexDigit d = true := fun d hd =>
    Cursor.of_mem_runUpTo hd
  have hle := Cursor.length_runUpTo_le 4 isHexDigit body
  unfold readPlain
  dsimp only
  by_cases hlength : (body.runUpTo 4 isHexDigit).length = 4
  · rw [if_pos hlength, hexadecimalUpTo_of_le_last (Numeral.hexadecimal_le_last hle)]
    exact ⟨_, .plain hlength hdigits, hrun⟩
  · rw [if_neg hlength]
    exact ⟨_, .short (Nat.lt_of_le_of_ne hle hlength) hdigits, hrun⟩

/-- Reading a code point by `CodePoint.read` takes one of its forms, valid or not. -/
theorem takes_read {c : Cursor} {t : List Char} (h : c.rest = 'u' :: t) :
    Takes c (read c).2 (read c).1 := by
  have hletter := Cursor.reads_next h
  unfold read
  split
  · rename_i inside hbrace
    exact takes_readBraced (hletter.trans (Cursor.reads_of_accept? hbrace))
  · exact takes_readPlain hletter

/-- A code point is read where a `Form` of it stands. -/
theorem read_of_form {p : CodePoint} {w : List Char} (hp : Form p w) {c later : Cursor}
    (h : c.Reads w later) : read c = (some p, later) := by
  cases hp with
  | @plain digits hlength hdigits =>
    obtain ⟨body, hletter, hread⟩ := Cursor.reads_cons_iff.mp h
    obtain rfl := hletter.eq_next
    -- a hexadecimal digit stands where the other form has its brace
    have hbrace : c.next.rest.head? ≠ some '{' := by
      obtain ⟨d, ds, rfl⟩ := List.exists_cons_of_length_eq_add_one hlength
      rw [hread.1, List.cons_append, List.head?_cons]
      intro hd
      have := hdigits d (by simp)
      rw [Option.some.inj hd] at this
      exact absurd this (by decide)
    have hrun : c.next.runUpTo 4 isHexDigit = digits :=
      Cursor.runUpTo_of_rest hread.1 hlength hdigits
    rw [read, Cursor.accept?_eq_none hbrace]
    have hlast := Numeral.hexadecimal_le_last (Nat.le_of_eq hlength)
    simp only [readPlain, hrun, if_pos hlength, hexadecimalUpTo_of_le_last hlast]
    rw [hread.unique (Cursor.reads_past ⟨later.rest, hread.1.symm⟩)]
  | @braced digits hne hdigits hle =>
    rw [List.cons_append, List.cons_append] at h
    obtain ⟨body, hletter, hread⟩ := Cursor.reads_cons_iff.mp h
    obtain ⟨inside, hbrace, hread⟩ := Cursor.reads_cons_iff.mp hread
    obtain ⟨close, hrun, hclose⟩ := Cursor.reads_append_iff.mp hread
    obtain rfl := hletter.eq_next
    obtain rfl := hbrace.eq_next
    obtain rfl := hclose.eq_next
    have hdigitRun : c.next.next.run isHexDigit = digits :=
      Cursor.run_of_rest hrun.1 hdigits (hclose.forall_head (by decide))
    have hpast : c.next.next.past digits = close :=
      (Cursor.reads_past ⟨close.rest, hrun.1.symm⟩).unique hrun
    rw [read, Cursor.accept?_of_head hbrace.1]
    simp only [readBraced, hdigitRun, hpast, Cursor.accept?_of_head hclose.1]
    rw [hexadecimalUpTo_of_le_last hle, if_pos ⟨hne, hle⟩]

end CodePoint

/-! ## Properties -/

/-- A word of a property: it is not empty and has only characters that are `isPropertyChar`. -/
def PropertyToken.IsWord (word : List Char) : Prop :=
  word ≠ [] ∧ ∀ x ∈ word, isPropertyChar x = true

/-- A word that is read is an `IsWord` of the text. -/
theorem PropertyToken.reads_of_read? {c later : Cursor} {t : PropertyToken}
    (h : read? c = some (t, later)) :
    ∃ word, IsWord word ∧ c.Reads word later ∧ t = ⟨String.ofList word, c.spanTo later⟩ := by
  unfold read? at h
  dsimp only at h
  split at h
  · cases h
  · rename_i hne
    cases h
    exact ⟨_, ⟨hne, fun x hx => Cursor.of_mem_run hx⟩, Cursor.reads_run _ _, rfl⟩

/-- A word is read as far as it goes. -/
theorem PropertyToken.read?_of_isWord {c later : Cursor} {word : List Char} (hword : IsWord word)
    (h : c.Reads word later) (hend : ∀ x, later.rest.head? = some x → isPropertyChar x = false) :
    read? c = some (⟨String.ofList word, c.spanTo later⟩, later) := by
  have hrun := Cursor.run_of_rest h.1 hword.2 hend
  have hpast := (Cursor.reads_past ⟨later.rest, h.1.symm⟩).unique h
  simp only [read?, hrun, hpast, if_neg hword.1]

namespace UnicodeProperty

/-- What stands between the braces of a property, with or without a name. -/
inductive Form (negated : Bool) (c later : Cursor) : UnicodeProperty → Prop where
  /-- A value alone. -/
  | value {word : List Char} (hword : PropertyToken.IsWord word) (hread : c.Reads word later) :
      Form negated c later ⟨negated, none, ⟨String.ofList word, c.spanTo later⟩⟩
  /-- A name, an equals sign and a value. -/
  | named {name word : List Char} {afterName afterOperator : Cursor}
      (hname : PropertyToken.IsWord name) (hreadName : c.Reads name afterName)
      (hoperator : afterName.Reads ['='] afterOperator)
      (hword : PropertyToken.IsWord word) (hread : afterOperator.Reads word later) :
      Form negated c later ⟨negated,
        some ⟨⟨String.ofList name, c.spanTo afterName⟩, afterName.spanTo afterOperator⟩,
        ⟨String.ofList word, afterOperator.spanTo later⟩⟩

/-- What stands between the braces ends at a later place. -/
theorem Form.reaches {negated : Bool} {c later : Cursor} {p : UnicodeProperty}
    (h : Form negated c later p) : c.Reaches later := by
  cases h with
  | value hword hread => exact hread.reaches
  | named hname hreadName hoperator hword hread =>
    exact ((hreadName.trans hoperator).trans hread).reaches

/-- What `read?` reads between the braces has one of the two forms, and the closing brace
follows. -/
theorem form_of_read? {negated : Bool} {c later : Cursor} {p : UnicodeProperty}
    (h : read? negated c = some (p, later)) :
    ∃ close, Form negated c close p ∧ close.Reads ['}'] later := by
  simp only [read?, Option.bind_eq_bind, Option.bind_eq_some_iff, Prod.exists] at h
  obtain ⟨q, close, hbody, after, hclose, heq⟩ := h
  cases heq
  refine ⟨close, ?_, Cursor.reads_of_accept? hclose⟩
  simp only [readBody?, Option.bind_eq_bind, Option.bind_eq_some_iff, Prod.exists] at hbody
  obtain ⟨first, afterFirst, hfirst, hbody⟩ := hbody
  obtain ⟨word, hword, hread, rfl⟩ := PropertyToken.reads_of_read? hfirst
  split at hbody
  · cases hbody
    exact .value hword hread
  · rename_i afterOperator hoperator
    simp only [Option.bind_eq_some_iff, Prod.exists] at hbody
    obtain ⟨value, afterValue, hvalue, heq⟩ := hbody
    obtain ⟨second, hsecond, hreadSecond, rfl⟩ := PropertyToken.reads_of_read? hvalue
    cases heq
    exact .named hword hread (Cursor.reads_of_accept? hoperator) hsecond hreadSecond

/-- A property is read by `read?` where a `Form` of it stands before a closing brace. -/
theorem read?_of_form {negated : Bool} {c close later : Cursor} {p : UnicodeProperty}
    (hp : Form negated c close p) (h : close.Reads ['}'] later) :
    read? negated c = some (p, later) := by
  -- words are read as far as they go, so each must end where the next token begins
  have hbrace : ∀ x, close.rest.head? = some x → isPropertyChar x = false :=
    h.forall_head (by decide)
  obtain rfl := h.eq_next
  cases hp with
  | value hword hread =>
    have hoperator : close.rest.head? ≠ some '=' := by
      simp [h.1]
    simp [read?, readBody?, PropertyToken.read?_of_isWord hword hread hbrace,
      Cursor.accept?_eq_none hoperator, Cursor.accept?_of_head h.1]
  | @named name word afterName afterOperator hname hreadName hoperator hword hread =>
    have hequals : ∀ x, afterName.rest.head? = some x → isPropertyChar x = false :=
      hoperator.forall_head (by decide)
    obtain rfl := hoperator.eq_next
    simp [read?, readBody?, PropertyToken.read?_of_isWord hname hreadName hequals,
      Cursor.accept?_of_head hoperator.1, PropertyToken.read?_of_isWord hword hread hbrace,
      Cursor.accept?_of_head h.1]

end UnicodeProperty

/-! ## Escapes -/

namespace Escaped

/-- The texts that are taken, after the backslash, where there is no `Escaped` that makes sense. -/
inductive BadForm : List Char → Prop where
  /-- The letter of a control escape without a letter after it. -/
  | control : BadForm ['c']
  /-- Fewer than two hexadecimal digits. -/
  | hexadecimal {digits : List Char} (hlength : digits.length < 2)
      (hdigits : ∀ d ∈ digits, isHexDigit d = true) : BadForm ('x' :: digits)
  /-- No code point after its letter. -/
  | unicode {w : List Char} (hw : CodePoint.BadForm w) : BadForm w
  /-- A zero with digits after it. -/
  | null {digits : List Char} (hne : digits ≠ [])
      (hdigits : ∀ d ∈ digits, isDecimalDigit d = true) : BadForm ('0' :: digits)
  /-- The letter of a property without a brace after it. -/
  | property {x : Char} (hx : x = 'p' ∨ x = 'P') : BadForm [x]
  /-- A brace with no property after it that is left at the next closing brace. -/
  | closedProperty {x : Char} {w : List Char} (hx : x = 'p' ∨ x = 'P')
      (hw : ∀ y ∈ w, Cursor.isSkippable '}' false y = true) : BadForm (x :: '{' :: w ++ ['}'])
  /-- A brace with no property after it that is left after the words there. -/
  | openProperty {x : Char} {w : List Char} (hx : x = 'p' ∨ x = 'P')
      (hw : ∀ y ∈ w, UnicodeProperty.allows y = true) : BadForm (x :: '{' :: w)
  /-- A character that begins no escape. -/
  | unknown {x : Char} (hx : isIdentityEscape x = false) : BadForm [x]

/-- What a backslash sequence between two places turns out to be, form by form: the values of
`Escaped` that can be read. -/
inductive Takes (inClass : Bool) (c later : Cursor) : Escaped → Prop where
  /-- A letter for a control character. -/
  | special {x : Char} (hx : isSpecialEscape x = true ∨ inClass = true ∧ x = 'b')
      (hread : c.Reads ['\\', x] later) :
      Takes inClass c later (.character ⟨c.spanTo later, .special x⟩)
  /-- A control character by its letter. -/
  | controlLetter {x : Char} (hx : isControlLetter x = true)
      (hread : c.Reads ['\\', 'c', x] later) :
      Takes inClass c later (.character ⟨c.spanTo later, .controlLetter x (x.toNat % 32)⟩)
  /-- Two hexadecimal digits. -/
  | hexadecimal {digits : List Char} (hlength : digits.length = 2)
      (hdigits : ∀ d ∈ digits, isHexDigit d = true)
      (hread : c.Reads ('\\' :: 'x' :: digits) later) :
      Takes inClass c later
        (.character ⟨c.spanTo later, .hexadecimal (Numeral.hexadecimal digits)⟩)
  /-- A code point. -/
  | unicode {p : CodePoint} {w : List Char} (hp : CodePoint.Form p w)
      (hread : c.Reads ('\\' :: w) later) :
      Takes inClass c later (.character ⟨c.spanTo later, .unicode p⟩)
  /-- A zero that no digit follows. -/
  | null (hread : c.Reads ['\\', '0'] later)
      (hnext : ∀ x, later.rest.head? = some x → isDecimalDigit x = false) :
      Takes inClass c later (.character ⟨c.spanTo later, .null⟩)
  /-- A character that stands for itself. -/
  | identity {x : Char} (hx : isIdentityEscape x = true ∨ inClass = true ∧ x = '-')
      (hread : c.Reads ['\\', x] later) :
      Takes inClass c later (.character ⟨c.spanTo later, .identity x⟩)
  /-- A letter for a predefined set. -/
  | predefined {x : Char} (hx : isClassEscape x = true) (hread : c.Reads ['\\', x] later) :
      Takes inClass c later (.set ⟨c.spanTo later, .predefined x⟩)
  /-- A property in braces. -/
  | property {x : Char} {p : UnicodeProperty} {inside close : Cursor} (hx : x = 'p' ∨ x = 'P')
      (hopen : c.Reads ['\\', x, '{'] inside) (hp : UnicodeProperty.Form (x == 'P') inside close p)
      (hclose : close.Reads ['}'] later) :
      Takes inClass c later (.set ⟨c.spanTo later, .property p⟩)
  /-- A backslash at the end of input. -/
  | lone (hread : c.Reads ['\\'] later) (hend : later.rest = []) :
      Takes inClass c later (.invalid ⟨c.spanTo later, .badEscape⟩)
  /-- A backslash sequence that is no escape. -/
  | bad {w : List Char} (hw : BadForm w) (hread : c.Reads ('\\' :: w) later) :
      Takes inClass c later (.invalid ⟨c.spanTo later, .badEscape⟩)

/-- Every form begins with a backslash. -/
theorem Takes.reads {inClass : Bool} {c later : Cursor} {e : Escaped}
    (h : Takes inClass c later e) : ∃ w, c.Reads ('\\' :: w) later := by
  cases h with
  | property hx hopen hp hclose =>
    obtain ⟨w, hw⟩ := hp.reaches.trans hclose.reaches
    exact ⟨_, hopen.trans hw⟩
  | _ => exact ⟨_, by assumption⟩

/-- What is invalid in a backslash sequence has the reason `Reason.badEscape`. -/
theorem Takes.reason_eq {inClass : Bool} {c later : Cursor} {i : Invalid}
    (h : Takes inClass c later (.invalid i)) : i.reason = .badEscape := by
  cases h with
  | lone => rfl
  | bad => rfl

/-! ### Every reader takes one of the forms -/

variable {inClass : Bool} {c body : Cursor}

/-- A control escape, read by `readControl`, has its letter or is bad. -/
theorem takes_readControl (h : c.Reads ['\\', 'c'] body) :
    Takes inClass c (readControl c body).2 (readControl c body).1 := by
  unfold readControl
  split
  · exact .bad .control h
  · rename_i letter t hrest
    by_cases hletter : isControlLetter letter = true
    · rw [if_pos hletter]
      exact .controlLetter hletter (h.trans (Cursor.reads_next hrest))
    · rw [if_neg hletter]
      exact .bad .control h

/-- A hexadecimal escape, read by `readHexadecimal`, has two digits or is bad. -/
theorem takes_readHexadecimal (h : c.Reads ['\\', 'x'] body) :
    Takes inClass c (readHexadecimal c body).2 (readHexadecimal c body).1 := by
  have hread := h.trans (Cursor.reads_runUpTo 2 isHexDigit body)
  have hdigits : ∀ d ∈ body.runUpTo 2 isHexDigit, isHexDigit d = true := fun d hd =>
    Cursor.of_mem_runUpTo hd
  have hle := Cursor.length_runUpTo_le 2 isHexDigit body
  unfold readHexadecimal
  dsimp only
  by_cases hlength : (body.runUpTo 2 isHexDigit).length = 2
  · have hlast := Numeral.hexadecimal_le_last (Nat.le_trans hle (by decide))
    rw [if_pos hlength, CodePoint.hexadecimalUpTo_of_le_last hlast]
    exact .hexadecimal hlength hdigits hread
  · rw [if_neg hlength]
    exact .bad (.hexadecimal (Nat.lt_of_le_of_ne hle hlength) hdigits) hread

/-- A Unicode escape, read by `readUnicode`, has a code point or is bad. -/
theorem takes_readUnicode {t : List Char} (h : c.Reads ['\\'] body) (hu : body.rest = 'u' :: t) :
    Takes inClass c (readUnicode c body).2 (readUnicode c body).1 := by
  have htakes := CodePoint.takes_read hu
  unfold readUnicode
  split
  · rename_i p later hread
    rw [hread] at htakes
    obtain ⟨w, hp, hw⟩ := htakes
    exact .unicode hp (h.trans hw)
  · rename_i later hread
    rw [hread] at htakes
    obtain ⟨w, hbad, hw⟩ := htakes
    exact .bad (.unicode hbad) (h.trans hw)

/-- A zero, read by `readNull`, is an escape unless digits follow it. -/
theorem takes_readNull (h : c.Reads ['\\', '0'] body) :
    Takes inClass c (readNull c body).2 (readNull c body).1 := by
  have hread := h.trans (Cursor.reads_run isDecimalDigit body)
  unfold readNull
  dsimp only
  -- all digits behind the zero belong to the malformed escape
  by_cases hdigits : body.run isDecimalDigit = []
  · rw [if_pos hdigits]
    refine .null h fun x hx => Cursor.head_past_run (c := body) ?_
    rw [hdigits]
    exact hx
  · rw [if_neg hdigits]
    exact .bad (.null hdigits fun d hd => Cursor.of_mem_run hd) hread

/-- Leaving a malformed property by `Cursor.recover` takes its closing brace or the words there. -/
theorem takes_recover {x : Char} (hx : x = 'p' ∨ x = 'P') (h : c.Reads ['\\', x, '{'] body) :
    Takes inClass c (body.recover '}' false UnicodeProperty.allows)
      (.invalid ⟨c.spanTo (body.recover '}' false UnicodeProperty.allows), .badEscape⟩) := by
  unfold Cursor.recover
  cases hcloser : body.pastCloser? '}' false with
  | none =>
    have hread := h.trans (Cursor.reads_run UnicodeProperty.allows body)
    exact .bad (.openProperty hx fun y hy => Cursor.of_mem_run hy) hread
  | some later =>
    have hskip := Cursor.reads_run (Cursor.isSkippable '}' false) body
    have hread := h.trans (hskip.trans (Cursor.reads_of_accept? hcloser))
    exact .bad (.closedProperty hx fun y hy => Cursor.of_mem_run hy) hread

/-- A property escape, read by `readProperty`, has a property in braces or is bad. -/
theorem takes_readProperty {x : Char} (hx : x = 'p' ∨ x = 'P') (h : c.Reads ['\\', x] body) :
    Takes inClass c (readProperty (x == 'P') c body).2 (readProperty (x == 'P') c body).1 := by
  unfold readProperty
  split
  · exact .bad (.property hx) h
  · rename_i inside hbrace
    have hopen := h.trans (Cursor.reads_of_accept? hbrace)
    split
    · rename_i p later hread
      obtain ⟨close, hp, hclose⟩ := UnicodeProperty.form_of_read? hread
      exact .property hx hopen hp hclose
    · exact takes_recover hx hopen

/-- What follows a backslash is read by `readBody` as one of the forms. -/
theorem takes_readBody {x : Char} {t : List Char} (h : c.Reads ['\\'] body)
    (hx : body.rest = x :: t) :
    Takes inClass c (readBody inClass x c body).2 (readBody inClass x c body).1 := by
  have hread := h.trans (Cursor.reads_next hx)
  unfold readBody
  repeat' split
  · rename_i hspecial
    exact .special (by simpa using hspecial) hread
  · rename_i hc
    exact takes_readControl (hc ▸ hread)
  · rename_i hhex
    exact takes_readHexadecimal (hhex ▸ hread)
  · rename_i hu
    exact takes_readUnicode h (hu ▸ hx)
  · rename_i hzero
    exact takes_readNull (hzero ▸ hread)
  · rename_i hset
    exact .predefined hset hread
  · rename_i hp
    exact takes_readProperty (by simpa using hp) hread
  · rename_i hidentity
    refine .identity ?_ hread
    simp only [isClassIdentityEscape, Bool.or_eq_true, Bool.and_eq_true, beq_iff_eq] at hidentity
    grind
  · rename_i hidentity
    refine .bad (.unknown ?_) hread
    simp only [Bool.or_eq_true, not_or, Bool.not_eq_true] at hidentity
    exact hidentity.1

/-- A backslash sequence is read by `Escaped.read` as one of the forms. -/
theorem takes_read {t : List Char} (h : c.rest = '\\' :: t) :
    Takes inClass c (read inClass c).2 (read inClass c).1 := by
  have hbackslash := Cursor.reads_next h
  unfold read
  split
  · rename_i hend
    exact .lone hbackslash hend
  · rename_i x t hx
    exact takes_readBody hbackslash hx

end Escaped

end RegexTree
