import RegexTree.Proofs.Json.Strings

/-! # Tokens of JSON
A JSON text is cut into tokens, which are brackets, colons, commas, texts and numbers, with any
number of blanks before, between and behind them. The main statement, `tokens?_eq_some_iff`, is that
cutting a text up gives exactly the tokens that the text spells (`Spells`). -/

namespace RegexTree.Json

/-! ## Tokens and their forms -/

/-- What a JSON text consists of apart from blanks. -/
inductive Token where
  /-- An opening brace. -/
  | beginObject
  /-- A closing brace. -/
  | endObject
  /-- An opening bracket. -/
  | beginArray
  /-- A closing bracket. -/
  | endArray
  /-- A colon behind a key. -/
  | colon
  /-- A comma behind an item or a member. -/
  | comma
  /-- A text. -/
  | string (text : String)
  /-- A natural number. -/
  | number (value : Nat)
  deriving DecidableEq, Repr

/-- The tokens of one character. -/
def marks : List (Char × Token) :=
  [('{', .beginObject), ('}', .endObject), ('[', .beginArray), (']', .endArray), (':', .colon),
    (',', .comma)]

/-- No character is two of the `marks`. -/
theorem nodup_marks : (marks.map Prod.fst).Nodup := by decide

/-- The character may stand between tokens. -/
def isBlank (c : Char) : Bool := [' ', '\t', '\n', '\r'].contains c

/-- A blank is no digit. -/
theorem not_isDigit_of_isBlank {c : Char} (h : isBlank c = true) : c.isDigit = false := by
  have hmem := List.contains_iff_mem.mp h
  simp only [List.mem_cons, List.not_mem_nil, or_false] at hmem
  rcases hmem with rfl | rfl | rfl | rfl <;> rfl

/-- The form of a token: a number has no zero before its digits. -/
inductive Token.Form : Token → List Char → Prop where
  /-- A token of one character. -/
  | mark {c : Char} {t : Token} (ht : (c, t) ∈ marks) : Form t [c]
  /-- A text between quotes. -/
  | string {chars body : List Char} (h : TextForm chars body) :
      Form (.string (String.ofList chars)) ('"' :: (body ++ ['"']))
  /-- The digits of a number. -/
  | number (n : Nat) : Form (.number n) (Nat.toDigits 10 n)

/-- A number ends before the text, which begins with no digit. -/
def EndsNumber (text : List Char) : Prop := ∀ c ∈ text.head?, c.isDigit = false

/-- The text spells these tokens. -/
inductive Spells : List Token → List Char → Prop where
  /-- No tokens. -/
  | nil : Spells [] []
  /-- A blank. -/
  | blank {c : Char} {ts : List Token} {text : List Char} (hc : isBlank c = true)
      (h : Spells ts text) : Spells ts (c :: text)
  /-- A token, which is followed by no digit if it is a number. -/
  | token {t : Token} {form : List Char} {ts : List Token} {text : List Char} (ht : t.Form form)
      (hend : ∀ n, t = .number n → EndsNumber text) (h : Spells ts text) :
      Spells (t :: ts) (form ++ text)

/-! ## Reading one token -/

/-- The number whose digits a text begins with, and what stands behind them. -/
def readNumber? (text : List Char) : Option (Nat × List Char) :=
  let digits := text.takeWhile Char.isDigit
  let n := Nat.ofDigitChars 10 digits 0
  if Nat.toDigits 10 n = digits then some (n, text.dropWhile Char.isDigit) else none

/-- The token that a text begins with, and what stands behind it. -/
def readToken? : List Char → Option (Token × List Char)
  | [] => none
  | c :: text =>
    if c = '"' then (readText? text).map fun p => (.string (String.ofList p.1), p.2)
    else
      match marks.lookup c with
      | some t => some (t, text)
      | none => (readNumber? (c :: text)).map fun p => (.number p.1, p.2)

variable {text rest : List Char} {t : Token} {n : Nat}

/-- A digit is not a character that is no digit. -/
theorem ne_of_isDigit {c d : Char} (hc : c.isDigit = true) (hd : d.isDigit = false) : c ≠ d := by
  rintro rfl
  rw [hc] at hd
  cases hd

/-- A number has a first digit. -/
theorem exists_cons_toDigits (n : Nat) :
    ∃ d digits, Nat.toDigits 10 n = d :: digits ∧ d.isDigit = true := by
  obtain ⟨d, digits, h⟩ := List.exists_cons_of_ne_nil (Nat.toDigits_ne_nil (b := 10) (n := n))
  refine ⟨d, digits, h, ?_⟩
  exact Nat.isDigit_of_mem_toDigits (by decide) (by decide) (h ▸ List.mem_cons_self)

/-- A number is read by `readNumber?` exactly where its digits stand and no more digits follow. -/
theorem readNumber?_eq_some_iff : readNumber? text = some (n, rest) ↔
    text = Nat.toDigits 10 n ++ rest ∧ EndsNumber rest := by
  constructor
  · intro h
    unfold readNumber? at h
    dsimp only at h
    split at h
    · next hdigits =>
      cases h
      refine ⟨?_, fun c hc => ?_⟩
      · rw [hdigits, List.takeWhile_append_dropWhile]
      · have hstop := List.head?_dropWhile_not Char.isDigit text
        rw [Option.mem_def.mp hc] at hstop
        simpa using hstop
    · cases h
  · rintro ⟨rfl, hend⟩
    have hdigits : ∀ c ∈ Nat.toDigits 10 n, c.isDigit = true := fun c hc =>
      Nat.isDigit_of_mem_toDigits (by decide) (by decide) hc
    obtain ⟨htake, hdrop⟩ := takeWhile_dropWhile_append hdigits hend
    unfold readNumber?
    dsimp only
    rw [htake, hdrop, Nat.ofDigitChars_ten_toDigits, if_pos rfl]

/-- A `Token` is read exactly where its form stands and, if it is a number, no digits follow. -/
theorem readToken?_eq_some_iff : readToken? text = some (t, rest) ↔
    ∃ form, t.Form form ∧ text = form ++ rest ∧ ∀ n, t = .number n → EndsNumber rest := by
  constructor
  · intro h
    unfold readToken? at h
    split at h
    · cases h
    · next c later =>
      split at h
      · next hquote =>
        obtain ⟨⟨chars, behind⟩, hread, heq⟩ := Option.map_eq_some_iff.mp h
        cases heq
        obtain ⟨body, hbody, rfl⟩ := readText?_eq_some_iff.mp hread
        exact ⟨_, .string hbody, by simp [hquote], fun n hn => Token.noConfusion hn⟩
      · split at h
        · next s hmark =>
          cases h
          have hmem := (lookup_eq_some_iff_mem nodup_marks).mp hmark
          refine ⟨[c], .mark hmem, rfl, ?_⟩
          rintro n rfl
          simp [marks] at hmem
        · obtain ⟨⟨n, behind⟩, hread, heq⟩ := Option.map_eq_some_iff.mp h
          cases heq
          obtain ⟨htext, hend⟩ := readNumber?_eq_some_iff.mp hread
          exact ⟨_, .number n, htext, fun _ _ => hend⟩
  · rintro ⟨form, hform, rfl, hend⟩
    cases hform with
    | @mark c t hmark =>
      have hquote : ∀ p ∈ marks, p.1 ≠ '"' := by decide
      show readToken? (c :: rest) = some (t, rest)
      rw [readToken?, if_neg (hquote _ hmark), (lookup_eq_some_iff_mem nodup_marks).mpr hmark]
    | @string chars body hbody =>
      show readToken? ('"' :: (body ++ ['"'] ++ rest)) = _
      rw [readToken?, if_pos rfl, List.append_assoc, List.singleton_append,
        readText?_eq_some_iff.mpr ⟨body, hbody, rfl⟩, Option.map_some]
    | number n =>
      obtain ⟨d, digits, hdigits, hd⟩ := exists_cons_toDigits n
      have hquote : d ≠ '"' := ne_of_isDigit hd rfl
      have hmark : marks.lookup d = none := by
        have hall : ∀ p ∈ marks, p.1.isDigit = false := by decide
        refine List.lookup_eq_none_iff.mpr fun p hp => bne_iff_ne.mpr ?_
        exact ne_of_isDigit hd (hall p hp)
      rw [hdigits, List.cons_append, readToken?, if_neg hquote, hmark]
      show (readNumber? (d :: digits ++ rest)).map _ = _
      rw [readNumber?_eq_some_iff.mpr ⟨congrArg (· ++ rest) hdigits.symm, hend n rfl⟩,
        Option.map_some]

/-- A form begins with a character that is no blank. -/
theorem Token.Form.exists_cons {form : List Char} (h : t.Form form) :
    ∃ c later, form = c :: later ∧ isBlank c = false := by
  cases h with
  | @mark c t hmark =>
    have hall : ∀ p ∈ marks, isBlank p.1 = false := by decide
    exact ⟨c, [], rfl, hall _ hmark⟩
  | string hbody => exact ⟨'"', _, rfl, rfl⟩
  | number n =>
    obtain ⟨d, digits, hdigits, hd⟩ := exists_cons_toDigits n
    refine ⟨d, digits, hdigits, Bool.not_eq_true _ ▸ fun hblank => ?_⟩
    exact ne_of_isDigit hd (not_isDigit_of_isBlank hblank) rfl

/-- What stands behind a token is shorter. -/
theorem length_lt_of_readToken? (h : readToken? text = some (t, rest)) :
    rest.length < text.length := by
  obtain ⟨form, hform, rfl, -⟩ := readToken?_eq_some_iff.mp h
  obtain ⟨c, later, rfl, -⟩ := hform.exists_cons
  rw [List.length_append, List.length_cons]
  omega

/-! ## Reading tokens in a row -/

/-- The tokens that a text is cut into. -/
def tokens? (text : List Char) : Option (List Token) :=
  match text with
  | [] => some []
  | c :: later =>
    if isBlank c then tokens? later
    else
      match _h : readToken? (c :: later) with
      | none => none
      | some (t, rest) => (tokens? rest).map (t :: ·)
termination_by text.length
decreasing_by
  · exact Nat.lt_succ_self _
  · exact length_lt_of_readToken? _h

/-- A text is cut into exactly the tokens that it spells. -/
theorem tokens?_eq_some_iff {ts : List Token} : tokens? text = some ts ↔ Spells ts text := by
  constructor
  · intro h
    fun_induction tokens? text generalizing ts with
    | case1 =>
      cases h
      exact .nil
    | case2 c later hblank ih => exact .blank hblank (ih h)
    | case3 => cases h
    | case4 c later hblank t rest ht ih =>
      obtain ⟨us, hus, rfl⟩ := Option.map_eq_some_iff.mp h
      obtain ⟨form, hform, htext, hend⟩ := readToken?_eq_some_iff.mp ht
      rw [htext]
      exact .token hform hend (ih hus)
  · intro h
    induction h with
    | nil => rw [tokens?]
    | blank hblank h ih => rw [tokens?, if_pos hblank, ih]
    | @token t form ts text hform hend h ih =>
      obtain ⟨c, later, rfl, hblank⟩ := hform.exists_cons
      have hread : readToken? (c :: (later ++ text)) = some (t, text) :=
        readToken?_eq_some_iff.mpr ⟨_, hform, rfl, hend⟩
      rw [List.cons_append, tokens?, hblank, if_neg Bool.false_ne_true]
      split
      · next hnone =>
        rw [hread] at hnone
        cases hnone
      · next u behind hsome =>
        rw [hread] at hsome
        cases hsome
        rw [ih, Option.map_some]

end RegexTree.Json
