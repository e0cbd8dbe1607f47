import RegexTree.Json
import RegexTree.Proofs.GroupNames
import RegexTree.Proofs.Quotation

/-! # Texts in JSON
A text in JSON stands between quotes, and each of its characters is written in one of several forms:
as itself, as a backslash and a letter, or as four hexadecimal digits, of which characters beyond
the first 65536 take two groups. The main statements are that the reader accepts exactly these forms
(`readText?_eq_some_iff`), and that a text is written in them (`exists_toList_quoted`). -/

namespace RegexTree.Json

open GroupName (isLeadSurrogate isTrailSurrogate combineSurrogates leadOf trailOf)

/-- Where no key occurs twice, looking up a key finds exactly the value that it is paired with. -/
theorem lookup_eq_some_iff_mem {α β : Type} [BEq α] [LawfulBEq α] {pairs : List (α × β)}
    (h : (pairs.map Prod.fst).Nodup) {key : α} {value : β} :
    pairs.lookup key = some value ↔ (key, value) ∈ pairs := by
  constructor
  · intro hlookup
    obtain ⟨before, after, rfl, -⟩ := List.lookup_eq_some_iff.mp hlookup
    exact List.mem_append_right before List.mem_cons_self
  · intro hmem
    obtain ⟨before, after, rfl⟩ := List.append_of_mem hmem
    refine List.lookup_eq_some_iff.mpr ⟨before, after, rfl, fun p hp => bne_iff_ne.mpr ?_⟩
    rintro rfl
    rw [List.map_append, List.map_cons] at h
    exact (List.nodup_append.mp h).2.2 _ (List.mem_map_of_mem hp) _ List.mem_cons_self rfl

/-! ## Written forms -/

/-- The characters that may be written as a backslash and a letter, with the letter. -/
def letterForms : List (Char × Char) :=
  [('"', '"'), ('\\', '\\'), ('/', '/'), ('b', '\x08'), ('f', '\x0c'), ('n', '\n'), ('r', '\r'),
    ('t', '\t')]

/-- No letter of the `letterForms` stands for two characters. -/
theorem nodup_letterForms : (letterForms.map Prod.fst).Nodup := by decide

/-- The digits are four hexadecimal ones, in either case, and stand for the number. -/
structure IsHexUnit (n : Nat) (digits : List Char) : Prop where
  /-- There are four of them. -/
  length_eq : digits.length = 4
  /-- All of them are hexadecimal. -/
  forall_isHexDigit : ∀ d ∈ digits, isHexDigit d = true
  /-- They stand for the number. -/
  hexadecimal_eq : Numeral.hexadecimal digits = n

/-- The forms in which a character can stand between quotes. -/
inductive CharForm (c : Char) : List Char → Prop where
  /-- A backslash and a letter. -/
  | letter {l : Char} (hl : (l, c) ∈ letterForms) : CharForm c ['\\', l]
  /-- The code point in four digits. -/
  | unit {digits : List Char} (h : IsHexUnit c.toNat digits) : CharForm c ('\\' :: 'u' :: digits)
  /-- The two halves of the surrogate pair. -/
  | pair {lead trail : List Char} (hc : 0x10000 ≤ c.toNat) (hlead : IsHexUnit (leadOf c) lead)
      (htrail : IsHexUnit (trailOf c) trail) :
      CharForm c ('\\' :: 'u' :: (lead ++ '\\' :: 'u' :: trail))
  /-- The character itself, if it is no control character, quote or backslash. -/
  | itself (hcontrol : 0x20 ≤ c.toNat) (hquote : c ≠ '"') (hslash : c ≠ '\\') : CharForm c [c]

/-- The text is made of forms of these characters in a row. -/
inductive TextForm : List Char → List Char → Prop where
  /-- No characters. -/
  | nil : TextForm [] []
  /-- A character and those behind it. -/
  | cons {c : Char} {form chars text : List Char} (hc : CharForm c form)
      (h : TextForm chars text) : TextForm (c :: chars) (form ++ text)

/-! ## Reading -/

/-- The number of four hexadecimal digits, and what stands behind them. -/
def readHexUnit? : List Char → Option (Nat × List Char)
  | a :: b :: c :: d :: rest =>
    if [a, b, c, d].all isHexDigit then some (Numeral.hexadecimal [a, b, c, d], rest) else none
  | _ => none

/-- The second half of a surrogate pair, and what stands behind it. -/
def readTrail? : List Char → Option (Nat × List Char)
  | '\\' :: 'u' :: text => (readHexUnit? text).filter fun p => isTrailSurrogate p.1
  | _ => none

/-- The character that is written in one or two groups of digits, where the first one begins, and
what stands behind them. -/
def readNumbered? (text : List Char) : Option (Char × List Char) :=
  (readHexUnit? text).bind fun p =>
    if isLeadSurrogate p.1 then
      (readTrail? p.2).bind fun q => (CodePoint.toChar? (combineSurrogates p.1 q.1)).map (·, q.2)
    else (CodePoint.toChar? p.1).map (·, p.2)

/-- The character whose form a text begins with, and what stands behind the form. -/
def readChar? : List Char → Option (Char × List Char)
  | [] => none
  | '\\' :: 'u' :: text => readNumbered? text
  | '\\' :: l :: rest => (letterForms.lookup l).map (·, rest)
  | c :: rest => if 0x20 ≤ c.toNat ∧ c ≠ '"' ∧ c ≠ '\\' then some (c, rest) else none

variable {text rest : List Char} {c : Char} {n : Nat}

/-- Four hexadecimal digits (`IsHexUnit`) are read as their number. -/
theorem readHexUnit?_eq_some_iff :
    readHexUnit? text = some (n, rest) ↔ ∃ digits, IsHexUnit n digits ∧ text = digits ++ rest := by
  constructor
  · intro h
    unfold readHexUnit? at h
    split at h
    · next a b c d later =>
      split at h
      · next hall =>
        cases h
        exact ⟨[a, b, c, d], ⟨rfl, List.all_eq_true.mp hall, rfl⟩, rfl⟩
      · cases h
    · cases h
  · rintro ⟨digits, ⟨hlength, hdigits, rfl⟩, rfl⟩
    match digits, hlength with
    | [a, b, c, d], _ => exact if_pos (List.all_eq_true.mpr hdigits)

/-- The second half of a surrogate pair is read where its digits stand behind a backslash and the
letter u. -/
theorem readTrail?_eq_some_iff : readTrail? text = some (n, rest) ↔
    isTrailSurrogate n = true ∧ ∃ digits, IsHexUnit n digits ∧
      text = '\\' :: 'u' :: (digits ++ rest) := by
  unfold readTrail?
  split
  · next later =>
    rw [Option.filter_eq_some_iff, readHexUnit?_eq_some_iff, and_comm]
    simp
  · next hno =>
    constructor
    · nofun
    · rintro ⟨-, digits, -, rfl⟩
      exact absurd rfl (hno _)

/-- The number of a character leads to the character, by `CodePoint.toChar?`. -/
theorem toChar?_eq_some_iff : CodePoint.toChar? n = some c ↔ c.toNat = n :=
  ⟨CodePoint.toNat_of_toChar?, fun h => h ▸ CodePoint.toChar?_toNat c⟩

/-- Groups of digits are read as the character whose code point, or whose surrogate pair, they
write. -/
theorem readNumbered?_eq_some_iff : readNumbered? text = some (c, rest) ↔
    (∃ digits, IsHexUnit c.toNat digits ∧ text = digits ++ rest) ∨
      0x10000 ≤ c.toNat ∧ ∃ lead trail, IsHexUnit (leadOf c) lead ∧ IsHexUnit (trailOf c) trail ∧
        text = lead ++ '\\' :: 'u' :: (trail ++ rest) := by
  constructor
  · intro h
    obtain ⟨⟨n, later⟩, hunit, hchar⟩ := Option.bind_eq_some_iff.mp h
    obtain ⟨lead, hn, rfl⟩ := readHexUnit?_eq_some_iff.mp hunit
    dsimp only at hchar
    by_cases hlead : isLeadSurrogate n = true
    · rw [if_pos hlead] at hchar
      obtain ⟨⟨m, behind⟩, htrail, hpair⟩ := Option.bind_eq_some_iff.mp hchar
      obtain ⟨hm, trail, hdigits, rfl⟩ := readTrail?_eq_some_iff.mp htrail
      obtain ⟨x, hx, heq⟩ := Option.map_eq_some_iff.mp hpair
      cases heq
      -- two halves are the pair of one character, which is the one that was read
      obtain ⟨y, hlarge, rfl, rfl, hvalue⟩ := GroupName.exists_pair hlead hm
      obtain rfl : y = c := by
        rw [hvalue, CodePoint.toChar?_toNat] at hx
        exact Option.some.inj hx
      exact .inr ⟨hlarge, lead, trail, hn, hdigits, rfl⟩
    · rw [if_neg hlead] at hchar
      obtain ⟨x, hx, heq⟩ := Option.map_eq_some_iff.mp hchar
      cases heq
      exact .inl ⟨lead, toChar?_eq_some_iff.mp hx ▸ hn, rfl⟩
  · rintro (⟨digits, hc, rfl⟩ | ⟨hlarge, lead, trail, hlead, htrail, rfl⟩)
    · have hscalar : ¬ isLeadSurrogate c.toNat = true := fun h =>
        GroupName.not_isSurrogate_toNat c (.inl h)
      rw [readNumbered?, readHexUnit?_eq_some_iff.mpr ⟨digits, hc, rfl⟩]
      simp [hscalar, CodePoint.toChar?_toNat]
    · obtain ⟨hfirst, hsecond, hvalue⟩ := GroupName.combineSurrogates_leadOf hlarge
      rw [readNumbered?, readHexUnit?_eq_some_iff.mpr ⟨lead, hlead, rfl⟩, Option.bind_some,
        if_pos hfirst, readTrail?_eq_some_iff.mpr ⟨hsecond, trail, htrail, rfl⟩, Option.bind_some,
        hvalue, CodePoint.toChar?_toNat, Option.map_some]

/-- A character is read exactly where a `CharForm` of it stands. -/
theorem readChar?_eq_some_iff :
    readChar? text = some (c, rest) ↔ ∃ form, CharForm c form ∧ text = form ++ rest := by
  constructor
  · intro h
    unfold readChar? at h
    split at h
    · cases h
    · rcases readNumbered?_eq_some_iff.mp h with
        ⟨digits, hc, rfl⟩ | ⟨hlarge, lead, trail, hlead, htrail, rfl⟩
      · exact ⟨_, .unit hc, rfl⟩
      · refine ⟨_, .pair hlarge hlead htrail, ?_⟩
        simp
    · next l later _ =>
      obtain ⟨x, hx, heq⟩ := Option.map_eq_some_iff.mp h
      cases heq
      exact ⟨_, .letter ((lookup_eq_some_iff_mem nodup_letterForms).mp hx), rfl⟩
    · next x later _ _ =>
      split at h
      · next hplain =>
        cases h
        exact ⟨[c], .itself hplain.1 hplain.2.1 hplain.2.2, rfl⟩
      · cases h
  · rintro ⟨form, hform, rfl⟩
    cases hform with
    | @letter l hl =>
      have hu : l ≠ 'u' := by
        have hall : ∀ p ∈ letterForms, p.1 ≠ 'u' := by decide
        exact hall _ hl
      show readChar? ('\\' :: l :: rest) = some (c, rest)
      rw [readChar?, (lookup_eq_some_iff_mem nodup_letterForms).mpr hl, Option.map_some]
      exact hu
    | @unit digits hc =>
      show readNumbered? (digits ++ rest) = some (c, rest)
      exact readNumbered?_eq_some_iff.mpr (.inl ⟨digits, hc, rfl⟩)
    | @pair lead trail hlarge hlead htrail =>
      show readNumbered? (lead ++ '\\' :: 'u' :: trail ++ rest) = some (c, rest)
      refine readNumbered?_eq_some_iff.mpr (.inr ⟨hlarge, lead, trail, hlead, htrail, ?_⟩)
      simp
    | itself hcontrol hquote hslash =>
      show readChar? (c :: rest) = some (c, rest)
      rw [readChar?, if_pos ⟨hcontrol, hquote, hslash⟩]
      · exact fun _ hc _ => hslash hc
      · exact fun _ _ hc _ => hslash hc

/-- A form has characters. -/
theorem CharForm.ne_nil {form : List Char} (h : CharForm c form) : form ≠ [] := by
  cases h <;> exact List.cons_ne_nil _ _

/-- What stands behind a form is shorter. -/
theorem length_lt_of_readChar? (h : readChar? text = some (c, rest)) :
    rest.length < text.length := by
  obtain ⟨form, hform, rfl⟩ := readChar?_eq_some_iff.mp h
  have hpos := List.length_pos_iff.mpr hform.ne_nil
  rw [List.length_append]
  omega

/-- The characters whose forms stand before a quote, and what stands behind the quote. -/
def readText? (text : List Char) : Option (List Char × List Char) :=
  match text with
  | [] => none
  | d :: later =>
    if d = '"' then some ([], later)
    else
      match _h : readChar? (d :: later) with
      | none => none
      | some (c, rest) => (readText? rest).map fun p => (c :: p.1, p.2)
termination_by text.length
decreasing_by exact length_lt_of_readChar? _h

/-- No form begins with a quote. -/
theorem CharForm.exists_cons {form : List Char} (h : CharForm c form) :
    ∃ d later, form = d :: later ∧ d ≠ '"' := by
  cases h with
  | itself hcontrol hquote hslash => exact ⟨c, [], rfl, hquote⟩
  | _ => exact ⟨'\\', _, rfl, by decide⟩

/-- Characters are read exactly where a `TextForm` of them stands before a quote. -/
theorem readText?_eq_some_iff {chars : List Char} : readText? text = some (chars, rest) ↔
    ∃ body, TextForm chars body ∧ text = body ++ '"' :: rest := by
  constructor
  · intro h
    fun_induction readText? text generalizing chars with
    | case1 => cases h
    | case2 later =>
      cases h
      exact ⟨[], .nil, rfl⟩
    | case3 => cases h
    | case4 d later hd c behind hc ih =>
      obtain ⟨⟨others, stop⟩, hothers, heq⟩ := Option.map_eq_some_iff.mp h
      cases heq
      obtain ⟨form, hform, htext⟩ := readChar?_eq_some_iff.mp hc
      obtain ⟨body, hbody, rfl⟩ := ih hothers
      exact ⟨form ++ body, .cons hform hbody, by rw [htext, List.append_assoc]⟩
  · rintro ⟨body, hbody, rfl⟩
    induction hbody with
    | nil => rw [List.nil_append, readText?, if_pos rfl]
    | @cons c form chars body hc hbody ih =>
      obtain ⟨d, later, rfl, hd⟩ := hc.exists_cons
      have hread : readChar? (d :: (later ++ (body ++ '"' :: rest))) =
          some (c, body ++ '"' :: rest) := readChar?_eq_some_iff.mpr ⟨_, hc, rfl⟩
      rw [List.append_assoc, List.cons_append, readText?, if_neg hd]
      split
      · next hnone =>
        rw [hread] at hnone
        cases hnone
      · next x behind hsome =>
        rw [hread] at hsome
        cases hsome
        rw [ih, Option.map_some]

/-! ## Writing -/

/-- A control character is written with a letter or in four digits. -/
theorem charForm_of_control (h : c.toNat < 0x20) : CharForm c (escapedChar c).toList := by
  -- the control characters are checked one by one
  have hall : ∀ n < 0x20,
      (∃ p ∈ letterForms, p.2 = Char.ofNat n ∧
        (escapedChar (Char.ofNat n)).toList = ['\\', p.1]) ∨
      ∃ digits ∈ [(escapedChar (Char.ofNat n)).toList.drop 2],
        (escapedChar (Char.ofNat n)).toList = '\\' :: 'u' :: digits ∧ digits.length = 4 ∧
          digits.all isHexDigit = true ∧ Numeral.hexadecimal digits = n := by
    decide +kernel
  have hc := hall c.toNat h
  rw [Char.ofNat_toNat] at hc
  rcases hc with ⟨p, hp, rfl, hform⟩ | ⟨digits, -, hform, hlength, hdigits, hvalue⟩
  · rw [hform]
    exact .letter hp
  · rw [hform]
    exact .unit ⟨hlength, List.all_eq_true.mp hdigits, hvalue⟩

/-- Every character is written by `escapedChar` in one of its forms. -/
theorem charForm_escapedChar (c : Char) : CharForm c (escapedChar c).toList := by
  by_cases hcontrol : c.toNat < 0x20
  · exact charForm_of_control hcontrol
  by_cases hquote : c = '"'
  · subst hquote
    exact .letter (l := '"') (by decide)
  by_cases hslash : c = '\\'
  · subst hslash
    exact .letter (l := '\\') (by decide)
  have hne : ∀ d : Char, d.toNat < 0x20 → c ≠ d := fun d hd h => hcontrol (h ▸ hd)
  have hform : escapedChar c = c.toString := by
    rw [escapedChar, if_neg hquote, if_neg hslash, if_neg (hne _ (by decide)),
      if_neg (hne _ (by decide)), if_neg (hne _ (by decide)), if_neg (hne _ (by decide)),
      if_neg (hne _ (by decide)), if_neg (by omega), if_neg hcontrol]
  rw [hform, Char.toString_eq_singleton, String.toList_singleton]
  exact .itself (Nat.not_lt.mp hcontrol) hquote hslash

/-- A text is written as forms of its characters between quotes. -/
theorem exists_toList_quoted (text : String) :
    ∃ body, TextForm text.toList body ∧ (quoted text).toList = '"' :: (body ++ ['"']) := by
  have hbody : ∀ chars : List Char,
      TextForm chars (chars.flatMap fun c => (escapedChar c).toList) := by
    intro chars
    induction chars with
    | nil => exact .nil
    | cons c chars ih => exact .cons (charForm_escapedChar c) ih
  refine ⟨_, hbody text.toList, ?_⟩
  rw [quoted, String.toList_append, Text.toList_foldl_append]
  rfl

end RegexTree.Json
