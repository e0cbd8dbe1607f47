import RegexTree.Lexeme
import RegexTree.Proofs.Forms.Class
import RegexTree.Proofs.Forms.Name
import RegexTree.Proofs.Forms.Quantifier

/-! # Forms of lexemes
What an atom and a lexeme are made of, form by form. The main statement, `Lexeme.takes_read`, says
that the reader of lexemes always takes one of these forms. -/

namespace RegexTree

/-! ## Quantifiers that may follow -/

/-- What may follow an element: a quantifier, where one stands, and nothing elsewhere. -/
inductive Quantifier.Follows (c : Cursor) : Cursor → Option Quantifier → Prop where
  /-- No quantifier stands there. -/
  | absent (hnone : ∀ later q, ¬ Quantifier.Takes c later q) : Follows c c none
  /-- A quantifier stands there. -/
  | present {later : Cursor} {q : Quantifier} (hq : Quantifier.Takes c later q) :
      Follows c later (some q)

/-- A quantifier that may follow ends at a later place. -/
theorem Quantifier.Follows.reaches {c later : Cursor} {q : Option Quantifier}
    (h : Follows c later q) : c.Reaches later := by
  cases h with
  | absent => exact .refl c
  | present hq =>
    obtain ⟨x, w, -, hread⟩ := hq.reads
    exact hread.reaches

/-- What `readOptional` reads is what may follow. -/
theorem Quantifier.follows_readOptional (c : Cursor) :
    Follows c (readOptional c).2 (readOptional c).1 := by
  unfold readOptional
  split
  · rename_i q later hread
    exact .present (takes_of_read? hread)
  · rename_i hnone
    refine .absent fun later q hq => ?_
    rw [read?_eq_some_iff.mpr hq] at hnone
    cases hnone

/-- A quantifier that may follow is the one that `readOptional` reads. -/
theorem Quantifier.Follows.readOptional_eq {c later : Cursor} {q : Option Quantifier}
    (h : Follows c later q) : readOptional c = (q, later) := by
  cases h with
  | absent hnone =>
    unfold readOptional
    split
    · rename_i q later hread
      exact absurd (takes_of_read? hread) (hnone later q)
    · rfl
  | present hq => rw [readOptional, read?_eq_some_iff.mpr hq]

/-! ## Atoms -/

namespace Atom

/-- What an `Atom` turns out to be, form by form. -/
inductive Takes (c later : Cursor) : Atom → Prop where
  /-- A character that stands for itself. -/
  | literal {x : Char} (hx : isPatternChar x = true) (hread : c.Reads [x] later) :
      Takes c later (.literal (c.spanTo later) x)
  /-- The dot. -/
  | anyCharacter (hread : c.Reads ['.'] later) : Takes c later (.anyCharacter (c.spanTo later))
  /-- The caret. -/
  | atStart (hread : c.Reads ['^'] later) : Takes c later (.assertion (c.spanTo later) .atStart)
  /-- The dollar sign. -/
  | atEnd (hread : c.Reads ['$'] later) : Takes c later (.assertion (c.spanTo later) .atEnd)
  /-- A letter for a word boundary, or for none. -/
  | boundary {x : Char} (hx : isWordBoundaryMarker x = true) (hread : c.Reads ['\\', x] later) :
      Takes c later
        (.assertion (c.spanTo later) (if x = 'b' then .wordBoundary else .nonWordBoundary))
  /-- A reference by number. -/
  | numeric {d : Char} {digits : List Char} (hd : isDecimalDigit d = true) (hzero : d ≠ '0')
      (hdigits : ∀ e ∈ digits, isDecimalDigit e = true)
      (hread : c.Reads ('\\' :: d :: digits) later)
      (hnext : ∀ x, later.rest.head? = some x → isDecimalDigit x = false) :
      Takes c later (.backreference (.numeric (c.spanTo later)
        (Numeral.decimalUpTo Backreference.maxIndex (d :: digits))))
  /-- A reference by name, or what is left of one. -/
  | reference {r : Except Invalid Backreference} (hr : Backreference.Takes c later r) :
      Takes c later (ofReference r)
  /-- Any other backslash sequence. -/
  | escaped {e : Escaped} (he : Escaped.Takes false c later e) : Takes c later (ofEscaped e)
  /-- A character class. -/
  | characterClass {s : CharacterClass} (hs : CharacterClass.Takes c later s) :
      Takes c later (.characterClass s)
  /-- A closing bracket or brace that closes nothing. -/
  | stray {x : Char} (hx : x = ']' ∨ x = '}') (hread : c.Reads [x] later) :
      Takes c later (.invalid ⟨c.spanTo later, .unknownConstruct⟩)

/-- An atom takes at least one character. -/
theorem Takes.reads {c later : Cursor} {a : Atom} (h : Takes c later a) :
    ∃ x w, c.Reads (x :: w) later := by
  cases h with
  | reference hr =>
    obtain ⟨w, hw⟩ := hr.reads
    exact ⟨_, _, hw⟩
  | escaped he => exact ⟨_, he.reads⟩
  | characterClass hs => exact ⟨_, hs.reads⟩
  | _ => exact ⟨_, _, by assumption⟩

/-- An atom stands where it was read. -/
theorem Takes.span_eq {c later : Cursor} {a : Atom} (h : Takes c later a) :
    a.span = c.spanTo later := by
  cases h with
  | reference hr => cases hr <;> rfl
  | escaped he => cases he <;> rfl
  | characterClass hs => cases hs; rfl
  | _ => rfl

/-- An atom that is a `CharacterClass` is read as one. -/
theorem Takes.of_class {c later : Cursor} {a : Atom} {s : CharacterClass} (h : Takes c later a)
    (ha : a = .characterClass s) : CharacterClass.Takes c later s := by
  cases h with
  | reference hr => cases hr <;> cases ha
  | escaped he => cases he <;> cases ha
  | characterClass hs =>
    cases ha
    exact hs
  | _ => cases ha

/-- The digits of a reference by number are taken by `readNumeric` as far as they go. -/
theorem takes_readNumeric {c body : Cursor} {d : Char} {t : List Char} (h : c.Reads ['\\'] body)
    (hrest : body.rest = d :: t) (hd : isDecimalDigit d = true) (hzero : d ≠ '0') :
    Takes c (Backreference.readNumeric c body).2
      (.backreference (Backreference.readNumeric c body).1) := by
  have hread := h.trans (Cursor.reads_run isDecimalDigit body)
  have hrun : body.run isDecimalDigit = d :: t.takeWhile isDecimalDigit := by
    simp [Cursor.run, hrest, hd]
  have hnext : ∀ x, (body.past (body.run isDecimalDigit)).rest.head? = some x →
      isDecimalDigit x = false := fun x hx => Cursor.head_past_run hx
  unfold Backreference.readNumeric
  dsimp only
  rw [hrun] at hread hnext ⊢
  exact .numeric hd hzero (fun e he => List.all_eq_true.mp List.all_takeWhile e he) hread hnext

/-- A backslash sequence outside a class is read by `readBackslash` as one of the forms. -/
theorem takes_readBackslash {c : Cursor} {x : Char} {t : List Char} (h : c.Reads ['\\'] c.next)
    (hx : c.next.rest = x :: t) : Takes c (readBackslash x c).2 (readBackslash x c).1 := by
  have hread := h.trans (Cursor.reads_next hx)
  unfold readBackslash
  dsimp only
  split
  · rename_i hmarker
    exact .boundary hmarker hread
  · split
    · rename_i hdigit
      obtain ⟨hd, hzero⟩ : isDecimalDigit x = true ∧ x ≠ '0' := by simpa using hdigit
      exact takes_readNumeric h hx hd hzero
    · split
      · rename_i hk
        exact .reference (Backreference.takes_readNamed (hk ▸ hread))
      · exact .escaped (Escaped.takes_read h.1)

/-- The characters that begin no atom. -/
def nonStarters : List Char := ['|', '(', ')', '{', '*', '+', '?']

/-- A syntax character that neither begins an atom of its own nor is one of the `nonStarters` closes
nothing. -/
theorem eq_close_of_not_patternChar {x : Char} (hx : isPatternChar x = false)
    (hstart : x ∉ nonStarters) (hatom : x ∉ ['^', '$', '.', '[', '\\']) : x = ']' ∨ x = '}' := by
  -- the syntax characters are the two lists of characters and these two
  have hreserved : x ∈ syntaxChars := by simpa [isPatternChar, isSyntaxChar] using hx
  simp only [syntaxChars, nonStarters, List.mem_cons, List.not_mem_nil, or_false] at *
  grind

/-- An atom is read by `Atom.read` as one of the forms. -/
theorem takes_read {c : Cursor} {x : Char} {t : List Char} (h : c.rest = x :: t)
    (hstart : x ∉ nonStarters) : Takes c (read x c).2 (read x c).1 := by
  have hread := Cursor.reads_next h
  unfold read
  split
  · rename_i hx
    exact .atStart (hx ▸ hread)
  · split
    · rename_i hx
      exact .atEnd (hx ▸ hread)
    · split
      · rename_i hx
        exact .anyCharacter (hx ▸ hread)
      · split
        · rename_i hx
          exact .characterClass (CharacterClass.takes_read (hx ▸ h))
        · split
          · rename_i hx
            subst hx
            split
            · exact .escaped (Escaped.takes_read h)
            · rename_i y u hy
              exact takes_readBackslash hread hy
          · split
            · rename_i hx
              exact .literal hx hread
            · rename_i hx
              exact .stray (eq_close_of_not_patternChar (by simpa using hx) hstart (by simp_all))
                hread

end Atom

/-! ## Lexemes -/

namespace Lexeme

/-- What a `Lexeme` turns out to be, form by form. -/
inductive Takes (c later : Cursor) : Lexeme → Prop where
  /-- A bar. -/
  | bar (hread : c.Reads ['|'] later) : Takes c later (.bar (c.spanTo later))
  /-- The opening of a group. -/
  | opening {o : GroupOpening} (ho : GroupOpening.Takes c later o) : Takes c later (.opening o)
  /-- A closing parenthesis and the quantifier after it. -/
  | closing {middle : Cursor} {q : Option Quantifier} (hread : c.Reads [')'] middle)
      (hq : Quantifier.Follows middle later q) : Takes c later (.closing (c.spanTo middle) q)
  /-- An atom and the quantifier after it. -/
  | atom {a : Atom} {middle : Cursor} {q : Option Quantifier} (ha : Atom.Takes c middle a)
      (hq : Quantifier.Follows middle later q) : Takes c later (.atom a q)
  /-- A quantifier that follows nothing it could repeat. -/
  | strayQuantifier {q : Quantifier} (hq : Quantifier.Takes c later q) :
      Takes c later (.strayQuantifier (c.spanTo later))
  /-- A brace and what looks like a count, with or without a closing brace. -/
  | malformedCount {w : List Char} (hw : ∀ y ∈ w, Count.allows y = true)
      (hread : c.Reads ('{' :: w ++ ['}']) later ∨ c.Reads ('{' :: w) later) :
      Takes c later (.strayBrace ⟨c.spanTo later, .badQuantifier⟩)
  /-- A brace alone. -/
  | brace (hread : c.Reads ['{'] later) :
      Takes c later (.strayBrace ⟨c.spanTo later, .unknownConstruct⟩)

/-- A stray brace is read by `readBrace` with what looks like a count after it. -/
theorem takes_readBrace {c : Cursor} {t : List Char} (h : c.rest = '{' :: t) :
    Takes c (readBrace c).2 (readBrace c).1 := by
  have hopen := Cursor.reads_next h
  unfold readBrace
  split
  · rename_i later hmalformed
    obtain ⟨w, hw, hread | ⟨-, hread⟩⟩ := Count.reads_of_pastMalformed? hmalformed
    · exact .malformedCount hw (.inl (hopen.trans hread))
    · exact .malformedCount hw (.inr (hopen.trans hread))
  · exact .brace hopen

/-- Where `Quantifier.read?` reads none, none of its one-character operators stands. -/
theorem head_ne_of_read?_eq_none {c : Cursor} {x : Char} {t : List Char} (h : c.rest = x :: t)
    (hnone : Quantifier.read? c = none) : x ≠ '*' ∧ x ≠ '+' ∧ x ≠ '?' := by
  refine ⟨?_, ?_, ?_⟩ <;> rintro rfl <;> simp [Quantifier.read?, Quantifier.readKind?, h] at hnone

/-- The lexeme that `Lexeme.read` reads is of one of the forms. -/
theorem takes_read {c : Cursor} {x : Char} {t : List Char} (h : c.rest = x :: t) :
    Takes c (read x c).2 (read x c).1 := by
  have hread := Cursor.reads_next h
  unfold read
  split
  · rename_i q later hq
    exact .strayQuantifier (Quantifier.takes_of_read? hq)
  · rename_i hnone
    unfold readPlain
    split
    · rename_i hx
      exact .bar (hx ▸ hread)
    · split
      · rename_i hx
        exact .opening (GroupOpening.takes_read (hx ▸ h))
      · split
        · rename_i hx
          exact .closing (hx ▸ hread) (Quantifier.follows_readOptional _)
        · split
          · rename_i hx
            exact takes_readBrace (hx ▸ h)
          · -- the other characters that begin no atom were looked at before
            have hoperator := head_ne_of_read?_eq_none h hnone
            have hstart : x ∉ Atom.nonStarters := by simp_all [Atom.nonStarters]
            exact .atom (Atom.takes_read h hstart) (Quantifier.follows_readOptional _)

/-- Where no operator of a quantifier can begin, the lexeme is what `readPlain` reads. -/
theorem read_eq_readPlain {c : Cursor} {x : Char} {t : List Char} (h : c.rest = x :: t)
    (hx : x ∉ ['*', '+', '?', '{']) : read x c = readPlain x c := by
  unfold read
  split
  · rename_i q later hread
    obtain ⟨y, w, hy, hreads⟩ := (Quantifier.takes_of_read? hread).reads
    obtain rfl : y = x := (List.cons.inj (hreads.1.symm.trans h)).1
    exact absurd hy hx
  · rfl

/-- At a bar the bar is read. -/
theorem read_bar {c : Cursor} {t : List Char} (h : c.rest = '|' :: t) :
    read '|' c = (.bar (c.spanTo c.next), c.next) := read_eq_readPlain h (by decide)

/-- At an opening parenthesis a `GroupOpening` is read. -/
theorem read_open {c : Cursor} {t : List Char} (h : c.rest = '(' :: t) :
    read '(' c = (.opening (GroupOpening.read c).1, (GroupOpening.read c).2) :=
  read_eq_readPlain h (by decide)

/-- At a closing parenthesis it is read with the quantifier after it. -/
theorem read_close {c : Cursor} {t : List Char} (h : c.rest = ')' :: t) :
    read ')' c = (.closing (c.spanTo c.next) (Quantifier.readOptional c.next).1,
      (Quantifier.readOptional c.next).2) := read_eq_readPlain h (by decide)

/-- Where an atom can begin it is read with the quantifier after it. -/
theorem read_atom {c : Cursor} {x : Char} {t : List Char} (h : c.rest = x :: t)
    (hx : x ∉ Atom.nonStarters) :
    read x c = (.atom (Atom.read x c).1 (Quantifier.readOptional (Atom.read x c).2).1,
      (Quantifier.readOptional (Atom.read x c).2).2) := by
  have hoperator : ∀ y ∈ ['*', '+', '?', '{'], y ∈ Atom.nonStarters :=
    forall_mem_of_all (by decide)
  rw [read_eq_readPlain h fun hmem => hx (hoperator x hmem)]
  simp only [Atom.nonStarters, List.mem_cons, List.not_mem_nil, or_false, not_or] at hx
  simp [readPlain, hx]

/-- A lexeme is what `Lexeme.read` reads between two places. -/
def ReadAt (c later : Cursor) (l : Lexeme) : Prop :=
  ∃ x t, c.rest = x :: t ∧ read x c = (l, later)

/-- A lexeme that is read by `ReadAt` is of one of the forms. -/
theorem ReadAt.takes {c later : Cursor} {l : Lexeme} (h : ReadAt c later l) : Takes c later l := by
  obtain ⟨x, t, hrest, hread⟩ := h
  have htakes := takes_read hrest
  rw [hread] at htakes
  exact htakes

/-- Before the end a lexeme is read. -/
theorem readAt_read {c : Cursor} {x : Char} {t : List Char} (h : c.rest = x :: t) :
    ReadAt c (read x c).2 (read x c).1 := ⟨x, t, h, rfl⟩

/-- A bar is read as a bar. -/
theorem readAt_bar {c later : Cursor} (h : c.Reads ['|'] later) :
    ReadAt c later (.bar (c.spanTo later)) := by
  rw [h.eq_next]
  exact ⟨'|', _, h.1, read_bar h.1⟩

/-- Where an atom can begin it is read with the quantifier that follows it. -/
theorem readAt_atom {c middle later : Cursor} {x : Char} {t : List Char} {a : Atom}
    {q : Option Quantifier} (h : c.rest = x :: t) (hx : x ∉ Atom.nonStarters)
    (ha : Atom.read x c = (a, middle)) (hq : Quantifier.Follows middle later q) :
    ReadAt c later (.atom a q) :=
  ⟨x, t, h, by rw [read_atom h hx, ha, hq.readOptional_eq]⟩

/-- A lexeme takes at least one character. -/
theorem ReadAt.length_lt {c later : Cursor} {l : Lexeme} (h : ReadAt c later l) :
    later.rest.length < c.rest.length := by
  obtain ⟨x, t, hrest, hread⟩ := h
  have hr := reaches_read x c
  rw [hread] at hr
  exact hr.length_lt hrest

/-- A lexeme ends at a later place. -/
theorem ReadAt.reaches {c later : Cursor} {l : Lexeme} (h : ReadAt c later l) :
    c.Reaches later := by
  obtain ⟨x, t, hrest, hread⟩ := h
  have hr := reaches_read x c
  rw [hread] at hr
  exact c.reaches_next.trans hr

end Lexeme

end RegexTree
