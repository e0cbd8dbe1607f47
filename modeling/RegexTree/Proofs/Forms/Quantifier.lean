import RegexTree.Proofs.Numerals
import RegexTree.Proofs.Places
import RegexTree.Quantifier

/-! # Forms of quantifiers
What a quantifier and a count are made of, form by form. The main statements say that the reader of
quantifiers takes such a text and a lazy mark after it and reads one wherever such a text stands
(`Quantifier.read?_eq_some_iff`), and what is left behind where a brace begins no count
(`Count.reads_of_pastMalformed?`). -/

namespace RegexTree

/-- A run of decimal digits that is not empty. -/
def IsNumeral (digits : List Char) : Prop :=
  digits ≠ [] ∧ ∀ d ∈ digits, isDecimalDigit d = true

/-- The digits between two places are by `Bound.ofDigits` a bound with their span. -/
theorem Bound.ofDigits_eq {c later : Cursor} {digits : List Char} (h : c.Reads digits later) :
    Bound.ofDigits c digits = ⟨Numeral.decimalUpTo Bound.maxValue digits, c.spanTo later⟩ := by
  have hle : Bound.maxValue ≤ Numeral.max64 := by decide
  rw [Bound.ofDigits, (Cursor.reads_past ⟨later.rest, h.1.symm⟩).unique h,
    Numeral.min_decimalUpTo hle]

/-- What follows the lower bound of a count, up to the closing brace. -/
inductive UpperPart.Takes (c : Cursor) : Cursor → Option UpperPart → Prop where
  /-- Nothing. -/
  | none : Takes c c none
  /-- A comma alone. -/
  | comma {later : Cursor} (hread : c.Reads [','] later) :
      Takes c later (some ⟨c.spanTo later, Option.none⟩)
  /-- A comma and an upper bound. -/
  | bound {digits : List Char} {inside later : Cursor} (hcomma : c.Reads [','] inside)
      (hdigits : IsNumeral digits) (hread : inside.Reads digits later) :
      Takes c later (some ⟨c.spanTo inside,
        some ⟨Numeral.decimalUpTo Bound.maxValue digits, inside.spanTo later⟩⟩)

/-- An upper part ends at a later place. -/
theorem UpperPart.Takes.reaches {c later : Cursor} {upper : Option UpperPart}
    (h : UpperPart.Takes c later upper) : c.Reaches later := by
  cases h with
  | none => exact .refl c
  | comma hread => exact hread.reaches
  | bound hcomma hdigits hread => exact (hcomma.trans hread).reaches

namespace Count

/-- A count in braces. -/
inductive Takes (c later : Cursor) : Count → Prop where
  /-- A lower bound and an upper part. -/
  | mk {digits : List Char} {inside middle close : Cursor} {upper : Option UpperPart}
      (hopen : c.Reads ['{'] inside) (hdigits : IsNumeral digits)
      (hread : inside.Reads digits middle) (hupper : UpperPart.Takes middle close upper)
      (hclose : close.Reads ['}'] later) :
      Takes c later
        ⟨⟨Numeral.decimalUpTo Bound.maxValue digits, inside.spanTo middle⟩, upper⟩

/-- A count begins with its opening brace. -/
theorem Takes.reads {c later : Cursor} {count : Count} (h : Takes c later count) :
    ∃ w, c.Reads ('{' :: w) later := by
  obtain ⟨hopen, hdigits, hread, hupper, hclose⟩ := h
  obtain ⟨w, hw⟩ := hupper.reaches
  exact ⟨_, ((hopen.trans hread).trans hw).trans hclose⟩

/-- The upper part that `readUpper` reads is of one of the forms. -/
theorem takes_readUpper (c : Cursor) : UpperPart.Takes c (readUpper c).2 (readUpper c).1 := by
  unfold readUpper
  split
  · rename_i upper later hread
    obtain ⟨inside, hcomma, heq⟩ := Option.map_eq_some_iff.mp hread
    have hopen := Cursor.reads_of_accept? hcomma
    have hrun := Cursor.reads_run isDecimalDigit inside
    cases heq
    -- without digits the comma stands alone
    by_cases hdigits : inside.run isDecimalDigit = []
    · rw [hdigits, Cursor.past_nil]
      exact .comma hopen
    · rw [if_neg hdigits, Bound.ofDigits_eq hrun]
      exact .bound hopen ⟨hdigits, fun d hd => Cursor.of_mem_run hd⟩ hrun
  · exact .none

/-- A count that `read?` reads is of the form of counts. -/
theorem takes_of_read? {c later : Cursor} {count : Count} (h : read? c = some (count, later)) :
    Takes c later count := by
  simp only [read?, Option.bind_eq_bind, Option.bind_eq_some_iff] at h
  obtain ⟨inside, hinside, close, hclose, h⟩ := h
  have hrun := Cursor.reads_run isDecimalDigit inside
  split at h
  · cases h
  · rename_i hdigits
    cases h
    rw [Bound.ofDigits_eq hrun]
    exact .mk (Cursor.reads_of_accept? hinside) ⟨hdigits, fun d hd => Cursor.of_mem_run hd⟩ hrun
      (takes_readUpper _) (Cursor.reads_of_accept? hclose)

/-- An upper part is read by `readUpper` where it stands before the closing brace. -/
theorem readUpper_of_takes {c close later : Cursor} {upper : Option UpperPart}
    (h : UpperPart.Takes c close upper) (hclose : close.Reads ['}'] later) :
    readUpper c = (upper, close) := by
  have hend : ∀ x, close.rest.head? = some x → isDecimalDigit x = false :=
    hclose.forall_head (by decide)
  cases h with
  | none =>
    have hcomma : c.accept? ',' = none := Cursor.accept?_eq_none (by simp [hclose.1])
    simp [readUpper, UpperPart.read?, hcomma]
  | comma hread =>
    obtain rfl := hread.eq_next
    have hrun : c.next.run isDecimalDigit = [] :=
      Cursor.run_of_rest rfl (List.forall_mem_nil _) hend
    simp [readUpper, UpperPart.read?, Cursor.accept?_of_head hread.1, hrun]
  | bound hcomma hdigits hread =>
    obtain rfl := hcomma.eq_next
    have hrun := Cursor.run_of_rest hread.1 hdigits.2 hend
    have hpast := (Cursor.reads_past ⟨close.rest, hread.1.symm⟩).unique hread
    simp [readUpper, UpperPart.read?, Cursor.accept?_of_head hcomma.1, hrun, hpast, hdigits.1,
      Bound.ofDigits_eq hread]

/-- A count is read by `read?` where it stands. -/
theorem read?_of_takes {c later : Cursor} {count : Count} (h : Takes c later count) :
    read? c = some (count, later) := by
  obtain @⟨digits, inside, middle, close, upper, hopen, hdigits, hread, hupper, hclose⟩ := h
  obtain rfl := hopen.eq_next
  obtain rfl := hclose.eq_next
  -- a comma or the closing brace ends the digits of the lower bound
  have hend : ∀ x, middle.rest.head? = some x → isDecimalDigit x = false := by
    cases hupper with
    | none => exact hclose.forall_head (by decide)
    | comma hcomma => exact hcomma.forall_head (by decide)
    | bound hcomma => exact hcomma.forall_head (by decide)
  have hrun := Cursor.run_of_rest hread.1 hdigits.2 hend
  have hpast := (Cursor.reads_past ⟨middle.rest, hread.1.symm⟩).unique hread
  simp [read?, Cursor.accept?_of_head hopen.1, hrun, hpast, readUpper_of_takes hupper hclose,
    Cursor.accept?_of_head hclose.1, hdigits.1, Bound.ofDigits_eq hread]

/-- What looks like a count is left behind by `pastMalformed?` with digits and commas and perhaps
the closing brace. -/
theorem reads_of_pastMalformed? {c later : Cursor} (h : pastMalformed? c = some later) :
    ∃ w, (∀ y ∈ w, allows y = true) ∧ (c.Reads (w ++ ['}']) later ∨ w ≠ [] ∧ c.Reads w later) := by
  have hrun := Cursor.reads_run allows c
  have hall : ∀ y ∈ c.run allows, allows y = true := fun y hy => Cursor.of_mem_run hy
  unfold pastMalformed? at h
  dsimp only at h
  split at h
  · rename_i hclose
    cases h
    exact ⟨_, hall, .inl (hrun.trans (Cursor.reads_of_accept? hclose))⟩
  · split at h
    · cases h
    · rename_i hne
      cases h
      exact ⟨_, hall, .inr ⟨hne, hrun⟩⟩

end Count

/-! ## Quantifiers -/

/-- What a quantifier is without the mark that makes it lazy. -/
inductive QuantifierKind.Takes (c later : Cursor) : QuantifierKind → Prop where
  /-- A star. -/
  | zeroOrMore (hread : c.Reads ['*'] later) : Takes c later .zeroOrMore
  /-- A plus. -/
  | oneOrMore (hread : c.Reads ['+'] later) : Takes c later .oneOrMore
  /-- A question mark. -/
  | optional (hread : c.Reads ['?'] later) : Takes c later .optional
  /-- A count. -/
  | count {count : Count} (hcount : Count.Takes c later count) : Takes c later (.count count)

/-- An operator begins with one of four characters. -/
theorem QuantifierKind.Takes.reads {c later : Cursor} {kind : QuantifierKind}
    (h : QuantifierKind.Takes c later kind) :
    ∃ x w, x ∈ ['*', '+', '?', '{'] ∧ c.Reads (x :: w) later := by
  cases h with
  | zeroOrMore hread => exact ⟨_, _, by decide, hread⟩
  | oneOrMore hread => exact ⟨_, _, by decide, hread⟩
  | optional hread => exact ⟨_, _, by decide, hread⟩
  | count hcount =>
    obtain ⟨w, hw⟩ := hcount.reads
    exact ⟨_, w, by decide, hw⟩

namespace Quantifier

/-- A quantifier is an operator and, where a question mark follows, this mark. -/
inductive Takes (c later : Cursor) : Quantifier → Prop where
  /-- An operator and what follows it. -/
  | mk {kind : QuantifierKind} {mark : Option Span} {middle : Cursor}
      (hkind : QuantifierKind.Takes c middle kind) (hmark : Cursor.Skips '?' middle later mark) :
      Takes c later ⟨kind, c.spanTo middle, mark⟩

/-- A quantifier begins with one of four characters. -/
theorem Takes.reads {c later : Cursor} {q : Quantifier} (h : Takes c later q) :
    ∃ x w, x ∈ ['*', '+', '?', '{'] ∧ c.Reads (x :: w) later := by
  obtain ⟨hkind, hmark⟩ := h
  obtain ⟨x, w, hx, hread⟩ := hkind.reads
  obtain ⟨v, hv⟩ := hmark.reaches
  exact ⟨x, _, hx, hread.trans hv⟩

/-- A quantifier stands where it was read. -/
theorem Takes.span_eq {c later : Cursor} {q : Quantifier} (h : Takes c later q) :
    q.span = c.spanTo later := by
  obtain ⟨hkind, hmark⟩ := h
  cases hmark with
  | absent => rfl
  | present => rfl

/-- An operator that `readKind?` reads is of one of the forms. -/
theorem takes_of_readKind? {c later : Cursor} {kind : QuantifierKind}
    (h : readKind? c = some (kind, later)) : QuantifierKind.Takes c later kind := by
  unfold readKind? at h
  split at h
  · rename_i hrest
    cases h
    exact .zeroOrMore (Cursor.reads_next hrest)
  · rename_i hrest
    cases h
    exact .oneOrMore (Cursor.reads_next hrest)
  · rename_i hrest
    cases h
    exact .optional (Cursor.reads_next hrest)
  · obtain ⟨⟨count, stop⟩, hcount, heq⟩ := Option.map_eq_some_iff.mp h
    cases heq
    exact .count (Count.takes_of_read? hcount)
  · cases h

/-- A quantifier that `read?` reads is of this form. -/
theorem takes_of_read? {c later : Cursor} {q : Quantifier} (h : read? c = some (q, later)) :
    Takes c later q := by
  obtain ⟨⟨kind, middle⟩, hkind, heq⟩ := Option.map_eq_some_iff.mp h
  cases heq
  exact .mk (takes_of_readKind? hkind) (Cursor.skips_skipOptional '?' middle)

/-- An operator is read by `readKind?` where it stands. -/
theorem readKind?_of_takes {c later : Cursor} {kind : QuantifierKind}
    (h : QuantifierKind.Takes c later kind) : readKind? c = some (kind, later) := by
  cases h with
  | zeroOrMore hread => obtain rfl := hread.eq_next; simp [readKind?, hread.1]
  | oneOrMore hread => obtain rfl := hread.eq_next; simp [readKind?, hread.1]
  | optional hread => obtain rfl := hread.eq_next; simp [readKind?, hread.1]
  | count hcount =>
    have hread := Count.read?_of_takes hcount
    obtain ⟨hopen, -, -, -, -⟩ := hcount
    simp [readKind?, hopen.1, hread]

/-- A quantifier is read by `read?` exactly where one stands. -/
theorem read?_eq_some_iff {c later : Cursor} {q : Quantifier} :
    read? c = some (q, later) ↔ Takes c later q := by
  constructor
  · exact takes_of_read?
  · rintro ⟨hkind, hmark⟩
    simp [read?, readKind?_of_takes hkind, Cursor.skipOptional_of_skips hmark]

end Quantifier

end RegexTree
