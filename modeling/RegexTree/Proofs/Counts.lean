import RegexTree.Proofs.Isolation

/-! # What counts say
The bounds of a count are the numbers of its digits, cut down to 32 bits, and each part of a count is
there exactly if it is written. The main statement says so of every count in a pattern, at any
depth, and that a count is reported as reversed only if its numbers are. Cutting down invents no
reversed counts, and hides only those whose upper bound has reached the limit. -/

namespace RegexTree

/-! ## Numbers and texts -/

/-- The digits of a bound. -/
def Bound.digits (source : String) (b : Bound) : List Char := (b.span.textIn source).toList

/-- The number that the digits of a bound stand for, however large it is. -/
def Bound.number (source : String) (b : Bound) : Nat := Numeral.decimal (b.digits source)

/-- A bound is read off its digits, with the number cut down to 32 bits (`Numeral.max32`). -/
structure Bound.IsExact (source : String) (b : Bound) : Prop where
  /-- It has digits and nothing else. -/
  isNumeral : IsNumeral (b.digits source)
  /-- Its value is the smaller of its number and the largest one of 32 bits. -/
  value_eq : b.value = min (b.number source) Numeral.max32

/-- A comma and the digits after it. -/
def UpperPart.spelling (source : String) (u : UpperPart) : List Char :=
  ',' :: (u.max.map (Bound.digits source)).getD []

namespace Count

/-- The bounds that are written. -/
def bounds (c : Count) : List Bound := c.min :: c.max.toList

/-- The digits and the comma of a count in its braces. -/
def spelling (source : String) (c : Count) : List Char :=
  '{' :: (c.min.digits source ++ (c.upper.map (UpperPart.spelling source)).getD [] ++ ['}'])

/-- A count between its braces is read off its text. -/
structure IsExact (source : String) (operator : Span) (c : Count) : Prop where
  /-- The text has the parts of the count and nothing else. -/
  text_eq : (operator.textIn source).toList = c.spelling source
  /-- The bounds are exact up to 32 bits. -/
  bounds : ∀ b ∈ c.bounds, b.IsExact source
  /-- There is an upper part exactly if a comma is written. -/
  delimiter_iff : c.upper.isSome ↔ ',' ∈ (operator.textIn source).toList
  /-- The delimiter is the comma, and a bound comes after it exactly if a digit does. -/
  upper : ∀ u, c.upper = some u → (u.delimiter.textIn source).toList = [','] ∧
    (u.max.isSome ↔ ∃ d, isDecimalDigit d = true ∧
      ((⟨u.delimiter.stop, operator.stop⟩ : Span).textIn source).toList.head? = some d)
  /-- A count is reversed only if its numbers are. -/
  sound : c.isReversed = true → ∃ b, c.max = some b ∧ b.number source < c.min.number source
  /-- A count whose numbers are reversed is reversed unless both are cut down to the same value. -/
  complete : ∀ b, c.max = some b → b.number source < c.min.number source →
    c.min.number source ≤ Numeral.max32 ∨ b.number source < Numeral.max32 → c.isReversed = true

/-- A count with exact bounds (`Bound.IsExact`) is reversed exactly if its numbers are and the upper
one is below the limit. -/
theorem isReversed_iff {source : String} {c : Count} (h : ∀ b ∈ c.bounds, b.IsExact source) :
    c.isReversed = true ↔
      ∃ b, c.max = some b ∧ b.number source < c.min.number source ∧
        b.number source < Numeral.max32 := by
  have hmin := (h c.min List.mem_cons_self).value_eq
  unfold isReversed
  cases hmax : c.max with
  | none => simp
  | some b =>
    have hb := (h b (by simp [Count.bounds, hmax])).value_eq
    simp only [Option.any_some, decide_eq_true_eq, Option.some.injEq, exists_eq_left']
    rw [hmin, hb]
    omega

/-- Two numbers that are cut down to the same value are not seen to be reversed. -/
example : (read? (.ofString "\x7b4294967296,4294967295\x7d")).map (·.1.isReversed) =
    some false := by
  decide +kernel

end Count

/-! ## Exactness of what is read -/

variable {source : String} {c middle later : Cursor}

/-- Digits between two places are an exact `Bound`. -/
theorem Bound.isExact_of_reads {digits : List Char} (hc : (Cursor.ofString source).Reaches c)
    (hdigits : IsNumeral digits) (hread : c.Reads digits later) :
    IsExact source ⟨Numeral.decimalUpTo maxValue digits, c.spanTo later⟩ := by
  have htext : digits = Bound.digits source ⟨Numeral.decimalUpTo maxValue digits, c.spanTo later⟩ :=
    (hc.toList_textIn hread).symm
  constructor
  case isNumeral => rwa [← htext]
  case value_eq =>
    rw [Bound.number, ← htext]
    exact Numeral.decimalUpTo_eq_min Numeral.max32 digits

/-- An `UpperPart` is read off its text. -/
theorem UpperPart.Takes.reads_spelling {upper : Option UpperPart}
    (hc : (Cursor.ofString source).Reaches c) (h : UpperPart.Takes c later upper) :
    c.Reads ((upper.map (UpperPart.spelling source)).getD []) later := by
  cases h with
  | none => exact .refl c
  | comma hread => exact hread
  | @bound digits inside _ hcomma hdigits hread =>
    have htext := (hc.trans hcomma.reaches).toList_textIn hread
    have hspelling : UpperPart.spelling source ⟨c.spanTo inside,
        some ⟨Numeral.decimalUpTo Bound.maxValue digits, inside.spanTo later⟩⟩ =
        [','] ++ digits := congrArg (List.cons ',') htext
    rw [Option.map_some, Option.getD_some, hspelling]
    exact hcomma.trans hread

/-- The upper bound that is written is exact. -/
theorem UpperPart.Takes.isExact {upper : Option UpperPart}
    (hc : (Cursor.ofString source).Reaches c) (h : UpperPart.Takes c later upper) :
    ∀ b ∈ upper.bind (·.max), b.IsExact source := by
  cases h with
  | none => nofun
  | comma hread => nofun
  | bound hcomma hdigits hread =>
    intro b hb
    obtain rfl := Option.some.inj hb
    exact Bound.isExact_of_reads (hc.trans hcomma.reaches) hdigits hread

/-- The delimiter is the comma, and a bound comes after it exactly if a digit does. -/
theorem UpperPart.Takes.delimiter_eq {upper : Option UpperPart} {u : UpperPart}
    (hc : (Cursor.ofString source).Reaches c) (h : UpperPart.Takes c middle upper)
    (hclose : middle.Reads ['\x7d'] later) (hu : upper = some u) :
    (u.delimiter.textIn source).toList = [','] ∧
      (u.max.isSome ↔ ∃ d, isDecimalDigit d = true ∧
        ((⟨u.delimiter.stop, later.pos⟩ : Span).textIn source).toList.head? = some d) := by
  cases h with
  | none => cases hu
  | comma hread =>
    obtain rfl := Option.some.inj hu
    have hbehind : ((middle.spanTo later).textIn source).toList = ['\x7d'] :=
      (hc.trans hread.reaches).toList_textIn hclose
    refine ⟨hc.toList_textIn hread, ⟨nofun, ?_⟩⟩
    rintro ⟨d, hd, hhead⟩
    -- behind the comma stands the closing brace, which is no digit
    have hbrace : ['\x7d'].head? = some d := hbehind ▸ hhead
    obtain rfl := Option.some.inj hbrace
    exact absurd hd (by decide)
  | @bound digits inside _ hcomma hdigits hread =>
    obtain rfl := Option.some.inj hu
    have hbehind : ((inside.spanTo later).textIn source).toList = digits ++ ['\x7d'] :=
      (hc.trans hcomma.reaches).toList_textIn (hread.trans hclose)
    refine ⟨hc.toList_textIn hcomma, ⟨fun _ => ?_, fun _ => rfl⟩⟩
    obtain ⟨d, ds, rfl⟩ := List.exists_cons_of_ne_nil hdigits.1
    refine ⟨d, hdigits.2 d List.mem_cons_self, ?_⟩
    exact congrArg List.head? hbehind

/-- A `Count` that is read is exact. -/
theorem Count.Takes.isExact {count : Count} (hc : (Cursor.ofString source).Reaches c)
    (h : Count.Takes c later count) : count.IsExact source (c.spanTo later) := by
  obtain @⟨digits, inside, middle, close, upper, hopen, hdigits, hread, hupper, hclose⟩ := h
  have hinside := hc.trans hopen.reaches
  have hmiddle := hinside.trans hread.reaches
  have hmin := Bound.isExact_of_reads hinside hdigits hread
  have hbounds : ∀ b ∈ Count.bounds
      ⟨⟨Numeral.decimalUpTo Bound.maxValue digits, inside.spanTo middle⟩, upper⟩,
      b.IsExact source := by
    intro b hb
    rcases List.mem_cons.mp hb with rfl | hb
    · exact hmin
    · exact hupper.isExact hmiddle b (Option.mem_toList.mp hb)
  have hdigitsText : ((inside.spanTo middle).textIn source).toList = digits :=
    hinside.toList_textIn hread
  have htext : ((c.spanTo later).textIn source).toList = Count.spelling source
      ⟨⟨Numeral.decimalUpTo Bound.maxValue digits, inside.spanTo middle⟩, upper⟩ := by
    have hspelled := (hread.trans (hupper.reads_spelling hmiddle)).trans hclose
    rw [hc.toList_textIn (hopen.trans hspelled), Count.spelling, Bound.digits, hdigitsText]
    rfl
  constructor
  case text_eq => exact htext
  case bounds => exact hbounds
  case delimiter_iff =>
    have hcomma : ',' ∉ digits := fun hmem => absurd (hdigits.2 _ hmem) (by decide)
    rw [htext, Count.spelling, Bound.digits, hdigitsText]
    cases upper with
    | none => simp [hcomma]
    | some u => simp [UpperPart.spelling]
  case upper => exact fun u hu => hupper.delimiter_eq hmiddle hclose hu
  case sound =>
    intro hreversed
    obtain ⟨b, hb, hlt, -⟩ := (Count.isReversed_iff hbounds).mp hreversed
    exact ⟨b, hb, hlt⟩
  case complete =>
    intro b hb hlt hlimit
    exact (Count.isReversed_iff hbounds).mpr ⟨b, hb, hlt, by omega⟩

/-! ## Counts of a pattern -/

/-- The `Quantifier` of a term, at any depth, is read somewhere in the pattern. -/
theorem Regex.exists_takes_of_quantifier {t : Term} {q : Quantifier}
    (ht : t ∈ (parse source).terms) (hq : t.quantifier = some q) :
    ∃ a b, (Cursor.ofString source).Reaches a ∧ Quantifier.Takes a b q := by
  obtain ⟨nested, first, c, later, hc, hstands⟩ := standsAt_of_mem_terms ht
  have hfollows : ∃ middle, c.Reaches middle ∧ Quantifier.Follows middle later t.quantifier := by
    cases hstands with
    | lexeme hread hterm =>
      cases hread.takes_term hterm with
      | atom ha hfollows =>
        obtain ⟨x, w, hatom⟩ := ha.reads
        exact ⟨_, hatom.reaches, hfollows⟩
      | strayClosing houtside hclose hfollows => exact ⟨_, hclose.reaches, hfollows⟩
      | _ => cases hq
    | group ho hread hbody hclose =>
      have hbodyEnd := hread.reaches.trans hbody.reaches_later
      exact ⟨_, hbodyEnd.trans hclose.reaches_close, hclose.follows⟩
  obtain ⟨middle, hmiddle, hfollows⟩ := hfollows
  rw [hq] at hfollows
  cases hfollows with
  | present htakes => exact ⟨middle, later, hc.trans hmiddle, htakes⟩

/-- Every count of a pattern, at any depth, is exact up to 32 bits, has the parts that are written,
and is reversed only if its numbers are. -/
theorem Regex.counts_exact (source : String) :
    ∀ t ∈ (parse source).terms, ∀ q count, t.quantifier = some q → q.kind = .count count →
      count.IsExact source q.operator := by
  intro t ht q count hq hkind
  obtain ⟨c, later, hc, htakes⟩ := exists_takes_of_quantifier ht hq
  obtain ⟨hoperator, hmark⟩ := htakes
  cases hkind
  cases hoperator with
  | count hcount => exact hcount.isExact hc

/-- A count whose lower bound is cut down twice, beyond 64 bits and beyond 32 bits, and whose upper
bound is the largest one that is still seen to be smaller. -/
theorem Regex.counts_exact_reversed :
    let lower : Bound := ⟨4294967295, ⟨3, 23⟩⟩
    let upper : Bound := ⟨4294967294, ⟨24, 34⟩⟩
    let count : Count := ⟨lower, some ⟨⟨23, 24⟩, some upper⟩⟩
    let q : Quantifier := ⟨.count count, ⟨2, 35⟩, none⟩
    let t : Term := ⟨.atom (.literal ⟨1, 2⟩ 'a'), some q⟩
    t ∈ (parse "(a\x7b99999999999999999999,4294967294\x7d)").terms ∧ t.quantifier = some q ∧
      q.kind = .count count ∧
        lower.number "(a\x7b99999999999999999999,4294967294\x7d)" = 99999999999999999999 ∧
          count.isReversed = true := by
  intro lower upper count q t
  have ht : t ∈ (parse "(a\x7b99999999999999999999,4294967294\x7d)").terms := by decide +kernel
  have hexact := counts_exact "(a\x7b99999999999999999999,4294967294\x7d)" t ht q count rfl rfl
  have hlower : lower.number "(a\x7b99999999999999999999,4294967294\x7d)" =
      99999999999999999999 := by decide +kernel
  have hupper : upper.number "(a\x7b99999999999999999999,4294967294\x7d)" = 4294967294 := by
    decide +kernel
  refine ⟨ht, rfl, rfl, hlower, hexact.complete upper rfl ?_ (.inr ?_)⟩
  · show upper.number _ < lower.number _
    rw [hlower, hupper]
    decide
  · rw [hupper]
    decide

end RegexTree
