import RegexTree.Proofs.Alike.Basic
import RegexTree.Proofs.Forms.Quantifier
import RegexTree.Proofs.Shift

/-! # Quantifiers at places that look alike
The readers of counts and quantifiers find the same at two places that look alike, moved from the
one to the other: a count is read up to its closing brace, and none of the `closers` stands in a
quantifier. The main statement is `Quantifier.alike_readOptional`. -/

namespace RegexTree

open Cursor (Alike)

variable {m n : Nat} {s t : List Char} {a b later : Cursor}

/-! ## Counts -/

/-- Digits are no closers. -/
theorem IsNumeral.not_mem_closers {digits : List Char} (h : IsNumeral digits) :
    ∀ x ∈ digits, x ∉ closers := by
  intro x hx
  exact RegexTree.not_mem_closers (by decide) (h.2 x hx)

/-- An upper part has no closers. -/
theorem UpperPart.Takes.exists_reads {upper : Option UpperPart} (h : Takes a later upper) :
    ∃ w, a.Reads w later ∧ ∀ x ∈ w, x ∉ closers := by
  have hcomma : ∀ x ∈ [','], x ∉ closers := forall_mem_of_all (by decide)
  cases h with
  | none => exact ⟨[], .refl a, List.forall_mem_nil _⟩
  | comma hread => exact ⟨_, hread, hcomma⟩
  | bound hread hdigits hreadDigits =>
    exact ⟨_, hread.trans hreadDigits,
      List.forall_mem_append.mpr ⟨hcomma, hdigits.not_mem_closers⟩⟩

/-- An `UpperPart` that stands at one place stands at the other as well. -/
theorem UpperPart.Takes.alike {upper : Option UpperPart} (hu : Takes a later upper)
    (h : Alike m n s t a b) (hs : s <:+ later.rest) :
    ∃ upper' later', Takes b later' upper' ∧ upper.map (·.shift m) = upper'.map (·.shift n) ∧
      Alike m n s t later later' := by
  cases hu with
  | none => exact ⟨_, b, .none, rfl, h⟩
  | comma hread =>
    obtain ⟨later', hread', hlater⟩ := h.of_reads hread hs
    refine ⟨_, later', .comma hread', ?_, hlater⟩
    simp only [Option.map_some, Option.map_none, shift, h.shift_spanTo hlater]
  | bound hcomma hdigits hread =>
    obtain ⟨inside', hcomma', hinside⟩ := h.of_reads hcomma (hread.reaches.stays hs)
    obtain ⟨later', hread', hlater⟩ := hinside.of_reads hread hs
    refine ⟨_, later', .bound hcomma' hdigits hread', ?_, hlater⟩
    simp only [Option.map_some, shift, Bound.shift, h.shift_spanTo hinside,
      hinside.shift_spanTo hlater]

namespace Count

/-- A count has no closers. -/
theorem Takes.exists_reads {count : Count} (h : Takes a later count) :
    ∃ w, a.Reads w later ∧ ∀ x ∈ w, x ∉ closers := by
  obtain ⟨hopen, hdigits, hread, hupper, hclose⟩ := h
  obtain ⟨w, hw, hno⟩ := hupper.exists_reads
  have hopenNo : ∀ x ∈ ['{'], x ∉ closers := forall_mem_of_all (by decide)
  have hcloseNo : ∀ x ∈ ['}'], x ∉ closers := forall_mem_of_all (by decide)
  refine ⟨_, ((hopen.trans hread).trans hw).trans hclose, ?_⟩
  simp only [List.forall_mem_append]
  exact ⟨⟨⟨hopenNo, hdigits.not_mem_closers⟩, hno⟩, hcloseNo⟩

/-- A `Count` that stands at one place stands at the other as well. -/
theorem Takes.alike {count : Count} (hc : Takes a later count) (h : Alike m n s t a b)
    (hs : s <:+ later.rest) :
    ∃ count' later', Takes b later' count' ∧ count.shift m = count'.shift n ∧
      Alike m n s t later later' := by
  obtain ⟨hopen, hdigits, hread, hupper, hclose⟩ := hc
  have hsClose := hclose.reaches.stays hs
  have hsMiddle := hupper.reaches.stays hsClose
  obtain ⟨inside', hopen', hinside⟩ := h.of_reads hopen (hread.reaches.stays hsMiddle)
  obtain ⟨middle', hread', hmiddle⟩ := hinside.of_reads hread hsMiddle
  obtain ⟨upper', close', hupper', hshift, hcloseAlike⟩ := hupper.alike hmiddle hsClose
  obtain ⟨later', hclose', hlater⟩ := hcloseAlike.of_reads hclose hs
  refine ⟨_, later', .mk hopen' hdigits hread' hupper' hclose', ?_, hlater⟩
  simp only [shift, Bound.shift, hshift, hinside.shift_spanTo hmiddle]

/-- What looks like a count is left by `pastMalformed?` at the same place, or is there at neither
place. -/
theorem alike_pastMalformed? (h : Alike m n s t a b) (ht : Delimits t)
    (hs : s <:+ a.rest) (hpast : ∀ later, pastMalformed? a = some later → s <:+ later.rest) :
    (pastMalformed? a = none ∧ pastMalformed? b = none) ∨
      ∃ later later', pastMalformed? a = some later ∧ pastMalformed? b = some later' ∧
        Alike m n s t later later' := by
  unfold pastMalformed? at hpast ⊢
  dsimp only at hpast ⊢
  cases hclose : (a.past (a.run allows)).accept? '}' with
  | some later =>
    rw [hclose] at hpast
    have hstay := hpast later rfl
    obtain ⟨hrun, hpastAlike⟩ :=
      h.run ht (by decide) ((Cursor.reaches_of_accept? hclose).stays hstay)
    obtain ⟨later', hclose', hlater⟩ := hpastAlike.of_accept? hclose hstay
    rw [hclose']
    exact .inr ⟨later, later', rfl, rfl, hlater⟩
  | none =>
    rw [hclose] at hpast
    have hstay : s <:+ (a.past (a.run allows)).rest := by
      by_cases hempty : a.run allows = []
      · rw [hempty, Cursor.past_nil]
        exact hs
      · exact hpast _ (if_neg hempty)
    obtain ⟨hrun, hpastAlike⟩ := h.run ht (by decide) hstay
    rw [hpastAlike.accept?_eq_none ht (by decide) hclose]
    by_cases hempty : a.run allows = []
    · exact .inl ⟨if_pos hempty, if_pos (hrun.trans hempty)⟩
    · have hempty' : b.run allows ≠ [] := fun hb => hempty (hrun.symm.trans hb)
      exact .inr ⟨_, _, if_neg hempty, if_neg hempty', hpastAlike⟩

end Count

/-! ## Quantifiers -/

/-- An operator has no closers. -/
theorem QuantifierKind.Takes.exists_reads {kind : QuantifierKind} (h : Takes a later kind) :
    ∃ w, a.Reads w later ∧ ∀ x ∈ w, x ∉ closers := by
  cases h with
  | zeroOrMore hread => exact ⟨_, hread, forall_mem_of_all (by decide)⟩
  | oneOrMore hread => exact ⟨_, hread, forall_mem_of_all (by decide)⟩
  | optional hread => exact ⟨_, hread, forall_mem_of_all (by decide)⟩
  | count hcount => exact hcount.exists_reads

/-- An operator stands at the other place as well. -/
theorem QuantifierKind.Takes.alike {kind : QuantifierKind} (hk : Takes a later kind)
    (h : Alike m n s t a b) (hs : s <:+ later.rest) :
    ∃ kind' later', Takes b later' kind' ∧ kind.shift m = kind'.shift n ∧
      Alike m n s t later later' := by
  cases hk with
  | zeroOrMore hread =>
    obtain ⟨later', hread', hlater⟩ := h.of_reads hread hs
    exact ⟨_, later', .zeroOrMore hread', rfl, hlater⟩
  | oneOrMore hread =>
    obtain ⟨later', hread', hlater⟩ := h.of_reads hread hs
    exact ⟨_, later', .oneOrMore hread', rfl, hlater⟩
  | optional hread =>
    obtain ⟨later', hread', hlater⟩ := h.of_reads hread hs
    exact ⟨_, later', .optional hread', rfl, hlater⟩
  | count hcount =>
    obtain ⟨count', later', hcount', hshift, hlater⟩ := hcount.alike h hs
    exact ⟨_, later', .count hcount', congrArg QuantifierKind.count hshift, hlater⟩

namespace Quantifier

/-- A `Quantifier` that is read at one place is read at the other as well. -/
theorem alike_of_read? {q : Quantifier} (h : Alike m n s t a b) (ht : Delimits t)
    (ha : read? a = some (q, later)) (hs : s <:+ later.rest) :
    ∃ q' later', read? b = some (q', later') ∧ q.shift m = q'.shift n ∧
      Alike m n s t later later' := by
  obtain ⟨⟨kind, middle⟩, hkind, heq⟩ := Option.map_eq_some_iff.mp ha
  obtain ⟨rfl, rfl⟩ : q = ⟨kind, a.spanTo middle, (middle.skipOptional '?').1⟩ ∧
      later = (middle.skipOptional '?').2 := by
    cases heq
    exact ⟨rfl, rfl⟩
  have hstay := (Cursor.reaches_skipOptional '?' middle).stays hs
  obtain ⟨kind', middle', hkind', hshift, hmiddle⟩ := (takes_of_readKind? hkind).alike h hstay
  obtain ⟨hmark, hlater⟩ := hmiddle.skipOptional ht (by decide) hs
  refine ⟨⟨kind', b.spanTo middle', (middle'.skipOptional '?').1⟩, _, ?_, ?_, hlater⟩
  · rw [read?, readKind?_of_takes hkind']
    rfl
  · simp only [shift, hshift, h.shift_spanTo hmiddle, hmark]

/-- Where no quantifier is read, none is read at the other place either. -/
theorem read?_eq_none (h : Alike m n s t a b) (ht : Delimits t) (ha : read? a = none) :
    read? b = none := by
  have hkind : readKind? a = none := Option.map_eq_none_iff.mp ha
  refine Option.map_eq_none_iff.mpr ?_
  cases hb : readKind? b with
  | none => rfl
  | some result =>
    -- an operator at the other place has no closers, so it stands at the first place too
    obtain ⟨kind, middle⟩ := result
    have htakes := takes_of_readKind? hb
    obtain ⟨w, hread, hno⟩ := htakes.exists_reads
    obtain ⟨kind', middle', hkind', -⟩ := htakes.alike h.symm (h.stays_of_reads ht hread hno)
    rw [readKind?_of_takes hkind'] at hkind
    cases hkind

/-- No quantifier is read before a text that `Delimits`. -/
theorem readOptional_of_delimits (h : Delimits a.rest) : readOptional a = (none, a) := by
  unfold readOptional
  split
  · rename_i q later hread
    obtain ⟨x, w, hx, hq⟩ := (takes_of_read? hread).reads
    have hoperators : ∀ y ∈ ['*', '+', '?', '{'], y ∉ closers := forall_mem_of_all (by decide)
    exact absurd (h x (by rw [hq.1]; rfl)) (hoperators x hx)
  · rfl

/-- A quantifier that may follow is the same at both places. -/
theorem alike_readOptional (h : Alike m n s t a b) (ht : Delimits t)
    (hs : s <:+ (readOptional a).2.rest) :
    (readOptional a).1.map (·.shift m) = (readOptional b).1.map (·.shift n) ∧
      Alike m n s t (readOptional a).2 (readOptional b).2 := by
  unfold readOptional at hs ⊢
  cases ha : read? a with
  | none =>
    rw [read?_eq_none h ht ha]
    exact ⟨rfl, h⟩
  | some result =>
    obtain ⟨q, later⟩ := result
    rw [ha] at hs
    obtain ⟨q', later', hb, hshift, hlater⟩ := alike_of_read? h ht ha hs
    rw [hb]
    exact ⟨congrArg some hshift, hlater⟩

end Quantifier

end RegexTree
