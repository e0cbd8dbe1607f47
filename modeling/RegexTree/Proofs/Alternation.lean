import RegexTree.Proofs.Alike.Derivation

/-! # Patterns between bars
The main statement says that a bar between two patterns is a bar between their alternatives, also
where the patterns make no sense: what stands before a bar outside of groups does not depend on what
stands behind it, and what stands behind it depends on what is before only by its offset. -/

namespace RegexTree

open Cursor (Alike)

/-- With nothing at the ends of two places that look alike, the same text is left at both. -/
theorem Cursor.Alike.of_rest_eq {m n : Nat} {a b : Cursor} (hpos : a.pos + m = b.pos + n)
    (hrest : a.rest = b.rest) : Alike m n [] [] a b :=
  ⟨hpos, a.rest, (List.append_nil _).symm, by rw [List.append_nil, hrest]⟩

/-- Where the text of a pattern stands last, outside of groups, its body is derived (`Derives`),
moved to this place. -/
theorem Regex.exists_derives_shift {pattern : String} {c : Cursor}
    (hrest : c.rest = pattern.toList) :
    ∃ terms mid others later, Derives false true c terms mid others later ∧
      (⟨⟨c.spanTo mid, terms⟩, others⟩ : Disjunction) = (parse pattern).body.shift c.pos := by
  obtain ⟨terms, mid, others, later, hd, hend, -⟩ := exists_derives pattern
  have halike : Alike c.pos 0 [] [] (.ofString pattern) c :=
    .of_rest_eq (Nat.zero_add _) hrest.symm
  obtain ⟨terms', mid', others', later', hshift, hlater, hderives⟩ :=
    hd.alike_disjunction halike .nil List.nil_suffix (Uncut.nil _ _) fun htrue => htrue
  refine ⟨terms', mid', others', later', hderives (.inl (hlater.rest_of_rest_eq hend)), ?_⟩
  rw [hd.body_eq, hshift, Disjunction.shift_zero]

/-- A bar between two patterns separates their alternatives, unless the end of input cuts off
something in the first: the alternatives are those of the first pattern and then those of the
second, moved behind the bar, and so are the bars, with the new one between them. -/
theorem Regex.parse_alternation (a b : String)
    (huncut : ∀ i ∈ (Tree.parse a).diagnostics, ¬ i.IsCutOff) :
    (parse (a ++ "|" ++ b)).body.alternatives =
        (parse a).body.alternatives ++
          (parse b).body.alternatives.map (·.shift (a.utf8ByteSize + 1)) ∧
      (parse (a ++ "|" ++ b)).body.bars =
        (parse a).body.bars ++ ⟨a.utf8ByteSize, a.utf8ByteSize + 1⟩ ::
          (parse b).body.bars.map (·.shift (a.utf8ByteSize + 1)) := by
  obtain ⟨termsA, midA, othersA, laterA, hA, hendA, hposA⟩ := exists_derives a
  rw [hA.invalids_eq] at huncut
  -- up to the bar the two patterns look alike
  have hstart : Alike 0 0 [] ('|' :: b.toList) (.ofString a) (.ofString (a ++ "|" ++ b)) := by
    refine ⟨rfl, a.toList, (List.append_nil _).symm, ?_⟩
    simp [Cursor.ofString, String.toList_append]
  obtain ⟨terms, mid, others, bar, hterms, hothers, hmid, hbar, hmore⟩ :=
    hA.alike hstart (.cons (by decide) _) List.nil_suffix (fun _ _ => huncut) fun htrue => htrue
  simp only [Term.shiftAll_zero, Branch.shiftAll_zero] at hterms hothers
  subst hterms hothers
  have hbarRest : bar.rest = '|' :: b.toList := hbar.rest_of_rest_eq hendA
  have hbarPos : bar.pos = a.utf8ByteSize := hbar.pos_eq.symm.trans hposA
  have hreadBar := Cursor.reads_next hbarRest
  have hnextPos : bar.next.pos = a.utf8ByteSize + 1 := by
    rw [hreadBar.2, hbarPos]
    rfl
  -- behind the bar the second pattern is read from its beginning on
  obtain ⟨termsB, midB, othersB, laterB, hB, hshift⟩ :=
    exists_derives_shift (Cursor.rest_next hbarRest)
  rw [hnextPos] at hshift
  have hderives := hmore _ laterB fun first => .bar hreadBar (Lexeme.readAt_bar hreadBar) hB
  have hfirst : (Cursor.ofString (a ++ "|" ++ b)).spanTo mid = (Cursor.ofString a).spanTo midA :=
    (hstart.shift_spanTo hmid).symm
  have hbarSpan : bar.spanTo bar.next = ⟨a.utf8ByteSize, a.utf8ByteSize + 1⟩ := by
    rw [Cursor.spanTo, hbarPos, hnextPos]
  rw [← Disjunction.alternatives_shift, ← Disjunction.bars_shift, ← hshift, hderives.body_eq,
    hA.body_eq, hfirst, hbarSpan]
  constructor
  · simp [Disjunction.alternatives]
  · simp [Disjunction.bars]

/-- The first pattern closes a group that is not open and repeats nothing, and the second leaves a
group open. -/
theorem Regex.parse_alternation_malformed :
    (∀ i ∈ (Tree.parse "a)|*").diagnostics, ¬ i.IsCutOff) ∧
      (parse ("a)|*" ++ "|" ++ "(b")).body.alternatives =
        (parse "a)|*").body.alternatives ++ (parse "(b").body.alternatives.map (·.shift 5) ∧
      (parse ("a)|*" ++ "|" ++ "(b")).body.bars =
        (parse "a)|*").body.bars ++ ⟨4, 5⟩ :: (parse "(b").body.bars.map (·.shift 5) :=
  have huncut : ∀ i ∈ (Tree.parse "a)|*").diagnostics, ¬ i.IsCutOff := by decide +kernel
  ⟨huncut, parse_alternation "a)|*" "(b" huncut⟩

end RegexTree
