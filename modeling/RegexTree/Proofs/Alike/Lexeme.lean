import RegexTree.Proofs.Alike.Class
import RegexTree.Proofs.Alike.Name
import RegexTree.Proofs.Alike.Quantifier
import RegexTree.Proofs.Forms.Lexeme

/-! # Lexemes at places that look alike
The main statement, `Lexeme.ReadAt.alike`, says that a lexeme that is read within the common text of
two places is read at both, moved from the one to the other. Only a lone backslash and a class that
is cut off can tell the end of input from what delimits a lexeme. -/

namespace RegexTree

open Cursor (Alike)

variable {m n : Nat} {s t r : List Char} {a b : Cursor} {x : Char}

/-! ## Atoms -/

namespace Atom

/-- As an atom, an `Escaped` is moved as on its own. -/
theorem shift_ofEscaped (n : Nat) (e : Escaped) :
    (ofEscaped e).shift n = ofEscaped (e.shift n) := by
  cases e <;> rfl

/-- A backslash sequence takes the character behind the backslash. -/
theorem next_reaches_readBackslash {c : Cursor} (hrest : c.next.rest = x :: r) :
    c.next.next.Reaches (readBackslash x c).2 := by
  unfold readBackslash
  dsimp only
  split
  · exact .refl _
  · split
    · rename_i hdigit
      have hx : isDecimalDigit x = true := (Bool.and_eq_true_iff.mp hdigit).1
      have hread := Cursor.reads_run isDecimalDigit c.next
      have hrun : c.next.run isDecimalDigit = x :: r.takeWhile isDecimalDigit := by
        rw [Cursor.run, hrest, List.takeWhile_cons_of_pos hx]
      rw [hrun] at hread
      obtain ⟨stop, hfirst, hdigits⟩ := Cursor.reads_cons_iff.mp hread
      unfold Backreference.readNumeric
      dsimp only
      rw [hrun, ← hfirst.eq_next]
      exact hdigits.reaches
    · split
      · exact Backreference.reaches_readNamed c c.next.next
      · unfold Escaped.read
        split
        · rename_i hnil
          rw [hnil] at hrest
          cases hrest
        · exact Escaped.next_reaches_readBody c c.next

/-- A `Backreference` by number is the same at both places. -/
theorem alike_readNumeric (h : Alike m n s t a b) (hbody : Alike m n s t a.next b.next)
    (ht : Delimits t) (hs : s <:+ (Backreference.readNumeric a a.next).2.rest) :
    (Backreference.readNumeric a a.next).1.shift m =
        (Backreference.readNumeric b b.next).1.shift n ∧
      Alike m n s t (Backreference.readNumeric a a.next).2
        (Backreference.readNumeric b b.next).2 := by
  obtain ⟨hrun, hpast⟩ := hbody.run ht (by decide) hs
  unfold Backreference.readNumeric
  dsimp only
  refine ⟨?_, hpast⟩
  rw [Backreference.shift, Backreference.shift, h.shift_spanTo hpast, hrun]

/-- A backslash sequence outside a class is the same at both places. -/
theorem alike_readBackslash (h : Alike m n s t a b) (ht : Delimits t) (ha : a.rest = '\\' :: r)
    {u : List Char} (hx : a.next.rest = x :: u) (hs : s <:+ (readBackslash x a).2.rest)
    (hu : Uncut s t (readBackslash x a).1.invalids) :
    (readBackslash x a).1.shift m = (readBackslash x b).1.shift n ∧
      Alike m n s t (readBackslash x a).2 (readBackslash x b).2 := by
  obtain ⟨-, hnext⟩ := h.next ha ((reaches_readBackslash x a).stays hs)
  obtain ⟨-, hbody⟩ := hnext.next hx ((next_reaches_readBackslash hx).stays hs)
  unfold readBackslash at hs hu ⊢
  dsimp only at hs hu ⊢
  by_cases hmarker : isWordBoundaryMarker x = true
  · rw [if_pos hmarker, if_pos hmarker]
    refine ⟨?_, hbody⟩
    simp only [shift, h.shift_spanTo hbody]
  rw [if_neg hmarker] at hs hu
  rw [if_neg hmarker, if_neg hmarker]
  by_cases hdigit : (isDecimalDigit x && x != '0') = true
  · rw [if_pos hdigit] at hs
    rw [if_pos hdigit, if_pos hdigit]
    obtain ⟨hshift, halike⟩ := alike_readNumeric h hnext ht hs
    exact ⟨congrArg backreference hshift, halike⟩
  rw [if_neg hdigit] at hs hu
  rw [if_neg hdigit, if_neg hdigit]
  by_cases hname : x = 'k'
  · rw [if_pos hname] at hs
    rw [if_pos hname, if_pos hname]
    obtain ⟨hshift, halike⟩ := Backreference.alike_readNamed h hbody ht hs
    refine ⟨?_, halike⟩
    rw [shift_ofReference, shift_ofReference, hshift]
  · rw [if_neg hname] at hs hu
    rw [if_neg hname, if_neg hname]
    rw [invalids_ofEscaped] at hu
    obtain ⟨hshift, halike⟩ := Escaped.alike_read h ht ha hs hu
    refine ⟨?_, halike⟩
    rw [shift_ofEscaped, shift_ofEscaped, hshift]

/-- Before another character a backslash begins a sequence with it, which is left to
`readBackslash`. -/
theorem read_backslash_of_rest {c : Cursor} (h : c.next.rest = x :: r) :
    read '\\' c = readBackslash x c := by
  simp only [read, h]
  rfl

/-- At the end of input a backslash is read as an escape. -/
theorem read_backslash_of_end {c : Cursor} (h : c.next.rest = []) :
    read '\\' c = (ofEscaped (Escaped.read false c).1, (Escaped.read false c).2) := by
  simp only [read, h]
  rfl

/-- An `Atom` is the same at both places. -/
theorem alike_read (h : Alike m n s t a b) (ht : Delimits t) (ha : a.rest = x :: r)
    (hs : s <:+ (read x a).2.rest) (hu : Uncut s t (read x a).1.invalids) :
    (read x a).1.shift m = (read x b).1.shift n ∧ Alike m n s t (read x a).2 (read x b).2 := by
  obtain ⟨-, hnext⟩ := h.next ha ((reaches_read x a).stays hs)
  have hspan := h.shift_spanTo hnext
  by_cases hclass : x = '['
  · subst hclass
    obtain ⟨hshift, halike⟩ := CharacterClass.alike_read h ha hs hu
    exact ⟨congrArg characterClass hshift, halike⟩
  by_cases hbackslash : x = '\\'
  · subst hbackslash
    cases hrest : a.next.rest with
    | cons y u =>
      rw [read_backslash_of_rest hrest] at hs hu ⊢
      obtain ⟨⟨u', hrest'⟩, -⟩ := hnext.next hrest ((next_reaches_readBackslash hrest).stays hs)
      rw [read_backslash_of_rest hrest']
      exact alike_readBackslash h ht ha hrest hs hu
    | nil =>
      rw [read_backslash_of_end hrest] at hs hu ⊢
      rw [invalids_ofEscaped] at hu
      -- a lone backslash is still alone at the other place
      have hsnil : s = [] := List.suffix_nil.mp (hrest ▸ hnext.stays.1)
      have htnil : t = [] := by
        obtain ⟨i, hi, hcut⟩ : ∃ i ∈ (Escaped.read false a).1.invalids, i.IsCutOff :=
          Escaped.isCutOff_of_lone ha hrest
        exact Decidable.byContradiction fun hne => hu hsnil hne i hi hcut
      have hrest' := (hnext.rest_of_rest_eq (hrest.trans hsnil.symm)).trans htnil
      rw [read_backslash_of_end hrest']
      obtain ⟨hshift, halike⟩ := Escaped.alike_read h ht ha hs hu
      refine ⟨?_, halike⟩
      rw [shift_ofEscaped, shift_ofEscaped, hshift]
  -- any other atom is a single character
  unfold read
  rw [if_neg hclass, if_neg hbackslash, if_neg hclass, if_neg hbackslash]
  split_ifs
  · exact ⟨congrArg (assertion · _) hspan, hnext⟩
  · exact ⟨congrArg (assertion · _) hspan, hnext⟩
  · exact ⟨congrArg anyCharacter hspan, hnext⟩
  · exact ⟨congrArg (literal · _) hspan, hnext⟩
  · exact ⟨congrArg (fun span => invalid ⟨span, _⟩) hspan, hnext⟩

/-- An atom begins with none of the `nonStarters`, which begin other lexemes. -/
theorem Takes.not_mem_nonStarters {c later : Cursor} {a : Atom} (h : Takes c later a) :
    ∀ x, c.rest.head? = some x → x ∉ nonStarters := by
  cases h with
  | literal hx hread =>
    refine hread.forall_head fun hmem => ?_
    have hreserved : ∀ y ∈ nonStarters, isPatternChar y = false := forall_mem_of_all (by decide)
    rw [hreserved _ hmem] at hx
    cases hx
  | reference hr =>
    obtain ⟨w, hread⟩ := hr.reads
    exact hread.forall_head (by decide)
  | escaped he =>
    obtain ⟨w, hread⟩ := he.reads
    exact hread.forall_head (by decide)
  | characterClass hs =>
    obtain ⟨w, hread⟩ := hs.reads
    exact hread.forall_head (by decide)
  | stray hx hread => rcases hx with rfl | rfl <;> exact hread.forall_head (by decide)
  | _ => exact Cursor.Reads.forall_head (by assumption) (by decide)

end Atom

/-! ## Lexemes -/

namespace Lexeme

/-- An atom is read from its first character on, and then the quantifier after it. -/
theorem ReadAt.eq_read_atom {later : Cursor} {atom : Atom} {q : Option Quantifier}
    (h : ReadAt a later (.atom atom q)) :
    ∃ x r, a.rest = x :: r ∧ x ∉ Atom.nonStarters ∧ atom = (Atom.read x a).1 ∧
      q = (Quantifier.readOptional (Atom.read x a).2).1 ∧
        later = (Quantifier.readOptional (Atom.read x a).2).2 := by
  have htakes := h.takes
  obtain ⟨x, r, hrest, hread⟩ := h
  cases htakes with
  | atom ha hq =>
    have hx := ha.not_mem_nonStarters x (by rw [hrest]; rfl)
    rw [read_atom hrest hx] at hread
    obtain ⟨hlexeme, hlater⟩ := Prod.mk.inj hread
    obtain ⟨hatom, hquantifier⟩ := Lexeme.atom.inj hlexeme
    exact ⟨x, r, hrest, hx, hatom.symm, hquantifier.symm, hlater.symm⟩

/-- Before a text that `Delimits` an atom is read without a quantifier. -/
theorem readAt_atom_of_delimits (ha : a.rest = x :: r) (hx : x ∉ Atom.nonStarters)
    (ht : Delimits (Atom.read x a).2.rest) :
    ReadAt a (Atom.read x a).2 (.atom (Atom.read x a).1 none) := by
  refine ⟨x, r, ha, ?_⟩
  rw [read_atom ha hx, Quantifier.readOptional_of_delimits ht]

/-- Before a text that delimits a closing parenthesis is read without a quantifier. -/
theorem readAt_closing_of_delimits (h : a.Reads [')'] b) (ht : Delimits b.rest) :
    ReadAt a b (.closing (a.spanTo b) none) := by
  refine ⟨')', _, h.1, ?_⟩
  rw [h.eq_next] at ht ⊢
  rw [read_close h.1, Quantifier.readOptional_of_delimits ht]

/-- What makes no sense in the atom of a lexeme; nothing in other lexemes. -/
def atomInvalids : Lexeme → List Invalid
  | atom a _ => a.invalids
  | _ => []

/-- A stray brace is the same at both places. -/
theorem alike_readBrace (h : Alike m n s t a b) (ht : Delimits t) (ha : a.rest = x :: r)
    (hs : s <:+ (readBrace a).2.rest) :
    (readBrace a).1.shift m = (readBrace b).1.shift n ∧
      Alike m n s t (readBrace a).2 (readBrace b).2 := by
  have hstay := (reaches_readBrace a).stays hs
  obtain ⟨-, hnext⟩ := h.next ha hstay
  have hpast : ∀ later, Count.pastMalformed? a.next = some later → s <:+ later.rest := by
    intro later hlater
    rw [readBrace, hlater] at hs
    exact hs
  unfold readBrace
  rcases Count.alike_pastMalformed? hnext ht hstay hpast with
    ⟨hpastA, hpastB⟩ | ⟨later, later', hpastA, hpastB, hlater⟩
  · rw [hpastA, hpastB]
    exact ⟨congrArg (fun span => strayBrace ⟨span, _⟩) (h.shift_spanTo hnext), hnext⟩
  · rw [hpastA, hpastB]
    exact ⟨congrArg (fun span => strayBrace ⟨span, _⟩) (h.shift_spanTo hlater), hlater⟩

/-- A lexeme of `readPlain`, which is no quantifier, is the same at both places. -/
theorem alike_readPlain (h : Alike m n s t a b) (ht : Delimits t) (ha : a.rest = x :: r)
    (hs : s <:+ (readPlain x a).2.rest) (hu : Uncut s t (readPlain x a).1.atomInvalids) :
    (readPlain x a).1.shift m = (readPlain x b).1.shift n ∧
      Alike m n s t (readPlain x a).2 (readPlain x b).2 := by
  obtain ⟨-, hnext⟩ := h.next ha ((reaches_readPlain x a).stays hs)
  unfold readPlain at hs hu ⊢
  by_cases hbar : x = '|'
  · rw [if_pos hbar, if_pos hbar]
    exact ⟨congrArg bar (h.shift_spanTo hnext), hnext⟩
  rw [if_neg hbar] at hs hu
  rw [if_neg hbar, if_neg hbar]
  by_cases hopen : x = '('
  · rw [if_pos hopen] at hs
    rw [if_pos hopen, if_pos hopen]
    obtain ⟨hshift, halike⟩ := GroupOpening.alike_read h ht (hopen ▸ ha) hs
    exact ⟨congrArg opening hshift, halike⟩
  rw [if_neg hopen] at hs hu
  rw [if_neg hopen, if_neg hopen]
  by_cases hclose : x = ')'
  · rw [if_pos hclose] at hs
    rw [if_pos hclose, if_pos hclose]
    obtain ⟨hshift, halike⟩ := Quantifier.alike_readOptional hnext ht hs
    refine ⟨?_, halike⟩
    simp only [shift, h.shift_spanTo hnext, hshift]
  rw [if_neg hclose] at hs hu
  rw [if_neg hclose, if_neg hclose]
  by_cases hbrace : x = '{'
  · rw [if_pos hbrace] at hs
    rw [if_pos hbrace, if_pos hbrace]
    exact alike_readBrace h ht ha hs
  · rw [if_neg hbrace] at hs hu
    rw [if_neg hbrace, if_neg hbrace]
    obtain ⟨hatom, hafter⟩ :=
      Atom.alike_read h ht ha ((Quantifier.reaches_readOptional _).stays hs) hu
    obtain ⟨hquantifier, halike⟩ := Quantifier.alike_readOptional hafter ht hs
    refine ⟨?_, halike⟩
    simp only [shift, hatom, hquantifier]

/-- A lexeme that is read within the common text is read at the other place as well. -/
theorem ReadAt.alike {l : Lexeme} {a₂ : Cursor} (hl : ReadAt a a₂ l) (h : Alike m n s t a b)
    (ht : Delimits t) (hs : s <:+ a₂.rest) (hu : Uncut s t l.atomInvalids) :
    ∃ l' b₂, ReadAt b b₂ l' ∧ l.shift m = l'.shift n ∧ Alike m n s t a₂ b₂ := by
  obtain ⟨x, r, hrest, hread⟩ := hl
  have hreach : a.next.Reaches a₂ := by
    have hfirst := reaches_read x a
    rwa [hread] at hfirst
  obtain ⟨⟨r', hrest'⟩, -⟩ := h.next hrest (hreach.stays hs)
  unfold read at hread
  cases hq : Quantifier.read? a with
  | none =>
    rw [hq] at hread
    obtain ⟨rfl, rfl⟩ := Prod.mk.inj hread
    obtain ⟨hshift, halike⟩ := alike_readPlain h ht hrest hs hu
    refine ⟨_, _, ⟨x, r', hrest', ?_⟩, hshift, halike⟩
    rw [read, Quantifier.read?_eq_none h ht hq]
  | some result =>
    obtain ⟨q, later⟩ := result
    rw [hq] at hread
    cases hread
    obtain ⟨q', later', hq', -, halike⟩ := Quantifier.alike_of_read? h ht hq hs
    refine ⟨.strayQuantifier (b.spanTo later'), later', ⟨x, r', hrest', ?_⟩, ?_, halike⟩
    · rw [read, hq']
    · exact congrArg strayQuantifier (h.shift_spanTo halike)

end Lexeme

end RegexTree
