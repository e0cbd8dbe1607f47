import RegexTree.Proofs.Alike.Derivation
import RegexTree.Proofs.Grammar.Readers
import RegexTree.Proofs.Grammar.Soundness

/-! # Seams
A text may go on behind the place where a pattern that makes sense ends. The main statements,
`Quantifier.Follows.append` and `Atom.read_append`, say that its quantifiers and atoms are then read
as before, if what follows does not begin like a quantifier. Only a reference by number and the null
escape, if they stand last, can tell that the text goes on: they would take a digit. -/

namespace RegexTree

open Cursor (Alike)

/-! ## Texts that go on -/

/-- The same place if the text goes on. -/
def Cursor.append (t : List Char) (c : Cursor) : Cursor := ⟨c.pos, c.rest ++ t⟩

namespace Cursor

variable {s t : List Char} {c d : Cursor}

/-- A place looks as it does if the text goes on, up to any place further on, in the sense of
`Alike`. -/
theorem alike_append_of_suffix (h : s <:+ c.rest) (t : List Char) :
    Alike 0 0 s (s ++ t) c (c.append t) := by
  obtain ⟨u, hu⟩ := h
  exact ⟨rfl, u, hu.symm, by rw [append, ← hu, List.append_assoc]⟩

/-- A place looks as it does if the text goes on. -/
theorem alike_append (t : List Char) (c : Cursor) : Alike 0 0 [] t c (c.append t) :=
  alike_append_of_suffix List.nil_suffix t

/-- A place that looks as before, where the text goes on, is the same place (`Cursor.append`). -/
theorem Alike.eq_append (h : Alike 0 0 s (s ++ t) c d) : d = c.append t := by
  obtain ⟨hpos, u, hc, hd⟩ := h
  obtain ⟨pos, rest⟩ := d
  obtain rfl : c.pos = pos := hpos
  rw [append, hc, List.append_assoc, ← hd]

/-- A text is read as before if it goes on. -/
theorem Reads.append {w : List Char} (h : c.Reads w d) : (c.append t).Reads w (d.append t) :=
  ⟨by rw [Cursor.append, h.1, List.append_assoc]; rfl, h.2⟩

/-- The next place is the same if the text goes on. -/
theorem next_append {x : Char} {r : List Char} (h : c.rest = x :: r) :
    (c.append t).next = c.next.append t := by
  have hread : (c.append t).Reads [x] (c.next.append t) := (reads_next h).append
  exact hread.eq_next.symm

end Cursor

/-! ## Quantifiers -/

/-- The text does not begin like a quantifier. -/
def NoQuantifier (t : List Char) : Prop := ∀ x, t.head? = some x → x ∉ ['*', '+', '?', '{']

/-- The empty text does not begin like a quantifier. -/
theorem NoQuantifier.nil : NoQuantifier [] := by
  intro x hx
  cases hx

/-- A text does not begin like a quantifier if its first character does not. -/
theorem NoQuantifier.cons {x : Char} (hx : x ∉ ['*', '+', '?', '{']) (t : List Char) :
    NoQuantifier (x :: t) := by
  intro y hy
  exact Option.some.inj hy ▸ hx

/-- Two texts in a row do not begin like a quantifier if neither does. -/
theorem NoQuantifier.append {s t : List Char} (hs : NoQuantifier s) (ht : NoQuantifier t) :
    NoQuantifier (s ++ t) := by
  cases s with
  | nil => exact ht
  | cons x s => exact hs

/-- Before a text with `NoQuantifier` there is none. -/
theorem NoQuantifier.follows {c : Cursor} (h : NoQuantifier c.rest) :
    Quantifier.Follows c c none := by
  refine .absent fun later q hq => ?_
  obtain ⟨x, w, hx, hread⟩ := hq.reads
  exact h x (by rw [hread.1]; rfl) hx

/-- A `QuantifierKind` is the same if the text goes on. -/
theorem QuantifierKind.Takes.append {c later : Cursor} {kind : QuantifierKind}
    (h : Takes c later kind) (t : List Char) : Takes (c.append t) (later.append t) kind := by
  obtain ⟨kind', later', hkind, hshift, hlater⟩ := h.alike (c.alike_append t) List.nil_suffix
  rw [shift_zero, shift_zero] at hshift
  rw [hshift, ← hlater.eq_append]
  exact hkind

/-- What may follow an element is the same if the text goes on, but not like a quantifier. -/
theorem Quantifier.Follows.append {c later : Cursor} {q : Option Quantifier} {t : List Char}
    (h : Follows c later q) (hnext : q = none → NoQuantifier later.rest) (ht : NoQuantifier t) :
    Follows (c.append t) (later.append t) q := by
  cases h with
  | absent => exact ((hnext rfl).append ht).follows
  | present hq =>
    obtain @⟨kind, mark, middle, hkind, hmark⟩ := hq
    have hmark' : Cursor.Skips '?' (middle.append t) (later.append t) mark := by
      cases hmark with
      | present hread => exact .present hread.append
      | absent hhead =>
        refine .absent fun hmore => ?_
        cases hrest : later.rest with
        | nil =>
          rw [Cursor.append, hrest] at hmore
          exact ht _ hmore (by decide)
        | cons x r =>
          rw [Cursor.append, hrest] at hmore
          exact hhead (hrest ▸ hmore)
    have hquantifier : Takes (c.append t) (later.append t)
        ⟨kind, (c.append t).spanTo (middle.append t), mark⟩ := .mk (hkind.append t) hmark'
    exact .present hquantifier

/-! ## Atoms -/

/-- The text does not begin with a digit. -/
def NoDigit (t : List Char) : Prop := ∀ x, t.head? = some x → isDecimalDigit x = false

/-- A digit behind the atom would be read as a part of it. -/
def Atom.TakesDigits (a : Atom) : Prop :=
  (∃ span index, a = .backreference (.numeric span index)) ∨ ∃ span, a = .escape ⟨span, .null⟩

/-- A `Grammar.Escape` is the same if the text goes on, but the null escape only if it does not go
on with a digit. -/
theorem Grammar.Escape.append {s u t : List Char} (h : Escape s u)
    (hnull : s = ['\\', '0'] → NoDigit t) :
    Escape (s ++ t) (u ++ t) := by
  cases h with
  | special hx => exact .special hx
  | control hx => exact .control hx
  | hexadecimal ha hb => exact .hexadecimal ha hb
  | unicode hp =>
    rw [List.cons_append, List.append_assoc]
    exact .unicode hp
  | null hnext =>
    refine .null ?_
    cases u with
    | nil => exact hnull rfl
    | cons x u => exact hnext
  | predefined hx => exact .predefined hx
  | property hx hvalue =>
    simp only [List.cons_append, List.append_assoc]
    exact .property hx hvalue
  | namedProperty hx hname hvalue =>
    simp only [List.cons_append, List.append_assoc]
    exact .namedProperty hx hname hvalue

/-- An escape is read within its text if this goes on, but the null escape only if it does not go
on with a digit. -/
theorem Escaped.suffix_read_append {c : Cursor} {r t : List Char} (hrest : c.rest = '\\' :: r)
    (hvalid : (read false c).1.invalids = [])
    (hnull : c.rest = ['\\', '0'] → NoDigit t) :
    t <:+ (read false (c.append t)).2.rest := by
  rcases (takes_read hrest).escape hvalid with hescape | ⟨x, hx, hidentity⟩
  · have hescape' : Grammar.Escape (c.append t).rest ((read false c).2.rest ++ t) :=
      hescape.append hnull
    obtain ⟨-, hlater⟩ : _ ∧ (read false (c.append t)).2.rest = _ := read_of_escape hescape'
    exact ⟨_, hlater.symm⟩
  · have happend : (c.append t).rest = '\\' :: x :: ((read false c).2.rest ++ t) := by
      rw [Cursor.append, hx]
      rfl
    obtain ⟨-, hlater⟩ : _ ∧ (read false (c.append t)).2.rest = _ :=
      read_of_identity happend (hidentity.imp_right fun hclass => absurd hclass.1 (by decide))
    exact ⟨_, hlater.symm⟩

/-- A run ends as before if the text goes on, but not with a character of its kind. -/
theorem Cursor.past_run_append {p : Char → Bool} {c : Cursor} {t : List Char}
    (ht : (c.past (c.run p)).rest = [] → ∀ x, t.head? = some x → p x = false) :
    (c.append t).past ((c.append t).run p) = (c.past (c.run p)).append t := by
  have hread : (c.append t).Reads (c.run p) ((c.past (c.run p)).append t) :=
    (reads_run p c).append
  have hrun : (c.append t).run p = c.run p := by
    refine run_of_rest hread.1 (fun x hx => of_mem_run hx) fun x hx => ?_
    cases hend : (c.past (c.run p)).rest with
    | nil =>
      rw [Cursor.append, hend] at hx
      exact ht hend x hx
    | cons y r =>
      rw [Cursor.append, hend] at hx
      refine head_past_run (c := c) ?_
      rw [hend]
      exact hx
  rw [hrun]
  exact (reads_past ⟨_, hread.1.symm⟩).unique hread

/-- A reference by name is read by `readNamed` within its text if this goes on. -/
theorem Backreference.suffix_readNamed_append {c body : Cursor} {t : List Char}
    (hvalid : (Atom.ofReference (readNamed c body).1).invalids = []) :
    t <:+ (readNamed (c.append t) (body.append t)).2.rest := by
  unfold readNamed at hvalid ⊢
  cases hopen : body.accept? '<' with
  | none =>
    rw [hopen] at hvalid
    cases hvalid
  | some inside =>
    rw [hopen] at hvalid
    obtain ⟨inside', hopen', hinside⟩ :=
      (body.alike_append t).of_accept? hopen List.nil_suffix
    cases hname : GroupName.read? inside with
    | none =>
      simp only [hname] at hvalid
      cases hvalid
    | some result =>
      obtain ⟨name, afterName⟩ := result
      obtain ⟨name', afterName', hname', -, -, hlater⟩ :=
        GroupName.alike_of_read? hinside hname List.nil_suffix
      simp only [hopen', hname']
      exact hlater.stays.2

namespace Atom

variable {x y : Char} {r t : List Char} {c : Cursor}

/-- An atom that begins neither a class nor a backslash sequence is a single character. -/
theorem snd_read_of_single (hclass : x ≠ '[') (hbackslash : x ≠ '\\') :
    (read x c).2 = c.next := by
  unfold read
  split_ifs
  all_goals rfl

/-- A backslash sequence that makes sense is read within its text if this goes on. -/
theorem suffix_readBackslash_append (hrest : c.rest = '\\' :: y :: r)
    (hvalid : (readBackslash y c).1.invalids = [])
    (hdigit : (readBackslash y c).2.rest = [] → (readBackslash y c).1.TakesDigits → NoDigit t) :
    t <:+ (readBackslash y (c.append t)).2.rest := by
  have hbody := Cursor.rest_next hrest
  have hnull : c.rest = ['\\', '0'] → NoDigit t := by
    intro hzero
    obtain ⟨pos, rest⟩ := c
    obtain rfl : rest = ['\\', '0'] := hzero
    obtain ⟨rfl, rfl⟩ : y = '0' ∧ r = [] := by simpa using hrest.symm
    exact hdigit rfl (.inr ⟨_, rfl⟩)
  unfold readBackslash at hvalid hdigit ⊢
  dsimp only at hvalid hdigit ⊢
  rw [Cursor.next_append hrest]
  by_cases hmarker : isWordBoundaryMarker y = true
  · rw [if_pos hmarker, Cursor.next_append hbody]
    exact ⟨_, rfl⟩
  rw [if_neg hmarker] at hvalid hdigit ⊢
  by_cases hnumber : (isDecimalDigit y && y != '0') = true
  · rw [if_pos hnumber] at hdigit ⊢
    have hpast := Cursor.past_run_append fun hend => hdigit hend (.inl ⟨_, _, rfl⟩)
    unfold Backreference.readNumeric
    dsimp only
    rw [hpast]
    exact ⟨_, rfl⟩
  rw [if_neg hnumber] at hvalid ⊢
  by_cases hname : y = 'k'
  · rw [if_pos hname] at hvalid ⊢
    rw [Cursor.next_append hbody]
    exact Backreference.suffix_readNamed_append hvalid
  · rw [if_neg hname] at hvalid ⊢
    rw [invalids_ofEscaped] at hvalid
    exact Escaped.suffix_read_append hrest hvalid hnull

/-- An `Atom` that makes sense is read within its text if this goes on. -/
theorem suffix_read_append (hrest : c.rest = x :: r) (hvalid : (read x c).1.invalids = [])
    (hdigit : (read x c).2.rest = [] → (read x c).1.TakesDigits → NoDigit t) :
    t <:+ (read x (c.append t)).2.rest := by
  by_cases hclass : x = '['
  · subst hclass
    -- a class that makes sense is closed, and cannot see what follows it
    cases hclose : (CharacterClass.afterMembers c).accept? ']' with
    | none =>
      obtain ⟨-, i, hi, -⟩ := CharacterClass.of_closing_eq_none hclose
      rw [show (CharacterClass.read c).1.invalids = [] from hvalid] at hi
      cases hi
    | some later =>
      exact (CharacterClass.alike_read_of_closed (c.alike_append t) hrest hclose
        List.nil_suffix).2.stays.2
  by_cases hbackslash : x = '\\'
  · subst hbackslash
    have hnext := Cursor.rest_next hrest
    cases r with
    | nil =>
      rw [read_backslash_of_end hnext, invalids_ofEscaped] at hvalid
      obtain ⟨i, hi, -⟩ := Escaped.isCutOff_of_lone hrest hnext
      rw [hvalid] at hi
      cases hi
    | cons y r =>
      have hnext' : (c.append t).next.rest = y :: (r ++ t) := by
        rw [Cursor.next_append hrest, Cursor.append, hnext]
        rfl
      rw [read_backslash_of_rest hnext] at hvalid hdigit
      rw [read_backslash_of_rest hnext']
      exact suffix_readBackslash_append hrest hvalid hdigit
  · rw [snd_read_of_single hclass hbackslash, Cursor.next_append hrest]
    exact ⟨_, rfl⟩

/-- An atom that makes sense is read as before if the text goes on, but a reference by number and
the null escape only if it does not go on with a digit. -/
theorem read_append (hrest : c.rest = x :: r) (hvalid : (read x c).1.invalids = [])
    (hdigit : (read x c).2.rest = [] → (read x c).1.TakesDigits → NoDigit t) :
    read x (c.append t) = ((read x c).1, (read x c).2.append t) := by
  have hrest' : (c.append t).rest = x :: (r ++ t) := by
    rw [Cursor.append, hrest]
    rfl
  obtain ⟨hshift, hlater⟩ := alike_read (c.alike_append t).symm .nil hrest'
    (suffix_read_append hrest hvalid hdigit) (Uncut.nil _ _)
  rw [shift_zero, shift_zero] at hshift
  exact Prod.ext hshift hlater.symm.eq_append

end Atom

end RegexTree
