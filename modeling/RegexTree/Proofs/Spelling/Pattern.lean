import RegexTree.Proofs.Alike.Class
import RegexTree.Proofs.Concatenation.Seam
import RegexTree.Proofs.Spelling.Basic

/-! # Spelled texts
Reading undoes spelling. The main statement says that a text in which every character is spelled in
some way, each in its own, is parsed to these characters one by one, and that the same text between
brackets is a class of these characters. What makes this work at the seams is that no spelling
begins like a quantifier or like the rest of a range. -/

namespace RegexTree

/-! ## The characters of a tree -/

/-- The character that an `Atom` stands for, if it is a single one. -/
def Atom.char? : Atom → Option Char
  | literal _ value => some value
  | escape e => e.value
  | _ => none

/-- The character that a term stands for, if it is a single one that is not repeated. -/
def Term.char? : Term → Option Char
  | ⟨.atom a, none⟩ => a.char?
  | _ => none

/-- The character that an atom of a class stands for, if it is a single one. -/
def ClassAtom.char? : ClassAtom → Option Char
  | literal _ value => some value
  | escape e => e.value
  | _ => none

/-- The character that a `ClassMember` stands for, if it is a single one. -/
def ClassMember.char? : ClassMember → Option Char
  | atom a => a.char?
  | range _ => none

/-- An atom that stands for a character (`Atom.char?`) makes sense. -/
theorem Atom.invalids_of_char? {a : Atom} {x : Char} (h : a.char? = some x) : a.invalids = [] := by
  cases a with
  | literal => rfl
  | escape => rfl
  | _ => cases h

/-- A member of a class that stands for a character makes sense. -/
theorem ClassMember.invalids_of_char? {m : ClassMember} {x : Char} (h : m.char? = some x) :
    m.invalids = [] := by
  cases m with
  | range => cases h
  | atom a =>
    cases a with
    | literal => rfl
    | escape => rfl
    | _ => cases h

/-- Terms that stand for characters make sense. -/
theorem Term.invalidsOfAll_of_char? {terms : List Term} {value : List Char}
    (h : terms.map (·.char?) = value.map some) : invalidsOfAll terms = [] := by
  induction terms generalizing value with
  | nil => rfl
  | cons t terms ih =>
    cases value with
    | nil => cases h
    | cons x value =>
      obtain ⟨hfirst, hothers⟩ := List.cons.inj h
      obtain ⟨e, q⟩ := t
      have helement : e.invalids = [] := by
        cases e with
        | group => cases hfirst
        | atom a =>
          cases q with
          | none => exact Atom.invalids_of_char? hfirst
          | some => cases hfirst
      rw [invalidsOfAll_cons, ih hothers, helement, List.append_nil]

/-! ## Outside of classes -/

variable {x : Char} {w value text t : List Char} {c later : Cursor}

/-- A `Spelling` is read as an atom that stands for the character. -/
theorem Spelling.atom_read (h : Spelling false x w) (hread : c.Reads w later)
    (hnext : w = ['\\', '0'] → ∀ y, later.rest.head? = some y → isDecimalDigit y = false) :
    ∃ y u a, c.rest = y :: u ∧ y ∉ Atom.nonStarters ∧ Atom.read y c = (a, later) ∧
      a.char? = some x := by
  have hreserved : ∀ y ∈ Atom.nonStarters ++ ['^', '$', '.', '[', '\\'], y ∈ syntaxChars :=
    forall_mem_of_all (by decide)
  rcases h.literal_or_takes hread hnext with ⟨rfl, hx, -⟩ | ⟨e, htakes, hvalue⟩
  · have hne : x ∉ Atom.nonStarters ++ ['^', '$', '.', '[', '\\'] := fun hmem =>
      hx (hreserved x hmem)
    rw [List.mem_append, not_or] at hne
    obtain ⟨hstart, hatom⟩ := hne
    simp only [List.mem_cons, List.not_mem_nil, or_false, not_or] at hatom
    have hliteral : Atom.read x c = (.literal (c.spanTo c.next) x, c.next) := by
      simp [Atom.read, hatom, isPatternChar_iff.mpr hx]
    rw [← hread.eq_next] at hliteral
    exact ⟨x, _, _, hread.1, hstart, hliteral, rfl⟩
  · obtain ⟨y, u, hrest, hy⟩ := Atom.exists_beginsEscape htakes rfl
    have hatom : Atom.read '\\' c = (.escape e, later) := by
      rw [Atom.read_of_backslash hrest, Atom.readBackslash_of_beginsEscape hy,
        Escaped.read_of_takes htakes rfl]
      rfl
    exact ⟨'\\', _, _, hrest, by decide, hatom, hvalue⟩

/-- No spelled text begins like a quantifier. -/
theorem Spells.noQuantifier (h : Spells false value text) : NoQuantifier text := by
  have hreserved : ∀ y ∈ ['*', '+', '?', '{'], y ∈ syntaxChars ∧ y ≠ '\\' :=
    forall_mem_of_all (by decide)
  cases h with
  | nil => exact .nil
  | cons hw =>
    obtain ⟨y, u, rfl, hy⟩ := hw.exists_cons
    refine .cons (fun hmem => ?_) _
    obtain ⟨hmeaning, hbackslash⟩ := hreserved y hmem
    rcases hy with rfl | ⟨hy, -⟩
    · exact hbackslash rfl
    · exact hy hmeaning

/-- A text that `Spells` characters up to the end of input is derived as terms that stand for
them. -/
theorem Spells.exists_derives (h : Spells false value text) (first : Bool) (hc : c.rest = text) :
    ∃ terms later, Derives false first c terms later [] later ∧
      terms.map (·.char?) = value.map some := by
  induction h generalizing c first with
  | nil => exact ⟨[], c, .stop (.inl hc), rfl⟩
  | cons hw hnext hrest ih =>
    obtain ⟨middle, hread, hmiddle⟩ := Cursor.exists_reads hc
    obtain ⟨y, u, a, hy, hstart, hatom, hchar⟩ := hw.atom_read hread (hmiddle ▸ hnext)
    obtain ⟨terms, later, hderives, hchars⟩ := ih false hmiddle
    have hfollows := NoQuantifier.follows (hmiddle ▸ hrest.noQuantifier)
    have hlexeme := Lexeme.readAt_atom hy hstart hatom hfollows
    exact ⟨_, later, .term hlexeme rfl hderives, congrArg₂ List.cons hchar hchars⟩

/-! ## Inside a class -/

/-- A spelling is read as an atom of a class that stands for the character. -/
theorem Spelling.classAtom_read (h : Spelling true x w) (hread : c.Reads w later)
    (hnext : w = ['\\', '0'] → ∀ y, later.rest.head? = some y → isDecimalDigit y = false) :
    ∃ y u a, c.rest = y :: u ∧ y ≠ ']' ∧ ClassAtom.read y c = (a, later) ∧ a.char? = some x := by
  have hreserved : ∀ y ∈ [']', '\\'], y ∈ syntaxChars := forall_mem_of_all (by decide)
  rcases h.literal_or_takes hread hnext with ⟨rfl, hx, -⟩ | ⟨e, htakes, hvalue⟩
  · have hclose : x ≠ ']' := by
      rintro rfl
      exact hx (by decide)
    have hbackslash : x ≠ '\\' := by
      rintro rfl
      exact hx (by decide)
    have hliteral : ClassAtom.read x c = (.literal (c.spanTo c.next) x, c.next) :=
      if_neg hbackslash
    rw [← hread.eq_next] at hliteral
    exact ⟨x, _, _, hread.1, hclose, hliteral, rfl⟩
  · obtain ⟨u, hu⟩ := htakes.reads
    have hatom : ClassAtom.read '\\' c = (.escape e, later) := by
      simp only [ClassAtom.read, if_true, Escaped.read_of_takes htakes rfl]
      rfl
    exact ⟨'\\', _, _, hu.1, by decide, hatom, hvalue⟩

/-- What begins a spelled text and the closing bracket behind it has no meaning of its own in a
class, but for backslashes and the bracket. -/
theorem Spells.head_cases (h : Spells true value text) {y : Char}
    (hy : (text ++ ']' :: t).head? = some y) :
    y = ']' ∨ y = '\\' ∨ y ∉ syntaxChars ∧ y ≠ '-' := by
  cases h with
  | nil => exact .inl (Option.some.inj hy).symm
  | cons hw =>
    obtain ⟨z, u, rfl, hz⟩ := hw.exists_cons
    obtain rfl : z = y := Option.some.inj hy
    exact .inr (hz.imp_right fun hz => ⟨hz.1, hz.2 rfl⟩)

/-- No spelled text in a class begins like the rest of a range, so `readHigh?` finds none. -/
theorem Spells.readHigh?_eq_none (h : Spells true value text) (hc : c.rest = text ++ ']' :: t) :
    ClassMember.readHigh? c = none := by
  refine ClassMember.readHigh?_eq_none fun z r hdash => ?_
  rw [hc] at hdash
  rcases h.head_cases (congrArg List.head? hdash) with hclose | hbackslash | ⟨-, hne⟩
  · cases hclose
  · cases hbackslash
  · exact absurd rfl hne

/-- No spelled text in a class begins like the mark of a complement. -/
theorem Spells.skips_caret (h : Spells true value text) (hc : c.rest = text ++ ']' :: t) :
    Cursor.Skips '^' c c none := by
  refine .absent fun hcaret => ?_
  rw [hc] at hcaret
  rcases h.head_cases hcaret with hclose | hbackslash | ⟨hne, -⟩
  · cases hclose
  · cases hbackslash
  · exact hne (by decide)

/-- If no digit begins a text (`NoDigit`), none begins it before a closing bracket. -/
theorem NoDigit.append_close (h : NoDigit text) : NoDigit (text ++ ']' :: t) := by
  intro y hy
  cases text with
  | nil => exact Option.some.inj hy ▸ by decide
  | cons z text => exact h y hy

/-- A spelled text up to a closing bracket is read as members that stand for the characters. -/
theorem Spells.readMembers (h : Spells true value text) (hc : c.rest = text ++ ']' :: t) :
    ∃ members later, CharacterClass.readMembers c = (members, later) ∧ later.rest = ']' :: t ∧
      members.map (·.char?) = value.map some := by
  induction h generalizing c with
  | nil => exact ⟨[], c, CharacterClass.readMembers_of_closes (hc ▸ .bracket t), hc, rfl⟩
  | @cons _ w _ text hw hnext hrest ih =>
    rw [List.append_assoc] at hc
    obtain ⟨middle, hread, hmiddle⟩ := Cursor.exists_reads hc
    have hdigit : w = ['\\', '0'] → ∀ y, middle.rest.head? = some y → isDecimalDigit y = false :=
      fun hw => hmiddle ▸ NoDigit.append_close (hnext hw)
    obtain ⟨y, u, a, hy, hclose, hatom, hchar⟩ := hw.classAtom_read hread hdigit
    obtain ⟨members, later, hmembers, hlater, hchars⟩ := ih hmiddle
    have hhigh := hrest.readHigh?_eq_none hmiddle
    have hmember : ClassMember.read y c = (.atom a, middle) := by
      simp only [ClassMember.read, hatom, hhigh]
    refine ⟨.atom a :: members, later, ?_, hlater, congrArg₂ List.cons hchar hchars⟩
    rw [CharacterClass.readMembers_of_rest hy hclose, hmember, hmembers]

/-- A class that is closed makes sense if its members stand for characters. -/
theorem CharacterClass.invalids_of_char? {s : CharacterClass} (hclosed : s.isClosed = true)
    (h : s.members.map (·.char?) = value.map some) : s.invalids = [] := by
  rw [CharacterClass.invalids, missingBracket, if_pos hclosed, Option.toList_none, List.append_nil,
    List.flatMap_eq_nil_iff]
  intro m hm
  have hmem : m.char? ∈ value.map some := h ▸ List.mem_map_of_mem hm
  obtain ⟨x, -, hx⟩ := List.mem_map.mp hmem
  exact ClassMember.invalids_of_char? hx.symm

/-- A spelled text between brackets is read as a `CharacterClass` of the characters. -/
theorem Spells.characterClass_read (h : Spells true value text)
    (hc : c.rest = '[' :: (text ++ ']' :: t)) :
    ∃ s later, CharacterClass.read c = (s, later) ∧ later.rest = t ∧ s.negated = false ∧
      s.isClosed = true ∧ s.members.map (·.char?) = value.map some := by
  have hinside := Cursor.rest_next hc
  obtain ⟨members, close, hmembers, hclose, hchars⟩ := h.readMembers hinside
  have hbracket := Cursor.skipOptional_of_skips (.present (Cursor.reads_next hclose))
  refine ⟨⟨c.spanTo close.next, c.spanTo c.next, none, members, some (close.spanTo close.next)⟩,
    close.next, ?_, Cursor.rest_next hclose, rfl, rfl, hchars⟩
  simp only [CharacterClass.read, Cursor.skipOptional_of_skips (h.skips_caret hinside), hmembers,
    hbracket]

/-! ## Whole patterns -/

/-- A text in which every character is spelled in some way is parsed without complaint to one
alternative of atoms that stand for these characters, and between brackets to a class of such
atoms, which is no complement. -/
theorem Regex.parse_spells {value text : String} :
    (Spells false value.toList text.toList →
      (Tree.parse text).hasInvalid = false ∧ (parse text).body.others = [] ∧
        (parse text).body.first.terms.map (·.char?) = value.toList.map some) ∧
    (Spells true value.toList text.toList →
      (Tree.parse ("[" ++ text ++ "]")).hasInvalid = false ∧
        (parse ("[" ++ text ++ "]")).body.others = [] ∧
          ∃ s : CharacterClass,
            (parse ("[" ++ text ++ "]")).body.first.terms = [⟨.atom (.characterClass s), none⟩] ∧
              s.negated = false ∧ s.isClosed = true ∧
                s.members.map (·.char?) = value.toList.map some) := by
  constructor
  · intro h
    obtain ⟨terms, later, hderives, hchars⟩ := h.exists_derives true (c := .ofString text) rfl
    rw [Tree.hasInvalid_parse, Regex.invalids, hderives.body_eq]
    refine ⟨?_, rfl, hchars⟩
    rw [Disjunction.invalids, Alternative.invalids, Term.invalidsOfAll_of_char? hchars]
    rfl
  · intro h
    have hrest :
        (Cursor.ofString ("[" ++ text ++ "]")).rest = '[' :: (text.toList ++ ']' :: []) := by
      simp [Cursor.ofString, String.toList_append]
    obtain ⟨s, later, hread, hend, hnegated, hclosed, hchars⟩ := h.characterClass_read hrest
    have hatom : Atom.read '[' (.ofString ("[" ++ text ++ "]")) = (.characterClass s, later) := by
      simp [Atom.read, hread]
    have hlexeme := Lexeme.readAt_atom hrest (by decide) hatom (hend ▸ NoQuantifier.nil).follows
    have hderives : Derives false true _ _ _ _ _ := .term hlexeme rfl (.stop (.inl hend))
    rw [Tree.hasInvalid_parse, Regex.invalids, hderives.body_eq]
    refine ⟨?_, rfl, s, rfl, hnegated, hclosed, hchars⟩
    rw [Disjunction.invalids, Alternative.invalids, Term.invalidsOfAll_cons]
    show s.invalids ++ [] ++ [] = []
    rw [CharacterClass.invalids_of_char? hclosed hchars]
    rfl

/-- A letter by two digits, a dash in braces with a zero before its digits and, at the end, the null
character. -/
theorem Regex.parse_spells_mixed :
    Spells false "a-\x00".toList "\\x61\\u{02D}\\0".toList ∧
      Spells true "a-\x00".toList "\\x61\\u{02D}\\0".toList ∧
        (parse "\\x61\\u{02D}\\0").body.first.terms.map (·.char?) = "a-\x00".toList.map some ∧
          (Tree.parse ("[" ++ "\\x61\\u{02D}\\0" ++ "]")).hasInvalid = false := by
  have hvalue : "a-\x00".toList = ['a', '-', '\x00'] := by decide
  have htext : "\\x61\\u{02D}\\0".toList =
      '\\' :: 'x' :: ['6', '1'] ++
        ('\\' :: ('u' :: '{' :: ['0', '2', 'D'] ++ ['}']) ++ (['\\', '0'] ++ [])) := by decide
  have hspells : ∀ inClass, Spells inClass "a-\x00".toList "\\x61\\u{02D}\\0".toList := by
    intro inClass
    rw [hvalue, htext]
    have hnull : Spells inClass ['\x00'] (['\\', '0'] ++ []) :=
      .cons (.null rfl) (fun _ y hy => absurd hy (by simp)) .nil
    have hdash : IsHexNumeral '-'.toNat ['0', '2', 'D'] := ⟨1, by decide⟩
    have hletter : IsHexNumeral 'a'.toNat ['6', '1'] := ⟨0, by decide⟩
    exact .cons (.hexadecimal rfl hletter) (by decide) (.cons (.braced hdash) (by decide) hnull)
  exact ⟨hspells false, hspells true, (parse_spells.1 (hspells false)).2.2,
    (parse_spells.2 (hspells true)).1⟩

end RegexTree
