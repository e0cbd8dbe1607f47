import RegexTree.Proofs.Concatenation.Seam
import RegexTree.Proofs.Isolation

/-! # Escapes inside and outside of classes
A backslash sequence means the same in a character class and outside, and takes the same part of the
text, unless the letter b or a dash follows the backslash. The main statement says so of the reader
of escapes, malformed ones included, and of whole patterns: brackets around an escape make a class
of it and nothing else, and every escape that a class of a pattern has among its atoms is the same
escape on its own. -/

namespace RegexTree

open Cursor (Alike)

variable {c later : Cursor} {e : Escaped}

/-! ## The two readers -/

/-- The sequence is an escape inside a class only: the one for a backspace, or that of a dash. -/
def Escaped.IsClassOnly (e : Escaped) : Prop :=
  ∃ span, e = .character ⟨span, .special 'b'⟩ ∨ e = .character ⟨span, .identity '-'⟩

namespace Escaped

/-- At a backslash both readers do the same exactly if neither the letter b nor a dash follows. -/
theorem read_true_eq_false_iff {t : List Char} (h : c.rest = '\\' :: t) :
    read true c = read false c ↔ t.head? ≠ some 'b' ∧ t.head? ≠ some '-' := by
  cases t with
  | nil =>
    have hlone : ∀ inClass, read inClass c = bad c c.next := by
      intro inClass
      unfold read
      rw [Cursor.rest_next h]
    simp [hlone]
  | cons x u =>
    rw [read_of_rest h, read_of_rest h]
    constructor
    · intro heq
      constructor
      · intro hx
        obtain rfl : x = 'b' := Option.some.inj hx
        have hkind := congrArg Prod.fst heq
        simp [readBody, isSpecialEscape, specialEscapes, isClassEscape, classEscapes,
          isIdentityEscape, isSyntaxChar, syntaxChars, named, bad] at hkind
      · intro hx
        obtain rfl : x = '-' := Option.some.inj hx
        have hkind := congrArg Prod.fst heq
        simp [readBody, isSpecialEscape, specialEscapes, isClassEscape, classEscapes,
          isIdentityEscape, isClassIdentityEscape, isSyntaxChar, syntaxChars, named, bad] at hkind
    · rintro ⟨hb, hdash⟩
      exact readBody_congr x c c.next (fun hx => hb (congrArg some hx))
        fun hx => hdash (congrArg some hx)

/-- What is an escape outside of classes is one inside. -/
theorem Takes.inside (h : Takes false c later e) : Takes true c later e := by
  have hno : ∀ {p : Prop}, ¬ (false = true ∧ p) := fun hand => Bool.false_ne_true hand.1
  cases h with
  | special hx hread => exact .special (.inl (hx.resolve_right hno)) hread
  | controlLetter hx hread => exact .controlLetter hx hread
  | hexadecimal hlength hdigits hread => exact .hexadecimal hlength hdigits hread
  | unicode hp hread => exact .unicode hp hread
  | null hread hnext => exact .null hread hnext
  | identity hx hread => exact .identity (.inl (hx.resolve_right hno)) hread
  | predefined hx hread => exact .predefined hx hread
  | property hx hopen hp hclose => exact .property hx hopen hp hclose
  | lone hread hend => exact .lone hread hend
  | bad hw hread => exact .bad hw hread

/-- What is an escape inside classes, and not only there, is one outside. -/
theorem Takes.outside (h : Takes true c later e) (honly : ¬ e.IsClassOnly) :
    Takes false c later e := by
  cases h with
  | special hx hread =>
    rcases hx with hx | ⟨-, rfl⟩
    · exact .special (.inl hx) hread
    · exact absurd ⟨_, .inl rfl⟩ honly
  | controlLetter hx hread => exact .controlLetter hx hread
  | hexadecimal hlength hdigits hread => exact .hexadecimal hlength hdigits hread
  | unicode hp hread => exact .unicode hp hread
  | null hread hnext => exact .null hread hnext
  | identity hx hread =>
    rcases hx with hx | ⟨-, rfl⟩
    · exact .identity (.inl hx) hread
    · exact absurd ⟨_, .inr rfl⟩ honly
  | predefined hx hread => exact .predefined hx hread
  | property hx hopen hp hclose => exact .property hx hopen hp hclose
  | lone hread hend => exact .lone hread hend
  | bad hw hread => exact .bad hw hread

/-- With no bytes in front an `Escaped` is unchanged. -/
@[simp] theorem shift_zero (e : Escaped) : e.shift 0 = e := by
  cases e with
  | character e => exact congrArg character e.shift_zero
  | set e => exact congrArg set e.shift_zero
  | invalid i => exact congrArg invalid i.shift_zero

/-- An escape makes sense exactly if it does with more bytes in front. -/
theorem invalids_shift_eq_nil_iff (n : Nat) : (e.shift n).invalids = [] ↔ e.invalids = [] := by
  cases e <;> simp [shift, invalids]

end Escaped

/-! ## From an atom to its escape -/

/-- An atom of a class that is an escape (`ClassAtom.ofEscaped`) is read as one. -/
theorem ClassAtom.Takes.of_ofEscaped {a : ClassAtom} (h : Takes c later a) (ha : a = ofEscaped e) :
    Escaped.Takes true c later e := by
  cases h with
  | literal => cases e <;> cases ha
  | @escaped e' he =>
    obtain rfl : e' = e := by cases e <;> cases e' <;> cases ha <;> rfl
    exact he

/-- An atom that is an escape that makes sense (`Atom.ofEscaped`) is read as one. -/
theorem Atom.Takes.of_ofEscaped {a : Atom} (h : Takes c later a) (ha : a = ofEscaped e)
    (hvalid : e.invalids = []) : Escaped.Takes false c later e := by
  cases h with
  | @escaped e' he =>
    obtain rfl : e' = e := by cases e <;> cases e' <;> cases ha <;> rfl
    exact he
  | reference hr => cases hr <;> cases e <;> cases ha <;> cases hvalid
  | _ => cases e <;> cases ha <;> cases hvalid

/-- A text that is one atom that makes sense is read as this atom, up to the end. -/
theorem Element.IsAllOf.exists_readAt {text : String} {a : Atom}
    (h : (Element.atom a).IsAllOf text) (hvalid : a.invalids = []) :
    ∃ later, Lexeme.ReadAt (.ofString text) later (.atom a none) ∧ later.rest = [] := by
  obtain ⟨terms, mid, others, later, hderives, hend, -⟩ := Regex.exists_derives text
  have hbody := hderives.body_eq
  rw [show (Regex.parse text).body = _ from h] at hbody
  obtain ⟨hfirst, rfl⟩ := Disjunction.mk.inj hbody
  obtain ⟨-, rfl⟩ := Alternative.mk.inj hfirst
  cases hderives with
  | term hread hterm hrest =>
    obtain ⟨b, q, rfl, hb, -⟩ := Lexeme.exists_atom hterm hvalid
    cases hb
    cases hrest with
    | stop => exact ⟨_, hread, hend⟩

/-- A text that is one atom that makes sense is taken as this atom, up to the end. -/
theorem Element.IsAllOf.exists_takes {text : String} {a : Atom}
    (h : (Element.atom a).IsAllOf text) (hvalid : a.invalids = []) :
    ∃ later, Atom.Takes (.ofString text) later a ∧ later.rest = [] := by
  obtain ⟨later, hread, hend⟩ := h.exists_readAt hvalid
  cases hread.takes with
  | atom htakes hq =>
    cases hq
    exact ⟨_, htakes, hend⟩

/-- A backslash sequence that makes sense is read as an atom. -/
theorem Escaped.Takes.readAt (h : Takes false c later e) (hvalid : e.invalids = [])
    (hend : Delimits later.rest) : Lexeme.ReadAt c later (.atom (.ofEscaped e) none) := by
  obtain ⟨y, u, hrest, hy⟩ := Atom.exists_beginsEscape h hvalid
  have hread : Atom.read '\\' c = (.ofEscaped e, later) := by
    rw [Atom.read_of_backslash hrest, Atom.readBackslash_of_beginsEscape hy,
      read_of_takes h hvalid]
  have hatom := Lexeme.readAt_atom_of_delimits hrest (by decide) (by rw [hread]; exact hend)
  rwa [hread] at hatom

/-! ## Escapes on their own -/

/-- A backslash sequence that makes sense is the same before any text that delimits it. -/
theorem Escaped.Takes.moved {inClass : Bool} {m n : Nat} {t : List Char} {a b : Cursor}
    (h : Takes inClass a later e) (hvalid : e.invalids = []) (halike : Alike m n later.rest t a b)
    (ht : Delimits t) :
    ∃ e' later', Takes inClass b later' e' ∧ e.shift m = e'.shift n ∧ e'.invalids = [] ∧
      later'.rest = t ∧ later.pos + m = later'.pos + n := by
  obtain ⟨w, hw⟩ := h.reads
  obtain ⟨_, hb, -⟩ := halike.of_reads hw List.suffix_rfl
  have hread := read_of_takes h hvalid
  have huncut : Uncut later.rest t (read inClass a).1.invalids := by
    intro _ _ i hi
    rw [hread, hvalid] at hi
    cases hi
  obtain ⟨hshift, hlater⟩ :=
    alike_read halike ht hw.1 (by simp only [hread, List.suffix_rfl]) huncut
  rw [hread] at hshift hlater
  refine ⟨_, _, takes_read hb.1, hshift, ?_, hlater.rest_of_rest_eq rfl, hlater.pos_eq⟩
  rwa [← invalids_shift_eq_nil_iff n, ← hshift, invalids_shift_eq_nil_iff]

/-- An escape of a class that is not `IsClassOnly` is the same escape on its own. -/
theorem Escaped.Takes.standsAlone (h : Takes true c later e) (hvalid : e.invalids = [])
    (honly : ¬ e.IsClassOnly) :
    ∃ w alone, c.Reads w later ∧ (Element.atom (.ofEscaped alone)).IsAllOf (String.ofList w) ∧
      alone.shift c.pos = e := by
  obtain ⟨w, hw⟩ := h.reads
  obtain ⟨alone, later', htakes, hshift, halone, hend, -⟩ :=
    (h.outside honly).moved hvalid hw.alike_alone .nil
  have hatom := htakes.readAt halone (by rw [hend]; exact .nil)
  refine ⟨_, alone, hw, hatom.isAllOf rfl hend, ?_⟩
  rw [← hshift, shift_zero]

/-- Every escape among the atoms of a class of a pattern, at any depth, is the same escape on its own
unless it is one only in classes. -/
theorem Regex.standsAlone_of_mem_class {source : String} {t : Term} {s : CharacterClass}
    {m : ClassMember} (ht : t ∈ (parse source).terms) (hs : t.element = .atom (.characterClass s))
    (hm : m ∈ s.members) (he : .ofEscaped e ∈ m.atoms) (hvalid : e.invalids = [])
    (honly : ¬ e.IsClassOnly) :
    ∃ alone, (Element.atom (.ofEscaped alone)).IsAllOf
        ((ClassAtom.ofEscaped e).span.textIn source) ∧
      alone.shift (ClassAtom.ofEscaped e).span.start = e := by
  rcases exists_takes_of_atom ht hs with ⟨i, hi⟩ | ⟨c, later, ⟨before, hc⟩, htakes⟩
  · cases hi
  · obtain ⟨hopen, hnegation, hmembers, -, -⟩ := htakes.of_class rfl
    obtain ⟨start, stop, hstart, hatom⟩ := hmembers.takes_of_mem m hm _ he
    obtain ⟨v, hv⟩ := (hopen.reaches.trans hnegation.reaches).trans hstart
    obtain ⟨w, alone, hw, hall, hshift⟩ := (hatom.of_ofEscaped rfl).standsAlone hvalid honly
    refine ⟨alone, ?_⟩
    rw [hatom.span_eq, Cursor.textIn_spanTo (hc.trans hv) hw]
    exact ⟨hall, hshift⟩

/-! ## Brackets around a text -/

/-- A class without a caret around one atom, with its closing bracket. -/
def CharacterClass.around (length : Nat) (a : ClassAtom) : CharacterClass :=
  ⟨⟨0, length + 2⟩, ⟨0, 1⟩, none, [.atom a], some ⟨length + 1, length + 2⟩⟩

/-- Before the closing bracket an escape is the last member of a class. -/
theorem CharacterClass.readMembers_of_escape (h : Escaped.Takes true c later e)
    (hvalid : e.invalids = []) (hend : later.rest = [']']) :
    readMembers c = ([.atom (.ofEscaped e)], later) := by
  obtain ⟨w, hw⟩ := h.reads
  have hatom : ClassAtom.read '\\' c = (.ofEscaped e, later) := by
    rw [ClassAtom.read, if_pos rfl, Escaped.read_of_takes h hvalid]
  have hhigh : ClassMember.readHigh? later = none := by
    refine ClassMember.readHigh?_eq_none fun x r hrest => ?_
    rw [hend] at hrest
    cases hrest
  have hmember : ClassMember.read '\\' c = (.atom (.ofEscaped e), later) := by
    rw [ClassMember.read, hatom]
    dsimp only
    rw [hhigh]
  have hlast : readMembers later = ([], later) := readMembers_of_closes (hend ▸ .bracket [])
  rw [readMembers_of_rest hw.1 (by decide), hmember, hlast]

/-- Between brackets an escape is read as the only member of a class (`CharacterClass.around`). -/
theorem CharacterClass.read_around {w : List Char} (h : Escaped.Takes true ⟨0, w⟩ later e)
    (hvalid : e.invalids = []) (hend : later.rest = []) :
    read ⟨0, '[' :: (w ++ [']'])⟩ =
      (around later.pos (.ofEscaped (e.shift 1)), ⟨later.pos + 2, []⟩) := by
  have halike : Alike 1 0 later.rest [']'] ⟨0, w⟩ ⟨1, w ++ [']']⟩ :=
    ⟨rfl, w, by rw [hend, List.append_nil], rfl⟩
  obtain ⟨e', later', htakes, hshift, hvalid', hend', hpos⟩ :=
    h.moved hvalid halike (.cons (by decide) [])
  rw [Escaped.shift_zero] at hshift
  obtain ⟨v, hv⟩ := htakes.reads
  -- the escape begins with its backslash, so no caret stands behind the opening bracket
  have hcaret : (⟨1, w ++ [']']⟩ : Cursor).skipOptional '^' = (none, ⟨1, w ++ [']']⟩) :=
    Cursor.skipOptional_of_skips (.absent (by rw [hv.1]; simp))
  have hmembers := readMembers_of_escape htakes hvalid' hend'
  have hnext : (⟨0, '[' :: (w ++ [']'])⟩ : Cursor).next = ⟨1, w ++ [']']⟩ := rfl
  have hafter : afterMembers ⟨0, '[' :: (w ++ [']'])⟩ = later' := by
    rw [afterMembers, hnext, hcaret, hmembers]
  have hclosing : later'.skipOptional ']' =
      (some ⟨later'.pos, later'.pos + 1⟩, ⟨later'.pos + 1, []⟩) :=
    Cursor.skipOptional_of_skips (.present ⟨hend', rfl⟩)
  have hstop : later'.pos = later.pos + 1 := by omega
  rw [read_eq, hafter, hclosing, hnext, hcaret, hmembers, ← hshift, hstop]
  rfl

/-- A text that is an escape on its own is the only member of the class in brackets around it. -/
theorem Element.IsAllOf.around {text : String} (h : (Element.atom (.ofEscaped e)).IsAllOf text)
    (hvalid : e.invalids = []) :
    (Element.atom (.characterClass
      (.around text.utf8ByteSize (.ofEscaped (e.shift 1))))).IsAllOf ("[" ++ text ++ "]") := by
  have hatom : (Atom.ofEscaped e).invalids = [] := by rwa [Atom.invalids_ofEscaped]
  obtain ⟨later, htakes, hend⟩ := h.exists_takes hatom
  have hescaped := htakes.of_ofEscaped rfl hvalid
  obtain ⟨w, hw⟩ := hescaped.reads
  have hpos : later.pos = text.utf8ByteSize := hw.reaches.pos_of_end hend
  have hread := CharacterClass.read_around hescaped.inside hvalid hend
  rw [hpos] at hread
  have htext : Cursor.ofString ("[" ++ text ++ "]") = ⟨0, '[' :: (text.toList ++ [']'])⟩ := by
    simp [Cursor.ofString]
  have hclass : Atom.read '[' (.ofString ("[" ++ text ++ "]")) =
      (.characterClass (.around text.utf8ByteSize (.ofEscaped (e.shift 1))),
        ⟨text.utf8ByteSize + 2, []⟩) := by
    rw [htext]
    show (Atom.characterClass (CharacterClass.read ⟨0, '[' :: (text.toList ++ [']'])⟩).1,
      (CharacterClass.read ⟨0, '[' :: (text.toList ++ [']'])⟩).2) = _
    rw [hread]
  have hlexeme := Lexeme.readAt_atom_of_delimits (congrArg Cursor.rest htext) (by decide)
    (by rw [hclass]; exact .nil)
  rw [hclass] at hlexeme
  exact hlexeme.isAllOf rfl rfl

/-- A text that is the only member of the class in brackets around it, and an escape there but not
one only in classes, is the same escape on its own. -/
theorem Element.IsAllOf.within {text : String} {s : CharacterClass}
    (h : (Element.atom (.characterClass s)).IsAllOf ("[" ++ text ++ "]"))
    (hmembers : s.members = [.atom (.ofEscaped e)]) (hnegation : s.negation = none)
    (hclosing : s.closing.isSome) (hvalid : e.invalids = []) (honly : ¬ e.IsClassOnly) :
    ∃ alone, (Element.atom (.ofEscaped alone)).IsAllOf text ∧ alone.shift 1 = e := by
  have hinvalids : (Atom.characterClass s).invalids = [] := by
    rw [Atom.invalids, CharacterClass.invalids, hmembers, CharacterClass.missingBracket,
      CharacterClass.isClosed, hclosing]
    simpa [ClassMember.invalids, ClassAtom.invalids_ofEscaped] using hvalid
  obtain ⟨later, htakes, hend⟩ := h.exists_takes hinvalids
  obtain @⟨_, _, _, inside, _, _, hopen, hskips, hms, hclose, -⟩ := htakes.of_class rfl
  subst hmembers hnegation
  cases hclose with
  | absent => cases hclosing
  | present hbracket =>
    cases hskips
    cases hms with
    | cons hm hnil =>
      cases hnil
      cases hm with
      | atom ha =>
        obtain ⟨w, alone, hw, hall, hshift⟩ := (ha.of_ofEscaped rfl).standsAlone hvalid honly
        -- the member takes all that stands between the brackets
        have hwhole : ("[" ++ text ++ "]").toList = (['['] ++ w ++ [']']) ++ later.rest :=
          ((hopen.trans hw).trans hbracket).1
        rw [hend, List.append_nil, String.toList_append, String.toList_append] at hwhole
        have hword : text.toList = w :=
          (List.append_right_inj ['[']).mp ((List.append_left_inj [']']).mp hwhole)
        have hstart : inside.pos = 1 := hopen.2
        rw [← hword, String.ofList_toList] at hall
        rw [hstart] at hshift
        exact ⟨alone, hall, hshift⟩

/-! ## Patterns -/

/-- Escapes mean the same inside and outside of classes. Both readers do the same at every backslash
that no letter b and no dash follows. A text that is an escape on its own is the only member of the
class in brackets around it. Every escape among the atoms of a class of a pattern is the same escape
on its own unless it is one only in classes, and so is a text that is the only member of the class
in brackets around it. -/
theorem Regex.escapes_agree :
    (∀ c t, c.rest = '\\' :: t → (Escaped.read true c = Escaped.read false c ↔
      t.head? ≠ some 'b' ∧ t.head? ≠ some '-')) ∧
    (∀ text e, (Element.atom (.ofEscaped e)).IsAllOf text → e.invalids = [] →
      (Element.atom (.characterClass
        (.around text.utf8ByteSize (.ofEscaped (e.shift 1))))).IsAllOf ("[" ++ text ++ "]")) ∧
    (∀ source, ∀ t ∈ (parse source).terms, ∀ s, t.element = .atom (.characterClass s) →
      ∀ m ∈ s.members, ∀ e, .ofEscaped e ∈ m.atoms → e.invalids = [] → ¬ e.IsClassOnly →
        ∃ alone, (Element.atom (.ofEscaped alone)).IsAllOf
            ((ClassAtom.ofEscaped e).span.textIn source) ∧
          alone.shift (ClassAtom.ofEscaped e).span.start = e) ∧
    (∀ text s e, (Element.atom (.characterClass s)).IsAllOf ("[" ++ text ++ "]") →
      s.members = [.atom (.ofEscaped e)] → s.negation = none → s.closing.isSome →
        e.invalids = [] → ¬ e.IsClassOnly →
          ∃ alone, (Element.atom (.ofEscaped alone)).IsAllOf text ∧ alone.shift 1 = e) := by
  refine ⟨?_, ?_, ?_, ?_⟩
  · intro c t h
    exact Escaped.read_true_eq_false_iff h
  · intro text e h hvalid
    exact h.around hvalid
  · intro source t ht s hs m hm e he hvalid honly
    exact standsAlone_of_mem_class ht hs hm he hvalid honly
  · intro text s e h hmembers hnegation hclosing hvalid honly
    exact h.within hmembers hnegation hclosing hvalid honly

/-- A property is the same between brackets and without them. -/
theorem Regex.escapes_agree_property :
    let e : Escaped := .set ⟨⟨0, 5⟩, .property ⟨false, none, ⟨"L", ⟨3, 4⟩⟩⟩⟩
    let s : CharacterClass := .around 5 (.ofEscaped (e.shift 1))
    (Element.atom (.characterClass s)).IsAllOf "[\\p\x7bL\x7d]" ∧
      ∃ alone, (Element.atom (.ofEscaped alone)).IsAllOf "\\p\x7bL\x7d" ∧
        alone.shift 1 = e.shift 1 := by
  intro e s
  have hall : (Element.atom (.ofEscaped e)).IsAllOf "\\p\x7bL\x7d" := by
    unfold Element.IsAllOf
    decide +kernel
  have hclass : (Element.atom (.characterClass s)).IsAllOf "[\\p\x7bL\x7d]" :=
    escapes_agree.2.1 "\\p\x7bL\x7d" e hall rfl
  have honly : ¬ (e.shift 1).IsClassOnly := by
    rintro ⟨span, h | h⟩ <;> cases h
  exact ⟨hclass, escapes_agree.2.2.2 "\\p\x7bL\x7d" s (e.shift 1) hclass rfl rfl rfl rfl honly⟩

end RegexTree
