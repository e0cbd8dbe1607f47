import RegexTree.Proofs.Diagnostics
import RegexTree.Proofs.Grammar.Basic

/-! # Readers and the grammar
Where a phrase of the grammar stands, its reader takes it without complaint:
`Escaped.read_of_escape`, `CharacterClass.read_of_members`, `GroupOpening.read_of_identifier` and,
for all elements but groups, `Atom.readsTo_of_element`. Two readers go on where the phrase may have
ended: digits belong to a reference by number as long as there are any, and a member of a class may
be the lower end of a range. -/

namespace RegexTree

variable {c : Cursor} {t : List Char}

/-! ## Escapes -/

namespace Escaped

variable {inClass : Bool}

/-- After a backslash the second character is what is read. -/
theorem read_of_rest {x : Char} {u : List Char} (h : c.rest = '\\' :: x :: u) :
    read inClass c = readBody inClass x c c.next := by
  unfold read
  split
  · rename_i hend
    rw [Cursor.rest_next h] at hend
    cases hend
  · rename_i y v hy
    rw [Cursor.rest_next h] at hy
    rw [(List.cons.inj hy).1]

/-- The letters of properties begin a property. -/
theorem readBody_property {x : Char} (hx : x = 'p' ∨ x = 'P') (body : Cursor) :
    readBody inClass x c body = readProperty (x == 'P') c body.next := by
  rcases hx with rfl | rfl <;> simp [readBody, isSpecialEscape, specialEscapes, isClassEscape,
    classEscapes]

/-- Where a property stands in braces, it is read. -/
theorem readProperty_of_form {negated : Bool} {body inside close later : Cursor}
    {p : UnicodeProperty} (hopen : body.Reads ['{'] inside)
    (hp : UnicodeProperty.Form negated inside close p) (hclose : close.Reads ['}'] later) :
    readProperty negated c body = (.set ⟨c.spanTo later, .property p⟩, later) := by
  obtain rfl := hopen.eq_next
  simp only [readProperty, Cursor.accept?_of_head hopen.1, UnicodeProperty.read?_of_form hp hclose]

/-- An `Escaped` that makes sense is read where it stands. -/
theorem read_of_takes {later : Cursor} {e : Escaped} (h : Takes inClass c later e)
    (hvalid : e.invalids = []) : read inClass c = (e, later) := by
  cases h with
  | @special x hx hread =>
    have hspecial : (isSpecialEscape x || (inClass && x == 'b')) = true := by simpa using hx
    rw [read_of_rest hread.1, readBody, if_pos hspecial, named, hread.eq_next_next]
  | controlLetter hx hread =>
    obtain ⟨body, hopen, hletter⟩ := Cursor.reads_append_iff (s := ['\\', 'c']) |>.mp hread
    obtain rfl := hopen.eq_next_next
    obtain rfl := hletter.eq_next
    rw [read_of_rest hread.1]
    simp [readBody, isSpecialEscape, specialEscapes, readControl, hletter.1, hx, named]
  | hexadecimal hlength hdigits hread =>
    obtain ⟨body, hopen, hrun⟩ := Cursor.reads_append_iff (s := ['\\', 'x']) |>.mp hread
    obtain rfl := hopen.eq_next_next
    have hall := Cursor.runUpTo_of_rest hrun.1 hlength hdigits
    have hpast := (Cursor.reads_past ⟨later.rest, hrun.1.symm⟩).unique hrun
    have hlast := Numeral.hexadecimal_le_last (Nat.le_trans (Nat.le_of_eq hlength) (by decide))
    have hcode := CodePoint.hexadecimalUpTo_of_le_last hlast
    rw [read_of_rest hread.1]
    simp [readBody, isSpecialEscape, specialEscapes, readHexadecimal, hall, hlength, hpast, hcode,
      named]
  | @unicode p w hp hread =>
    -- the reader of code points begins on the letter, which both forms have
    obtain ⟨u, rfl⟩ : ∃ u, w = 'u' :: u := by cases hp <;> exact ⟨_, rfl⟩
    obtain ⟨body, hopen, hform⟩ := Cursor.reads_cons_iff.mp hread
    obtain rfl := hopen.eq_next
    rw [read_of_rest hread.1]
    simp [readBody, isSpecialEscape, specialEscapes, readUnicode, CodePoint.read_of_form hp hform,
      named]
  | null hread hnext =>
    obtain rfl := hread.eq_next_next
    have hrun : c.next.next.run isDecimalDigit = [] :=
      Cursor.run_of_rest rfl (List.forall_mem_nil _) hnext
    rw [read_of_rest hread.1]
    simp [readBody, isSpecialEscape, specialEscapes, readNull, hrun, named]
  | @identity x hx hread =>
    have hletter : ∀ y ∈ '/' :: '-' :: syntaxChars, isSpecialEscape y = false ∧ y ≠ 'b' ∧ y ≠ 'c' ∧
        y ≠ 'x' ∧ y ≠ 'u' ∧ y ≠ '0' ∧ isClassEscape y = false ∧ y ≠ 'p' ∧ y ≠ 'P' :=
      forall_mem_of_all (by decide)
    have hmem : x ∈ '/' :: '-' :: syntaxChars := by
      rw [isIdentityEscape_iff] at hx
      simp only [List.mem_cons]
      grind
    have hidentity : (isIdentityEscape x || (inClass && isClassIdentityEscape x)) = true := by
      rcases hx with hx | ⟨rfl, rfl⟩
      · rw [hx, Bool.true_or]
      · rfl
    rw [read_of_rest hread.1, hread.eq_next_next]
    simp [readBody, hletter x hmem, hidentity, named]
  | @predefined x hx hread =>
    have hletter : ∀ y ∈ classEscapes, isSpecialEscape y = false ∧ y ≠ 'b' ∧ y ≠ 'c' ∧ y ≠ 'x' ∧
        y ≠ 'u' ∧ y ≠ '0' :=
      forall_mem_of_all (by decide)
    have hmem : x ∈ classEscapes := by simpa [isClassEscape] using hx
    rw [read_of_rest hread.1, hread.eq_next_next]
    simp [readBody, hletter x hmem, hx]
  | property hx hopen hp hclose =>
    obtain ⟨body, hletter, hbrace⟩ := Cursor.reads_append_iff (s := ['\\', _]) |>.mp hopen
    obtain rfl := hletter.eq_next_next
    rw [read_of_rest hopen.1, readBody_property hx, readProperty_of_form hbrace hp hclose]
  | lone => cases hvalid
  | bad => cases hvalid

/-- A `Grammar.Escape` is one of the forms that make sense. -/
theorem exists_takes_of_escape (h : Grammar.Escape c.rest t) :
    ∃ e later, Takes inClass c later e ∧ e.invalids = [] ∧ later.rest = t := by
  generalize hs : c.rest = s at h
  cases h with
  | @special x _ hx =>
    obtain ⟨later, hread, hrest⟩ := Cursor.exists_reads (w := ['\\', x]) hs
    exact ⟨_, later, .special (.inl (by simpa [isSpecialEscape] using hx)) hread, rfl, hrest⟩
  | @control x _ hx =>
    obtain ⟨later, hread, hrest⟩ := Cursor.exists_reads (w := ['\\', 'c', x]) hs
    exact ⟨_, later, .controlLetter hx hread, rfl, hrest⟩
  | @hexadecimal a b _ ha hb =>
    obtain ⟨later, hread, hrest⟩ := Cursor.exists_reads (w := ['\\', 'x', a, b]) hs
    exact ⟨_, later, .hexadecimal rfl (by simp [ha, hb]) hread, rfl, hrest⟩
  | unicode hp =>
    obtain ⟨later, hread, hrest⟩ := Cursor.exists_reads (w := '\\' :: _) hs
    exact ⟨_, later, .unicode hp hread, rfl, hrest⟩
  | null hnext =>
    obtain ⟨later, hread, hrest⟩ := Cursor.exists_reads (w := ['\\', '0']) hs
    exact ⟨_, later, .null hread (hrest ▸ hnext), rfl, hrest⟩
  | @predefined x _ hx =>
    obtain ⟨later, hread, hrest⟩ := Cursor.exists_reads (w := ['\\', x]) hs
    exact ⟨_, later, .predefined (by simpa [isClassEscape] using hx) hread, rfl, hrest⟩
  | @property x value _ hx hvalue =>
    obtain ⟨inside, hopen, hinside⟩ := Cursor.exists_reads (w := ['\\', x, '{']) hs
    obtain ⟨close, hread, hclose⟩ := Cursor.exists_reads hinside
    obtain ⟨later, hlater, hrest⟩ := Cursor.exists_reads (w := ['}']) hclose
    exact ⟨_, later, .property hx hopen (.value hvalue hread) hlater, rfl, hrest⟩
  | @namedProperty x name value _ hx hname hvalue =>
    obtain ⟨inside, hopen, hinside⟩ := Cursor.exists_reads (w := ['\\', x, '{']) hs
    obtain ⟨operator, hreadName, hoperator⟩ := Cursor.exists_reads hinside
    obtain ⟨start, hequals, hstart⟩ := Cursor.exists_reads (w := ['=']) hoperator
    obtain ⟨close, hread, hclose⟩ := Cursor.exists_reads hstart
    obtain ⟨later, hlater, hrest⟩ := Cursor.exists_reads (w := ['}']) hclose
    have hform : UnicodeProperty.Form (x == 'P') inside close _ :=
      .named hname hreadName hequals hvalue hread
    exact ⟨_, later, .property hx hopen hform hlater, rfl, hrest⟩

/-- An escape of the grammar is read without complaint. -/
theorem read_of_escape (h : Grammar.Escape c.rest t) :
    (read inClass c).1.invalids = [] ∧ (read inClass c).2.rest = t := by
  obtain ⟨e, later, htakes, hvalid, hrest⟩ := exists_takes_of_escape h
  rw [read_of_takes htakes hvalid]
  exact ⟨hvalid, hrest⟩

/-- A character that stands for itself after a backslash is read without complaint. -/
theorem read_of_identity {x : Char} (hrest : c.rest = '\\' :: x :: t)
    (hx : (x ∈ syntaxChars ∨ x = '/') ∨ inClass = true ∧ x = '-') :
    (read inClass c).1.invalids = [] ∧ (read inClass c).2.rest = t := by
  obtain ⟨later, hread, hlater⟩ := Cursor.exists_reads (w := ['\\', x]) hrest
  rw [← isIdentityEscape_iff] at hx
  rw [read_of_takes (.identity hx hread) rfl]
  exact ⟨rfl, hlater⟩

/-- The letter for a backspace is read without complaint inside a class. -/
theorem read_of_backspace (hrest : c.rest = '\\' :: 'b' :: t) :
    (read true c).1.invalids = [] ∧ (read true c).2.rest = t := by
  obtain ⟨later, hread, hlater⟩ := Cursor.exists_reads (w := ['\\', 'b']) hrest
  rw [read_of_takes (.special (.inr ⟨rfl, rfl⟩) hread) rfl]
  exact ⟨rfl, hlater⟩

end Escaped

/-! ## Classes -/

/-- A `Grammar.Member` is read as an atom of a class. -/
theorem ClassAtom.read_of_member {x : Char} {u : List Char} (hrest : c.rest = x :: u)
    (h : Grammar.Member c.rest t) : (read x c).1.invalids = [] ∧ (read x c).2.rest = t := by
  generalize hs : c.rest = s at h
  have hread : x = '\\' → read x c = (ofEscaped (Escaped.read true c).1, (Escaped.read true c).2) :=
    fun hx => by simp [read, hx]
  cases h with
  | literal hclose hx =>
    obtain ⟨rfl, rfl⟩ := List.cons.inj (hrest.symm.trans hs)
    simp [read, hx, invalids, Cursor.rest_next hrest]
  | escape he =>
    have hx : x = '\\' := by
      have hhead := he.head
      rw [← hs, hrest] at hhead
      exact Option.some.inj hhead
    rw [hread hx, invalids_ofEscaped]
    exact Escaped.read_of_escape (hs ▸ he)
  | backspace =>
    obtain ⟨rfl, rfl⟩ := List.cons.inj (hrest.symm.trans hs)
    rw [hread rfl, invalids_ofEscaped]
    exact Escaped.read_of_backspace hs
  | identity hx =>
    obtain ⟨rfl, rfl⟩ := List.cons.inj (hrest.symm.trans hs)
    rw [hread rfl, invalids_ofEscaped]
    exact Escaped.read_of_identity hs (by grind)

/-- Where members stand before a closing bracket, one of them or a range of them is read first. -/
theorem ClassMember.read_of_members {x : Char} {u : List Char} (hrest : c.rest = x :: u)
    (hx : x ≠ ']') (h : Grammar.Members c.rest (']' :: t)) :
    (read x c).1.invalids = [] ∧ Grammar.Members (read x c).2.rest (']' :: t) := by
  obtain ⟨v, hm, hms⟩ := h.first hrest hx
  obtain ⟨hlow, hafter⟩ := ClassAtom.read_of_member hrest hm
  rw [← hafter] at hms
  unfold read
  dsimp only
  split
  · rename_i delimiter high later hhigh
    unfold readHigh? at hhigh
    split at hhigh
    · rename_i y w hdash
      split at hhigh
      · cases hhigh
      · -- a range takes three members: this one, the dash and the one after it
        rename_i hy
        cases hhigh
        obtain ⟨v, hdashMember, hms⟩ := hms.first hdash (by decide)
        rw [hdash] at hdashMember
        obtain rfl := hdashMember.eq_of_literal (by decide)
        have hnext := Cursor.rest_next hdash
        obtain ⟨v, hhighMember, hms⟩ := hms.first rfl hy
        rw [← hnext] at hhighMember
        obtain ⟨hhigh, hlater⟩ := ClassAtom.read_of_member hnext hhighMember
        exact ⟨List.append_eq_nil_iff.mpr ⟨hlow, hhigh⟩, hlater ▸ hms⟩
    · cases hhigh
  · exact ⟨hlow, hms⟩

namespace CharacterClass

/-- The `Grammar.Members` before a closing bracket are read without complaint, up to the bracket. -/
theorem readMembers_of_members (h : Grammar.Members c.rest (']' :: t)) :
    (readMembers c).1.flatMap (·.invalids) = [] ∧ (readMembers c).2.rest = ']' :: t := by
  fun_induction readMembers c with
  | case1 c hrest => exact ⟨rfl, h.eq_of_head (by simp [hrest])⟩
  | case2 c text hrest => exact ⟨rfl, h.eq_of_head (by simp [hrest])⟩
  | case3 c x text hrest hx members later hread ih =>
    obtain ⟨hfirst, hothers⟩ := ClassMember.read_of_members hrest hx h
    obtain ⟨hvalid, hlater⟩ := ih hothers
    rw [hread] at hvalid hlater
    exact ⟨List.append_eq_nil_iff.mpr ⟨hfirst, hvalid⟩, hlater⟩

/-- Where a caret may be skipped before members, it is the mark of a complement. -/
theorem members_of_skips {start : Cursor} {negation : Option Span}
    (hskip : Cursor.Skips '^' c start negation)
    (h : Grammar.Members c.rest (']' :: t) ∨
      ∃ s, c.rest = '^' :: s ∧ Grammar.Members s (']' :: t)) :
    Grammar.Members start.rest (']' :: t) := by
  cases hskip with
  | absent hnext =>
    -- no caret stands there, so there is no mark
    rcases h with h | ⟨s, hs, -⟩
    · exact h
    · exact absurd (by rw [hs]; rfl) hnext
  | present hread =>
    have hcaret : c.rest = '^' :: start.rest := hread.1
    -- a caret that the grammar takes for the first member is skipped as a mark
    rcases h with h | ⟨s, hs, h⟩
    · obtain ⟨u, hm, hms⟩ := h.first hcaret (by decide)
      rw [hcaret] at hm
      exact hm.eq_of_literal (by decide) ▸ hms
    · obtain ⟨-, rfl⟩ := List.cons.inj (hcaret.symm.trans hs)
      exact h

/-- A class of the grammar is read without complaint. -/
theorem read_of_members {s : List Char} (hrest : c.rest = '[' :: s)
    (h : Grammar.Members s (']' :: t) ∨ ∃ u, s = '^' :: u ∧ Grammar.Members u (']' :: t)) :
    (read c).1.invalids = [] ∧ (read c).2.rest = t := by
  rw [← Cursor.rest_next hrest] at h
  have hstart := members_of_skips (Cursor.skips_skipOptional '^' c.next) h
  obtain ⟨hvalid, hclose⟩ := readMembers_of_members hstart
  have hskip : (readMembers (c.next.skipOptional '^').2).2.skipOptional ']' = (some _, _) :=
    Cursor.skipOptional_of_skips (.present (Cursor.reads_next hclose))
  simp only [read, hskip]
  exact ⟨List.append_eq_nil_iff.mpr ⟨hvalid, rfl⟩, Cursor.rest_next hclose⟩

end CharacterClass

/-! ## Openings of groups -/

namespace GroupKind

/-- One of the fixed identifiers (`GroupKind.identifiers`) is read without complaint. -/
theorem readIdentifier_of_fixed {w : List Char}
    (hw : w ∈ [['?', ':'], ['?', '='], ['?', '!'], ['?', '<', '='], ['?', '<', '!']])
    (hrest : c.rest = w ++ t) :
    (readIdentifier c).1.invalids = [] ∧ (readIdentifier c).2.rest = t := by
  simp only [List.mem_cons, List.not_mem_nil, or_false] at hw
  rcases hw with rfl | rfl | rfl | rfl | rfl <;>
    simp [readIdentifier, readPlain?, identifiers, Cursor.acceptAll?, Cursor.past, hrest, invalids]

/-- What begins like a name is no fixed identifier, but for the third characters of the
lookbehinds. -/
theorem readPlain?_of_head {w : List Char} (hrest : c.rest = '?' :: '<' :: w)
    (hhead : ∀ x, w.head? = some x → x ≠ '=' ∧ x ≠ '!') : readPlain? c = none := by
  cases w with
  | nil => simp [readPlain?, identifiers, Cursor.acceptAll?, hrest]
  | cons x w =>
    obtain ⟨hequals, hbang⟩ := hhead x rfl
    simp [readPlain?, identifiers, Cursor.acceptAll?, hrest, hequals.symm, hbang.symm]

/-- A name in angle brackets is no fixed identifier. -/
theorem readPlain?_of_name {w u : List Char} (hne : w ≠ []) (hw : GroupName.Form true w)
    (hrest : c.rest = '?' :: '<' :: (w ++ u)) : readPlain? c = none := by
  refine readPlain?_of_head hrest ?_
  -- no name begins with the third character of a lookbehind
  cases hw with
  | nil => exact absurd rfl hne
  | char hx =>
    rintro x ⟨⟩
    constructor <;> rintro rfl <;> exact absurd hx (by decide)
  | escape =>
    rintro x ⟨⟩
    decide

/-- What begins like a name and is no fixed identifier is left to `readNamed`, well-formed or
not. -/
theorem readIdentifier_eq_readNamed {inside : Cursor} (hopen : c.Reads ['?', '<'] inside)
    (hplain : readPlain? c = none) : readIdentifier c = readNamed c inside := by
  have hpast : c.past ['?', '<'] = inside :=
    (Cursor.reads_past ⟨inside.rest, hopen.1.symm⟩).unique hopen
  have hword : c.acceptAll? ['?', '<'] = some inside := by
    simp [Cursor.acceptAll?, hopen.1, hpast]
  simp only [readIdentifier, hplain, hword]

/-- A name in angle brackets is read without complaint. -/
theorem readIdentifier_of_name {w : List Char} (hne : w ≠ []) (hw : GroupName.Form true w)
    (hrest : c.rest = '?' :: '<' :: (w ++ '>' :: t)) :
    (readIdentifier c).1.invalids = [] ∧ (readIdentifier c).2.rest = t := by
  obtain ⟨inside, hopen, hinside⟩ := Cursor.exists_reads (w := ['?', '<']) hrest
  obtain ⟨stop, hread, hstop⟩ := Cursor.exists_reads hinside
  obtain ⟨name, hname⟩ := GroupName.read?_of_form hne hw hread (by rw [hstop]; rfl)
  rw [readIdentifier_eq_readNamed hopen (readPlain?_of_name hne hw hrest)]
  simp only [readNamed, hname]
  exact ⟨rfl, Cursor.rest_next hstop⟩

end GroupKind

/-- At a question mark behind its parenthesis an opening has an identifier. -/
theorem GroupOpening.read_of_mark (hmark : c.next.rest.head? = some '?') :
    read c = (⟨c.spanTo c.next, (GroupKind.readIdentifier c.next).1⟩,
      (GroupKind.readIdentifier c.next).2) := by
  simp only [read, if_pos hmark]

/-- A `Grammar.Identifier` behind the parenthesis is read without complaint, unless a question mark
follows that the grammar takes for a part of the body. -/
theorem GroupOpening.read_of_identifier {s : List Char} (hrest : c.rest = '(' :: s)
    (hi : Grammar.Identifier s t) (ht : t.head? ≠ some '?') :
    (read c).1.kind.invalids = [] ∧ (read c).2.rest = t := by
  have hinside := Cursor.rest_next hrest
  cases hi with
  | none =>
    rw [← hinside] at ht
    simp only [read, if_neg ht]
    exact ⟨rfl, hinside⟩
  | @fixed w _ hw =>
    have hmark : c.next.rest.head? = some '?' := by
      rw [hinside]
      simp only [List.mem_cons, List.not_mem_nil, or_false] at hw
      rcases hw with rfl | rfl | rfl | rfl | rfl <;> rfl
    rw [read_of_mark hmark]
    exact GroupKind.readIdentifier_of_fixed hw hinside
  | named hne hw =>
    have hmark : c.next.rest.head? = some '?' := by
      rw [hinside]
      rfl
    rw [read_of_mark hmark]
    exact GroupKind.readIdentifier_of_name hne hw hinside

/-! ## Atoms -/

namespace Atom

/-- After a backslash the character begins neither an assertion nor a reference. -/
def beginsEscape (x : Char) : Bool :=
  !isWordBoundaryMarker x && !(isDecimalDigit x && x != '0') && x != 'k'

/-- After a backslash, what is neither an assertion nor a reference is read as an escape. -/
theorem readBackslash_of_beginsEscape {x : Char} (hx : beginsEscape x = true) :
    readBackslash x c = (ofEscaped (Escaped.read false c).1, (Escaped.read false c).2) := by
  simp only [beginsEscape, Bool.and_eq_true, Bool.not_eq_true', bne_iff_ne] at hx
  obtain ⟨⟨hmarker, hreference⟩, hk⟩ := hx
  simp [readBackslash, hmarker, hreference, hk]

/-- At a backslash the second character is what is read. -/
theorem read_of_backslash {x : Char} {u : List Char} (hrest : c.rest = '\\' :: x :: u) :
    read '\\' c = readBackslash x c := by
  have hnext := Cursor.rest_next hrest
  unfold read
  simp only [Char.reduceEq, if_false, if_true]
  split
  · simp_all
  · simp_all

/-- At the letter of a reference by name `Backreference.readNamed` reads one, well-formed or not. -/
theorem read_eq_readNamed {body : Cursor} (hletter : c.Reads ['\\', 'k'] body) :
    read '\\' c =
      (ofReference (Backreference.readNamed c body).1, (Backreference.readNamed c body).2) := by
  rw [hletter.eq_next_next, read_of_backslash hletter.1]
  simp [readBackslash, isWordBoundaryMarker, isDecimalDigit]

/-- The second character of an escape that makes sense begins no assertion and no reference. -/
theorem exists_beginsEscape {later : Cursor} {e : Escaped}
    (h : Escaped.Takes false c later e) (hvalid : e.invalids = []) :
    ∃ y u, c.rest = '\\' :: y :: u ∧ beginsEscape y = true := by
  have hletter : ∀ y ∈ '/' :: (specialEscapes ++ classEscapes ++ syntaxChars),
      beginsEscape y = true := forall_mem_of_all (by decide)
  cases h with
  | @special y hx hread =>
    rcases hx with hx | ⟨hclass, -⟩
    · have hmem : y ∈ specialEscapes := by simpa [isSpecialEscape] using hx
      exact ⟨y, _, hread.1, hletter y (by simp [hmem])⟩
    · cases hclass
  | controlLetter hx hread => exact ⟨'c', _, hread.1, by decide⟩
  | hexadecimal hlength hdigits hread => exact ⟨'x', _, hread.1, by decide⟩
  | unicode hp hread => cases hp <;> exact ⟨'u', _, hread.1, by decide⟩
  | null hread => exact ⟨'0', _, hread.1, by decide⟩
  | @identity y hx hread =>
    rcases hx with hx | ⟨hclass, -⟩
    · refine ⟨y, _, hread.1, hletter y ?_⟩
      rcases isIdentityEscape_iff.mp hx with hmeaning | rfl
      · simp [hmeaning]
      · exact List.mem_cons_self
    · cases hclass
  | @predefined y hx hread =>
    have hmem : y ∈ classEscapes := by simpa [isClassEscape] using hx
    exact ⟨y, _, hread.1, hletter y (by simp [hmem])⟩
  | property hx hopen => rcases hx with rfl | rfl <;> exact ⟨_, _, hopen.1, by decide⟩
  | lone => cases hvalid
  | bad => cases hvalid

/-- The second character of an escape of the grammar begins no assertion and no reference. -/
theorem exists_of_escape {s : List Char} (h : Grammar.Escape s t) :
    ∃ x u, s = '\\' :: x :: u ∧ beginsEscape x = true := by
  cases h with
  | special hx =>
    have hletter : ∀ y ∈ specialEscapes, beginsEscape y = true := forall_mem_of_all (by decide)
    exact ⟨_, _, rfl, hletter _ hx⟩
  | unicode hp => cases hp <;> exact ⟨_, _, rfl, by decide⟩
  | predefined hx =>
    have hletter : ∀ y ∈ classEscapes, beginsEscape y = true := forall_mem_of_all (by decide)
    exact ⟨_, _, rfl, hletter _ hx⟩
  | property hx => rcases hx with rfl | rfl <;> exact ⟨_, _, rfl, by decide⟩
  | namedProperty hx => rcases hx with rfl | rfl <;> exact ⟨_, _, rfl, by decide⟩
  | _ => exact ⟨_, _, rfl, by decide⟩

/-- A reference by number takes the digits of the grammar and all digits behind them. -/
theorem readNumeric_of_digits (c : Cursor) {d : Char} {digits : List Char} {body : Cursor}
    (hrest : body.rest = d :: (digits ++ t)) (hd : isDecimalDigit d = true)
    (hdigits : ∀ e ∈ digits, isDecimalDigit e = true) :
    ∃ more, (∀ e ∈ more, isDecimalDigit e = true) ∧
      t = more ++ (Backreference.readNumeric c body).2.rest := by
  have hrun : body.run isDecimalDigit = (d :: digits) ++ t.takeWhile isDecimalDigit := by
    rw [Cursor.run, hrest, List.takeWhile_cons_of_pos hd, List.takeWhile_append_of_pos hdigits]
    rfl
  have hread : body.rest =
      body.run isDecimalDigit ++ (Backreference.readNumeric c body).2.rest :=
    (Cursor.reads_run isDecimalDigit body).1
  -- the run is the digits of the grammar and those that begin what follows them
  rw [hrun, hrest, List.append_assoc] at hread
  exact ⟨_, List.all_eq_true.mp List.all_takeWhile, (List.append_right_inj (d :: digits)).mp hread⟩

/-- The atom at a place is read without complaint up to a text, or beyond it over digits. -/
def ReadsTo (x : Char) (c : Cursor) (t : List Char) : Prop :=
  (read x c).1.invalids = [] ∧
    ∃ digits, (∀ d ∈ digits, isDecimalDigit d = true) ∧ t = digits ++ (read x c).2.rest

/-- An atom that is read up to a text goes over no digits. -/
theorem readsTo_of_read {x : Char} {a : Atom} {later : Cursor} (hread : read x c = (a, later))
    (hvalid : a.invalids = [] ∧ later.rest = t) : ReadsTo x c t := by
  unfold ReadsTo
  rw [hread]
  exact ⟨hvalid.1, [], List.forall_mem_nil _, hvalid.2.symm⟩

/-- A backslash sequence that is read as an escape is read (`ReadsTo`) up to what follows the
escape. -/
theorem readsTo_of_escaped {x : Char} {u : List Char} (hrest : c.rest = '\\' :: x :: u)
    (hx : beginsEscape x = true)
    (hvalid : (Escaped.read false c).1.invalids = [] ∧ (Escaped.read false c).2.rest = t) :
    ReadsTo '\\' c t := by
  have hread := (read_of_backslash hrest).trans (readBackslash_of_beginsEscape hx)
  refine readsTo_of_read hread ?_
  rw [invalids_ofEscaped]
  exact hvalid

/-- A reference by number is read over all digits. -/
theorem readsTo_of_number {d : Char} {digits : List Char}
    (hrest : c.rest = '\\' :: d :: (digits ++ t)) (hd : isDecimalDigit d = true) (hzero : d ≠ '0')
    (hdigits : ∀ e ∈ digits, isDecimalDigit e = true) : ReadsTo '\\' c t := by
  have hmarker : isWordBoundaryMarker d = false := by
    cases hb : isWordBoundaryMarker d with
    | false => rfl
    | true =>
      simp only [isWordBoundaryMarker, Bool.or_eq_true, beq_iff_eq] at hb
      rcases hb with rfl | rfl <;> cases hd
  have hread : read '\\' c = (.backreference (Backreference.readNumeric c c.next).1,
      (Backreference.readNumeric c c.next).2) := by
    rw [read_of_backslash hrest]
    simp [readBackslash, hmarker, hd, hzero]
  unfold ReadsTo
  rw [hread]
  exact ⟨rfl, readNumeric_of_digits c (Cursor.rest_next hrest) hd hdigits⟩

/-- A reference by name is read up to what follows its closing bracket. -/
theorem readsTo_of_name {w : List Char} (hrest : c.rest = '\\' :: 'k' :: '<' :: (w ++ '>' :: t))
    (hne : w ≠ []) (hw : GroupName.Form true w) : ReadsTo '\\' c t := by
  obtain ⟨body, hletter, hbody⟩ := Cursor.exists_reads (w := ['\\', 'k']) hrest
  obtain ⟨stop, hread, hstop⟩ := Cursor.exists_reads (Cursor.rest_next hbody)
  obtain ⟨name, hname⟩ := GroupName.read?_of_form hne hw hread (by rw [hstop]; rfl)
  have hreference : Backreference.readNamed c body =
      (.ok (.named (c.spanTo stop.next) name), stop.next) := by
    simp only [Backreference.readNamed, Cursor.accept?_of_head hbody, hname]
  refine readsTo_of_read (a := .backreference (.named (c.spanTo stop.next) name)) ?_
    ⟨rfl, Cursor.rest_next hstop⟩
  rw [read_eq_readNamed hletter, hreference]
  rfl

/-- A class is read up to what follows its closing bracket. -/
theorem readsTo_of_members {s : List Char} (hrest : c.rest = '[' :: s)
    (h : Grammar.Members s (']' :: t) ∨ ∃ u, s = '^' :: u ∧ Grammar.Members u (']' :: t)) :
    ReadsTo '[' c t := by
  have hread : read '[' c =
      (.characterClass (CharacterClass.read c).1, (CharacterClass.read c).2) := by
    simp [read]
  exact readsTo_of_read hread (CharacterClass.read_of_members hrest h)

/-- A `Grammar.Element` that is no group is read without complaint. -/
theorem readsTo_of_element {x : Char} {u : List Char} (hrest : c.rest = x :: u) (hgroup : x ≠ '(')
    (h : Grammar.Element c.rest t) : ReadsTo x c t := by
  generalize hs : c.rest = s at h
  cases h with
  | literal hx =>
    obtain ⟨rfl, rfl⟩ := List.cons.inj (hrest.symm.trans hs)
    have hne : ∀ y ∈ ['^', '$', '.', '[', '\\'], x ≠ y := by
      rintro y hy rfl
      have hreserved : ∀ z ∈ ['^', '$', '.', '[', '\\'], z ∈ syntaxChars :=
        forall_mem_of_all (by decide)
      exact hx (hreserved x hy)
    have hread : read x c = (.literal (c.spanTo c.next) x, c.next) := by
      simp [read, hne, isPatternChar_iff.mpr hx]
    exact readsTo_of_read hread ⟨rfl, Cursor.rest_next hrest⟩
  | symbol hx =>
    obtain ⟨rfl, rfl⟩ := List.cons.inj (hrest.symm.trans hs)
    have hnext := Cursor.rest_next hrest
    simp only [List.mem_cons, List.not_mem_nil, or_false] at hx
    rcases hx with rfl | rfl | rfl
    · exact readsTo_of_read (a := .anyCharacter _) rfl ⟨rfl, hnext⟩
    · exact readsTo_of_read (a := .assertion _ _) rfl ⟨rfl, hnext⟩
    · exact readsTo_of_read (a := .assertion _ _) rfl ⟨rfl, hnext⟩
  | boundary hx =>
    obtain ⟨rfl, rfl⟩ := List.cons.inj (hrest.symm.trans hs)
    have hnext := Cursor.rest_next (Cursor.rest_next hrest)
    have hread := read_of_backslash hrest
    rcases hx with rfl | rfl
    · exact readsTo_of_read (a := .assertion _ .wordBoundary) hread ⟨rfl, hnext⟩
    · exact readsTo_of_read (a := .assertion _ .nonWordBoundary) hread ⟨rfl, hnext⟩
  | number hd hzero hdigits =>
    obtain ⟨rfl, -⟩ := List.cons.inj (hrest.symm.trans hs)
    exact readsTo_of_number hs hd hzero hdigits
  | name hne hw =>
    obtain ⟨rfl, -⟩ := List.cons.inj (hrest.symm.trans hs)
    exact readsTo_of_name hs hne hw
  | escape he =>
    obtain ⟨y, v, rfl, hy⟩ := exists_of_escape he
    obtain ⟨rfl, -⟩ := List.cons.inj (hrest.symm.trans hs)
    exact readsTo_of_escaped hs hy (Escaped.read_of_escape (hs ▸ he))
  | identity hx =>
    obtain ⟨rfl, rfl⟩ := List.cons.inj (hrest.symm.trans hs)
    have hchar : ∀ y ∈ '/' :: syntaxChars, beginsEscape y = true := forall_mem_of_all (by decide)
    exact readsTo_of_escaped hs (hchar _ (List.mem_cons.mpr hx.symm))
      (Escaped.read_of_identity hs (.inl hx))
  | set hms =>
    obtain ⟨rfl, rfl⟩ := List.cons.inj (hrest.symm.trans hs)
    exact readsTo_of_members hs (.inl hms)
  | negatedSet hms =>
    obtain ⟨rfl, rfl⟩ := List.cons.inj (hrest.symm.trans hs)
    exact readsTo_of_members hs (.inr ⟨_, rfl, hms⟩)
  | group => exact absurd (List.cons.inj (hrest.symm.trans hs)).1 hgroup

end Atom

/-! ## Quantifiers -/

/-- An operator of the grammar is one of the operators that are read. -/
theorem Grammar.Operator.exists_takes (h : Operator c.rest t) :
    ∃ kind later, QuantifierKind.Takes c later kind ∧ later.rest = t := by
  generalize hs : c.rest = s at h
  cases h with
  | star =>
    obtain ⟨later, hread, hlater⟩ := Cursor.exists_reads (w := ['*']) hs
    exact ⟨_, later, .zeroOrMore hread, hlater⟩
  | plus =>
    obtain ⟨later, hread, hlater⟩ := Cursor.exists_reads (w := ['+']) hs
    exact ⟨_, later, .oneOrMore hread, hlater⟩
  | optional =>
    obtain ⟨later, hread, hlater⟩ := Cursor.exists_reads (w := ['?']) hs
    exact ⟨_, later, .optional hread, hlater⟩
  | exact hdigits =>
    obtain ⟨inside, hopen, hinside⟩ := Cursor.exists_reads (w := ['{']) hs
    obtain ⟨close, hread, hclose⟩ := Cursor.exists_reads hinside
    obtain ⟨later, hbrace, hlater⟩ := Cursor.exists_reads (w := ['}']) hclose
    exact ⟨_, later, .count (.mk hopen hdigits hread .none hbrace), hlater⟩
  | @bounded digits more _ hdigits hmore =>
    obtain ⟨inside, hopen, hinside⟩ := Cursor.exists_reads (w := ['{']) hs
    obtain ⟨middle, hread, hmiddle⟩ := Cursor.exists_reads hinside
    obtain ⟨start, hcomma, hstart⟩ := Cursor.exists_reads (w := [',']) hmiddle
    obtain ⟨close, hreadMore, hclose⟩ := Cursor.exists_reads hstart
    obtain ⟨later, hbrace, hlater⟩ := Cursor.exists_reads (w := ['}']) hclose
    -- without more digits the comma stands alone
    by_cases hne : more = []
    · subst hne
      obtain rfl := hreadMore.unique (.refl start)
      exact ⟨_, later, .count (.mk hopen hdigits hread (.comma hcomma) hbrace), hlater⟩
    · have hupper := UpperPart.Takes.bound hcomma ⟨hne, hmore⟩ hreadMore
      exact ⟨_, later, .count (.mk hopen hdigits hread hupper hbrace), hlater⟩

/-- A `Grammar.Quantifier` that no question mark follows is one that is read. -/
theorem Grammar.Quantifier.exists_takes (h : Quantifier c.rest t) (ht : t.head? ≠ some '?') :
    ∃ q later, RegexTree.Quantifier.Takes c later q ∧ later.rest = t := by
  cases h with
  | eager ho =>
    obtain ⟨kind, later, hkind, rfl⟩ := ho.exists_takes
    exact ⟨_, later, .mk hkind (.absent ht), rfl⟩
  | lazy ho =>
    obtain ⟨kind, middle, hkind, hmiddle⟩ := ho.exists_takes
    obtain ⟨later, hmark, hlater⟩ := Cursor.exists_reads (w := ['?']) hmiddle
    exact ⟨_, later, .mk hkind (.present hmark), hlater⟩

end RegexTree
