import RegexTree.Proofs.Concatenation.Seam
import RegexTree.Proofs.Prefix.Cut
import RegexTree.Regex.DecidableEq

/-! # Malformed names
A text between angle brackets that is no name is left behind by a scanner of its own
(`GroupName.recover`), which looks for the closing bracket and gives up at a syntax character. It
lets backslashes pass, for the sake of escapes, but not the braces that an escape may have. The main
statement says that a malformed name is one invalid span up to its closing bracket exactly where no
escape in it has braces. -/

namespace RegexTree

namespace GroupName

/-! ## Texts between angle brackets -/

/-- The texts that could be meant as a name: characters without a meaning of their own and escapes
of code points, up to a closing bracket. -/
inductive Attempt : List Char → Prop where
  /-- Nothing. -/
  | nil : Attempt []
  /-- A character that stands for itself. -/
  | char {x : Char} {w : List Char} (hx : isPatternChar x = true) (hclose : x ≠ '>')
      (hw : Attempt w) : Attempt (x :: w)
  /-- The escape of a code point. -/
  | escape {p : CodePoint} {u w : List Char} (hp : CodePoint.Form p u) (hw : Attempt w) :
      Attempt ('\\' :: u ++ w)

/-- A text that could be meant as a name and is none. -/
structure IsMalformed (w : List Char) : Prop where
  /-- It could be meant as a name. -/
  attempt : Attempt w
  /-- It is none. -/
  not_name : ¬ (w ≠ [] ∧ Form true w)

/-- A name does not begin with a dash. -/
theorem IsMalformed.of_dash {w : List Char} (h : Attempt w) : IsMalformed ('-' :: w) := by
  refine ⟨.char (by decide) (by decide) h, ?_⟩
  rintro ⟨-, hform⟩
  generalize hv : '-' :: w = v at hform
  cases hform with
  | nil => cases hv
  | char hx =>
    obtain ⟨rfl, -⟩ := List.cons.inj hv
    exact absurd hx (by decide)
  | escape => cases hv

/-- No closing bracket is part of what could be meant as a name. -/
theorem Attempt.close_not_mem {w : List Char} (h : Attempt w) : '>' ∉ w := by
  induction h with
  | nil => exact List.not_mem_nil
  | char hx hclose hw ih => simp [hclose.symm, ih]
  | escape hp hw ih =>
    intro hmem
    rcases List.mem_append.mp hmem with hescape | hrest
    · exact hp.not_mem '>' hescape List.mem_cons_self
    · exact ih hrest

/-- No closing bracket is part of a name. -/
theorem Form.close_not_mem {first : Bool} {w : List Char} (h : Form first w) : '>' ∉ w := by
  induction h with
  | nil => exact List.not_mem_nil
  | char hx hw ih => simp [(ne_close_of_allows hx).symm, ih]
  | escape hp hw ih =>
    intro hmem
    rcases List.mem_append.mp hmem with hescape | hrest
    · exact hp.not_mem '>' hescape List.mem_cons_self
    · exact ih hrest

/-- The scanner lets the escape of a code point pass (`Cursor.isSkippable`) if it has no braces. -/
theorem isSkippable_of_form {p : CodePoint} {u : List Char} (h : CodePoint.Form p u)
    (hbrace : '{' ∉ u) : ∀ y ∈ '\\' :: u, Cursor.isSkippable '>' true y = true := by
  cases h with
  | plain hlength hdigits =>
    intro y hy
    rcases List.mem_cons.mp hy with rfl | hy
    · decide
    · rcases List.mem_cons.mp hy with rfl | hy
      · decide
      · have hdigit := hdigits y hy
        have hno : ∀ x ∈ '>' :: syntaxChars, isHexDigit x = false := forall_mem_of_all (by decide)
        have hmem : y ∉ '>' :: syntaxChars := by
          intro hmem
          rw [hno y hmem] at hdigit
          cases hdigit
        rw [List.mem_cons, not_or] at hmem
        simp [Cursor.isSkippable, hmem.1, isPatternChar_iff.mpr hmem.2]
  | braced => exact absurd (by simp) hbrace

/-- The scanner lets all pass that could be meant as a name (`Attempt`), unless an escape in it has
braces. -/
theorem Attempt.isSkippable {w : List Char} (h : Attempt w) (hbrace : '{' ∉ w) :
    ∀ y ∈ w, Cursor.isSkippable '>' true y = true := by
  induction h with
  | nil => exact List.forall_mem_nil _
  | @char x _ hx hclose hw ih =>
    have hfirst : Cursor.isSkippable '>' true x = true := by
      simp [Cursor.isSkippable, hclose, hx]
    exact List.forall_mem_cons.mpr ⟨hfirst, ih fun hmem => hbrace (List.mem_cons_of_mem _ hmem)⟩
  | escape hp hw ih =>
    have hescape := fun hmem => hbrace (List.mem_append_left _ (List.mem_cons_of_mem _ hmem))
    have hrest := fun hmem => hbrace (List.mem_append_right _ hmem)
    exact List.forall_mem_append.mpr ⟨isSkippable_of_form hp hescape, ih hrest⟩

/-! ## The readers at a malformed name -/

variable {w r : List Char} {c later : Cursor}

/-- A malformed name (`IsMalformed`) is not read as a name. -/
theorem IsMalformed.read?_eq_none (h : IsMalformed w) (hrest : c.rest = w ++ '>' :: r) :
    read? c = none := by
  cases hread : read? c with
  | none => rfl
  | some result =>
    obtain ⟨name, stop⟩ := result
    obtain ⟨v, hne, hv, hreads, hclose, -⟩ := form_of_read? hread
    obtain ⟨t, ht⟩ := List.head?_eq_some_iff.mp hclose
    -- neither text has a closing bracket in it, so both end at the first one
    have hrun : ∀ {u s : List Char}, '>' ∉ u → c.rest = u ++ '>' :: s → c.run (· != '>') = u := by
      intro u s hu hrest
      exact Cursor.run_of_rest hrest (fun x hx => bne_iff_ne.mpr fun heq => hu (heq ▸ hx)) (by simp)
    have hvw : v = w :=
      (hrun hv.close_not_mem (ht ▸ hreads.1)).symm.trans (hrun h.attempt.close_not_mem hrest)
    exact absurd ⟨hne, hv⟩ (hvw ▸ h.not_name)

/-- What could be meant as a name is left behind with its closing bracket exactly where no escape in
it has braces. -/
theorem Attempt.recover_eq_iff (h : Attempt w) (hread : c.Reads (w ++ ['>']) later) :
    recover c = later ↔ '{' ∉ w := by
  constructor
  · intro heq hbrace
    obtain ⟨v, hv, hreads⟩ := region_of_recover c
    rw [heq] at hreads
    have hregion : v = w ++ ['>'] := List.append_cancel_right (hreads.1.symm.trans hread.1)
    cases hv with
    | closed hskip =>
      obtain rfl := List.append_cancel_right hregion
      exact absurd (hskip '{' hbrace) (by decide)
    | chars hname => exact absurd (hname '{' (by simp [hregion, hbrace])) (by decide)
  · intro hbrace
    obtain ⟨stop, hw, hclose⟩ := Cursor.reads_append_iff.mp hread
    obtain rfl := hclose.eq_next
    have hrun : c.run (Cursor.isSkippable '>' true) = w :=
      Cursor.run_of_rest hw.1 (h.isSkippable hbrace) (hclose.forall_head (by decide))
    have hpast : c.past w = stop := (Cursor.reads_past ⟨stop.rest, hw.1.symm⟩).unique hw
    have hcloser : c.pastCloser? '>' true = some stop.next := by
      rw [Cursor.pastCloser?, hrun, hpast, Cursor.accept?_of_head hclose.1]
    rw [recover, Cursor.recover, hcloser, Option.getD_some]

/-- The offset at which the scanner stops tells as much. -/
theorem Attempt.pos_recover_eq_iff (h : Attempt w) (hread : c.Reads (w ++ ['>']) later) :
    (recover c).pos = later.pos ↔ '{' ∉ w := by
  rw [← h.recover_eq_iff hread]
  constructor
  · intro hpos
    have hreaches := Cursor.Reaches.of_pos_le (reaches_recover c) hread.reaches (Nat.le_of_eq hpos)
    exact hreaches.eq_of_pos_le (Nat.le_of_eq hpos.symm)
  · exact congrArg Cursor.pos

end GroupName

variable {w r : List Char} {c inside : Cursor}

/-- A reference by a malformed name is invalid up to where the scanner stops. -/
theorem Atom.read_of_malformed (h : GroupName.IsMalformed w)
    (hopen : c.Reads ['\\', 'k', '<'] inside) (hrest : inside.rest = w ++ '>' :: r) :
    Atom.read '\\' c = (.invalid ⟨c.spanTo (GroupName.recover inside), .badBackreference⟩,
      GroupName.recover inside) := by
  obtain ⟨body, hletter, hbracket⟩ :=
    (Cursor.reads_append_iff (s := ['\\', 'k']) (t := ['<'])).mp hopen
  obtain rfl := hbracket.eq_next
  have hreference : Backreference.readNamed c body =
      (.error ⟨c.spanTo (GroupName.recover body.next), .badBackreference⟩,
        GroupName.recover body.next) := by
    simp only [Backreference.readNamed, Cursor.accept?_of_head hbracket.1, h.read?_eq_none hrest]
  rw [read_eq_readNamed hletter, hreference]
  rfl

/-- The opening of a group with a malformed name is invalid up to where the scanner stops, unless it
begins like a lookbehind. -/
theorem GroupOpening.read_of_malformed (h : GroupName.IsMalformed w)
    (hhead : ∀ x, w.head? = some x → x ≠ '=' ∧ x ≠ '!')
    (hopen : c.next.Reads ['?', '<'] inside) (hrest : inside.rest = w ++ '>' :: r) :
    GroupOpening.read c =
      (⟨c.spanTo c.next,
        .malformed ⟨c.next.spanTo (GroupName.recover inside), .badGroupName⟩⟩,
        GroupName.recover inside) := by
  have hidentifier : c.next.rest = '?' :: '<' :: (w ++ '>' :: r) := by rw [hopen.1, hrest]; rfl
  have hplain : GroupKind.readPlain? c.next = none := by
    refine GroupKind.readPlain?_of_head hidentifier fun x hx => ?_
    cases w with
    | nil => exact Option.some.inj hx ▸ by decide
    | cons y w => exact hhead x hx
  have hmark : c.next.rest.head? = some '?' := by rw [hidentifier]; rfl
  rw [read_of_mark hmark, GroupKind.readIdentifier_eq_readNamed hopen hplain]
  simp only [GroupKind.readNamed, h.read?_eq_none hrest]

/-! ## Patterns with a malformed name -/

namespace Regex

variable {pattern : String} {next : Cursor}

/-- The first lexeme of a pattern, if it is a term, is the first term. -/
theorem head?_terms_of_readAt {l : Lexeme} {t : Term}
    (hread : Lexeme.ReadAt (.ofString pattern) next l) (hterm : l.term? false true = some t) :
    (parse pattern).body.first.terms.head? = some t := by
  obtain ⟨terms, mid, others, later, hrest⟩ := RegexTree.exists_derives false false next
  rw [(Derives.term hread hterm hrest).body_eq]
  rfl

/-- The first lexeme of a pattern, if it opens a group, opens the first term. -/
theorem head?_terms_of_opening {o : GroupOpening}
    (hread : Lexeme.ReadAt (.ofString pattern) next (.opening o)) :
    ∃ g q, (parse pattern).body.first.terms.head? = some ⟨.group g, q⟩ ∧ g.opening = o := by
  have ho : GroupOpening.Takes (.ofString pattern) next o := by
    cases hread.takes with
    | opening ho => exact ho
  obtain ⟨innerTerms, innerMid, innerOthers, bodyEnd, hbody⟩ :=
    RegexTree.exists_derives true true next
  obtain ⟨close, closing, after, q, hclose⟩ := closes_of_endsAt hbody.endsAt
  obtain ⟨terms, mid, others, later, hrest⟩ := RegexTree.exists_derives false false after
  rw [(Derives.group ho hread hbody hclose hrest).body_eq]
  exact ⟨_, _, rfl, rfl⟩

/-- What a reference by a malformed name with a number of bytes should be: one invalid term. -/
def malformedReference (size : Nat) : Disjunction :=
  let stop := 3 + size + 1
  ⟨⟨⟨0, stop⟩, [⟨.atom (.invalid ⟨⟨0, stop⟩, .badBackreference⟩), none⟩]⟩, []⟩

/-- What a group with a malformed name should be, if its body is a literal: the identifier is one
invalid span up to the literal. -/
def malformedGroup (size : Nat) (body : Char) : Disjunction :=
  let inside := 3 + size + 1
  let close := inside + body.utf8Size
  ⟨⟨⟨0, close + 1⟩,
    [⟨.group ⟨⟨0, close + 1⟩, ⟨⟨0, 1⟩, .malformed ⟨⟨1, inside⟩, .badGroupName⟩⟩,
      ⟨⟨⟨inside, close⟩, [⟨.atom (.literal ⟨inside, close⟩ body), none⟩]⟩, []⟩,
      some ⟨close, close + 1⟩⟩, none⟩]⟩, []⟩

/-- A reference by a malformed name is one invalid term (`malformedReference`) exactly where no
escape in the name has braces. -/
theorem parse_malformedReference_iff {text : String} (h : GroupName.IsMalformed text.toList) :
    (parse ("\\k<" ++ text ++ ">")).body = malformedReference text.utf8ByteSize ↔
      '{' ∉ text.toList := by
  have hwhole : Cursor.ofString ("\\k<" ++ text ++ ">") =
      ⟨0, '\\' :: 'k' :: '<' :: (text.toList ++ ['>'])⟩ := by
    simp [Cursor.ofString, String.toList_append]
  have hopen : (Cursor.ofString ("\\k<" ++ text ++ ">")).Reads ['\\', 'k', '<']
      ⟨3, text.toList ++ ['>']⟩ := by
    rw [hwhole]
    exact ⟨rfl, rfl⟩
  have hname : Cursor.Reads ⟨3, text.toList ++ ['>']⟩ (text.toList ++ ['>'])
      ⟨3 + text.utf8ByteSize + 1, []⟩ :=
    ⟨by simp, by rw [byteLength_append, byteLength_toList]; rfl⟩
  have hatom := Atom.read_of_malformed h hopen rfl
  have hrest := congrArg Cursor.rest hwhole
  constructor
  · intro hbody
    have hread := Lexeme.readAt_atom hrest (by decide) hatom (Quantifier.follows_readOptional _)
    have hhead := head?_terms_of_readAt hread rfl
    rw [hbody] at hhead
    have hspan := congrArg (·.map (·.element.span.stop)) hhead
    exact (h.attempt.pos_recover_eq_iff hname).mp (Option.some.inj hspan).symm
  · intro hbrace
    rw [(h.attempt.recover_eq_iff hname).mpr hbrace] at hatom
    have hfollows : Quantifier.Follows ⟨3 + text.utf8ByteSize + 1, []⟩ _ none :=
      NoQuantifier.nil.follows
    have hread := Lexeme.readAt_atom hrest (by decide) hatom hfollows
    rw [(Derives.term hread rfl (.stop (.inl rfl))).body_eq, hwhole]
    rfl

/-- A group with a malformed name and a literal as its body is parsed as this (`malformedGroup`)
exactly where no escape in the name has braces. -/
theorem parse_malformedGroup_iff {text : String} (h : GroupName.IsMalformed text.toList)
    (hhead : ∀ x, text.toList.head? = some x → x ≠ '=' ∧ x ≠ '!') :
    (parse ("(?<" ++ text ++ ">x)")).body = malformedGroup text.utf8ByteSize 'x' ↔
      '{' ∉ text.toList := by
  let inside := 3 + text.utf8ByteSize + 1
  have hwhole : Cursor.ofString ("(?<" ++ text ++ ">x)") =
      ⟨0, '(' :: '?' :: '<' :: (text.toList ++ ['>', 'x', ')'])⟩ := by
    simp [Cursor.ofString, String.toList_append]
  have hnext : (Cursor.ofString ("(?<" ++ text ++ ">x)")).next =
      ⟨1, '?' :: '<' :: (text.toList ++ ['>', 'x', ')'])⟩ := by
    rw [hwhole]
    rfl
  have hopen : (Cursor.ofString ("(?<" ++ text ++ ">x)")).next.Reads ['?', '<']
      ⟨3, text.toList ++ ['>', 'x', ')']⟩ := by
    rw [hnext]
    exact ⟨rfl, rfl⟩
  have hname : Cursor.Reads ⟨3, text.toList ++ ['>', 'x', ')']⟩ (text.toList ++ ['>'])
      ⟨inside, ['x', ')']⟩ :=
    ⟨by simp, by rw [byteLength_append, byteLength_toList]; rfl⟩
  have hopening := GroupOpening.read_of_malformed h hhead hopen rfl
  have hrest := congrArg Cursor.rest hwhole
  constructor
  · intro hbody
    have hread : Lexeme.ReadAt _ _ _ := ⟨_, _, hrest, Lexeme.read_open hrest⟩
    obtain ⟨g, q, hgroup, hopens⟩ := head?_terms_of_opening hread
    rw [hbody] at hgroup
    cases hgroup
    rw [hopening] at hopens
    exact (h.attempt.pos_recover_eq_iff hname).mp (congrArg GroupOpening.stop hopens).symm
  · intro hbrace
    rw [(h.attempt.recover_eq_iff hname).mpr hbrace] at hopening
    have hread : GroupOpening.read (.ofString ("(?<" ++ text ++ ">x)")) =
        (⟨⟨0, 1⟩, .malformed ⟨⟨1, inside⟩, .badGroupName⟩⟩, ⟨inside, ['x', ')']⟩) := by
      rw [hopening, hnext, hwhole]
      rfl
    have ho := GroupOpening.takes_read hrest
    have hlexeme := Lexeme.read_open hrest
    rw [hread] at ho hlexeme
    have hliteral : Lexeme.ReadAt ⟨inside, ['x', ')']⟩ ⟨inside + 1, [')']⟩
        (.atom (.literal ⟨inside, inside + 1⟩ 'x') none) :=
      Lexeme.readAt_atom rfl (by decide) rfl (NoQuantifier.cons (by decide) _).follows
    have hclose : Closes ⟨inside + 1, [')']⟩ _ _ ⟨inside + 2, []⟩ none :=
      .of_follows ⟨rfl, rfl⟩ NoQuantifier.nil.follows
    have hd : Derives false true _ _ _ _ _ :=
      .group ho ⟨_, _, hrest, hlexeme⟩ (.term hliteral rfl (.stop (.inr ⟨rfl, rfl⟩))) hclose
        (.stop (.inl rfl))
    rw [hd.body_eq, hwhole]
    rfl

/-- A malformed name is one invalid span up to its closing bracket, in a reference and in a group
that does not begin like a lookbehind, exactly where no escape in it has braces. -/
theorem parse_malformedName_iff {text : String} (h : GroupName.IsMalformed text.toList) :
    ((parse ("\\k<" ++ text ++ ">")).body = malformedReference text.utf8ByteSize ↔
      '{' ∉ text.toList) ∧
    ((∀ x, text.toList.head? = some x → x ≠ '=' ∧ x ≠ '!') →
      ((parse ("(?<" ++ text ++ ">x)")).body = malformedGroup text.utf8ByteSize 'x' ↔
        '{' ∉ text.toList)) :=
  ⟨parse_malformedReference_iff h, parse_malformedGroup_iff h⟩

/-- A dash and an escape without braces. -/
theorem parse_malformedName_iff_plain :
    let text := "-\\u0041"
    GroupName.IsMalformed text.toList ∧ (∀ x, text.toList.head? = some x → x ≠ '=' ∧ x ≠ '!') ∧
      ((parse ("\\k<" ++ text ++ ">")).body = malformedReference text.utf8ByteSize ↔
        '{' ∉ text.toList) ∧
      ((parse ("(?<" ++ text ++ ">x)")).body = malformedGroup text.utf8ByteSize 'x' ↔
        '{' ∉ text.toList) := by
  intro text
  have htext : text.toList = '-' :: ('\\' :: 'u' :: ['0', '0', '4', '1'] ++ []) := by decide
  have hmalformed : GroupName.IsMalformed text.toList := by
    rw [htext]
    exact .of_dash (.escape (.plain rfl (forall_mem_of_all (by decide))) .nil)
  have hhead : ∀ x, text.toList.head? = some x → x ≠ '=' ∧ x ≠ '!' := by
    rw [htext]
    rintro x ⟨⟩
    decide
  have hiff := parse_malformedName_iff hmalformed
  exact ⟨hmalformed, hhead, hiff.1, hiff.2 hhead⟩

/-- A dash and the same escape with braces: the malformed name is left behind at the brace. -/
theorem exists_malformedName_ne :
    GroupName.IsMalformed "-\\u{41}".toList ∧
      (parse ("\\k<" ++ "-\\u{41}" ++ ">")).body ≠ malformedReference 7 := by
  have htext : "-\\u{41}".toList = '-' :: ('\\' :: ('u' :: '{' :: ['4', '1'] ++ ['}']) ++ []) := by
    decide
  have hmalformed : GroupName.IsMalformed "-\\u{41}".toList := by
    rw [htext]
    exact .of_dash
      (.escape (.braced (by decide) (forall_mem_of_all (by decide)) (by decide)) .nil)
  exact ⟨hmalformed, by decide +kernel⟩

end Regex

end RegexTree
