import RegexTree.Proofs.Grammar.Soundness
import RegexTree.Proofs.Isolation
import RegexTree.Proofs.MisplacedQuantifiers

/-! # Texts of invalid spans
An invalid span takes no more of a pattern than its reason says: a malformed construct ends before
the next character that has a meaning of its own, and what is missing takes nothing at all. The main
statement gives the texts for each reason (`Reason.Leaves`). Names are the one exception to the
rule: a dollar sign has a meaning of its own but may belong to a name, so a malformed name may run
over it. -/

namespace RegexTree

/-! ## What is left for each reason -/

/-- What may be left of a malformed name behind its opening bracket: everything up to a closing
bracket, if nothing before it has a meaning of its own but for backslashes, or the characters of
names that stand there. -/
inductive GroupName.Remains : List Char → Prop where
  /-- Up to the only closing bracket. -/
  | closed {w : List Char} (hw : ∀ y ∈ w, y ≠ '>' ∧ (y ∉ syntaxChars ∨ y = '\\')) :
      Remains (w ++ ['>'])
  /-- Characters of names; the dollar sign is the only one with another meaning. -/
  | chars {w : List Char}
      (hw : ∀ y ∈ w, isGroupNameContinue y = true ∧ (y ∉ syntaxChars ∨ y = '$')) : Remains w

/-- What is left of a malformed name holds nothing with a meaning of its own but backslashes. -/
def GroupName.RemainsPlain (w : List Char) : Prop :=
  Remains w ∧ ∀ y ∈ w, y ∉ syntaxChars ∨ y = '\\'

/-- What may be left of a malformed escape behind its backslash. -/
inductive Escaped.Remains : List Char → Prop where
  /-- The letter of a control escape. -/
  | control : Remains ['c']
  /-- At most one hexadecimal digit. -/
  | hexadecimal {digits : List Char} (hlength : digits.length ≤ 1)
      (hdigits : ∀ d ∈ digits, isHexDigit d = true) : Remains ('x' :: digits)
  /-- At most three hexadecimal digits. -/
  | unicode {digits : List Char} (hlength : digits.length ≤ 3)
      (hdigits : ∀ d ∈ digits, isHexDigit d = true) : Remains ('u' :: digits)
  /-- Hexadecimal digits behind a brace, and perhaps a closing brace. -/
  | braced {digits close : List Char} (hdigits : ∀ d ∈ digits, isHexDigit d = true)
      (hclose : close = [] ∨ close = ['}']) : Remains ('u' :: '{' :: (digits ++ close))
  /-- A zero and more digits. -/
  | null {digits : List Char} (hne : digits ≠ [])
      (hdigits : ∀ d ∈ digits, isDecimalDigit d = true) : Remains ('0' :: digits)
  /-- The letter of a property. -/
  | property {x : Char} (hx : x = 'p' ∨ x = 'P') : Remains [x]
  /-- Characters that stand for themselves behind a brace, and perhaps a closing brace. -/
  | bracedProperty {x : Char} {w close : List Char} (hx : x = 'p' ∨ x = 'P')
      (hw : ∀ y ∈ w, y ∉ syntaxChars) (hclose : close = [] ∨ close = ['}']) :
      Remains (x :: '{' :: (w ++ close))
  /-- One character that stands for itself. -/
  | unknown {x : Char} (hx : x ∉ syntaxChars) : Remains [x]

/-- What may be left of a malformed count: a brace, digits and commas, and perhaps a closing brace,
but not the opening brace alone. -/
inductive Count.Remains : List Char → Prop where
  /-- What looks like a count and is none. -/
  | mk {w close : List Char} (hw : ∀ y ∈ w, isDecimalDigit y = true ∨ y = ',')
      (hclose : close = [] ∨ close = ['}']) (hne : w ++ close ≠ [])
      (hcount : ¬ Grammar.Quantifier ('{' :: (w ++ close)) []) : Remains ('{' :: (w ++ close))

/-- The texts that may be left for a reason, given those that may be left of a malformed name. -/
def Reason.Leaves (ofName : List Char → Prop) : Reason → List Char → Prop
  | unterminatedGroup, w => w = []
  | unterminatedClass, w => w = []
  | badQuantifier, w => Grammar.Quantifier w [] ∨ Count.Remains w
  | stackedQuantifier, w => Grammar.Quantifier w []
  | badEscape, w => w = ['\\'] ∨ ∃ v, Escaped.Remains v ∧ w = '\\' :: v
  | badGroupName, w => ∃ v, ofName v ∧ w = '?' :: '<' :: v
  | badBackreference, w => w = ['\\', 'k'] ∨ ∃ v, ofName v ∧ w = '\\' :: 'k' :: '<' :: v
  | unknownConstruct, w => ∃ x ∈ [')', ']', '}', '{', '?'], w = [x]

/-- The element is a group whose identifier is the invalid span. -/
def Element.IsMalformedBy (e : Element) (i : Invalid) : Prop :=
  ∃ g, e = .group g ∧ g.opening.kind = .malformed i

/-- An invalid span of a pattern with some terms is what its reason says. -/
structure Invalid.IsLocalized (ofName : List Char → Prop) (source : String) (terms : List Term)
    (i : Invalid) : Prop where
  /-- Its text is one that may be left for its reason. -/
  text : i.reason.Leaves ofName (i.span.textIn source).toList
  /-- If it is a backslash alone, it stands at the end. -/
  lone : i.reason = .badEscape → i.span.textIn source = "\\" → i.span.stop = source.utf8ByteSize
  /-- If it is a character without meaning, it is a question mark exactly where it is the identifier
  of a malformed group. -/
  mark : i.reason = .unknownConstruct →
    (i.span.textIn source = "?" ↔ ∃ t ∈ terms, t.element.IsMalformedBy i)

/-! ## What is left of each construct -/

variable {source : String} {terms : List Term} {c later : Cursor} {w : List Char}

/-- A malformed name is left behind up to a closing bracket, or its characters are
(`GroupName.Remains`). -/
theorem GroupName.Region.remains (h : Region w) : Remains w := by
  cases h with
  | closed hv =>
    refine .closed fun y hy => ?_
    have hskip := hv y hy
    simp only [Cursor.isSkippable, Bool.true_and, Bool.and_eq_true, bne_iff_ne, Bool.or_eq_true,
      isPatternChar_iff, beq_iff_eq] at hskip
    exact hskip
  | chars hv =>
    have hreserved : ∀ y ∈ syntaxChars, isGroupNameContinue y = true → y = '$' :=
      forall_mem_of_all (by decide)
    exact .chars fun y hy => ⟨hv y hy, Decidable.or_iff_not_imp_left.mpr fun hmem =>
      hreserved y (Decidable.not_not.mp hmem) (hv y hy)⟩

/-- A malformed escape leaves no more behind than may be left. -/
theorem Escaped.BadForm.remains (h : BadForm w) : Remains w := by
  cases h with
  | control => exact .control
  | hexadecimal hlength hdigits => exact .hexadecimal (Nat.le_of_lt_succ hlength) hdigits
  | unicode hw =>
    cases hw with
    | short hlength hdigits => exact .unicode (Nat.le_of_lt_succ hlength) hdigits
    | @unclosed digits hdigits => simpa using Remains.braced hdigits (.inl rfl)
    | closed hdigits => exact .braced hdigits (.inr rfl)
  | null hne hdigits => exact .null hne hdigits
  | property hx => exact .property hx
  | closedProperty hx hw =>
    refine .bracedProperty hx (fun y hy => ?_) (.inr rfl)
    have hskip := hw y hy
    simp only [Cursor.isSkippable, Bool.false_and, Bool.or_false, Bool.and_eq_true] at hskip
    exact isPatternChar_iff.mp hskip.2
  | openProperty hx hw =>
    have hreserved : ∀ y ∈ syntaxChars, UnicodeProperty.allows y = false :=
      forall_mem_of_all (by decide)
    have hall : ∀ y ∈ _, y ∉ syntaxChars := fun y hy hmem => by
      have hallowed := hw y hy
      rw [hreserved y hmem] at hallowed
      cases hallowed
    simpa using Remains.bracedProperty hx hall (.inl rfl)
  | unknown hx =>
    refine .unknown fun hmem => ?_
    rw [isIdentityEscape_iff.mpr (.inl hmem)] at hx
    cases hx

/-- Something is left of a malformed escape behind its backslash. -/
theorem Escaped.Remains.ne_nil (h : Remains w) : w ≠ [] := by
  cases h <;> exact List.cons_ne_nil _ _

/-- A brace that begins no quantifier is read as such. -/
theorem Lexeme.ReadAt.readBrace_eq {i : Invalid} (h : ReadAt c later (.strayBrace i)) :
    ∃ t, c.rest = '{' :: t ∧ readBrace c = (.strayBrace i, later) := by
  obtain ⟨t, hrest⟩ : ∃ t, c.rest = '{' :: t := by
    cases h.takes with
    | malformedCount hw hread =>
      rcases hread with hread | hread
      · exact ⟨_, hread.1⟩
      · exact ⟨_, hread.1⟩
    | brace hread => exact ⟨_, hread.1⟩
  obtain ⟨x, u, hx, hread⟩ := h
  obtain rfl : x = '{' := (List.cons.inj (hx.symm.trans hrest)).1
  unfold Lexeme.read at hread
  split at hread
  · cases hread
  · exact ⟨t, hrest, hread⟩

/-- A brace that begins no quantifier stands alone or with what may be left of a count
(`Count.Remains`). -/
theorem Lexeme.ReadAt.of_strayBrace {i : Invalid} (h : ReadAt c later (.strayBrace i)) :
    i = ⟨c.spanTo later, .unknownConstruct⟩ ∧ c.Reads ['{'] later ∨
      i = ⟨c.spanTo later, .badQuantifier⟩ ∧ ∃ w, Count.Remains w ∧ c.Reads w later := by
  have hcount : ∀ {w : List Char}, c.Reads w later → ¬ Grammar.Quantifier w [] := fun hw =>
    h.not_quantifier nofun hw
  obtain ⟨t, hrest, hbrace⟩ := h.readBrace_eq
  have hopen := Cursor.reads_next hrest
  unfold readBrace at hbrace
  split at hbrace
  · rename_i stop hstop
    cases hbrace
    obtain ⟨w, hw, hread⟩ := Count.reads_of_pastMalformed? hstop
    have hallowed : ∀ y ∈ w, isDecimalDigit y = true ∨ y = ',' := fun y hy => by
      simpa [Count.allows] using hw y hy
    refine .inr ⟨rfl, ?_⟩
    -- a closing brace may follow, and without one there are digits or commas
    rcases hread with hread | ⟨hne, hread⟩
    · have hreads := hopen.trans hread
      exact ⟨_, .mk hallowed (.inr rfl) (by simp) (hcount hreads), hreads⟩
    · have hreads := hopen.trans hread
      rw [← List.append_nil w] at hne hreads
      exact ⟨_, .mk hallowed (.inl rfl) hne (hcount hreads), hreads⟩
  · cases hbrace
    exact .inl ⟨rfl, hopen⟩

/-! ## Invalid spans of each part -/

namespace Invalid

variable {ofName : List Char → Prop}

/-- A span between two places is what its reason says (`IsLocalized`) if the text there is. -/
theorem IsLocalized.of_reads {reason : Reason} (hc : (Cursor.ofString source).Reaches c)
    (hread : c.Reads w later) (htext : reason.Leaves ofName w)
    (hlone : reason = .badEscape → w = ['\\'] → later.rest = [])
    (hmark : reason = .unknownConstruct →
      (w = ['?'] ↔ ∃ t ∈ terms, t.element.IsMalformedBy ⟨c.spanTo later, reason⟩)) :
    IsLocalized ofName source terms ⟨c.spanTo later, reason⟩ := by
  have hsource : ((c.spanTo later).textIn source).toList = w := hc.toList_textIn hread
  constructor
  case text =>
    rw [hsource]
    exact htext
  case lone =>
    intro hreason heq
    have hend := hlone hreason (hsource ▸ congrArg String.toList heq)
    exact (hc.trans hread.reaches).pos_of_end hend
  case mark =>
    intro hreason
    rw [← hmark hreason, ← hsource]
    exact String.toList_inj.symm

/-- A closing delimiter that is missing at a place takes nothing. -/
theorem IsLocalized.of_missing {reason : Reason} (hc : (Cursor.ofString source).Reaches c)
    (hreason : reason = .unterminatedGroup ∨ reason = .unterminatedClass) :
    IsLocalized ofName source terms ⟨.emptyAt c.pos, reason⟩ := by
  have hread : c.Reads [] c := .refl c
  rcases hreason with rfl | rfl
  · exact of_reads hc hread rfl nofun nofun
  · exact of_reads hc hread rfl nofun nofun

/-- A character that is no question mark is no identifier, so it may be left of an atom. -/
theorem IsLocalized.of_closer {x : Char} {q : Option Quantifier}
    (hc : (Cursor.ofString source).Reaches c) (hx : x ∈ [')', ']', '}', '{'])
    (hread : c.Reads [x] later) {i : Invalid} (hi : i = ⟨c.spanTo later, .unknownConstruct⟩) :
    i.IsLocalized ofName source [⟨.atom (.invalid i), q⟩] := by
  subst hi
  have hclosers : ∀ y ∈ [')', ']', '}', '{'], y ≠ '?' := forall_mem_of_all (by decide)
  refine of_reads hc hread ⟨x, List.mem_append_left ['?'] hx, rfl⟩ nofun fun _ => ?_
  constructor
  · intro hmark
    exact absurd (List.cons.inj hmark).1 (hclosers x hx)
  · rintro ⟨t, ht, g, hg, -⟩
    rw [List.mem_singleton.mp ht] at hg
    cases hg

end Invalid

/-- An invalid `Escaped` is what its reason says. -/
theorem Escaped.Takes.isLocalized {inClass : Bool} {e : Escaped}
    (hc : (Cursor.ofString source).Reaches c) (h : Takes inClass c later e) :
    ∀ i ∈ e.invalids, i.IsLocalized GroupName.Remains source terms := by
  cases h with
  | lone hread hend =>
    exact List.forall_mem_singleton.mpr (.of_reads hc hread (.inl rfl) (fun _ _ => hend) nofun)
  | bad hw hread =>
    refine List.forall_mem_singleton.mpr
      (.of_reads hc hread (.inr ⟨_, hw.remains, rfl⟩) (fun _ hlone => ?_) nofun)
    exact absurd (List.cons.inj hlone).2 hw.remains.ne_nil
  | _ => exact List.forall_mem_nil _

/-- An invalid atom of a class is what its reason says. -/
theorem ClassAtom.Takes.isLocalized {a : ClassAtom} (hc : (Cursor.ofString source).Reaches c)
    (h : Takes c later a) : ∀ i ∈ a.invalids, i.IsLocalized GroupName.Remains source terms := by
  cases h with
  | literal => exact List.forall_mem_nil _
  | escaped he =>
    rw [invalids_ofEscaped]
    exact he.isLocalized hc

/-- What is invalid in the `Members` of a class is what its reason says. -/
theorem CharacterClass.Members.isLocalized {ms : List ClassMember} (h : Members c ms later)
    (hc : (Cursor.ofString source).Reaches c) :
    ∀ i ∈ ms.flatMap (·.invalids), i.IsLocalized GroupName.Remains source terms := by
  induction h with
  | nil => exact List.forall_mem_nil _
  | @cons c middle later m ms hm hms ih =>
    rw [List.flatMap_cons, List.forall_mem_append]
    obtain ⟨x, w, hread⟩ := hm.reads
    refine ⟨?_, ih (hc.trans hread.reaches)⟩
    cases hm with
    | atom ha => exact ha.isLocalized hc
    | range hlow hdash hhigh =>
      obtain ⟨x, w, hread⟩ := hlow.reads
      have hdashed := (hc.trans hread.reaches).trans hdash.reaches
      exact List.forall_mem_append.mpr ⟨hlow.isLocalized hc, hhigh.isLocalized hdashed⟩

/-- What is invalid in a `CharacterClass` is what its reason says. -/
theorem CharacterClass.Takes.isLocalized {s : CharacterClass}
    (hc : (Cursor.ofString source).Reaches c) (h : Takes c later s) :
    ∀ i ∈ s.invalids, i.IsLocalized GroupName.Remains source terms := by
  obtain ⟨v, hv⟩ := h.reads
  obtain @⟨negation, closing, members, inside, start, stop, hopen, hnegation, hmembers, -, -⟩ := h
  have hstart := (hc.trans hopen.reaches).trans hnegation.reaches
  refine List.forall_mem_append.mpr ⟨hmembers.isLocalized hstart, ?_⟩
  cases closing with
  | none =>
    exact List.forall_mem_singleton.mpr (.of_missing (hc.trans hv.reaches) (.inr rfl))
  | some span => exact List.forall_mem_nil _

/-- What is left of a malformed reference by name is what its reason says. -/
theorem Backreference.Takes.isLocalized {r : Except Invalid Backreference}
    (hc : (Cursor.ofString source).Reaches c) (h : Takes c later r) :
    ∀ i ∈ (Atom.ofReference r).invalids, i.IsLocalized GroupName.Remains source terms := by
  cases h with
  | named => exact List.forall_mem_nil _
  | bare hread =>
    exact List.forall_mem_singleton.mpr (.of_reads hc hread (.inl rfl) nofun nofun)
  | malformed hopen hw hread =>
    exact List.forall_mem_singleton.mpr
      (.of_reads hc (hopen.trans hread) (.inr ⟨_, hw.remains, rfl⟩) nofun nofun)

/-- What is invalid in an `Atom` is what its reason says. -/
theorem Atom.Takes.isLocalized {a : Atom} {q : Option Quantifier}
    (hc : (Cursor.ofString source).Reaches c) (h : Takes c later a) :
    ∀ i ∈ a.invalids, i.IsLocalized GroupName.Remains source [⟨.atom a, q⟩] := by
  cases h with
  | reference hr => exact hr.isLocalized hc
  | escaped he =>
    rw [invalids_ofEscaped]
    exact he.isLocalized hc
  | characterClass hs => exact hs.isLocalized hc
  | stray hx hread =>
    refine List.forall_mem_singleton.mpr (.of_closer hc ?_ hread rfl)
    rcases hx with rfl | rfl <;> decide
  | _ => exact List.forall_mem_nil _

/-- A malformed `GroupKind` is what its reason says. -/
theorem GroupKind.Takes.isLocalized {g : Group} {q : Option Quantifier}
    (hc : (Cursor.ofString source).Reaches c) (h : Takes c later g.opening.kind) :
    ∀ i ∈ g.opening.kind.invalids, i.IsLocalized GroupName.Remains source [⟨.group g, q⟩] := by
  generalize hkind : g.opening.kind = kind at h
  cases h with
  | plain hword =>
    rcases eq_of_mem_identifiers hword with
      ⟨-, rfl⟩ | ⟨-, rfl⟩ | ⟨-, rfl⟩ | ⟨-, rfl⟩ | ⟨-, rfl⟩ <;> exact List.forall_mem_nil _
  | named => exact List.forall_mem_nil _
  | badName hopen hw hread =>
    exact List.forall_mem_singleton.mpr
      (.of_reads hc (hopen.trans hread) ⟨_, hw.remains, rfl⟩ nofun nofun)
  | unknown hread =>
    refine List.forall_mem_singleton.mpr
      (.of_reads hc hread ⟨'?', by decide, rfl⟩ nofun fun _ => ?_)
    exact iff_of_true rfl ⟨_, List.mem_singleton_self _, g, rfl, hkind⟩

/-! ## Terms and patterns -/

/-- What makes no sense in an element itself: for a group, in its identifier and in that it is not
closed. -/
def Element.ownInvalids : Element → List Invalid
  | .atom a => a.invalids
  | .group g => g.opening.kind.invalids ++ g.missingParenthesis.toList

/-- What makes no sense in a term without a group is what its reason says. -/
theorem Lexeme.ReadAt.isLocalized {nested first : Bool} {l : Lexeme} {t : Term}
    (hc : (Cursor.ofString source).Reaches c) (h : ReadAt c later l)
    (hterm : l.term? nested first = some t) :
    ∀ i ∈ t.element.ownInvalids, i.IsLocalized GroupName.Remains source [t] := by
  cases l with
  | bar => cases hterm
  | opening => cases hterm
  | atom a q =>
    cases hterm
    cases h.takes with
    | atom ha hq => exact ha.isLocalized hc
  | closing span q =>
    cases nested with
    | true => cases hterm
    | false =>
      cases hterm
      cases h.takes with
      | closing hread hq =>
        exact List.forall_mem_singleton.mpr (.of_closer hc (by decide) hread rfl)
  | strayQuantifier span =>
    cases hterm
    cases h.takes with
    | strayQuantifier hq =>
      obtain ⟨x, w, -, hread⟩ := hq.reads
      have hquantifier := hq.quantifier_of_reads hread
      refine List.forall_mem_singleton.mpr ?_
      cases first with
      | true => exact .of_reads hc hread (.inl hquantifier) nofun nofun
      | false => exact .of_reads hc hread hquantifier nofun nofun
  | strayBrace i =>
    cases hterm
    refine List.forall_mem_singleton.mpr ?_
    rcases h.of_strayBrace with ⟨hi, hread⟩ | ⟨rfl, w, hw, hread⟩
    · exact .of_closer hc (by decide) hread hi
    · exact .of_reads hc hread (.inr hw) nofun nofun

/-- What makes no sense in a `Term` of a pattern is what its reason says. -/
theorem Term.StandsAt.isLocalized {nested first : Bool} {t : Term}
    (hc : (Cursor.ofString source).Reaches c) (h : t.StandsAt nested first c later) :
    ∀ i ∈ t.element.ownInvalids, i.IsLocalized GroupName.Remains source [t] := by
  cases h with
  | lexeme hread hterm => exact hread.isLocalized hc hterm
  | @group inside innerMid bodyEnd close o innerTerms innerOthers closing q ho hread hbody hclose =>
    refine List.forall_mem_append.mpr ⟨?_, ?_⟩
    · cases ho with
      | anonymous => exact List.forall_mem_nil _
      | identified hopen hkind => exact GroupKind.Takes.isLocalized (hc.trans hopen.reaches) hkind
    · have hinside := (hc.trans hread.reaches).trans hbody.reaches_later
      cases hclose with
      | closed => exact List.forall_mem_nil _
      | missing => exact List.forall_mem_singleton.mpr (.of_missing hinside (.inl rfl))

/-- What makes no sense in the terms of a disjunction themselves. -/
def Disjunction.ownInvalids (d : Disjunction) : List Invalid :=
  (d.alternatives.flatMap (·.terms)).flatMap (·.element.ownInvalids)

mutual

/-- What makes no sense in a `Disjunction` makes none in a term of it or of a group in it. -/
theorem Disjunction.mem_invalids_iff {i : Invalid} :
    (d : Disjunction) → (i ∈ d.invalids ↔ i ∈ d.nested.flatMap Disjunction.ownInvalids)
  | ⟨first, others⟩ => by
    have hfirst := Alternative.mem_invalids_iff (i := i) first
    have hothers := Branch.mem_invalidsOfAll_iff (i := i) others
    simp only [Disjunction.invalids, Disjunction.nested, Disjunction.ownInvalids,
      Disjunction.alternatives, List.flatMap_cons, List.flatMap_append, List.flatMap_map,
      List.mem_append]
    grind

/-- What makes no sense behind bars makes none in a term there. -/
theorem Branch.mem_invalidsOfAll_iff {i : Invalid} : (others : List Branch) →
    (i ∈ Branch.invalidsOfAll others ↔
      i ∈ (others.flatMap (·.alternative.terms)).flatMap (·.element.ownInvalids) ∨
        i ∈ (Branch.nestedOfAll others).flatMap Disjunction.ownInvalids)
  | [] => by simp [Branch.invalidsOfAll, Branch.nestedOfAll]
  | ⟨bar, alternative⟩ :: others => by
    have hfirst := Alternative.mem_invalids_iff (i := i) alternative
    have hothers := Branch.mem_invalidsOfAll_iff (i := i) others
    simp only [Branch.invalidsOfAll, Branch.nestedOfAll, List.flatMap_cons, List.flatMap_append,
      List.mem_append]
    grind

/-- What makes no sense in an `Alternative` makes none in a term of it or of a group in it. -/
theorem Alternative.mem_invalids_iff {i : Invalid} : (a : Alternative) →
    (i ∈ a.invalids ↔
      i ∈ a.terms.flatMap (·.element.ownInvalids) ∨
        i ∈ a.nested.flatMap Disjunction.ownInvalids)
  | ⟨_, terms⟩ => Term.mem_invalidsOfAll_iff terms

/-- What makes no sense in terms makes none in one of them or in a term of a group there. -/
theorem Term.mem_invalidsOfAll_iff {i : Invalid} : (ts : List Term) →
    (i ∈ Term.invalidsOfAll ts ↔
      i ∈ ts.flatMap (·.element.ownInvalids) ∨
        i ∈ (Term.nestedOfAll ts).flatMap Disjunction.ownInvalids)
  | [] => by simp [Term.invalidsOfAll, Term.nestedOfAll]
  | ⟨element, q⟩ :: ts => by
    have helement := Element.mem_invalids_iff (i := i) element
    have hothers := Term.mem_invalidsOfAll_iff (i := i) ts
    simp only [Term.invalidsOfAll, Term.nestedOfAll, List.flatMap_cons, List.flatMap_append,
      List.mem_append]
    grind

/-- What makes no sense in an `Element` makes none in itself (`ownInvalids`) or in a term of a group
there. -/
theorem Element.mem_invalids_iff {i : Invalid} : (e : Element) →
    (i ∈ e.invalids ↔
      i ∈ e.ownInvalids ∨ i ∈ e.nested.flatMap Disjunction.ownInvalids)
  | .atom a => by simp [Element.invalids, Element.ownInvalids, Element.nested]
  | .group ⟨span, o, body, closing⟩ => by
    have hbody := Disjunction.mem_invalids_iff (i := i) body
    have hmissing : (Group.missingParenthesis ⟨span, o, body, closing⟩).toList =
        if closing.isSome then [] else [⟨.emptyAt span.stop, .unterminatedGroup⟩] := by
      cases closing <;> rfl
    simp only [Element.invalids, Group.invalids, ← hmissing, Element.ownInvalids, Element.nested,
      Group.nested, List.mem_append]
    grind

end

/-- What makes no sense in a pattern makes none in one of its terms, at any depth. -/
theorem Regex.mem_invalids_iff {r : Regex} {i : Invalid} :
    i ∈ r.invalids ↔ ∃ t ∈ r.terms, i ∈ t.element.ownInvalids := by
  rw [← List.mem_flatMap, terms, List.flatMap_assoc]
  exact r.body.mem_invalids_iff

/-- The identifier of a malformed group makes no sense in the group itself. -/
theorem Element.IsMalformedBy.mem_ownInvalids {e : Element} {i : Invalid}
    (h : e.IsMalformedBy i) : i ∈ e.ownInvalids := by
  obtain ⟨g, rfl, hkind⟩ := h
  rw [ownInvalids, hkind]
  exact List.mem_append_left _ (List.mem_singleton_self i)

/-- What makes no sense in a term is what its reason says among all terms if it is so among each
alone. -/
theorem Invalid.IsLocalized.of_mem {ofName : List Char → Prop} {i : Invalid} {t : Term}
    (hall : ∀ u ∈ terms, ∀ j ∈ u.element.ownInvalids, j.IsLocalized ofName source [u])
    (ht : t ∈ terms) (hi : i ∈ t.element.ownInvalids) : i.IsLocalized ofName source terms := by
  have hown := hall t ht i hi
  refine ⟨hown.text, hown.lone, fun hreason => ?_⟩
  constructor
  · intro htext
    obtain ⟨u, hu, hmalformed⟩ := (hown.mark hreason).mp htext
    rw [List.mem_singleton.mp hu] at hmalformed
    exact ⟨t, ht, hmalformed⟩
  · rintro ⟨u, hu, hmalformed⟩
    -- the term with this identifier may be another one, so its own span is looked at
    have hother := hall u hu i hmalformed.mem_ownInvalids
    exact (hother.mark hreason).mpr ⟨u, List.mem_singleton_self u, hmalformed⟩

/-- Every invalid node of a pattern has one of the texts that are left for its reason. A backslash
alone stands at the end, and a question mark without meaning is the identifier of a group. -/
theorem Tree.invalids_localized (source : String) :
    ∀ n ∈ (parse source).root.invalids, ∃ i, n = Node.ofInvalid i ∧
      i.IsLocalized GroupName.Remains source (Regex.parse source).terms := by
  intro n hn
  rw [invalids_parse] at hn
  obtain ⟨i, hi, rfl⟩ := List.mem_map.mp hn
  refine ⟨i, rfl, ?_⟩
  obtain ⟨t, ht, hown⟩ := Regex.mem_invalids_iff.mp hi
  refine .of_mem (fun u hu => ?_) ht hown
  obtain ⟨nested, first, a, b, ha, hstands⟩ := Regex.standsAt_of_mem_terms hu
  exact hstands.isLocalized ha

/-- The identifier of a malformed group that a backslash cuts off. -/
theorem Tree.invalids_localized_cut :
    let mark : Invalid := ⟨⟨1, 2⟩, .unknownConstruct⟩
    Node.ofInvalid mark ∈ (parse "(?x\\").root.invalids ∧ mark.span.textIn "(?x\\" = "?" ∧
      ∃ i, Node.ofInvalid mark = Node.ofInvalid i ∧
        i.IsLocalized GroupName.Remains "(?x\\" (Regex.parse "(?x\\").terms := by
  intro mark
  have hinvalids : (Regex.parse "(?x\\").invalids = [mark, ⟨⟨3, 4⟩, .badEscape⟩,
      ⟨⟨4, 4⟩, .unterminatedGroup⟩] := by
    decide +kernel
  have hmem : Node.ofInvalid mark ∈ (parse "(?x\\").root.invalids := by
    rw [invalids_parse, hinvalids]
    exact List.mem_map_of_mem List.mem_cons_self
  exact ⟨hmem, by decide +kernel, invalids_localized _ _ hmem⟩

/-- Behind the opening bracket of a reference a dollar sign is left of a malformed name, although it
has a meaning of its own. -/
theorem Tree.exists_not_localized :
    ∃ n ∈ (parse "\\k<$").root.invalids, ¬ ∃ i, n = Node.ofInvalid i ∧
      i.IsLocalized GroupName.RemainsPlain "\\k<$" (Regex.parse "\\k<$").terms := by
  have hinvalids : (Regex.parse "\\k<$").invalids = [⟨⟨0, 4⟩, .badBackreference⟩] := by
    decide +kernel
  have hmem : Node.ofInvalid ⟨⟨0, 4⟩, .badBackreference⟩ ∈ (parse "\\k<$").root.invalids := by
    rw [invalids_parse, hinvalids]
    exact List.mem_singleton_self _
  refine ⟨_, hmem, ?_⟩
  rintro ⟨⟨span, reason⟩, hi, hlocalized⟩
  obtain rfl : ⟨0, 4⟩ = span := congrArg Node.span hi
  obtain rfl : .badBackreference = reason := Option.some.inj (congrArg Node.reason hi)
  have htext : ((⟨0, 4⟩ : Span).textIn "\\k<$").toList = ['\\', 'k', '<', '$'] := by decide +kernel
  have hleaves := hlocalized.text
  rw [htext] at hleaves
  rcases hleaves with hbare | ⟨v, hv, hname⟩
  · cases hbare
  · cases hname
    exact absurd (hv.2 '$' (List.mem_singleton_self _)) (by decide)

end RegexTree
