import RegexTree.Proofs.Alike.Derivation

/-! # Missing closing delimiters
A class or a group that the input cuts off lacks its closing delimiter. The main statement,
`Derives.missing_isClosers`, says that at most one class is cut off, inside of all groups that are,
so that what a derivation lacks is perhaps a bracket and then parentheses. -/

namespace RegexTree

/-! ## Delimiters that are missing -/

/-- The closing delimiter that is missing where a span makes no sense for the reason. -/
def Reason.missing? : Reason → Option Char
  | .unterminatedGroup => some ')'
  | .unterminatedClass => some ']'
  | _ => none

namespace Invalid

/-- The closing delimiters that are missing where spans make no sense, in source order. -/
def missing (is : List Invalid) : List Char := is.filterMap (·.reason.missing?)

/-- Where everything makes sense nothing is missing. -/
@[simp] theorem missing_nil : missing [] = [] := rfl

/-- What is `missing` in two parts is missing in the first and in the second. -/
@[simp] theorem missing_append (is js : List Invalid) :
    missing (is ++ js) = missing is ++ missing js := List.filterMap_append

/-- Nothing is missing where no span says so. -/
theorem missing_eq_nil_iff {is : List Invalid} :
    missing is = [] ↔ ∀ i ∈ is, i.reason.missing? = none := List.filterMap_eq_nil_iff

/-- What is missing is one of the `closers`. -/
theorem mem_closers_of_mem_missing {is : List Invalid} {x : Char} (h : x ∈ missing is) :
    x ∈ closers := by
  obtain ⟨i, -, hx⟩ := List.mem_filterMap.mp h
  cases hreason : i.reason <;> rw [hreason] at hx <;> cases hx <;> decide

/-- What is missing delimits, before a text that `Delimits`. -/
theorem delimits_missing (is : List Invalid) {t : List Char} (ht : Delimits t) :
    Delimits (missing is ++ t) := by
  cases hmissing : missing is with
  | nil => exact ht
  | cons x w =>
    have hx : x ∈ missing is := by
      rw [hmissing]
      exact .head w
    exact .cons (mem_closers_of_mem_missing hx) _

/-- The span is a backslash with nothing behind it. -/
def IsLone (i : Invalid) : Prop := i.reason = .badEscape ∧ i.span.length = 1

instance (i : Invalid) : Decidable i.IsLone := inferInstanceAs (Decidable (_ ∧ _))

/-- Where nothing is missing, only a lone backslash (`IsLone`) is cut off. -/
theorem uncut_of_missing {is : List Invalid} (h : missing is = []) (hlone : ∀ i ∈ is, ¬ i.IsLone)
    (s t : List Char) : Uncut s t is := by
  intro _ _ i hi hcut
  have hnone := missing_eq_nil_iff.mp h i hi
  rcases hcut with hgroup | hclass | hescape
  · rw [hgroup] at hnone
    cases hnone
  · rw [hclass] at hnone
    cases hnone
  · exact hlone i hi hescape

end Invalid

/-! ## Parts that lack nothing -/

section Parts

variable {c later : Cursor}

/-- An `Escaped` lacks nothing. -/
theorem Escaped.Takes.missing_eq_nil {inClass : Bool} {e : Escaped} (h : Takes inClass c later e) :
    Invalid.missing e.invalids = [] := by
  cases h <;> rfl

/-- An atom of a class lacks nothing. -/
theorem ClassAtom.Takes.missing_eq_nil {a : ClassAtom} (h : Takes c later a) :
    Invalid.missing a.invalids = [] := by
  cases h with
  | literal => rfl
  | escaped he =>
    rw [invalids_ofEscaped]
    exact he.missing_eq_nil

/-- Members of a class lack nothing. -/
theorem CharacterClass.Members.missing_eq_nil {ms : List ClassMember} (h : Members c ms later) :
    Invalid.missing (ms.flatMap (·.invalids)) = [] := by
  induction h with
  | nil => rfl
  | cons hm hms ih =>
    rw [List.flatMap_cons, Invalid.missing_append, ih, List.append_nil]
    cases hm with
    | atom ha => exact ha.missing_eq_nil
    | range hlow hdash hhigh =>
      rw [ClassMember.invalids, Invalid.missing_append, hlow.missing_eq_nil, hhigh.missing_eq_nil]
      rfl

/-- The members of a class lack nothing. -/
theorem CharacterClass.Takes.members_missing_eq_nil {s : CharacterClass} (h : Takes c later s) :
    Invalid.missing (s.members.flatMap (·.invalids)) = [] := by
  obtain ⟨-, -, hmembers, -, -⟩ := h
  exact hmembers.missing_eq_nil

/-- The opening of a group lacks nothing. -/
theorem GroupOpening.Takes.missing_eq_nil {o : GroupOpening} (h : Takes c later o) :
    Invalid.missing o.kind.invalids = [] := by
  cases h with
  | anonymous => rfl
  | identified hopen hkind =>
    cases hkind with
    | plain hword =>
      rcases GroupKind.eq_of_mem_identifiers hword with
        ⟨-, rfl⟩ | ⟨-, rfl⟩ | ⟨-, rfl⟩ | ⟨-, rfl⟩ | ⟨-, rfl⟩ <;> rfl
    | _ => rfl

/-! ## Terms that lack something -/

/-- A group lacks what its body lacks, and its closing parenthesis if it has none. -/
theorem GroupOpening.Takes.missing_group {o : GroupOpening} (h : Takes c later o) (span : Span)
    (body : Disjunction) (closing : Option Span) :
    Invalid.missing (Group.invalids ⟨span, o, body, closing⟩) =
      Invalid.missing body.invalids ++ if closing.isSome then [] else [')'] := by
  rw [Group.invalids, Invalid.missing_append, Invalid.missing_append, h.missing_eq_nil,
    List.nil_append]
  cases closing <;> rfl

/-- A class lacks nothing but its closing bracket, and this only at the end of input. -/
theorem CharacterClass.Takes.missing {s : CharacterClass} (h : Takes c later s) :
    Invalid.missing s.invalids = [] ∨
      s.closing = none ∧ Invalid.missing s.invalids = [']'] ∧ later.rest = [] := by
  have hmembers := h.members_missing_eq_nil
  obtain @⟨negation, closing, members, inside, start, stop, -, -, -, -, hend⟩ := h
  rw [invalids, Invalid.missing_append, hmembers, List.nil_append]
  cases closing with
  | none => exact .inr ⟨rfl, rfl, hend rfl⟩
  | some span => exact .inl rfl

/-- Of the atoms only classes can lack something. -/
theorem Atom.Takes.missing {a : Atom} (h : Takes c later a) :
    Invalid.missing a.invalids = [] ∨ ∃ s, a = .characterClass s ∧ s.closing = none ∧
      Invalid.missing a.invalids = [']'] ∧ later.rest = [] := by
  cases h with
  | reference hr => cases hr <;> exact .inl rfl
  | escaped he =>
    rw [invalids_ofEscaped]
    exact .inl he.missing_eq_nil
  | characterClass hs => exact hs.missing.imp_right fun hclass => ⟨_, rfl, hclass⟩
  | _ => exact .inl rfl

/-- At the end of input no quantifier follows. -/
theorem Quantifier.Follows.of_end {q : Option Quantifier} (h : Follows c later q)
    (hend : c.rest = []) : later = c := by
  cases h with
  | absent => rfl
  | present hq =>
    obtain ⟨x, w, -, hread⟩ := hq.reads
    have hrest := hread.1
    rw [hend] at hrest
    cases hrest

/-- Of the terms without a group only classes can lack something. -/
theorem Term.Takes.missing {nested first : Bool} {t : Term} (h : Takes nested first c later t) :
    Invalid.missing t.element.invalids = [] ∨
      ∃ s q, t = ⟨.atom (.characterClass s), q⟩ ∧ s.closing = none ∧
        Invalid.missing t.element.invalids = [']'] ∧ later.rest = [] := by
  cases h with
  | atom ha hq =>
    rcases ha.missing with hnil | ⟨s, rfl, hclosing, hmissing, hend⟩
    · exact .inl hnil
    · obtain rfl := hq.of_end hend
      exact .inr ⟨s, _, rfl, hclosing, hmissing, hend⟩
  | strayQuantifier => cases first <;> exact .inl rfl
  | _ => exact .inl rfl

end Parts

/-! ## Derivations that lack something -/

/-- Parentheses that close groups, perhaps with a bracket before them. -/
def IsClosers (w : List Char) : Prop :=
  ∃ m, w = List.replicate m ')' ∨ w = ']' :: List.replicate m ')'

/-- A bracket alone. -/
theorem IsClosers.bracket : IsClosers [']'] := ⟨0, .inr rfl⟩

/-- No delimiters at all. -/
theorem IsClosers.nil : IsClosers [] := ⟨0, .inl rfl⟩

/-- One parenthesis more. -/
theorem IsClosers.parenthesis {w : List Char} (h : IsClosers w) : IsClosers (w ++ [')']) := by
  obtain ⟨m, rfl | rfl⟩ := h
  · exact ⟨m + 1, .inl List.replicate_succ'.symm⟩
  · exact ⟨m + 1, .inr (congrArg (']' :: ·) List.replicate_succ'.symm)⟩

namespace Derives

variable {nested first : Bool} {c mid later : Cursor} {terms : List Term} {others : List Branch}

/-- At the end of input nothing is derived. -/
theorem of_end (h : Derives nested first c terms mid others later) (hend : c.rest = []) :
    terms = [] ∧ others = [] ∧ mid = c ∧ later = c := by
  cases h with
  | stop => exact ⟨rfl, rfl, rfl, rfl⟩
  | bar hbar =>
    rw [hbar.1] at hend
    cases hend
  | term hread =>
    obtain ⟨x, t, hrest, -⟩ := hread
    rw [hend] at hrest
    cases hrest
  | group ho hread =>
    obtain ⟨x, t, hrest, -⟩ := hread
    rw [hend] at hrest
    cases hrest

/-- What a derivation lacks is perhaps a bracket and then parentheses (`IsClosers`), and it lacks
nothing if something is left of the input. -/
theorem missing_isClosers (h : Derives nested first c terms mid others later) :
    IsClosers (Invalid.missing (Term.invalidsOfAll terms ++ Branch.invalidsOfAll others)) ∧
      (later.rest ≠ [] →
        Invalid.missing (Term.invalidsOfAll terms ++ Branch.invalidsOfAll others) = []) := by
  induction h with
  | stop => exact ⟨.nil, fun _ => rfl⟩
  | bar hbar hread hrest ih =>
    rw [Term.invalidsOfAll, List.nil_append, Branch.invalidsOfAll, Alternative.invalids]
    exact ih
  | term hread hterm hrest ih =>
    rw [Term.invalidsOfAll_cons, List.append_assoc, Invalid.missing_append]
    rcases (hread.takes_term hterm).missing with hnil | ⟨s, q, -, -, hbracket, hend⟩
    · rw [hnil]
      exact ih
    · -- the input ends in the class, so nothing is derived behind it
      obtain ⟨rfl, rfl, rfl, rfl⟩ := hrest.of_end hend
      rw [hbracket]
      exact ⟨.bracket, fun hmore => absurd hend hmore⟩
  | @group _ _ c inside innerMid bodyEnd close next mid later o innerTerms terms innerOthers others
      closing q ho hread hbody hclose hrest ihbody ih =>
    rw [Term.invalidsOfAll_cons, List.append_assoc, Invalid.missing_append, Element.invalids,
      ho.missing_group, Disjunction.invalids, Alternative.invalids]
    cases hclose with
    | closed hparenthesis =>
      have hmore : bodyEnd.rest ≠ [] := by
        rw [hparenthesis.1]
        exact List.cons_ne_nil _ _
      rw [ihbody.2 hmore]
      exact ih
    | missing hend =>
      obtain ⟨rfl, rfl, rfl, rfl⟩ := hrest.of_end hend
      refine ⟨?_, fun hmore => absurd hend hmore⟩
      rw [Term.invalidsOfAll, Branch.invalidsOfAll, List.append_nil, Invalid.missing_nil,
        List.append_nil]
      exact ihbody.1.parenthesis

end Derives

end RegexTree
