import RegexTree.Proofs.Repair.Leaves

/-! # Repaired patterns
The main statement, `Tree.parse_repaired`, says what appending the missing closing delimiters to a
pattern does: each leaf that stands in for a delimiter becomes a leaf on the next appended
character, all other leaves stay, and of what makes no sense only the missing delimiters are
gone. -/

namespace RegexTree

open Cursor (Alike)

/-! ## Classes -/

/-- A class that is read as an atom is read from its bracket on. -/
theorem Lexeme.ReadAt.eq_class {c later : Cursor} {s : CharacterClass} {q : Option Quantifier}
    (h : Lexeme.ReadAt c later (.atom (.characterClass s) q)) :
    ∃ r, c.rest = '[' :: r ∧ s = (CharacterClass.read c).1 ∧
      Quantifier.readOptional (CharacterClass.read c).2 = (q, later) := by
  obtain ⟨x, r, hrest, hx, hclass, hquantifier, hlater⟩ := h.eq_read_atom
  obtain ⟨w, hw⟩ := ((Atom.takes_read hrest hx).of_class hclass.symm).reads
  obtain rfl : x = '[' := (List.cons.inj (hrest.symm.trans hw.1)).1
  rw [hlater, hquantifier]
  exact ⟨r, hrest, Atom.characterClass.inj hclass, rfl⟩

namespace CharacterClass

/-- A class has no closing bracket where none stands behind its members (`afterMembers`). -/
theorem accept?_of_closing_eq_none {c : Cursor} (h : (read c).1.closing = none) :
    (afterMembers c).accept? ']' = none := by
  cases haccept : (afterMembers c).accept? ']' with
  | none => rfl
  | some later =>
    rw [read_eq, Cursor.skipOptional, haccept] at h
    cases h

/-- A class that lacks its closing bracket is closed by a bracket behind it. -/
theorem read_closed {c c' : Cursor} {r t : List Char} (hc : c.rest = '[' :: r)
    (hclosing : (read c).1.closing = none) (h : Alike 0 0 [] (']' :: t) c c')
    (hu : Uncut [] (']' :: t) ((read c).1.members.flatMap (·.invalids))) :
    Node.openingOfClass (read c').1 = Node.openingOfClass (read c).1 ∧
      (read c').1.members = (read c).1.members ∧
        (read c').1.closing = some ⟨(read c).2.pos, (read c).2.pos + 1⟩ ∧
          (read c').2.pos = (read c).2.pos + 1 ∧ (read c').2.rest = t := by
  have hnone := accept?_of_closing_eq_none hclosing
  obtain ⟨hend, -⟩ := of_closing_eq_none hnone
  obtain ⟨hnext, hnegation, hmembers, hstop⟩ :=
    alike_afterMembers h (.bracket t) hc List.nil_suffix hu
  have hstopRest : (afterMembers c').rest = ']' :: t := hstop.rest_of_rest_eq hend
  have hbracket := Cursor.reads_next hstopRest
  have hskip : (read c).2 = afterMembers c := by rw [read_eq, Cursor.skipOptional, hnone]
  have hskip' : (afterMembers c').skipOptional ']' =
      (some ((afterMembers c').spanTo (afterMembers c').next), (afterMembers c').next) := by
    rw [Cursor.skipOptional, Cursor.accept?_of_head hstopRest]
  have hstart : (afterMembers c').pos = (read c).2.pos := by
    rw [hskip]
    exact hstop.pos_eq.symm
  have hnextPos : (afterMembers c').next.pos = (read c).2.pos + 1 := by
    rw [hbracket.2, hstart]
    rfl
  have hread : (read c').2 = (afterMembers c').next := by rw [read_eq, hskip']
  have hclosing' : (read c').1.closing = some ⟨(read c).2.pos, (read c).2.pos + 1⟩ := by
    show ((afterMembers c').skipOptional ']').1 = _
    rw [hskip', Cursor.spanTo, hnextPos, hstart]
  simp only [Span.shift_zero, ClassMember.shift_zero, Option.map_id', List.map_id']
    at hnegation hmembers
  have hopening : (read c').1.opening = (read c).1.opening := (h.shift_spanTo hnext).symm
  refine ⟨?_, hmembers.symm, hclosing', hread ▸ hnextPos, hread ▸ Cursor.rest_next hstopRest⟩
  rw [Node.openingOfClass, Node.openingOfClass, hopening, hnegation, hmembers]

end CharacterClass

/-! ## Derivations -/

/-- No other alternative and no term ends later than where the alternative begins. -/
theorem Derives.mid_eq_of_nil {nested first : Bool} {c mid later : Cursor} {terms : List Term}
    {others : List Branch} (h : Derives nested first c terms mid others later) (ht : terms = []) :
    mid = c := by
  cases h with
  | stop => rfl
  | bar => rfl
  | term => cases ht
  | group => cases ht

/-- The terms and the further alternatives on the right are derived from a place that looks like the
one where those on the left are derived, with the missing delimiters behind it: they end after the
delimiters, and are as on the left but for the delimiters. -/
structure Supplied (nested first : Bool) (c : Cursor) (pos : Nat) (t : List Char)
    (terms : List Term) (others : List Branch) (terms' : List Term) (mid : Cursor)
    (others' : List Branch) (later : Cursor) : Prop where
  /-- What is on the right is derived. -/
  derives : Derives nested first c terms' mid others' later
  /-- It ends before what follows the delimiters. -/
  rest_eq : later.rest = t
  /-- It ends after the delimiters. -/
  pos_eq : later.pos =
    pos + (Invalid.missing (Term.invalidsOfAll terms ++ Branch.invalidsOfAll others)).length
  /-- The leaves that stand in for delimiters are replaced. -/
  leaves : Node.Supplies pos (Node.leavesOfAll (Node.ofTerms terms ++ Node.ofBranches others))
    (Node.leavesOfAll (Node.ofTerms terms' ++ Node.ofBranches others'))
      (Invalid.missing (Term.invalidsOfAll terms ++ Branch.invalidsOfAll others)).length
  /-- All else that makes no sense stays. -/
  invalids : Term.invalidsOfAll terms' ++ Branch.invalidsOfAll others' =
    (Term.invalidsOfAll terms ++ Branch.invalidsOfAll others).filter (·.reason.missing?.isNone)
  /-- There are terms on the right if there are on the left. -/
  nil_iff : terms' = [] ↔ terms = []

namespace Supplied

variable {nested first : Bool} {c next mid later : Cursor} {pos : Nat} {t : List Char}
  {terms terms' : List Term} {others others' : List Branch}

/-- What lacks nothing stays as it is among what makes no sense. -/
theorem filter_of_missing {is : List Invalid} (h : Invalid.missing is = []) :
    is.filter (·.reason.missing?.isNone) = is :=
  List.filter_eq_self.mpr fun i hi => by rw [Invalid.missing_eq_nil_iff.mp h i hi]; rfl

/-- A term that lacks nothing stays before what is supplied. -/
theorem term {u : Term} (hu : u.StandsAt nested first c next)
    (hmissing : Invalid.missing u.element.invalids = [])
    (h : Supplied nested false next pos t terms others terms' mid others' later) :
    Supplied nested first c pos t (u :: terms) others (u :: terms') mid others' later := by
  obtain ⟨hderives, hrest, hpos, hleaves, hinvalids, -⟩ := h
  have hnodes : Node.invalidsOfAll (Node.ofTerm u) = u.element.invalids.map Node.ofInvalid :=
    Node.invalidsOfAll_ofTerm u
  refine ⟨hu.derives hderives, hrest, ?_, ?_, ?_, by simp⟩
  · rw [Term.invalidsOfAll_cons, List.append_assoc, Invalid.missing_append, hmissing]
    exact hpos
  · rw [Term.invalidsOfAll_cons, List.append_assoc, Invalid.missing_append, hmissing,
      Node.ofTerms_cons, Node.ofTerms_cons, List.append_assoc, List.append_assoc,
      Node.leavesOfAll_append, Node.leavesOfAll_append (Node.ofTerm u)]
    exact (Node.supplies_of_missing hnodes hmissing pos).prepend hleaves
  · rw [Term.invalidsOfAll_cons, Term.invalidsOfAll_cons, List.append_assoc, List.append_assoc,
      hinvalids, List.filter_append u.element.invalids, filter_of_missing hmissing]

/-- A bar stays before what is supplied (`Supplied`). -/
theorem bar {bar span : Span} (hbar : c.Reads ['|'] next)
    (h : Supplied nested true next pos t terms others terms' mid others' later)
    (hspan : terms = [] → next.spanTo mid = span) (hbarSpan : c.spanTo next = bar) :
    Supplied nested first c pos t [] (⟨bar, ⟨span, terms⟩⟩ :: others) [] c
      (⟨bar, ⟨next.spanTo mid, terms'⟩⟩ :: others') later := by
  obtain ⟨hderives, hrest, hpos, hleaves, hinvalids, hnil⟩ := h
  subst hbarSpan
  refine ⟨.bar hbar (Lexeme.readAt_bar hbar) hderives, hrest, hpos, ?_, hinvalids, Iff.rfl⟩
  have hdelimiter : ∀ ns,
      Node.leavesOfAll (Node.leaf .disjunctionDelimiter (c.spanTo next) :: ns) =
        [Node.leaf .disjunctionDelimiter (c.spanTo next)] ++ Node.leavesOfAll ns :=
    Node.leavesOfAll_cons_of_isLeaf rfl
  rw [Node.ofTerms, List.nil_append, List.nil_append, Node.ofBranches, Node.ofBranches, hdelimiter,
    hdelimiter]
  exact (Node.Supplies.of_forall (List.forall_mem_singleton.mpr rfl)).prepend
    (Node.supplies_ofAlternative hleaves hnil hspan)

/-- Where nothing is derived, nothing is supplied. -/
protected theorem nil (h : EndsAt nested c) :
    Supplied nested first c c.pos c.rest [] [] [] c [] c := by
  refine ⟨.stop h, rfl, rfl, ?_, rfl, Iff.rfl⟩
  rw [Node.ofTerms, Node.ofBranches, List.append_nil, Node.leavesOfAll_nil]
  exact .nil

/-- A single element is supplied with what it lacks. -/
theorem single {e e' : Element} (hderives : Derives nested first c [⟨e', none⟩] later [] later)
    (hrest : later.rest = t) (hpos : later.pos = pos + (Invalid.missing e.invalids).length)
    (hleaves : Node.Supplies pos (Node.leavesOfAll [Node.ofElement e])
      (Node.leavesOfAll [Node.ofElement e']) (Invalid.missing e.invalids).length)
    (hinvalids : e'.invalids = e.invalids.filter (·.reason.missing?.isNone)) :
    Supplied nested first c pos t [⟨e, none⟩] [] [⟨e', none⟩] later [] later := by
  have hall : ∀ e : Element,
      Term.invalidsOfAll [⟨e, none⟩] ++ Branch.invalidsOfAll [] = e.invalids := by
    intro e
    rw [Term.invalidsOfAll, Term.invalidsOfAll, Branch.invalidsOfAll, List.append_nil,
      List.append_nil]
  have hnodes : ∀ e : Element,
      Node.ofTerms [⟨e, none⟩] ++ Node.ofBranches [] = [Node.ofElement e] := by
    intro e
    rw [Node.ofTerms, Node.ofTerms, Node.ofBranches, List.append_nil]
  refine ⟨hderives, hrest, ?_, ?_, ?_, by simp⟩
  · rw [hall, hpos]
  · rw [hall, hnodes, hnodes]
    exact hleaves
  · rw [hall, hall, hinvalids]

/-- A `CharacterClass` that lacks its closing bracket is closed, and nothing is derived behind
it. -/
theorem ofClass {a : Cursor} {s : CharacterClass} {q : Option Quantifier}
    (hread : Lexeme.ReadAt a next (.atom (.characterClass s) q)) (hclosing : s.closing = none)
    (hlone : ∀ i ∈ s.invalids, ¬ i.IsLone) (h : Alike 0 0 [] (']' :: t) a c)
    (ht : ∀ {stop : Cursor}, stop.rest = t → EndsAt nested stop) (hdelimits : Delimits t) :
    ∃ terms' later, Supplied nested first c next.pos t [⟨.atom (.characterClass s), q⟩] []
      terms' later [] later := by
  obtain ⟨r, hrest, rfl, hquantifier⟩ := hread.eq_class
  have hmembers := (CharacterClass.takes_read hrest).members_missing_eq_nil
  have hnone := CharacterClass.accept?_of_closing_eq_none hclosing
  obtain ⟨hend, -⟩ := CharacterClass.of_closing_eq_none hnone
  have hlater : (CharacterClass.read a).2 = CharacterClass.afterMembers a := by
    rw [CharacterClass.read_eq, Cursor.skipOptional, hnone]
  rw [Quantifier.readOptional_of_delimits (by rw [hlater, hend]; exact .nil)] at hquantifier
  obtain ⟨rfl, rfl⟩ := Prod.mk.inj hquantifier
  obtain ⟨hopening, hmembersEq, hclosing', hpos, hrest'⟩ :=
    CharacterClass.read_closed hrest hclosing h
      (Invalid.uncut_of_missing hmembers (fun i hi => hlone i (List.mem_append_left _ hi)) _ _)
  obtain ⟨⟨r', hc⟩, -⟩ := h.next hrest List.nil_suffix
  have hread' : Lexeme.ReadAt c (CharacterClass.read c).2
      (.atom (.characterClass (CharacterClass.read c).1) none) := by
    have hdelimits' : Delimits (Atom.read '[' c).2.rest := by
      show Delimits (CharacterClass.read c).2.rest
      rwa [hrest']
    exact Lexeme.readAt_atom_of_delimits hc (by decide) hdelimits'
  have hinvalids : (CharacterClass.read a).1.invalids =
      (CharacterClass.read a).1.members.flatMap (·.invalids) ++
        [⟨.emptyAt (CharacterClass.read a).1.span.stop, .unterminatedClass⟩] := by
    rw [CharacterClass.invalids, CharacterClass.missingBracket, CharacterClass.isClosed, hclosing]
    rfl
  have hmissing : Invalid.missing (CharacterClass.read a).1.invalids = [']'] := by
    rw [hinvalids, Invalid.missing_append, hmembers]
    rfl
  refine ⟨_, _, single (.term hread' rfl (.stop (ht hrest'))) hrest' ?_ ?_ ?_⟩
  · rw [Element.invalids, Atom.invalids, hmissing]
    exact hpos
  · rw [Element.invalids, Atom.invalids, hmissing]
    exact Node.supplies_ofCharacterClass hmembers hopening hclosing hclosing'
  · rw [Element.invalids, Element.invalids, Atom.invalids, Atom.invalids, hinvalids,
      List.filter_append, filter_of_missing hmembers, CharacterClass.invalids, hmembersEq,
      CharacterClass.missingBracket, CharacterClass.isClosed, hclosing']
    rfl

/-- A group that lacks its closing parenthesis is closed behind its body, and nothing is derived
behind it. -/
theorem ofGroup {inside innerMid bodyEnd : Cursor} {span innerSpan : Span} {o : GroupOpening}
    {innerTerms innerTerms' : List Term} {innerOthers innerOthers' : List Branch}
    (ho : GroupOpening.Takes c inside o) (hread : Lexeme.ReadAt c inside (.opening o))
    (hbody : Supplied true true inside pos (')' :: t) innerTerms innerOthers innerTerms' innerMid
      innerOthers' bodyEnd)
    (hspan : innerTerms = [] → inside.spanTo innerMid = innerSpan)
    (ht : ∀ {stop : Cursor}, stop.rest = t → EndsAt nested stop) (hdelimits : Delimits t) :
    ∃ terms' later, Supplied nested first c pos t
      [⟨.group ⟨span, o, ⟨⟨innerSpan, innerTerms⟩, innerOthers⟩, none⟩, none⟩] []
      terms' later [] later := by
  have hclose := Cursor.reads_next hbody.rest_eq
  have hrest := Cursor.rest_next hbody.rest_eq
  have hcloses := Closes.of_delimits hclose (by rwa [hrest])
  have hclosing : bodyEnd.spanTo bodyEnd.next = ⟨bodyEnd.pos, bodyEnd.pos + 1⟩ :=
    congrArg (Span.mk bodyEnd.pos) hclose.2
  have hmissing : Invalid.missing
      (Element.group ⟨span, o, ⟨⟨innerSpan, innerTerms⟩, innerOthers⟩, none⟩).invalids =
        Invalid.missing (Term.invalidsOfAll innerTerms ++ Branch.invalidsOfAll innerOthers) ++
          [')'] := ho.missing_group _ _ _
  refine ⟨_, _,
    single (.group ho hread hbody.derives hcloses (.stop (ht hrest))) hrest ?_ ?_ ?_⟩
  · rw [hmissing, hclose.2, hbody.pos_eq, List.length_append, ← Nat.add_assoc]
    rfl
  · rw [hmissing, hclosing, hbody.pos_eq, List.length_append]
    refine Node.supplies_ofGroup ho.missing_eq_nil ?_
    rw [Node.leavesOfAll_ofDisjunction, Node.leavesOfAll_ofDisjunction]
    exact Node.supplies_ofAlternative hbody.leaves hbody.nil_iff hspan
  · rw [Element.invalids, Element.invalids, Group.invalids, Group.invalids, Disjunction.invalids,
      Disjunction.invalids, Alternative.invalids, Alternative.invalids, List.filter_append,
      List.filter_append, filter_of_missing ho.missing_eq_nil, ← hbody.invalids]
    rfl

/-- An alternative without terms stays where it is. -/
theorem span_eq {a mid₂ later₂ : Cursor} {s s' : List Char}
    (h : Supplied nested first c pos t terms others terms' mid others' later)
    (hd : Derives nested first a terms mid₂ others later₂) (halike : Alike 0 0 s s' a c) :
    terms = [] → c.spanTo mid = a.spanTo mid₂ := by
  intro hnil
  rw [hd.mid_eq_of_nil hnil, h.derives.mid_eq_of_nil (h.nil_iff.mpr hnil)]
  exact (halike.shift_spanTo halike).symm

/-- A term that lacks nothing is read again before what can be supplied. -/
theorem exists_of_term {a b : Cursor} {u : Term} (hstands : u.StandsAt nested first a b)
    (hnil : Invalid.missing u.element.invalids = []) (hlone : ∀ i ∈ u.element.invalids, ¬ i.IsLone)
    {s : List Char} {is : List Invalid} (hs : s <:+ b.rest) (hdelimits : Delimits t)
    (h : Alike 0 0 s (Invalid.missing (u.element.invalids ++ is) ++ t) a c)
    (hrest : ∀ {next}, Alike 0 0 s (Invalid.missing is ++ t) b next →
      ∃ terms' mid others' later, Supplied nested false next pos t terms others
        terms' mid others' later) :
    ∃ terms' mid others' later, Supplied nested first c pos t (u :: terms) others
      terms' mid others' later := by
  rw [Invalid.missing_append, hnil, List.nil_append] at h
  obtain ⟨next, hstands', hnext⟩ := hstands.alike_zero h (Invalid.delimits_missing is hdelimits) hs
    (Invalid.uncut_of_missing hnil hlone s _)
  obtain ⟨terms', mid, others', later, hsupplied⟩ := hrest hnext
  exact ⟨_, _, _, _, hsupplied.term hstands' hnil⟩

/-- A group whose closing parenthesis is missing is opened again before a body that can be
supplied. -/
theorem exists_of_opening {a inside innerMid bodyEnd : Cursor} {span : Span} {o : GroupOpening}
    {innerTerms : List Term} {innerOthers : List Branch}
    (hread : Lexeme.ReadAt a inside (.opening o))
    (hbody : Derives true true inside innerTerms innerMid innerOthers bodyEnd)
    (ht : ∀ {stop : Cursor}, stop.rest = t → EndsAt nested stop) (hdelimits : Delimits t)
    (h : Alike 0 0 bodyEnd.rest (Invalid.missing
      (Term.invalidsOfAll innerTerms ++ Branch.invalidsOfAll innerOthers) ++ ')' :: t) a c)
    (hinner : ∀ {inside'}, Alike 0 0 bodyEnd.rest (Invalid.missing
        (Term.invalidsOfAll innerTerms ++ Branch.invalidsOfAll innerOthers) ++ ')' :: t)
          inside inside' →
      ∃ terms' mid others' later, Supplied true true inside' pos (')' :: t) innerTerms innerOthers
        terms' mid others' later) :
    ∃ terms' later, Supplied nested first c pos t
      [⟨.group ⟨span, o, ⟨⟨inside.spanTo innerMid, innerTerms⟩, innerOthers⟩, none⟩, none⟩] []
      terms' later [] later := by
  obtain ⟨o', inside', ho', hread', hopening, hinside⟩ := GroupOpening.alike_readAt hread h
    (Invalid.delimits_missing _ (.cons (by decide) t)) hbody.reaches_later.suffix
  rw [GroupOpening.shift_zero, GroupOpening.shift_zero] at hopening
  subst hopening
  obtain ⟨terms', mid, others', later, hsupplied⟩ := hinner hinside
  exact ofGroup ho' hread' hsupplied (hsupplied.span_eq hbody hinside) ht hdelimits

end Supplied

/-- As an atom, a class is only a lexeme that is this class. -/
theorem Lexeme.eq_of_term?_class {nested first : Bool} {l : Lexeme} {s : CharacterClass}
    {q : Option Quantifier} (h : l.term? nested first = some ⟨.atom (.characterClass s), q⟩) :
    l = .atom (.characterClass s) q := by
  cases l with
  | atom a q =>
    cases h
    rfl
  | closing span q => cases nested <;> cases h
  | _ => cases h

/-- What is derived can be supplied with what it lacks: from a place where the missing delimiters
stand at the end of input, the same is derived with the delimiters. -/
theorem Derives.exists_supplied {nested first : Bool} {a mid later : Cursor} {terms : List Term}
    {others : List Branch} (hd : Derives nested first a terms mid others later)
    (hlone : ∀ i ∈ Term.invalidsOfAll terms ++ Branch.invalidsOfAll others, ¬ i.IsLone)
    {t : List Char} {c : Cursor}
    (h : Alike 0 0 later.rest
      (Invalid.missing (Term.invalidsOfAll terms ++ Branch.invalidsOfAll others) ++ t) a c)
    (ht : ∀ {stop : Cursor}, stop.rest = t → EndsAt nested stop) (hdelimits : Delimits t) :
    ∃ terms' mid' others' later', Supplied nested first c later.pos t terms others
      terms' mid' others' later' := by
  -- terms that lack nothing stay the same, and what lacks a delimiter is the last that is derived
  induction hd generalizing c t with
  | @stop _ first a hend =>
    have hrest : c.rest = t := h.rest_of_rest_eq rfl
    have hpos : a.pos = c.pos := h.pos_eq
    refine ⟨[], c, [], c, ?_⟩
    rw [hpos, ← hrest]
    exact .nil (ht hrest)
  | @bar _ _ a next mid later terms others hbar hread hrest ih =>
    rw [Term.invalidsOfAll, List.nil_append, Branch.invalidsOfAll, Alternative.invalids] at hlone h
    obtain ⟨next', hbar', hnext⟩ := h.of_reads hbar hrest.reaches_later.suffix
    obtain ⟨terms', mid', others', later', hsupplied⟩ := ih hlone hnext ht hdelimits
    exact ⟨_, _, _, _,
      hsupplied.bar hbar' (hsupplied.span_eq hrest hnext) (h.shift_spanTo hnext).symm⟩
  | @term nested first a next mid later l u terms others hread hterm hrest ih =>
    rw [Term.invalidsOfAll_cons, List.append_assoc] at hlone h
    obtain ⟨hloneTerm, hloneRest⟩ := List.forall_mem_append.mp hlone
    rcases (hread.takes_term hterm).missing with hnil | ⟨s, q, rfl, hclosing, hmissing, hend⟩
    · exact Supplied.exists_of_term (.lexeme hread hterm) hnil hloneTerm
        hrest.reaches_later.suffix hdelimits h fun hnext => ih hloneRest hnext ht hdelimits
    · obtain ⟨rfl, rfl, rfl, rfl⟩ := hrest.of_end hend
      obtain rfl := Lexeme.eq_of_term?_class hterm
      rw [Invalid.missing_append, hmissing, hend] at h
      obtain ⟨terms', later', hsupplied⟩ := Supplied.ofClass hread hclosing hloneTerm h ht hdelimits
      exact ⟨_, _, _, _, hsupplied⟩
  | @group nested first a inside innerMid bodyEnd close next mid later o innerTerms terms
      innerOthers others closing q ho hread hbody hclose hrest ihbody ih =>
    rw [Term.invalidsOfAll_cons, List.append_assoc] at hlone h
    obtain ⟨hloneGroup, hloneRest⟩ := List.forall_mem_append.mp hlone
    have hgroup := ho.missing_group (a.spanTo close)
      ⟨⟨inside.spanTo innerMid, innerTerms⟩, innerOthers⟩ closing
    cases hclose with
    | closed hparenthesis hq hreadClose =>
      have hmore : bodyEnd.rest ≠ [] := by
        rw [hparenthesis.1]
        exact List.cons_ne_nil _ _
      have hnil := hgroup.trans (congrArg (· ++ []) (hbody.missing_isClosers.2 hmore))
      exact Supplied.exists_of_term (.group ho hread hbody (.closed hparenthesis hq hreadClose))
        hnil hloneGroup hrest.reaches_later.suffix hdelimits h
        fun hnext => ih hloneRest hnext ht hdelimits
    | missing hend =>
      obtain ⟨rfl, rfl, rfl, rfl⟩ := hrest.of_end hend
      rw [Invalid.missing_append, Element.invalids, hgroup, Disjunction.invalids,
        Alternative.invalids] at h
      have hcommon : Alike 0 0 later.rest (Invalid.missing
          (Term.invalidsOfAll innerTerms ++ Branch.invalidsOfAll innerOthers) ++ ')' :: t) a c := by
        simpa [Term.invalidsOfAll, Branch.invalidsOfAll] using h
      have hloneBody : ∀ i ∈ Term.invalidsOfAll innerTerms ++ Branch.invalidsOfAll innerOthers,
          ¬ i.IsLone :=
        fun i hi => hloneGroup i (List.mem_append_left _ (List.mem_append_right _ hi))
      obtain ⟨terms', later', hsupplied⟩ :=
        Supplied.exists_of_opening hread hbody ht hdelimits hcommon fun hinside =>
          ihbody hloneBody hinside (fun hstop => .inr ⟨rfl, by rw [hstop]; rfl⟩)
            (.cons (by decide) t)
      exact ⟨_, _, _, _, hsupplied⟩

/-! ## Patterns -/

/-- The closing delimiters that a pattern lacks: a bracket if a class is cut off, and then a
parenthesis for each group that is. -/
def Tree.missingClosers (t : Tree) : List Char :=
  (if t.diagnostics.any (·.reason == .unterminatedClass) then [']'] else []) ++
    List.replicate (t.diagnostics.countP (·.reason == .unterminatedGroup)) ')'

/-- What is `missing` is known by how many spans say so, if it is a bracket and then parentheses. -/
theorem Invalid.missing_eq {is : List Invalid} (h : IsClosers (missing is)) :
    missing is = (if is.any (·.reason == .unterminatedClass) then [']'] else []) ++
      List.replicate (is.countP (·.reason == .unterminatedGroup)) ')' := by
  have hgroups : is.countP (·.reason == .unterminatedGroup) = (missing is).count ')' := by
    rw [missing, List.count_filterMap]
    refine List.countP_congr fun i _ => ?_
    cases i.reason <;> decide
  have hclass : is.any (·.reason == .unterminatedClass) = (missing is).contains ']' := by
    rw [missing, List.contains_eq_any_beq, List.any_filterMap]
    refine congrArg is.any (funext fun i => ?_)
    cases i.reason <;> decide
  rw [hgroups, hclass]
  obtain ⟨m, hm | hm⟩ := h
  · rw [hm]
    simp
  · rw [hm]
    simp

/-- The leaves of a pattern are those of what is derived from its beginning. -/
theorem Derives.leaves_eq {pattern : String} {mid later : Cursor} {terms : List Term}
    {others : List Branch}
    (hd : Derives false true (.ofString pattern) terms mid others later) :
    (Tree.parse pattern).root.leaves = Node.leavesOfAll
      (Node.ofAlternative ⟨(Cursor.ofString pattern).spanTo mid, terms⟩ ::
        Node.ofBranches others) := by
  show Node.leavesOfAll [(Tree.parse pattern).root] = _
  rw [hd.root_eq, Node.leavesOfAll_branch, Node.leavesOfAll_ofDisjunction]

/-- Appending the closing delimiters that a pattern lacks repairs it, if it does not end with a lone
backslash: the leaves that stand in for delimiters become leaves on the appended characters, one
after the other, all other leaves stay, and so does all else that makes no sense. -/
theorem Tree.parse_repaired (pattern : String)
    (hlone : ∀ i ∈ (parse pattern).diagnostics, ¬ i.IsLone) :
    (parse (pattern ++ String.ofList (parse pattern).missingClosers)).root.leaves =
        Node.supplyFrom pattern.utf8ByteSize (parse pattern).root.leaves ∧
      (parse (pattern ++ String.ofList (parse pattern).missingClosers)).diagnostics =
        (parse pattern).diagnostics.filter (·.reason.missing?.isNone) := by
  obtain ⟨terms, mid, others, later, hd, hend, hpos⟩ := Regex.exists_derives pattern
  have hmissing : (parse pattern).missingClosers =
      Invalid.missing (Term.invalidsOfAll terms ++ Branch.invalidsOfAll others) := by
    rw [missingClosers, hd.invalids_eq, ← Invalid.missing_eq hd.missing_isClosers.1]
  rw [hd.invalids_eq] at hlone
  have hstart : Alike 0 0 later.rest
      (Invalid.missing (Term.invalidsOfAll terms ++ Branch.invalidsOfAll others) ++ [])
      (.ofString pattern)
      (.ofString (pattern ++ String.ofList (parse pattern).missingClosers)) := by
    refine ⟨rfl, pattern.toList, ?_, ?_⟩
    · rw [hend, List.append_nil]
      rfl
    · rw [hmissing, List.append_nil, Cursor.ofString, String.toList_append, String.toList_ofList]
  obtain ⟨terms', mid', others', later', hsupplied⟩ :=
    hd.exists_supplied hlone hstart (fun hstop => .inl hstop) .nil
  constructor
  · have hleaves := Node.supplies_ofAlternative hsupplied.leaves hsupplied.nil_iff
      (hsupplied.span_eq hd hstart)
    rw [hsupplied.derives.leaves_eq, hd.leaves_eq, ← hpos]
    exact hleaves.supplyFrom_eq.symm
  · rw [hsupplied.derives.invalids_eq, hd.invalids_eq]
    exact hsupplied.invalids

/-- A class and two groups are cut off, and a count is malformed. -/
theorem Tree.parse_repaired_nested :
    (∀ i ∈ (parse "(x{,}|([^b").diagnostics, ¬ i.IsLone) ∧
      (parse ("(x{,}|([^b" ++ String.ofList (parse "(x{,}|([^b").missingClosers)).root.leaves =
        Node.supplyFrom "(x{,}|([^b".utf8ByteSize (parse "(x{,}|([^b").root.leaves ∧
      (parse ("(x{,}|([^b" ++ String.ofList (parse "(x{,}|([^b").missingClosers)).diagnostics =
        (parse "(x{,}|([^b").diagnostics.filter (·.reason.missing?.isNone) :=
  have hlone : ∀ i ∈ (parse "(x{,}|([^b").diagnostics, ¬ i.IsLone := by decide +kernel
  ⟨hlone, parse_repaired "(x{,}|([^b" hlone⟩

end RegexTree
