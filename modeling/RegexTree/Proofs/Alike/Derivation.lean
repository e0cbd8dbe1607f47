import RegexTree.Proofs.Alike.Lexeme
import RegexTree.Proofs.Derivation

/-! # Derivations at places that look alike
The main statement, `Derives.alike`, compares two runs through all nested groups: what is derived up
to the end of the common text of two places is derived at both, moved from the one to the other, and
at the second place the derivation may go on with what follows there. -/

namespace RegexTree

open Cursor (Alike)

variable {m n : Nat} {s t : List Char} {a b : Cursor}

/-! ## Lexemes as terms -/

namespace Lexeme

variable {nested nested' first : Bool} {l l' : Lexeme} {u : Term}

/-- A lexeme that is moved is the same term (`Lexeme.term?`), moved. -/
theorem term?_shift (k : Nat) (l : Lexeme) :
    (l.shift k).term? nested first = (l.term? nested first).map (·.shift k) := by
  cases l with
  | closing span q => cases nested <;> rfl
  | _ => rfl

/-- What is a term in a group is the same term outside of groups. -/
theorem term?_of_nested (hu : l.term? nested first = some u)
    (hnested : nested' = true → nested = true) : l.term? nested' first = some u := by
  cases l with
  | closing span q =>
    cases nested with
    | true => cases hu
    | false =>
      have hfalse : nested' = false := Bool.eq_false_iff.mpr fun htrue => by cases hnested htrue
      rw [hfalse]
      exact hu
  | _ => exact hu

/-- A lexeme is the same term at both places. -/
theorem term?_alike (hl : l.shift m = l'.shift n) (hu : l.term? nested first = some u)
    (hnested : nested' = true → nested = true) :
    ∃ u', l'.term? nested' first = some u' ∧ u.shift m = u'.shift n := by
  have hmoved : (l'.term? nested' first).map (·.shift n) = some (u.shift m) := by
    rw [← term?_shift, ← hl, term?_shift, term?_of_nested hu hnested]
    rfl
  obtain ⟨u', hu', hshift⟩ := Option.map_eq_some_iff.mp hmoved
  exact ⟨u', hu', hshift.symm⟩

/-- The `atomInvalids` of a lexeme are invalid in its term. -/
theorem atomInvalids_subset (hu : l.term? nested first = some u) :
    l.atomInvalids ⊆ u.element.invalids := by
  cases l with
  | atom a q =>
    cases hu
    rw [Element.invalids]
    exact List.Subset.refl _
  | _ => exact List.nil_subset _

/-- A term without a group that makes sense is an atom. -/
theorem exists_atom (hterm : l.term? nested first = some u)
    (hvalid : u.element.invalids = []) :
    ∃ A q, l = .atom A q ∧ u = ⟨.atom A, q⟩ ∧ A.invalids = [] := by
  cases l with
  | atom A q =>
    cases hterm
    exact ⟨A, q, rfl, rfl, hvalid⟩
  | closing span q => cases nested <;> cases hterm; cases hvalid
  | strayQuantifier span => cases hterm; cases hvalid
  | strayBrace i => cases hterm; cases hvalid
  | _ => cases hterm

/-- Only an opening is an opening when moved. -/
theorem eq_opening {o : GroupOpening} (h : (opening o).shift m = l.shift n) :
    ∃ o', l = opening o' ∧ o.shift m = o'.shift n := by
  cases l with
  | opening o' => exact ⟨o', rfl, opening.inj h⟩
  | _ => cases h

/-- Only a closing parenthesis is one when moved. -/
theorem eq_closing {span : Span} {q : Option Quantifier}
    (h : (closing span q).shift m = l.shift n) :
    ∃ span' q', l = closing span' q' ∧ span.shift m = span'.shift n ∧
      q.map (·.shift m) = q'.map (·.shift n) := by
  cases l with
  | closing span' q' =>
    obtain ⟨hspan, hq⟩ := closing.inj h
    exact ⟨span', q', rfl, hspan, hq⟩
  | _ => cases h

end Lexeme

/-! ## Groups -/

/-- The opening of a group is read at the other place as well. -/
theorem GroupOpening.alike_readAt {o : GroupOpening} {inside : Cursor}
    (hread : Lexeme.ReadAt a inside (.opening o)) (h : Alike m n s t a b) (ht : Delimits t)
    (hs : s <:+ inside.rest) :
    ∃ o' inside', GroupOpening.Takes b inside' o' ∧ Lexeme.ReadAt b inside' (.opening o') ∧
      o.shift m = o'.shift n ∧ Alike m n s t inside inside' := by
  obtain ⟨l, inside', hread', hshift, hinside⟩ :=
    hread.alike h ht hs fun _ _ => List.forall_mem_nil _
  obtain ⟨o', rfl, ho⟩ := Lexeme.eq_opening hshift
  cases hread'.takes with
  | opening htakes => exact ⟨o', inside', htakes, hread', ho, hinside⟩

/-- Before a text that `Delimits`, a closing parenthesis ends a group without a quantifier. -/
theorem Closes.of_delimits {close : Cursor} (h : a.Reads [')'] close) (ht : Delimits close.rest) :
    Closes a close (some (a.spanTo close)) close none := by
  have hfollows := Quantifier.follows_readOptional close
  rw [Quantifier.readOptional_of_delimits ht] at hfollows
  exact .closed h hfollows (Lexeme.readAt_closing_of_delimits h ht)

/-- A closing parenthesis ends what is derived in a group. -/
theorem EndsAt.of_reads {close : Cursor} (h : a.Reads [')'] close) : EndsAt true a := by
  refine .inr ⟨rfl, ?_⟩
  rw [h.1]
  rfl

/-- A group ends at the other place as it does at the first, unless only the end of input ends it at
the first (`Uncut`). -/
theorem Closes.alike {close later : Cursor} {closing : Option Span} {q : Option Quantifier}
    (hc : Closes a close closing later q) (h : Alike m n s t a b) (ht : Delimits t)
    (hs : s <:+ later.rest) (hu : closing = none → s = [] → t = []) :
    ∃ close' closing' later' q', Closes b close' closing' later' q' ∧
      closing.map (·.shift m) = closing'.map (·.shift n) ∧
        q.map (·.shift m) = q'.map (·.shift n) ∧ Alike m n s t close close' ∧
          Alike m n s t later later' ∧ EndsAt true b := by
  cases hc with
  | @closed close later q hclose hq hread =>
    obtain ⟨l, later', hread', hshift, hlater⟩ :=
      hread.alike h ht hs fun _ _ => List.forall_mem_nil _
    obtain ⟨span, q', rfl, hspan, hquantifier⟩ := Lexeme.eq_closing hshift
    cases htakes : hread'.takes with
    | @closing close' _ hclose' hq' =>
      have hcloseAlike := h.of_reads_both hclose hclose' (hq.reaches.stays hs)
      exact ⟨close', _, later', q', .closed hclose' hq' hread', congrArg some hspan, hquantifier,
        hcloseAlike, hlater, .of_reads hclose'⟩
  | missing hend =>
    have hsnil : s = [] := List.suffix_nil.mp (hend ▸ hs)
    have hend' : b.rest = [] := (h.rest_of_rest_eq (hend.trans hsnil.symm)).trans (hu rfl hsnil)
    exact ⟨b, none, b, none, .missing hend', rfl, rfl, h, h, .inl hend'⟩

/-! ## Terms -/

/-- A term stands between two places: it is a lexeme there, or a group is derived there. -/
inductive Term.StandsAt (nested first : Bool) (c later : Cursor) : Term → Prop where
  /-- A term without a group. -/
  | lexeme {l : Lexeme} {u : Term} (hread : Lexeme.ReadAt c later l)
      (hterm : l.term? nested first = some u) : StandsAt nested first c later u
  /-- A group. -/
  | group {inside innerMid bodyEnd close : Cursor} {o : GroupOpening} {innerTerms : List Term}
      {innerOthers : List Branch} {closing : Option Span} {q : Option Quantifier}
      (ho : GroupOpening.Takes c inside o) (hread : Lexeme.ReadAt c inside (.opening o))
      (hbody : Derives true true inside innerTerms innerMid innerOthers bodyEnd)
      (hclose : Closes bodyEnd close closing later q) :
      StandsAt nested first c later
        ⟨.group ⟨c.spanTo close, o, ⟨⟨inside.spanTo innerMid, innerTerms⟩, innerOthers⟩, closing⟩,
          q⟩

namespace Term.StandsAt

variable {nested nested' first : Bool} {next : Cursor} {u : Term}

/-- A term and what is derived behind it are derived together. -/
theorem derives {mid later : Cursor} {terms : List Term} {others : List Branch}
    (h : u.StandsAt nested first a next)
    (hrest : Derives nested false next terms mid others later) :
    Derives nested first a (u :: terms) mid others later := by
  cases h with
  | lexeme hread hterm => exact .term hread hterm hrest
  | group ho hread hbody hclose => exact .group ho hread hbody hclose hrest

/-- A term without a group stands at the other place as well. -/
theorem alike_lexeme {l : Lexeme} (hread : Lexeme.ReadAt a next l)
    (hterm : l.term? nested first = some u) (h : Alike m n s t a b) (ht : Delimits t)
    (hs : s <:+ next.rest) (hu : Uncut s t u.element.invalids)
    (hnested : nested' = true → nested = true) :
    ∃ (u' : Term) (next' : Cursor), u'.StandsAt nested' first b next' ∧ u.shift m = u'.shift n ∧
      Alike m n s t next next' := by
  obtain ⟨l', next', hread', hl, hnext⟩ :=
    hread.alike h ht hs (hu.of_subset (Lexeme.atomInvalids_subset hterm))
  obtain ⟨u', hterm', hshift⟩ := Lexeme.term?_alike hl hterm hnested
  exact ⟨u', next', .lexeme hread' hterm', hshift, hnext⟩

/-- A group stands at the other place as well if what is derived for its body is derived there. -/
theorem alike_group {inside innerMid bodyEnd close : Cursor} {o : GroupOpening}
    {innerTerms : List Term} {innerOthers : List Branch} {closing : Option Span}
    {q : Option Quantifier} (hread : Lexeme.ReadAt a inside (.opening o))
    (hinside : inside.Reaches bodyEnd) (hclose : Closes bodyEnd close closing next q)
    (hbody : ∀ {b}, Alike m n s t inside b →
      ∃ terms' mid' others' bodyEnd', Term.shiftAll m innerTerms = Term.shiftAll n terms' ∧
        Branch.shiftAll m innerOthers = Branch.shiftAll n others' ∧ Alike m n s t innerMid mid' ∧
          Alike m n s t bodyEnd bodyEnd' ∧
            ∀ branches stop, (∀ first, Derives true first bodyEnd' [] bodyEnd' branches stop) →
              Derives true true b terms' mid' (others' ++ branches) stop)
    (h : Alike m n s t a b) (ht : Delimits t) (hs : s <:+ next.rest)
    (hmissing : closing = none → s = [] → t = []) :
    ∃ u' next', Term.StandsAt nested' first b next' u' ∧
      Term.shift m ⟨.group ⟨a.spanTo close, o,
        ⟨⟨inside.spanTo innerMid, innerTerms⟩, innerOthers⟩, closing⟩, q⟩ = u'.shift n ∧
          Alike m n s t next next' := by
  have hsBody : s <:+ bodyEnd.rest := hclose.reaches.stays hs
  obtain ⟨o', inside', ho', hread', hopening, hinsideAlike⟩ :=
    GroupOpening.alike_readAt hread h ht (hinside.stays hsBody)
  obtain ⟨terms', mid', others', bodyEnd', hterms, hothers, hmid, hbodyEnd, hmore⟩ :=
    hbody hinsideAlike
  obtain ⟨close', closing', next', q', hclose', hclosing, hq, hcloseAlike, hnext, hendsAt⟩ :=
    hclose.alike hbodyEnd ht hs hmissing
  have hbody' : Derives true true inside' terms' mid' others' bodyEnd' := by
    have hstop := hmore [] bodyEnd' fun _ => .stop hendsAt
    rwa [List.append_nil] at hstop
  refine ⟨_, next', .group ho' hread' hbody' hclose', ?_, hnext⟩
  simp only [Term.shift, Element.shift, Group.shift, Disjunction.shift, Alternative.shift, hterms,
    hothers, hopening, hclosing, hq, h.shift_spanTo hcloseAlike, hinsideAlike.shift_spanTo hmid]

/-- A group whose closing parenthesis is missing is not `Uncut` before the end of input. -/
theorem uncut_group {span : Span} {o : GroupOpening} {body : Disjunction} {closing : Option Span}
    (hu : Uncut s t (Group.invalids ⟨span, o, body, closing⟩)) :
    Uncut s t body.invalids ∧ (closing = none → s = [] → t = []) := by
  rw [Group.invalids] at hu
  refine ⟨hu.of_subset fun i hi => List.mem_append_left _ (List.mem_append_right _ hi), ?_⟩
  rintro rfl hsnil
  refine Decidable.byContradiction fun htne => ?_
  exact hu hsnil htne _ (List.mem_append_right _ List.mem_cons_self) (.inl rfl)

end Term.StandsAt

/-! ## Derivations -/

/-- What is derived within the common text is derived at the other place, moved, and goes on there
with what is derived behind it. -/
theorem Derives.alike {nested nested' first : Bool} {mid later : Cursor} {terms : List Term}
    {others : List Branch} (hd : Derives nested first a terms mid others later)
    (h : Alike m n s t a b) (ht : Delimits t) (hs : s <:+ later.rest)
    (hu : Uncut s t (Term.invalidsOfAll terms ++ Branch.invalidsOfAll others))
    (hnested : nested' = true → nested = true) :
    ∃ terms' mid' others' later', Term.shiftAll m terms = Term.shiftAll n terms' ∧
      Branch.shiftAll m others = Branch.shiftAll n others' ∧ Alike m n s t mid mid' ∧
        Alike m n s t later later' ∧
          ∀ branches stop, (∀ first, Derives nested' first later' [] later' branches stop) →
            Derives nested' first b terms' mid' (others' ++ branches) stop := by
  -- the body of a group is derived inside a group at both places, whatever is around the group
  induction hd generalizing b nested' with
  | stop hend => exact ⟨[], b, [], b, rfl, rfl, h, h, fun branches stop hmore => hmore _⟩
  | @bar _ _ a next mid later terms others hbar hread hrest ih =>
    obtain ⟨next', hbar', hnext⟩ := h.of_reads hbar (hrest.reaches_later.stays hs)
    rw [Term.invalidsOfAll, List.nil_append, Branch.invalidsOfAll, Alternative.invalids] at hu
    obtain ⟨terms', mid', others', later', hterms, hothers, hmid, hend, hmore⟩ :=
      ih hnext hs hu hnested
    refine ⟨[], b, ⟨b.spanTo next', ⟨next'.spanTo mid', terms'⟩⟩ :: others', later', rfl, ?_, h,
      hend, ?_⟩
    · rw [Branch.shiftAll, Branch.shiftAll, Alternative.shift, Alternative.shift, hterms, hothers,
        h.shift_spanTo hnext, hnext.shift_spanTo hmid]
    · intro branches stop hbranches
      exact .bar hbar' (Lexeme.readAt_bar hbar') (hmore branches stop hbranches)
  | @term _ _ a next mid later l u terms others hread hterm hrest ih =>
    rw [Term.invalidsOfAll_cons, List.append_assoc] at hu
    obtain ⟨u', next', hstands, hshift, hnext⟩ :=
      Term.StandsAt.alike_lexeme hread hterm h ht (hrest.reaches_later.stays hs)
        (hu.of_subset (List.subset_append_left _ _)) hnested
    obtain ⟨terms', mid', others', later', hterms, hothers, hmid, hend, hmore⟩ :=
      ih hnext hs (hu.of_subset (List.subset_append_right _ _)) hnested
    refine ⟨u' :: terms', mid', others', later', ?_, hothers, hmid, hend,
      fun branches stop hbranches => hstands.derives (hmore branches stop hbranches)⟩
    rw [Term.shiftAll_cons, Term.shiftAll_cons, hshift, hterms]
  | @group _ _ a inside innerMid bodyEnd close next mid later o innerTerms terms innerOthers others
      closing q ho hread hbody hclose hrest ihbody ih =>
    have hsNext : s <:+ next.rest := hrest.reaches_later.stays hs
    rw [Term.invalidsOfAll_cons, Element.invalids, List.append_assoc] at hu
    obtain ⟨hbodyUncut, hmissing⟩ :=
      Term.StandsAt.uncut_group (hu.of_subset (List.subset_append_left _ _))
    obtain ⟨u', next', hstands, hshift, hnext⟩ :=
      Term.StandsAt.alike_group hread hbody.reaches_later hclose
        (fun hinside => ihbody hinside (hclose.reaches.stays hsNext) hbodyUncut fun _ => rfl)
        h ht hsNext hmissing
    obtain ⟨terms', mid', others', later', hterms, hothers, hmid, hend, hmore⟩ :=
      ih hnext hs (hu.of_subset (List.subset_append_right _ _)) hnested
    refine ⟨u' :: terms', mid', others', later', ?_, hothers, hmid, hend,
      fun branches stop hbranches => hstands.derives (hmore branches stop hbranches)⟩
    rw [Term.shiftAll_cons, Term.shiftAll_cons, hshift, hterms]

/-- The `Disjunction` that is derived within the common text is the same at the other place, moved,
if it ends there. -/
theorem Derives.alike_disjunction {nested nested' first : Bool} {mid later : Cursor}
    {terms : List Term} {others : List Branch}
    (hd : Derives nested first a terms mid others later)
    (h : Alike m n s t a b) (ht : Delimits t) (hs : s <:+ later.rest)
    (hu : Uncut s t (Term.invalidsOfAll terms ++ Branch.invalidsOfAll others))
    (hnested : nested' = true → nested = true) :
    ∃ terms' mid' others' later',
      Disjunction.shift m ⟨⟨a.spanTo mid, terms⟩, others⟩ =
        Disjunction.shift n ⟨⟨b.spanTo mid', terms'⟩, others'⟩ ∧
      Alike m n s t later later' ∧
        (EndsAt nested' later' → Derives nested' first b terms' mid' others' later') := by
  obtain ⟨terms', mid', others', later', hterms, hothers, hmid, hlater, hmore⟩ :=
    hd.alike h ht hs hu hnested
  refine ⟨terms', mid', others', later', ?_, hlater, fun hends => ?_⟩
  · rw [Disjunction.shift, Disjunction.shift, Alternative.shift, Alternative.shift, hterms, hothers,
      h.shift_spanTo hmid]
  · have hstop := hmore [] later' fun _ => .stop hends
    rwa [List.append_nil] at hstop

/-- A term that stands within the common text stands at the other place as well. -/
theorem Term.StandsAt.alike {nested nested' first : Bool} {next : Cursor} {u : Term}
    (hstands : u.StandsAt nested first a next) (h : Alike m n s t a b) (ht : Delimits t)
    (hs : s <:+ next.rest) (hu : Uncut s t u.element.invalids)
    (hnested : nested' = true → nested = true) :
    ∃ (u' : Term) (next' : Cursor), u'.StandsAt nested' first b next' ∧ u.shift m = u'.shift n ∧
      Alike m n s t next next' := by
  cases hstands with
  | lexeme hread hterm => exact alike_lexeme hread hterm h ht hs hu hnested
  | group ho hread hbody hclose =>
    obtain ⟨hbodyUncut, hmissing⟩ := uncut_group hu
    exact alike_group hread hbody.reaches_later hclose
      (fun hinside => hbody.alike hinside ht (hclose.reaches.stays hs) hbodyUncut fun _ => rfl)
      h ht hs hmissing

/-- A term that stands within the common text stands at the same offset of the other text. -/
theorem Term.StandsAt.alike_zero {nested first : Bool} {next : Cursor} {u : Term}
    (hstands : u.StandsAt nested first a next) (h : Alike 0 0 s t a b) (ht : Delimits t)
    (hs : s <:+ next.rest) (hu : Uncut s t u.element.invalids) :
    ∃ next', u.StandsAt nested first b next' ∧ Alike 0 0 s t next next' := by
  obtain ⟨u', next', hstands', hshift, hnext⟩ := hstands.alike h ht hs hu id
  rw [Term.shift_zero, Term.shift_zero] at hshift
  subst hshift
  exact ⟨next', hstands', hnext⟩

/-- A closed group with a body that makes sense stands at the same offset of the other text as well,
if its closing parenthesis does, with whatever quantifier follows there. -/
theorem Term.StandsAt.alike_closed {inside innerMid bodyEnd : Cursor} {o : GroupOpening}
    {innerTerms : List Term} {innerOthers : List Branch}
    (hread : Lexeme.ReadAt a inside (.opening o))
    (hbody : Derives true true inside innerTerms innerMid innerOthers bodyEnd)
    (hvalid : Term.invalidsOfAll innerTerms ++ Branch.invalidsOfAll innerOthers = [])
    (h : Alike 0 0 s t a b) (ht : Delimits t) (hs : s <:+ bodyEnd.rest) :
    ∃ bodyEnd', Alike 0 0 s t bodyEnd bodyEnd' ∧
      ∀ (nested first : Bool) {close close' next : Cursor} {q : Option Quantifier},
        bodyEnd'.Reads [')'] close' → close.pos = close'.pos → Quantifier.Follows close' next q →
          Term.StandsAt nested first b next ⟨.group ⟨a.spanTo close, o,
            ⟨⟨inside.spanTo innerMid, innerTerms⟩, innerOthers⟩,
            some (bodyEnd.spanTo close)⟩, q⟩ := by
  have huncut : Uncut s t (Term.invalidsOfAll innerTerms ++ Branch.invalidsOfAll innerOthers) := by
    rw [hvalid]
    exact fun _ _ => List.forall_mem_nil _
  obtain ⟨o', inside', ho', hread', hopening, hinside⟩ :=
    GroupOpening.alike_readAt hread h ht (hbody.reaches_later.stays hs)
  obtain ⟨innerTerms', innerMid', innerOthers', bodyEnd', hinner, hbodyEnd, hbody'⟩ :=
    hbody.alike_disjunction hinside ht hs huncut fun _ => rfl
  rw [GroupOpening.shift_zero, GroupOpening.shift_zero] at hopening
  rw [Disjunction.shift_zero, Disjunction.shift_zero] at hinner
  refine ⟨bodyEnd', hbodyEnd, fun nested first close close' next q hclose hpos hq => ?_⟩
  have hgroup : Term.StandsAt nested first b next _ :=
    .group ho' hread' (hbody' (.of_reads hclose)) (.of_follows hclose hq)
  have hstart : a.pos = b.pos := h.pos_eq
  have hend : bodyEnd.pos = bodyEnd'.pos := hbodyEnd.pos_eq
  have hspan : a.spanTo close = b.spanTo close' := by
    rw [Cursor.spanTo, Cursor.spanTo, hstart, hpos]
  have hclosing : bodyEnd.spanTo close = bodyEnd'.spanTo close' := by
    rw [Cursor.spanTo, Cursor.spanTo, hend, hpos]
  rw [hspan, hopening, hinner, hclosing]
  exact hgroup

/-! ## Patterns -/

/-- The invalid spans of a pattern are those of the terms and alternatives that are derived. -/
theorem Derives.invalids_eq {pattern : String} {mid later : Cursor} {terms : List Term}
    {others : List Branch}
    (hd : Derives false true (.ofString pattern) terms mid others later) :
    (Tree.parse pattern).diagnostics =
      Term.invalidsOfAll terms ++ Branch.invalidsOfAll others := by
  rw [Tree.diagnostics_parse, Regex.invalids, hd.body_eq, Disjunction.invalids,
    Alternative.invalids]

end RegexTree
