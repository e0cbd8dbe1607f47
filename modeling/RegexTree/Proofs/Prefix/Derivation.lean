import RegexTree.Proofs.Prefix.Term

/-! # Derivations that are cut
The main statement, `Derives.resumable`, follows the derivation of a pattern that makes sense up to
the place where the pattern is cut: what is derived there of the beginning of the pattern keeps all
that is finished, and makes no sense in the unfinished part only. -/

namespace RegexTree

open Cursor (Alike)

variable {nested first : Bool} {a c cut inside bodyEnd close next later : Cursor} {ns : List Node}

/-! ## Groups -/

namespace Group

/-- The nodes of a group behind its opening parenthesis. -/
def behindParenthesis (g : Group) : List Node :=
  (Node.ofGroupKind g.opening.kind).2.toList ++ ([Node.ofDisjunction g.body] ++
    [Node.ofClosing .groupEnd .unterminatedGroup g.span.stop g.closing])

/-- The node of a group has a leaf for its opening parenthesis and the nodes behind it
(`behindParenthesis`). -/
theorem ofGroup_eq (g : Group) : Node.ofGroup g =
    .branch (Node.ofGroupKind g.opening.kind).1 g.span
      (.leaf .groupBegin g.opening.parenthesis :: g.behindParenthesis) := by
  obtain ⟨span, opening, body, closing⟩ := g
  rw [Node.ofGroup]
  rfl

end Group

/-- The node of a `GroupKind` is no container. -/
theorem Node.isContainer_ofGroupKind {kind : GroupKind} {n : Node}
    (h : (ofGroupKind kind).2 = some n) : n.kind.isContainer = false := by
  cases kind <;> cases h <;> rfl

/-- An alternative without terms has no width. -/
theorem Derives.isEmpty_of_nil {mid : Cursor} {terms : List Term} {others : List Branch}
    (h : Derives nested first c terms mid others later) (hnil : terms = []) :
    (c.spanTo mid).isEmpty = true := by
  rw [h.mid_eq_of_nil hnil]
  exact Span.isEmpty_emptyAt c.pos

namespace Resumable

/-- A group that is cut behind its parenthesis is resumed with anything behind it. -/
theorem of_group {g g' : Group} {q q' : Option Quantifier} {e : Nat} {close' next' : Cursor}
    (hresumes : Node.Resumes cut.pos e g.behindParenthesis g'.behindParenthesis)
    (hparenthesis : g.opening.parenthesis = g'.opening.parenthesis)
    (hq : Node.Tiles close (q.map Node.ofQuantifier).toList next)
    (hns : Node.Tiles next ns later) (he : e ≤ close.pos)
    (hstands : Term.StandsAt nested first c next' ⟨.group g', q'⟩)
    (hq' : Node.Tiles close' (q'.map Node.ofQuantifier).toList next') (he' : e ≤ close'.pos) :
    Resumable nested first c cut.pos (Node.ofTerm ⟨.group g, q⟩ ++ ns) := by
  have hbegin : Node.invalidsOfAll [Node.leaf .groupBegin g'.opening.parenthesis] = [] := by simp
  have hkind := (Node.invalidsOfAll_ofGroupKind g'.opening.kind).1
  have hgroup : Node.Resumes cut.pos e [Node.ofElement (.group g)]
      [Node.ofElement (.group g')] := by
    rw [Node.ofElement, Node.ofElement, Group.ofGroup_eq, Group.ofGroup_eq, hparenthesis]
    exact (hresumes.prepend hbegin).branch _ hkind _ _
  exact of_term (hgroup.append hq he hq' he') hns (Nat.le_trans he hq.reaches.pos_le) hstands
    (Nat.le_trans he' hq'.reaches.pos_le)

variable {innerMid : Cursor} {o : GroupOpening} {innerTerms : List Term}
  {innerOthers : List Branch} {closing : Option Span} {q : Option Quantifier}

/-- A group that is cut in its opening is resumed with its parenthesis. -/
theorem of_opening (ho : GroupOpening.Takes a inside o)
    (hbody : Derives true true inside innerTerms innerMid innerOthers bodyEnd)
    (hclose : Closes bodyEnd close closing next q) (hns : Node.Tiles next ns later)
    (h : Alike 0 0 cut.rest [] a c) (ha : a.Reaches cut) (hstart : a.pos < cut.pos)
    (hlt : cut.pos < inside.pos) :
    Resumable nested first c cut.pos (Node.ofTerm ⟨.group ⟨a.spanTo close, o,
      ⟨⟨inside.spanTo innerMid, innerTerms⟩, innerOthers⟩, closing⟩, q⟩ ++ ns) := by
  obtain ⟨start, hopen, hparenthesis, hidentifier⟩ := Node.tiles_identifier ho
  have hcut := hopen.reaches_of_pos_lt ha hstart
  obtain ⟨start', hopen', hstartAlike⟩ := h.of_reads hopen hcut.suffix
  have ho' := GroupOpening.takes_read hopen'.1
  obtain ⟨start₂, hopen₂, hparenthesis', hidentifier'⟩ := Node.tiles_identifier ho'
  obtain rfl := hopen'.unique hopen₂
  obtain ⟨terms', mid', others', bodyEnd', hbody'⟩ :=
    exists_derives true true (GroupOpening.read c).2
  obtain ⟨close', closing', next', q', hclose'⟩ := closes_of_endsAt hbody'.endsAt
  obtain ⟨hclosing, hquantifier⟩ := Node.tiles_closes hclose
  obtain ⟨hclosing', hquantifier'⟩ := Node.tiles_closes hclose'
  have hstands : Term.StandsAt nested first c next' _ :=
    .group ho' ⟨_, _, hopen'.1, Lexeme.read_open hopen'.1⟩ hbody' hclose'
  have hbehind := hbody.tiles_ofDisjunction.append hclosing
  have hbehind' := hidentifier'.append (hbody'.tiles_ofDisjunction.append hclosing')
  cases hnode : (Node.ofGroupKind o.kind).2 with
  | none =>
    rw [hnode] at hidentifier
    cases hidentifier
    exact absurd hcut.pos_le (Nat.not_le_of_lt hlt)
  | some n =>
    rw [hnode] at hidentifier
    obtain ⟨e, he', hresumes⟩ := Node.Resumes.exists_of_node hidentifier
      (Node.isContainer_ofGroupKind hnode) hbehind hbehind' hstartAlike hcut hlt
    have he : e ≤ close.pos := Nat.le_trans hresumes.start.le_offset
      (Nat.le_trans (Nat.le_of_lt hlt) hbehind.reaches.pos_le)
    refine of_group ?_ ?_ hquantifier hns he hstands hquantifier' he'
    · rw [Group.behindParenthesis, hnode]
      exact hresumes
    · rw [hparenthesis, hparenthesis']
      exact h.shift_spanTo hstartAlike

/-- A group that is cut in its body is resumed with what is resumed of the body. -/
theorem of_body (hread : Lexeme.ReadAt a inside (.opening o)) (hvalid : o.kind.invalids = [])
    (hbody : Derives true true inside innerTerms innerMid innerOthers bodyEnd)
    (hclose : Closes bodyEnd close closing next q) (hns : Node.Tiles next ns later)
    (h : Alike 0 0 cut.rest [] a c) (hinside : inside.Reaches cut) (hle : cut.pos ≤ bodyEnd.pos)
    (hresumable : ∀ {inside'}, Alike 0 0 cut.rest [] inside inside' →
      Resumable true true inside' cut.pos
        (Node.ofTerms innerTerms ++ Node.ofBranches innerOthers)) :
    Resumable nested first c cut.pos (Node.ofTerm ⟨.group ⟨a.spanTo close, o,
      ⟨⟨inside.spanTo innerMid, innerTerms⟩, innerOthers⟩, closing⟩, q⟩ ++ ns) := by
  obtain ⟨o', inside', ho', hread', hopening, hinsideAlike⟩ :=
    GroupOpening.alike_readAt hread h .nil hinside.suffix
  rw [GroupOpening.shift_zero, GroupOpening.shift_zero] at hopening
  subst hopening
  obtain ⟨e, innerTerms', innerMid', innerOthers', bodyEnd', hbody', he', hresumes⟩ :=
    hresumable hinsideAlike
  obtain ⟨close', closing', next', q', hclose'⟩ := closes_of_endsAt hbody'.endsAt
  obtain ⟨hclosing, hquantifier⟩ := Node.tiles_closes hclose
  obtain ⟨hclosing', hquantifier'⟩ := Node.tiles_closes hclose'
  have he : e ≤ bodyEnd.pos := Nat.le_trans hresumes.start.le_offset hle
  have hidentifier : Node.invalidsOfAll (Node.ofGroupKind o.kind).2.toList = [] := by
    rw [(Node.invalidsOfAll_ofGroupKind o.kind).2, hvalid]
    rfl
  have halternatives := hresumes.ofAlternative hbody.isEmpty_of_nil (inside'.spanTo innerMid')
  have hstands : Term.StandsAt nested first c next' _ := .group ho' hread' hbody' hclose'
  refine of_group ?_ ?_ hquantifier hns (Nat.le_trans he hclosing.reaches.pos_le) hstands
    hquantifier' (Nat.le_trans he' hclosing'.reaches.pos_le)
  · exact (halternatives.ofDisjunction.append hclosing he hclosing' he').prepend hidentifier
  · rfl

/-- A group whose quantifier is cut is resumed as it is. -/
theorem of_closed {group : Group} (hread : Lexeme.ReadAt a inside (.opening o))
    (hgroup : group = ⟨a.spanTo close, o, ⟨⟨inside.spanTo innerMid, innerTerms⟩, innerOthers⟩,
      closing⟩) (hvalid : group.invalids = [])
    (hbody : Derives true true inside innerTerms innerMid innerOthers bodyEnd)
    (hclose : Closes bodyEnd close closing next q) (hns : Node.Tiles next ns later)
    (h : Alike 0 0 cut.rest [] a c) (hcut : bodyEnd.Reaches cut) (hle : bodyEnd.pos < cut.pos)
    (hlt : cut.pos < next.pos) :
    Resumable nested first c cut.pos (Node.ofTerm ⟨.group group, q⟩ ++ ns) := by
  cases hclose with
  | missing => exact absurd hcut.pos_le (Nat.not_le_of_lt hlt)
  | closed hparenthesis hq =>
    have hclose := hparenthesis.reaches_of_pos_lt hcut hle
    subst hgroup
    obtain ⟨-, hbodyValid, -⟩ := Group.invalids_eq_nil hvalid
    obtain ⟨bodyEnd', hbodyEnd, hgroup⟩ :=
      Term.StandsAt.alike_closed hread hbody hbodyValid h .nil hcut.suffix
    obtain ⟨close', hparenthesis', hcloseAlike⟩ := hbodyEnd.of_reads hparenthesis hclose.suffix
    have hq' := Quantifier.follows_readOptional close'
    have hstands := hgroup nested first hparenthesis' hcloseAlike.pos_eq hq'
    exact of_quantifier hvalid hq hns hclose hlt hcloseAlike hq' hstands

/-! ## Terms and bars -/

/-- A term before the cut is read again, and stands before what is resumed behind it. -/
theorem of_term_before {u : Term} (hstands : u.StandsAt nested first a next)
    (hvalid : u.element.invalids = []) (h : Alike 0 0 cut.rest [] a c) (hcut : next.Reaches cut)
    (hrest : ∀ {next'}, Alike 0 0 cut.rest [] next next' →
      Resumable nested false next' cut.pos ns) :
    Resumable nested first c cut.pos (Node.ofTerm u ++ ns) := by
  have huncut : Uncut cut.rest [] u.element.invalids := by
    rw [hvalid]
    exact Uncut.nil _ _
  obtain ⟨next', hstands', hnext⟩ := hstands.alike_zero h .nil hcut.suffix huncut
  obtain ⟨e, terms, mid, others, later, hd, he, hresumes⟩ := hrest hnext
  have hnone : Node.invalidsOfAll (Node.ofTerm u) = [] := by
    rw [Node.invalidsOfAll_ofTerm, hvalid]
    rfl
  refine ⟨e, u :: terms, mid, others, later, hstands'.derives hd, he, ?_⟩
  rw [Node.ofTerms_cons, List.append_assoc]
  exact hresumes.prepend hnone

/-- A bar that is read again stands before what is resumed behind it. -/
theorem bar {bar span : Span} {terms : List Term} {others : List Branch} {offset : Nat}
    (hbar : c.Reads ['|'] next) (hspan : bar = c.spanTo next)
    (hempty : terms = [] → span.isEmpty = true)
    (h : Resumable nested true next offset (Node.ofTerms terms ++ Node.ofBranches others)) :
    Resumable nested first c offset
      (Node.ofTerms [] ++ Node.ofBranches (⟨bar, ⟨span, terms⟩⟩ :: others)) := by
  obtain ⟨e, terms', mid, others', later, hd, he, hresumes⟩ := h
  have hnone : Node.invalidsOfAll [Node.leaf .disjunctionDelimiter (c.spanTo next)] = [] := by simp
  refine ⟨e, [], c, _, later, .bar hbar (Lexeme.readAt_bar hbar) hd, he, ?_⟩
  rw [hspan, Node.ofTerms, Node.ofBranches, Node.ofBranches]
  exact (hresumes.ofAlternative hempty _).prepend hnone

end Resumable

/-- Of a pattern that makes sense, what is derived is `Resumable` where the pattern is cut. -/
theorem Derives.resumable {mid : Cursor} {terms : List Term} {others : List Branch}
    (hd : Derives nested first a terms mid others later)
    (hvalid : Term.invalidsOfAll terms ++ Branch.invalidsOfAll others = [])
    (h : Alike 0 0 cut.rest [] a c) (ha : a.Reaches cut) (hcut : cut.Reaches later) :
    Resumable nested first c cut.pos (Node.ofTerms terms ++ Node.ofBranches others) := by
  -- what ends before the cut is read again, and what begins behind it can be anything
  induction hd generalizing c with
  | stop hend => exact .of_cut .nil h ha hcut.pos_le
  | @bar nested first a next mid later terms others hbar hread hrest ih =>
    have hwhole : Derives nested first a [] a _ later := .bar hbar hread hrest
    by_cases hle : cut.pos ≤ a.pos
    · exact .of_cut hwhole.tiles_append h ha hle
    have hnext := hbar.reaches_of_pos_lt ha (Nat.lt_of_not_le hle)
    obtain ⟨next', hbar', hnextAlike⟩ := h.of_reads hbar hnext.suffix
    exact .bar hbar' (h.shift_spanTo hnextAlike) hrest.isEmpty_of_nil
      (ih hvalid hnextAlike hnext hcut)
  | @term nested first a next mid later l u terms others hread hterm hrest ih =>
    have hwhole : Derives nested first a (u :: terms) mid others later := .term hread hterm hrest
    by_cases hle : cut.pos ≤ a.pos
    · exact .of_cut hwhole.tiles_append h ha hle
    obtain ⟨hvalidTerm, hvalidRest⟩ := Term.invalids_eq_nil_of_cons hvalid
    rw [Node.ofTerms_cons, List.append_assoc]
    by_cases hlater : next.pos ≤ cut.pos
    · have hnext := hread.reaches.of_pos_le ha hlater
      exact .of_term_before (.lexeme hread hterm) hvalidTerm h hnext
        fun halike => ih hvalidRest halike hnext hcut
    · obtain ⟨A, q, rfl, rfl, hvalidAtom⟩ := Lexeme.exists_atom hterm hvalidTerm
      exact .of_atom hread hvalidAtom hrest.tiles_append h ha (Nat.lt_of_not_le hle)
        (Nat.lt_of_not_le hlater)
  | @group nested first a inside innerMid bodyEnd close next mid later o innerTerms terms
      innerOthers others closing q ho hread hbody hclose hrest ihbody ih =>
    have hstands : Term.StandsAt nested first a next _ := .group ho hread hbody hclose
    by_cases hle : cut.pos ≤ a.pos
    · exact .of_cut (hstands.derives hrest).tiles_append h ha hle
    obtain ⟨hvalidTerm, hvalidRest⟩ := Term.invalids_eq_nil_of_cons hvalid
    rw [Node.ofTerms_cons, List.append_assoc]
    have hopening := hread.reaches
    have hbodyReach := hopening.trans hbody.reaches_later
    have hns := hrest.tiles_append
    by_cases hlater : next.pos ≤ cut.pos
    · have hnext := (hbodyReach.trans hclose.reaches).of_pos_le ha hlater
      exact .of_term_before hstands hvalidTerm h hnext
        fun halike => ih hvalidRest halike hnext hcut
    have hltNext := Nat.lt_of_not_le hlater
    by_cases hinside : inside.pos ≤ cut.pos
    · have hinsideReach := hopening.of_pos_le ha hinside
      obtain ⟨hvalidOpening, hvalidBody, -⟩ := Group.invalids_eq_nil hvalidTerm
      by_cases hbodyEnd : cut.pos ≤ bodyEnd.pos
      · exact .of_body hread hvalidOpening hbody hclose hns h hinsideReach hbodyEnd
          fun hinsideAlike => ihbody hvalidBody hinsideAlike hinsideReach
            (ha.of_pos_le hbodyReach hbodyEnd)
      · have hbodyEndLt := Nat.lt_of_not_le hbodyEnd
        exact .of_closed hread rfl hvalidTerm hbody hclose hns h
          (hbodyReach.of_pos_le ha (Nat.le_of_lt hbodyEndLt)) hbodyEndLt hltNext
    · exact .of_opening ho hbody hclose hns h ha (Nat.lt_of_not_le hle) (Nat.lt_of_not_le hinside)

end RegexTree
