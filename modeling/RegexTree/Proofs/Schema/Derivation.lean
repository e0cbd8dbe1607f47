import RegexTree.Proofs.Schema.Parts
import RegexTree.Tree

/-! # Trees conform to the schema
The nodes of a disjunction are followed along its derivation: those of the terms fit any number of
units with their quantifiers, and those of the further alternatives fit any number of bars with an
alternative behind each. So the root and all nodes below it conform to the schema
(`Tree.conforms_of_mem`). -/

namespace RegexTree

namespace Node.Fit

variable {source : String} {c later : Cursor}

/-! ## Terms -/

/-- The node of a quantifier that may follow fits what may be left out. -/
theorem ofFollows {q : Option Quantifier} (hc : (Cursor.ofString source).Reaches c)
    (h : Quantifier.Follows c later q) :
    Fit source (q.map Node.ofQuantifier).toList
      (Label.optional (Label.oneOf Label.quantifiers)) := by
  cases h with
  | absent => exact absent
  | present hq => exact present (ofQuantifier hc hq)

/-- The nodes of a `Term` without a group fit a unit and its quantifier. -/
theorem ofTerm {nested first : Bool} {t : Term} (hc : (Cursor.ofString source).Reaches c)
    (h : Term.Takes nested first c later t) :
    Fit source (Node.ofTerm t)
      (Label.oneOf Label.units * Label.optional (Label.oneOf Label.quantifiers)) := by
  cases h with
  | atom ha hq =>
    obtain ⟨x, w, hread⟩ := ha.reads
    exact (ofAtom hc ha).cons (ofFollows (hc.trans hread.reaches) hq)
  | strayClosing houtside hread hq =>
    have hinvalid := ofInvalid hc hread (.unknownConstruct (by decide))
    exact (hinvalid.oneOf (by decide)).cons (ofFollows (hc.trans hread.reaches) hq)
  | strayQuantifier hq =>
    obtain ⟨x, w, -, hread⟩ := hq.reads
    have htext := hq.quantifier_of_reads hread
    -- the two reasons are told apart by whether a term stands before the quantifier
    cases first with
    | true => exact ((ofInvalid hc hread (.badQuantifier htext)).oneOf (by decide)).cons absent
    | false => exact ((ofInvalid hc hread (.stackedQuantifier htext)).oneOf (by decide)).cons absent
  | malformedCount hw hread =>
    rcases hread with hread | hread
    · exact ((ofInvalid hc hread (.closedCount hw)).oneOf (by decide)).cons absent
    · exact ((ofInvalid hc hread (.malformedCount hw)).oneOf (by decide)).cons absent
  | brace hread =>
    exact ((ofInvalid hc hread (.unknownConstruct (by decide))).oneOf (by decide)).cons absent

/-! ## Groups -/

/-- The nodes of a `GroupKind` fit what belongs to its kind of group. -/
theorem ofGroupKind {kind : GroupKind} (hc : (Cursor.ofString source).Reaches c)
    (h : GroupKind.Takes c later kind) : ∃ P, (Node.ofGroupKind kind).1.rule = Label.group P ∧
      Fit source (Node.ofGroupKind kind).2.toList P := by
  cases h with
  | plain hword hread =>
    rcases GroupKind.eq_of_mem_identifiers hword with
      ⟨rfl, rfl⟩ | ⟨rfl, rfl⟩ | ⟨rfl, rfl⟩ | ⟨rfl, rfl⟩ | ⟨rfl, rfl⟩
    all_goals exact ⟨_, rfl, fixed _ (by decide) hc hread⟩
  | named hopen hne hw hread hclose hspan =>
    have hname := name (by decide) hc hopen hne hw hread hclose hspan
    exact ⟨_, rfl, branch _ _ rfl hname⟩
  | badName hopen hw hread =>
    have hinvalid := ofInvalid hc (hopen.trans hread) (.badGroupName hw)
    exact ⟨_, rfl, hinvalid.oneOf (by decide)⟩
  | unknown hread =>
    have hinvalid := ofInvalid hc hread (.unknownConstruct (by decide))
    exact ⟨_, rfl, hinvalid.oneOf (by decide)⟩

/-- The parenthesis and the identifier of a `GroupOpening` fit what belongs to its kind. -/
theorem ofOpening {o : GroupOpening} (hc : (Cursor.ofString source).Reaches c)
    (h : GroupOpening.Takes c later o) : ∃ P, (Node.ofGroupKind o.kind).1.rule = Label.group P ∧
      Fit source [Node.leaf .groupBegin o.parenthesis] (Label.once (.node .groupBegin)) ∧
      Fit source (Node.ofGroupKind o.kind).2.toList P := by
  cases h with
  | anonymous hread hnext => exact ⟨1, rfl, fixed _ (by decide) hc hread, nil⟩
  | identified hopen hkind =>
    obtain ⟨P, hrule, hidentifier⟩ := ofGroupKind (hc.trans hopen.reaches) hkind
    exact ⟨P, hrule, fixed _ (by decide) hc hopen, hidentifier⟩

/-- The end of a group fits, and so does the quantifier of the group. -/
theorem ofCloses {close : Cursor} {closing : Option Span} {q : Option Quantifier}
    (hc : (Cursor.ofString source).Reaches c) (h : Closes c close closing later q) :
    Fit source [Node.ofClosing .groupEnd .unterminatedGroup close.pos closing]
        (Label.oneOf [.node .groupEnd, .invalid .unterminatedGroup]) ∧
      Fit source (q.map Node.ofQuantifier).toList
        (Label.optional (Label.oneOf Label.quantifiers)) := by
  cases h with
  | closed hclose hq =>
    exact ⟨ofClosing .groupEnd (by decide) .unterminatedGroup hc (.present hclose),
      ofFollows (hc.trans hclose.reaches) hq⟩
  | missing hend =>
    have hnext : c.rest.head? ≠ some ')' := by simp [hend]
    exact ⟨ofClosing .groupEnd (by decide) .unterminatedGroup hc (.absent hnext), absent⟩

/-- The kind of a group is one of `NodeKind.groups`. -/
theorem kind_mem_groups (kind : GroupKind) : (Node.ofGroupKind kind).1 ∈ NodeKind.groups := by
  cases kind <;> exact List.contains_iff_mem.mp rfl

end Node.Fit

/-! ## Disjunctions -/

namespace Derives

variable {source : String} {nested first : Bool} {c mid later : Cursor} {terms : List Term}
  {others : List Branch}

/-- The node of an alternative fits its kind if the nodes of its terms fit the rule: where there are
none, nothing was read. -/
theorem fit_ofAlternative (h : Derives nested first c terms mid others later)
    (hc : (Cursor.ofString source).Reaches c)
    (hterms : Node.Fit source (Node.ofTerms terms) NodeKind.pattern.rule) :
    Node.Fit source [Node.ofAlternative ⟨c.spanTo mid, terms⟩] (Label.once (.node .pattern)) := by
  refine Node.Fit.of_isOrdinary rfl hterms fun hempty => ?_
  have htiles := h.tiles.1
  rw [hempty] at htiles
  cases htiles
  rw [hc.toList_textIn (.refl c)]
  exact .pattern

/-- The nodes of terms fit the rule of alternatives, and the nodes of further alternatives and their
bars fit what may follow an alternative. -/
theorem fit (h : Derives nested first c terms mid others later)
    (hc : (Cursor.ofString source).Reaches c) :
    Node.Fit source (Node.ofTerms terms) NodeKind.pattern.rule ∧
      Node.Fit source (Node.ofBranches others)
        (.star (Label.once (.node .disjunctionDelimiter) * Label.once (.node .pattern))) := by
  induction h with
  | stop hend => exact ⟨.star_nil, .star_nil⟩
  | bar hbar hread hrest ih =>
    have hnext := hc.trans hbar.reaches
    obtain ⟨hterms, hothers⟩ := ih hnext
    have hdelimiter := Node.Fit.fixed .disjunctionDelimiter (by decide) hc hbar
    exact ⟨.star_nil,
      (hdelimiter.cons (hrest.fit_ofAlternative hnext hterms)).star_append hothers⟩
  | term hread hterm hrest ih =>
    obtain ⟨hterms, hothers⟩ := ih (hc.trans hread.reaches)
    rw [Node.ofTerms_cons]
    exact ⟨(Node.Fit.ofTerm hc (hread.takes_term hterm)).star_append hterms, hothers⟩
  | @group _ _ c inside innerMid bodyEnd close next mid later o innerTerms terms innerOthers others
      closing q ho hread hbody hclose hrest ihbody ih =>
    have hinside := hc.trans hread.reaches
    have hbodyEnd := hinside.trans hbody.reaches_later
    obtain ⟨hinner, hinnerOthers⟩ := ihbody hinside
    obtain ⟨hterms, hothers⟩ := ih (hbodyEnd.trans hclose.reaches)
    obtain ⟨P, hrule, hbegin, hidentifier⟩ := Node.Fit.ofOpening hc ho
    obtain ⟨hend, hquantifier⟩ := Node.Fit.ofCloses hbodyEnd hclose
    -- the body first, then the group around it, then the quantifier and the terms behind it
    have hdisjunction := Node.Fit.branch .disjunction
      (Disjunction.span ⟨⟨inside.spanTo innerMid, innerTerms⟩, innerOthers⟩) rfl
      ((hbody.fit_ofAlternative hinside hinner).cons hinnerOthers)
    have hchildren := hbegin.cons (hidentifier.append (hdisjunction.cons hend))
    rw [← Label.group, ← hrule] at hchildren
    have hmem := Node.Fit.kind_mem_groups o.kind
    have hordinary : ∀ kind ∈ NodeKind.groups, kind.isOrdinary = true := by decide
    have hunits : ∀ kind ∈ NodeKind.groups, Label.node kind ∈ Label.units := by decide
    have hgroup := Node.Fit.branch _ (c.spanTo close) (hordinary _ hmem) hchildren
    rw [Node.ofTerms_cons]
    exact ⟨((hgroup.oneOf (hunits _ hmem)).cons hquantifier).star_append hterms, hothers⟩

/-- The node of a `Disjunction` fits its kind. -/
theorem fit_ofDisjunction (h : Derives nested first c terms mid others later)
    (hc : (Cursor.ofString source).Reaches c) :
    Node.Fit source [Node.ofDisjunction ⟨⟨c.spanTo mid, terms⟩, others⟩]
      (Label.once (.node .disjunction)) := by
  obtain ⟨hterms, hothers⟩ := h.fit hc
  exact Node.Fit.branch _ _ rfl ((h.fit_ofAlternative hc hterms).cons hothers)

end Derives

/-! ## Trees -/

/-- The nodes of a pattern's tree conform to the schema. -/
theorem Tree.conforms_of_mem {source : String} {n : Node} (hn : n ∈ (parse source).root.preorder) :
    n.Conforms source := by
  obtain ⟨terms, mid, others, later, h, -⟩ := Regex.exists_derives source
  have hfit := Node.Fit.branch .regex ⟨0, source.utf8ByteSize⟩ rfl
    (h.fit_ofDisjunction (.refl (.ofString source)))
  rw [h.root_eq] at hn
  exact hfit.conforms n hn

/-- The tree of a pattern is a derivation of the schema: its root is of the kind of roots, and every
node of it has the children and the text that the schema has for nodes of its kind. -/
theorem Tree.parse_conforms (source : String) :
    (parse source).root.kind = .regex ∧
      ∀ n ∈ (parse source).root.preorder, n.Conforms source :=
  ⟨rfl, fun _ hn => conforms_of_mem hn⟩

/-- A group needs an end, or the stand-in for a missing one. -/
example : [.node .groupBegin, .node .disjunction] ∉
    NodeKind.anonymousCapturingGroup.rule.matches' := by
  decide

end RegexTree
