import RegexTree.Proofs.Partition
import RegexTree.Proofs.Repair.Missing

/-! # Findings
What makes no sense in a pattern shows in three ways: as the diagnostics of its tree, as the spans
that the typed tree marks part by part, and as the messages while the pattern is read. A `Finding`
is an entry of all three. The main statement says that the three are in step, entry by entry, and
that the entries stand in source order without overlaps. -/

namespace RegexTree

/-- What makes no sense in a typed tree, together with the part that is cut off there. -/
inductive Finding where
  /-- A span that makes no sense. -/
  | invalid (i : Invalid)
  /-- A class without its closing bracket. -/
  | openClass (c : CharacterClass)
  /-- A group without its closing parenthesis. -/
  | openGroup (g : Group)

namespace Finding

/-- The invalid span of a finding: what is cut off has an empty one at its end. -/
def diagnostic : Finding → Invalid
  | invalid i => i
  | openClass c => ⟨.emptyAt c.span.stop, .unterminatedClass⟩
  | openGroup g => ⟨.emptyAt g.span.stop, .unterminatedGroup⟩

/-- The `Event` of a finding while the pattern is read: what is cut off is known by its
beginning. -/
def event : Finding → Event
  | invalid i => .invalid i
  | openClass c => .unterminatedClass c.opening
  | openGroup g => .unterminatedGroup g.opening.parenthesis

/-- The wording of a finding in a source. -/
def message (source : String) : Finding → String
  | invalid i =>
    "invalid " ++ i.reason.tag ++ " at " ++ i.span.display ++ ": " ++
      Text.quoted (i.span.textIn source)
  | openClass c => "unterminated class opened at " ++ c.opening.display
  | openGroup g => "unterminated group opened at " ++ g.opening.parenthesis.display

/-- The wording of a finding is that of its event. -/
theorem message_event (source : String) (f : Finding) :
    f.event.message source = f.message source := by
  cases f <;> rfl

end Finding

/-! ## Findings of a typed tree -/

/-- The findings in a `CharacterClass`: in its members, and then that it is cut off. -/
def CharacterClass.findings (c : CharacterClass) : List Finding :=
  (c.members.flatMap (·.invalids)).map .invalid ++ if c.isClosed then [] else [.openClass c]

/-- The findings in an atom. -/
def Atom.findings : Atom → List Finding
  | .characterClass c => c.findings
  | .invalid i => [.invalid i]
  | _ => []

mutual

/-- The findings in a `Disjunction`. -/
def Disjunction.findings : Disjunction → List Finding
  | ⟨first, others⟩ => Alternative.findings first ++ Branch.findingsOfAll others

/-- The findings behind bars. -/
def Branch.findingsOfAll : List Branch → List Finding
  | [] => []
  | ⟨_, alternative⟩ :: others => Alternative.findings alternative ++ Branch.findingsOfAll others

/-- The findings in an alternative. -/
def Alternative.findings : Alternative → List Finding
  | ⟨_, terms⟩ => Term.findingsOfAll terms

/-- The findings in terms. -/
def Term.findingsOfAll : List Term → List Finding
  | [] => []
  | ⟨element, _⟩ :: terms => Element.findings element ++ Term.findingsOfAll terms

/-- The findings in an `Element`. -/
def Element.findings : Element → List Finding
  | .atom a => a.findings
  | .group g => Group.findings g

/-- The findings in a group: its identifier, its body, and then that it is cut off. -/
def Group.findings : Group → List Finding
  | ⟨span, opening, body, closing⟩ =>
    opening.kind.invalids.map .invalid ++ Disjunction.findings body ++
      if closing.isSome then [] else [.openGroup ⟨span, opening, body, closing⟩]

end

/-- The findings in a pattern, in source order. -/
def Regex.findings (r : Regex) : List Finding := r.body.findings

/-- The findings in terms are those in the first element and those in the others. -/
theorem Term.findingsOfAll_cons (t : Term) (terms : List Term) :
    findingsOfAll (t :: terms) = t.element.findings ++ findingsOfAll terms := by
  cases t
  rfl

/-! ## Findings are what makes no sense -/

/-- The findings in a class are what makes no sense in it. -/
theorem CharacterClass.map_findings (c : CharacterClass) :
    c.findings.map (·.diagnostic) = c.invalids := by
  rw [findings, invalids, missingBracket, List.map_append, List.map_map]
  have hmembers : (fun f => f.diagnostic) ∘ Finding.invalid = id := rfl
  rw [hmembers, List.map_id]
  cases c.isClosed <;> rfl

/-- The findings in an atom are what makes no sense in it. -/
theorem Atom.map_findings (a : Atom) : a.findings.map (·.diagnostic) = a.invalids := by
  cases a with
  | characterClass c => exact c.map_findings
  | _ => rfl

/-- The findings in the identifier of a group are what makes no sense in it. -/
theorem GroupKind.map_findings (kind : GroupKind) :
    (kind.invalids.map Finding.invalid).map (·.diagnostic) = kind.invalids := by
  cases kind <;> rfl

mutual

/-- The findings in a disjunction are what makes no sense in it. -/
theorem Disjunction.map_findings :
    (d : Disjunction) → d.findings.map (·.diagnostic) = d.invalids
  | ⟨first, others⟩ => by
    rw [Disjunction.findings, Disjunction.invalids, List.map_append,
      Alternative.map_findings first, Branch.map_findingsOfAll others]

/-- The findings behind bars are what makes no sense there. -/
theorem Branch.map_findingsOfAll : (others : List Branch) →
    (Branch.findingsOfAll others).map (·.diagnostic) = Branch.invalidsOfAll others
  | [] => rfl
  | ⟨bar, alternative⟩ :: others => by
    rw [Branch.findingsOfAll, Branch.invalidsOfAll, List.map_append,
      Alternative.map_findings alternative, Branch.map_findingsOfAll others]

/-- The findings in an alternative are what makes no sense in it. -/
theorem Alternative.map_findings :
    (a : Alternative) → a.findings.map (·.diagnostic) = a.invalids
  | ⟨span, terms⟩ => by
    rw [Alternative.findings, Alternative.invalids, Term.map_findingsOfAll terms]

/-- The findings in terms are what makes no sense in them. -/
theorem Term.map_findingsOfAll : (terms : List Term) →
    (Term.findingsOfAll terms).map (·.diagnostic) = Term.invalidsOfAll terms
  | [] => rfl
  | ⟨element, q⟩ :: terms => by
    rw [Term.findingsOfAll, Term.invalidsOfAll, List.map_append, Element.map_findings element,
      Term.map_findingsOfAll terms]

/-- The findings in an element are what makes no sense in it. -/
theorem Element.map_findings :
    (e : Element) → e.findings.map (·.diagnostic) = e.invalids
  | .atom a => by rw [Element.findings, Element.invalids, Atom.map_findings]
  | .group g => by rw [Element.findings, Element.invalids, Group.map_findings g]

/-- The findings in a group are what makes no sense in it. -/
theorem Group.map_findings : (g : Group) → g.findings.map (·.diagnostic) = g.invalids
  | ⟨span, opening, body, closing⟩ => by
    rw [Group.findings, Group.invalids, List.map_append, List.map_append,
      GroupKind.map_findings, Disjunction.map_findings body]
    cases closing <;> rfl

end

/-- The findings in a pattern are its diagnostics. -/
theorem Regex.map_findings_parse (source : String) :
    (parse source).findings.map (·.diagnostic) = (Tree.parse source).diagnostics := by
  rw [Tree.diagnostics_parse]
  exact Disjunction.map_findings _

/-! ## Findings are what is reported -/

/-- A class reports its findings. -/
theorem CharacterClass.events_eq (c : CharacterClass) : c.events = c.findings.map (·.event) := by
  rw [events, findings, List.map_append, List.map_map]
  cases c.isClosed <;> rfl

/-- An atom reports its findings. -/
theorem Atom.events_eq (a : Atom) : a.events = a.findings.map (·.event) := by
  cases a with
  | characterClass c => exact c.events_eq
  | _ => rfl

/-- The opening of a group reports what makes no sense in its identifier. -/
theorem GroupOpening.events_eq (o : GroupOpening) :
    o.events = (o.kind.invalids.map Finding.invalid).map (·.event) := by
  obtain ⟨parenthesis, kind⟩ := o
  cases kind <;> rfl

namespace Assembly

/-- What has been reported when a pattern is read to the end from a place. -/
def reported (a : Assembly) (c : Cursor) : List Event := (a.readAll c).1.allEvents

/-- At the end of input the open groups are reported. -/
theorem reported_of_end {a : Assembly} {c : Cursor} (h : c.rest = []) :
    a.reported c = a.allEvents := by
  rw [reported, readAll_of_end h]

/-- A lexeme is added when it is read. -/
theorem reported_of_readAt {a : Assembly} {c next : Cursor} {l : Lexeme}
    (h : Lexeme.ReadAt c next l) : a.reported c = (a.push l).reported next := by
  rw [reported, readAll_of_readAt h, reported]

/-- The assembly with findings that are reported in addition. -/
def noting (a : Assembly) (fs : List Finding) : Assembly := a.report (fs.map (·.event))

/-- Findings are reported one after the other, whatever is done in between. -/
theorem noting_events (draft draft' : Draft) (groups groups' : List OpenGroup)
    (events : List Event) (fs fs' : List Finding) :
    noting ⟨draft', groups', (noting ⟨draft, groups, events⟩ fs).events⟩ fs' =
      noting ⟨draft', groups', events⟩ (fs ++ fs') := by
  simp [noting, report]

/-- An atom is added with its findings. -/
theorem addAtom_eq_noting (a : Assembly) (atom : Atom) (q : Option Quantifier) :
    a.addAtom atom q =
      noting ⟨a.draft.addTerm ⟨.atom atom, q⟩, a.groups, a.events⟩ atom.findings := by
  rw [addAtom, atom.events_eq, noting]

/-- A lexeme that is a term is added with the findings in it. -/
theorem push_eq_noting {a : Assembly} {nested first : Bool} (ha : a.Suits nested first)
    {l : Lexeme} {t : Term} (h : l.term? nested first = some t) :
    a.push l = noting ⟨a.draft.addTerm t, a.groups, a.events⟩ t.element.findings := by
  obtain ⟨rfl, rfl⟩ := ha
  cases l with
  | bar => cases h
  | opening => cases h
  | closing span q =>
    obtain ⟨draft, groups, events⟩ := a
    cases groups with
    | nil =>
      cases h
      exact addAtom_eq_noting _ _ q
    | cons g outer => cases h
  | atom atom q =>
    cases h
    exact addAtom_eq_noting a atom q
  | strayQuantifier span =>
    cases h
    exact addAtom_eq_noting a _ none
  | strayBrace i =>
    cases h
    exact addAtom_eq_noting a _ none

/-- The opening of a group is added with what makes no sense in its identifier. -/
theorem push_opening (a : Assembly) (o : GroupOpening) :
    a.push (.opening o) =
      noting ⟨.startingAt o.stop, ⟨o, a.draft⟩ :: a.groups, a.events⟩
        (o.kind.invalids.map .invalid) := by
  rw [push, o.events_eq, noting]

/-- Where a group ends, it is reported if it is cut off. -/
theorem reported_of_closes {c close later : Cursor} {closing : Option Span}
    {q : Option Quantifier} (h : Closes c close closing later q) (body outer : Draft) (g : Group)
    (groups : List OpenGroup) (events : List Event) :
    ∃ t, (⟨body, ⟨g.opening, outer⟩ :: groups, events⟩ : Assembly).reported c =
      (noting ⟨outer.addTerm t, groups, events⟩
        (if closing.isSome then [] else [.openGroup g])).reported later := by
  cases h with
  | closed hclose hq hread => exact ⟨_, reported_of_readAt hread⟩
  | missing hend =>
    -- the group is the innermost of those that are open, so it is reported before the others
    refine ⟨⟨.group g, none⟩, ?_⟩
    rw [reported_of_end hend, reported_of_end hend]
    simp [allEvents, noting, report, Finding.event]

/-- Reading to the end reports the findings in what is derived from the place and goes on where that
ends. -/
theorem reported_of_derives {nested first : Bool} {c mid later : Cursor} {terms : List Term}
    {others : List Branch} (h : Derives nested first c terms mid others later) {a : Assembly}
    (ha : a.Suits nested first) :
    ∃ draft, a.reported c = (noting ⟨draft, a.groups, a.events⟩
      (Term.findingsOfAll terms ++ Branch.findingsOfAll others)).reported later := by
  -- each lexeme adds its own findings to the report, so it varies along the derivation
  induction h generalizing a with
  | stop => exact ⟨a.draft, rfl⟩
  | @bar _ _ c next mid later terms others hbar hread hrest ih =>
    have hnext : (a.push (.bar (c.spanTo next))).Suits _ true := ⟨ha.1, rfl⟩
    obtain ⟨draft, hdraft⟩ := ih hnext
    exact ⟨draft, (reported_of_readAt hread).trans hdraft⟩
  | @term _ _ c next mid later l t terms others hread hterm hrest ih =>
    obtain ⟨draft, hdraft⟩ :=
      ih (a := noting ⟨a.draft.addTerm t, a.groups, a.events⟩ t.element.findings) ⟨ha.1, rfl⟩
    refine ⟨draft, ?_⟩
    rw [reported_of_readAt hread, push_eq_noting ha hterm, hdraft, noting_events,
      Term.findingsOfAll_cons, List.append_assoc]
    rfl
  | @group _ _ c inside innerMid bodyEnd close next mid later o innerTerms terms innerOthers others
      closing q ho hread hbody hclose hrest ihbody ih =>
    let body : Disjunction := ⟨⟨inside.spanTo innerMid, innerTerms⟩, innerOthers⟩
    -- what is reported up to the end of the group: its opening, its body and that it is cut off
    have hopened : (a.push (.opening o)).Suits true true := ⟨rfl, rfl⟩
    obtain ⟨inner, hinner⟩ := ihbody hopened
    rw [push_opening, noting_events] at hinner
    obtain ⟨t, hclosed⟩ := reported_of_closes hclose inner a.draft
      ⟨c.spanTo close, o, body, closing⟩ a.groups
      (noting ⟨inner, [], a.events⟩ (o.kind.invalids.map .invalid ++ body.findings)).events
    rw [noting_events] at hclosed
    obtain ⟨draft, hdraft⟩ := ih (a := noting ⟨a.draft.addTerm t, a.groups, a.events⟩
      (Group.findings ⟨c.spanTo close, o, body, closing⟩)) ⟨ha.1, rfl⟩
    rw [noting_events] at hdraft
    refine ⟨draft, ?_⟩
    rw [reported_of_readAt hread, push_opening, Term.findingsOfAll_cons, List.append_assoc]
    exact (hinner.trans hclosed).trans hdraft

end Assembly

/-- What is reported while a pattern is read from a place to its end are the findings in what is
read. -/
theorem Reading.events_ofCursor (pattern : String) (c : Cursor) :
    (ofCursor pattern c).events = (ofCursor pattern c).regex.findings.map (·.event) := by
  obtain ⟨terms, mid, others, later, h, hend, hregex⟩ := derives_ofCursor pattern c
  obtain ⟨draft, hdraft⟩ :=
    Assembly.reported_of_derives h (a := .startingAt c.pos) ⟨rfl, rfl⟩
  rw [Assembly.reported_of_end hend] at hdraft
  rw [hregex]
  refine Eq.trans (b := (Assembly.startingAt c.pos).reported c) rfl (hdraft.trans ?_)
  simp [Assembly.allEvents, Assembly.noting, Assembly.report, Assembly.startingAt, Regex.findings,
    Disjunction.findings, Alternative.findings]

/-! ## Reasons of findings -/

namespace Finding

/-- A finding gives the reason that a class or a group is cut off exactly if it is this class or
group, and its diagnostic is then the stand-in for the missing closing delimiter. -/
structure IsFaithful (f : Finding) : Prop where
  /-- The reason for a class. -/
  openClass_iff : f.diagnostic.reason = .unterminatedClass ↔
    ∃ c, f = .openClass c ∧ c.missingBracket = some f.diagnostic
  /-- The reason for a group. -/
  openGroup_iff : f.diagnostic.reason = .unterminatedGroup ↔
    ∃ g, f = .openGroup g ∧ g.missingParenthesis = some f.diagnostic

/-- A class that is cut off is found with the reason for this. -/
theorem isFaithful_openClass {c : CharacterClass} (h : c.isClosed = false) :
    (openClass c).IsFaithful :=
  ⟨by simp [diagnostic, CharacterClass.missingBracket, h], by simp [diagnostic]⟩

/-- A group that is cut off is found with the reason for this. -/
theorem isFaithful_openGroup {g : Group} (h : g.isClosed = false) :
    (openGroup g).IsFaithful :=
  ⟨by simp [diagnostic], by simp [diagnostic, Group.missingParenthesis, h]⟩

/-- A span that lacks nothing is found with another reason. -/
theorem isFaithful_invalid {i : Invalid} (h : i.reason.missing? = none) :
    (invalid i).IsFaithful := by
  constructor <;> refine ⟨fun hcut => ?_, by simp⟩
  · rw [show i.reason = .unterminatedClass from hcut] at h
    cases h
  · rw [show i.reason = .unterminatedGroup from hcut] at h
    cases h

/-- Spans that lack nothing are found with other reasons. -/
theorem isFaithful_of_missing {is : List Invalid} (h : Invalid.missing is = []) :
    ∀ f ∈ is.map invalid, f.IsFaithful :=
  List.forall_mem_map.mpr fun i hi => isFaithful_invalid (Invalid.missing_eq_nil_iff.mp h i hi)

end Finding

section Faithful

variable {c later : Cursor}

/-- The findings in a class are faithful. -/
theorem CharacterClass.Takes.isFaithful {s : CharacterClass} (h : Takes c later s) :
    ∀ f ∈ s.findings, f.IsFaithful := by
  refine List.forall_mem_append.mpr
    ⟨Finding.isFaithful_of_missing h.members_missing_eq_nil, fun f hf => ?_⟩
  cases hclosed : s.isClosed with
  | true => simp [hclosed] at hf
  | false =>
    obtain rfl : f = .openClass s := by simpa [hclosed] using hf
    exact Finding.isFaithful_openClass hclosed

/-- The findings in an atom are faithful. -/
theorem Atom.Takes.isFaithful {a : Atom} (h : Takes c later a) :
    ∀ f ∈ a.findings, f.IsFaithful := by
  cases h with
  | characterClass hs => exact hs.isFaithful
  | reference hr =>
    cases hr with
    | named => exact List.forall_mem_nil _
    | _ => exact List.forall_mem_singleton.mpr (Finding.isFaithful_invalid rfl)
  | escaped he =>
    cases he with
    | lone | bad => exact List.forall_mem_singleton.mpr (Finding.isFaithful_invalid rfl)
    | _ => exact List.forall_mem_nil _
  | stray => exact List.forall_mem_singleton.mpr (Finding.isFaithful_invalid rfl)
  | _ => exact List.forall_mem_nil _

/-- The findings in a term without a group are faithful. -/
theorem Term.Takes.isFaithful {nested first : Bool} {t : Term} (h : Takes nested first c later t) :
    ∀ f ∈ t.element.findings, f.IsFaithful := by
  cases h with
  | atom ha hq => exact ha.isFaithful
  | strayQuantifier =>
    cases first <;> exact List.forall_mem_singleton.mpr (Finding.isFaithful_invalid rfl)
  | _ => exact List.forall_mem_singleton.mpr (Finding.isFaithful_invalid rfl)

/-- The findings in a group are faithful if those in its body are. -/
theorem GroupOpening.Takes.isFaithful {o : GroupOpening} (h : Takes c later o) (span : Span)
    {body : Disjunction} (hbody : ∀ f ∈ body.findings, f.IsFaithful) (closing : Option Span) :
    ∀ f ∈ Group.findings ⟨span, o, body, closing⟩, f.IsFaithful := by
  refine List.forall_mem_append.mpr ⟨List.forall_mem_append.mpr
    ⟨Finding.isFaithful_of_missing h.missing_eq_nil, hbody⟩, fun f hf => ?_⟩
  cases closing with
  | some s => simp at hf
  | none =>
    obtain rfl : f = .openGroup ⟨span, o, body, none⟩ := by simpa using hf
    exact Finding.isFaithful_openGroup rfl

/-- The findings in what is derived are faithful. -/
theorem Derives.isFaithful {nested first : Bool} {mid : Cursor} {terms : List Term}
    {others : List Branch} (h : Derives nested first c terms mid others later) :
    ∀ f ∈ Term.findingsOfAll terms ++ Branch.findingsOfAll others, f.IsFaithful := by
  induction h with
  | stop => exact List.forall_mem_nil _
  | bar hbar hread hrest ih => exact ih
  | term hread hterm hrest ih =>
    rw [Term.findingsOfAll_cons, List.append_assoc]
    exact List.forall_mem_append.mpr ⟨(hread.takes_term hterm).isFaithful, ih⟩
  | @group _ _ c inside innerMid bodyEnd close next mid later o innerTerms terms innerOthers others
      closing q ho hread hbody hclose hrest ihbody ih =>
    have hinner : ∀ f ∈ Disjunction.findings ⟨⟨inside.spanTo innerMid, innerTerms⟩, innerOthers⟩,
        f.IsFaithful := ihbody
    rw [Term.findingsOfAll_cons, List.append_assoc]
    exact List.forall_mem_append.mpr ⟨ho.isFaithful _ hinner _, ih⟩

end Faithful

/-! ## Findings in source order -/

/-- The diagnostics of a pattern stand one after the other. -/
theorem Tree.pairwise_diagnostics (source : String) :
    (parse source).diagnostics.Pairwise fun i j => i.span.stop ≤ j.span.start := by
  obtain ⟨later, -, -, htiles⟩ := tiles_root source
  -- the invalid nodes are leaves, and the leaves stand one after the other
  have hleaves : ∀ n ∈ (parse source).root.invalids, n.isLeaf = true := by
    rw [invalids_parse]
    intro n hn
    obtain ⟨i, -, rfl⟩ := List.mem_map.mp hn
    rfl
  have hsublist :
      (parse source).root.invalids.Sublist (Node.leavesOfAll [(parse source).root]) := by
    rw [← List.filter_eq_self.mpr hleaves]
    exact List.filter_sublist.filter _
  have hpairwise := htiles.pairwise_leavesOfAll.sublist hsublist
  rw [invalids_parse, List.pairwise_map] at hpairwise
  rw [diagnostics_parse]
  exact hpairwise

/-- A diagnostic of a pattern ends no earlier than it begins. -/
theorem Tree.start_le_stop_of_mem_diagnostics {source : String} {i : Invalid}
    (h : i ∈ (parse source).diagnostics) : i.span.start ≤ i.span.stop := by
  have hnode : Node.ofInvalid i ∈ (parse source).root.invalids := by
    rw [invalids_parse, ← diagnostics_parse]
    exact List.mem_map_of_mem h
  exact start_le_stop (List.mem_filter.mp hnode).1

/-- The diagnostics of a pattern, what makes no sense in its typed tree, and the messages while it
is read are in step: all three are made from the findings in the typed tree, entry by entry. An
entry says that a class or a group is cut off exactly if the finding is such a part, and its message
then names the beginning of this part. The entries stand in source order without overlaps. -/
theorem Regex.findings_agree (source : String) :
    (Tree.parse source).diagnostics = (parse source).findings.map (·.diagnostic) ∧
      (parse source).invalids = (parse source).findings.map (·.diagnostic) ∧
      (events source).map (·.message source) = (parse source).findings.map (·.message source) ∧
      (∀ f ∈ (parse source).findings, f.IsFaithful) ∧
      (∀ i ∈ (Tree.parse source).diagnostics, i.span.start ≤ i.span.stop) ∧
      (Tree.parse source).diagnostics.Pairwise fun i j => i.span.stop ≤ j.span.start := by
  have hfindings := map_findings_parse source
  have hmessages : (events source).map (·.message source) =
      (parse source).findings.map (·.message source) := by
    rw [events, Reading.ofPattern, Reading.events_ofCursor, List.map_map]
    exact List.map_congr_left fun f _ => f.message_event source
  have hfaithful : ∀ f ∈ (parse source).findings, f.IsFaithful := by
    obtain ⟨terms, mid, others, later, h, -, -⟩ := exists_derives source
    rw [findings, h.body_eq, Disjunction.findings, Alternative.findings]
    exact h.isFaithful
  exact ⟨hfindings.symm, (Tree.diagnostics_parse source).symm.trans hfindings.symm, hmessages,
    hfaithful, fun i hi => Tree.start_le_stop_of_mem_diagnostics hi,
    Tree.pairwise_diagnostics source⟩

end RegexTree
