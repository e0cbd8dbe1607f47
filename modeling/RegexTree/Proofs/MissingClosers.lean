import RegexTree.Proofs.InvalidTexts
import RegexTree.Proofs.QuantifierAttachment
import RegexTree.Proofs.Repair.Missing

/-! # Stand-ins for missing closing delimiters
A group or a class that the input cuts off ends with a stand-in for its closing delimiter. The main
statement says where these stand-ins are (`Tree.IsCutOnlyAtEnd`): they have no width, as no other
invalid node has, and all of them stand at the end of the pattern, each as the last child of what it
would close. At most one class is cut off, and what is cut off is in groups that are cut off too. -/

namespace RegexTree

/-! ## Reasons for stand-ins -/

namespace Reason

/-- The reasons that say that a closing delimiter is missing. -/
def unterminated : List Reason := [unterminatedGroup, unterminatedClass]

/-- The kinds of nodes whose closing delimiter is missing where a span has the reason. -/
def bracketed : Reason → List NodeKind
  | unterminatedGroup => NodeKind.groups
  | unterminatedClass => [.characterClass]
  | _ => []

/-- Something is missing (`Reason.missing?`) exactly where the reason says so. -/
theorem mem_unterminated_iff {r : Reason} : r ∈ unterminated ↔ r.missing? ≠ none := by
  cases r <;> decide

/-- The text of an invalid leaf is empty exactly if a closing delimiter is missing there. -/
theorem Token.eq_nil_iff {r : Reason} {w : List Char} (h : r.Token w) :
    w = [] ↔ r ∈ unterminated := by
  have hquantifier : ∀ v, Grammar.Quantifier v [] → v ≠ [] := by
    rintro v hv rfl
    obtain ⟨x, hx, -⟩ := hv.head
    cases hx
  cases h with
  | unterminatedGroup | unterminatedClass => exact iff_of_true rfl (by decide)
  | badQuantifier hw | stackedQuantifier hw => exact iff_of_false (hquantifier _ hw) (by decide)
  | _ => exact iff_of_false (by simp) (by decide)

end Reason

/-- The node ends with an invalid leaf for the reason. -/
def Node.isCutFor (r : Reason) (n : Node) : Bool := n.children.getLast?.any (·.reason == some r)

/-- A node is cut off for a reason if its last child says so. -/
theorem Node.isCutFor_iff {r : Reason} {n : Node} :
    n.isCutFor r = true ↔ ∃ m, n.children.getLast? = some m ∧ m.reason = some r := by
  simp [isCutFor, Option.any_eq_true]

/-! ## The schema puts stand-ins last -/

namespace Label

/-- Nothing stands behind a label in what matches an expression, as far as the expression tells. -/
def endsOnly (s : Label) : RegularExpression Label → Bool
  | .zero => true
  | .epsilon => true
  | .char _ => true
  | .plus P Q => endsOnly s P && endsOnly s Q
  | .comp P Q => !(letters P).contains s && endsOnly s Q
  | .star P => !(letters P).contains s

/-- If an expression tells that nothing stands behind a label (`endsOnly`), nothing does. -/
theorem eq_nil_of_endsOnly {s : Label} {P : RegularExpression Label} (h : endsOnly s P = true)
    {w before after : List Label} (hw : w ∈ P.matches') (hsplit : w = before ++ s :: after) :
    after = [] := by
  have hmem : s ∈ w := by
    rw [hsplit]
    simp
  induction P generalizing w before with
  | zero => cases hw
  | epsilon =>
    obtain rfl : w = [] := hw
    cases hmem
  | char r =>
    obtain rfl : w = [r] := hw
    have hlength := congrArg List.length hsplit
    simp only [List.length_append, List.length_cons, List.length_nil] at hlength
    exact List.length_eq_zero_iff.mp (by omega)
  | plus P Q ihP ihQ =>
    obtain ⟨hP, hQ⟩ := Bool.and_eq_true_iff.mp h
    rcases hw with hw | hw
    · exact ihP hP hw hsplit hmem
    · exact ihQ hQ hw hsplit hmem
  | comp P Q ihP ihQ =>
    obtain ⟨hP, hQ⟩ := Bool.and_eq_true_iff.mp h
    obtain ⟨v, hv, u, hu, rfl⟩ := Language.mem_mul.mp hw
    have hnot : s ∉ v := fun hs => by
      have hletter := mem_letters hv s hs
      simp [hletter] at hP
    -- the label is none of the first part, so it stands in the second
    rcases List.append_eq_append_iff.mp hsplit with ⟨t, rfl, htail⟩ | ⟨t, rfl, htail⟩
    · exact ihQ hQ hu htail (by rw [htail]; simp)
    · cases t with
      | nil =>
        have hsecond : u = [] ++ s :: after := htail.symm
        exact ihQ hQ hu hsecond (by rw [hsecond]; exact List.mem_cons_self)
      | cons r t =>
        obtain ⟨rfl, -⟩ := List.cons.inj htail
        exact absurd (by simp) hnot
  | star P ih =>
    have hletter : s ∈ letters P := mem_letters hw s hmem
    simp [endsOnly, hletter] at h

/-- What matches the expression of a group ends with its closing parenthesis or the stand-in for
it. -/
theorem exists_end_of_group {P : RegularExpression Label} {w : List Label}
    (hw : w ∈ (group P).matches') :
    ∃ init s, w = init ++ [s] ∧ s ∈ [.node .groupEnd, .invalid .unterminatedGroup] := by
  obtain ⟨x, -, v, hv, rfl⟩ := Language.mem_mul.mp hw
  obtain ⟨y, -, u, hu, rfl⟩ := Language.mem_mul.mp hv
  obtain ⟨z, -, t, ht, rfl⟩ := Language.mem_mul.mp hu
  obtain ⟨s, hs, rfl⟩ := mem_oneOf.mp ht
  exact ⟨x ++ (y ++ z), s, by simp, hs⟩

end Label

namespace NodeKind

/-- Where a rule has a stand-in, it has it last, and for a kind that has the delimiter. -/
theorem rule_of_mem_unterminated : ∀ kind : NodeKind, ∀ r ∈ Reason.unterminated,
    Label.endsOnly (.invalid r) kind.rule = true ∧
      (.invalid r ∈ Label.letters kind.rule → kind ∈ r.bracketed) := by
  intro kind
  cases kind <;> decide

/-- The rule of a group is that of its identifier between the delimiters of groups
(`Label.group`). -/
theorem exists_rule_eq_group : ∀ kind ∈ groups, ∃ P, kind.rule = Label.group P := by
  intro kind hkind
  cases kind <;> first | exact ⟨_, rfl⟩ | exact absurd hkind (by decide)

end NodeKind

namespace Node

variable {source : String} {n m : Node} {r : Reason}

/-- A node with a reason has it as its `label`. -/
theorem label_of_reason (h : n.reason = some r) : n.label source = .invalid r := by
  rw [label, h]

/-- Only a node with the reason looks like it. -/
theorem reason_of_label (h : n.label source = .invalid r) : n.reason = some r := by
  rw [label] at h
  split at h
  · rename_i reason hreason
    rw [hreason, Label.invalid.inj h]
  · split at h <;> cases h

/-- What looks like a node of a kind is one, and makes sense. -/
theorem of_label {kind : NodeKind} (h : n.label source = .node kind) :
    n.reason = none ∧ n.kind = kind := by
  rw [label] at h
  split at h
  · cases h
  · rename_i hreason
    split at h
    · cases h
    · exact ⟨hreason, Label.node.inj h⟩

/-- A stand-in, whose reason is `unterminated`, is the last child of a node that it closes. -/
theorem Conforms.last_of_unterminated (h : n.Conforms source) (hr : r ∈ Reason.unterminated)
    {before after : List Node} (hsplit : n.children = before ++ m :: after)
    (hm : m.reason = some r) : n.kind ∈ r.bracketed ∧ after = [] := by
  obtain ⟨hends, hletters⟩ := n.kind.rule_of_mem_unterminated r hr
  have hmatch := h.children
  have hlabels : n.children.map (label source) =
      before.map (label source) ++ .invalid r :: after.map (label source) := by
    rw [hsplit, List.map_append, List.map_cons, label_of_reason hm]
  refine ⟨hletters (Label.mem_letters hmatch _ ?_), ?_⟩
  · rw [hlabels]
    simp
  · exact List.map_eq_nil_iff.mp (Label.eq_nil_of_endsOnly hends hmatch hlabels)

/-- A group that is not cut off ends with its closing parenthesis. -/
theorem Conforms.exists_groupEnd (h : n.Conforms source) (hgroup : n.kind ∈ NodeKind.groups)
    (hcut : ¬ n.isCutFor .unterminatedGroup = true) :
    ∃ init e, n.children = init ++ [e] ∧ e.reason = none ∧ e.kind = .groupEnd := by
  obtain ⟨P, hrule⟩ := n.kind.exists_rule_eq_group hgroup
  have hmatch := h.children
  rw [hrule] at hmatch
  obtain ⟨labels, s, hlabels, hs⟩ := Label.exists_end_of_group hmatch
  obtain ⟨init, last, hchildren, -, hlast⟩ := List.map_eq_append_iff.mp hlabels
  obtain ⟨e, rfl, he⟩ := List.map_eq_singleton_iff.mp hlast
  refine ⟨init, e, hchildren, ?_⟩
  rcases List.mem_pair.mp hs with hs | hs
  · exact of_label (he.trans hs)
  · refine absurd (isCutFor_iff.mpr ⟨e, ?_, reason_of_label (he.trans hs)⟩) hcut
    rw [hchildren, List.getLast?_concat]

/-- A closing parenthesis is a leaf with this text. -/
theorem Conforms.of_groupEnd (h : n.Conforms source) (hreason : n.reason = none)
    (hkind : n.kind = .groupEnd) : n.children = [] ∧ (n.textIn source).toList = [')'] := by
  have hmatch := h.children
  rw [hkind] at hmatch
  have hleaf : n.children = [] := List.map_eq_nil_iff.mp hmatch
  refine ⟨hleaf, ?_⟩
  have htext := h.text hleaf hreason
  rw [hkind] at htext
  generalize (n.textIn source).toList = w at htext
  cases htext with
  | fixed hw => simpa [NodeKind.fixedTokens] using hw

end Node

/-! ## What is missing is missing at the end -/

/-- If a closing delimiter is missing at the span, this is the end of the source. -/
def Invalid.MarksEnd (source : String) (i : Invalid) : Prop :=
  i.reason.missing? ≠ none → i.span = .emptyAt source.utf8ByteSize

section AtEnd

variable {source : String} {c later : Cursor}

/-- Where nothing is `missing`, no span says so. -/
theorem Invalid.marksEnd_of_missing {is : List Invalid} (h : missing is = []) :
    ∀ i ∈ is, i.MarksEnd source :=
  fun i hi hmissing => absurd (missing_eq_nil_iff.mp h i hi) hmissing

/-- A `CharacterClass` without its closing bracket goes up to the end. -/
theorem CharacterClass.Takes.marksEnd {s : CharacterClass} (h : Takes c later s)
    (hc : (Cursor.ofString source).Reaches c) : ∀ i ∈ s.invalids, i.MarksEnd source := by
  have hmembers := h.members_missing_eq_nil
  obtain ⟨v, hv⟩ := h.reads
  obtain @⟨negation, closing, members, inside, start, stop, -, -, -, -, hend⟩ := h
  refine List.forall_mem_append.mpr ⟨Invalid.marksEnd_of_missing hmembers, ?_⟩
  cases closing with
  | none =>
    have hpos := (hc.trans hv.reaches).pos_of_end (hend rfl)
    exact List.forall_mem_singleton.mpr fun _ => congrArg Span.emptyAt hpos
  | some span => exact List.forall_mem_nil _

/-- An `Atom` that lacks something goes up to the end. -/
theorem Atom.Takes.marksEnd {a : Atom} (h : Takes c later a)
    (hc : (Cursor.ofString source).Reaches c) : ∀ i ∈ a.invalids, i.MarksEnd source := by
  rcases h.missing with hnil | ⟨s, rfl, -⟩
  · exact Invalid.marksEnd_of_missing hnil
  · exact (h.of_class rfl).marksEnd hc

/-- A `Term` without a group that lacks something goes up to the end. -/
theorem Term.Takes.marksEnd {nested first : Bool} {t : Term} (h : Takes nested first c later t)
    (hc : (Cursor.ofString source).Reaches c) : ∀ i ∈ t.element.invalids, i.MarksEnd source := by
  rcases h.missing with hnil | ⟨s, q, rfl, -⟩
  · exact Invalid.marksEnd_of_missing hnil
  · cases h with
    | atom ha => exact ha.marksEnd hc

/-- A term that itself lacks something goes up to the end. -/
theorem Term.StandsAt.marksEnd {nested first : Bool} {t : Term}
    (h : t.StandsAt nested first c later) (hc : (Cursor.ofString source).Reaches c) :
    ∀ i ∈ t.element.ownInvalids, i.MarksEnd source := by
  cases h with
  | lexeme hread hterm =>
    have htakes := hread.takes_term hterm
    have hinvalids := htakes.marksEnd hc
    cases htakes <;> exact hinvalids
  | group ho hread hbody hclose =>
    refine List.forall_mem_append.mpr ⟨Invalid.marksEnd_of_missing ho.missing_eq_nil, ?_⟩
    cases hclose with
    | closed => exact List.forall_mem_nil _
    | missing hend =>
      have hpos := ((hc.trans hread.reaches).trans hbody.reaches_later).pos_of_end hend
      exact List.forall_mem_singleton.mpr fun _ => congrArg Span.emptyAt hpos

/-- What a pattern lacks is missing at its end (`Invalid.MarksEnd`). -/
theorem Regex.marksEnd_of_mem_invalids {i : Invalid} (hi : i ∈ (parse source).invalids) :
    i.MarksEnd source := by
  obtain ⟨t, ht, hown⟩ := mem_invalids_iff.mp hi
  obtain ⟨nested, first, a, b, ha, hstands⟩ := standsAt_of_mem_terms ht
  exact hstands.marksEnd ha i hown

end AtEnd

/-! ## At most one class is cut off -/

/-- Parentheses, perhaps behind a bracket, have at most one bracket. -/
theorem IsClosers.count_le_one {w : List Char} (h : IsClosers w) : w.count ']' ≤ 1 := by
  obtain ⟨m, rfl | rfl⟩ := h <;> simp [List.count_replicate]

/-- A pattern lacks at most one bracket. -/
theorem Regex.countP_unterminatedClass_le (source : String) :
    (parse source).invalids.countP (·.reason == .unterminatedClass) ≤ 1 := by
  obtain ⟨terms, mid, others, later, hd, -, -⟩ := exists_derives source
  have hcount : (parse source).invalids.countP (·.reason == .unterminatedClass) =
      (Invalid.missing (parse source).invalids).count ']' := by
    rw [Invalid.missing, List.count_filterMap]
    refine List.countP_congr fun i _ => ?_
    cases i.reason <;> decide
  rw [hcount, ← Tree.diagnostics_parse, hd.invalids_eq]
  exact hd.missing_isClosers.1.count_le_one

/-- Below some roots, and besides these, there are as many nodes with a reason as nodes that are cut
off for it (`isCutFor`). -/
theorem Node.countP_isCutFor_le (r : Reason) (ns : List Node) :
    (preorderOfAll ns).countP (·.isCutFor r) + ns.countP (·.reason == some r) ≤
      (preorderOfAll ns).countP (·.reason == some r) := by
  fun_induction preorderOfAll ns with
  | case1 => exact Nat.le_refl _
  | case2 n pending ih =>
    -- a node that is cut off has a child with the reason
    have hchild : (if n.isCutFor r = true then 1 else 0) ≤
        n.children.countP (·.reason == some r) := by
      split
      · rename_i hcut
        obtain ⟨m, hm, hreason⟩ := isCutFor_iff.mp hcut
        exact List.countP_pos_iff.mpr ⟨m, List.mem_of_getLast? hm, beq_iff_eq.mpr hreason⟩
      · exact Nat.zero_le _
    rw [List.countP_append] at ih
    simp only [List.countP_cons]
    omega

namespace Tree

variable {source : String} {n : Node} {r : Reason}

/-- At most one node of a pattern is cut off as a class. -/
theorem countP_isCutFor_le_one (source : String) :
    (parse source).root.preorder.countP (·.isCutFor .unterminatedClass) ≤ 1 := by
  have hle := Node.countP_isCutFor_le .unterminatedClass [(parse source).root]
  -- every node with the reason is among the invalid ones
  have hinvalids : (parse source).root.preorder.countP (·.reason == some .unterminatedClass) =
      (parse source).root.invalids.countP (·.reason == some .unterminatedClass) := by
    rw [Node.invalids, List.countP_filter]
    refine List.countP_congr fun n hn => ?_
    have hkind : n.reason = some .unterminatedClass → n.kind = .invalid :=
      fun hreason => ((conforms_of_mem hn).invalid _ hreason).1
    simpa using hkind
  rw [invalids_parse, List.countP_map] at hinvalids
  have hone : (Regex.parse source).invalids.countP
      ((·.reason == some .unterminatedClass) ∘ Node.ofInvalid) ≤ 1 :=
    Regex.countP_unterminatedClass_le source
  rw [Node.preorder] at hinvalids ⊢
  omega

/-! ## Stand-ins in a tree -/

/-- An invalid node of a pattern with a reason for stand-ins is empty and stands at the end. -/
theorem span_of_unterminated (hn : n ∈ (parse source).root.preorder)
    (hr : r ∈ Reason.unterminated) (hreason : n.reason = some r) :
    n.span = .emptyAt source.utf8ByteSize := by
  have hinvalid : n ∈ (parse source).root.invalids :=
    List.mem_filter.mpr ⟨hn, beq_iff_eq.mpr ((conforms_of_mem hn).invalid r hreason).1⟩
  rw [invalids_parse] at hinvalid
  obtain ⟨i, hi, rfl⟩ := List.mem_map.mp hinvalid
  obtain rfl : i.reason = r := Option.some.inj hreason
  exact Regex.marksEnd_of_mem_invalids hi (Reason.mem_unterminated_iff.mp hr)

/-- A node of a pattern has no width exactly if it has no text. -/
theorem start_eq_stop_iff (hn : n ∈ (parse source).root.preorder) :
    n.span.start = n.span.stop ↔ (n.textIn source).toList = [] := by
  obtain ⟨later, -, -, htiles⟩ := tiles_root source
  obtain ⟨a, b, ha, ⟨w, hw⟩, -, hspan⟩ := htiles.between n hn
  rw [Node.textIn, hspan, ha.toList_textIn hw]
  have hpos : b.pos = a.pos + byteLength w := hw.2
  constructor
  · intro heq
    exact hw.eq_nil_of_pos_le (Nat.le_of_eq heq.symm)
  · rintro rfl
    exact hpos.symm

/-- The stand-ins of a pattern are the nodes with a reason for them. -/
theorem isStandIn_iff (hn : n ∈ (parse source).root.preorder) :
    n.isStandIn = true ↔ ∃ r ∈ Reason.unterminated, n.reason = some r := by
  have hconforms : n.Conforms source := conforms_of_mem hn
  rw [Node.isStandIn, Bool.and_eq_true, beq_iff_eq, Span.isEmpty, beq_iff_eq,
    start_eq_stop_iff hn]
  constructor
  · rintro ⟨hkind, htext⟩
    obtain ⟨r, hr⟩ := Option.ne_none_iff_exists'.mp (hconforms.reason hkind)
    exact ⟨r, (hconforms.invalid r hr).2.eq_nil_iff.mp htext, hr⟩
  · rintro ⟨r, hr, hreason⟩
    obtain ⟨hkind, htext⟩ := hconforms.invalid r hreason
    exact ⟨hkind, htext.eq_nil_iff.mpr hr⟩

/-- What makes no sense below a group with a closing parenthesis ends before the pattern does. -/
theorem stop_lt_of_closed {g : Node} (hg : g ∈ (parse source).root.preorder)
    (hgroup : g.kind ∈ NodeKind.groups) (hclosed : ¬ g.isCutFor .unterminatedGroup = true)
    (hn : n ∈ Node.preorderOfAll g.children) (hreason : n.reason ≠ none) :
    n.span.stop < source.utf8ByteSize := by
  have hconforms : g.Conforms source := conforms_of_mem hg
  obtain ⟨init, e, hchildren, hnone, hkind⟩ := hconforms.exists_groupEnd hgroup hclosed
  have he : e ∈ (parse source).root.preorder :=
    Node.mem_preorderOfAll_of_mem_children hg (by rw [hchildren]; simp)
  obtain ⟨hleaf, htext⟩ := (conforms_of_mem he).of_groupEnd hnone hkind
  -- the parenthesis is the last child and makes sense, so the node is below another child
  have hinit : n ∈ Node.preorderOfAll init := by
    rw [hchildren, Node.preorderOfAll_append, Node.preorderOfAll_cons, hleaf] at hn
    rcases List.mem_append.mp hn with hn | hn
    · exact hn
    · rw [Node.preorderOfAll, List.nil_append, List.mem_singleton] at hn
      rw [hn] at hreason
      exact absurd hnone hreason
  -- the node ends where the parenthesis begins, which has a width and ends within the pattern
  obtain ⟨later, -, -, htiles⟩ := tiles_root source
  obtain ⟨a, b, -, -, -, -, hbranch⟩ := htiles.of_mem g hg
  have hinside := hbranch (by simp [Node.isBranch, Node.isLeaf, hchildren])
  rw [hchildren] at hinside
  have hle := hinside.stop_le_start n hinit
  have hwidth : e.span.start ≠ e.span.stop := by
    intro hempty
    rw [start_eq_stop_iff he, htext] at hempty
    cases hempty
  have hstart := start_le_stop he
  have hstop := stop_le_of_mem he
  omega

/-- What is cut off below a group is at the end, where no closing parenthesis follows, so the group
is cut off too. -/
theorem isCutFor_of_below {g m : Node} (hg : g ∈ (parse source).root.preorder)
    (hgroup : g.kind ∈ NodeKind.groups) (hm : m ∈ Node.preorderOfAll g.children)
    (hr : r ∈ Reason.unterminated) (hcut : m.isCutFor r = true) :
    g.isCutFor .unterminatedGroup = true := by
  by_contra hclosed
  obtain ⟨n, hlast, hreason⟩ := Node.isCutFor_iff.mp hcut
  have hbelow := Node.mem_preorderOfAll_of_mem_children hm (List.mem_of_getLast? hlast)
  have hspan := span_of_unterminated (Node.mem_preorderOfAll_trans hg hbelow) hr hreason
  have hlt := stop_lt_of_closed hg hgroup hclosed hbelow (by simp [hreason])
  rw [hspan] at hlt
  exact Nat.lt_irrefl _ hlt

/-- What is cut off in a tree is cut off by the end of its pattern. -/
structure IsCutOnlyAtEnd (t : Tree) : Prop where
  /-- A stand-in has no width, stands at the end of the pattern and ends a node that it closes. -/
  standIn : ∀ r ∈ Reason.unterminated, ∀ n ∈ t.root.preorder, n.reason = some r →
    n.span = .emptyAt t.source.utf8ByteSize ∧
      ∃ p ∈ t.root.preorder, p.kind ∈ r.bracketed ∧ p.children.getLast? = some n
  /-- Wherever a stand-in is a child, it closes the node and is the last child. -/
  last : ∀ r ∈ Reason.unterminated, ∀ p ∈ t.root.preorder, ∀ before n after,
    p.children = before ++ n :: after → n.reason = some r → p.kind ∈ r.bracketed ∧ after = []
  /-- An invalid node with another reason has a width. -/
  width : ∀ n ∈ t.root.preorder, n.kind = .invalid →
    (∀ r ∈ Reason.unterminated, n.reason ≠ some r) → n.span.start < n.span.stop
  /-- So the invalid nodes without width are those with a reason for stand-ins. -/
  isStandIn_iff : ∀ n ∈ t.root.preorder,
    n.isStandIn = true ↔ ∃ r ∈ Reason.unterminated, n.reason = some r
  /-- At most one class is cut off. -/
  oneClass : t.root.preorder.countP (·.isCutFor .unterminatedClass) ≤ 1
  /-- A group around what is cut off, at any distance, is cut off too. -/
  enclosing : ∀ g ∈ t.root.preorder, g.kind ∈ NodeKind.groups →
    ∀ m ∈ Node.preorderOfAll g.children, (∃ r ∈ Reason.unterminated, m.isCutFor r = true) →
      g.isCutFor .unterminatedGroup = true

/-- A stand-in in the tree of a pattern ends a node that it closes. -/
theorem exists_parent_of_unterminated (hn : n ∈ (parse source).root.preorder)
    (hr : r ∈ Reason.unterminated) (hreason : n.reason = some r) :
    ∃ p ∈ (parse source).root.preorder, p.kind ∈ r.bracketed ∧ p.children.getLast? = some n := by
  -- the root makes sense, so the stand-in is a child
  have hroot : n ∉ [(parse source).root] := by
    intro hmem
    rw [List.mem_singleton.mp hmem] at hreason
    cases hreason
  obtain ⟨p, hp, hchild⟩ := Node.exists_parent hn hroot
  obtain ⟨before, after, hsplit⟩ := List.append_of_mem hchild
  obtain ⟨hkind, rfl⟩ := (conforms_of_mem hp).last_of_unterminated hr hsplit hreason
  exact ⟨p, hp, hkind, by rw [hsplit, List.getLast?_concat]⟩

/-- An invalid node of a pattern that is no stand-in has a width. -/
theorem start_lt_stop (hn : n ∈ (parse source).root.preorder) (hkind : n.kind = .invalid)
    (hother : ∀ r ∈ Reason.unterminated, n.reason ≠ some r) : n.span.start < n.span.stop := by
  refine Nat.lt_of_le_of_ne (start_le_stop hn) fun hempty => ?_
  have hstandIn : n.isStandIn = true := by
    rw [Node.isStandIn, hkind, Span.isEmpty, hempty]
    simp
  obtain ⟨r, hr, hreason⟩ := (isStandIn_iff hn).mp hstandIn
  exact hother r hr hreason

/-- What is cut off in a pattern is cut off by its end. Every stand-in for a closing delimiter has
no width, stands at the end and is the last child of what it closes, and no other invalid node is
empty. At most one class is cut off, and all groups around something that is cut off are so too. -/
theorem parse_isCutOnlyAtEnd (source : String) : (parse source).IsCutOnlyAtEnd where
  standIn := by
    intro r hr n hn hreason
    exact ⟨span_of_unterminated hn hr hreason, exists_parent_of_unterminated hn hr hreason⟩
  last := by
    intro r hr p hp before n after hsplit hreason
    exact (conforms_of_mem hp).last_of_unterminated hr hsplit hreason
  width := by
    intro n hn hkind hother
    exact start_lt_stop hn hkind hother
  isStandIn_iff := by
    intro n hn
    exact isStandIn_iff hn
  oneClass := countP_isCutFor_le_one source
  enclosing := by
    rintro g hg hgroup m hm ⟨r, hr, hcut⟩
    exact isCutFor_of_below hg hgroup hm hr hcut

/-- A class in a group in a group, all of them cut off, behind a closed class. -/
theorem parse_isCutOnlyAtEnd_nested :
    ∃ g ∈ (parse "([a](?:[b").root.preorder, g.kind = .anonymousCapturingGroup ∧
      g.span = ⟨0, 9⟩ ∧ g.isCutFor .unterminatedGroup = true ∧
      ∃ m ∈ Node.preorderOfAll g.children, m.kind = .characterClass ∧ m.span = ⟨7, 9⟩ ∧
        m.isCutFor .unterminatedClass = true := by
  have hnodes : ∃ g ∈ (parse "([a](?:[b").root.preorder, g.kind = .anonymousCapturingGroup ∧
      g.span = ⟨0, 9⟩ ∧ ∃ m ∈ Node.preorderOfAll g.children, m.kind = .characterClass ∧
        m.span = ⟨7, 9⟩ ∧ m.isCutFor .unterminatedClass = true := by
    decide +kernel
  obtain ⟨g, hg, hkind, hspan, m, hm, hclass, hmspan, hcut⟩ := hnodes
  have hgroup : g.kind ∈ NodeKind.groups := by
    rw [hkind]
    decide
  have henclosing := (parse_isCutOnlyAtEnd "([a](?:[b").enclosing g hg hgroup m hm
    ⟨_, by decide, hcut⟩
  exact ⟨g, hg, hkind, hspan, henclosing, m, hm, hclass, hmspan, hcut⟩

end Tree

end RegexTree
