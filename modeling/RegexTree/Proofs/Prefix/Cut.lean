import RegexTree.Proofs.Repair.Leaves
import RegexTree.Tree

/-! # Cuts
While a pattern is typed, only what stands before some offset is there. The offset cuts the nodes
that it lies inside of. A group or a class that is cut only lacks its end, but any other node that
is cut may turn out to be something else, so the least start of such a node is where the unfinished
part of the pattern begins. This module defines where that is (`Tree.cutStart`), and what it means
that trees keep what is finished (`Node.Resumes`). -/

namespace RegexTree

/-! ## Places in order -/

namespace Cursor

variable {a b c next : Cursor}

/-- A place that is reached without a change of the offset is the same place. -/
theorem Reaches.eq_of_pos_le (h : a.Reaches b) (hle : b.pos ≤ a.pos) : a = b := by
  obtain ⟨w, hw⟩ := h
  obtain rfl := hw.eq_nil_of_pos_le hle
  exact (Reads.refl a).unique hw

/-- Of two places that are reached from a third one, the later is reached from the earlier. -/
theorem Reaches.of_pos_le (hb : a.Reaches b) (hc : a.Reaches c) (hle : b.pos ≤ c.pos) :
    b.Reaches c := by
  obtain ⟨v, hv⟩ := hb
  obtain ⟨w, hw⟩ := hc
  rcases List.append_eq_append_iff.mp (hv.1.symm.trans hw.1) with ⟨u, rfl, hrest⟩ | ⟨u, rfl, hrest⟩
  · obtain ⟨b', hb', hc'⟩ := reads_append_iff.mp hw
    rw [hv.unique hb']
    exact hc'.reaches
  · -- the text to the earlier place goes on behind the later one, so nothing is between them
    obtain ⟨c', hc', hb'⟩ := reads_append_iff.mp hv
    obtain rfl := hw.unique hc'
    obtain rfl := hb'.eq_nil_of_pos_le hle
    rw [(Reads.refl c).unique hb']
    exact .refl b

/-- A place that is not yet reached before a character is reached behind it. -/
theorem Reads.reaches_of_pos_lt {x : Char} (h : a.Reads [x] next) (hb : a.Reaches b)
    (hlt : a.pos < b.pos) : next.Reaches b := by
  obtain ⟨w, hw⟩ := hb
  cases w with
  | nil =>
    rw [(Reads.refl a).unique hw] at hlt
    exact absurd hlt (Nat.lt_irrefl _)
  | cons y w =>
    obtain ⟨next', hnext', hw'⟩ := reads_cons_iff.mp hw
    rw [h.eq_next, ← hnext'.eq_next]
    exact hw'.reaches

/-- A place that is not yet reached before an optional character is reached behind it. -/
theorem Skips.reaches_of_pos_lt {x : Char} {s : Option Span} (h : Skips x a next s)
    (hb : a.Reaches b) (hlt : a.pos < b.pos) : next.Reaches b := by
  cases h with
  | absent => exact hb
  | present hread => exact hread.reaches_of_pos_lt hb hlt

end Cursor

/-! ## Nodes that are cut -/

/-- The offset lies inside of the span, and at neither of its ends. -/
def Span.isCutAt (offset : Nat) (s : Span) : Bool := s.start < offset && offset < s.stop

/-- The kinds of nodes that are closed by a delimiter of their own: groups and classes. -/
def NodeKind.isBracketed (kind : NodeKind) : Bool := kind.isGroup || kind == .characterClass

/-- The kinds of nodes that stay what they are when they are cut. -/
def NodeKind.isContainer (kind : NodeKind) : Bool :=
  kind.isBracketed || [regex, disjunction, pattern].contains kind

/-- Where the unfinished part of the pattern begins if it is cut at the offset: the least start of a
node that is cut and is no container (`NodeKind.isContainer`), or the offset if there is none. -/
def Tree.cutStart (t : Tree) (offset : Nat) : Nat :=
  (((t.root.preorder.filter fun n => !n.kind.isContainer && n.span.isCutAt offset).map
    (·.span.start)).min?).getD offset

namespace Node

variable {offset e : Nat} {c later : Cursor} {n : Node} {ns ms : List Node}

/-- The offset is the cut itself, or the start of a node that is cut and does not stay what it
is. -/
def IsCutStart (offset e : Nat) (ns : List Node) : Prop :=
  e = offset ∨ ∃ n ∈ preorderOfAll ns, n.kind.isContainer = false ∧
    n.span.isCutAt offset = true ∧ n.span.start = e

namespace IsCutStart

/-- No unfinished part (`IsCutStart`) begins behind the cut. -/
theorem le_offset (h : IsCutStart offset e ns) : e ≤ offset := by
  rcases h with rfl | ⟨n, -, -, hcut, rfl⟩
  · exact Nat.le_refl _
  · exact Nat.le_of_lt (of_decide_eq_true (Bool.and_eq_true_iff.mp hcut).1)

/-- More nodes leave it a start. -/
protected theorem mono (h : IsCutStart offset e ns) (hsub : preorderOfAll ns ⊆ preorderOfAll ms) :
    IsCutStart offset e ms :=
  h.imp_right fun ⟨n, hn, hcut⟩ => ⟨n, hsub hn, hcut⟩

/-- A start among some nodes is one among them and those behind them. -/
theorem append_right (h : IsCutStart offset e ns) (ms : List Node) :
    IsCutStart offset e (ns ++ ms) :=
  h.mono (by rw [preorderOfAll_append]; exact List.subset_append_left _ _)

/-- A start among some nodes is one among those before them and them. -/
theorem append_left (h : IsCutStart offset e ns) (ms : List Node) :
    IsCutStart offset e (ms ++ ns) :=
  h.mono (by rw [preorderOfAll_append]; exact List.subset_append_right _ _)

/-- A start among the children of a node is one below the node. -/
theorem branch (h : IsCutStart offset e ns) (kind : NodeKind) (span : Span) :
    IsCutStart offset e [branch kind span ns] := by
  refine h.mono ?_
  rw [preorderOfAll_cons]
  exact List.subset_cons_of_subset _ (List.subset_append_left _ _)

end IsCutStart

/-- A node that `Tiles` what is between two places spans it. -/
theorem Tiles.span_eq (h : Tiles c [n] later) : n.span = c.spanTo later := by
  cases h with
  | leaf hn hspan hreach hns =>
    cases hns
    exact hspan
  | branch hspan hchildren hns =>
    cases hns
    exact hspan

/-- A node that is no container begins an unfinished part if it is cut. -/
theorem Tiles.isCutStart (h : Tiles c [n] later) (hkind : n.kind.isContainer = false)
    (hstart : c.pos < offset) (hstop : offset < later.pos) : IsCutStart offset c.pos [n] := by
  have hspan := h.span_eq
  refine .inr ⟨n, ?_, hkind, ?_, congrArg Span.start hspan⟩
  · rw [preorderOfAll_cons]
    exact List.mem_cons_self
  · rw [hspan]
    exact Bool.and_eq_true_iff.mpr ⟨decide_eq_true hstart, decide_eq_true hstop⟩

end Node

/-- The unfinished part of a pattern begins no later than where some unfinished part does. -/
theorem Tree.cutStart_le {t : Tree} {offset e : Nat}
    (h : Node.IsCutStart offset e [t.root]) : t.cutStart offset ≤ e := by
  rw [cutStart]
  generalize hstarts : (t.root.preorder.filter _).map (·.span.start) = starts
  have hlt : ∀ start ∈ starts, start < offset := by
    intro start hstart
    rw [← hstarts] at hstart
    obtain ⟨n, hn, rfl⟩ := List.mem_map.mp hstart
    have hcut := (Bool.and_eq_true_iff.mp (List.mem_filter.mp hn).2).2
    exact of_decide_eq_true (Bool.and_eq_true_iff.mp hcut).1
  rcases h with rfl | ⟨n, hn, hkind, hcut, rfl⟩
  · cases starts with
    | nil => exact Nat.le_refl _
    | cons start starts =>
      have hmem : start ∈ start :: starts := List.mem_cons_self
      exact Nat.le_trans (List.min?_getD_le_of_mem hmem) (Nat.le_of_lt (hlt start hmem))
  · refine List.min?_getD_le_of_mem ?_
    rw [← hstarts]
    exact List.mem_map.mpr ⟨n, List.mem_filter.mpr ⟨hn, by rw [hkind, hcut]; rfl⟩, rfl⟩

/-! ## Leaves that are kept -/

namespace Node

/-- The leaves on the left that have a width and end by an offset are leaves on the right. -/
def Keeps (e : Nat) (ns ms : List Node) : Prop :=
  ∀ n ∈ ns, n.span.isEmpty = false → n.span.stop ≤ e → n ∈ ms

namespace Keeps

variable {e : Nat} {ns ns' ms ms' : List Node}

/-- Leaves that stay are kept (`Keeps`). -/
protected theorem refl (e : Nat) (ns : List Node) : Keeps e ns ns := fun _ hn _ _ => hn

/-- What is kept in two parts is kept in both together. -/
protected theorem append (h : Keeps e ns ms) (h' : Keeps e ns' ms') :
    Keeps e (ns ++ ns') (ms ++ ms') := by
  intro n hn hwidth hstop
  rcases List.mem_append.mp hn with hn | hn
  · exact List.mem_append_left _ (h n hn hwidth hstop)
  · exact List.mem_append_right _ (h' n hn hwidth hstop)

/-- No leaf with a width ends before the place where a tiling begins. -/
theorem of_tiles {c later : Cursor} (h : Tiles c ns later) (he : e ≤ c.pos) (ms : List Node) :
    Keeps e (leavesOfAll ns) ms := by
  intro n hn hwidth hstop
  obtain ⟨a, b, ha, hab, -, hspan⟩ := h.between n (List.mem_filter.mp hn).1
  have hstart := ha.pos_le
  have hle := hab.pos_le
  rw [hspan] at hwidth hstop
  have hne : a.pos ≠ b.pos := by simpa [Cursor.spanTo, Span.isEmpty] using hwidth
  have hb : b.pos ≤ e := hstop
  omega

end Keeps

/-- The trees on the right stand in for those on the left where the pattern is cut: an unfinished
part begins at an offset, what is finished before is kept, and what makes no sense stands behind. -/
structure Resumes (offset e : Nat) (ns ms : List Node) : Prop where
  /-- An unfinished part begins at the offset. -/
  start : IsCutStart offset e ns
  /-- The leaves of the finished part are kept. -/
  keeps : Keeps e (leavesOfAll ns) (leavesOfAll ms)
  /-- What makes no sense stands in the unfinished part. -/
  le_invalids : ∀ n ∈ invalidsOfAll ms, e ≤ n.span.start

namespace Resumes

variable {offset e : Nat} {c c' later later' : Cursor} {ns ns' ms ms' : List Node}

/-- What begins in the unfinished part makes no sense there only. -/
theorem le_of_tiles (h : Tiles c ms later) (he : e ≤ c.pos) :
    ∀ n ∈ invalidsOfAll ms, e ≤ n.span.start := by
  intro n hn
  obtain ⟨a, b, ha, -, -, hspan⟩ := h.between n (List.mem_filter.mp hn).1
  have hle := ha.pos_le
  rw [hspan]
  exact Nat.le_trans he hle

/-- Trees that begin in the unfinished part need not keep anything. -/
theorem of_tiles (hstart : IsCutStart offset e ns) (h : Tiles c ns later) (he : e ≤ c.pos)
    (h' : Tiles c' ms later') (he' : e ≤ c'.pos) : Resumes offset e ns ms :=
  ⟨hstart, .of_tiles h he _, le_of_tiles h' he'⟩

/-- Where the pattern is cut, anything may stand in for what follows. -/
theorem exists_of_cut {cut : Cursor} {s t : List Char} (h : Tiles c ns later)
    (h' : Tiles c' ms later') (halike : Cursor.Alike 0 0 s t c c') (hreach : c.Reaches cut)
    (hle : cut.pos ≤ c.pos) : ∃ e, e ≤ later'.pos ∧ Resumes cut.pos e ns ms := by
  obtain rfl := hreach.eq_of_pos_le hle
  have hpos : c.pos = c'.pos := halike.pos_eq
  exact ⟨c.pos, hpos ▸ h'.reaches.pos_le,
    .of_tiles (.inl rfl) h (Nat.le_refl _) h' (Nat.le_of_eq hpos)⟩

/-- A node that is cut and is no container, or that begins at the cut, keeps nothing. -/
theorem exists_of_node {cut mid : Cursor} {s t : List Char} {n : Node} (hn : Tiles c [n] mid)
    (hkind : n.kind.isContainer = false) (hns : Tiles mid ns later) (h' : Tiles c' ms later')
    (halike : Cursor.Alike 0 0 s t c c') (hreach : c.Reaches cut) (hlt : cut.pos < mid.pos) :
    ∃ e, e ≤ later'.pos ∧ Resumes cut.pos e (n :: ns) ms := by
  have htiles := hn.append hns
  by_cases hstart : c.pos < cut.pos
  · have hpos : c.pos = c'.pos := halike.pos_eq
    exact ⟨c.pos, hpos ▸ h'.reaches.pos_le,
      .of_tiles ((hn.isCutStart hkind hstart hlt).append_right ns) htiles (Nat.le_refl _) h'
        (Nat.le_of_eq hpos)⟩
  · exact exists_of_cut htiles h' halike hreach (Nat.le_of_not_lt hstart)

/-- Trees that make sense are kept before what is resumed. -/
theorem prepend (h : Resumes offset e ns ms) {before : List Node}
    (hvalid : invalidsOfAll before = []) : Resumes offset e (before ++ ns) (before ++ ms) := by
  refine ⟨h.start.append_left before, ?_, ?_⟩
  · rw [leavesOfAll_append, leavesOfAll_append]
    exact .append (.refl e _) h.keeps
  · rw [invalidsOfAll_append, hvalid, List.nil_append]
    exact h.le_invalids

/-- Behind what is resumed (`Resumes`) there may be any trees. -/
theorem append (h : Resumes offset e ns ms) (hns : Tiles c ns' later) (he : e ≤ c.pos)
    (hms : Tiles c' ms' later') (he' : e ≤ c'.pos) : Resumes offset e (ns ++ ns') (ms ++ ms') := by
  refine ⟨h.start.append_right ns', ?_, ?_⟩
  · rw [leavesOfAll_append, leavesOfAll_append]
    exact h.keeps.append (.of_tiles hns he _)
  · rw [invalidsOfAll_append]
    exact List.forall_mem_append.mpr ⟨h.le_invalids, le_of_tiles hms he'⟩

/-- A node is resumed if its children are. -/
theorem branch {n m : Node} (h : Resumes offset e (n :: ns) (m :: ms)) (kind : NodeKind)
    {kind' : NodeKind} (hkind : kind' ≠ .invalid) (span span' : Span) :
    Resumes offset e [branch kind span (n :: ns)] [branch kind' span' (m :: ms)] := by
  refine ⟨h.start.branch kind span, ?_, ?_⟩
  · rw [leavesOfAll_branch, leavesOfAll_branch]
    exact h.keeps
  · rw [invalidsOfAll_branch hkind, invalidsOfAll_nil, List.append_nil]
    exact h.le_invalids

/-- An alternative is resumed if its terms are, as one without terms has no width. -/
theorem ofAlternative {span : Span} {terms terms' : List Term}
    (h : Resumes offset e (ofTerms terms ++ ns) (ofTerms terms' ++ ns'))
    (hspan : terms = [] → span.isEmpty = true) (span' : Span) :
    Resumes offset e (ofAlternative ⟨span, terms⟩ :: ns)
      (ofAlternative ⟨span', terms'⟩ :: ns') := by
  have hnodes : preorderOfAll (ofTerms terms ++ ns) ⊆
      preorderOfAll (Node.ofAlternative ⟨span, terms⟩ :: ns) := by
    rw [preorderOfAll_append, preorderOfAll_cons]
    exact List.subset_cons_of_subset _ (List.Subset.refl _)
  refine ⟨h.start.mono hnodes, ?_, ?_⟩
  · rw [leavesOfAll_cons, leavesOfAll_ofAlternative, List.append_assoc, ← leavesOfAll_append,
      leavesOfAll_cons (Node.ofAlternative ⟨span', terms'⟩), leavesOfAll_ofAlternative,
      List.append_assoc, ← leavesOfAll_append]
    refine .append ?_ h.keeps
    intro n hn hwidth
    by_cases hnil : terms = []
    · rw [if_pos hnil, List.mem_singleton] at hn
      subst hn
      exact absurd (hspan hnil) (Bool.eq_false_iff.mp hwidth)
    · rw [if_neg hnil] at hn
      cases hn
  · rw [Node.ofAlternative, invalidsOfAll_branch (by decide), ← invalidsOfAll_append]
    exact h.le_invalids

/-- A disjunction is resumed if its alternatives and bars are. -/
theorem ofDisjunction {first first' : Alternative} {others others' : List Branch}
    (h : Resumes offset e (Node.ofAlternative first :: ofBranches others)
      (Node.ofAlternative first' :: ofBranches others')) :
    Resumes offset e [ofDisjunction ⟨first, others⟩] [ofDisjunction ⟨first', others'⟩] := by
  rw [Node.ofDisjunction, Node.ofDisjunction]
  exact h.branch .disjunction (by decide) _ _

end Resumes

end Node

end RegexTree
