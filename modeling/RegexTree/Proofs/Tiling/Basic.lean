import RegexTree.Node.Traversal
import RegexTree.Proofs.Places

/-! # Tilings
Nodes tile the text between two places (`Node.Tiles`) when they stand one after the other from the
first place to the second and each of them is a leaf or is tiled by its children. The main
statements say what a tiling makes of every node below: children cover their parent, all spans lie
between the two places, and the texts of the leaves, put together, are the text between them. -/

namespace RegexTree

namespace Cursor

/-- The text between two places is determined by them. -/
theorem Reads.text_unique {c later : Cursor} {s t : List Char} (hs : c.Reads s later)
    (ht : c.Reads t later) : s = t :=
  List.append_cancel_right (hs.1.symm.trans ht.1)

end Cursor

namespace Node

/-! ## Nodes that cover a span -/

/-- Nodes stand one after the other from one offset to another. -/
def coversTo (stop : Nat) : Nat → List Node → Bool
  | start, [] => start == stop
  | start, n :: ns => n.span.start == start && coversTo stop n.span.stop ns

/-- Nodes stand one after the other, as `coversTo` says, and cover a span exactly. -/
def covers (s : Span) (ns : List Node) : Bool := coversTo s.stop s.start ns

/-- The node has children, or could have them: alternatives may be empty. -/
def isBranch (n : Node) : Bool := !n.isLeaf || n.kind == .pattern

/-- A node that is not `isBranch` is a leaf. -/
theorem isLeaf_of_isBranch {n : Node} (h : n.isBranch = false) : n.isLeaf = true := by
  simpa using (Bool.or_eq_false_iff.mp h).1

/-! ## Tilings -/

/-- The nodes tile the text between two places. -/
inductive Tiles : Cursor → List Node → Cursor → Prop where
  /-- No nodes tile the empty text. -/
  | nil {c : Cursor} : Tiles c [] c
  /-- A leaf, which is not an alternative, and what follows it. -/
  | leaf {c mid later : Cursor} {n : Node} {ns : List Node} (hn : n.isBranch = false)
      (hspan : n.span = c.spanTo mid) (hreach : c.Reaches mid) (hns : Tiles mid ns later) :
      Tiles c (n :: ns) later
  /-- A node that is tiled by its children, and what follows it. -/
  | branch {c mid later : Cursor} {n : Node} {ns : List Node} (hspan : n.span = c.spanTo mid)
      (hchildren : Tiles c n.children mid) (hns : Tiles mid ns later) : Tiles c (n :: ns) later

namespace Tiles

variable {c later : Cursor} {ns : List Node}

/-- What some nodes tile (`Tiles`) ends at a later place. -/
theorem reaches (h : Tiles c ns later) : c.Reaches later := by
  induction h with
  | nil => exact .refl _
  | leaf hn hspan hreach hns ih => exact hreach.trans ih
  | branch hspan hchildren hns ihchildren ih => exact ihchildren.trans ih

/-- Two tilings in a row are one. -/
theorem append {mid : Cursor} {ms : List Node} (hm : Tiles c ms mid) (hn : Tiles mid ns later) :
    Tiles c (ms ++ ns) later := by
  induction hm with
  | nil => exact hn
  | leaf hleaf hspan hreach hns ih => exact .leaf hleaf hspan hreach (ih hn)
  | branch hspan hchildren hns ihchildren ih => exact .branch hspan hchildren (ih hn)

/-- A tiling by nodes in a row is two tilings in a row. -/
theorem exists_of_append {ms : List Node} (h : Tiles c (ms ++ ns) later) :
    ∃ mid, Tiles c ms mid ∧ Tiles mid ns later := by
  induction ms generalizing c with
  | nil => exact ⟨c, .nil, h⟩
  | cons m ms ih =>
    cases h with
    | leaf hleaf hspan hreach hns =>
      obtain ⟨mid, hms, hns⟩ := ih hns
      exact ⟨mid, .leaf hleaf hspan hreach hms, hns⟩
    | branch hspan hchildren hns =>
      obtain ⟨mid, hms, hns⟩ := ih hns
      exact ⟨mid, .branch hspan hchildren hms, hns⟩

/-- The nodes of a tiling cover, as `Node.covers` says, the span between its ends. -/
theorem covers (h : Tiles c ns later) : Node.covers (c.spanTo later) ns = true := by
  induction h with
  | nil => simp [Node.covers, coversTo, Cursor.spanTo]
  | leaf hn hspan hreach hns ih => simpa [Node.covers, coversTo, hspan, Cursor.spanTo] using ih
  | branch hspan hchildren hns ihchildren ih =>
    simpa [Node.covers, coversTo, hspan, Cursor.spanTo] using ih

end Tiles

/-! ## The nodes below a tiling -/

/-- The nodes that `preorderOfAll` visits are the first root, the nodes below it and those of the
other trees. -/
theorem preorderOfAll_cons (n : Node) (ns : List Node) :
    preorderOfAll (n :: ns) = n :: (preorderOfAll n.children ++ preorderOfAll ns) := by
  rw [preorderOfAll, preorderOfAll_append]

/-- There are no nodes below a leaf for `preorderOfAll` to visit. -/
theorem preorderOfAll_children {n : Node} (h : n.isLeaf = true) :
    preorderOfAll n.children = [] := by
  rw [List.isEmpty_iff.mp h, preorderOfAll]

/-- The nodes below a node below some roots are nodes below these roots. -/
theorem mem_preorderOfAll_trans {ns : List Node} {n m : Node} (hn : n ∈ preorderOfAll ns)
    (hm : m ∈ preorderOfAll n.children) : m ∈ preorderOfAll ns := by
  fun_induction preorderOfAll ns with
  | case1 => cases hn
  | case2 k pending ih =>
    rcases List.mem_cons.mp hn with rfl | hn
    · rw [preorderOfAll_append]
      exact List.mem_cons_of_mem _ (List.mem_append_left _ hm)
    · exact List.mem_cons_of_mem _ (ih hn)

/-- The roots are among the nodes below them. -/
theorem mem_preorderOfAll_of_mem {ns : List Node} {n : Node} (hn : n ∈ ns) :
    n ∈ preorderOfAll ns := by
  rw [preorderOfAll_eq_flatMap]
  refine List.mem_flatMap.mpr ⟨n, hn, ?_⟩
  rw [preorder_eq]
  exact List.mem_cons_self

/-- The children of a node below some roots are nodes below these roots. -/
theorem mem_preorderOfAll_of_mem_children {ns : List Node} {n m : Node}
    (hn : n ∈ preorderOfAll ns) (hm : m ∈ n.children) : m ∈ preorderOfAll ns :=
  mem_preorderOfAll_trans hn (mem_preorderOfAll_of_mem hm)

/-- A node below some roots that is none of them is a child of another one. -/
theorem exists_parent {ns : List Node} {n : Node} (hn : n ∈ preorderOfAll ns) (hroot : n ∉ ns) :
    ∃ p ∈ preorderOfAll ns, n ∈ p.children := by
  fun_induction preorderOfAll ns with
  | case1 => cases hn
  | case2 k pending ih =>
    have hbelow : n ∈ preorderOfAll (k.children ++ pending) :=
      (List.mem_cons.mp hn).resolve_left fun hk => hroot (hk ▸ List.mem_cons_self)
    by_cases hchild : n ∈ k.children
    · exact ⟨k, List.mem_cons_self, hchild⟩
    · have hpending : n ∉ k.children ++ pending := fun hmem =>
        (List.mem_append.mp hmem).elim hchild fun hmem => hroot (List.mem_cons_of_mem k hmem)
      obtain ⟨p, hp, hmem⟩ := ih hbelow hpending
      exact ⟨p, List.mem_cons_of_mem k hp, hmem⟩

/-- The leaves of some trees, in the order of `preorderOfAll`. -/
def leavesOfAll (ns : List Node) : List Node := (preorderOfAll ns).filter (·.isLeaf)

/-- No trees have no leaves. -/
@[simp] theorem leavesOfAll_nil : leavesOfAll [] = [] := by
  rw [leavesOfAll, preorderOfAll]
  rfl

/-- The leaves that `leavesOfAll` gives of two lists of trees are those of the one and those of the
other. -/
theorem leavesOfAll_append (ms ns : List Node) :
    leavesOfAll (ms ++ ns) = leavesOfAll ms ++ leavesOfAll ns := by
  rw [leavesOfAll, preorderOfAll_append, List.filter_append]
  rfl

/-- The leaves of some trees are those of the first and those of the others. -/
theorem leavesOfAll_cons (n : Node) (ns : List Node) :
    leavesOfAll (n :: ns) = leavesOfAll [n] ++ leavesOfAll ns := leavesOfAll_append [n] ns

/-- A leaf is the first of `leavesOfAll`. -/
theorem leavesOfAll_cons_of_isLeaf {n : Node} (h : n.isLeaf = true) (ns : List Node) :
    leavesOfAll (n :: ns) = n :: leavesOfAll ns := by
  rw [leavesOfAll, preorderOfAll_cons, preorderOfAll_children h, List.nil_append,
    List.filter_cons_of_pos h]
  rfl

/-- The leaves of a node with children are those of its children. -/
theorem leavesOfAll_cons_of_not_isLeaf {n : Node} (h : n.isLeaf = false) (ns : List Node) :
    leavesOfAll (n :: ns) = leavesOfAll n.children ++ leavesOfAll ns := by
  rw [leavesOfAll, preorderOfAll_cons, List.filter_cons_of_neg (by simp [h]), List.filter_append]
  rfl

namespace Tiles

variable {c later : Cursor} {ns : List Node}

/-- Every node below a tiling stands between two places between its ends, and is tiled between them
by its children if it is a branch. -/
theorem of_mem (h : Tiles c ns later) : ∀ n ∈ preorderOfAll ns, ∃ a b, c.Reaches a ∧
    a.Reaches b ∧ b.Reaches later ∧ n.span = a.spanTo b ∧
      (n.isBranch = true → Tiles a n.children b) := by
  induction h with
  | nil => simp [preorderOfAll]
  | @leaf c mid later m ns hm hspan hreach hns ih =>
    intro n hmem
    rw [preorderOfAll_cons, preorderOfAll_children (isLeaf_of_isBranch hm)] at hmem
    rcases List.mem_cons.mp hmem with rfl | hmem
    · exact ⟨c, mid, .refl c, hreach, hns.reaches, hspan, fun hbranch => by simp_all⟩
    · obtain ⟨a, b, ha, hab, hb, hn⟩ := ih n hmem
      exact ⟨a, b, hreach.trans ha, hab, hb, hn⟩
  | @branch c mid later m ns hspan hchildren hns ihchildren ih =>
    intro n hmem
    rw [preorderOfAll_cons] at hmem
    rcases List.mem_cons.mp hmem with rfl | hmem
    · exact ⟨c, mid, .refl c, hchildren.reaches, hns.reaches, hspan, fun _ => hchildren⟩
    · -- below the first root, or below one of those that follow it
      rcases List.mem_append.mp hmem with hmem | hmem
      · obtain ⟨a, b, ha, hab, hb, hn⟩ := ihchildren n hmem
        exact ⟨a, b, ha, hab, hb.trans hns.reaches, hn⟩
      · obtain ⟨a, b, ha, hab, hb, hn⟩ := ih n hmem
        exact ⟨a, b, hchildren.reaches.trans ha, hab, hb, hn⟩

/-- Every node of a tiling lies between its ends, as `Span.Between` says. -/
theorem between (h : Tiles c ns later) : ∀ n ∈ preorderOfAll ns, n.span.Between c later := by
  intro n hmem
  obtain ⟨a, b, ha, hab, hb, hspan, -⟩ := h.of_mem n hmem
  exact ⟨a, b, ha, hab, hb, hspan⟩

/-- What is tiled before a node, and all that is below it, ends no later than the node begins. -/
theorem stop_le_start {before after : List Node} {m : Node}
    (h : Tiles c (before ++ m :: after) later) :
    ∀ n ∈ preorderOfAll before, n.span.stop ≤ m.span.start := by
  intro n hn
  obtain ⟨mid, hbefore, hbehind⟩ := h.exists_of_append
  obtain ⟨a, b, -, -, hb, hspan⟩ := hbefore.between n hn
  have hmid : m.span.start = mid.pos := by
    cases hbehind with
    | leaf hm hspan => rw [hspan, Cursor.spanTo]
    | branch hspan => rw [hspan, Cursor.spanTo]
  rw [hmid, hspan]
  exact hb.pos_le

/-- Every branch of a tiling is covered by its children. -/
theorem covers_of_mem (h : Tiles c ns later) :
    ∀ n ∈ preorderOfAll ns, n.isBranch = true → Node.covers n.span n.children = true := by
  intro n hmem hbranch
  obtain ⟨a, b, -, -, -, hspan, hchildren⟩ := h.of_mem n hmem
  rw [hspan]
  exact (hchildren hbranch).covers

/-- A leaf ends before the leaves of what is tiled behind it. -/
theorem pairwise_leavesOfAll_cons {mid : Cursor} {n : Node} (hn : n.isLeaf = true)
    (hspan : n.span = c.spanTo mid) (hns : Tiles mid ns later)
    (hpairwise : (leavesOfAll ns).Pairwise fun m n => m.span.stop ≤ n.span.start) :
    (leavesOfAll (n :: ns)).Pairwise fun m n => m.span.stop ≤ n.span.start := by
  rw [leavesOfAll_cons_of_isLeaf hn]
  refine .cons (fun m hm => ?_) hpairwise
  obtain ⟨a, b, ha, -, -, hm⟩ := hns.between m (List.mem_filter.mp hm).1
  rw [hspan, hm]
  exact ha.pos_le

/-- The leaves of a tiling stand one after the other. -/
theorem pairwise_leavesOfAll (h : Tiles c ns later) :
    (leavesOfAll ns).Pairwise fun m n => m.span.stop ≤ n.span.start := by
  induction h with
  | nil =>
    rw [leavesOfAll, preorderOfAll]
    exact .nil
  | leaf hn hspan hreach hns ih =>
    exact pairwise_leavesOfAll_cons (isLeaf_of_isBranch hn) hspan hns ih
  | @branch c mid later n ns hspan hchildren hns ihchildren ih =>
    cases hn : n.isLeaf with
    | true => exact pairwise_leavesOfAll_cons hn hspan hns ih
    | false =>
      rw [leavesOfAll_cons_of_not_isLeaf hn]
      refine List.pairwise_append.mpr ⟨ihchildren, ih, fun l hl m hm => ?_⟩
      obtain ⟨_, b, -, -, hb, hspanL⟩ := hchildren.between l (List.mem_filter.mp hl).1
      obtain ⟨a, _, ha, -, -, hspanM⟩ := hns.between m (List.mem_filter.mp hm).1
      rw [hspanL, hspanM]
      exact Nat.le_trans hb.pos_le ha.pos_le

/-- A leaf gives its own text before those of the leaves that follow it. -/
theorem foldl_textIn_cons {source : String} {before s t : List Char} {c mid : Cursor} {n : Node}
    {ns : List Node} (out : String) (hn : n.isLeaf = true) (hspan : n.span = c.spanTo mid)
    (hc : (Cursor.ofString source).Reads before c) (hs : c.Reads s mid)
    (hns : ∀ out, (leavesOfAll ns).foldl (fun out leaf => out ++ leaf.textIn source) out =
      out ++ String.ofList t) :
    (leavesOfAll (n :: ns)).foldl (fun out leaf => out ++ leaf.textIn source) out =
      out ++ String.ofList (s ++ t) := by
  rw [leavesOfAll_cons_of_isLeaf hn, List.foldl_cons, hns, Node.textIn, hspan,
    Cursor.textIn_spanTo hc hs, String.append_assoc, String.ofList_append]

/-- The texts of `leavesOfAll` of a tiling, put together, are the text between its ends. -/
theorem foldl_textIn {source : String} {before text : List Char} (h : Tiles c ns later)
    (hc : (Cursor.ofString source).Reads before c) (ht : c.Reads text later) (out : String) :
    (leavesOfAll ns).foldl (fun out leaf => out ++ leaf.textIn source) out =
      out ++ String.ofList text := by
  induction h generalizing before text out with
  | nil =>
    obtain rfl := ht.text_unique (.refl _)
    simp [leavesOfAll, preorderOfAll]
  | leaf hn hspan hreach hns ih =>
    obtain ⟨s, hs⟩ := hreach
    obtain ⟨t, hrest⟩ := hns.reaches
    obtain rfl := ht.text_unique (hs.trans hrest)
    exact foldl_textIn_cons out (isLeaf_of_isBranch hn) hspan hc hs (ih (hc.trans hs) hrest)
  | @branch c mid later n ns hspan hchildren hns ihchildren ih =>
    obtain ⟨s, hs⟩ := hchildren.reaches
    obtain ⟨t, hrest⟩ := hns.reaches
    obtain rfl := ht.text_unique (hs.trans hrest)
    -- an empty alternative is tiled by no children, and is then a leaf of the tree
    cases hn : n.isLeaf with
    | true => exact foldl_textIn_cons out hn hspan hc hs (ih (hc.trans hs) hrest)
    | false =>
      rw [leavesOfAll_cons_of_not_isLeaf hn, List.foldl_append, ihchildren hc hs,
        ih (hc.trans hs) hrest, String.append_assoc, String.ofList_append]

end Tiles

end Node

end RegexTree
