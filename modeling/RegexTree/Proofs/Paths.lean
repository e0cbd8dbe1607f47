import RegexTree.Node.Query
import RegexTree.Proofs.Partition

/-! # Paths
Two nodes of a tree may be equal, so a place in a tree is the path that leads to it from the root.
This module says which node stands at the end of a path (`Node.at?`). The main statements are about
trees in which children cover their parents (`Node.IsTiled`): all nodes behind the beginning of a
path contain what stands at its end, and of the children of a node at most one contains a range with
a byte. -/

namespace RegexTree

namespace Span

/-- Containing a byte is containing the range of this byte. -/
theorem containsByte_eq (s : Span) (offset : Nat) :
    s.containsByte offset = s.contains ⟨offset, offset + 1⟩ := rfl

/-- A span contains another if it begins no later and ends no earlier. -/
theorem contains_iff {a b : Span} :
    a.contains b = true ↔ a.start ≤ b.start ∧ b.stop ≤ a.stop := by
  simp [contains]

/-- A span contains a range if it begins no later and ends no earlier. -/
theorem contains_range_iff {s : Span} {start stop : Nat} :
    s.contains ⟨start, stop⟩ = true ↔ s.start ≤ start ∧ stop ≤ s.stop := contains_iff

/-- A span contains a byte if it begins no later and ends behind it. -/
theorem containsByte_iff {s : Span} {offset : Nat} :
    s.containsByte offset = true ↔ s.start ≤ offset ∧ offset < s.stop := by
  simp [containsByte]

end Span

namespace Node

/-! ## Paths -/

/-- The node at the end of a path, which says for each level, from the root down, into which child
it goes. -/
def at? : Node → List Nat → Option Node
  | n, [] => some n
  | n, i :: path => n.children[i]?.bind fun child => child.at? path

/-- The empty path stays at the root. -/
@[simp] theorem at?_nil (n : Node) : n.at? [] = some n := rfl

/-- A path into a child goes on from this child. -/
theorem at?_cons_eq_some_iff {n m : Node} {i : Nat} {path : List Nat} :
    n.at? (i :: path) = some m ↔
      ∃ child, n.children[i]? = some child ∧ child.at? path = some m := by
  rw [at?, Option.bind_eq_some_iff]

/-- A path that goes on leads to what its continuation leads to from its end. -/
theorem at?_append (n : Node) (path more : List Nat) :
    n.at? (path ++ more) = (n.at? path).bind (·.at? more) := by
  induction path generalizing n with
  | nil => rfl
  | cons i path ih =>
    rw [List.cons_append, at?, at?, Option.bind_assoc]
    exact congrArg _ (funext ih)

/-- No path goes on from a leaf. -/
theorem eq_nil_of_isLeaf {n m : Node} {path : List Nat} (hn : n.isLeaf = true)
    (h : n.at? path = some m) : path = [] := by
  cases path with
  | nil => rfl
  | cons i path =>
    obtain ⟨child, hchild, -⟩ := at?_cons_eq_some_iff.mp h
    have hmem := List.mem_of_getElem? hchild
    rw [List.isEmpty_iff.mp hn] at hmem
    cases hmem

/-- What holds of a node whenever it holds of all its children holds of all nodes. -/
@[elab_as_elim]
theorem induction_children {motive : Node → Prop} (n : Node)
    (node : ∀ n : Node, (∀ m ∈ n.children, motive m) → motive n) : motive n := by
  refine node n fun m hm => ?_
  have hsize := size_eq n
  have hle : m.size ≤ sizeOfAll n.children := by
    obtain ⟨before, after, hsplit⟩ := List.append_of_mem hm
    rw [hsplit, sizeOfAll_append, sizeOfAll_cons]
    omega
  exact induction_children m node
termination_by n.size

/-- What stands at the end of a path is one of the nodes of the tree, in `preorder`. -/
theorem mem_preorder_of_at? {n m : Node} {path : List Nat} (h : n.at? path = some m) :
    m ∈ n.preorder := by
  induction path generalizing n with
  | nil =>
    cases h
    exact mem_preorderOfAll_of_mem List.mem_cons_self
  | cons i path ih =>
    obtain ⟨child, hchild, hm⟩ := at?_cons_eq_some_iff.mp h
    rw [preorder_eq]
    refine List.mem_cons_of_mem n (List.mem_flatMap.mpr ⟨child, ?_, ih hm⟩)
    exact List.mem_of_getElem? hchild

/-- Every node of a tree stands at the end of a path. -/
theorem exists_at?_of_mem_preorder {n m : Node} (h : m ∈ n.preorder) :
    ∃ path, n.at? path = some m := by
  induction n using induction_children with
  | node n ih =>
    rw [preorder_eq] at h
    rcases List.mem_cons.mp h with rfl | h
    · exact ⟨[], rfl⟩
    · obtain ⟨child, hchild, hm⟩ := List.mem_flatMap.mp h
      obtain ⟨path, hpath⟩ := ih child hchild hm
      obtain ⟨i, hi⟩ := List.mem_iff_getElem?.mp hchild
      exact ⟨i :: path, at?_cons_eq_some_iff.mpr ⟨child, hi, hpath⟩⟩

/-! ## Nodes that cover a span -/

section Covering

variable {start stop : Nat} {ns : List Node}

/-- Nodes that cover a span (`coversTo`) lie in it. -/
theorem bounds_of_coversTo (h : coversTo stop start ns = true)
    (hns : ∀ n ∈ ns, n.span.start ≤ n.span.stop) :
    start ≤ stop ∧ ∀ n ∈ ns, start ≤ n.span.start ∧ n.span.stop ≤ stop := by
  induction ns generalizing start with
  | nil =>
    simp only [coversTo, beq_iff_eq] at h
    simp [h]
  | cons n ns ih =>
    simp only [coversTo, Bool.and_eq_true, beq_iff_eq] at h
    obtain ⟨hn, hrest⟩ := List.forall_mem_cons.mp hns
    obtain ⟨hle, hbounds⟩ := ih h.2 hrest
    refine ⟨by omega, List.forall_mem_cons.mpr ⟨by omega, fun m hm => ?_⟩⟩
    have hm := hbounds m hm
    omega

/-- Nodes that cover a span stand one behind the other. -/
theorem pairwise_of_coversTo (h : coversTo stop start ns = true)
    (hns : ∀ n ∈ ns, n.span.start ≤ n.span.stop) :
    ns.Pairwise fun m n => m.span.stop ≤ n.span.start := by
  induction ns generalizing start with
  | nil => exact .nil
  | cons n ns ih =>
    simp only [coversTo, Bool.and_eq_true] at h
    have hrest := (List.forall_mem_cons.mp hns).2
    refine .cons (fun m hm => ?_) (ih h.2 hrest)
    exact ((bounds_of_coversTo h.2 hrest).2 m hm).1

/-- Of the nodes that cover a span one contains each byte of the span. -/
theorem exists_containsByte_of_coversTo {offset : Nat} (h : coversTo stop start ns = true)
    (hstart : start ≤ offset) (hstop : offset < stop) :
    ∃ n ∈ ns, n.span.containsByte offset = true := by
  induction ns generalizing start with
  | nil =>
    simp only [coversTo, beq_iff_eq] at h
    omega
  | cons n ns ih =>
    simp only [coversTo, Bool.and_eq_true, beq_iff_eq] at h
    by_cases hn : offset < n.span.stop
    · refine ⟨n, List.mem_cons_self, ?_⟩
      rw [Span.containsByte_iff]
      omega
    · obtain ⟨m, hm, hbyte⟩ := ih h.2 (by omega)
      exact ⟨m, List.mem_cons_of_mem n hm, hbyte⟩

end Covering

/-! ## Trees whose nodes are covered -/

/-- In the tree every node with children is covered by them, and no node ends before it begins. -/
structure IsTiled (root : Node) : Prop where
  /-- Children cover their parents. -/
  covers : ∀ n ∈ root.preorder, n.isLeaf = false → Node.covers n.span n.children = true
  /-- Nodes do not end before they begin. -/
  start_le_stop : ∀ n ∈ root.preorder, n.span.start ≤ n.span.stop

namespace IsTiled

variable {n m : Node} {path : List Nat}

/-- Below a path of a tree with `IsTiled` is such a tree. -/
theorem at? (h : n.IsTiled) (hm : n.at? path = some m) : m.IsTiled := by
  have hmem : ∀ k ∈ m.preorder, k ∈ n.preorder := by
    intro k hk
    obtain ⟨more, hmore⟩ := exists_at?_of_mem_preorder hk
    have hpath : n.at? (path ++ more) = some k := by
      rw [at?_append, hm, Option.bind_some, hmore]
    exact mem_preorder_of_at? hpath
  exact ⟨fun k hk => h.covers k (hmem k hk), fun k hk => h.start_le_stop k (hmem k hk)⟩

/-- The children of such a tree are such trees. -/
theorem child (h : n.IsTiled) (hm : m ∈ n.children) : m.IsTiled := by
  obtain ⟨i, hi⟩ := List.mem_iff_getElem?.mp hm
  have hpath : n.at? [i] = some m := at?_cons_eq_some_iff.mpr ⟨m, hi, rfl⟩
  exact h.at? hpath

/-- The root does not end before it begins. -/
theorem root_le (h : n.IsTiled) : n.span.start ≤ n.span.stop :=
  h.start_le_stop n (mem_preorder_of_at? (at?_nil n))

/-- The root is covered by its children, if it has any. -/
theorem coversTo (h : n.IsTiled) (hm : m ∈ n.children) :
    Node.coversTo n.span.stop n.span.start n.children = true := by
  refine h.covers n (mem_preorder_of_at? (at?_nil n)) ?_
  rw [isLeaf, List.isEmpty_eq_false_iff]
  exact List.ne_nil_of_mem hm

/-- Children do not end before they begin. -/
theorem forall_children (h : n.IsTiled) : ∀ m ∈ n.children, m.span.start ≤ m.span.stop :=
  fun _ hm => (h.child hm).root_le

/-- Every child lies in its parent. -/
theorem contains_child (h : n.IsTiled) (hm : m ∈ n.children) : n.span.contains m.span = true := by
  rw [Span.contains_iff]
  exact (bounds_of_coversTo (h.coversTo hm) h.forall_children).2 m hm

/-- What stands at the end of a path lies in the root. -/
theorem contains_at? (h : n.IsTiled) (hm : n.at? path = some m) :
    n.span.contains m.span = true := by
  induction path generalizing n with
  | nil =>
    cases hm
    exact Span.contains_self _
  | cons i path ih =>
    obtain ⟨child, hchild, hm⟩ := at?_cons_eq_some_iff.mp hm
    have hmem := List.mem_of_getElem? hchild
    exact Span.contains_trans (h.contains_child hmem) (ih (h.child hmem) hm)

/-- What stands at the end of a path lies in what stands at the end of its beginnings. -/
theorem contains_of_prefix {k : Node} {beginning : List Nat} (h : n.IsTiled)
    (hpath : beginning <+: path) (hm : n.at? path = some m) (hk : n.at? beginning = some k) :
    k.span.contains m.span = true := by
  obtain ⟨more, rfl⟩ := hpath
  rw [at?_append, hk, Option.bind_some] at hm
  exact (h.at? hk).contains_at? hm

/-- No two children contain the same range with a byte. -/
theorem child_unique {target : Span} {i j : Nat} {k : Node} (h : n.IsTiled)
    (htarget : target.start < target.stop) (hm : n.children[i]? = some m)
    (hk : n.children[j]? = some k) (hmt : m.span.contains target = true)
    (hkt : k.span.contains target = true) : i = j := by
  have hpairwise := List.pairwise_iff_getElem.mp
    (pairwise_of_coversTo (h.coversTo (List.mem_of_getElem? hm)) h.forall_children)
  obtain ⟨hi, rfl⟩ := List.getElem?_eq_some_iff.mp hm
  obtain ⟨hj, rfl⟩ := List.getElem?_eq_some_iff.mp hk
  rw [Span.contains_iff] at hmt hkt
  -- of two children the one in front ends before the other begins, with the range between them
  rcases Nat.lt_trichotomy i j with hlt | heq | hlt
  · have hle := hpairwise i j hi hj hlt
    omega
  · exact heq
  · have hle := hpairwise j i hj hi hlt
    omega

/-- A byte of a node with children is a byte of one of them. -/
theorem exists_child (h : n.IsTiled) (hn : n.isLeaf = false) {offset : Nat}
    (hbyte : n.span.containsByte offset = true) :
    ∃ m ∈ n.children, m.span.containsByte offset = true := by
  rw [Span.containsByte_iff] at hbyte
  have hcovers := h.covers n (mem_preorder_of_at? (at?_nil n)) hn
  exact exists_containsByte_of_coversTo hcovers hbyte.1 hbyte.2

/-- The first child begins where its parent begins. -/
theorem start_of_children (h : n.IsTiled) {ms : List Node} (hchildren : n.children = m :: ms) :
    m.span.start = n.span.start := by
  have hcovers := h.coversTo (hchildren ▸ List.mem_cons_self)
  rw [hchildren] at hcovers
  simp only [Node.coversTo, Bool.and_eq_true, beq_iff_eq] at hcovers
  exact hcovers.1

/-- A leaf begins where the tree begins. -/
theorem exists_leaf_at_start (h : n.IsTiled) :
    ∃ path leaf, n.at? path = some leaf ∧ leaf.isLeaf = true ∧
      leaf.span.start = n.span.start := by
  induction n using induction_children with
  | node n ih =>
    cases hchildren : n.children with
    | nil => exact ⟨[], n, rfl, List.isEmpty_iff.mpr hchildren, rfl⟩
    | cons m ms =>
      have hmem : m ∈ n.children := hchildren ▸ List.mem_cons_self
      obtain ⟨path, leaf, hleaf, hisLeaf, hstart⟩ := ih m hmem (h.child hmem)
      refine ⟨0 :: path, leaf, at?_cons_eq_some_iff.mpr ⟨m, ?_, hleaf⟩, hisLeaf, ?_⟩
      · rw [hchildren]
        rfl
      · rw [hstart, h.start_of_children hchildren]

end IsTiled

end Node

/-- In the tree of a pattern children cover their parents, in the sense of `IsTiled`. -/
theorem Tree.isTiled_root (source : String) : (parse source).root.IsTiled where
  covers := by
    obtain ⟨later, -, -, htiles⟩ := tiles_root source
    intro n hn hleaf
    exact htiles.covers_of_mem n hn (by rw [Node.isBranch, hleaf]; rfl)
  start_le_stop := by
    intro n hn
    exact start_le_stop hn

end RegexTree
