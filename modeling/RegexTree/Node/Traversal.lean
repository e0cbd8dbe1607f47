import RegexTree.Node.Basic

/-! # Traversals
The nodes of a tree in source order, parents before children, are visited from a list of nodes that
are still to be visited, so that trees of any depth can be walked. The main statements,
`Node.preorder_eq` and `Node.map_fst_levelsOfAll`, say what this order is by recursion on the tree
and that it is the same with depths. -/

namespace RegexTree.Node

/-- All nodes of some trees, parents before children. -/
def preorderOfAll : List Node → List Node
  | [] => []
  | n :: pending => n :: preorderOfAll (n.children ++ pending)
termination_by ns => sizeOfAll ns
decreasing_by simp [size_eq]

/-- All nodes of a tree, parents before children: `preorderOfAll` from the root alone. -/
def preorder (n : Node) : List Node := preorderOfAll [n]

/-- The children of a node with their depth, given that of the node. -/
def childrenBelow (n : Node) (level : Nat) : List (Node × Nat) := n.children.map (·, level + 1)

/-- Without their depth the nodes of `childrenBelow` are the children. -/
@[simp] theorem map_fst_childrenBelow (n : Node) (level : Nat) :
    (n.childrenBelow level).map Prod.fst = n.children := by
  simp [childrenBelow, Function.comp_def]

/-- The nodes with their depths and all nodes below them, parents before children. -/
def levelsOfAll : List (Node × Nat) → List (Node × Nat)
  | [] => []
  | (n, level) :: pending => (n, level) :: levelsOfAll (n.childrenBelow level ++ pending)
termination_by ns => sizeOfAll (ns.map Prod.fst)
decreasing_by simp [size_eq]

/-- All nodes of a tree with their depths, the root's being zero, in the order of `preorder`. -/
def levels (n : Node) : List (Node × Nat) := levelsOfAll [(n, 0)]

/-- The nodes of `preorder` without children, in source order. -/
def leaves (n : Node) : List Node := n.preorder.filter (·.isLeaf)

/-- The invalid nodes, in source order. -/
def invalids (n : Node) : List Node := n.preorder.filter (·.kind == .invalid)

/-! ## The order by recursion on the tree -/

/-- What `preorderOfAll` has still to visit does not change what it visits before. -/
theorem preorderOfAll_append (ms ns : List Node) :
    preorderOfAll (ms ++ ns) = preorderOfAll ms ++ preorderOfAll ns := by
  fun_induction preorderOfAll ms with
  | case1 => rfl
  | case2 m pending ih => rw [List.cons_append, preorderOfAll, ← List.append_assoc, ih]; rfl

/-- Visiting some trees is visiting each by `preorder`, one after the other. -/
theorem preorderOfAll_eq_flatMap (ns : List Node) : preorderOfAll ns = ns.flatMap preorder := by
  induction ns with
  | nil => rw [preorderOfAll]; rfl
  | cons n ns ih => rw [List.flatMap_cons, ← ih, preorder, ← preorderOfAll_append]; rfl

/-- The root comes first, and the nodes below each child follow in order. -/
theorem preorder_eq (n : Node) : n.preorder = n :: n.children.flatMap preorder := by
  rw [preorder, preorderOfAll, List.append_nil, preorderOfAll_eq_flatMap]

/-- The traversal `preorderOfAll` visits every node once. -/
theorem length_preorderOfAll (ns : List Node) : (preorderOfAll ns).length = sizeOfAll ns := by
  fun_induction preorderOfAll ns with
  | case1 => rfl
  | case2 n pending ih =>
    simp only [List.length_cons, ih, sizeOfAll_append, sizeOfAll_cons, size_eq]
    omega

/-- With or without depths, the same nodes are visited in the same order. -/
theorem map_fst_levelsOfAll (ns : List (Node × Nat)) :
    (levelsOfAll ns).map Prod.fst = preorderOfAll (ns.map Prod.fst) := by
  fun_induction levelsOfAll ns with
  | case1 => rw [List.map_nil, preorderOfAll]
  | case2 n level pending ih => rw [List.map_cons, ih, List.map_cons, preorderOfAll]; simp

end RegexTree.Node
