import RegexTree.Proofs.Outlines
import RegexTree.Proofs.Paths
import RegexTree.Proofs.Skeletons

/-! # Traversals by recursion
Nodes and lines of outlines are visited from a list of what is still to be visited, and
S-expressions are written by a recursion that leaves tokens out. This module says by recursion on
the tree, with the path to each node, in which order the nodes come (`Node.nodes` and
`Node.withPaths`). The main statement is that all of them follow this one order: every tree is
visited root first and child by child, so that each path occurs once and the paths ascend; an
outline has one line for each path, indented by two spaces for each of its steps; and the names in
the S-expression of a pattern are those of its nodes in this order, but for the tokens. -/

namespace RegexTree

namespace Node

/-! ## The order by recursion on the tree -/

mutual

/-- The root of a tree and, behind it, the nodes of one child after the other. -/
def nodes : Node → List Node
  | ⟨kind, span, reason, children⟩ => ⟨kind, span, reason, children⟩ :: nodesOfAll children

/-- The nodes of one tree after the other. -/
def nodesOfAll : List Node → List Node
  | [] => []
  | n :: ns => n.nodes ++ nodesOfAll ns

end

mutual

/-- The nodes of a tree in the same order, each behind the path that leads to it. -/
def withPaths : Node → List (List Nat × Node)
  | ⟨kind, span, reason, children⟩ =>
    ([], ⟨kind, span, reason, children⟩) :: withPathsFrom 0 children

/-- The nodes of one tree after the other, with the paths that lead to them where these trees are
children and the first has the given number. -/
def withPathsFrom (i : Nat) : List Node → List (List Nat × Node)
  | [] => []
  | n :: ns => n.withPaths.map (fun p => (i :: p.1, p.2)) ++ withPathsFrom (i + 1) ns

end

/-- The root comes first, with the empty path. -/
theorem withPaths_eq (n : Node) : n.withPaths = ([], n) :: withPathsFrom 0 n.children := by
  obtain ⟨_, _, _, _⟩ := n
  rw [withPaths]

mutual

/-- Without their paths (`withPaths`) these are the nodes of the tree. -/
theorem map_snd_withPaths : (n : Node) → n.withPaths.map Prod.snd = n.nodes
  | ⟨kind, span, reason, children⟩ => by
    rw [withPaths, List.map_cons, map_snd_withPathsFrom, nodes]

/-- Without their paths these are the nodes of one tree after the other. -/
theorem map_snd_withPathsFrom (i : Nat) :
    (ns : List Node) → (withPathsFrom i ns).map Prod.snd = nodesOfAll ns
  | [] => by rw [withPathsFrom, List.map_nil, nodesOfAll]
  | n :: ns => by
    have hfirst : (n.withPaths.map fun p => (i :: p.1, p.2)).map Prod.snd = n.nodes := by
      rw [List.map_map]
      exact map_snd_withPaths n
    rw [withPathsFrom, List.map_append, hfirst, map_snd_withPathsFrom, nodesOfAll]

end

/-! ## Every path once, in ascending order -/

section Paths

variable {i : Nat} {ns : List Node} {path : List Nat} {m : Node}

/-- A path of `withPathsFrom` that leads to a node of some children goes into one of them first. -/
theorem mem_withPathsFrom_iff :
    (path, m) ∈ withPathsFrom i ns ↔ ∃ j child rest, ns[j]? = some child ∧
      path = (i + j) :: rest ∧ (rest, m) ∈ child.withPaths := by
  induction ns generalizing i with
  | nil => simp [withPathsFrom]
  | cons n ns ih =>
    rw [withPathsFrom, List.mem_append, ih]
    constructor
    · rintro (hfirst | ⟨j, child, rest, hchild, rfl, hm⟩)
      · obtain ⟨⟨rest, k⟩, hm, heq⟩ := List.mem_map.mp hfirst
        cases heq
        exact ⟨0, n, rest, rfl, rfl, hm⟩
      · refine ⟨j + 1, child, rest, hchild, ?_, hm⟩
        rw [Nat.add_assoc, Nat.add_comm 1 j]
    · rintro ⟨_ | j, child, rest, hchild, rfl, hm⟩
      · cases hchild
        exact .inl (List.mem_map.mpr ⟨_, hm, rfl⟩)
      · refine .inr ⟨j, child, rest, hchild, ?_, hm⟩
        rw [Nat.add_assoc, Nat.add_comm 1 j]

/-- A path is listed with a node exactly if it leads to this node (`Node.at?`). -/
theorem mem_withPaths_iff {n : Node} : (path, m) ∈ n.withPaths ↔ n.at? path = some m := by
  induction path generalizing n with
  | nil =>
    rw [withPaths_eq, List.mem_cons, mem_withPathsFrom_iff]
    constructor
    · rintro (heq | ⟨_, _, _, _, hpath, _⟩)
      · cases heq
        rfl
      · cases hpath
    · rintro ⟨⟩
      exact .inl rfl
  | cons k path ih =>
    rw [withPaths_eq, List.mem_cons, mem_withPathsFrom_iff, at?_cons_eq_some_iff]
    constructor
    · rintro (heq | ⟨j, child, rest, hchild, hpath, hm⟩)
      · cases heq
      · rw [Nat.zero_add] at hpath
        cases hpath
        exact ⟨child, hchild, ih.mp hm⟩
    · rintro ⟨child, hchild, hm⟩
      exact .inr ⟨k, child, path, hchild, by rw [Nat.zero_add], ih.mpr hm⟩

/-- If the paths in each child ascend, those that lead through the children do. -/
theorem pairwise_withPathsFrom (hns : ∀ n ∈ ns, (n.withPaths.map Prod.fst).Pairwise (· < ·)) :
    ((withPathsFrom i ns).map Prod.fst).Pairwise (· < ·) := by
  induction ns generalizing i with
  | nil => simp [withPathsFrom]
  | cons n ns ih =>
    obtain ⟨hn, hothers⟩ := List.forall_mem_cons.mp hns
    rw [withPathsFrom, List.map_append, List.map_map]
    refine List.pairwise_append.mpr ⟨?_, ih hothers, ?_⟩
    · -- below one child the first steps are equal
      refine List.pairwise_map.mpr ((List.pairwise_map.mp hn).imp fun hlt => ?_)
      exact List.cons_lt_cons_iff.mpr (.inr ⟨rfl, hlt⟩)
    · -- and those into later children are larger
      intro p hp q hq
      obtain ⟨⟨path, m⟩, -, rfl⟩ := List.mem_map.mp hp
      obtain ⟨⟨other, k⟩, hother, rfl⟩ := List.mem_map.mp hq
      obtain ⟨j, child, rest, -, rfl, -⟩ := mem_withPathsFrom_iff.mp hother
      have hlt : i < i + 1 + j := by omega
      exact List.cons_lt_cons_iff.mpr (.inl hlt)

/-- The paths of a tree ascend: one that goes on follows its beginnings, and one that branches off
to the right follows what lies to the left. -/
theorem pairwise_withPaths (n : Node) : (n.withPaths.map Prod.fst).Pairwise (· < ·) := by
  induction n using induction_children with
  | node n ih =>
    rw [withPaths_eq, List.map_cons]
    refine List.pairwise_cons.mpr ⟨fun path hpath => ?_, pairwise_withPathsFrom ih⟩
    obtain ⟨⟨path, m⟩, hmem, rfl⟩ := List.mem_map.mp hpath
    obtain ⟨j, child, rest, -, rfl, -⟩ := mem_withPathsFrom_iff.mp hmem
    exact List.nil_lt_cons _ _

end Paths

/-! ## Visits from a list of what is still to be visited -/

/-- What is still to be visited by `levelsOfAll` changes neither what is visited before nor its
levels. -/
theorem levelsOfAll_append (ps qs : List (Node × Nat)) :
    levelsOfAll (ps ++ qs) = levelsOfAll ps ++ levelsOfAll qs := by
  fun_induction levelsOfAll ps with
  | case1 => rfl
  | case2 n level pending ih =>
    rw [List.cons_append, levelsOfAll, ← List.append_assoc, ih, List.cons_append]

mutual

/-- From a node at a level, all nodes below it are visited in the order of the recursion, and each
lies as many levels deeper as its path has steps. -/
theorem levelsOfAll_singleton (level : Nat) : (n : Node) →
    levelsOfAll [(n, level)] = n.withPaths.map fun p => (p.2, level + p.1.length)
  | ⟨kind, span, reason, children⟩ => by
    rw [levelsOfAll, List.append_nil, childrenBelow, levelsOfAll_map level 0, withPaths,
      List.map_cons]
    rfl

/-- From nodes one level deeper, one is visited after the other. -/
theorem levelsOfAll_map (level i : Nat) : (ns : List Node) →
    levelsOfAll (ns.map (·, level + 1)) =
      (withPathsFrom i ns).map fun p => (p.2, level + p.1.length)
  | [] => by rw [List.map_nil, levelsOfAll, withPathsFrom, List.map_nil]
  | n :: ns => by
    have hfirst : (n.withPaths.map fun p => (p.2, level + 1 + p.1.length)) =
        (n.withPaths.map fun p => (i :: p.1, p.2)).map fun p => (p.2, level + p.1.length) := by
      simp [Function.comp_def, Nat.add_assoc, Nat.add_comm 1]
    rw [List.map_cons, ← List.singleton_append, levelsOfAll_append, levelsOfAll_singleton, hfirst,
      levelsOfAll_map level (i + 1) ns, withPathsFrom, List.map_append]

end

/-- The level of a node is the number of steps of the path that leads to it. -/
theorem levels_eq (n : Node) : n.levels = n.withPaths.map fun p => (p.2, p.1.length) := by
  simp [levels, levelsOfAll_singleton]

/-- Nodes are visited by `preorder` in the order of the recursion. -/
theorem preorder_eq_nodes (n : Node) : n.preorder = n.nodes := by
  have hlevels := map_fst_levelsOfAll [(n, 0)]
  rw [levelsOfAll_singleton, List.map_map] at hlevels
  exact hlevels.symm.trans (map_snd_withPaths n)

end Node

/-! ## Lines of outlines -/

/-- The number of spaces that a line begins with. -/
def Text.indentation (line : List Char) : Nat := (line.takeWhile (· == ' ')).length

/-- A line is indented by two spaces for each level. -/
theorem OutlineLine.indentation_chars (l : OutlineLine) :
    Text.indentation l.chars = 2 * l.level := by
  rw [Text.indentation, l.span_chars.1, List.length_replicate]

/-- The lines of an outline, in order, are those of the nodes at the levels of their paths. -/
theorem Tree.outlineLines_eq (t : Tree) :
    t.outlineLines = t.root.withPaths.map fun p => t.outlineLine p.2 p.1.length := by
  rw [outlineLines, Node.levels_eq, List.map_map]
  rfl

/-- An outline is split where its lines end (`OutlineLine.chars`). -/
theorem Tree.splitOn_outline (t : Tree) :
    t.outline.toList.splitOn '\n' = t.outlineLines.map OutlineLine.chars ++ [[]] := by
  rw [outline, Text.toList_foldl_append, String.toList_empty, List.nil_append, splitOn_render]

/-! ## Names in S-expressions -/

namespace Text

/-- The words that stand behind the opening parentheses of a text. -/
def openingWords : List Char → List (List Char)
  | [] => []
  | c :: text =>
    if c = '(' then text.takeWhile isWordChar :: openingWords text else openingWords text

/-- A text without opening parentheses adds no words. -/
theorem openingWords_append {s : List Char} (hs : '(' ∉ s) (t : List Char) :
    openingWords (s ++ t) = openingWords t := by
  induction s with
  | nil => rfl
  | cons c s ih =>
    rw [List.mem_cons, not_or] at hs
    rw [List.cons_append, openingWords, if_neg (Ne.symm hs.1), ih hs.2]

end Text

namespace Skeleton

/-- The words behind an opening parenthesis have no parenthesis among them. -/
theorem parenthesis_not_mem_headText (kind : NodeKind) (reason : Option Reason) :
    '(' ∉ headText kind reason := by
  refine Text.not_mem_joinWord (by decide) (not_mem_of_isWordChar kind.name_isWord rfl) ?_
  intro tag htag
  obtain ⟨r, -, rfl⟩ := Option.map_eq_some_iff.mp htag
  exact not_mem_of_isWordChar r.tag_isWord rfl

/-- The first of the words behind an opening parenthesis (`headText`) is the name of the kind. -/
theorem takeWhile_headText (kind : NodeKind) (reason : Option Reason) {text : List Char}
    (htext : ∀ c ∈ text.head?, isWordChar c = false) :
    (headText kind reason ++ text).takeWhile isWordChar = kind.name.toList := by
  rw [headText, Text.joinWord, List.append_assoc]
  refine (takeWhile_dropWhile_append kind.name_isWord ?_).1
  cases reason with
  | none => exact htext
  | some r =>
    rintro _ ⟨⟩
    rfl

/-- No word goes on where some skeletons and a closing parenthesis follow. -/
theorem head_writeAll (ks : List Skeleton) (text : List Char) :
    ∀ c ∈ (writeAll ks ++ ')' :: text).head?, isWordChar c = false := by
  cases ks with
  | nil =>
    rintro _ ⟨⟩
    rfl
  | cons k ks =>
    rw [writeAll]
    rintro _ ⟨⟩
    rfl

/-- The text of a skeleton begins with the name of its kind, and the names of its children follow. -/
theorem openingWords_write (kind : NodeKind) (reason : Option Reason) (ks : List Skeleton)
    (text : List Char) :
    Text.openingWords (write ⟨kind, reason, ks⟩ ++ text) =
      kind.name.toList :: Text.openingWords (writeAll ks ++ ')' :: text) := by
  rw [write, List.cons_append, Text.openingWords, if_pos rfl]
  simp only [List.append_assoc, List.singleton_append]
  rw [takeWhile_headText kind reason (head_writeAll ks text),
    Text.openingWords_append (parenthesis_not_mem_headText kind reason)]

end Skeleton

namespace Node

/-- The names of the nodes of some trees, in the order of visits and without tokens. -/
def namesOfAll (ns : List Node) : List (List Char) :=
  ((preorderOfAll ns).filter (·.kind.isNamed)).map (·.kind.name.toList)

/-- The names of some trees (`namesOfAll`) are those of the first and those of the others. -/
theorem namesOfAll_cons (n : Node) (ns : List Node) :
    namesOfAll (n :: ns) =
      (if n.kind.isNamed then [n.kind.name.toList] else []) ++ namesOfAll n.children ++
        namesOfAll ns := by
  rw [namesOfAll, preorderOfAll_cons]
  by_cases hn : n.kind.isNamed = true
  · simp [namesOfAll, hn]
  · simp [namesOfAll, hn]

/-- The names that are written for some trees are those of their nodes in the order of visits. -/
theorem openingWords_skeletons (text : List Char) : (ns : List Node) →
    Text.openingWords (Skeleton.writeAll (skeletons ns) ++ text) =
      namesOfAll ns ++ Text.openingWords text
  | [] => by simp [skeletons, Skeleton.writeAll, namesOfAll, preorderOfAll]
  | ⟨kind, span, reason, children⟩ :: ns => by
    rw [skeletons, namesOfAll_cons]
    by_cases hkind : kind = .punctuation
    · -- what a token consists of takes its place
      have hnamed : ¬ kind.isNamed = true := by simp [NodeKind.isNamed, hkind]
      rw [if_pos hkind, if_neg hnamed, Skeleton.writeAll_append, List.append_assoc,
        openingWords_skeletons, openingWords_skeletons]
      simp
    · have hnamed : kind.isNamed = true := bne_iff_ne.mpr hkind
      rw [if_neg hkind, if_pos hnamed, Skeleton.writeAll, skeleton, List.cons_append,
        Text.openingWords, if_neg (by decide), List.append_assoc, Skeleton.openingWords_write,
        openingWords_skeletons]
      rw [Text.openingWords, if_neg (by decide), openingWords_skeletons]
      simp

/-- The names that are written for a tree are those of the root and of the nodes below it. -/
theorem openingWords_skeleton (n : Node) :
    Text.openingWords n.skeleton.write = n.kind.name.toList :: namesOfAll n.children := by
  obtain ⟨kind, span, reason, children⟩ := n
  have hroot := Skeleton.openingWords_write kind reason (skeletons children) []
  rw [List.append_nil, openingWords_skeletons] at hroot
  rw [skeleton, hroot, Text.openingWords, if_neg (by decide), Text.openingWords, List.append_nil]

end Node

namespace Tree

/-- The names in the S-expression of a pattern are those of its nodes in the order of visits, but
for the tokens. -/
theorem openingWords_sexp (source : String) :
    Text.openingWords (parse source).root.sexp.toList =
      ((parse source).root.preorder.filter (·.kind.isNamed)).map (·.kind.name.toList) := by
  have hnames : Node.namesOfAll [(parse source).root] =
      (parse source).root.kind.name.toList :: Node.namesOfAll (parse source).root.children := by
    have hroot : (parse source).root.kind.isNamed = true := rfl
    rw [Node.namesOfAll_cons, if_pos hroot]
    simp [Node.namesOfAll, Node.preorderOfAll]
  rw [sexp_parse, String.toList_ofList, Node.openingWords_skeleton, ← hnames]
  rfl

/-- All traversals follow the recursion on the tree. A tree is visited root first and child by
child, in which order each path to a node occurs once and the paths ascend. The outline of a tree
has one line for each path in this order, indented by two spaces for each step. The names in the
S-expression of a pattern are those of the nodes in this order, but for the tokens. -/
theorem traversals_agree :
    (∀ n : Node, n.preorder = n.nodes ∧ n.nodes = n.withPaths.map Prod.snd ∧
        (n.withPaths.map Prod.fst).Pairwise (· < ·) ∧
        ∀ path m, (path, m) ∈ n.withPaths ↔ n.at? path = some m) ∧
      (∀ t : Tree,
        let lines := t.root.withPaths.map fun p => (t.outlineLine p.2 p.1.length).chars
        t.outline.toList.splitOn '\n' = lines ++ [[]] ∧
          lines.map Text.indentation = t.root.withPaths.map fun p => 2 * p.1.length) ∧
      ∀ source : String, Text.openingWords (parse source).root.sexp.toList =
        ((parse source).root.preorder.filter (·.kind != .punctuation)).map
          (·.kind.name.toList) := by
  refine ⟨fun n => ?_, fun t => ?_, openingWords_sexp⟩
  · exact ⟨n.preorder_eq_nodes, n.map_snd_withPaths.symm, n.pairwise_withPaths,
      fun path m => Node.mem_withPaths_iff⟩
  · intro lines
    have hlines : t.outlineLines.map OutlineLine.chars = lines := by
      rw [outlineLines_eq, List.map_map]
      rfl
    refine ⟨hlines ▸ t.splitOn_outline, ?_⟩
    rw [List.map_map]
    exact List.map_congr_left fun p _ => OutlineLine.indentation_chars _

/-- The paths to the root, the disjunction, the first alternative with its character, the bar and
the second alternative with its character. -/
example : (parse "a|b").root.withPaths.map Prod.fst =
    [[], [0], [0, 0], [0, 0, 0], [0, 1], [0, 2], [0, 2, 0]] := by
  decide +kernel

end Tree

end RegexTree
