import RegexTree.Text.Quoted
import RegexTree.Tree

/-! # Outlines
A tree as indented lines (`OutlineLine`), one for each node, parents before children: two spaces for
each level, the kind, the span, the reason of invalid nodes, and the quoted text of leaves. -/

namespace RegexTree

/-- A line of an outline. -/
structure OutlineLine where
  /-- How deep the node lies below the root. -/
  level : Nat
  /-- What the node is. -/
  kind : NodeKind
  /-- Where it stands. -/
  span : Span
  /-- Why it makes no sense, on invalid nodes. -/
  reason : Option Reason
  /-- Its text, on leaves. -/
  text : Option String
  deriving DecidableEq, Repr

/-- The text of a line, with its end. -/
def OutlineLine.render (l : OutlineLine) : String :=
  String.ofList (List.replicate (2 * l.level) ' ') ++ l.kind.name ++ " " ++ l.span.display ++
    (l.reason.map fun r => " " ++ r.tag).getD "" ++
    (l.text.map fun text => " " ++ Text.quoted text).getD "" ++ "\n"

namespace Tree

/-- The `OutlineLine` of a node at a level. -/
def outlineLine (t : Tree) (n : Node) (level : Nat) : OutlineLine :=
  ⟨level, n.kind, n.span, n.reason, if n.isLeaf then some (t.text n) else none⟩

/-- The lines of a tree, one for each of `Node.levels`. -/
def outlineLines (t : Tree) : List OutlineLine :=
  t.root.levels.map fun (n, level) => t.outlineLine n level

/-- The outline of a tree: its `outlineLines`, each rendered. -/
def outline (t : Tree) : String :=
  t.outlineLines.foldl (fun out line => out ++ line.render) ""

/-- There are as many `outlineLines` as nodes. -/
theorem length_outlineLines (t : Tree) : t.outlineLines.length = t.root.size := by
  have h := congrArg List.length (Node.map_fst_levelsOfAll [(t.root, 0)])
  rw [List.length_map, Node.length_preorderOfAll] at h
  simpa [outlineLines, Node.levels] using h

end Tree

end RegexTree
