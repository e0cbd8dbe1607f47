import RegexTree.Node.OfRegex
import RegexTree.Node.Query
import RegexTree.Node.Sexp
import RegexTree.Node.Traversal
import RegexTree.Regex.Reading

/-! # Trees of patterns
A pattern together with its uniform tree. The texts of the leaves, put together (`Tree.leafText`),
are the pattern again; the invalid nodes are the diagnostics (`Tree.diagnostics`), and a pattern
without any passes the check (`Regex.check`). -/

namespace RegexTree

/-- A pattern and its uniform tree. -/
structure Tree where
  /-- The pattern. -/
  source : String
  /-- The root of the uniform tree. -/
  root : Node
  deriving DecidableEq

namespace Tree

/-- The tree of a pattern that has been parsed, by `Node.ofRegex`. -/
def ofRegex (source : String) (regex : Regex) : Tree := ⟨source, .ofRegex regex⟩

/-- The tree of a pattern, from `Regex.parse`. -/
def parse (source : String) : Tree := ofRegex source (.parse source)

/-- The part of the pattern that a node marks. -/
def text (t : Tree) (n : Node) : String := n.textIn t.source

/-- The texts of the leaves, put together. -/
def leafText (t : Tree) : String :=
  t.root.leaves.foldl (fun out leaf => out ++ t.text leaf) ""

/-- The node that `Node.enclosing` reaches from the root by going down into the first child that
contains the span; an end that lies before the start counts as the start. -/
def enclosing (t : Tree) (start stop : Nat) : Node := t.root.enclosing ⟨start, max start stop⟩

/-- The leaf with the byte at an offset, found by `Node.leafWith?`. -/
def leafWith? (t : Tree) (offset : Nat) : Option Node := t.root.leafWith? offset

/-- What makes no sense in the pattern, in source order. -/
def diagnostics (t : Tree) : List Invalid :=
  t.root.invalids.filterMap fun n => n.reason.map (⟨n.span, ·⟩)

/-- The pattern makes no sense somewhere. -/
def hasInvalid (t : Tree) : Bool := !t.root.invalids.isEmpty

end Tree

/-- The typed tree of a pattern that makes sense throughout, or the `diagnostics` of one that does
not. -/
def Regex.check (pattern : String) : Except (List Invalid) Regex :=
  let regex := Regex.parse pattern
  let diagnostics := (Tree.ofRegex pattern regex).diagnostics
  if diagnostics.isEmpty then .ok regex else .error diagnostics

/-- A pattern passes the `check` exactly when it has no `diagnostics`. -/
theorem Regex.check_eq_ok_iff {pattern : String} {regex : Regex} :
    Regex.check pattern = .ok regex ↔
      regex = Regex.parse pattern ∧ (Tree.parse pattern).diagnostics = [] := by
  unfold Regex.check Tree.parse
  dsimp only
  split
  · rename_i h
    simp only [Except.ok.injEq, List.isEmpty_iff.mp h, and_true, eq_comm]
  · rename_i h
    simp only [List.isEmpty_iff] at h
    simp [h]

end RegexTree
