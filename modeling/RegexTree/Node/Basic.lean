import RegexTree.Invalid
import RegexTree.Node.Kind

/-! # The uniform tree
Every `Node` of the uniform tree has a kind, a span and children; invalid nodes have a reason too.
The leaves of a pattern's tree cut the pattern into pieces, fixed tokens included, and a missing
closing delimiter is an invalid leaf without width (`Node.isStandIn`). -/

namespace RegexTree

/-- A node of the uniform tree. -/
structure Node where
  /-- What the node is. -/
  kind : NodeKind
  /-- Where it stands. -/
  span : Span
  /-- Why it makes no sense, on invalid nodes. -/
  reason : Option Reason
  /-- The nodes that it consists of, in source order. -/
  children : List Node

namespace Node

/-- A node without children. -/
def leaf (kind : NodeKind) (span : Span) : Node := ⟨kind, span, none, []⟩

/-- A fixed token between two offsets, as a `leaf`. -/
def punctuation (start stop : Nat) : Node := leaf .punctuation ⟨start, stop⟩

/-- An `Invalid` as a leaf. -/
def ofInvalid (i : Invalid) : Node := ⟨.invalid, i.span, some i.reason, []⟩

/-- A node with children, which should cover its span. -/
def branch (kind : NodeKind) (span : Span) (children : List Node) : Node :=
  ⟨kind, span, none, children⟩

/-- The node has no children. -/
def isLeaf (n : Node) : Bool := n.children.isEmpty

/-- The node stands in, without width, for a missing closing delimiter. -/
def isStandIn (n : Node) : Bool := n.kind == .invalid && n.span.isEmpty

/-- The part of a source that the node marks, by `Span.textIn`. -/
def textIn (source : String) (n : Node) : String := n.span.textIn source

/-! ## Measures -/

mutual

/-- The number of levels from the node to its deepest descendant, the node's own included. -/
def depth : Node → Nat
  | ⟨_, _, _, children⟩ => 1 + depthOfAll children

/-- The greatest `depth` of some nodes. -/
def depthOfAll : List Node → Nat
  | [] => 0
  | n :: ns => max n.depth (depthOfAll ns)

end

mutual

/-- The number of nodes of a tree. -/
def size : Node → Nat
  | ⟨_, _, _, children⟩ => 1 + sizeOfAll children

/-- The number of nodes of some trees: their `size` together. -/
def sizeOfAll : List Node → Nat
  | [] => 0
  | n :: ns => n.size + sizeOfAll ns

end

/-! ## Equality -/

mutual

/-- Decide whether two trees are equal. -/
def decEq : (a b : Node) → Decidable (a = b)
  | ⟨k, s, r, xs⟩, ⟨l, t, q, ys⟩ =>
    match instDecidableEqProd (k, s, r) (l, t, q), decEqList xs ys with
    | isTrue h, isTrue i => isTrue (by simp_all)
    | isFalse h, _ => isFalse fun e => h (by simp_all)
    | _, isFalse i => isFalse fun e => i (congrArg Node.children e)

/-- Decide whether two lists of trees are equal. -/
def decEqList : (a b : List Node) → Decidable (a = b)
  | [], [] => isTrue rfl
  | [], _ :: _ => isFalse nofun
  | _ :: _, [] => isFalse nofun
  | x :: xs, y :: ys =>
    match x.decEq y, decEqList xs ys with
    | isTrue h, isTrue i => isTrue (by rw [h, i])
    | isFalse h, _ => isFalse fun e => h (List.cons.inj e).1
    | _, isFalse i => isFalse fun e => i (List.cons.inj e).2

end

instance : DecidableEq Node := decEq

/-! ## Laws of the measures -/

/-- No nodes have no depth. -/
@[simp] theorem depthOfAll_nil : depthOfAll [] = 0 := rfl

/-- No nodes have no size. -/
@[simp] theorem sizeOfAll_nil : sizeOfAll [] = 0 := rfl

/-- The `size` of the first tree and those of the others add up. -/
@[simp] theorem sizeOfAll_cons (n : Node) (ns : List Node) :
    sizeOfAll (n :: ns) = n.size + sizeOfAll ns := rfl

/-- In its `size` a node counts itself and all nodes of its children. -/
theorem size_eq (n : Node) : n.size = 1 + sizeOfAll n.children := by
  obtain ⟨_, _, _, _⟩ := n
  rfl

/-- Of two lists of trees, `sizeOfAll` counts the one and the other. -/
@[simp] theorem sizeOfAll_append (ms ns : List Node) :
    sizeOfAll (ms ++ ns) = sizeOfAll ms + sizeOfAll ns := by
  induction ms with
  | nil => simp
  | cons m ms ih => simp [ih, Nat.add_assoc]

end Node

end RegexTree
