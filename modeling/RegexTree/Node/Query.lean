import RegexTree.Node.Basic

/-! # Queries by position
From the root downwards, each query goes into the first child that fits, as long as one does:
`Node.enclosing` for a span, `Node.leafWith?` for a byte. -/

namespace RegexTree.Node

mutual

/-- The node that is reached by going down into the first child that contains the span. -/
def enclosing (target : Span) : Node → Node
  | ⟨kind, span, reason, children⟩ =>
    (enclosingAmong target children).getD ⟨kind, span, reason, children⟩

/-- The node that `enclosing` reaches below the first of some nodes that contains the span. -/
def enclosingAmong (target : Span) : List Node → Option Node
  | [] => none
  | n :: ns =>
    if n.span.contains target then some (n.enclosing target) else enclosingAmong target ns

end

mutual

/-- The leaf that is reached by going down into the first child with the byte at the offset, if that
leaf has the byte. -/
def leafWith? (offset : Nat) : Node → Option Node
  | ⟨kind, span, reason, children⟩ =>
    match leafAmong? offset children with
    | some found => found
    | none =>
      if children.isEmpty && span.containsByte offset then some ⟨kind, span, reason, children⟩
      else none

/-- What `leafWith?` reaches below the first of some nodes with the byte at the offset. -/
def leafAmong? (offset : Nat) : List Node → Option (Option Node)
  | [] => none
  | n :: ns =>
    if n.span.containsByte offset then some (n.leafWith? offset) else leafAmong? offset ns

end

/-- Without a child that contains the span, the node itself is the answer of `enclosing`. -/
theorem enclosing_eq_self {target : Span} {n : Node}
    (h : ∀ m ∈ n.children, m.span.contains target = false) : n.enclosing target = n := by
  obtain ⟨kind, span, reason, children⟩ := n
  suffices enclosingAmong target children = none by simp [enclosing, this]
  induction children with
  | nil => rfl
  | cons m ms ih =>
    rw [enclosingAmong, h m (by simp)]
    exact ih fun k hk => h k (List.mem_cons_of_mem m hk)

end RegexTree.Node
