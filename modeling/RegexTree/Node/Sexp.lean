import RegexTree.Node.Basic

/-! # S-expressions
A tree is written in one line as nested parentheses: the name of the kind, the tag of the reason on
invalid nodes (`Node.sexpHead`), and the children that have a name. Spans are left out. -/

namespace RegexTree.Node

/-- What an opening parenthesis and the words after it look like. -/
def sexpHead (kind : NodeKind) (reason : Option Reason) : String :=
  match reason with
  | none => "(" ++ kind.name
  | some r => "(" ++ kind.name ++ " " ++ r.tag

mutual

/-- A text and the S-expression of a tree after it, which begins with `sexpHead`. -/
def appendSexp (out : String) : Node → String
  | ⟨kind, _, reason, children⟩ => appendSexps (out ++ sexpHead kind reason) children ++ ")"

/-- A text and, after it, the nodes that have a name, with a space before each. -/
def appendSexps (out : String) : List Node → String
  | [] => out
  | n :: ns => appendSexps (if n.kind.isNamed then appendSexp (out ++ " ") n else out) ns

end

/-- A tree as an S-expression, by `appendSexp` to an empty text. -/
def sexp (n : Node) : String := appendSexp "" n

end RegexTree.Node
