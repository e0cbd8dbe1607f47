import RegexTree.Json
import RegexTree.Node.Basic

/-! # Trees as JSON
A node is an object with its kind, where it starts and where it ends. The reason is there only on
invalid nodes, and the children only where there are any. -/

namespace RegexTree.Node

/-- The members of a node's object before its children. -/
def jsonHead (kind : NodeKind) (span : Span) (reason : Option Reason) :
    List (String × RegexTree.Json) :=
  [("kind", .string kind.name), ("start", .number span.start), ("end", .number span.stop)] ++
    (reason.map fun r => ("reason", RegexTree.Json.string r.tag)).toList

mutual

/-- A tree as a JSON value: `jsonHead` and, where there are any, the children. -/
def toJson : Node → RegexTree.Json
  | ⟨kind, span, reason, []⟩ => .object (jsonHead kind span reason)
  | ⟨kind, span, reason, n :: ns⟩ =>
    .object (jsonHead kind span reason ++ [("children", .array (n.toJson :: toJsons ns))])

/-- Trees as JSON values, each by `toJson`. -/
def toJsons : List Node → List RegexTree.Json
  | [] => []
  | n :: ns => n.toJson :: toJsons ns

end

end RegexTree.Node
