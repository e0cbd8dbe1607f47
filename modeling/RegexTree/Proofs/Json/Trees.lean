import RegexTree.CommandLine.Run
import RegexTree.Proofs.Json.Values

/-! # Trees from JSON
A tree is decoded from its JSON value node by node: the kind by its name, the span from its two
ends, no reason where there is none, and no children where there are none. The main statement is
that the JSON text of a pattern is one value, which is decoded as the tree of the pattern, and that
its objects have no other members than those of nodes. -/

namespace RegexTree

namespace Json

/-- The text that a value is. -/
def string? : Json → Option String
  | string text => some text
  | _ => none

/-- The number that a value is. -/
def number? : Json → Option Nat
  | number value => some value
  | _ => none

mutual

/-- The members of every object in a value, at any depth. -/
def objects : Json → List (List (String × Json))
  | string _ => []
  | number _ => []
  | array items => objectsOfItems items
  | object members => members :: objectsOfMembers members

/-- The members of every object in some items. -/
def objectsOfItems : List Json → List (List (String × Json))
  | [] => []
  | item :: items => item.objects ++ objectsOfItems items

/-- The members of every object in the values of some members. -/
def objectsOfMembers : List (String × Json) → List (List (String × Json))
  | [] => []
  | (_, value) :: members => value.objects ++ objectsOfMembers members

end

end Json

namespace Node

/-! ## Decoding -/

/-- The keys that the object of a node may have, in order. -/
def jsonKeys : List String := ["kind", "start", "end", "reason", "children"]

/-- The kind whose name stands in an object. -/
def kindOf? (members : List (String × RegexTree.Json)) : Option NodeKind :=
  (members.lookup "kind").bind fun value => value.string?.bind NodeKind.ofName?

/-- The span whose ends stand in an object. -/
def spanOf? (members : List (String × RegexTree.Json)) : Option Span :=
  ((members.lookup "start").bind Json.number?).bind fun start =>
    ((members.lookup "end").bind Json.number?).map fun stop => ⟨start, stop⟩

/-- The reason whose tag stands in an object, if one does. -/
def reasonOf? (members : List (String × RegexTree.Json)) : Option (Option Reason) :=
  match members.lookup "reason" with
  | none => some none
  | some value => (value.string?.bind Reason.ofTag?).map some

mutual

/-- The tree that a value stands for. -/
def ofJson? : RegexTree.Json → Option Node
  | .object members => do
    let kind ← kindOf? members
    let span ← spanOf? members
    let reason ← reasonOf? members
    let children ← childrenOf? members
    return ⟨kind, span, reason, children⟩
  | _ => none

/-- The trees that items stand for. -/
def ofItems? : List RegexTree.Json → Option (List Node)
  | [] => some []
  | item :: items => do
    let n ← ofJson? item
    let ns ← ofItems? items
    return n :: ns

/-- The children that stand in an object; there are none where they are left out. -/
def childrenOf? : List (String × RegexTree.Json) → Option (List Node)
  | [] => some []
  | (key, value) :: members =>
    if key = "children" then childrenIn? value else childrenOf? members

/-- The children that a value stands for. -/
def childrenIn? : RegexTree.Json → Option (List Node)
  | .array items => ofItems? items
  | _ => none

end

/-- Only objects are decoded. -/
theorem exists_object_of_ofJson? {v : RegexTree.Json} {n : Node} (h : ofJson? v = some n) :
    ∃ members, v = .object members := by
  cases v with
  | object members => exact ⟨members, rfl⟩
  | _ => cases h

/-! ## Decoding what was encoded -/

/-- The member with the children of a node, which is left out where there are none. -/
def childrenMember : List Node → List (String × RegexTree.Json)
  | [] => []
  | n :: ns => [("children", .array (toJsons (n :: ns)))]

/-- The value of a tree is an object with the head of its root (`jsonHead`) and its children. -/
theorem toJson_eq (n : Node) :
    n.toJson = .object (jsonHead n.kind n.span n.reason ++ childrenMember n.children) := by
  obtain ⟨kind, span, reason, _ | ⟨child, children⟩⟩ := n
  · rw [toJson, childrenMember, List.append_nil]
  · rw [toJson, childrenMember, toJsons]

section

variable (kind : NodeKind) (span : Span) (reason : Option Reason)
  (more : List (String × RegexTree.Json))

/-- The kind is decoded from its name. -/
theorem kindOf?_jsonHead : kindOf? (jsonHead kind span reason ++ more) = some kind :=
  NodeKind.ofName?_name kind

/-- The span is decoded from its ends. -/
theorem spanOf?_jsonHead : spanOf? (jsonHead kind span reason ++ more) = some span := rfl

/-- The reason is decoded from its tag. -/
theorem reasonOf?_jsonHead (ns : List Node) :
    reasonOf? (jsonHead kind span reason ++ childrenMember ns) = some reason := by
  cases reason with
  | none => cases ns <;> rfl
  | some r =>
    show ((some r.tag).bind Reason.ofTag?).map some = some (some r)
    rw [Option.bind_some, Reason.ofTag?_tag, Option.map_some]

/-- The head says nothing about children. -/
theorem childrenOf?_jsonHead :
    childrenOf? (jsonHead kind span reason ++ more) = childrenOf? more := by
  cases reason <;> simp [jsonHead, childrenOf?]

/-- The keys of an object are in order, and none of them occurs twice. -/
theorem sublist_jsonKeys (ns : List Node) :
    ((jsonHead kind span reason ++ childrenMember ns).map Prod.fst).Sublist jsonKeys := by
  cases reason <;> cases ns <;> simp [jsonHead, childrenMember, jsonKeys]

end

mutual

/-- The value of a tree is decoded by `ofJson?` as the tree. -/
theorem ofJson?_toJson : (n : Node) → ofJson? n.toJson = some n
  | ⟨kind, span, reason, children⟩ => by
    have hchildren : childrenOf? (childrenMember children) = some children := by
      cases children with
      | nil => rw [childrenMember, childrenOf?]
      | cons n ns =>
        rw [childrenMember, childrenOf?, if_pos rfl, childrenIn?, ofItems?_toJsons (n :: ns)]
    rw [toJson_eq, ofJson?, kindOf?_jsonHead, spanOf?_jsonHead, reasonOf?_jsonHead,
      childrenOf?_jsonHead, hchildren]
    rfl

/-- The values of some trees are decoded by `ofItems?` as the trees. -/
theorem ofItems?_toJsons : (ns : List Node) → ofItems? (toJsons ns) = some ns
  | [] => by rw [toJsons, ofItems?]
  | n :: ns => by
    rw [toJsons, ofItems?, ofJson?_toJson n, ofItems?_toJsons ns]
    rfl

end

/-! ## Objects of trees -/

/-- There are no objects in the head of a node. -/
theorem objectsOfMembers_jsonHead (kind : NodeKind) (span : Span) (reason : Option Reason)
    (more : List (String × RegexTree.Json)) :
    Json.objectsOfMembers (jsonHead kind span reason ++ more) = Json.objectsOfMembers more := by
  cases reason <;> simp [jsonHead, Json.objectsOfMembers, Json.objects]

mutual

/-- Every object in the value of a tree is that of a node. -/
theorem exists_of_mem_objects {members : List (String × RegexTree.Json)} : (n : Node) →
    members ∈ n.toJson.objects →
      ∃ kind span reason ns, members = jsonHead kind span reason ++ childrenMember ns
  | ⟨kind, span, reason, children⟩, h => by
    rw [toJson_eq, Json.objects, objectsOfMembers_jsonHead, List.mem_cons] at h
    rcases h with rfl | h
    · exact ⟨kind, span, reason, children, rfl⟩
    cases children with
    | nil =>
      rw [childrenMember, Json.objectsOfMembers] at h
      cases h
    | cons n ns =>
      rw [childrenMember, Json.objectsOfMembers, Json.objectsOfMembers, List.append_nil,
        Json.objects] at h
      exact exists_of_mem_objectsOfItems (n :: ns) h

/-- Every object in the values of some trees is that of a node. -/
theorem exists_of_mem_objectsOfItems {members : List (String × RegexTree.Json)} : (ns : List Node) →
    members ∈ Json.objectsOfItems (toJsons ns) →
      ∃ kind span reason ms, members = jsonHead kind span reason ++ childrenMember ms
  | [], h => by
    rw [toJsons, Json.objectsOfItems] at h
    cases h
  | n :: ns, h => by
    rw [toJsons, Json.objectsOfItems, List.mem_append] at h
    exact h.elim (exists_of_mem_objects n) (exists_of_mem_objectsOfItems ns)

end

end Node

namespace Tree

/-- JSON loses nothing. The reader reads exactly the texts that spell the tokens of a value, as this
value. The JSON text of every pattern, with the line end behind it, is read as a value that is
decoded as the tree of the pattern, and whose objects, at any depth, have no other keys than those
of nodes, in order, and the name of a kind; so that patterns that have the same JSON text have equal
trees. -/
theorem json_lossless :
    (∀ text v, Json.read? text = some v ↔ Json.IsText v text) ∧
      (∀ source : String, ∃ v,
        Json.read? (CommandLine.render .json (parse source)) = some v ∧
          Node.ofJson? v = some (parse source).root ∧
            ∀ members ∈ v.objects, (members.map Prod.fst).Sublist Node.jsonKeys ∧
              ∃ name kind, members.lookup "kind" = some (.string name) ∧
                NodeKind.ofName? name = some kind) ∧
      ∀ a b : String, CommandLine.render .json (parse a) = CommandLine.render .json (parse b) →
        (parse a).root = (parse b).root := by
  have hread : ∀ source : String,
      Json.read? (CommandLine.render .json (parse source)) = some (parse source).root.toJson :=
    fun source => Json.read?_eq_some_iff.mpr
      (Json.isText_pretty (parse source).root.toJson (List.forall_mem_singleton.mpr rfl))
  refine ⟨fun text v => Json.read?_eq_some_iff, fun source => ?_, fun a b h => ?_⟩
  · refine ⟨_, hread source, Node.ofJson?_toJson _, fun members hmembers => ?_⟩
    obtain ⟨kind, span, reason, ns, rfl⟩ := Node.exists_of_mem_objects _ hmembers
    exact ⟨Node.sublist_jsonKeys kind span reason ns, kind.name, kind, rfl,
      NodeKind.ofName?_name kind⟩
  · have hvalue := hread a
    rw [h, hread b] at hvalue
    have hroot := congrArg Node.ofJson? (Option.some.inj hvalue)
    rw [Node.ofJson?_toJson, Node.ofJson?_toJson] at hroot
    exact (Option.some.inj hroot).symm

/-- Two patterns with different bad escapes in a group that is not closed have the same JSON text,
since texts of leaves are not in it. It is read as one object, which is decoded as both trees. -/
theorem json_lossless_escape :
    let text := CommandLine.render .json (parse "(\\q")
    CommandLine.render .json (parse "(\\y") = text ∧
      (∃ members, Json.read? text = some (.object members) ∧
        Node.ofJson? (.object members) = some (parse "(\\q").root ∧
          (members.map Prod.fst).Sublist Node.jsonKeys) ∧
        (parse "(\\y").root = (parse "(\\q").root := by
  intro text
  obtain ⟨hexact, hdecoded, hequal⟩ := json_lossless
  have htree : (parse "(\\y").root = (parse "(\\q").root := by decide +kernel
  have htext : CommandLine.render .json (parse "(\\y") = text :=
    congrArg (fun root : Node => root.toJson.pretty ++ "\n") htree
  refine ⟨htext, ?_, hequal "(\\y" "(\\q" htext⟩
  obtain ⟨v, hread, hroot, hobjects⟩ := hdecoded "(\\q"
  obtain ⟨members, rfl⟩ := Node.exists_object_of_ofJson? hroot
  rw [Json.objects] at hobjects
  exact ⟨members, (hexact _ _).mpr ((hexact _ _).mp hread), hroot,
    (hobjects members List.mem_cons_self).1⟩

end Tree

end RegexTree
