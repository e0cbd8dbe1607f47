import RegexTree.Proofs.Tiling.Basic
import RegexTree.Tree

/-! # Diagnostics of typed trees
What makes no sense in a typed tree, part by part in source order, with the stand-ins for missing
closing delimiters. The main statement, `Tree.invalids_parse`, says that these are the invalid nodes
of the uniform tree, so that the check of a pattern can be decided on its typed tree. -/

namespace RegexTree

/-! ## What makes no sense in a part -/

/-- What makes no sense in an `Escaped`. -/
def Escaped.invalids : Escaped → List Invalid
  | .invalid i => [i]
  | _ => []

/-- As an atom of a class, an `Escaped` makes as much sense as on its own. -/
theorem ClassAtom.invalids_ofEscaped (e : Escaped) : (ofEscaped e).invalids = e.invalids := by
  cases e <;> rfl

/-- What makes no sense in a class: in its members, and that it is cut off. -/
def CharacterClass.invalids (c : CharacterClass) : List Invalid :=
  c.members.flatMap (·.invalids) ++ c.missingBracket.toList

/-- What makes no sense in an `Atom`. -/
def Atom.invalids : Atom → List Invalid
  | .characterClass c => c.invalids
  | .invalid i => [i]
  | _ => []

/-- As an atom, a backslash sequence makes as much sense as on its own. -/
theorem Atom.invalids_ofEscaped (e : Escaped) : (ofEscaped e).invalids = e.invalids := by
  cases e <;> rfl

/-- What makes no sense in a `GroupKind`. -/
def GroupKind.invalids : GroupKind → List Invalid
  | .malformed i => [i]
  | _ => []

mutual

/-- What makes no sense in a `Disjunction`. -/
def Disjunction.invalids : Disjunction → List Invalid
  | ⟨first, others⟩ => Alternative.invalids first ++ Branch.invalidsOfAll others

/-- What makes no sense behind bars. -/
def Branch.invalidsOfAll : List Branch → List Invalid
  | [] => []
  | ⟨_, alternative⟩ :: others => Alternative.invalids alternative ++ Branch.invalidsOfAll others

/-- What makes no sense in an `Alternative`. -/
def Alternative.invalids : Alternative → List Invalid
  | ⟨_, terms⟩ => Term.invalidsOfAll terms

/-- What makes no sense in terms. -/
def Term.invalidsOfAll : List Term → List Invalid
  | [] => []
  | ⟨element, _⟩ :: terms => Element.invalids element ++ Term.invalidsOfAll terms

/-- What makes no sense in an `Element`. -/
def Element.invalids : Element → List Invalid
  | .atom a => a.invalids
  | .group g => Group.invalids g

/-- What makes no sense in a group: its identifier, its body, and that it is cut off. -/
def Group.invalids : Group → List Invalid
  | ⟨span, opening, body, closing⟩ =>
    opening.kind.invalids ++ Disjunction.invalids body ++
      if closing.isSome then [] else [⟨.emptyAt span.stop, .unterminatedGroup⟩]

end

/-- What makes no sense in a pattern, in source order. -/
def Regex.invalids (r : Regex) : List Invalid := r.body.invalids

/-- What makes no sense in terms is what makes none in the first element and in the others. -/
theorem Term.invalidsOfAll_cons (t : Term) (terms : List Term) :
    invalidsOfAll (t :: terms) = t.element.invalids ++ invalidsOfAll terms := by
  cases t
  rfl

/-- What makes no sense in terms in a row is what makes none in the first and in the others. -/
theorem Term.invalidsOfAll_append (terms terms' : List Term) :
    invalidsOfAll (terms ++ terms') = invalidsOfAll terms ++ invalidsOfAll terms' := by
  induction terms with
  | nil => rfl
  | cons t terms ih =>
    rw [List.cons_append, invalidsOfAll_cons, invalidsOfAll_cons, ih, List.append_assoc]

/-- If terms and what is behind bars make sense, so do the first term and all that follows it. -/
theorem Term.invalids_eq_nil_of_cons {t : Term} {terms : List Term} {others : List Branch}
    (h : invalidsOfAll (t :: terms) ++ Branch.invalidsOfAll others = []) :
    t.element.invalids = [] ∧ invalidsOfAll terms ++ Branch.invalidsOfAll others = [] := by
  rw [invalidsOfAll_cons, List.append_assoc] at h
  exact List.append_eq_nil_iff.mp h

/-- If a `Group` makes sense, so do its identifier and its body, and it is closed. -/
theorem Group.invalids_eq_nil {span : Span} {o : GroupOpening} {body : Disjunction}
    {closing : Option Span} (h : Group.invalids ⟨span, o, body, closing⟩ = []) :
    o.kind.invalids = [] ∧ body.invalids = [] ∧ closing ≠ none := by
  rw [Group.invalids, List.append_eq_nil_iff, List.append_eq_nil_iff] at h
  obtain ⟨⟨hopening, hbody⟩, hclosing⟩ := h
  refine ⟨hopening, hbody, ?_⟩
  rintro rfl
  cases hclosing

/-! ## Invalid nodes -/

namespace Node

/-- The invalid nodes of some trees, in source order. -/
def invalidsOfAll (ns : List Node) : List Node :=
  (preorderOfAll ns).filter (·.kind == .invalid)

/-- No trees have no invalid nodes. -/
@[simp] theorem invalidsOfAll_nil : invalidsOfAll [] = [] := by
  rw [invalidsOfAll, preorderOfAll]
  rfl

/-- The invalid nodes of two lists of trees are those of the one and those of the other. -/
@[simp] theorem invalidsOfAll_append (ms ns : List Node) :
    invalidsOfAll (ms ++ ns) = invalidsOfAll ms ++ invalidsOfAll ns := by
  rw [invalidsOfAll, preorderOfAll_append, List.filter_append]
  rfl

/-- The invalid nodes of some trees are those of the first and those of the others. -/
theorem invalidsOfAll_cons (n : Node) (ns : List Node) :
    invalidsOfAll (n :: ns) = invalidsOfAll [n] ++ invalidsOfAll ns :=
  invalidsOfAll_append [n] ns

/-- A node of another kind has the invalid nodes of its children. -/
@[simp] theorem invalidsOfAll_branch {kind : NodeKind} (hkind : kind ≠ .invalid) (span : Span)
    (children ns : List Node) :
    invalidsOfAll (branch kind span children :: ns) =
      invalidsOfAll children ++ invalidsOfAll ns := by
  rw [invalidsOfAll, preorderOfAll_cons, List.filter_cons_of_neg (by simpa [branch] using hkind),
    List.filter_append]
  rfl

/-- A leaf of another kind has no invalid nodes. -/
@[simp] theorem invalidsOfAll_leaf {kind : NodeKind} (hkind : kind ≠ .invalid) (span : Span)
    (ns : List Node) : invalidsOfAll (leaf kind span :: ns) = invalidsOfAll ns := by
  have hleaf : leaf kind span = branch kind span [] := rfl
  rw [hleaf, invalidsOfAll_branch hkind, invalidsOfAll_nil, List.nil_append]

/-- A `punctuation` has no invalid nodes. -/
@[simp] theorem invalidsOfAll_punctuation (start stop : Nat) (ns : List Node) :
    invalidsOfAll (punctuation start stop :: ns) = invalidsOfAll ns := by
  rw [punctuation, invalidsOfAll_leaf (by decide)]

/-- An invalid leaf (`ofInvalid`) is its own invalid node. -/
@[simp] theorem invalidsOfAll_ofInvalid (i : Invalid) (ns : List Node) :
    invalidsOfAll (ofInvalid i :: ns) = ofInvalid i :: invalidsOfAll ns := by
  rw [invalidsOfAll, preorderOfAll_cons, List.filter_cons_of_pos rfl,
    preorderOfAll_children rfl, List.nil_append]
  rfl

/-! ## The invalid nodes of each part -/

/-- An escaped character has no invalid nodes. -/
@[simp] theorem invalidsOfAll_ofEscape (e : Escape) (ns : List Node) :
    invalidsOfAll (ofEscape e :: ns) = invalidsOfAll ns := by
  rw [invalidsOfAll_cons]
  obtain ⟨span, kind⟩ := e
  cases kind with
  | unicode p => obtain ⟨value, _ | _⟩ := p <;> simp [ofEscape, ofCode]
  | _ => simp [ofEscape, ofCode]

/-- An escaped set of characters has no invalid nodes. -/
@[simp] theorem invalidsOfAll_ofClassEscape (e : ClassEscape) (ns : List Node) :
    invalidsOfAll (ofClassEscape e :: ns) = invalidsOfAll ns := by
  rw [invalidsOfAll_cons]
  obtain ⟨span, kind⟩ := e
  cases kind with
  | predefined letter => simp [ofClassEscape]
  | property p => obtain ⟨negated, _ | name, value⟩ := p <;> simp [ofClassEscape, ofPropertyName]

/-- The invalid nodes of a `ClassAtom` are what makes no sense in it. -/
@[simp] theorem invalidsOfAll_ofClassAtom (a : ClassAtom) (ns : List Node) :
    invalidsOfAll (ofClassAtom a :: ns) = a.invalids.map ofInvalid ++ invalidsOfAll ns := by
  cases a <;> simp [ofClassAtom, ClassAtom.invalids]

/-- The invalid nodes of members are what makes no sense in them. -/
theorem invalidsOfAll_map_ofClassMember (ms : List ClassMember) :
    invalidsOfAll (ms.map ofClassMember) = (ms.flatMap (·.invalids)).map ofInvalid := by
  induction ms with
  | nil => simp
  | cons m ms ih =>
    rw [List.map_cons, invalidsOfAll_cons, ih, List.flatMap_cons, List.map_append]
    cases m <;> simp [ofClassMember, ClassMember.invalids]

/-- The stand-in for a missing closing delimiter is invalid. -/
theorem invalidsOfAll_ofClosing (kind : NodeKind) (hkind : kind ≠ .invalid) (reason : Reason)
    (stop : Nat) (closing : Option Span) :
    invalidsOfAll [ofClosing kind reason stop closing] =
      (if closing.isSome then [] else [⟨.emptyAt stop, reason⟩]).map ofInvalid := by
  cases closing with
  | none => simp [ofClosing]
  | some span => simp [ofClosing, hkind]

/-- The invalid nodes of a `CharacterClass` are what makes no sense in it. -/
theorem invalidsOfAll_ofCharacterClass (c : CharacterClass) :
    invalidsOfAll [ofCharacterClass c] = c.invalids.map ofInvalid := by
  obtain ⟨span, opening, negation, members, closing⟩ := c
  have hnegation : invalidsOfAll (negation.map (leaf .setNegation)).toList = [] := by
    cases negation <;> simp
  -- of the leaves of a class only the stand-in for its closing bracket can be invalid
  have hclosing := invalidsOfAll_ofClosing .setEnd (by decide) .unterminatedClass span.stop closing
  simp only [ofCharacterClass, List.cons_append]
  rw [invalidsOfAll_branch (by decide), invalidsOfAll_leaf (by decide), invalidsOfAll_append,
    invalidsOfAll_append, hnegation, invalidsOfAll_map_ofClassMember, hclosing, invalidsOfAll_nil,
    List.append_nil, List.nil_append, CharacterClass.invalids, List.map_append]
  cases closing <;> rfl

/-- The invalid nodes of an `Atom` are what makes no sense in it. -/
theorem invalidsOfAll_ofAtom (a : Atom) : invalidsOfAll [ofAtom a] = a.invalids.map ofInvalid := by
  cases a with
  | assertion span kind => cases kind <;> simp [ofAtom, kindOfAssertion, Atom.invalids]
  | characterClass c => exact invalidsOfAll_ofCharacterClass c
  | backreference b => cases b <;> simp [ofAtom, ofBackreference, ofName, Atom.invalids]
  | _ => simp [ofAtom, Atom.invalids]

/-- A quantifier has no invalid nodes. -/
@[simp] theorem invalidsOfAll_ofQuantifier (q : Quantifier) (ns : List Node) :
    invalidsOfAll (ofQuantifier q :: ns) = invalidsOfAll ns := by
  rw [invalidsOfAll_cons]
  obtain ⟨kind, operator, mark⟩ := q
  have hmark : invalidsOfAll (mark.map (leaf .lazyMark)).toList = [] := by cases mark <;> simp
  cases kind with
  | count count =>
    obtain ⟨min, _ | ⟨delimiter, _ | max⟩⟩ := count <;>
      simp [ofQuantifier, ofOperator, ofUpperPart, hmark]
  | _ => simp [ofQuantifier, ofOperator, hmark]

/-- The invalid nodes of a `GroupKind` are what makes no sense in it. -/
theorem invalidsOfAll_ofGroupKind (kind : GroupKind) :
    (ofGroupKind kind).1 ≠ .invalid ∧
      invalidsOfAll (ofGroupKind kind).2.toList = kind.invalids.map ofInvalid := by
  cases kind <;> simp [ofGroupKind, ofName, GroupKind.invalids]

mutual

/-- The invalid nodes of a `Disjunction` are what makes no sense in it. -/
theorem invalidsOfAll_ofDisjunction :
    (d : Disjunction) → invalidsOfAll [ofDisjunction d] = d.invalids.map ofInvalid
  | ⟨first, others⟩ => by
    rw [ofDisjunction, invalidsOfAll_branch (by decide), invalidsOfAll_cons,
      invalidsOfAll_ofAlternative first, invalidsOfAll_ofBranches others, Disjunction.invalids]
    simp

/-- The invalid nodes of bars and alternatives are what makes no sense in them. -/
theorem invalidsOfAll_ofBranches : (others : List Branch) →
    invalidsOfAll (ofBranches others) = (Branch.invalidsOfAll others).map ofInvalid
  | [] => by simp [ofBranches, Branch.invalidsOfAll]
  | ⟨bar, alternative⟩ :: others => by
    rw [ofBranches, invalidsOfAll_leaf (by decide), invalidsOfAll_cons,
      invalidsOfAll_ofAlternative alternative, invalidsOfAll_ofBranches others,
      Branch.invalidsOfAll, List.map_append]

/-- The invalid nodes of an alternative are what makes no sense in it. -/
theorem invalidsOfAll_ofAlternative :
    (a : Alternative) → invalidsOfAll [ofAlternative a] = a.invalids.map ofInvalid
  | ⟨span, terms⟩ => by
    rw [ofAlternative, invalidsOfAll_branch (by decide), invalidsOfAll_ofTerms terms,
      Alternative.invalids, invalidsOfAll_nil, List.append_nil]

/-- The invalid nodes of terms are what makes no sense in them. -/
theorem invalidsOfAll_ofTerms : (terms : List Term) →
    invalidsOfAll (ofTerms terms) = (Term.invalidsOfAll terms).map ofInvalid
  | [] => by simp [ofTerms, Term.invalidsOfAll]
  | ⟨element, none⟩ :: terms => by
    rw [ofTerms, invalidsOfAll_cons, invalidsOfAll_ofElement element,
      invalidsOfAll_ofTerms terms, Term.invalidsOfAll, List.map_append]
  | ⟨element, some q⟩ :: terms => by
    rw [ofTerms, invalidsOfAll_cons, invalidsOfAll_ofElement element, invalidsOfAll_ofQuantifier,
      invalidsOfAll_ofTerms terms, Term.invalidsOfAll, List.map_append]

/-- The invalid nodes of an element are what makes no sense in it. -/
theorem invalidsOfAll_ofElement :
    (e : Element) → invalidsOfAll [ofElement e] = e.invalids.map ofInvalid
  | .atom a => by rw [ofElement, invalidsOfAll_ofAtom, Element.invalids]
  | .group g => by rw [ofElement, invalidsOfAll_ofGroup g, Element.invalids]

/-- The invalid nodes of a `Group` are what makes no sense in it. -/
theorem invalidsOfAll_ofGroup :
    (g : Group) → invalidsOfAll [ofGroup g] = g.invalids.map ofInvalid
  | ⟨span, opening, body, closing⟩ => by
    obtain ⟨hkind, hidentifier⟩ := invalidsOfAll_ofGroupKind opening.kind
    have hclosing := invalidsOfAll_ofClosing .groupEnd (by decide) .unterminatedGroup span.stop
      closing
    simp only [ofGroup, List.cons_append]
    rw [invalidsOfAll_branch hkind, invalidsOfAll_leaf (by decide), invalidsOfAll_append,
      hidentifier, invalidsOfAll_cons, invalidsOfAll_ofDisjunction body, hclosing, Group.invalids]
    simp

end

end Node

/-! ## Diagnostics -/

namespace Tree

/-- The invalid nodes of the tree of a pattern are what makes no sense in its typed tree
(`Regex.invalids`). -/
theorem invalids_parse (source : String) :
    (parse source).root.invalids = (Regex.parse source).invalids.map Node.ofInvalid := by
  have hroot : (parse source).root.invalids =
      Node.invalidsOfAll [Node.ofRegex (Regex.parse source)] := rfl
  rw [hroot, Node.ofRegex, Node.invalidsOfAll_branch (by decide),
    Node.invalidsOfAll_ofDisjunction, Node.invalidsOfAll_nil, List.append_nil]
  rfl

/-- The diagnostics of a pattern are what makes no sense in its typed tree. -/
theorem diagnostics_parse (source : String) :
    (parse source).diagnostics = (Regex.parse source).invalids := by
  rw [diagnostics, invalids_parse, List.filterMap_map]
  -- an invalid leaf holds the span and the reason that it was made from
  have hsome : (fun n : Node => n.reason.map (Invalid.mk n.span)) ∘ Node.ofInvalid = some := rfl
  rw [hsome, List.filterMap_some]

/-- A pattern makes sense throughout if nothing makes no sense in its typed tree. -/
theorem hasInvalid_parse (source : String) :
    (parse source).hasInvalid = false ↔ (Regex.parse source).invalids = [] := by
  simp [hasInvalid, invalids_parse]

end Tree

end RegexTree
