import RegexTree.Proofs.Repair.Missing
import RegexTree.Proofs.Tiling.Parts

/-! # Leaves for missing delimiters
A missing closing delimiter is a leaf without width. Supplying the delimiters replaces these leaves,
one after the other, by leaves on the characters that are appended to the pattern. This is
`Node.supplyFrom`, and `Node.Supplies` says the same of parts that follow each other. The main
statements say how the leaves of each part are supplied. -/

namespace RegexTree.Node

/-! ## Supplying delimiters -/

/-- The leaf of the closing delimiter at an offset, for a leaf that stands in for one. -/
def supplied? (pos : Nat) (n : Node) : Option Node :=
  if n.isStandIn then
    match n.reason with
    | some .unterminatedGroup => some (leaf .groupEnd ⟨pos, pos + 1⟩)
    | some .unterminatedClass => some (leaf .setEnd ⟨pos, pos + 1⟩)
    | _ => none
  else none

/-- Leaves with the missing delimiters supplied, which stand one after the other from an offset
on. -/
def supplyFrom : Nat → List Node → List Node
  | _, [] => []
  | pos, n :: ns =>
    match n.supplied? pos with
    | some closer => closer :: supplyFrom (pos + 1) ns
    | none => n :: supplyFrom pos ns

/-- A leaf that stands in for no delimiter stays. -/
theorem supplyFrom_cons_of_none {pos : Nat} {n : Node} (h : n.supplied? pos = none)
    (ns : List Node) : supplyFrom pos (n :: ns) = n :: supplyFrom pos ns := by
  rw [supplyFrom, h]

/-- A leaf that stands in for a delimiter gives way to it. -/
theorem supplyFrom_cons_of_some {pos : Nat} {n closer : Node} (h : n.supplied? pos = some closer)
    (ns : List Node) : supplyFrom pos (n :: ns) = closer :: supplyFrom (pos + 1) ns := by
  rw [supplyFrom, h]

/-- An invalid leaf stands in for a delimiter only if one is missing (`Reason.missing?`). -/
theorem supplied?_ofInvalid {i : Invalid} (h : i.reason.missing? = none) (pos : Nat) :
    (ofInvalid i).supplied? pos = none := by
  obtain ⟨span, reason⟩ := i
  rw [supplied?]
  split
  · cases reason <;> first | rfl | cases h
  · rfl

/-- The stand-in for a parenthesis gives way to one. -/
theorem supplied?_unterminatedGroup (stop pos : Nat) :
    (ofInvalid ⟨.emptyAt stop, .unterminatedGroup⟩).supplied? pos =
      some (leaf .groupEnd ⟨pos, pos + 1⟩) :=
  if_pos (Bool.and_eq_true_iff.mpr ⟨rfl, Span.isEmpty_emptyAt stop⟩)

/-- The stand-in for a bracket gives way to one. -/
theorem supplied?_unterminatedClass (stop pos : Nat) :
    (ofInvalid ⟨.emptyAt stop, .unterminatedClass⟩).supplied? pos =
      some (leaf .setEnd ⟨pos, pos + 1⟩) :=
  if_pos (Bool.and_eq_true_iff.mpr ⟨rfl, Span.isEmpty_emptyAt stop⟩)

/-- With the first list supplied by the second, as many delimiters are used up, and what follows is
supplied from there on. -/
def Supplies (pos : Nat) (ns ms : List Node) (count : Nat) : Prop :=
  ∀ rest, supplyFrom pos (ns ++ rest) = ms ++ supplyFrom (pos + count) rest

namespace Supplies

variable {pos count more : Nat} {ns ns' ms ms' : List Node}

/-- No leaves use up no delimiters. -/
protected theorem nil : Supplies pos [] [] 0 := fun _ => rfl

/-- What is supplied in two parts is supplied in the first and then in the second. -/
protected theorem append (h : Supplies pos ns ms count) (h' : Supplies (pos + count) ns' ms' more) :
    Supplies pos (ns ++ ns') (ms ++ ms') (count + more) := by
  intro rest
  rw [List.append_assoc, h, h', List.append_assoc, Nat.add_assoc]

/-- Supplying what lacks nothing before it. -/
theorem prepend (h : Supplies pos ns ns 0) (h' : Supplies pos ns' ms' more) :
    Supplies pos (ns ++ ns') (ns ++ ms') more := by
  have happend := h.append h'
  rwa [Nat.zero_add] at happend

/-- What `Supplies` a whole list is the supplied list. -/
theorem supplyFrom_eq (h : Supplies pos ns ms count) : supplyFrom pos ns = ms := by
  have hwhole := h []
  rwa [List.append_nil, supplyFrom, List.append_nil] at hwhole

/-- Leaves that stand in for no delimiters stay. -/
theorem of_forall (h : ∀ n ∈ ns, n.supplied? pos = none) : Supplies pos ns ns 0 := by
  intro rest
  induction ns with
  | nil => rfl
  | cons n ns ih =>
    obtain ⟨hn, hns⟩ := List.forall_mem_cons.mp h
    rw [List.cons_append, supplyFrom_cons_of_none hn, ih hns]
    rfl

end Supplies

/-! ## Leaves of trees -/

/-- A leaf is its own leaf. -/
theorem leavesOfAll_singleton {n : Node} (h : n.isLeaf = true) : leavesOfAll [n] = [n] := by
  rw [leavesOfAll_cons_of_isLeaf h, leavesOfAll_nil]

/-- A node with children has their leaves. -/
theorem leavesOfAll_branch (kind : NodeKind) (span : Span) (n : Node) (ns : List Node) :
    leavesOfAll [branch kind span (n :: ns)] = leavesOfAll (n :: ns) := by
  rw [leavesOfAll_cons_of_not_isLeaf rfl, leavesOfAll_nil, List.append_nil]
  rfl

/-- An `Alternative` without terms is a leaf, and any other has the leaves of its terms. -/
theorem leavesOfAll_ofAlternative (span : Span) (terms : List Term) :
    leavesOfAll [ofAlternative ⟨span, terms⟩] =
      (if terms = [] then [leaf .pattern span] else []) ++ leavesOfAll (ofTerms terms) := by
  cases terms with
  | nil =>
    rw [if_pos rfl, ofAlternative, ofTerms, leavesOfAll_nil, List.append_nil]
    exact leavesOfAll_singleton rfl
  | cons t terms =>
    rw [if_neg (List.cons_ne_nil t terms), List.nil_append, ofAlternative, ofTerms_cons, ofTerm,
      List.cons_append, leavesOfAll_branch]

/-- A `Disjunction` has the leaves of its alternatives and bars. -/
theorem leavesOfAll_ofDisjunction (first : Alternative) (others : List Branch) :
    leavesOfAll [ofDisjunction ⟨first, others⟩] =
      leavesOfAll (ofAlternative first :: ofBranches others) := by
  rw [ofDisjunction, leavesOfAll_branch]

/-- The invalid nodes of a term are what makes no sense in its element. -/
theorem invalidsOfAll_ofTerm (t : Term) :
    invalidsOfAll (ofTerm t) = t.element.invalids.map ofInvalid := by
  obtain ⟨element, _ | q⟩ := t
  · exact invalidsOfAll_ofElement element
  · rw [ofTerm, invalidsOfAll_cons, invalidsOfAll_ofElement element]
    simp

/-- Nothing is supplied in trees that lack nothing. -/
theorem supplies_of_missing {ns : List Node} {is : List Invalid}
    (hns : invalidsOfAll ns = is.map ofInvalid) (h : Invalid.missing is = []) (pos : Nat) :
    Supplies pos (leavesOfAll ns) (leavesOfAll ns) 0 := by
  refine .of_forall fun n hn => ?_
  by_cases hkind : n.kind = .invalid
  · -- an invalid leaf is one of the invalid nodes, and none of them stands in for a delimiter
    have hmem : n ∈ invalidsOfAll ns :=
      List.mem_filter.mpr ⟨(List.mem_filter.mp hn).1, by rw [hkind]; rfl⟩
    rw [hns] at hmem
    obtain ⟨i, hi, rfl⟩ := List.mem_map.mp hmem
    exact supplied?_ofInvalid (Invalid.missing_eq_nil_iff.mp h i hi) pos
  · have hstandIn : n.isStandIn = false := by
      rw [isStandIn, beq_eq_false_iff_ne.mpr hkind, Bool.false_and]
    rw [supplied?, hstandIn]
    rfl

/-! ## Leaves of alternatives, classes and groups -/

/-- An alternative is supplied with what its terms lack, and one without terms stays where it is. -/
theorem supplies_ofAlternative {span span' : Span} {terms terms' : List Term} {ns ns' : List Node}
    {pos count : Nat}
    (h : Supplies pos (leavesOfAll (ofTerms terms ++ ns)) (leavesOfAll (ofTerms terms' ++ ns'))
      count)
    (hnil : terms' = [] ↔ terms = []) (hspan : terms = [] → span' = span) :
    Supplies pos (leavesOfAll (ofAlternative ⟨span, terms⟩ :: ns))
      (leavesOfAll (ofAlternative ⟨span', terms'⟩ :: ns')) count := by
  rw [leavesOfAll_cons, leavesOfAll_ofAlternative, List.append_assoc, ← leavesOfAll_append,
    leavesOfAll_cons (ofAlternative ⟨span', terms'⟩), leavesOfAll_ofAlternative, List.append_assoc,
    ← leavesOfAll_append]
  by_cases hterms : terms = []
  · rw [if_pos hterms, if_pos (hnil.mpr hterms), hspan hterms]
    exact (Supplies.of_forall (List.forall_mem_singleton.mpr rfl)).prepend h
  · rw [if_neg hterms, if_neg (mt hnil.mp hterms)]
    exact h

/-- The stand-in for a closing delimiter is supplied with it. -/
theorem supplies_ofClosing {kind : NodeKind} {reason : Reason} {stop pos : Nat}
    (h : (ofInvalid ⟨.emptyAt stop, reason⟩).supplied? pos = some (leaf kind ⟨pos, pos + 1⟩))
    (stop' : Nat) :
    Supplies pos (leavesOfAll [ofClosing kind reason stop none])
      (leavesOfAll [ofClosing kind reason stop' (some ⟨pos, pos + 1⟩)]) 1 := by
  intro rest
  rw [ofClosing, ofClosing, leavesOfAll_singleton rfl, leavesOfAll_singleton rfl]
  exact supplyFrom_cons_of_some h rest

/-- The nodes of a class before its closing bracket. -/
def openingOfClass (c : CharacterClass) : List Node :=
  leaf .setBegin c.opening :: (c.negation.map (leaf .setNegation)).toList ++
    c.members.map ofClassMember

/-- A class has the leaves of what stands before its closing bracket (`openingOfClass`), and the
bracket. -/
theorem leavesOfAll_ofCharacterClass (c : CharacterClass) :
    leavesOfAll [ofCharacterClass c] = leavesOfAll (openingOfClass c) ++
      leavesOfAll [ofClosing .setEnd .unterminatedClass c.span.stop c.closing] := by
  rw [← leavesOfAll_append]
  exact leavesOfAll_branch _ _ _ _

/-- Before its closing bracket a class is invalid in its members. -/
theorem invalidsOfAll_openingOfClass (c : CharacterClass) :
    invalidsOfAll (openingOfClass c) = (c.members.flatMap (·.invalids)).map ofInvalid := by
  have hnegation : invalidsOfAll (c.negation.map (leaf .setNegation)).toList = [] := by
    cases c.negation <;> simp
  rw [openingOfClass, List.cons_append, invalidsOfAll_leaf (by decide), invalidsOfAll_append,
    hnegation, invalidsOfAll_map_ofClassMember, List.nil_append]

/-- A `CharacterClass` without its closing bracket is supplied with it. -/
theorem supplies_ofCharacterClass {c c' : CharacterClass} {pos : Nat}
    (hmembers : Invalid.missing (c.members.flatMap (·.invalids)) = [])
    (hopening : openingOfClass c' = openingOfClass c) (hclosing : c.closing = none)
    (hclosing' : c'.closing = some ⟨pos, pos + 1⟩) :
    Supplies pos (leavesOfAll [ofCharacterClass c]) (leavesOfAll [ofCharacterClass c']) 1 := by
  rw [leavesOfAll_ofCharacterClass, leavesOfAll_ofCharacterClass, hopening, hclosing, hclosing']
  exact (supplies_of_missing (invalidsOfAll_openingOfClass c) hmembers pos).prepend
    (supplies_ofClosing (supplied?_unterminatedClass _ pos) _)

/-- A group has the leaves of its opening, those of its body, and its closing parenthesis. -/
theorem leavesOfAll_ofGroup (span : Span) (o : GroupOpening) (body : Disjunction)
    (closing : Option Span) :
    leavesOfAll [ofGroup ⟨span, o, body, closing⟩] =
      leavesOfAll (leaf .groupBegin o.parenthesis :: (ofGroupKind o.kind).2.toList) ++
        (leavesOfAll [ofDisjunction body] ++
          leavesOfAll [ofClosing .groupEnd .unterminatedGroup span.stop closing]) := by
  rw [← leavesOfAll_append, ← leavesOfAll_append]
  exact leavesOfAll_branch _ _ _ _

/-- A group without its closing parenthesis is supplied with what its body lacks and with the
parenthesis. -/
theorem supplies_ofGroup {span span' : Span} {o : GroupOpening} {body body' : Disjunction}
    {pos count : Nat} (ho : Invalid.missing o.kind.invalids = [])
    (hbody : Supplies pos (leavesOfAll [ofDisjunction body]) (leavesOfAll [ofDisjunction body'])
      count) :
    Supplies pos (leavesOfAll [ofGroup ⟨span, o, body, none⟩])
      (leavesOfAll [ofGroup ⟨span', o, body', some ⟨pos + count, pos + count + 1⟩⟩])
      (count + 1) := by
  rw [leavesOfAll_ofGroup, leavesOfAll_ofGroup]
  have hopening : invalidsOfAll (leaf .groupBegin o.parenthesis :: (ofGroupKind o.kind).2.toList) =
      o.kind.invalids.map ofInvalid := by
    rw [invalidsOfAll_leaf (by decide), (invalidsOfAll_ofGroupKind o.kind).2]
  exact (supplies_of_missing hopening ho pos).prepend
    (hbody.append (supplies_ofClosing (supplied?_unterminatedGroup _ _) _))

end RegexTree.Node
