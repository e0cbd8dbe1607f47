import RegexTree.Proofs.Brackets.Forms
import RegexTree.Proofs.Tiling.Parts
import RegexTree.Tree

/-! # Brackets and bars of trees
The leaves of a tree that are brackets or bars, stray ones included, in source order. The main
statement, `Tree.delimiters_parse`, says that they are exactly what the scanner reports, so that no
malformed construct hides a bracket or makes one up. -/

namespace RegexTree

/-! ## Leaves that are brackets or bars -/

/-- The kinds of leaves that are brackets or bars. -/
def NodeKind.delimiter? : NodeKind → Option Delimiter
  | .groupBegin => some .groupBegin
  | .groupEnd => some .groupEnd
  | .disjunctionDelimiter => some .bar
  | .setBegin => some .setBegin
  | .setEnd => some .setEnd
  | _ => none

namespace Node

/-- The `Delimiter` that a leaf is, with its place: by its kind, or by its text where it is a
character that means nothing. -/
def delimiter? (source : String) (n : Node) : Option (Delimiter × Span) :=
  match n.kind.delimiter? with
  | some d => some (d, n.span)
  | none =>
    if n.kind = .invalid ∧ n.reason = some .unknownConstruct then
      if n.textIn source = ")" then some (.strayParenthesis, n.span)
      else if n.textIn source = "]" then some (.strayBracket, n.span)
      else none
    else none

/-- The brackets and bars among the leaves of some trees, in source order. -/
def delimitersOfAll (source : String) (ns : List Node) : List (Delimiter × Span) :=
  (leavesOfAll ns).filterMap (delimiter? source)

variable {source : String}

/-- No trees have no brackets. -/
@[simp] theorem delimitersOfAll_nil : delimitersOfAll source [] = [] := by
  rw [delimitersOfAll, leavesOfAll, preorderOfAll]
  rfl

/-- The brackets of two lists of trees are those of the one and those of the other. -/
@[simp] theorem delimitersOfAll_append (ms ns : List Node) :
    delimitersOfAll source (ms ++ ns) = delimitersOfAll source ms ++ delimitersOfAll source ns := by
  rw [delimitersOfAll, leavesOfAll, preorderOfAll_append, List.filter_append,
    List.filterMap_append]
  rfl

/-- The brackets of some trees are those of the first and those of the others. -/
theorem delimitersOfAll_cons (n : Node) (ns : List Node) :
    delimitersOfAll source (n :: ns) =
      delimitersOfAll source [n] ++ delimitersOfAll source ns :=
  delimitersOfAll_append [n] ns

/-- Of a leaf that is not invalid the kind decides (`NodeKind.delimiter?`). -/
@[simp] theorem delimitersOfAll_leaf {kind : NodeKind} (hkind : kind ≠ .invalid) (span : Span)
    (ns : List Node) :
    delimitersOfAll source (leaf kind span :: ns) =
      (kind.delimiter?.map (·, span)).toList ++ delimitersOfAll source ns := by
  rw [delimitersOfAll, leavesOfAll_cons_of_isLeaf rfl, delimitersOfAll]
  cases hdelimiter : kind.delimiter? with
  | none => simp [delimiter?, leaf, hdelimiter, hkind]
  | some d => simp [delimiter?, leaf, hdelimiter]

/-- A `punctuation` is no bracket. -/
@[simp] theorem delimitersOfAll_punctuation (start stop : Nat) (ns : List Node) :
    delimitersOfAll source (punctuation start stop :: ns) = delimitersOfAll source ns := by
  simp [punctuation, NodeKind.delimiter?]

/-- A node that is no bracket itself has the brackets of its children. -/
@[simp] theorem delimitersOfAll_branch {kind : NodeKind} (hkind : kind ≠ .invalid)
    (hdelimiter : kind.delimiter? = none) (span : Span) (children ns : List Node) :
    delimitersOfAll source (branch kind span children :: ns) =
      delimitersOfAll source children ++ delimitersOfAll source ns := by
  cases children with
  | nil =>
    have hleaf : branch kind span [] = leaf kind span := rfl
    rw [hleaf, delimitersOfAll_leaf hkind, hdelimiter, delimitersOfAll_nil]
    rfl
  | cons m children =>
    rw [delimitersOfAll, leavesOfAll_cons_of_not_isLeaf rfl, List.filterMap_append]
    rfl

/-- Invalid leaves for another reason than `unknownConstruct` are no brackets. -/
theorem delimitersOfAll_ofInvalid {reason : Reason} (hreason : reason ≠ .unknownConstruct)
    (span : Span) : delimitersOfAll source [ofInvalid ⟨span, reason⟩] = [] := by
  rw [delimitersOfAll, leavesOfAll_cons_of_isLeaf rfl, leavesOfAll, preorderOfAll]
  simp [delimiter?, ofInvalid, NodeKind.delimiter?, hreason]

/-- A character that means nothing is a bracket if it is one by its text. -/
theorem delimitersOfAll_unknown {before : List Char} {c later : Cursor} {x : Char}
    (hc : (Cursor.ofString source).Reads before c) (h : c.Reads [x] later) :
    delimitersOfAll source [ofInvalid ⟨c.spanTo later, .unknownConstruct⟩] =
      if x = ')' then [(.strayParenthesis, c.spanTo later)]
      else if x = ']' then [(.strayBracket, c.spanTo later)]
      else [] := by
  have htext : (ofInvalid ⟨c.spanTo later, .unknownConstruct⟩).textIn source =
      String.ofList [x] := Cursor.textIn_spanTo hc h
  -- the text of the leaf is the character, so comparing texts is comparing characters
  have hparenthesis : String.ofList [x] = ")" ↔ x = ')' := by
    rw [show ")" = String.ofList [')'] from rfl, String.ofList_inj]
    simp
  have hbracket : String.ofList [x] = "]" ↔ x = ']' := by
    rw [show "]" = String.ofList [']'] from rfl, String.ofList_inj]
    simp
  rw [delimitersOfAll, leavesOfAll_cons_of_isLeaf rfl, leavesOfAll, preorderOfAll,
    List.filter_nil, List.filterMap_cons, delimiter?, htext]
  simp only [hparenthesis, hbracket]
  by_cases h1 : x = ')'
  · subst h1
    rfl
  · by_cases h2 : x = ']'
    · subst h2
      rfl
    · simp [h1, h2, ofInvalid, NodeKind.delimiter?]

/-! ## Parts without brackets -/

/-- An escaped character has no brackets. -/
theorem delimitersOfAll_ofEscape (e : Escape) : delimitersOfAll source [ofEscape e] = [] := by
  obtain ⟨span, kind⟩ := e
  cases kind with
  | unicode p =>
    obtain ⟨value, _ | _⟩ := p <;> simp (disch := decide) [ofEscape, ofCode, NodeKind.delimiter?]
  | _ => simp (disch := decide) [ofEscape, ofCode, NodeKind.delimiter?]

/-- An escaped set of characters has no brackets. -/
theorem delimitersOfAll_ofClassEscape (e : ClassEscape) :
    delimitersOfAll source [ofClassEscape e] = [] := by
  obtain ⟨span, kind⟩ := e
  cases kind with
  | predefined letter => simp (disch := decide) [ofClassEscape, NodeKind.delimiter?]
  | property p =>
    obtain ⟨negated, _ | name, value⟩ := p <;>
      simp (disch := decide) [ofClassEscape, ofPropertyName, NodeKind.delimiter?]

/-- An `Escaped` has no brackets. -/
theorem delimitersOfAll_ofEscaped {inClass : Bool} {c later : Cursor} {e : Escaped}
    (h : Escaped.Takes inClass c later e) : delimitersOfAll source [ofEscaped e] = [] := by
  cases e with
  | character e => exact delimitersOfAll_ofEscape e
  | set e => exact delimitersOfAll_ofClassEscape e
  | invalid i =>
    obtain ⟨span, reason⟩ := i
    obtain rfl : reason = .badEscape := h.reason_eq
    exact delimitersOfAll_ofInvalid (by decide) span

/-- An atom of a class has no brackets. -/
theorem delimitersOfAll_ofClassAtom {c later : Cursor} {a : ClassAtom}
    (h : ClassAtom.Takes c later a) : delimitersOfAll source [ofClassAtom a] = [] := by
  cases h with
  | literal => simp [ofClassAtom, NodeKind.delimiter?]
  | escaped he =>
    rw [ofClassAtom_ofEscaped]
    exact delimitersOfAll_ofEscaped he

/-- A `ClassMember` has no brackets. -/
theorem delimitersOfAll_ofClassMember {c later : Cursor} {m : ClassMember}
    (h : ClassMember.Takes c later m) : delimitersOfAll source [ofClassMember m] = [] := by
  cases h with
  | atom ha => exact delimitersOfAll_ofClassAtom ha
  | @range low high dash afterDash hlow hdash hhigh =>
    rw [ofClassMember, delimitersOfAll_branch (by decide) rfl, delimitersOfAll_cons,
      delimitersOfAll_ofClassAtom hlow, delimitersOfAll_leaf (by decide),
      delimitersOfAll_ofClassAtom hhigh, delimitersOfAll_nil]
    rfl

/-- Members have no brackets. -/
theorem delimitersOfAll_map_ofClassMember {c later : Cursor} {ms : List ClassMember}
    (h : CharacterClass.Members c ms later) :
    delimitersOfAll source (ms.map ofClassMember) = [] := by
  induction h with
  | nil => simp
  | cons hm hms ih =>
    rw [List.map_cons, delimitersOfAll_cons, delimitersOfAll_ofClassMember hm, ih]
    rfl

/-- The stand-in for a missing closing delimiter is no bracket. -/
theorem delimitersOfAll_ofClosing {kind : NodeKind} {reason : Reason} (hkind : kind ≠ .invalid)
    (hreason : reason ≠ .unknownConstruct) (stop : Nat) (closing : Option Span) :
    delimitersOfAll source [ofClosing kind reason stop closing] =
      (closing.bind fun span => kind.delimiter?.map (·, span)).toList := by
  cases closing with
  | none => exact delimitersOfAll_ofInvalid hreason _
  | some span => simp [ofClosing, hkind]

/-- The brackets of a `CharacterClass` are its own. -/
theorem delimitersOfAll_ofCharacterClass {c later : Cursor} {cls : CharacterClass}
    (h : CharacterClass.Takes c later cls) :
    delimitersOfAll source [ofCharacterClass cls] =
      (.setBegin, cls.opening) :: (cls.closing.map (Delimiter.setEnd, ·)).toList := by
  obtain @⟨negation, closing, members, inside, start, stop, hopen, hnegation, hmembers, hclosing,
    -⟩ := h
  have hnone : delimitersOfAll source (negation.map (leaf .setNegation)).toList = [] := by
    cases negation <;> simp [NodeKind.delimiter?]
  simp only [ofCharacterClass, List.cons_append]
  rw [delimitersOfAll_branch (by decide) rfl, delimitersOfAll_leaf (by decide),
    delimitersOfAll_append, delimitersOfAll_append, hnone,
    delimitersOfAll_map_ofClassMember hmembers,
    delimitersOfAll_ofClosing (by decide) (by decide), delimitersOfAll_nil]
  cases closing <;> rfl

/-- A reference by name, or what is left of one, has no brackets. -/
theorem delimitersOfAll_ofReference {c later : Cursor} {r : Except Invalid Backreference}
    (h : Backreference.Takes c later r) :
    delimitersOfAll source [ofAtom (Atom.ofReference r)] = [] := by
  cases h with
  | named =>
    simp (disch := decide) [Atom.ofReference, ofAtom, ofBackreference, ofName,
      NodeKind.delimiter?]
  | bare => exact delimitersOfAll_ofInvalid (by decide) _
  | malformed => exact delimitersOfAll_ofInvalid (by decide) _

/-- The kinds of assertions are no brackets. -/
theorem delimitersOfAll_ofAssertion (kind : AssertionKind) (span : Span) :
    delimitersOfAll source [leaf (kindOfAssertion kind) span] = [] := by
  cases kind <;> simp [kindOfAssertion, NodeKind.delimiter?]

/-- A `Quantifier` has no brackets. -/
theorem delimitersOfAll_ofQuantifier (q : Quantifier) :
    delimitersOfAll source [ofQuantifier q] = [] := by
  have hlazy : delimitersOfAll source (q.lazyMark.map (leaf .lazyMark)).toList = [] := by
    cases q.lazyMark <;> simp [NodeKind.delimiter?]
  obtain ⟨kind, operator, mark⟩ := q
  cases kind with
  | count count =>
    obtain ⟨min, _ | ⟨delimiter, _ | max⟩⟩ := count <;>
      simp (disch := decide) [ofQuantifier, ofOperator, ofUpperPart, hlazy, NodeKind.delimiter?]
  | _ => simp (disch := decide) [ofQuantifier, ofOperator, hlazy]

/-- A quantifier that may be missing has no brackets. -/
theorem delimitersOfAll_quantifier (q : Option Quantifier) :
    delimitersOfAll source (q.map ofQuantifier).toList = [] := by
  cases q with
  | none => exact delimitersOfAll_nil
  | some q => exact delimitersOfAll_ofQuantifier q

/-- A `GroupKind` has no brackets. -/
theorem delimitersOfAll_ofGroupKind {before : List Char} {c later : Cursor} {kind : GroupKind}
    (hc : (Cursor.ofString source).Reads before c) (h : GroupKind.Takes c later kind) :
    delimitersOfAll source (ofGroupKind kind).2.toList = [] ∧ (ofGroupKind kind).1 ≠ .invalid ∧
      (ofGroupKind kind).1.delimiter? = none := by
  cases h with
  | plain hword =>
    rcases GroupKind.eq_of_mem_identifiers hword with
      ⟨-, rfl⟩ | ⟨-, rfl⟩ | ⟨-, rfl⟩ | ⟨-, rfl⟩ | ⟨-, rfl⟩ <;>
      simp (disch := decide) [ofGroupKind, NodeKind.delimiter?]
  | named => simp (disch := decide) [ofGroupKind, ofName, NodeKind.delimiter?]
  | badName => exact ⟨delimitersOfAll_ofInvalid (by decide) _, by simp [ofGroupKind], rfl⟩
  | unknown hread => exact ⟨delimitersOfAll_unknown hc hread, by simp [ofGroupKind], rfl⟩

/-! ## The scanner reports the brackets of what is read -/

section Scanned

variable {depth : Nat} {before : List Char} {c later : Cursor}

/-- What the scanner passes over and what has no brackets agree. -/
theorem scanFrom_of_quiet {ns : List Node}
    (hscan : (⟨depth, false⟩ : Scanner).scanFrom c = (⟨depth, false⟩ : Scanner).scanFrom later)
    (hnodes : delimitersOfAll source ns = []) :
    (⟨depth, false⟩ : Scanner).scanFrom c =
      delimitersOfAll source ns ++ (⟨depth, false⟩ : Scanner).scanFrom later := by
  rw [hscan, hnodes, List.nil_append]

/-- An inert leaf that is no bracket. -/
theorem scanFrom_of_leaf {w : List Char} {kind : NodeKind} {span : Span} (h : c.Reads w later)
    (hw : ∀ y ∈ w, Scanner.isInert y = true) (hkind : kind ≠ .invalid)
    (hdelimiter : kind.delimiter? = none) :
    (⟨depth, false⟩ : Scanner).scanFrom c =
      delimitersOfAll source [leaf kind span] ++ (⟨depth, false⟩ : Scanner).scanFrom later := by
  refine scanFrom_of_quiet (Scanner.scanFrom_of_isInert h hw) ?_
  rw [delimitersOfAll_leaf hkind, hdelimiter, delimitersOfAll_nil]
  rfl

/-- The scanner reports the brackets of an `Atom`. -/
theorem scanFrom_ofAtom (hc : (Cursor.ofString source).Reads before c) {a : Atom}
    (h : Atom.Takes c later a) :
    (⟨depth, false⟩ : Scanner).scanFrom c =
      delimitersOfAll source [ofAtom a] ++ (⟨depth, false⟩ : Scanner).scanFrom later := by
  cases h with
  | literal hx hread =>
    have hinert := Scanner.isInert_of_isPatternChar hx
    exact scanFrom_of_leaf hread (by simpa using hinert) (by decide) rfl
  | anyCharacter hread =>
    exact scanFrom_of_leaf hread (forall_mem_of_all (by decide)) (by decide) rfl
  | atStart hread => exact scanFrom_of_leaf hread (forall_mem_of_all (by decide)) (by decide) rfl
  | atEnd hread => exact scanFrom_of_leaf hread (forall_mem_of_all (by decide)) (by decide) rfl
  | boundary hx hread =>
    exact scanFrom_of_quiet (Scanner.scanFrom_of_escape hread) (delimitersOfAll_ofAssertion _ _)
  | numeric hd hzero hdigits hread hnext =>
    have hscan := Scanner.scanFrom_of_escaped (s := ⟨depth, false⟩) hread fun y hy =>
      Scanner.isInert_of_isDecimalDigit (hdigits y hy)
    exact scanFrom_of_quiet hscan
      (by simp [ofAtom, ofBackreference, NodeKind.delimiter?])
  | reference hr => exact scanFrom_of_quiet hr.scanFrom_eq (delimitersOfAll_ofReference hr)
  | escaped he =>
    rw [ofAtom_ofEscaped]
    exact scanFrom_of_quiet he.scanFrom_eq (delimitersOfAll_ofEscaped he)
  | characterClass hs =>
    rw [ofAtom, delimitersOfAll_ofCharacterClass hs]
    exact hs.scanFrom_eq
  | stray hx hread =>
    have hunknown := delimitersOfAll_unknown hc hread
    rw [ofAtom, hunknown]
    -- a stray bracket is reported, a stray brace is not
    rcases hx with rfl | rfl
    · rw [Scanner.scanFrom_of_reads hread (by decide)]
      rfl
    · exact Scanner.scanFrom_of_isInert hread (forall_mem_of_all (by decide))

/-- The scanner reports the brackets of a `Term` without a group, if it counts a group exactly where
one is open. -/
theorem scanFrom_ofTerm (hc : (Cursor.ofString source).Reads before c) {first : Bool} {t : Term}
    (h : Term.Takes (depth != 0) first c later t) :
    (⟨depth, false⟩ : Scanner).scanFrom c =
      delimitersOfAll source (ofTerm t) ++ (⟨depth, false⟩ : Scanner).scanFrom later := by
  cases h with
  | @atom a middle q ha hq =>
    rw [ofTerm, delimitersOfAll_cons, delimitersOfAll_quantifier, ← hq.scanFrom_eq,
      List.append_nil]
    exact scanFrom_ofAtom hc ha
  | @strayClosing middle q houtside hread hq =>
    -- no group is counted, so the scanner takes the parenthesis for a stray one as well
    obtain rfl : depth = 0 := by simpa using houtside
    have hunknown := delimitersOfAll_unknown hc hread
    rw [ofTerm, delimitersOfAll_cons, delimitersOfAll_quantifier, ← hq.scanFrom_eq,
      Scanner.scanFrom_of_reads hread (by decide)]
    simp only [ofElement, ofAtom, hunknown]
    rfl
  | strayQuantifier hq =>
    refine scanFrom_of_quiet hq.scanFrom_eq ?_
    cases first
    · exact delimitersOfAll_ofInvalid (by decide) _
    · exact delimitersOfAll_ofInvalid (by decide) _
  | malformedCount hw hread =>
    refine scanFrom_of_quiet ?_ (delimitersOfAll_ofInvalid (by decide) _)
    have hinert : ∀ y ∈ _, Scanner.isInert y = true := fun y hy =>
      Scanner.isInert_of_countAllows (hw y hy)
    -- the text goes up to the closing brace, or to where nothing more of a count stands
    rcases hread with hread | hread
    · exact Scanner.scanFrom_of_isInert hread (Scanner.isInert_braced hinert)
    · exact Scanner.scanFrom_of_isInert hread (Scanner.isInert_opened hinert)
  | brace hread =>
    refine scanFrom_of_quiet (Scanner.scanFrom_of_isInert hread (forall_mem_of_all (by decide))) ?_
    exact delimitersOfAll_unknown hc hread

/-- The scanner reports a `GroupOpening` and counts the group. -/
theorem scanFrom_opening (depth : Nat) (hc : (Cursor.ofString source).Reads before c)
    {o : GroupOpening} (h : GroupOpening.Takes c later o) :
    (⟨depth, false⟩ : Scanner).scanFrom c =
      (.groupBegin, o.parenthesis) :: (⟨depth + 1, false⟩ : Scanner).scanFrom later ∧
    delimitersOfAll source (ofGroupKind o.kind).2.toList = [] ∧
      (ofGroupKind o.kind).1 ≠ .invalid ∧ (ofGroupKind o.kind).1.delimiter? = none := by
  cases h with
  | anonymous hread hnext =>
    refine ⟨?_, delimitersOfAll_nil, by simp [ofGroupKind], rfl⟩
    rw [Scanner.scanFrom_of_reads hread (by decide)]
    rfl
  | identified hopen hkind =>
    refine ⟨?_, delimitersOfAll_ofGroupKind (hc.trans hopen) hkind⟩
    rw [Scanner.scanFrom_of_reads hopen (by decide), ← hkind.scanFrom_eq]
    rfl

/-- The scanner reports the end of a group (`Closes`) and counts the group no longer. -/
theorem scanFrom_closes {close : Cursor} {closing : Option Span} {q : Option Quantifier}
    (h : Closes c close closing later q) :
    (⟨depth + 1, false⟩ : Scanner).scanFrom c =
      (closing.map (Delimiter.groupEnd, ·)).toList ++
        (⟨depth, false⟩ : Scanner).scanFrom later := by
  cases h with
  | closed hclose hq =>
    rw [Scanner.scanFrom_of_reads hclose (by decide), ← hq.scanFrom_eq]
    rfl
  | missing hend =>
    rw [Scanner.scanFrom_of_end hend, Scanner.scanFrom_of_end hend]
    rfl

end Scanned

end Node

/-! ## Trees -/

/-- The scanner reports the brackets of what is derived, if it counts a group exactly where one is
open. -/
theorem Derives.scanFrom_eq {source : String} {before : List Char} {nested first : Bool}
    {c mid later : Cursor} {terms : List Term} {others : List Branch}
    (h : Derives nested first c terms mid others later)
    (hc : (Cursor.ofString source).Reads before c) (depth : Nat) (hdepth : nested = (depth != 0)) :
    (⟨depth, false⟩ : Scanner).scanFrom c =
      Node.delimitersOfAll source (Node.ofTerms terms) ++
        (Node.delimitersOfAll source (Node.ofBranches others) ++
          (⟨depth, false⟩ : Scanner).scanFrom later) := by
  induction h generalizing before depth with
  | stop hend => simp [Node.ofTerms, Node.ofBranches]
  | bar hbar hread hrest ih =>
    rw [Scanner.scanFrom_of_reads hbar (by decide), Node.ofBranches,
      Node.delimitersOfAll_leaf (by decide), Node.ofAlternative,
      Node.delimitersOfAll_branch (by decide) rfl, Node.ofTerms, Node.delimitersOfAll_nil]
    simp only [List.append_assoc, List.nil_append, ← ih (hc.trans hbar) depth hdepth]
    rfl
  | @term _ _ c next mid later l t terms others hread hterm hrest ih =>
    subst hdepth
    obtain ⟨text, htext⟩ := hread.reaches
    rw [Node.ofTerms_cons, Node.delimitersOfAll_append, List.append_assoc,
      ← ih (hc.trans htext) depth rfl]
    exact Node.scanFrom_ofTerm hc (hread.takes_term hterm)
  | @group _ _ c inside innerMid bodyEnd close next mid later o innerTerms terms innerOthers others
      closing q ho hread hbody hclose hrest ihbody ih =>
    obtain ⟨hscan, hidentifier, hkind, hdelimiter⟩ := Node.scanFrom_opening depth hc ho
    obtain ⟨w, hw⟩ := hread.reaches
    obtain ⟨v, hv⟩ := hbody.reaches_later.trans hclose.reaches
    -- inside the group the scanner counts one more, and its closing parenthesis takes this back
    have hinner := ihbody (hc.trans hw) (depth + 1) rfl
    have hrest := ih ((hc.trans hw).trans hv) depth hdepth
    rw [hscan, hinner, Node.scanFrom_closes hclose, hrest, Node.ofTerms_cons, Node.ofTerm,
      Node.delimitersOfAll_append, Node.delimitersOfAll_cons, Node.delimitersOfAll_quantifier,
      Node.ofElement, Node.ofGroup]
    simp only
    rw [Node.delimitersOfAll_branch hkind hdelimiter, Node.delimitersOfAll_append,
      Node.delimitersOfAll_leaf (by decide), hidentifier, Node.delimitersOfAll_cons,
      Node.ofDisjunction, Node.delimitersOfAll_branch (by decide) rfl, Node.ofAlternative,
      Node.delimitersOfAll_branch (by decide) rfl,
      Node.delimitersOfAll_ofClosing (by decide) (by decide)]
    cases closing <;> simp [NodeKind.delimiter?]

/-- The leaves of a tree that are brackets or bars, stray ones included, are exactly what the
scanner reports for the pattern. -/
theorem Tree.delimiters_parse (source : String) :
    (parse source).root.leaves.filterMap (Node.delimiter? source) =
      (⟨0, false⟩ : Scanner).scan 0 source.toList := by
  obtain ⟨terms, mid, others, later, h, hend, -⟩ := Regex.exists_derives source
  have hscan := h.scanFrom_eq (.refl (.ofString source)) 0 rfl
  have hleaves : (parse source).root.leaves.filterMap (Node.delimiter? source) =
      Node.delimitersOfAll source [(parse source).root] := rfl
  rw [Scanner.scanFrom_of_end hend, List.append_nil] at hscan
  rw [hleaves, h.root_eq, Node.delimitersOfAll_branch (by decide) rfl, Node.ofDisjunction,
    Node.delimitersOfAll_branch (by decide) rfl, Node.ofAlternative,
    Node.delimitersOfAll_branch (by decide) rfl, Node.delimitersOfAll_nil, List.append_nil,
    List.append_nil]
  exact hscan.symm

/-- An escaped parenthesis and one in a class close no group. -/
example : (Tree.parse "(\\)[)").root.leaves.filterMap (Node.delimiter? "(\\)[)") =
    [(.groupBegin, ⟨0, 1⟩), (.setBegin, ⟨3, 4⟩)] := by
  decide +kernel

end RegexTree
