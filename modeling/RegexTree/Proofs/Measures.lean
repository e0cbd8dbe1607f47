import RegexTree.Proofs.Tiling.Parts

/-! # Measures of trees
Every character of a pattern pays for five nodes of the tree and for three of its levels, well
formed or not: only the three nodes of the empty pattern are left over. The lemma `Paid.charge` says
what one character more can pay for, and from it follows form by form that what is read for a part
of the pattern pays for the nodes of the part. The main statement is that the tree of a pattern of n
characters has at most 5 n + 3 nodes on at most 3 n + 3 levels, and that n opening parentheses have
a tree of just this size. -/

namespace RegexTree

namespace Node

/-! ## Nodes and levels of single nodes and of lists -/

/-- The deepest of some trees is the first or one of the others. -/
@[simp] theorem depthOfAll_cons (n : Node) (ns : List Node) :
    depthOfAll (n :: ns) = max n.depth (depthOfAll ns) := rfl

/-- The deepest tree of two lists is in the one or in the other. -/
@[simp] theorem depthOfAll_append (ms ns : List Node) :
    depthOfAll (ms ++ ns) = max (depthOfAll ms) (depthOfAll ns) := by
  induction ms with
  | nil => simp
  | cons m ms ih => simp [ih, Nat.max_assoc]

/-- A node counts one more than its children do together. -/
@[simp] theorem size_branch (kind : NodeKind) (span : Span) (children : List Node) :
    (branch kind span children).size = 1 + sizeOfAll children := rfl

/-- A node is one level deeper than its deepest child. -/
@[simp] theorem depth_branch (kind : NodeKind) (span : Span) (children : List Node) :
    (branch kind span children).depth = 1 + depthOfAll children := rfl

/-- A leaf is one node. -/
@[simp] theorem size_leaf (kind : NodeKind) (span : Span) : (leaf kind span).size = 1 := rfl

/-- A leaf is one level. -/
@[simp] theorem depth_leaf (kind : NodeKind) (span : Span) : (leaf kind span).depth = 1 := rfl

/-- A `punctuation` is one node. -/
@[simp] theorem size_punctuation (start stop : Nat) : (punctuation start stop).size = 1 := rfl

/-- A `punctuation` is one level. -/
@[simp] theorem depth_punctuation (start stop : Nat) : (punctuation start stop).depth = 1 := rfl

/-- An invalid leaf, by `ofInvalid`, is one node. -/
@[simp] theorem size_ofInvalid (i : Invalid) : (ofInvalid i).size = 1 := rfl

/-- An invalid leaf, by `ofInvalid`, is one level. -/
@[simp] theorem depth_ofInvalid (i : Invalid) : (ofInvalid i).depth = 1 := rfl

/-- A closing delimiter, or what stands in for it, is one node. -/
@[simp] theorem size_ofClosing (kind : NodeKind) (reason : Reason) (stop : Nat)
    (closing : Option Span) : (ofClosing kind reason stop closing).size = 1 := by
  cases closing <;> rfl

/-- A closing delimiter, or what stands in for it, is one level. -/
@[simp] theorem depth_ofClosing (kind : NodeKind) (reason : Reason) (stop : Nat)
    (closing : Option Span) : (ofClosing kind reason stop closing).depth = 1 := by
  cases closing <;> rfl

/-- A node without children is one node on one level. -/
theorem measures_of_isLeaf {n : Node} (h : n.isLeaf = true) : n.size = 1 ∧ n.depth = 1 := by
  obtain ⟨kind, span, reason, children⟩ := n
  obtain rfl : children = [] := List.isEmpty_iff.mp h
  exact ⟨rfl, rfl⟩

/-! ## What characters pay for -/

/-- The characters between two places pay for some nodes: each character for five nodes and for
three levels. -/
structure Paid (c : Cursor) (ns : List Node) (later : Cursor) : Prop where
  /-- The nodes are at most five for each character. -/
  size : sizeOfAll ns + 5 * later.rest.length ≤ 5 * c.rest.length
  /-- The levels are at most three for each character. -/
  depth : depthOfAll ns + 3 * later.rest.length ≤ 3 * c.rest.length

namespace Paid

variable {c mid next later : Cursor} {x : Char} {w : List Char} {n : Node} {ks ms ns : List Node}

/-- Any text pays for no nodes (`Paid`). -/
theorem nil (h : c.Reaches later) : Paid c [] later := by
  have hle := h.length_le
  constructor
  case size =>
    rw [sizeOfAll_nil]
    omega
  case depth =>
    rw [depthOfAll_nil]
    omega

/-- Two texts in a row pay for the nodes that each of them pays for. -/
theorem append (hms : Paid c ms mid) (hns : Paid mid ns later) : Paid c (ms ++ ns) later := by
  obtain ⟨hmSize, hmDepth⟩ := hms
  obtain ⟨hnSize, hnDepth⟩ := hns
  constructor
  case size =>
    rw [sizeOfAll_append]
    omega
  case depth =>
    rw [depthOfAll_append]
    omega

/-- A text that goes on pays for the same nodes. -/
theorem extend (h : Paid c ns mid) (hreach : mid.Reaches later) : Paid c ns later := by
  simpa using h.append (nil hreach)

/-- A character between two texts pays for five more nodes, and for three more levels, than what
the texts pay for. -/
theorem charge (hms : Paid c ms mid) (hread : mid.Reads (x :: w) next) (hns : Paid next ns later)
    (hks : sizeOfAll ks ≤ sizeOfAll ms + sizeOfAll ns + 5 ∧
      depthOfAll ks ≤ max (depthOfAll ms) (depthOfAll ns) + 3) : Paid c ks later := by
  obtain ⟨hmSize, hmDepth⟩ := hms
  obtain ⟨hnSize, hnDepth⟩ := hns
  obtain ⟨hsize, hdepth⟩ := hks
  have hlength := hread.length_rest
  rw [List.length_cons] at hlength
  constructor
  case size => omega
  case depth => omega

/-- The first character of a text pays for five more nodes, and for three more levels, than what
the rest of the text pays for. -/
theorem charge_first (hread : c.Reads (x :: w) mid) (hns : Paid mid ns later)
    (hks : sizeOfAll ks ≤ sizeOfAll ns + 5 ∧ depthOfAll ks ≤ depthOfAll ns + 3) :
    Paid c ks later := by
  refine charge (nil (.refl c)) hread hns ?_
  simpa using hks

/-- A text that is not empty pays for five nodes on three levels. -/
theorem of_reads (h : c.Reads (x :: w) later) (hns : sizeOfAll ns ≤ 5 ∧ depthOfAll ns ≤ 3) :
    Paid c ns later := by
  refine charge_first h (nil (.refl later)) ?_
  simpa using hns

/-- A text that is not empty pays for a leaf. -/
theorem of_isLeaf (hn : n.isLeaf = true) (h : c.Reads (x :: w) later) : Paid c [n] later := by
  obtain ⟨hsize, hdepth⟩ := measures_of_isLeaf hn
  exact of_reads h (by simp [hsize, hdepth])

end Paid

section Parts

variable {c later : Cursor}

/-- An optional token pays for its node. -/
theorem paid_optional {x : Char} {s : Option Span} (kind : NodeKind)
    (h : Cursor.Skips x c later s) : Paid c (s.map (leaf kind)).toList later := by
  cases h with
  | absent => exact .nil (.refl c)
  | present hread => exact .of_isLeaf rfl hread

/-! ## Escapes -/

/-- An `Escape` is a leaf or has at most three leaves below it. -/
theorem measures_ofEscape (e : Escape) : (ofEscape e).size ≤ 4 ∧ (ofEscape e).depth ≤ 2 := by
  obtain ⟨span, kind⟩ := e
  cases kind with
  | unicode p =>
    obtain ⟨value, _ | _⟩ := p
    · simp [ofEscape, ofCode]
    · simp [ofEscape, ofCode]
  | _ => simp [ofEscape, ofCode]

/-- What stands between the braces of a property pays for its nodes. -/
theorem paid_ofProperty {negated : Bool} {p : UnicodeProperty}
    (h : UnicodeProperty.Form negated c later p) :
    Paid c (ofPropertyName p.name ++ [leaf .unicodePropertyValue p.value.span]) later := by
  cases h with
  | value hword hread =>
    obtain ⟨x, w, rfl⟩ := List.exists_cons_of_ne_nil hword.1
    exact .of_reads hread (by simp [ofPropertyName])
  | named hname hreadName hoperator hword hread =>
    obtain ⟨x, w, rfl⟩ := List.exists_cons_of_ne_nil hname.1
    exact .of_reads ((hreadName.trans hoperator).trans hread) (by simp [ofPropertyName])

/-- An `Escaped` pays for its nodes. -/
theorem paid_ofEscaped {inClass : Bool} {e : Escaped} (h : Escaped.Takes inClass c later e) :
    Paid c [ofEscaped e] later := by
  obtain ⟨w, hread⟩ := h.reads
  cases e with
  | character e =>
    obtain ⟨hsize, hdepth⟩ := measures_ofEscape e
    refine .of_reads hread ?_
    simp [ofEscaped]
    omega
  | invalid i => exact .of_isLeaf rfl hread
  | set e =>
    cases h with
    | predefined hx hread => exact .of_isLeaf rfl hread
    | property hx hopen hp hclose =>
      -- with a name there are six nodes, of which the text between the braces pays for three
      refine .charge_first hopen ((paid_ofProperty hp).extend hclose.reaches) ?_
      simp [ofEscaped, ofClassEscape]
      omega

/-! ## Character classes -/

/-- A `ClassAtom` pays for its nodes. -/
theorem paid_ofClassAtom {a : ClassAtom} (h : ClassAtom.Takes c later a) :
    Paid c [ofClassAtom a] later := by
  cases h with
  | literal hx hclose hread => exact .of_isLeaf rfl hread
  | escaped he =>
    rw [ofClassAtom_ofEscaped]
    exact paid_ofEscaped he

/-- A `ClassMember` pays for its nodes: the dash of a range pays for the range. -/
theorem paid_ofClassMember {m : ClassMember} (h : ClassMember.Takes c later m) :
    Paid c [ofClassMember m] later := by
  cases h with
  | atom ha => exact paid_ofClassAtom ha
  | range hlow hdash hhigh =>
    refine .charge (paid_ofClassAtom hlow) hdash (paid_ofClassAtom hhigh) ?_
    simp [ofClassMember]
    omega

/-- Members of a class pay for their nodes. -/
theorem paid_map_ofClassMember {ms : List ClassMember} (h : CharacterClass.Members c ms later) :
    Paid c (ms.map ofClassMember) later := by
  induction h with
  | nil => exact .nil (.refl _)
  | cons hm hms ih => exact (paid_ofClassMember hm).append ih

/-- A `CharacterClass` pays for its nodes: the opening bracket pays for the class and for both
brackets, also where the closing one is missing. -/
theorem paid_ofCharacterClass {s : CharacterClass} (h : CharacterClass.Takes c later s) :
    Paid c [ofCharacterClass s] later := by
  obtain ⟨hopen, hnegation, hmembers, hclosing, -⟩ := h
  have hinner := (paid_optional .setNegation hnegation).append (paid_map_ofClassMember hmembers)
  refine .charge_first hopen (hinner.extend hclosing.reaches) ?_
  simp [ofCharacterClass]
  omega

/-! ## Atoms -/

/-- A `GroupName` between fixed tokens is four nodes on two levels. -/
theorem measures_ofName (kind : NodeKind) (span : Span) (name : GroupName) :
    (ofName kind span name).size = 4 ∧ (ofName kind span name).depth = 2 := by
  simp [ofName]

/-- A reference by name, or what is left of one, pays for its nodes. -/
theorem paid_ofReference {r : Except Invalid Backreference} (h : Backreference.Takes c later r) :
    Paid c [ofAtom (Atom.ofReference r)] later := by
  obtain ⟨w, hread⟩ := h.reads
  cases h with
  | named =>
    refine .of_reads hread ?_
    simp [Atom.ofReference, ofAtom, ofBackreference, measures_ofName]
  | bare => exact .of_isLeaf rfl hread
  | malformed => exact .of_isLeaf rfl hread

/-- An `Atom` pays for its nodes. -/
theorem paid_ofAtom {a : Atom} (h : Atom.Takes c later a) : Paid c [ofAtom a] later := by
  cases h with
  | reference hr => exact paid_ofReference hr
  | escaped he =>
    rw [ofAtom_ofEscaped]
    exact paid_ofEscaped he
  | characterClass hs => exact paid_ofCharacterClass hs
  | numeric hd hzero hdigits hread hnext => exact .of_isLeaf rfl hread
  | _ => exact .of_isLeaf rfl (by assumption)

/-! ## Quantifiers -/

/-- An `UpperPart` of a count pays for its nodes. -/
theorem paid_ofUpperPart {upper : Option UpperPart} (h : UpperPart.Takes c later upper) :
    Paid c (ofUpperPart upper) later := by
  cases h with
  | none => exact .nil (.refl c)
  | comma hread => exact .of_isLeaf rfl hread
  | bound hcomma hdigits hread =>
    exact .of_reads (hcomma.trans hread) (by simp [ofUpperPart])

/-- A token that may be left out is at most one node on one level. -/
theorem measures_optional (kind : NodeKind) (s : Option Span) :
    sizeOfAll (s.map (leaf kind)).toList ≤ 1 ∧ depthOfAll (s.map (leaf kind)).toList ≤ 1 := by
  cases s <;> simp

/-- A `Quantifier` pays for its nodes: the brace of a count pays for all but its upper part. -/
theorem paid_ofQuantifier {q : Quantifier} (h : Quantifier.Takes c later q) :
    Paid c [ofQuantifier q] later := by
  obtain @⟨kind, mark, middle, hkind, hmark⟩ := h
  have hlazy := measures_optional .lazyMark mark
  cases hkind with
  | count hcount =>
    obtain ⟨hopen, hdigits, hread, hupper, hclose⟩ := hcount
    have hrest := (paid_ofUpperPart hupper).extend (hclose.reaches.trans hmark.reaches)
    refine .charge_first (hopen.trans hread) hrest ?_
    simp [ofQuantifier, ofOperator]
    omega
  | zeroOrMore hread | oneOrMore hread | optional hread =>
    refine (Paid.of_reads hread ?_).extend hmark.reaches
    simp [ofQuantifier, ofOperator]
    omega

/-- A quantifier that may follow pays for its nodes. -/
theorem paid_follows {q : Option Quantifier} (h : Quantifier.Follows c later q) :
    Paid c (q.map ofQuantifier).toList later := by
  cases h with
  | absent => exact .nil (.refl c)
  | present hq => exact paid_ofQuantifier hq

/-! ## Terms and groups -/

/-- A `Term` without a group pays for its nodes. -/
theorem paid_ofTerm {nested first : Bool} {t : Term} (h : Term.Takes nested first c later t) :
    Paid c (ofTerm t) later := by
  cases h with
  | atom ha hq => exact (paid_ofAtom ha).append (paid_follows hq)
  | strayClosing houtside hread hq =>
    exact (Paid.of_isLeaf (n := ofInvalid _) rfl hread).append (paid_follows hq)
  | strayQuantifier hq =>
    obtain ⟨x, w, -, hread⟩ := hq.reads
    exact .of_isLeaf rfl hread
  | malformedCount hw hread =>
    rcases hread with hread | hread
    · exact .of_isLeaf rfl hread
    · exact .of_isLeaf rfl hread
  | brace hread => exact .of_isLeaf rfl hread

/-- Behind its parenthesis a `GroupOpening` pays for the node of its identifier. -/
theorem paid_identifier {o : GroupOpening} (h : GroupOpening.Takes c later o) :
    ∃ inside, c.Reads ['('] inside ∧ Paid inside (ofGroupKind o.kind).2.toList later := by
  cases h with
  | anonymous hread hnext => exact ⟨later, hread, .nil (.refl later)⟩
  | @identified kind inside hopen hkind =>
    obtain ⟨w, hread⟩ := hkind.reads
    have hmeasures : sizeOfAll (ofGroupKind kind).2.toList ≤ 5 ∧
        depthOfAll (ofGroupKind kind).2.toList ≤ 3 := by
      cases kind <;> simp [ofGroupKind, measures_ofName]
    exact ⟨inside, hopen, .of_reads hread hmeasures⟩

end Parts

end Node

/-! ## Derivations -/

/-- Where nothing but opening parentheses is left, only the end of input ends a disjunction. -/
theorem EndsAt.rest_eq_nil_of_openings {nested : Bool} {c : Cursor} (h : EndsAt nested c)
    (hall : ∀ x ∈ c.rest, x = '(') : c.rest = [] := by
  rcases h with h | ⟨-, hclose⟩
  · exact h
  · exact absurd (hall ')' (List.mem_of_mem_head? hclose)) (by decide)

namespace Derives

variable {nested first : Bool} {c mid later : Cursor} {terms : List Term} {others : List Branch}

/-- The rest of the current alternative pays for the nodes of its terms, and what follows it for
those of the further alternatives. A parenthesis pays for the five nodes that a group has at least:
itself, its two ends, its disjunction and the first alternative of this. -/
theorem paid (h : Derives nested first c terms mid others later) :
    Node.Paid c (Node.ofTerms terms) mid ∧ Node.Paid mid (Node.ofBranches others) later := by
  induction h with
  | stop hend => exact ⟨.nil (.refl _), .nil (.refl _)⟩
  | bar hbar hread hrest ih =>
    refine ⟨.nil (.refl _), .charge_first hbar (ih.1.append ih.2) ?_⟩
    simp [Node.ofBranches, Node.ofAlternative]
    omega
  | term hread hterm hrest ih =>
    rw [Node.ofTerms_cons]
    exact ⟨(Node.paid_ofTerm (hread.takes_term hterm)).append ih.1, ih.2⟩
  | @group _ _ c inside innerMid bodyEnd close next mid later o innerTerms terms innerOthers others
      closing q ho hread hbody hclose hrest ihbody ih =>
    obtain ⟨start, hopen, hidentifier⟩ := Node.paid_identifier ho
    have hinner := hidentifier.append (ihbody.1.append ihbody.2)
    have hgroup : Node.Paid c [Node.ofGroup ⟨c.spanTo close, o,
        ⟨⟨inside.spanTo innerMid, innerTerms⟩, innerOthers⟩, closing⟩] close := by
      refine .charge_first hopen (hinner.extend hclose.reaches_close) ?_
      simp [Node.ofGroup, Node.ofDisjunction, Node.ofAlternative]
      omega
    rw [Node.ofTerms_cons]
    exact ⟨(hgroup.append (Node.paid_follows hclose.follows)).append ih.1, ih.2⟩

/-! ### Opening parentheses alone -/

/-- Where nothing but opening parentheses is left, the first one begins a group around all others,
so that there are five nodes and three levels for each of them. -/
theorem measures_of_openings (h : Derives nested first c terms mid others later)
    (hall : ∀ x ∈ c.rest, x = '(') :
    others = [] ∧ Node.sizeOfAll (Node.ofTerms terms) = 5 * c.rest.length ∧
      Node.depthOfAll (Node.ofTerms terms) = 3 * c.rest.length := by
  induction h with
  | stop hend =>
    have hnil := hend.rest_eq_nil_of_openings hall
    simp [Node.ofTerms, hnil]
  | bar hbar hread hrest ih =>
    exact absurd (hall '|' hbar.mem_rest) (by decide)
  | term hread hterm hrest ih =>
    -- at a parenthesis an opening is read, which is no term
    obtain ⟨x, t, hx, hread⟩ := hread
    obtain rfl : x = '(' := hall x (hx ▸ List.mem_cons_self)
    rw [Lexeme.read_open hx] at hread
    cases hread
    cases hterm
  | @group _ _ c inside innerMid bodyEnd close next mid later o innerTerms terms innerOthers others
      closing q ho hread hbody hclose hrest ihbody ih =>
    have hinside : ∀ x ∈ inside.rest, x = '(' := fun x hx =>
      hall x (hread.reaches.suffix.subset hx)
    have hend : bodyEnd.rest = [] := hbody.endsAt.rest_eq_nil_of_openings fun x hx =>
      hinside x (hbody.reaches_later.suffix.subset hx)
    obtain ⟨rfl, hsize, hdepth⟩ := ihbody hinside
    -- the group has no identifier, and its closing parenthesis is missing
    cases ho with
    | identified hopen hkind =>
      obtain ⟨w, hquestion⟩ := hkind.reads
      have hmem := hopen.reaches.suffix.subset hquestion.mem_rest
      exact absurd (hall '?' hmem) (by decide)
    | anonymous hopen hnext =>
      have hlength := hopen.length_rest
      cases hclose with
      | closed hclosing => cases hend ▸ hclosing.mem_rest
      | missing hend' =>
        obtain ⟨rfl, hrestSize, hrestDepth⟩ := ih (by simp [hend])
        simp [Node.ofTerms, Node.ofElement, Node.ofGroup, Node.ofGroupKind, Node.ofDisjunction,
          Node.ofAlternative, Node.ofBranches, hsize, hdepth, hrestSize, hrestDepth, hend, hlength]
        omega

end Derives

namespace Tree

/-- The tree of a pattern has at most five nodes for each character and three more. -/
theorem measures_le (source : String) : (parse source).root.size ≤ 5 * source.length + 3 ∧
    (parse source).root.depth ≤ 3 * source.length + 3 := by
  obtain ⟨terms, mid, others, later, h, -⟩ := Regex.exists_derives source
  obtain ⟨hsize, hdepth⟩ := h.paid.1.append h.paid.2
  have hlength : (Cursor.ofString source).rest.length = source.length := String.length_toList
  rw [h.root_eq]
  simp [Node.ofDisjunction, Node.ofAlternative] at hsize hdepth ⊢
  omega

/-- The tree of some opening parentheses alone has five nodes on three levels for each of them, and
three more. -/
theorem measures_of_openings (n : Nat) :
    (parse (String.ofList (List.replicate n '('))).root.size = 5 * n + 3 ∧
      (parse (String.ofList (List.replicate n '('))).root.depth = 3 * n + 3 := by
  obtain ⟨terms, mid, others, later, h, -⟩ :=
    Regex.exists_derives (String.ofList (List.replicate n '('))
  have hrest : (Cursor.ofString (String.ofList (List.replicate n '('))).rest =
      List.replicate n '(' := String.toList_ofList
  obtain ⟨rfl, hsize, hdepth⟩ := h.measures_of_openings fun x hx =>
    List.eq_of_mem_replicate (hrest ▸ hx)
  rw [hrest, List.length_replicate] at hsize hdepth
  rw [h.root_eq]
  simp [Node.ofDisjunction, Node.ofAlternative, Node.ofBranches, hsize, hdepth]
  omega

/-- The tree of a pattern of n characters has at most 5 n + 3 nodes on at most 3 n + 3 levels,
however malformed the pattern is, and no smaller numbers will do: the tree of n opening parentheses
has just as many. -/
theorem measures_bound :
    (∀ source : String, (parse source).root.size ≤ 5 * source.length + 3 ∧
      (parse source).root.depth ≤ 3 * source.length + 3) ∧
    ∀ n : Nat, (parse (String.ofList (List.replicate n '('))).root.size = 5 * n + 3 ∧
      (parse (String.ofList (List.replicate n '('))).root.depth = 3 * n + 3 :=
  ⟨measures_le, measures_of_openings⟩

end Tree

end RegexTree
