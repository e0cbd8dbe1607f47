import Mathlib.Computability.RegularExpressions
import RegexTree.Node.Traversal
import RegexTree.Proofs.Grammar.Basic
import RegexTree.Proofs.Tiling.Basic

/-! # The schema of trees
A schema says of every kind of node which children a node of this kind may have, by a regular
expression over what a child looks like from above, and which texts may stand at a leaf:
`NodeKind.rule`, `NodeKind.Token` and `Reason.Token`. A node conforms to the schema
(`Node.Conforms`) if its children match the expression of its kind and its text is one of those of
its kind; a tree is a derivation of the schema if all its nodes conform. -/

namespace RegexTree

/-! ## Rules for children -/

/-- What a node looks like from above: its kind, and for a fixed token and an invalid leaf, for
which the kind says too little, the token or the reason. -/
inductive Label where
  /-- A node of some kind. -/
  | node (kind : NodeKind)
  /-- A fixed token. -/
  | token (text : List Char)
  /-- An invalid leaf. -/
  | invalid (reason : Reason)
  deriving DecidableEq, Repr

/-- What a node of a tree of a source looks like from above. -/
def Node.label (source : String) (n : Node) : Label :=
  match n.reason with
  | some reason => .invalid reason
  | none =>
    if n.kind = .punctuation then .token (n.textIn source).toList else .node n.kind

namespace Label

/-- The expression of one label. -/
abbrev once (s : Label) : RegularExpression Label := .char s

/-- The expression of one of some labels. -/
def oneOf : List Label → RegularExpression Label
  | [] => 0
  | s :: others => s.once + oneOf others

/-- One of some labels (`oneOf`) is matched by these labels alone. -/
theorem mem_oneOf {ss : List Label} {w : List Label} :
    w ∈ (oneOf ss).matches' ↔ ∃ s ∈ ss, w = [s] := by
  induction ss with
  | nil => exact ⟨False.elim, fun ⟨_, hs, _⟩ => absurd hs List.not_mem_nil⟩
  | cons r ss ih =>
    rw [List.exists_mem_cons_iff, ← ih]
    exact Iff.rfl

/-- The labels that occur in an expression. -/
def letters : RegularExpression Label → List Label
  | .zero => []
  | .epsilon => []
  | .char s => [s]
  | .plus P Q => letters P ++ letters Q
  | .comp P Q => letters P ++ letters Q
  | .star P => letters P

/-- What matches an expression is made of its `letters`. -/
theorem mem_letters {P : RegularExpression Label} {w : List Label} (h : w ∈ P.matches') :
    ∀ s ∈ w, s ∈ letters P := by
  induction P generalizing w with
  | zero => cases h
  | epsilon =>
    obtain rfl : w = [] := h
    exact List.forall_mem_nil _
  | char s =>
    obtain rfl : w = [s] := h
    exact fun _ hs => hs
  | plus P Q ihP ihQ =>
    rcases h with h | h
    · exact fun s hs => List.mem_append_left _ (ihP h s hs)
    · exact fun s hs => List.mem_append_right _ (ihQ h s hs)
  | comp P Q ihP ihQ =>
    obtain ⟨v, hv, u, hu, rfl⟩ := Language.mem_mul.mp h
    refine List.forall_mem_append.mpr ⟨fun s hs => ?_, fun s hs => ?_⟩
    · exact List.mem_append_left _ (ihP hv s hs)
    · exact List.mem_append_right _ (ihQ hu s hs)
  | star P ih =>
    obtain ⟨ws, rfl, hall⟩ := Language.mem_kstar.mp h
    intro s hs
    obtain ⟨v, hv, hmem⟩ := List.mem_flatten.mp hs
    exact ih (hall v hv) s hmem

/-- The expression of what may be left out. -/
def optional (P : RegularExpression Label) : RegularExpression Label := P + 1

/-- The escapes of one character. -/
def escapes : List Label :=
  [.node .specialEscape, .node .controlLetterEscape, .node .hexadecimalEscape, .node .unicodeEscape,
    .node .nullCharacter, .node .identityEscape]

/-- What may begin with a backslash both in a class and outside. -/
def escaped : List Label := escapes ++ [.node .characterClassEscape, .invalid .badEscape]

/-- What a quantifier can follow. -/
def units : List Label :=
  [.node .patternCharacter, .node .anyCharacter, .node .startAssertion, .node .endAssertion,
    .node .boundaryAssertion, .node .nonBoundaryAssertion] ++ escaped ++
  [.node .characterClass, .node .backreferenceEscape] ++ NodeKind.groups.map .node ++
  [.invalid .badQuantifier, .invalid .stackedQuantifier, .invalid .badBackreference,
    .invalid .unknownConstruct]

/-- The quantifiers. -/
def quantifiers : List Label :=
  [.node .zeroOrMore, .node .oneOrMore, .node .optional, .node .countQuantifier]

/-- What a class is made of, but for ranges. -/
def classAtoms : List Label := .node .classCharacter :: escaped

/-- The expression of a group with some identifier. -/
def group (identifier : RegularExpression Label) : RegularExpression Label :=
  once (.node .groupBegin) * (identifier * (once (.node .disjunction) *
    oneOf [.node .groupEnd, .invalid .unterminatedGroup]))

/-- The expression of an operator of one character, which may be lazy. -/
def operator (x : Char) : RegularExpression Label :=
  once (.token [x]) * optional (once (.node .lazyMark))

/-- The expression of a name between tokens. -/
def named (opening : List Char) : RegularExpression Label :=
  once (.token opening) * (once (.node .groupName) * once (.token ['>']))

end Label

open Label in
/-- The children that a node of a kind may have. A kind that is not listed is one of leaves. -/
def NodeKind.rule : NodeKind → RegularExpression Label
  | regex => once (.node .disjunction)
  | disjunction =>
    once (.node .pattern) * .star (once (.node .disjunctionDelimiter) * once (.node .pattern))
  | pattern => .star (oneOf units * Label.optional (oneOf quantifiers))
  | zeroOrMore => operator '*'
  | oneOrMore => operator '+'
  | optional => operator '?'
  | countQuantifier =>
    once (.token ['{']) * (once (.node .countQuantifierValue) *
      (Label.optional (once (.node .countQuantifierDelimiter) *
        Label.optional (once (.node .countQuantifierValue))) *
        (once (.token ['}']) * Label.optional (once (.node .lazyMark)))))
  | anonymousCapturingGroup => group 1
  | nonCapturingGroup => group (once (.node .nonCapturingGroupIdentifier))
  | namedCapturingGroup => group (once (.node .namedCapturingGroupIdentifier))
  | lookaheadAssertion => group (once (.node .lookaheadIdentifier))
  | negativeLookaheadAssertion => group (once (.node .negativeLookaheadIdentifier))
  | lookbehindAssertion => group (once (.node .lookbehindIdentifier))
  | negativeLookbehindAssertion => group (once (.node .negativeLookbehindIdentifier))
  | malformedGroup => group (oneOf [.invalid .badGroupName, .invalid .unknownConstruct])
  | namedCapturingGroupIdentifier => named ['?', '<']
  | characterClass =>
    once (.node .setBegin) * (Label.optional (once (.node .setNegation)) *
      (.star (oneOf (.node .characterRange :: classAtoms)) *
        oneOf [.node .setEnd, .invalid .unterminatedClass]))
  | characterRange => oneOf classAtoms * (once (.node .rangeDelimiter) * oneOf classAtoms)
  | controlLetterEscape => once (.token ['\\', 'c']) * once (.node .controlLetterCode)
  | hexadecimalEscape => once (.token ['\\', 'x']) * once (.node .hexadecimalCode)
  | unicodeEscape =>
    once (.token ['\\', 'u']) * once (.node .unicodeCode) +
      once (.token ['\\', 'u', '{']) * (once (.node .unicodeCode) * once (.token ['}']))
  | identityEscape =>
    once (.node .escapeOperator) * oneOf (('/' :: '-' :: syntaxChars).map fun x => .token [x])
  -- the letters of predefined sets and references by number have no children
  | characterClassEscape =>
    Label.optional (oneOf [.token ['\\', 'p', '{'], .token ['\\', 'P', '{']] *
      (Label.optional (once (.node .unicodePropertyName) * once (.node .unicodePropertyOperator)) *
        (once (.node .unicodePropertyValue) * once (.token ['}']))))
  | backreferenceEscape => Label.optional (named ['\\', 'k', '<'])
  | _ => 1

/-! ## Rules for texts -/

/-- The leaves that always have the same text. -/
def NodeKind.fixedTokens : List (NodeKind × List Char) :=
  [(disjunctionDelimiter, ['|']), (anyCharacter, ['.']), (startAssertion, ['^']),
    (endAssertion, ['$']), (boundaryAssertion, ['\\', 'b']), (nonBoundaryAssertion, ['\\', 'B']),
    (countQuantifierDelimiter, [',']), (lazyMark, ['?']), (groupBegin, ['(']), (groupEnd, [')']),
    (nonCapturingGroupIdentifier, ['?', ':']), (lookaheadIdentifier, ['?', '=']),
    (negativeLookaheadIdentifier, ['?', '!']), (lookbehindIdentifier, ['?', '<', '=']),
    (negativeLookbehindIdentifier, ['?', '<', '!']), (setBegin, ['[']), (setEnd, [']']),
    (setNegation, ['^']), (rangeDelimiter, ['-']), (nullCharacter, ['\\', '0']),
    (escapeOperator, ['\\']), (unicodePropertyOperator, ['='])]

/-- The texts of the fixed tokens without a kind of their own. -/
def punctuationTokens : List (List Char) :=
  [['*'], ['+'], ['?'], ['{'], ['}'], ['>'], ['?', '<'], ['\\', 'k', '<'], ['\\', 'c'], ['\\', 'x'],
    ['\\', 'u'], ['\\', 'u', '{'], ['\\', 'p', '{'], ['\\', 'P', '{']] ++
  ('/' :: '-' :: syntaxChars).map fun x => [x]

/-- The texts that a leaf of a kind may have. -/
inductive NodeKind.Token : NodeKind → List Char → Prop where
  /-- An alternative without terms. -/
  | pattern : Token .pattern []
  /-- A leaf that always has the same text. -/
  | fixed {kind : NodeKind} {w : List Char} (h : (kind, w) ∈ fixedTokens) : Token kind w
  /-- A fixed token without a kind of its own. -/
  | punctuation {w : List Char} (h : w ∈ punctuationTokens) : Token .punctuation w
  /-- A character that stands for itself. -/
  | patternCharacter {x : Char} (hx : x ∉ syntaxChars) : Token .patternCharacter [x]
  /-- A character of a class that stands for itself. -/
  | classCharacter {x : Char} (hx : x ≠ ']' ∧ x ≠ '\\') : Token .classCharacter [x]
  /-- A bound of a count. -/
  | countQuantifierValue {w : List Char} (hw : IsNumeral w) : Token .countQuantifierValue w
  /-- The name of a group. -/
  | groupName {w : List Char} (hne : w ≠ []) (hw : GroupName.Form true w) : Token .groupName w
  /-- A letter for a control character; the last one is only used in classes. -/
  | specialEscape {x : Char} (hx : x ∈ specialEscapes ++ ['b']) : Token .specialEscape ['\\', x]
  /-- The letter of a control escape. -/
  | controlLetterCode {x : Char} (hx : isControlLetter x = true) : Token .controlLetterCode [x]
  /-- The digits of a hexadecimal escape. -/
  | hexadecimalCode {w : List Char} (hlength : w.length = 2)
      (hw : ∀ d ∈ w, isHexDigit d = true) : Token .hexadecimalCode w
  /-- The digits of a Unicode escape. -/
  | unicodeCode {w : List Char} (hne : w ≠ []) (hw : ∀ d ∈ w, isHexDigit d = true) :
      Token .unicodeCode w
  /-- A letter for a predefined set. -/
  | characterClassEscape {x : Char} (hx : x ∈ classEscapes) : Token .characterClassEscape ['\\', x]
  /-- The name of a property. -/
  | unicodePropertyName {w : List Char} (hw : PropertyToken.IsWord w) : Token .unicodePropertyName w
  /-- The value of a property. -/
  | unicodePropertyValue {w : List Char} (hw : PropertyToken.IsWord w) :
      Token .unicodePropertyValue w
  /-- A reference by number. -/
  | backreferenceEscape {d : Char} {digits : List Char} (hd : isDecimalDigit d = true)
      (hzero : d ≠ '0') (hdigits : ∀ e ∈ digits, isDecimalDigit e = true) :
      Token .backreferenceEscape ('\\' :: d :: digits)

/-- The texts that an invalid leaf with a reason may have. -/
inductive Reason.Token : Reason → List Char → Prop where
  /-- A missing closing parenthesis. -/
  | unterminatedGroup : Token .unterminatedGroup []
  /-- A missing closing bracket. -/
  | unterminatedClass : Token .unterminatedClass []
  /-- A quantifier with nothing to repeat. -/
  | badQuantifier {w : List Char} (hw : Grammar.Quantifier w []) : Token .badQuantifier w
  /-- A brace and what looks like a count. -/
  | malformedCount {w : List Char} (hw : ∀ y ∈ w, Count.allows y = true) :
      Token .badQuantifier ('{' :: w)
  /-- A brace and what looks like a count, with a closing brace. -/
  | closedCount {w : List Char} (hw : ∀ y ∈ w, Count.allows y = true) :
      Token .badQuantifier ('{' :: w ++ ['}'])
  /-- A quantifier that repeats what is repeated already. -/
  | stackedQuantifier {w : List Char} (hw : Grammar.Quantifier w []) : Token .stackedQuantifier w
  /-- A backslash at the end of input. -/
  | loneBackslash : Token .badEscape ['\\']
  /-- A backslash sequence that is no escape. -/
  | badEscape {w : List Char} (hw : Escaped.BadForm w) : Token .badEscape ('\\' :: w)
  /-- No name of a group between the brackets. -/
  | badGroupName {w : List Char} (hw : GroupName.Region w) : Token .badGroupName ('?' :: '<' :: w)
  /-- A reference by name without an opening bracket. -/
  | bareReference : Token .badBackreference ['\\', 'k']
  /-- A reference by name with no name between the brackets. -/
  | badBackreference {w : List Char} (hw : GroupName.Region w) :
      Token .badBackreference ('\\' :: 'k' :: '<' :: w)
  /-- A character that closes nothing, an opening brace, or the mark of an identifier. -/
  | unknownConstruct {x : Char} (hx : x ∈ [')', ']', '}', '{', '?']) : Token .unknownConstruct [x]

/-- The kinds of nodes of which the schema says only which children and, at a leaf, which texts they
may have. -/
def NodeKind.isOrdinary (kind : NodeKind) : Bool :=
  kind != .punctuation && kind != .invalid && kind != .unicodeEscape

/-! ## Conforming nodes -/

/-- A node conforms to the schema. -/
structure Node.Conforms (source : String) (n : Node) : Prop where
  /-- Its children are those of a node of its kind. -/
  children : n.children.map (label source) ∈ n.kind.rule.matches'
  /-- If it is a leaf and makes sense, its text is one of a leaf of its kind. -/
  text : n.children = [] → n.reason = none → n.kind.Token (n.textIn source).toList
  /-- If it has a reason, it is an invalid leaf with one of the texts for this reason. -/
  invalid : ∀ reason, n.reason = some reason →
    n.kind = .invalid ∧ reason.Token (n.textIn source).toList
  /-- If it makes no sense, it has a reason. -/
  reason : n.kind = .invalid → n.reason ≠ none
  /-- If it is a Unicode escape, it has four digits, or braces around digits that are no larger than
  the last code point. -/
  codePoint : n.kind = .unicodeEscape →
    ∃ p w, CodePoint.Form p w ∧ (n.textIn source).toList = '\\' :: w

/-- Nodes fit an expression: they match it, and they and all nodes below them conform. -/
structure Node.Fit (source : String) (ns : List Node) (P : RegularExpression Label) : Prop where
  /-- The nodes match the expression. -/
  labels : ns.map (label source) ∈ P.matches'
  /-- They and all nodes below them conform. -/
  conforms : ∀ n ∈ preorderOfAll ns, n.Conforms source

namespace Node.Fit

variable {source : String} {ms ns : List Node} {P Q : RegularExpression Label} {n : Node}

/-- No nodes fit (`Node.Fit`) the empty expression. -/
theorem nil : Fit source [] 1 := by
  refine ⟨rfl, ?_⟩
  rw [preorderOfAll]
  exact List.forall_mem_nil _

/-- Nodes in a row fit expressions in a row. -/
theorem append (hm : Fit source ms P) (hn : Fit source ns Q) : Fit source (ms ++ ns) (P * Q) := by
  constructor
  · rw [List.map_append]
    exact Language.append_mem_mul hm.labels hn.labels
  · rw [preorderOfAll_append]
    exact List.forall_mem_append.mpr ⟨hm.conforms, hn.conforms⟩

/-- One node more fits one expression more. -/
theorem cons (hm : Fit source [n] P) (hn : Fit source ns Q) : Fit source (n :: ns) (P * Q) :=
  hm.append hn

/-- What fits one expression fits a choice that has it first. -/
theorem left (h : Fit source ns P) : Fit source ns (P + Q) :=
  ⟨.inl h.labels, h.conforms⟩

/-- What fits one expression fits a choice that has it last. -/
theorem right (h : Fit source ns Q) : Fit source ns (P + Q) :=
  ⟨.inr h.labels, h.conforms⟩

/-- What may be left out (`Label.optional`) may be there. -/
theorem present (h : Fit source ns P) : Fit source ns (Label.optional P) := h.left

/-- What may be left out may be missing. -/
theorem absent : Fit source [] (Label.optional P) := right nil

/-- No nodes fit a repeated expression. -/
theorem star_nil : Fit source [] P.star :=
  ⟨Language.nil_mem_kstar _, nil.conforms⟩

/-- Nodes that fit an expression and others that fit its repetition fit the repetition. -/
theorem star_append (hm : Fit source ms P) (hn : Fit source ns P.star) :
    Fit source (ms ++ ns) P.star := by
  have h := hm.append hn
  refine ⟨?_, h.conforms⟩
  obtain ⟨ws, hws, hall⟩ := Language.mem_kstar.mp hn.labels
  refine Language.mem_kstar.mpr ⟨ms.map (label source) :: ws, ?_, ?_⟩
  · rw [List.map_append, List.flatten_cons, hws]
  · exact List.forall_mem_cons.mpr ⟨hm.labels, hall⟩

/-- A node fits a choice of labels (`Label.oneOf`) if it looks like one of them. -/
theorem oneOf {s : Label} {ss : List Label} (h : Fit source [n] s.once) (hs : s ∈ ss) :
    Fit source [n] (Label.oneOf ss) :=
  ⟨Label.mem_oneOf.mpr ⟨s, hs, h.labels⟩, h.conforms⟩

/-- What fits a choice of labels fits a choice of more labels. -/
theorem oneOf_of_subset {ss rs : List Label} (h : Fit source ns (Label.oneOf ss)) (hss : ss ⊆ rs) :
    Fit source ns (Label.oneOf rs) := by
  obtain ⟨s, hs, hlabels⟩ := Label.mem_oneOf.mp h.labels
  exact ⟨Label.mem_oneOf.mpr ⟨s, hss hs, hlabels⟩, h.conforms⟩

/-! ### Single nodes -/

/-- A node that conforms, as all nodes below it do, fits its label. -/
theorem single {s : Label} (hlabel : n.label source = s) (hn : n.Conforms source)
    (hbelow : ∀ m ∈ preorderOfAll n.children, m.Conforms source) : Fit source [n] s.once := by
  constructor
  · show [n.label source] ∈ ({[s]} : Language Label)
    rw [hlabel]
    rfl
  · rw [preorderOfAll_cons, preorderOfAll, List.append_nil]
    exact List.forall_mem_cons.mpr ⟨hn, hbelow⟩

/-- If the children of a node fit the `NodeKind.rule` of its kind and its text is as it should be,
the node fits the kind. -/
theorem of_children {kind : NodeKind} {span : Span} (hchildren : Fit source ns kind.rule)
    (hkind : kind ≠ .punctuation ∧ kind ≠ .invalid)
    (htext : ns = [] → kind.Token (span.textIn source).toList)
    (hcode : kind = .unicodeEscape →
      ∃ p w, CodePoint.Form p w ∧ (span.textIn source).toList = '\\' :: w) :
    Fit source [branch kind span ns] (Label.once (.node kind)) := by
  refine single ?_ ?_ hchildren.conforms
  · rw [label, branch, if_neg hkind.1]
  · constructor
    case children => exact hchildren.labels
    case text => exact fun hempty _ => htext hempty
    case invalid => rintro _ ⟨⟩
    case reason => exact fun hinvalid => absurd hinvalid hkind.2
    case codePoint => exact hcode

/-- A node fits an ordinary kind (`NodeKind.isOrdinary`) if its children fit the rule and, at a
leaf, the text is right. -/
theorem of_isOrdinary {kind : NodeKind} {span : Span} (hkind : kind.isOrdinary = true)
    (hchildren : Fit source ns kind.rule)
    (htext : ns = [] → kind.Token (span.textIn source).toList) :
    Fit source [Node.branch kind span ns] (Label.once (.node kind)) := by
  simp only [NodeKind.isOrdinary, Bool.and_eq_true, bne_iff_ne] at hkind
  exact of_children hchildren hkind.1 htext fun hcode => absurd hcode hkind.2

/-- A node fits its kind if it has children and they fit the rule of the kind. -/
theorem branch (kind : NodeKind) (span : Span) (hkind : kind.isOrdinary = true)
    (hchildren : Fit source (n :: ns) kind.rule) :
    Fit source [Node.branch kind span (n :: ns)] (Label.once (.node kind)) :=
  of_isOrdinary hkind hchildren fun hempty => absurd hempty (List.cons_ne_nil n ns)

variable {c later : Cursor} {w : List Char}

/-- A leaf fits its kind if the kind may have no children and the text that was read for the leaf is
one of the kind. -/
theorem leaf {kind : NodeKind} (hkind : (kind.isOrdinary && kind.rule.rmatch []) = true)
    (hc : (Cursor.ofString source).Reaches c) (h : c.Reads w later) (ht : kind.Token w) :
    Fit source [leaf kind (c.spanTo later)] (Label.once (.node kind)) := by
  obtain ⟨hordinary, hrule⟩ := Bool.and_eq_true_iff.mp hkind
  have hchildren : Fit source [] kind.rule :=
    ⟨(RegularExpression.rmatch_iff_matches' _ _).mp hrule, nil.conforms⟩
  refine of_isOrdinary hordinary hchildren fun _ => ?_
  rw [hc.toList_textIn h]
  exact ht

/-- A leaf of a kind with one of the `fixedTokens` fits its kind if this text was read. -/
theorem fixed (kind : NodeKind) (hw : (kind, w) ∈ NodeKind.fixedTokens)
    (hc : (Cursor.ofString source).Reaches c) (h : c.Reads w later) :
    Fit source [Node.leaf kind (c.spanTo later)] (Label.once (.node kind)) := by
  have hkinds : ∀ p ∈ NodeKind.fixedTokens, (p.1.isOrdinary && p.1.rule.rmatch []) = true := by
    decide
  exact leaf (hkinds _ hw) hc h (.fixed hw)

/-- A `punctuation` fits its text. -/
theorem punctuation (hw : w ∈ punctuationTokens) (hc : (Cursor.ofString source).Reaches c)
    (h : c.Reads w later) :
    Fit source [punctuation c.pos later.pos] (Label.once (.token w)) := by
  have htext : ((Node.punctuation c.pos later.pos).textIn source).toList = w := hc.toList_textIn h
  refine single (congrArg Label.token htext) ?_ nil.conforms
  constructor
  case children => rfl
  case text =>
    intro _ _
    rw [htext]
    exact .punctuation hw
  case invalid => rintro _ ⟨⟩
  case reason => rintro ⟨⟩
  case codePoint => rintro ⟨⟩

/-- An invalid leaf fits its reason if the text that was read for it is one for the reason
(`Reason.Token`). -/
theorem ofInvalid {reason : Reason} (hc : (Cursor.ofString source).Reaches c) (h : c.Reads w later)
    (ht : reason.Token w) :
    Fit source [ofInvalid ⟨c.spanTo later, reason⟩] (Label.once (.invalid reason)) := by
  have htext : ((c.spanTo later).textIn source).toList = w := hc.toList_textIn h
  refine single rfl ?_ nil.conforms
  constructor
  case children => rfl
  case text => rintro _ ⟨⟩
  case invalid =>
    rintro _ ⟨⟩
    refine ⟨rfl, ?_⟩
    show reason.Token ((c.spanTo later).textIn source).toList
    rw [htext]
    exact ht
  case reason => rintro - ⟨⟩
  case codePoint => rintro ⟨⟩

end Node.Fit

end RegexTree
