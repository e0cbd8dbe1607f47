import RegexTree.Node.Basic
import RegexTree.Regex.Basic

/-! # From the typed tree to the uniform tree
Each part of the typed tree (`Regex`) becomes a `Node` whose children are its tokens and its parts
in source order. Every byte of the pattern belongs to exactly one leaf. -/

namespace RegexTree.Node

/-! ## Escapes -/

/-- An escape that begins with a fixed token and goes on with a code, with a fixed token after the
code where the suffix has a width. All these tokens are ASCII. -/
def ofCode (kind code : NodeKind) (span : Span) (opening suffix : Nat) : Node :=
  branch kind span <|
    [punctuation span.start (span.start + opening),
      leaf code ⟨span.start + opening, span.stop - suffix⟩] ++
    if suffix = 0 then [] else [punctuation (span.stop - suffix) span.stop]

/-- The node of an `Escape`: `ofCode` where it has a code. -/
def ofEscape (e : Escape) : Node :=
  match e.kind with
  | .special _ => leaf .specialEscape e.span
  | .controlLetter _ _ => ofCode .controlLetterEscape .controlLetterCode e.span 2 0
  | .hexadecimal _ => ofCode .hexadecimalEscape .hexadecimalCode e.span 2 0
  | .unicode ⟨_, false⟩ => ofCode .unicodeEscape .unicodeCode e.span 2 0
  | .unicode ⟨_, true⟩ => ofCode .unicodeEscape .unicodeCode e.span 3 1
  | .null => leaf .nullCharacter e.span
  | .identity _ =>
    branch .identityEscape e.span
      [leaf .escapeOperator ⟨e.span.start, e.span.start + 1⟩,
        punctuation (e.span.start + 1) e.span.stop]

/-- The nodes of the name of a property. -/
def ofPropertyName : Option PropertyName → List Node
  | none => []
  | some name =>
    [leaf .unicodePropertyName name.token.span, leaf .unicodePropertyOperator name.operator]

/-- The node of a `ClassEscape`. -/
def ofClassEscape (e : ClassEscape) : Node :=
  match e.kind with
  | .predefined _ => leaf .characterClassEscape e.span
  | .property property =>
    branch .characterClassEscape e.span <|
      -- the backslash, the letter and the opening brace
      punctuation e.span.start (e.span.start + 3) :: ofPropertyName property.name ++
        [leaf .unicodePropertyValue property.value.span,
          punctuation (e.span.stop - 1) e.span.stop]

/-! ## Character classes -/

/-- The node of a `ClassAtom`. -/
def ofClassAtom : ClassAtom → Node
  | .literal span _ => leaf .classCharacter span
  | .escape e => ofEscape e
  | .classEscape e => ofClassEscape e
  | .invalid i => ofInvalid i

/-- The node of a `ClassMember`. -/
def ofClassMember : ClassMember → Node
  | .atom a => ofClassAtom a
  | .range r =>
    branch .characterRange r.span
      [ofClassAtom r.low, leaf .rangeDelimiter r.delimiter, ofClassAtom r.high]

/-- The node of a closing delimiter, or of the stand-in for a missing one (`Span.emptyAt`). -/
def ofClosing (kind : NodeKind) (reason : Reason) (stop : Nat) : Option Span → Node
  | some closing => leaf kind closing
  | none => ofInvalid ⟨.emptyAt stop, reason⟩

/-- The node of a `CharacterClass`. -/
def ofCharacterClass (c : CharacterClass) : Node :=
  branch .characterClass c.span <|
    leaf .setBegin c.opening :: (c.negation.map (leaf .setNegation)).toList ++
      c.members.map ofClassMember ++
      [ofClosing .setEnd .unterminatedClass c.span.stop c.closing]

/-! ## Atoms -/

/-- A name between fixed tokens. -/
def ofName (kind : NodeKind) (span : Span) (name : GroupName) : Node :=
  branch kind span
    [punctuation span.start name.span.start, leaf .groupName name.span,
      punctuation name.span.stop span.stop]

/-- The node of a `Backreference`. -/
def ofBackreference : Backreference → Node
  | .numeric span _ => leaf .backreferenceEscape span
  | .named span name => ofName .backreferenceEscape span name

/-- The kind of node that an assertion is. -/
def kindOfAssertion : AssertionKind → NodeKind
  | .atStart => .startAssertion
  | .atEnd => .endAssertion
  | .wordBoundary => .boundaryAssertion
  | .nonWordBoundary => .nonBoundaryAssertion

/-- The node of an `Atom`. -/
def ofAtom : Atom → Node
  | .literal span _ => leaf .patternCharacter span
  | .anyCharacter span => leaf .anyCharacter span
  | .assertion span kind => leaf (kindOfAssertion kind) span
  | .escape e => ofEscape e
  | .classEscape e => ofClassEscape e
  | .characterClass c => ofCharacterClass c
  | .backreference b => ofBackreference b
  | .invalid i => ofInvalid i

/-! ## Quantifiers -/

/-- The nodes of what follows the lower bound of a count. -/
def ofUpperPart : Option UpperPart → List Node
  | none => []
  | some upper =>
    leaf .countQuantifierDelimiter upper.delimiter ::
      (upper.max.map fun bound => leaf .countQuantifierValue bound.span).toList

/-- The kind of a quantifier's node, and the nodes of its operator. -/
def ofOperator (kind : QuantifierKind) (operator : Span) : NodeKind × List Node :=
  match kind with
  | .zeroOrMore => (.zeroOrMore, [punctuation operator.start operator.stop])
  | .oneOrMore => (.oneOrMore, [punctuation operator.start operator.stop])
  | .optional => (.optional, [punctuation operator.start operator.stop])
  | .count count =>
    (.countQuantifier,
      punctuation operator.start (operator.start + 1) ::
        leaf .countQuantifierValue count.min.span :: ofUpperPart count.upper ++
        [punctuation (operator.stop - 1) operator.stop])

/-- The node of a `Quantifier`: what `ofOperator` gives, and the mark that makes it lazy. -/
def ofQuantifier (q : Quantifier) : Node :=
  let (kind, operator) := ofOperator q.kind q.operator
  branch kind q.span (operator ++ (q.lazyMark.map (leaf .lazyMark)).toList)

/-! ## Groups and alternatives -/

/-- The kind of a group's node, and the node of its identifier, from its `GroupKind`. -/
def ofGroupKind : GroupKind → NodeKind × Option Node
  | .anonymous => (.anonymousCapturingGroup, none)
  | .nonCapturing span => (.nonCapturingGroup, some (leaf .nonCapturingGroupIdentifier span))
  | .named span name =>
    (.namedCapturingGroup, some (ofName .namedCapturingGroupIdentifier span name))
  | .lookahead span => (.lookaheadAssertion, some (leaf .lookaheadIdentifier span))
  | .negativeLookahead span =>
    (.negativeLookaheadAssertion, some (leaf .negativeLookaheadIdentifier span))
  | .lookbehind span => (.lookbehindAssertion, some (leaf .lookbehindIdentifier span))
  | .negativeLookbehind span =>
    (.negativeLookbehindAssertion, some (leaf .negativeLookbehindIdentifier span))
  | .malformed invalid => (.malformedGroup, some (ofInvalid invalid))

mutual

/-- The node of a `Disjunction`. -/
def ofDisjunction : Disjunction → Node
  | ⟨first, others⟩ =>
    branch .disjunction (Disjunction.span ⟨first, others⟩)
      (ofAlternative first :: ofBranches others)

/-- The nodes of bars and the alternatives after them. -/
def ofBranches : List Branch → List Node
  | [] => []
  | ⟨bar, alternative⟩ :: others =>
    leaf .disjunctionDelimiter bar :: ofAlternative alternative :: ofBranches others

/-- The node of an `Alternative`. -/
def ofAlternative : Alternative → Node
  | ⟨span, terms⟩ => branch .pattern span (ofTerms terms)

/-- The nodes of terms: each element, and its quantifier after it. -/
def ofTerms : List Term → List Node
  | [] => []
  | ⟨element, none⟩ :: terms => ofElement element :: ofTerms terms
  | ⟨element, some q⟩ :: terms => ofElement element :: ofQuantifier q :: ofTerms terms

/-- The node of an element. -/
def ofElement : Element → Node
  | .atom a => ofAtom a
  | .group g => ofGroup g

/-- The node of a `Group`. -/
def ofGroup : Group → Node
  | ⟨span, opening, body, closing⟩ =>
    let (kind, identifier) := ofGroupKind opening.kind
    branch kind span <|
      leaf .groupBegin opening.parenthesis :: identifier.toList ++
        [ofDisjunction body, ofClosing .groupEnd .unterminatedGroup span.stop closing]

end

/-- The root of the uniform tree of a typed tree: a node of the kind `NodeKind.regex` around the
disjunction. -/
def ofRegex (regex : Regex) : Node := branch .regex regex.span [ofDisjunction regex.body]

end RegexTree.Node
