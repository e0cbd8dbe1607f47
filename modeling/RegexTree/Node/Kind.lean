/-! # Kinds of nodes
Every node of the uniform tree has one of a fixed list of kinds. A kind has a number, by its place
in the list (`NodeKind.id`), and a name (`NodeKind.name`); both are stable, so a new kind may only
be appended. -/

namespace RegexTree

/-- The kind of a node of the uniform tree. -/
inductive NodeKind where
  /-- A whole pattern. -/
  | regex
  /-- Alternatives between bars. -/
  | disjunction
  /-- One alternative. -/
  | pattern
  /-- A bar. -/
  | disjunctionDelimiter
  /-- A character that stands for itself. -/
  | patternCharacter
  /-- The dot. -/
  | anyCharacter
  /-- The caret. -/
  | startAssertion
  /-- The dollar sign. -/
  | endAssertion
  /-- A demand for a word boundary. -/
  | boundaryAssertion
  /-- A demand for no word boundary. -/
  | nonBoundaryAssertion
  /-- A star. -/
  | zeroOrMore
  /-- A plus. -/
  | oneOrMore
  /-- A question mark. -/
  | optional
  /-- A count in braces. -/
  | countQuantifier
  /-- A bound of a count. -/
  | countQuantifierValue
  /-- The comma of a count. -/
  | countQuantifierDelimiter
  /-- The mark that makes a quantifier lazy. -/
  | lazyMark
  /-- A group without an identifier. -/
  | anonymousCapturingGroup
  /-- A group that captures nothing. -/
  | nonCapturingGroup
  /-- A group with a name. -/
  | namedCapturingGroup
  /-- A group that must match ahead. -/
  | lookaheadAssertion
  /-- A group that must not match ahead. -/
  | negativeLookaheadAssertion
  /-- A group that must match behind. -/
  | lookbehindAssertion
  /-- A group that must not match behind. -/
  | negativeLookbehindAssertion
  /-- A group whose identifier makes no sense. -/
  | malformedGroup
  /-- An opening parenthesis. -/
  | groupBegin
  /-- A closing parenthesis. -/
  | groupEnd
  /-- The identifier of a group that captures nothing. -/
  | nonCapturingGroupIdentifier
  /-- The identifier of a group with a name. -/
  | namedCapturingGroupIdentifier
  /-- The identifier of a lookahead. -/
  | lookaheadIdentifier
  /-- The identifier of a negative lookahead. -/
  | negativeLookaheadIdentifier
  /-- The identifier of a lookbehind. -/
  | lookbehindIdentifier
  /-- The identifier of a negative lookbehind. -/
  | negativeLookbehindIdentifier
  /-- The name of a group. -/
  | groupName
  /-- A set of characters, in brackets. -/
  | characterClass
  /-- An opening bracket. -/
  | setBegin
  /-- A closing bracket. -/
  | setEnd
  /-- The caret that turns a set into its complement. -/
  | setNegation
  /-- A character of a set that stands for itself. -/
  | classCharacter
  /-- A range of a set. -/
  | characterRange
  /-- The dash of a range. -/
  | rangeDelimiter
  /-- An escaped control character with a letter of its own. -/
  | specialEscape
  /-- A control escape. -/
  | controlLetterEscape
  /-- The letter of a control escape. -/
  | controlLetterCode
  /-- A hexadecimal escape. -/
  | hexadecimalEscape
  /-- The digits of a hexadecimal escape. -/
  | hexadecimalCode
  /-- A Unicode escape. -/
  | unicodeEscape
  /-- The digits of a Unicode escape. -/
  | unicodeCode
  /-- The escaped null character. -/
  | nullCharacter
  /-- An escaped character that stands for itself. -/
  | identityEscape
  /-- The backslash of an identity escape. -/
  | escapeOperator
  /-- An escaped set of characters. -/
  | characterClassEscape
  /-- The name of a property. -/
  | unicodePropertyName
  /-- The equals sign of a property. -/
  | unicodePropertyOperator
  /-- The value of a property. -/
  | unicodePropertyValue
  /-- A reference to a group. -/
  | backreferenceEscape
  /-- A fixed token without a name, such as a brace. -/
  | punctuation
  /-- A span that makes no sense. -/
  | invalid
  deriving DecidableEq, Repr

namespace NodeKind

/-- All kinds, in the order of their declaration. -/
def all : List NodeKind :=
  [regex, disjunction, pattern, disjunctionDelimiter, patternCharacter, anyCharacter,
    startAssertion, endAssertion, boundaryAssertion, nonBoundaryAssertion, zeroOrMore, oneOrMore,
    optional, countQuantifier, countQuantifierValue, countQuantifierDelimiter, lazyMark,
    anonymousCapturingGroup, nonCapturingGroup, namedCapturingGroup, lookaheadAssertion,
    negativeLookaheadAssertion, lookbehindAssertion, negativeLookbehindAssertion, malformedGroup,
    groupBegin, groupEnd, nonCapturingGroupIdentifier, namedCapturingGroupIdentifier,
    lookaheadIdentifier, negativeLookaheadIdentifier, lookbehindIdentifier,
    negativeLookbehindIdentifier, groupName, characterClass, setBegin, setEnd, setNegation,
    classCharacter, characterRange, rangeDelimiter, specialEscape, controlLetterEscape,
    controlLetterCode, hexadecimalEscape, hexadecimalCode, unicodeEscape, unicodeCode,
    nullCharacter, identityEscape, escapeOperator, characterClassEscape, unicodePropertyName,
    unicodePropertyOperator, unicodePropertyValue, backreferenceEscape, punctuation, invalid]

/-- The number of a kind: its place in the list `all`. -/
def id (kind : NodeKind) : Nat := kind.ctorIdx

/-- The name of a kind. -/
def name : NodeKind → String
  | regex => "regex"
  | disjunction => "disjunction"
  | pattern => "pattern"
  | disjunctionDelimiter => "disjunction_delimiter"
  | patternCharacter => "pattern_character"
  | anyCharacter => "any_character"
  | startAssertion => "start_assertion"
  | endAssertion => "end_assertion"
  | boundaryAssertion => "boundary_assertion"
  | nonBoundaryAssertion => "non_boundary_assertion"
  | zeroOrMore => "zero_or_more"
  | oneOrMore => "one_or_more"
  | optional => "optional"
  | countQuantifier => "count_quantifier"
  | countQuantifierValue => "count_quantifier_value"
  | countQuantifierDelimiter => "count_quantifier_delimiter"
  | lazyMark => "lazy"
  | anonymousCapturingGroup => "anonymous_capturing_group"
  | nonCapturingGroup => "non_capturing_group"
  | namedCapturingGroup => "named_capturing_group"
  | lookaheadAssertion => "lookahead_assertion"
  | negativeLookaheadAssertion => "negative_lookahead_assertion"
  | lookbehindAssertion => "lookbehind_assertion"
  | negativeLookbehindAssertion => "negative_lookbehind_assertion"
  | malformedGroup => "malformed_group"
  | groupBegin => "group_begin"
  | groupEnd => "group_end"
  | nonCapturingGroupIdentifier => "non_capturing_group_identifier"
  | namedCapturingGroupIdentifier => "named_capturing_group_identifier"
  | lookaheadIdentifier => "lookahead_identifier"
  | negativeLookaheadIdentifier => "negative_lookahead_identifier"
  | lookbehindIdentifier => "lookbehind_identifier"
  | negativeLookbehindIdentifier => "negative_lookbehind_identifier"
  | groupName => "group_name"
  | characterClass => "character_class"
  | setBegin => "set_begin"
  | setEnd => "set_end"
  | setNegation => "set_negation"
  | classCharacter => "class_character"
  | characterRange => "character_range"
  | rangeDelimiter => "range_delimiter"
  | specialEscape => "special_escape"
  | controlLetterEscape => "control_letter_escape"
  | controlLetterCode => "control_letter_code"
  | hexadecimalEscape => "hexadecimal_escape"
  | hexadecimalCode => "hexadecimal_code"
  | unicodeEscape => "unicode_escape"
  | unicodeCode => "unicode_code"
  | nullCharacter => "null_character"
  | identityEscape => "identity_escape"
  | escapeOperator => "escape_operator"
  | characterClassEscape => "character_class_escape"
  | unicodePropertyName => "unicode_property_name"
  | unicodePropertyOperator => "unicode_property_operator"
  | unicodePropertyValue => "unicode_property_value"
  | backreferenceEscape => "backreference_escape"
  | punctuation => "punctuation"
  | invalid => "invalid"

/-- The kind whose `id` is given. -/
def ofId? (id : Nat) : Option NodeKind := all[id]?

/-- The kind whose `name` is given. -/
def ofName? (name : String) : Option NodeKind := all.find? (·.name == name)

/-- Fixed tokens have no name in a tree and are left out where only named nodes are shown. -/
def isNamed (kind : NodeKind) : Bool := kind != punctuation

/-- The kinds of groups. -/
def groups : List NodeKind :=
  [anonymousCapturingGroup, nonCapturingGroup, namedCapturingGroup, lookaheadAssertion,
    negativeLookaheadAssertion, lookbehindAssertion, negativeLookbehindAssertion, malformedGroup]

/-- The kind is one of `groups`. -/
def isGroup (kind : NodeKind) : Bool := groups.contains kind

/-- The order of kinds is that of their numbers, by `id`. -/
def order (a b : NodeKind) : Ordering := compare a.id b.id

instance : Ord NodeKind := ⟨order⟩

/-! ## Numbers and names lead back to kinds -/

/-- The list `all` misses no kind. -/
theorem mem_all (kind : NodeKind) : kind ∈ all := by cases kind <;> decide

/-- The numbers count the list `all`. -/
theorem map_id_all : all.map id = List.range 58 := by decide

/-- An `id` leads back to its kind. -/
theorem ofId?_id (kind : NodeKind) : ofId? kind.id = some kind := by cases kind <;> rfl

/-- A `name` leads back to its kind. -/
theorem ofName?_name (kind : NodeKind) : ofName? kind.name = some kind := by
  cases kind <;> decide +kernel

end NodeKind

end RegexTree
