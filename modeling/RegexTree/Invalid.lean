import RegexTree.Span

/-! # Invalid spans
Reading a pattern never fails: a stretch that makes no sense is kept as an `Invalid` with the
`Reason` why. Each reason has a stable tag (`Reason.tag`), used where trees are printed, and a
wording for people (`Reason.message`). -/

namespace RegexTree

/-- Why a span of a pattern makes no sense. -/
inductive Reason where
  /-- The input ended before the group did. -/
  | unterminatedGroup
  /-- The input ended before the character class did. -/
  | unterminatedClass
  /-- A quantifier has nothing to repeat, or its bounds are malformed. -/
  | badQuantifier
  /-- A quantifier repeats what is repeated already. -/
  | stackedQuantifier
  /-- A backslash sequence is none of the known ones. -/
  | badEscape
  /-- The name of a group is malformed. -/
  | badGroupName
  /-- A reference to a group by name is malformed. -/
  | badBackreference
  /-- A character stands where it means nothing. -/
  | unknownConstruct
  deriving DecidableEq, Repr

namespace Reason

/-- All reasons, in the order of their declaration. -/
def all : List Reason :=
  [unterminatedGroup, unterminatedClass, badQuantifier, stackedQuantifier, badEscape, badGroupName,
    badBackreference, unknownConstruct]

/-- The stable tag of a reason. -/
def tag : Reason → String
  | unterminatedGroup => "unterminated-group"
  | unterminatedClass => "unterminated-class"
  | badQuantifier => "bad-quantifier"
  | stackedQuantifier => "stacked-quantifier"
  | badEscape => "bad-escape"
  | badGroupName => "bad-group-name"
  | badBackreference => "bad-backreference"
  | unknownConstruct => "unknown-construct"

/-- The wording of a reason. -/
def message : Reason → String
  | unterminatedGroup => "group is missing its closing `)`"
  | unterminatedClass => "character class is missing its closing `]`"
  | badQuantifier => "quantifier has nothing to repeat or is malformed"
  | stackedQuantifier => "quantifier follows another quantifier"
  | badEscape => "invalid escape sequence"
  | badGroupName => "invalid group name"
  | badBackreference => "invalid backreference"
  | unknownConstruct => "unexpected character"

/-- The reason whose `tag` is given. -/
def ofTag? (tag : String) : Option Reason := all.find? (·.tag == tag)

/-- The list `all` misses no reason. -/
theorem mem_all (r : Reason) : r ∈ all := by cases r <;> decide

/-- A `tag` leads back to its reason. -/
theorem ofTag?_tag (r : Reason) : ofTag? r.tag = some r := by cases r <;> decide

end Reason

/-- A span that makes no sense, with the reason. -/
structure Invalid where
  /-- Where it stands. -/
  span : Span
  /-- Why it makes no sense. -/
  reason : Reason
  deriving DecidableEq, Repr

namespace Invalid

/-- The wording of an invalid span: the `message` of its reason and where it stands. -/
def message (i : Invalid) : String :=
  i.reason.message ++ " at " ++ i.span.display ++ " (" ++ i.reason.tag ++ ")"

/-- The wording of all invalid spans of a pattern together: how many there are, and the first. -/
def messageOfAll (invalids : List Invalid) : String :=
  "pattern has " ++ toString invalids.length ++ " invalid construct(s); first: " ++
    (invalids.head?.map message).getD ""

end Invalid

end RegexTree
