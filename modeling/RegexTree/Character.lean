import RegexTree.Unicode.Alphabetic

/-! # Classes of pattern characters
Which characters mean something of their own in a pattern, which may follow a backslash, and which
may stand in numbers, property names and group names. All sets are fixed. -/

namespace RegexTree

/-- The characters with a meaning of their own outside a character class. -/
def syntaxChars : List Char :=
  ['^', '$', '\\', '.', '*', '+', '?', '(', ')', '[', ']', '{', '}', '|']

/-- The letters that name a single control character after a backslash. -/
def specialEscapes : List Char := ['f', 'n', 'r', 't', 'v']

/-- The letters that name a predefined set of characters after a backslash. -/
def classEscapes : List Char := ['d', 'D', 's', 'S', 'w', 'W']

/-- The character is one of the `syntaxChars`. -/
def isSyntaxChar (c : Char) : Bool := syntaxChars.contains c

/-- The character stands for itself outside a character class: it is no `isSyntaxChar`. -/
def isPatternChar (c : Char) : Bool := !isSyntaxChar c

/-- The letter is one of the `specialEscapes`. -/
def isSpecialEscape (c : Char) : Bool := specialEscapes.contains c

/-- The letter is one of the `classEscapes`. -/
def isClassEscape (c : Char) : Bool := classEscapes.contains c

/-- The character stands for itself after a backslash outside a character class. -/
def isIdentityEscape (c : Char) : Bool := isSyntaxChar c || c == '/'

/-- Inside a class the dash may be escaped as well as what `isIdentityEscape` allows. -/
def isClassIdentityEscape (c : Char) : Bool := isIdentityEscape c || c == '-'

/-- A digit of base ten. -/
def isDecimalDigit (c : Char) : Bool := c.isDigit

/-- A digit of base sixteen, in either case. -/
def isHexDigit (c : Char) : Bool :=
  c.isDigit || ('a' ≤ c && c ≤ 'f') || ('A' ≤ c && c ≤ 'F')

/-- A letter that names a control character. -/
def isControlLetter (c : Char) : Bool := c.isAlpha

/-- A character of the names and values of Unicode properties. -/
def isPropertyChar (c : Char) : Bool := c.isAlphanum || c == '_'

/-- A character that may begin a group name: what `Unicode.isAlphabetic` accepts, a digit, an
underscore or a dollar sign. -/
def isGroupNameStart (c : Char) : Bool :=
  Unicode.isAlphabetic c || c.isDigit || c == '_' || c == '$'

/-- A character that may follow the first of a group name: what `isGroupNameStart` accepts, and the
two joiners. -/
def isGroupNameContinue (c : Char) : Bool :=
  isGroupNameStart c || c == '\u200c' || c == '\u200d'

/-- A letter that asserts a word boundary, or that there is none, after a backslash. -/
def isWordBoundaryMarker (c : Char) : Bool := c == 'b' || c == 'B'

/-- What holds of each character in a list holds of all that are in it; checking the list by
`List.all` does not go through all characters. -/
theorem forall_mem_of_all {p : Char → Prop} [DecidablePred p] {chars : List Char}
    (h : chars.all (p ·) = true) : ∀ x ∈ chars, p x := by
  simpa using h

/-- What may begin a name may also continue it. -/
theorem isGroupNameContinue_of_start {c : Char} (h : isGroupNameStart c = true) :
    isGroupNameContinue c = true := by
  simp [isGroupNameContinue, h]

end RegexTree
