/-! # JSON
The JSON values that trees are exported as, and their text (`Json.pretty`): one item a line, two
spaces for each level, and objects whose members keep their order. Empty arrays and objects stay on
one line. -/

namespace RegexTree

/-- A JSON value without fractions, truth values and nulls. -/
inductive Json where
  /-- A text. -/
  | string (text : String)
  /-- A natural number. -/
  | number (value : Nat)
  /-- A sequence of values. -/
  | array (items : List Json)
  /-- Values by key, in order. -/
  | object (members : List (String × Json))

namespace Json

/-- The written form of one character of a text. -/
def escapedChar (c : Char) : String :=
  if c = '"' then "\\\""
  else if c = '\\' then "\\\\"
  else if c = '\x08' then "\\b"
  else if c = '\t' then "\\t"
  else if c = '\n' then "\\n"
  else if c = '\x0c' then "\\f"
  else if c = '\r' then "\\r"
  else if c.toNat < 0x10 then "\\u000" ++ String.ofList (Nat.toDigits 16 c.toNat)
  else if c.toNat < 0x20 then "\\u00" ++ String.ofList (Nat.toDigits 16 c.toNat)
  else c.toString

/-- A text between double quotes, each character in the form of `escapedChar`. -/
def quoted (text : String) : String :=
  text.toList.foldl (fun out c => out ++ escapedChar c) "\"" ++ "\""

/-- The end of a line and the indentation of the next one. -/
def lineBreak (level : Nat) : String := "\n" ++ String.ofList (List.replicate (2 * level) ' ')

mutual

/-- Write a value after a text, with the level of its line. -/
def write (level : Nat) (out : String) : Json → String
  | string text => out ++ quoted text
  | number value => out ++ toString value
  | array [] => out ++ "[]"
  | array (item :: items) =>
    writeItems (level + 1) (item.write (level + 1) (out ++ "[" ++ lineBreak (level + 1))) items ++
      lineBreak level ++ "]"
  | object [] => out ++ "\x7b\x7d"
  | object ((key, value) :: members) =>
    writeMembers (level + 1)
        (value.write (level + 1) (out ++ "\x7b" ++ lineBreak (level + 1) ++ quoted key ++ ": "))
        members ++
      lineBreak level ++ "\x7d"

/-- Write further items of an array after the first one, each by `write`. -/
def writeItems (level : Nat) (out : String) : List Json → String
  | [] => out
  | item :: items => writeItems level (item.write level (out ++ "," ++ lineBreak level)) items

/-- Write further members of an object after the first one, each value by `write`. -/
def writeMembers (level : Nat) (out : String) : List (String × Json) → String
  | [] => out
  | (key, value) :: members =>
    writeMembers level
      (value.write level (out ++ "," ++ lineBreak level ++ quoted key ++ ": ")) members

end

/-- The text of a value, by `write` to an empty text. -/
def pretty (value : Json) : String := value.write 0 ""

end Json

end RegexTree
