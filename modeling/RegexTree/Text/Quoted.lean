import RegexTree.Unicode.DefaultIgnorable
import RegexTree.Unicode.GraphemeExtend
import RegexTree.Unicode.Unprintable

/-! # Quoted text
A text between double quotes in which every character can be told apart: quotes and backslashes
stand after a backslash, line ends, tabs and the null character have letters of their own, and every
other character that cannot be read where it stands (`isUnreadable`) is written as its code
point. -/

namespace RegexTree.Text

/-- A code point in lower-case hexadecimal digits. -/
def hexDigits (n : Nat) : String := String.ofList (Nat.toDigits 16 n)

/-- The character cannot be read where it stands: it is attached to the one before it, is ignored by
displays, or has no printed form. -/
def isUnreadable (c : Char) : Bool :=
  Unicode.isAttached c || Unicode.isDefaultIgnorable c || Unicode.isUnprintable c

/-- The written form of one character between the quotes of `quoted`. -/
def quotedChar (c : Char) : String :=
  if c = '\x00' then "\\0"
  else if c = '\t' then "\\t"
  else if c = '\r' then "\\r"
  else if c = '\n' then "\\n"
  else if c = '\\' then "\\\\"
  else if c = '"' then "\\\""
  else if isUnreadable c then
    "\\u\x7b" ++ hexDigits c.toNat ++ "\x7d"
  else c.toString

/-- A text between double quotes. -/
def quoted (text : String) : String :=
  (text.toList.foldl (fun out c => out ++ quotedChar c) "\"").push '"'

end RegexTree.Text
