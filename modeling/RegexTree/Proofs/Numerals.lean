import Mathlib.Data.List.Induction
import RegexTree.Escape.CodePoint

/-! # Numerals of any length
What is read in saturating arithmetic is the smaller of the number that the digits stand for and the
limit: one step keeps this (`Numeral.appendUpTo_min`), and a run over any number of digits does
(`Numeral.valueUpTo_eq_min`). It follows that saturation never makes a number smaller than a bound
below the limit, and that numbers with few digits are exact. -/

namespace RegexTree.Numeral

/-! ## Saturating arithmetic -/

/-- One step of `appendUpTo` keeps a number at the smaller of its exact value and the limit. -/
theorem appendUpTo_min (limit base n : Nat) (d : Char) :
    appendUpTo limit base (min n limit) d = min (n * base + digitValue d) limit := by
  unfold appendUpTo
  by_cases hn : n ≤ limit
  · have hmin : min n limit = n := Nat.min_eq_left hn
    rw [hmin]
    omega
  · have hmin : min n limit = limit := Nat.min_eq_right (by omega)
    rw [hmin]
    -- once the limit is reached, only the base zero would lead back below it
    rcases Nat.eq_zero_or_pos base with rfl | hbase
    · simp
    · have hlimit : limit ≤ limit * base := Nat.le_mul_of_pos_right limit hbase
      have hexact : limit * base ≤ n * base := Nat.mul_le_mul_right base (by omega)
      omega

/-- Digits of any length are read by `valueUpTo` as the smaller of their `value` and the limit. -/
theorem valueUpTo_eq_min (limit base : Nat) (digits : List Char) :
    valueUpTo limit base digits = min (value base digits) limit := by
  induction digits using List.reverseRecOn with
  | nil => exact (Nat.zero_min limit).symm
  | append_singleton digits d ih =>
    rw [valueUpTo] at ih ⊢
    rw [List.foldl_append, List.foldl_cons, List.foldl_nil, ih, appendUpTo_min, value_concat]

/-- Decimal digits of any length are read by `decimalUpTo` as the smaller of their number and the
limit. -/
theorem decimalUpTo_eq_min (limit : Nat) (digits : List Char) :
    decimalUpTo limit digits = min (decimal digits) limit :=
  valueUpTo_eq_min limit 10 digits

/-- Hexadecimal digits of any length are read by `hexadecimalUpTo` as the smaller of their number
and the limit. -/
theorem hexadecimalUpTo_eq_min (limit : Nat) (digits : List Char) :
    hexadecimalUpTo limit digits = min (hexadecimal digits) limit :=
  valueUpTo_eq_min limit 16 digits

/-- A number read up to one limit and then cut down to a smaller one is the number read up to the
smaller one. -/
theorem min_decimalUpTo {small large : Nat} (h : small ≤ large) (digits : List Char) :
    min (decimalUpTo large digits) small = decimalUpTo small digits := by
  rw [decimalUpTo_eq_min, decimalUpTo_eq_min]
  omega

/-- A number that is not above the limit is read by `hexadecimalUpTo` exactly. -/
theorem hexadecimalUpTo_eq {limit : Nat} {digits : List Char} (h : hexadecimal digits ≤ limit) :
    hexadecimalUpTo limit digits = hexadecimal digits := by
  rw [hexadecimalUpTo_eq_min, Nat.min_eq_left h]

/-! ## Digits -/

/-- The code of a decimal digit is that of zero plus its `digitValue`. -/
theorem toNat_of_isDecimalDigit {d : Char} (h : isDecimalDigit d = true) :
    48 ≤ d.toNat ∧ d.toNat = 48 + digitValue d ∧ digitValue d ≤ 9 := by
  have hdigit : d.isDigit = true := h
  have hrange : 48 ≤ d.toNat ∧ d.toNat ≤ 57 := by
    simp only [Char.isDigit, ge_iff_le, Bool.and_eq_true, decide_eq_true_eq] at hdigit
    exact ⟨hdigit.1, hdigit.2⟩
  rw [digitValue, if_pos hdigit]
  omega

/-- A number whose first digit is not zero is at least one. -/
theorem one_le_decimal {d : Char} (hd : isDecimalDigit d = true) (hzero : d ≠ '0')
    (digits : List Char) : 1 ≤ decimal (d :: digits) := by
  have hfirst : 1 ≤ digitValue d := by
    obtain ⟨-, hvalue, -⟩ := toNat_of_isDecimalDigit hd
    refine Nat.one_le_iff_ne_zero.mpr fun hdigit => hzero ?_
    rw [hdigit] at hvalue
    exact Char.toNat_inj.mp hvalue
  induction digits using List.reverseRecOn with
  | nil => simpa [decimal, value] using hfirst
  | append_singleton digits e ih =>
    rw [decimal] at ih ⊢
    rw [← List.cons_append, value_concat]
    omega

/-- The `digitValue` of a character is less than sixteen. -/
theorem digitValue_lt (d : Char) : digitValue d < 16 := by
  have hle : ∀ {x y : Char}, x ≤ y → x.toNat ≤ y.toNat := fun h => UInt32.le_iff_toNat_le.mp h
  unfold digitValue
  split_ifs with hdigit hlower hupper
  · obtain ⟨-, hvalue, hnine⟩ := toNat_of_isDecimalDigit (d := d) hdigit
    omega
  · simp only [Bool.and_eq_true, decide_eq_true_eq] at hlower
    have hf : d.toNat ≤ 102 := hle hlower.2
    omega
  · simp only [Bool.and_eq_true, decide_eq_true_eq] at hupper
    have hF : d.toNat ≤ 70 := hle hupper.2
    omega
  · exact Nat.zero_lt_succ 15

/-- A number with so many hexadecimal digits is less than that power of sixteen. -/
theorem hexadecimal_lt (digits : List Char) :
    hexadecimal digits < Nat.pow 16 digits.length := by
  induction digits using List.reverseRecOn with
  | nil => exact Nat.one_pos
  | append_singleton digits d ih =>
    have hd := digitValue_lt d
    have hpow : Nat.pow 16 (digits.length + 1) = Nat.pow 16 digits.length * 16 := rfl
    rw [hexadecimal] at ih
    rw [hexadecimal, value_concat, List.length_append, List.length_singleton, hpow]
    omega

/-- A number of at most four hexadecimal digits is exact and not above `CodePoint.last`. -/
theorem hexadecimal_le_last {digits : List Char} (h : digits.length ≤ 4) :
    hexadecimal digits ≤ CodePoint.last := by
  have hlt := hexadecimal_lt digits
  have hpow : Nat.pow 16 digits.length ≤ Nat.pow 16 4 := Nat.pow_le_pow_right (by decide) h
  have hfour : Nat.pow 16 4 ≤ CodePoint.last := by decide
  omega

end RegexTree.Numeral
