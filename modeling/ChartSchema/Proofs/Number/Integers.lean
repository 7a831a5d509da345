import ChartSchema.Proofs.Number.ReadBack
import ChartSchema.Proofs.Number.Rounding

/-!
# Exact integers

Below `2 ^ 53` every integer is a binary64 value of its own: its count of units has its leading
digits in the integer and zeros behind them, so that nothing is rounded (`representable_ones`,
`Binary64.ofInt_of_lt`). It is found again in that value (`Binary64.exactInteger?_ofInt`), so that
an expression keeps it as a JSON integer, and the digits of a natural number read as it
(`Binary64.ofDecimal_toDigits`).

In the other direction, a value in which an integer is found is the value of it, but for the sign of
zero (`Binary64.ofInt_of_exactInteger?`). The sign of an integer is told by the integer unless it is
zero, and this is the only thing that a binary64 value knows and its integer does not.

The bound is where consecutive integers stop being told apart. At `2 ^ 53` itself an integer is
still representable, but its successor is not, and both have the same nearest value; so an integer
is looked for only strictly below. It lies far inside the range of JSON integers, which are kept as
they are (`Json.ofMeasure_ofInt`). Where a text of digits is read, no bound is needed for the
statement: the digits and the integer are rounded in the same way.
-/

namespace ChartSchema

/-- Fewer than `2 ^ 53` ones are carried by 53 leading digits. -/
theorem representable_ones {count : Nat} (h : count < Nat.pow 2 53) :
    Representable (count * unitsPerOne) := by
  have hshift : unitsPerOne.log2 < 2045 := by
    rw [log2_unitsPerOne]
    decide
  rw [unitsPerOne_eq]
  exact representable_mul_pow (Nat.le_of_lt h) hshift

namespace Binary64

theorem natAbs_signed (negative : Bool) (units : Nat) : (signed negative units).natAbs = units := by
  rw [signed]
  split
  · rw [Int.natAbs_neg, Int.natAbs_natCast]
  · exact Int.natAbs_natCast units

/-- A small integer is not rounded. -/
theorem ofInt_of_lt {value : Int} (h : value.natAbs < Nat.pow 2 53) :
    ofInt value = .finite (decide (value < 0)) (value.natAbs * unitsPerOne)
      (representable_ones h) := by
  have hexact := ofUnits_of_representable (decide (value < 0)) (representable_ones h) Nat.one_pos
  rw [Nat.mul_one] at hexact
  rw [ofInt, ofRatio, hexact]

/-- What is cut off behind the point of a small integer is nothing. -/
theorem truncate_ofInt {value : Int} (h : value.natAbs < Nat.pow 2 53) :
    (ofInt value).truncate = value := by
  rw [ofInt_of_lt h, truncate, Nat.mul_div_cancel _ unitsPerOne_pos]
  by_cases hnegative : value < 0
  · rw [decide_eq_true hnegative, signed, if_pos rfl]
    omega
  · rw [decide_eq_false hnegative, signed, if_neg Bool.false_ne_true]
    omega

/-- **An integer below `2 ^ 53` is found again in its binary64 value.** -/
theorem exactInteger?_ofInt {value : Int} (h : value.natAbs < Nat.pow 2 53) :
    (ofInt value).exactInteger? = some value := by
  have hintegral : (ofInt value).isIntegral = true := by
    rw [ofInt_of_lt h, isIntegral, Nat.mul_mod_left]
    exact decide_eq_true rfl
  rw [exactInteger?, truncate_ofInt h, if_pos ⟨hintegral, h⟩]

/-- No integer is found in what has a fraction or is too large. -/
theorem exactInteger?_eq_none_iff {x : Binary64} :
    x.exactInteger? = none ↔ x.isIntegral = false ∨ Nat.pow 2 53 ≤ x.truncate.natAbs := by
  rw [exactInteger?, ← Nat.not_lt, ← Bool.not_eq_true, ← not_and_or]
  split
  · next hexact => exact iff_of_false (Option.some_ne_none _) (not_not_intro hexact)
  · next hinexact => exact iff_of_true rfl hinexact

/-- An integer is found where there is no fraction and it is small. -/
theorem exactInteger?_eq_some_iff {x : Binary64} {value : Int} :
    x.exactInteger? = some value ↔
      x.isIntegral = true ∧ x.truncate = value ∧ value.natAbs < Nat.pow 2 53 := by
  rw [exactInteger?]
  split
  · next hexact =>
    rw [Option.some.injEq]
    exact ⟨fun h => ⟨hexact.1, h, h ▸ hexact.2⟩, fun h => h.2.1⟩
  · next hinexact =>
    refine iff_of_false (Option.some_ne_none _).symm ?_
    rintro ⟨hintegral, rfl, hsmall⟩
    exact hinexact ⟨hintegral, hsmall⟩

/-- A value that is an integer below `2 ^ 53` is the value of it, but for the sign of zero. -/
theorem ofInt_of_exactInteger? {x : Binary64} {value : Int} (h : x.exactInteger? = some value) :
    ofInt value = x.withoutZeroSign := by
  obtain ⟨hintegral, htruncate, hsmall⟩ := exactInteger?_eq_some_iff.1 h
  cases x with
  | nan => cases hintegral
  | infinite negative => cases hintegral
  | finite negative units representable =>
    have hunits : value.natAbs * unitsPerOne = units := by
      rw [← htruncate, truncate, natAbs_signed]
      exact Nat.div_mul_cancel (Nat.dvd_of_mod_eq_zero (of_decide_eq_true hintegral))
    subst hunits
    rw [ofInt_of_lt hsmall, withoutZeroSign]
    by_cases hzero : value = 0
    · subst hzero
      simp only [Int.natAbs_zero, Nat.zero_mul, if_true]
      rfl
    · have hpos : value.natAbs * unitsPerOne ≠ 0 :=
        Nat.mul_ne_zero (Int.natAbs_ne_zero.2 hzero) (Nat.ne_of_gt unitsPerOne_pos)
      have hsign : decide (value < 0) = negative := by
        rw [truncate, Nat.mul_div_cancel _ unitsPerOne_pos, signed] at htruncate
        cases negative with
        | true =>
          rw [if_pos rfl] at htruncate
          exact decide_eq_true (by omega)
        | false =>
          rw [if_neg Bool.false_ne_true] at htruncate
          exact decide_eq_false (by omega)
      rw [if_neg hpos, hsign]

/-- **The digits of a natural number read as it.** -/
theorem ofDecimal_toDigits (n : Nat) :
    ofDecimal false (.ofDigits (Nat.toDigits 10 n) [] 0) = ofInt n := by
  rw [Decimal.ofDigits, List.append_nil, digitsValue_toDigits, List.length_nil, ofDecimal]
  by_cases hzero : n = 0
  · have hzeroInt := @ofInt_of_lt 0 (by decide)
    simp only [Int.natAbs_zero, Nat.zero_mul] at hzeroInt
    rw [if_pos hzero, hzero, Int.natCast_zero, hzeroInt]
    rfl
  · have hsmall : ¬400 < (0 : Int) - (0 : Nat) := by decide
    have hlarge : ¬(0 : Int) - (0 : Nat) + n.log2 < -1100 := by omega
    have hnegative : decide ((n : Int) < 0) = false := decide_eq_false (by omega)
    rw [if_neg hzero, if_neg hsmall, if_neg hlarge, ofInt, hnegative, Int.natAbs_natCast]
    exact congrArg (ofRatio false · 1) (Nat.mul_one n)

end Binary64

theorem JsonNumber.inRange_of_lt {value : Int} (h : value.natAbs < Nat.pow 2 53) :
    -0x8000000000000000 ≤ value ∧ value < 0x10000000000000000 := by
  have hbound : Nat.pow 2 53 ≤ 0x8000000000000000 := by decide
  omega

/-- An integer below `2 ^ 53` is written as a JSON integer. -/
theorem Json.ofInt_of_lt {value : Int} (h : value.natAbs < Nat.pow 2 53) :
    ofInt value = .number (.integer value (JsonNumber.inRange_of_lt h)) :=
  dif_pos (JsonNumber.inRange_of_lt h)

/-- An integer below `2 ^ 53` is kept as a JSON integer. -/
theorem Json.ofMeasure_ofInt {value : Int} (h : value.natAbs < Nat.pow 2 53) :
    Json.ofMeasure (.ofInt value) = .ofInt value := by
  rw [ofMeasure, Binary64.exactInteger?_ofInt h]

end ChartSchema
