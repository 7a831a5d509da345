import ChartSchema.Json.Basic

/-!
# Rounding stays in range

Rounding gives a count of units that is representable, as long as the exact value is not next to the
overflow bound (`representable_roundUnits`). The step of the rounding is the power of two that has
all digits of the exact value but the first 53, so that fewer than `2 ^ 53` whole steps fit into it
(`div_step_lt`). Rounding up may come to exactly `2 ^ 53` steps, which is a power of two and
representable as well; this is why the lemmas are stated with `≤` (`mod_leading_eq_zero`,
`representable_mul_pow`).

Integers of 64 bits are far below the bound, so that every JSON number is a finite binary64 value
(`JsonNumber.isFinite_toBinary64`). There an integer is multiplied with the number of units in `1`,
a power of two whose exponent does not matter as long as it is small enough. `unitsPerOne_eq` and
`log2_unitsPerOne` are all that is known of it: the powers themselves have hundreds of digits and
are never evaluated.

The representable counts are those with at most 53 leading binary digits, below the bound. Nothing
here depends on how a half is rounded, only on that a rounded quotient is the quotient or the next
number (`roundDiv_le`).
-/

namespace ChartSchema

/-- At most `2 ^ 53` steps of a power of two are carried by 53 leading digits. -/
theorem mod_leading_eq_zero {count : Nat} (h : count ≤ Nat.pow 2 53) (shift : Nat) :
    count * Nat.pow 2 shift % Nat.pow 2 ((count * Nat.pow 2 shift).log2 - 52) = 0 := by
  have hadd : Nat.pow 2 53 * Nat.pow 2 shift = Nat.pow 2 (53 + shift) :=
    (Nat.pow_add 2 53 shift).symm
  refine Nat.mod_eq_zero_of_dvd ?_
  rcases Nat.lt_or_eq_of_le h with hlt | rfl
  -- the grid of the product is not coarser than the steps
  · have hle : (count * Nat.pow 2 shift).log2 - 52 ≤ shift := by
      by_cases hzero : count = 0
      · rw [hzero, Nat.zero_mul, Nat.log2_zero]
        exact Nat.zero_le _
      · have hpos : 0 < Nat.pow 2 shift := Nat.pow_pos (by decide)
        have hlog : (count * Nat.pow 2 shift).log2 < 53 + shift := by
          refine (Nat.log2_lt (Nat.mul_ne_zero hzero (Nat.ne_of_gt hpos))).2 ?_
          have := (Nat.mul_lt_mul_right hpos).2 hlt
          rwa [hadd] at this
        omega
    exact Nat.dvd_trans (Nat.pow_dvd_pow 2 hle) (Nat.dvd_mul_left _ _)
  -- a power of two is on every grid below it
  · rw [hadd]
    have hlog : (Nat.pow 2 (53 + shift)).log2 = 53 + shift := Nat.log2_two_pow
    rw [hlog]
    exact Nat.pow_dvd_pow 2 (by omega)

/-- At most `2 ^ 53` steps of a power of two are representable, if the power is not next to the
overflow bound. -/
theorem representable_mul_pow {count shift : Nat} (h : count ≤ Nat.pow 2 53)
    (hshift : shift < 2045) : Representable (count * Nat.pow 2 shift) := by
  refine ⟨mod_leading_eq_zero h shift, ?_⟩
  have hbits : 53 + shift < 2098 := by omega
  -- the bound is not to be evaluated, so that its exponent is made a variable
  revert hbits
  generalize 2098 = bits
  intro hbits
  calc count * Nat.pow 2 shift
      ≤ Nat.pow 2 53 * Nat.pow 2 shift := Nat.mul_le_mul_right _ h
    _ = Nat.pow 2 (53 + shift) := (Nat.pow_add 2 53 shift).symm
    _ < Nat.pow 2 bits := Nat.pow_lt_pow_right (by decide) hbits

/-- One is a power of two units. With `log2_unitsPerOne` this keeps the exponent a variable where
its size does not matter. -/
theorem unitsPerOne_eq : unitsPerOne = Nat.pow 2 unitsPerOne.log2 := by
  decide +kernel

theorem unitsPerOne_pos : 0 < unitsPerOne := by
  decide +kernel

theorem log2_unitsPerOne : unitsPerOne.log2 = 1074 := by
  decide +kernel

/-- A rounded quotient is the quotient or the next number. -/
theorem roundDiv_le (num den : Nat) : roundDiv num den ≤ num / den + 1 := by
  rw [roundDiv]
  split
  · exact Nat.le_succ _
  · split
    · exact Nat.le_refl _
    · split
      · exact Nat.le_succ _
      · exact Nat.le_refl _

/-- Fewer than `2 ^ 53` whole steps fit, since the step has all digits but the first 53. -/
theorem div_step_lt (whole : Nat) : whole / Nat.pow 2 (whole.log2 - 52) < Nat.pow 2 53 := by
  have hpos : 0 < Nat.pow 2 (whole.log2 - 52) := Nat.pow_pos (by decide)
  refine (Nat.div_lt_iff_lt_mul hpos).2 ?_
  have hadd : Nat.pow 2 53 * Nat.pow 2 (whole.log2 - 52) = Nat.pow 2 (53 + (whole.log2 - 52)) :=
    (Nat.pow_add 2 53 _).symm
  rw [hadd]
  calc whole < Nat.pow 2 (whole.log2 + 1) := Nat.lt_log2_self
    _ ≤ Nat.pow 2 (53 + (whole.log2 - 52)) := Nat.pow_le_pow_right (by decide) (by omega)

/-- **Rounding gives a representable count of units**, unless the value is next to the bound. -/
theorem representable_roundUnits {num den bits : Nat} (h : num / den < Nat.pow 2 bits)
    (hbits : bits ≤ 2097) : Representable (roundUnits num den) := by
  have hcount : roundDiv num (den * Nat.pow 2 ((num / den).log2 - 52)) ≤ Nat.pow 2 53 := by
    refine Nat.le_trans (roundDiv_le _ _) ?_
    rw [← Nat.div_div_eq_div_mul]
    exact div_step_lt _
  have hshift : (num / den).log2 - 52 < 2045 := by
    by_cases hzero : num / den = 0
    · rw [hzero, Nat.log2_zero]
      decide
    · have hlog : (num / den).log2 < bits := (Nat.log2_lt hzero).2 h
      omega
  exact representable_mul_pow hcount hshift

/-! ### JSON numbers -/

theorem Binary64.isFinite_ofUnits {negative : Bool} {num den bits : Nat}
    (h : num / den < Nat.pow 2 bits) (hbits : bits ≤ 2097) :
    (ofUnits negative num den).isFinite = true := by
  simp only [ofUnits, dif_pos (representable_roundUnits h hbits), isFinite]

/-- An integer of at most 65 bits is far below the overflow bound. -/
theorem Binary64.isFinite_ofInt {value : Int} (h : value.natAbs < Nat.pow 2 65) :
    (ofInt value).isFinite = true := by
  have hproduct {count : Nat} (hone : unitsPerOne = Nat.pow 2 count) :
      value.natAbs * unitsPerOne / 1 < Nat.pow 2 (65 + count) := by
    have hpow : Nat.pow 2 (65 + count) = Nat.pow 2 65 * Nat.pow 2 count := Nat.pow_add 2 65 count
    rw [Nat.div_one, hone, hpow]
    exact (Nat.mul_lt_mul_right (Nat.pow_pos (by decide))).2 h
  have hbits : 65 + unitsPerOne.log2 ≤ 2097 := by
    rw [log2_unitsPerOne]
    decide
  exact isFinite_ofUnits (hproduct unitsPerOne_eq) hbits

/-- **Every JSON number is a finite binary64 value.** -/
theorem JsonNumber.isFinite_toBinary64 (number : JsonNumber) :
    number.toBinary64.isFinite = true := by
  cases number with
  | integer value inRange =>
    have hbound : value.natAbs < 0x10000000000000001 := by omega
    exact Binary64.isFinite_ofInt (Nat.lt_trans hbound (by decide))
  | real value isFinite => exact isFinite

end ChartSchema
