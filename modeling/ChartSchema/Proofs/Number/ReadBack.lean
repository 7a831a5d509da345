import Mathlib.Algebra.Group.Nat.Defs
import Mathlib.Data.Nat.Basic
import ChartSchema.Number.Shortest
import ChartSchema.Proofs.Number.Rounding

/-!
# Numerals read back

A representable count of units survives rounding (`roundUnits_of_representable`), so that a decimal
which denotes it exactly reads as it. The shortest decimal of a finite value is looked for among
decimals that are seen to read back, and the exact expansion stands behind them, which always does
(`Decimal.readsAs_exact`). Hence whatever the search comes to reads back
(`Decimal.readsAs_shortest`); that it is the shortest is of no account here.

A **numeral** of a value is a text of digits, with a point and digits behind it or without, that
denotes the value under a sign. How a decimal is laid out makes no difference to what it denotes:
zeros may be put in front of its digits or behind them, with the point moved accordingly
(`Decimal.ofDecimal_scaled`). So the **plain text** of every finite value is a numeral of that value
(`write_plain`), and so is the text of an integral value as an integer (`numeral_integer`). The sign
of zero is not part of a numeral.

The exact expansion of a count of units has as many places as there are twos in `1`
(`Decimal.exact_eq`). This number is kept a variable in what is computed with it, since the powers
are too large to be written out.
-/

namespace ChartSchema

/-! ### Rounding -/

/-- A representable count of units is not changed by rounding. -/
theorem roundUnits_of_representable {units den : Nat} (h : Representable units) (hden : 0 < den) :
    roundUnits (units * den) den = units := by
  have hdvd : Nat.pow 2 (units.log2 - 52) ∣ units := Nat.dvd_of_mod_eq_zero h.1
  have hstep : 0 < Nat.pow 2 (units.log2 - 52) := Nat.pow_pos (by decide)
  have hround (step : Nat) (hpos : 0 < step) (hstep : step ∣ units) :
      roundDiv (units * den) (den * step) * step = units := by
    obtain ⟨count, rfl⟩ := hstep
    have hproduct : step * count * den = den * step * count := by
      rw [Nat.mul_comm (step * count) den, Nat.mul_assoc]
    rw [roundDiv, hproduct, Nat.mul_mod_right, Nat.mul_div_cancel_left _ (Nat.mul_pos hden hpos)]
    rw [Nat.mul_zero, if_pos (Nat.mul_pos hden hpos), Nat.mul_comm]
  have hround := hround _ hstep hdvd
  rw [roundUnits, Nat.mul_div_cancel _ hden]
  exact hround

/-- A representable count is not rounded, whatever its sign. -/
theorem Binary64.ofUnits_of_representable (negative : Bool) {units den : Nat}
    (h : Representable units) (hden : 0 < den) :
    ofUnits negative (units * den) den = .finite negative units h := by
  have hround := roundUnits_of_representable h hden
  rw [ofUnits]
  simp only [hround, h, dif_pos]

/-! ### Decimals that read back -/

namespace Decimal

/-- What reads as a count of units reads as it under either sign. -/
theorem ofDecimal_of_readsAs {d : Decimal} {units : Nat} (h : Representable units)
    (hreads : d.readsAs units = true) (negative : Bool) (hpos : units ≠ 0) :
    Binary64.ofDecimal negative d = .finite negative units h ∧ d.coefficient ≠ 0 ∧
      d.exponent ≤ 400 := by
  rw [readsAs, Binary64.ofDecimal] at hreads
  by_cases hzero : d.coefficient = 0
  · rw [if_pos hzero] at hreads
    exact absurd (of_decide_eq_true hreads).symm hpos
  rw [if_neg hzero] at hreads
  by_cases hhuge : 400 < d.exponent
  · rw [if_pos hhuge] at hreads
    cases hreads
  rw [if_neg hhuge] at hreads
  by_cases htiny : d.exponent + d.coefficient.log2 < -1100
  · rw [if_pos htiny] at hreads
    exact absurd (of_decide_eq_true hreads).symm hpos
  rw [if_neg htiny, Binary64.ofRatio, Binary64.ofUnits] at hreads
  refine ⟨?_, hzero, by omega⟩
  rw [Binary64.ofDecimal, if_neg hzero, if_neg hhuge, if_neg htiny, Binary64.ofRatio,
    Binary64.ofUnits]
  split at hreads
  case h_1 negative' read representable hread =>
    have hunits := of_decide_eq_true hreads
    split at hread
    case isTrue hrep =>
      obtain ⟨-, hround⟩ := Binary64.finite.inj hread
      rw [hunits] at hround
      simp only [hround, h, dif_pos]
    case isFalse => cases hread
  case h_2 => cases hreads

/-- A count of units over as many tens as there are twos in `1` is read as it is. -/
theorem ofDecimal_expansion {units count : Nat} (h : Representable units) (hpos : units ≠ 0)
    (hone : unitsPerOne = Nat.pow 2 count) (hcount : count ≤ 1100) :
    Binary64.ofDecimal false ⟨units * Nat.pow 5 count, -count⟩ = .finite false units h := by
  have hfives : units * Nat.pow 5 count ≠ 0 :=
    Nat.mul_ne_zero hpos (Nat.ne_of_gt (Nat.pow_pos (by decide)))
  have hproduct : units * Nat.pow 5 count * Nat.pow 10 0 * unitsPerOne =
      units * Nat.pow 10 count := by
    have hten : Nat.pow 10 count = Nat.pow 5 count * Nat.pow 2 count := Nat.mul_pow 5 2 count
    rw [hone, hten, ← Nat.mul_assoc]
    exact congrArg (· * Nat.pow 2 count) (Nat.mul_one _)
  have hsmall : ¬400 < -(count : Int) := by omega
  have hlarge : ¬-(count : Int) + (units * Nat.pow 5 count).log2 < -1100 := by omega
  rw [Binary64.ofDecimal, if_neg hfives, if_neg hsmall, if_neg hlarge, Binary64.ofRatio]
  have hnone : (-(count : Int)).toNat = 0 := by omega
  have hall : (-(-(count : Int))).toNat = count := by omega
  simp only [hnone, hall, hproduct]
  exact Binary64.ofUnits_of_representable false h (Nat.pow_pos (by decide))

/-- The exact expansion has as many places as there are twos in `1`. -/
theorem exact_eq (units : Nat) :
    exact units = ⟨units * Nat.pow 5 unitsPerOne.log2, -unitsPerOne.log2⟩ := by
  have hexponent : (-1074 : Int) = -unitsPerOne.log2 :=
    congrArg (fun places : Nat => -(places : Int)) log2_unitsPerOne.symm
  rw [exact, hexponent, ← log2_unitsPerOne]

/-- The exact expansion reads back. -/
theorem readsAs_exact {units : Nat} (h : Representable units) (hpos : units ≠ 0) :
    (exact units).readsAs units = true := by
  have hplaces : unitsPerOne.log2 ≤ 1100 := by
    rw [log2_unitsPerOne]
    decide
  have hread : Binary64.ofDecimal false (exact units) = .finite false units h := by
    rw [exact_eq]
    exact ofDecimal_expansion h hpos unitsPerOne_eq hplaces
  rw [readsAs, hread]
  exact decide_eq_true rfl

/-- Of two decimals, the first that reads back reads back. -/
theorem readsAs_of_either {units : Nat} {nearer farther d : Decimal}
    (h : (if nearer.readsAs units then some nearer
      else if farther.readsAs units then some farther else none) = some d) :
    d.readsAs units = true := by
  by_cases hnearer : nearer.readsAs units = true
  · rw [if_pos hnearer] at h
    exact Option.some.inj h ▸ hnearer
  · rw [if_neg hnearer] at h
    by_cases hfarther : farther.readsAs units = true
    · rw [if_pos hfarther] at h
      exact Option.some.inj h ▸ hfarther
    · rw [if_neg hfarther] at h
      exact nomatch h

/-- What is found on a grid reads back, since this is tested. -/
theorem readsAs_onGrid {tie : Tie} {units : Nat} {exponent : Int} {d : Decimal}
    (h : onGrid? tie units exponent = some d) : d.readsAs units = true :=
  readsAs_of_either h

/-- **The shortest decimal reads back.** -/
theorem readsAs_shortest (tie : Tie) {units : Nat} (h : Representable units) (hpos : units ≠ 0) :
    (shortest tie units).readsAs units = true := by
  rw [shortest]
  cases hfound : (List.range 24).findSome? fun (step : Nat) =>
      onGrid? tie units (coarsestExponent units - step) with
  | none => exact readsAs_exact h hpos
  | some d =>
    obtain ⟨step, -, hgrid⟩ := List.exists_of_findSome?_eq_some hfound
    exact readsAs_onGrid hgrid

end Decimal

/-! ### Digits -/

theorem digitsValue_toDigits (n : Nat) : digitsValue (Nat.toDigits 10 n) = n :=
  Nat.ofDigitChars_ten_toDigits

/-- Zeros in front do not count. -/
theorem digitsValue_zeros_append (count : Nat) (digits : List Char) :
    digitsValue (List.replicate count '0' ++ digits) = digitsValue digits := by
  induction count with
  | zero => rfl
  | succ count ih => exact ih

/-- Each zero behind counts for a ten. -/
theorem digitsValue_append_zeros (digits : List Char) (count : Nat) :
    digitsValue (digits ++ List.replicate count '0') = digitsValue digits * 10 ^ count := by
  induction count with
  | zero => simp
  | succ count ih =>
    rw [List.replicate_succ', ← List.append_assoc, digitsValue, List.foldl_append, ← digitsValue,
      ih, Nat.pow_succ]
    change 10 * _ + 0 = _
    rw [Nat.add_zero, Nat.mul_comm 10, Nat.mul_assoc]

/-! ### Numerals -/

/-- A text of digits, with a point between them or without, that is a value under a sign. -/
def Numeral (negative : Bool) (value : Binary64) (text : List Char) : Prop :=
  ∃ whole fraction : List Char, (text = whole ++ if fraction = [] then [] else '.' :: fraction) ∧
    whole ≠ [] ∧ (∀ c ∈ whole, c.isDigit = true) ∧ (∀ c ∈ fraction, c.isDigit = true) ∧
      Binary64.ofDecimal negative (.ofDigits whole fraction 0) = value

theorem isDigit_toDigits {n : Nat} : ∀ c ∈ Nat.toDigits 10 n, c.isDigit = true :=
  fun _ hc => Nat.isDigit_of_mem_toDigits (by decide) (by decide) hc

theorem isDigit_zeros {count : Nat} : ∀ c ∈ List.replicate count '0', c.isDigit = true := by
  intro c hc
  rw [(List.mem_replicate.1 hc).2]
  rfl

theorem isDigit_append {digits more : List Char} (h : ∀ c ∈ digits, c.isDigit = true)
    (hmore : ∀ c ∈ more, c.isDigit = true) : ∀ c ∈ digits ++ more, c.isDigit = true := by
  intro c hc
  rcases List.mem_append.1 hc with hc | hc
  · exact h c hc
  · exact hmore c hc

/-- Zeros behind a whole coefficient stand for its exponent. -/
theorem ofDecimal_scaled (negative : Bool) {d : Decimal} (hcoefficient : d.coefficient ≠ 0)
    (hwhole : 0 ≤ d.exponent) (hexponent : d.exponent ≤ 400) :
    Binary64.ofDecimal negative ⟨d.coefficient * 10 ^ d.exponent.toNat, 0⟩ =
      Binary64.ofDecimal negative d := by
  have hscaled : d.coefficient * 10 ^ d.exponent.toNat ≠ 0 :=
    Nat.mul_ne_zero hcoefficient (Nat.ne_of_gt (Nat.pow_pos (by decide)))
  have hlarge : ¬(0 : Int) + (d.coefficient * 10 ^ d.exponent.toNat).log2 < -1100 := by omega
  have hnone : (-d.exponent).toNat = 0 := by omega
  rw [Binary64.ofDecimal, Binary64.ofDecimal, if_neg hscaled, if_neg hcoefficient,
    if_neg (by decide : ¬400 < (0 : Int)), if_neg (by omega : ¬400 < d.exponent), if_neg hlarge,
    if_neg (by omega : ¬d.exponent + d.coefficient.log2 < -1100), hnone]
  exact congrArg (Binary64.ofRatio negative · 1) (Nat.mul_one _)

/-- The plain layout of a decimal is a numeral of it. -/
theorem numeral_fixed (negative : Bool) {d : Decimal} (hcoefficient : d.coefficient ≠ 0)
    (hexponent : d.exponent ≤ 400) :
    Numeral negative (Binary64.ofDecimal negative d) (NumberLayout.plain.decimal d) := by
  have hdigits := @isDigit_toDigits d.coefficient
  have hvalue := digitsValue_toDigits d.coefficient
  have hlength : 0 < (Nat.toDigits 10 d.coefficient).length := Nat.length_toDigits_pos
  have hpositional (e : Int) : NumberLayout.plain.positional e = true := rfl
  rw [NumberLayout.decimal, if_pos (hpositional _)]
  generalize Nat.toDigits 10 d.coefficient = digits at hdigits hvalue hlength ⊢
  rw [NumberLayout.fixed]
  by_cases hsmall : d.exponent + digits.length - 1 < 0
  -- a zero in front of the point
  · rw [if_pos hsmall]
    generalize hcount : (-(d.exponent + digits.length - 1) - 1).toNat = count
    have hfraction : List.replicate count '0' ++ digits ≠ [] := by
      refine List.append_ne_nil_of_right_ne_nil _ ?_
      exact List.length_pos_iff.1 hlength
    refine ⟨['0'], List.replicate count '0' ++ digits, ?_, List.cons_ne_nil _ _,
      List.all_eq_true.1 rfl, isDigit_append isDigit_zeros hdigits, ?_⟩
    · rw [if_neg hfraction]
      rfl
    · refine congrArg (Binary64.ofDecimal negative) ?_
      have hzeros : digitsValue (['0'] ++ (List.replicate count '0' ++ digits)) =
          d.coefficient := by
        rw [← hvalue]
        exact digitsValue_zeros_append count digits
      rw [Decimal.ofDigits, hzeros, List.length_append, List.length_replicate]
      have hsame : (0 : Int) - ((count + digits.length : Nat) : Int) = d.exponent := by omega
      rw [hsame]
  · rw [if_neg hsmall]
    have hwhole : (((d.exponent + digits.length - 1).toNat + 1 : Nat) : Int) =
        d.exponent + digits.length := by omega
    generalize (d.exponent + digits.length - 1).toNat + 1 = whole at hwhole ⊢
    by_cases hshort : digits.length ≤ whole
    -- zeros behind the digits, and no point
    · have hcount : whole - digits.length = d.exponent.toNat := by omega
      refine ⟨digits ++ List.replicate (whole - digits.length) '0', [], ?_, ?_,
        isDigit_append hdigits isDigit_zeros, fun _ hc => absurd hc List.not_mem_nil, ?_⟩
      · rw [if_pos hshort, if_pos rfl]
        rfl
      · exact List.append_ne_nil_of_left_ne_nil (List.length_pos_iff.1 hlength) _
      · rw [← ofDecimal_scaled negative hcoefficient (by omega) hexponent, Decimal.ofDigits,
          List.append_nil, digitsValue_append_zeros, hvalue, hcount]
        rfl
    -- the point falls between two digits
    · have hfraction : digits.drop whole ≠ [] := by
        rw [ne_eq, List.drop_eq_nil_iff]
        omega
      refine ⟨digits.take whole, digits.drop whole, ?_, ?_,
        fun c hc => hdigits c (List.mem_of_mem_take hc),
        fun c hc => hdigits c (List.mem_of_mem_drop hc), ?_⟩
      · rw [if_neg hshort, if_neg hfraction]
      · rw [ne_eq, List.take_eq_nil_iff, not_or]
        exact ⟨by omega, List.length_pos_iff.1 hlength⟩
      · refine congrArg (Binary64.ofDecimal negative) ?_
        have hsame : (0 : Int) - (digits.drop whole).length = d.exponent := by
          rw [List.length_drop]
          omega
        rw [Decimal.ofDigits, List.take_append_drop, hvalue, hsame]

/-! ### The numbers of a document -/

/-- The value with the sign of zero left out. -/
def Binary64.withoutZeroSign : Binary64 → Binary64
  | .finite negative units representable =>
    if units = 0 then zero false else .finite negative units representable
  | value => value

/-- A value equals itself without the sign of zero. -/
theorem Binary64.equals_withoutZeroSign {value : Binary64} (h : value.isFinite = true) :
    value.withoutZeroSign.equals value = true := by
  cases value with
  | nan => exact nomatch h
  | infinite negative => exact nomatch h
  | finite negative units representable =>
    rw [withoutZeroSign]
    by_cases hzero : units = 0
    · subst hzero
      rw [if_pos rfl]
      cases negative <;> rfl
    · rw [if_neg hzero, equals, compare?]
      simp

/-- The plain text of a value other than zero is its sign and a numeral. -/
theorem write_plain {negative : Bool} {units : Nat} (representable : Representable units)
    (hpos : units ≠ 0) : ∃ text, Numeral negative (.finite negative units representable) text ∧
      NumberLayout.plain.write (.finite negative units representable) =
        (if negative then ['-'] else []) ++ text := by
  have hreads := Decimal.readsAs_shortest NumberLayout.plain.tie representable hpos
  obtain ⟨hvalue, hcoefficient, hexponent⟩ :=
    Decimal.ofDecimal_of_readsAs representable hreads negative hpos
  refine ⟨NumberLayout.plain.decimal (Decimal.shortest NumberLayout.plain.tie units), ?_, ?_⟩
  · rw [← hvalue]
    exact numeral_fixed negative hcoefficient hexponent
  · rw [NumberLayout.write, if_neg hpos]

theorem div_ne_zero_of_integral {units one : Nat} (hpos : units ≠ 0) (h : units % one = 0) :
    units / one ≠ 0 := by
  intro hzero
  have hdiv := Nat.div_add_mod units one
  rw [hzero, h, Nat.mul_zero] at hdiv
  exact hpos hdiv.symm

theorem div_mul_of_integral {units one : Nat} (h : units % one = 0) :
    units / one * Nat.pow 10 0 * one = units * 1 := by
  have hone : Nat.pow 10 0 = 1 := rfl
  rw [hone, Nat.mul_one, Nat.mul_one, Nat.div_mul_cancel (Nat.dvd_of_mod_eq_zero h)]

/-- An integer is written as its sign and a numeral of it. -/
theorem numeral_integer {negative : Bool} {units : Nat} (representable : Representable units)
    (hpos : units ≠ 0) (hintegral : units % unitsPerOne = 0) :
    Numeral negative (.finite negative units representable)
      (Nat.toDigits 10 (units / unitsPerOne)) := by
  have hwhole := div_ne_zero_of_integral hpos hintegral
  have hunits := div_mul_of_integral hintegral
  refine ⟨Nat.toDigits 10 (units / unitsPerOne), [], ?_, Nat.toDigits_ne_nil, isDigit_toDigits,
    fun _ hc => absurd hc List.not_mem_nil, ?_⟩
  · rw [if_pos rfl, List.append_nil]
  · have hsmall : ¬400 < (0 : Int) - (0 : Nat) := by decide
    have hlarge : ¬(0 : Int) - (0 : Nat) + (units / unitsPerOne).log2 < -1100 := by omega
    rw [Decimal.ofDigits, List.append_nil, digitsValue_toDigits, List.length_nil,
      Binary64.ofDecimal, if_neg hwhole, if_neg hsmall, if_neg hlarge, Binary64.ofRatio]
    have hround := Binary64.ofUnits_of_representable negative representable Nat.one_pos
    rw [← hunits] at hround
    exact hround

end ChartSchema
