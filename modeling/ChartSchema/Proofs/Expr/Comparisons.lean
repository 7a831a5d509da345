import Mathlib.Logic.ExistsUnique
import ChartSchema.Expr.Basic
import ChartSchema.Proofs.Number.Rounding

/-!
# Order and equality in expressions

The four comparisons of an expression look at the order of their sides, which is that of texts
between two strings and that of numbers otherwise, where a boolean counts as one or zero. Equality
is computed apart from it: numbers are equal by value, and everything else by structure, so that
values of two kinds are never equal.

The two agree on all values that have an order (`comparisons_agree_iff`), except on a boolean beside
the number that it counts as. There the order says that neither is less, and `<=` and `>=` hold, but
the sides are not equal.

The cases in which there is an order are listed once (`compare?_cases`): two strings, and two
operands, each of them a number or a boolean. In both of them equality is known as well: it says
what the order says, or it is false because the kinds differ (`equal_or_countsAs`,
`looselyEquals_of_countsAs`). What the six operators give is then a function of the order and of
equality alone (`BinaryOp.verdict?`), and the statement about all of them is a check of the finitely
many cases.

Every operand is finite, since a boolean counts as one or zero and no number of a document is
infinite or a `nan` (`isFinite_of_operand`). So two operands always have an order (`exists_order`),
and being neither less nor greater is the same as being equal by value, for the two zeros as well.
-/

namespace ChartSchema

/-- The operators that compare two values. -/
def BinaryOp.comparisons : List BinaryOp :=
  [.equal, .notEqual, .less, .lessEqual, .greater, .greaterEqual]

/-- The operator gives `true` for the two values. -/
def BinaryOp.Holds (op : BinaryOp) (a b : Json) : Prop :=
  op.apply a b = .ok (.bool true)

/-- The order of two values agrees with their equality. -/
structure Json.OrderAgrees (a b : Json) : Prop where
  exactly_one : ∃! op, op ∈ [BinaryOp.less, .equal, .greater] ∧ op.Holds a b
  lessEqual_iff :
    BinaryOp.lessEqual.Holds a b ↔ BinaryOp.less.Holds a b ∨ BinaryOp.equal.Holds a b
  greaterEqual_iff :
    BinaryOp.greaterEqual.Holds a b ↔ BinaryOp.greater.Holds a b ∨ BinaryOp.equal.Holds a b

/-- The number that a boolean counts as. -/
def Binary64.ofBool (value : Bool) : Binary64 :=
  .ofNat (if value then 1 else 0)

/-- Whether one side is a boolean and the other the number that it counts as. -/
def Json.countsAs : Json → Json → Bool
  | .bool value, .number count => (Binary64.ofBool value).equals count.toBinary64
  | .number count, .bool value => count.toBinary64.equals (.ofBool value)
  | _, _ => false

/-! ### The order of two values -/

/-- Finite values have an order. -/
theorem Binary64.exists_compare? {x y : Binary64} (hx : x.isFinite = true)
    (hy : y.isFinite = true) : ∃ order, x.compare? y = some order := by
  cases x with
  | nan | infinite => cases hx
  | finite =>
    cases y with
    | nan | infinite => cases hy
    | finite => exact ⟨_, rfl⟩

/-- Numbers are equal if neither is less. -/
theorem Binary64.equals_of_compare? {x y : Binary64} {order : Ordering}
    (h : x.compare? y = some order) : x.equals y = decide (order = .eq) := by
  rw [equals, h]
  exact decide_eq_decide.2 Option.some_inj

/-- Two booleans count as the same number only if they are the same. -/
theorem Binary64.eq_of_compare?_ofBool {first second : Bool} {order : Ordering}
    (h : (ofBool first).compare? (ofBool second) = some order) :
    decide (order = .eq) = (first == second) := by
  have hcompare : (ofBool first).compare? (ofBool second) =
      some (compare first.toNat second.toNat) := by
    cases first <;> cases second <;> decide +kernel
  obtain rfl := Option.some.inj (hcompare.symm.trans h)
  cases first <;> cases second <;> rfl

namespace Json

variable {a b : Json}

/-- What an operator takes for a number, and which number that is. -/
theorem operand_eq_ok_iff {operator : String} {x : Binary64} : a.operand operator = .ok x ↔
    (∃ count, a = .number count ∧ count.toBinary64 = x) ∨
      ∃ value, a = .bool value ∧ Binary64.ofBool value = x := by
  cases a <;> simp [operand, Binary64.ofBool]

theorem isFinite_of_operand {operator : String} {x : Binary64} (h : a.operand operator = .ok x) :
    x.isFinite = true := by
  rcases operand_eq_ok_iff.1 h with ⟨count, -, rfl⟩ | ⟨value, -, rfl⟩
  · exact count.isFinite_toBinary64
  · cases value <;> decide +kernel

/-- Which values have an order: two strings, and two values that count as numbers. -/
theorem compare?_cases {found : Option Ordering} (h : compare? a b = .ok found) :
    (∃ first second, a = .string first ∧ b = .string second ∧
      found = some (compareOfLessAndEq first second)) ∨
    ∃ x y, a.operand "comparison" = .ok x ∧ b.operand "comparison" = .ok y ∧
      found = x.compare? y := by
  by_cases hstrings : ∃ first second, a = .string first ∧ b = .string second
  · obtain ⟨first, second, rfl, rfl⟩ := hstrings
    exact .inl ⟨first, second, rfl, rfl, (Except.ok.inj h).symm⟩
  · rw [compare?] at h
    · cases hx : a.operand "comparison" with
      | error fault =>
        rw [hx] at h
        cases h
      | ok x =>
        cases hy : b.operand "comparison" with
        | error fault =>
          rw [hx, hy] at h
          cases h
        | ok y =>
          rw [hx, hy] at h
          exact .inr ⟨x, y, rfl, rfl, (Except.ok.inj h).symm⟩
    · exact fun first second ha hb => hstrings ⟨first, second, ha, hb⟩

/-- No `nan` comes up in a comparison. -/
theorem exists_order {found : Option Ordering} (h : compare? a b = .ok found) :
    ∃ order, found = some order := by
  rcases compare?_cases h with ⟨first, second, -, -, rfl⟩ | ⟨x, y, hx, hy, rfl⟩
  · exact ⟨_, rfl⟩
  · exact Binary64.exists_compare? (isFinite_of_operand hx) (isFinite_of_operand hy)

/-- A boolean does not equal the number that it counts as. -/
theorem looselyEquals_of_countsAs (h : a.countsAs b = true) : a.looselyEquals b = false := by
  cases a with
  | bool =>
    cases b with
    | number => rfl
    | null | bool | string | array | object => exact nomatch h
  | number =>
    cases b with
    | bool => rfl
    | null | number | string | array | object => exact nomatch h
  | null | string | array | object => exact nomatch h

/-- Neither of two values is less if they are equal or one counts as the other, and only then. -/
theorem equal_or_countsAs {order : Ordering} (h : compare? a b = .ok (some order)) :
    (a.looselyEquals b || a.countsAs b) = decide (order = .eq) := by
  rcases compare?_cases h with ⟨first, second, rfl, rfl, horder⟩ | ⟨x, y, hx, hy, horder⟩
  · have hequal : compareOfLessAndEq first second = .eq ↔ first = second :=
      compareOfLessAndEq_eq_eq String.le_refl String.not_le
    rw [Option.some.inj horder]
    exact (Bool.or_false _).trans (decide_eq_decide.2 hequal.symm)
  · have hequals := Binary64.equals_of_compare? horder.symm
    rcases operand_eq_ok_iff.1 hx with ⟨count, rfl, rfl⟩ | ⟨value, rfl, rfl⟩
    · rcases operand_eq_ok_iff.1 hy with ⟨other, rfl, rfl⟩ | ⟨value, rfl, rfl⟩
      · exact (Bool.or_false _).trans hequals
      · exact (Bool.false_or _).trans hequals
    · rcases operand_eq_ok_iff.1 hy with ⟨count, rfl, rfl⟩ | ⟨other, rfl, rfl⟩
      · exact (Bool.false_or _).trans hequals
      · exact (Bool.or_false _).trans (Binary64.eq_of_compare?_ofBool horder.symm).symm

end Json

/-! ### What the operators give -/

namespace BinaryOp

variable {a b : Json} {order : Ordering}

/-- What a comparison gives for values in an order that are equal or not. -/
def verdict? (order : Ordering) (same : Bool) : BinaryOp → Option Bool
  | .equal => some same
  | .notEqual => some !same
  | .less => some (order = .lt)
  | .lessEqual => some (order ≠ .gt)
  | .greater => some (order = .gt)
  | .greaterEqual => some (order ≠ .lt)
  | _ => none

/-- Each of the six operators is decided by the order and by equality. -/
theorem exists_verdict? {op : BinaryOp} (hop : op ∈ comparisons) (order : Ordering) (same : Bool) :
    ∃ truth, op.verdict? order same = some truth := by
  cases op with
  | add | sub | mul | div | rem => exact absurd hop (by decide)
  | equal | notEqual | less | lessEqual | greater | greaterEqual => exact ⟨_, rfl⟩

/-- What an operator gives is its verdict. -/
theorem apply_of_verdict? (h : Json.compare? a b = .ok (some order)) {op : BinaryOp} {truth : Bool}
    (hverdict : op.verdict? order (a.looselyEquals b) = some truth) :
    op.apply a b = .ok (.bool truth) := by
  cases op with
  | add | sub | mul | div | rem => exact nomatch hverdict
  | equal | notEqual =>
    rw [← Option.some.inj hverdict]
    rfl
  | less | lessEqual | greater | greaterEqual =>
    rw [apply, h, ← Option.some.inj hverdict]
    rfl

theorem holds_iff (h : Json.compare? a b = .ok (some order)) {op : BinaryOp}
    (hop : op ∈ comparisons) :
    op.Holds a b ↔ op.verdict? order (a.looselyEquals b) = some true := by
  obtain ⟨truth, htruth⟩ := exists_verdict? hop order (a.looselyEquals b)
  rw [Holds, apply_of_verdict? h htruth, htruth]
  simp

/-- Exactly one of the three holds if values in an order are equal as the order says. -/
theorem exactly_one_iff (order : Ordering) (same : Bool) :
    (∃! op, op ∈ [BinaryOp.less, .equal, .greater] ∧ op.verdict? order same = some true) ↔
      same = decide (order = .eq) := by
  cases order <;> cases same <;> simp [ExistsUnique, verdict?, or_imp, forall_and]

end BinaryOp

/-! ### Agreement -/

/-- The order agrees with equality if both say that the values are the same, or neither does. -/
theorem Json.orderAgrees_iff {a b : Json} {order : Ordering}
    (h : compare? a b = .ok (some order)) :
    a.OrderAgrees b ↔ a.looselyEquals b = decide (order = .eq) := by
  have hone : (∃! op, op ∈ [BinaryOp.less, .equal, .greater] ∧ op.Holds a b) ↔
      a.looselyEquals b = decide (order = .eq) := by
    rw [← BinaryOp.exactly_one_iff]
    have hsubset : [BinaryOp.less, .equal, .greater] ⊆ BinaryOp.comparisons := by decide
    exact existsUnique_congr fun op => and_congr_right fun hop =>
      BinaryOp.holds_iff h (hsubset hop)
  refine ⟨fun hagrees => hone.1 hagrees.exactly_one, fun hsame => ⟨hone.2 hsame, ?_, ?_⟩⟩
  · rw [BinaryOp.holds_iff h (by decide), BinaryOp.holds_iff h (by decide),
      BinaryOp.holds_iff h (by decide), hsame]
    cases order <;> decide
  · rw [BinaryOp.holds_iff h (by decide), BinaryOp.holds_iff h (by decide),
      BinaryOp.holds_iff h (by decide), hsame]
    cases order <;> decide

/-- **The comparisons of two values** that have an order all give a boolean, and `!=` gives the
opposite of `==`. The order agrees with equality exactly if the values are not a boolean and the
number that it counts as. -/
theorem comparisons_agree_iff {a b value : Json} (h : BinaryOp.less.apply a b = .ok value) :
    (∀ op ∈ BinaryOp.comparisons, ∃ truth, op.apply a b = .ok (.bool truth)) ∧
      (BinaryOp.notEqual.Holds a b ↔ ¬ BinaryOp.equal.Holds a b) ∧
      (a.OrderAgrees b ↔ a.countsAs b = false) := by
  obtain ⟨order, horder⟩ : ∃ order, Json.compare? a b = .ok (some order) := by
    cases hfound : Json.compare? a b with
    | error fault =>
      rw [BinaryOp.apply, hfound] at h
      exact nomatch h
    | ok found =>
      obtain ⟨order, rfl⟩ := Json.exists_order hfound
      exact ⟨order, rfl⟩
  refine ⟨fun op hop => ?_, ?_, ?_⟩
  · obtain ⟨truth, htruth⟩ := BinaryOp.exists_verdict? hop order (a.looselyEquals b)
    exact ⟨truth, BinaryOp.apply_of_verdict? horder htruth⟩
  · rw [BinaryOp.holds_iff horder (by decide), BinaryOp.holds_iff horder (by decide)]
    cases a.looselyEquals b <;> simp [BinaryOp.verdict?]
  · rw [Json.orderAgrees_iff horder, ← Json.equal_or_countsAs horder]
    cases hcounts : a.countsAs b with
    | true => simp [Json.looselyEquals_of_countsAs hcounts]
    | false => exact iff_of_true (Bool.or_false _).symm rfl

/-- Two integers that are the same number. -/
theorem comparisons_agree_iff_rounded :
    let one : Json := .ofInt 9007199254740993
    let other : Json := .ofInt 9007199254740992
    BinaryOp.less.apply one other = .ok (.bool false) ∧ one.OrderAgrees other := by
  intro one other
  have horder : Json.compare? one other = .ok (some .eq) :=
    congrArg Except.ok (by decide +kernel :
      Binary64.compare? (.ofInt 9007199254740993) (.ofInt 9007199254740992) = some .eq)
  have hless : BinaryOp.less.apply one other = .ok (.bool false) :=
    BinaryOp.apply_of_verdict? horder rfl
  exact ⟨hless, (comparisons_agree_iff hless).2.2.2 rfl⟩

/-- `true` and `1` are in no order and still not equal. -/
theorem not_orderAgrees_true_one :
    BinaryOp.less.apply (.bool true) (.ofInt 1) = .ok (.bool false) ∧
      ¬ Json.OrderAgrees (.bool true) (.ofInt 1) := by
  have horder : Json.compare? (.bool true) (.ofInt 1) = .ok (some .eq) :=
    congrArg Except.ok (by decide +kernel :
      Binary64.compare? (.ofBool true) (.ofInt 1) = some .eq)
  refine ⟨BinaryOp.apply_of_verdict? horder rfl, fun hagrees => ?_⟩
  exact Bool.false_ne_true ((Json.orderAgrees_iff horder).1 hagrees)

end ChartSchema
