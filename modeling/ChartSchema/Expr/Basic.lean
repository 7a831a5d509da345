import ChartSchema.Json.Text

/-!
# Expressions

The body of a `$` interpolation is a small expression over the props of a chart: members and
indices, arithmetic, comparison, logic and a conditional. Evaluation has no effects. It fails
where a number is expected and something else stands, where a result is not finite, and where a
member of `null` is read.
-/

namespace ChartSchema

inductive UnaryOp where
  | not
  | minus
  | plus
  deriving DecidableEq

inductive BinaryOp where
  | add
  | sub
  | mul
  | div
  | rem
  | equal
  | notEqual
  | less
  | lessEqual
  | greater
  | greaterEqual
  deriving DecidableEq

inductive LogicalOp where
  | and
  | or
  deriving DecidableEq

/-- An expression over the props. -/
inductive Expr where
  | literal (value : Json)
  | params
  | member (target : Expr) (name : String)
  | index (target position : Expr)
  | unary (op : UnaryOp) (operand : Expr)
  | binary (op : BinaryOp) (left right : Expr)
  | logical (op : LogicalOp) (left right : Expr)
  | conditional (condition yes no : Expr)

/-- Why an evaluation fails. -/
inductive EvalError where
  /-- A member of `null` was read. -/
  | memberOfNull (name : String)
  /-- The index of this kind is neither a number nor a string. -/
  | badIndex (kind : String)
  /-- The operator needs a number and found a value of this kind. -/
  | notNumber (operator kind : String)
  /-- The result is an infinity or not a number. -/
  | notFinite (result : Binary64)

/-- The reason, in words. -/
def EvalError.reason : EvalError → String
  | .memberOfNull name => "cannot read property '" ++ name ++ "' of null"
  | .badIndex kind => "cannot index with " ++ kind
  | .notNumber operator kind =>
    "operator '" ++ operator ++ "' expects a number, got " ++ kind
  | .notFinite result => "non-finite result " ++ result.toText

def EvalError.message (error : EvalError) : String :=
  "Expression evaluation failed: " ++ error.reason

/-! ### Values in expressions -/

namespace Json

/-- The name of the kind of a value. -/
def kindName : Json → String
  | .null => "null"
  | .bool _ => "boolean"
  | .number _ => "number"
  | .string _ => "string"
  | .array _ => "array"
  | .object _ => "object"

/-- A string as it is, and any other value as JSON text. -/
def display : Json → String
  | .string text => text
  | value => value.toText

/-- Whether a condition counts as met: not for `null`, `false`, a zero and the empty string. -/
def isTruthy : Json → Bool
  | .null => false
  | .bool value => value
  | .number value => !value.toBinary64.equals (.zero false)
  | .string text => text ≠ ""
  | .array _ => true
  | .object _ => true

/-- Equality in expressions: numbers by value whatever their kind, all else by structure. -/
def looselyEquals : Json → Json → Bool
  | .number a, .number b => a.toBinary64.equals b.toBinary64
  | a, b => a.equals b

/-- The number that an operator works on; booleans count as one and zero. -/
def operand (operator : String) : Json → Except EvalError Binary64
  | .number value => .ok value.toBinary64
  | .bool value => .ok (.ofNat (if value then 1 else 0))
  | value => .error (.notNumber operator value.kindName)

/-- The result of an arithmetic operation, an integer where it is one. -/
def ofResult (result : Binary64) : Except EvalError Json :=
  if result.isFinite then .ok (.ofMeasure result) else .error (.notFinite result)

/-- A member of a value. Arrays and strings have a length; what is missing is `null`. -/
def member (name : String) : Json → Except EvalError Json
  | .object fields => .ok ((Fields.get? name fields).getD .null)
  | .array items => .ok (if name = "length" then .ofNat items.length else .null)
  | .string text => .ok (if name = "length" then .ofNat text.length else .null)
  | .null => .error (.memberOfNull name)
  | _ => .ok .null

/-- The natural number of a nonnegative integral value; an infinity is not integral. -/
def position? (x : Binary64) : Option Nat :=
  if x.isIntegral ∧ 0 ≤ x.truncate then some x.truncate.toNat else none

/-- An indexed value. An array takes a position; otherwise a number is a member name by its
text. -/
def atIndex (target : Json) : Json → Except EvalError Json
  | .string name => target.member name
  | .number position =>
    match target, position? position.toBinary64 with
    | .array items, some n => .ok ((items[n]?).getD .null)
    | _, _ => target.member (numberText position)
  | other => .error (.badIndex other.kindName)

/-- The order of two values: strings among themselves, all else as numbers. -/
def compare? : Json → Json → Except EvalError (Option Ordering)
  | .string a, .string b => .ok (some (compareOfLessAndEq a b))
  | a, b => do
    let x ← a.operand "comparison"
    let y ← b.operand "comparison"
    .ok (x.compare? y)

/-- A numeric operation on two values. -/
def arithmetic (operator : String) (f : Binary64 → Binary64 → Binary64) (a b : Json) :
    Except EvalError Json := do
  let x ← a.operand operator
  let y ← b.operand operator
  ofResult (f x y)

end Json

/-! ### Evaluation -/

/-- Applies a unary operator. -/
def UnaryOp.apply (op : UnaryOp) (value : Json) : Except EvalError Json :=
  match op with
  | .not => .ok (.bool !value.isTruthy)
  | .minus => (value.operand "-").bind fun x => Json.ofResult x.negate
  | .plus => (value.operand "+").bind Json.ofResult

/-- Applies a binary operator. `+` joins texts as soon as one side is a string. -/
def BinaryOp.apply (op : BinaryOp) (a b : Json) : Except EvalError Json :=
  let ordered (test : Ordering → Bool) : Except EvalError Json :=
    (Json.compare? a b).map fun order => .bool (order.any test)
  match op with
  | .add =>
    match a, b with
    | .string _, _ => .ok (.string (a.display ++ b.display))
    | _, .string _ => .ok (.string (a.display ++ b.display))
    | _, _ => Json.arithmetic "+" .add a b
  | .sub => Json.arithmetic "-" .sub a b
  | .mul => Json.arithmetic "*" .mul a b
  | .div => Json.arithmetic "/" .div a b
  | .rem => Json.arithmetic "%" .rem a b
  | .equal => .ok (.bool (a.looselyEquals b))
  | .notEqual => .ok (.bool !a.looselyEquals b)
  | .less => ordered (· = .lt)
  | .lessEqual => ordered (· ≠ .gt)
  | .greater => ordered (· = .gt)
  | .greaterEqual => ordered (· ≠ .lt)

/-- Whether a logical operator is decided by its left side. -/
def LogicalOp.stopsAt (op : LogicalOp) (left : Json) : Bool :=
  match op with
  | .and => !left.isTruthy
  | .or => left.isTruthy

/-- The value of an expression for the given props. Operands are evaluated from left to right, so
that of two failures the left one counts. -/
def Expr.eval (props : Json) : Expr → Except EvalError Json
  | .literal value => .ok value
  | .params => .ok props
  | .member target name => (target.eval props).bind (Json.member name)
  | .index target position =>
    (target.eval props).bind fun target => (position.eval props).bind target.atIndex
  | .unary op operand => (operand.eval props).bind op.apply
  | .binary op left right =>
    (left.eval props).bind fun a => (right.eval props).bind (op.apply a)
  | .logical op left right =>
    (left.eval props).bind fun a => if op.stopsAt a then .ok a else right.eval props
  | .conditional condition yes no =>
    (condition.eval props).bind fun c => if c.isTruthy then yes.eval props else no.eval props

end ChartSchema
