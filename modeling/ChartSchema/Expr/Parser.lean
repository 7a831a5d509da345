import ChartSchema.Expr.Basic
import ChartSchema.Expr.Token

/-!
# Parsing expressions

From loosest to tightest: the conditional, `||`, `&&`, equality, comparison, sums, products,
unary operators, and members and indices. Binary and logical operators group to the left.

A parser takes the tokens that are left and gives an expression with the tokens after it. The
parsers for a nesting depth are built from those for one level less, so that the recursion is on
the depth that is still allowed: parentheses, brackets, both branches of a conditional and the
operand of a unary operator each go one level deeper.
-/

namespace ChartSchema

namespace Expr

/-- A fault and the tokens before which it was found. -/
abbrev ParseFault := ExprFault × List LocatedToken

/-- Reads an expression off the front of the tokens. -/
abbrev Parser := List LocatedToken → Except ParseFault (Expr × List LocatedToken)

/-- The first token. -/
def current (tokens : List LocatedToken) : Option ExprToken :=
  tokens.head?.map LocatedToken.token

/-- Takes a certain token off the front. -/
def expect (wanted : ExprToken) (tokens : List LocatedToken) :
    Except ParseFault (List LocatedToken) :=
  if current tokens = some wanted then .ok tokens.tail
  else .error (.expected wanted (current tokens), tokens)

/-- Fails because the depth is used up. -/
def tooDeep : Parser :=
  fun tokens => .error (.tooDeep, tokens)

/-! ### Levels of precedence -/

/-- Goes on with an expression as long as an operator of the level follows: `combine` tells the
operators of the level and what they build. -/
def chainFrom (combine : ExprOperator → Option (Expr → Expr → Expr)) (next : Parser) :
    Nat → Expr → Parser
  | 0, left, tokens => .ok (left, tokens)
  | fuel + 1, left, tokens =>
    match tokens with
    | ⟨.operator op, _⟩ :: rest =>
      match combine op with
      | some build => do
        let (right, rest) ← next rest
        chainFrom combine next fuel (build left right) rest
      | none => .ok (left, tokens)
    | _ => .ok (left, tokens)

/-- One level of operators that group to the left over the next tighter level. -/
def chain (combine : ExprOperator → Option (Expr → Expr → Expr)) (next : Parser) : Parser :=
  fun tokens => do
    let (left, rest) ← next tokens
    chainFrom combine next rest.length left rest

def productOperator : ExprOperator → Option (Expr → Expr → Expr)
  | .times => some (.binary .mul)
  | .over => some (.binary .div)
  | .percent => some (.binary .rem)
  | _ => none

def sumOperator : ExprOperator → Option (Expr → Expr → Expr)
  | .plus => some (.binary .add)
  | .minus => some (.binary .sub)
  | _ => none

def comparisonOperator : ExprOperator → Option (Expr → Expr → Expr)
  | .less => some (.binary .less)
  | .lessEqual => some (.binary .lessEqual)
  | .greater => some (.binary .greater)
  | .greaterEqual => some (.binary .greaterEqual)
  | _ => none

def equalityOperator : ExprOperator → Option (Expr → Expr → Expr)
  | .equal => some (.binary .equal)
  | .notEqual => some (.binary .notEqual)
  | _ => none

def andOperator : ExprOperator → Option (Expr → Expr → Expr)
  | .and => some (.logical .and)
  | _ => none

def orOperator : ExprOperator → Option (Expr → Expr → Expr)
  | .or => some (.logical .or)
  | _ => none

/-- All levels of binary and logical operators over their operands. -/
def operators (operand : Parser) : Parser :=
  chain orOperator <| chain andOperator <| chain equalityOperator <| chain comparisonOperator <|
    chain sumOperator <| chain productOperator operand

/-! ### Operands -/

/-- The expression that an identifier stands for. -/
def ofName? : String → Option Expr
  | "true" => some (.literal (.bool true))
  | "false" => some (.literal (.bool false))
  | "null" => some (.literal .null)
  | "undefined" => some (.literal .null)
  | "params" => some .params
  | "props" => some .params
  | _ => none

/-- A literal, a name or an expression in parentheses. A number too large for a literal is
`null`. -/
def primary (nested : Parser) : Parser
  | ⟨.number value, _⟩ :: rest => .ok (.literal (.ofMeasure value), rest)
  | ⟨.string text, _⟩ :: rest => .ok (.literal (.string text), rest)
  | ⟨.identifier name, offset⟩ :: rest =>
    match ofName? name with
    | some expr => .ok (expr, rest)
    | none => .error (.unknownIdentifier name, ⟨.identifier name, offset⟩ :: rest)
  | ⟨.leftParen, _⟩ :: rest => do
    let (inner, rest) ← nested rest
    let rest ← expect .rightParen rest
    .ok (inner, rest)
  | tokens => .error (.unexpected (current tokens), tokens)

/-- Goes on with an expression as long as a member or an index follows. -/
def accessFrom (nested : Parser) : Nat → Expr → Parser
  | 0, target, tokens => .ok (target, tokens)
  | fuel + 1, target, tokens =>
    match tokens with
    | ⟨.dot, _⟩ :: ⟨.identifier name, _⟩ :: rest =>
      accessFrom nested fuel (.member target name) rest
    | ⟨.dot, _⟩ :: rest => .error (.expectedName (current rest), rest)
    | ⟨.leftBracket, _⟩ :: rest => do
      let (position, rest) ← nested rest
      let rest ← expect .rightBracket rest
      accessFrom nested fuel (.index target position) rest
    | _ => .ok (target, tokens)

/-- A primary expression followed by members and indices. -/
def accessed (nested : Parser) : Parser := fun tokens => do
  let (target, rest) ← primary nested tokens
  accessFrom nested rest.length target rest

/-- The unary operator written by an operator token. -/
def unaryOperator? : ExprOperator → Option UnaryOp
  | .bang => some .not
  | .minus => some .minus
  | .plus => some .plus
  | _ => none

/-- An operand: a unary operator with its operand one level deeper, or an expression with members
and indices. -/
def operand (deeper nested : Parser) : Parser
  | ⟨.operator op, offset⟩ :: rest =>
    match unaryOperator? op with
    | some unaryOp => do
      let (value, rest) ← deeper rest
      .ok (.unary unaryOp value, rest)
    | none => accessed nested (⟨.operator op, offset⟩ :: rest)
  | tokens => accessed nested tokens

/-- A condition with its two branches, or the condition alone if no question mark follows. -/
def conditionalOver (condition nested : Parser) : Parser := fun tokens => do
  let (expr, rest) ← condition tokens
  match rest with
  | ⟨.question, _⟩ :: rest =>
    let (yes, rest) ← nested rest
    let rest ← expect .colon rest
    let (no, rest) ← nested rest
    .ok (.conditional expr yes no, rest)
  | rest => .ok (expr, rest)

/-! ### Depth -/

/-- The parsers for a nesting depth: `nested` for an expression one level deeper, and `operand`
for an operand at this level. -/
structure Level where
  nested : Parser
  operand : Parser

/-- The parsers for the depth that is still allowed. -/
def level : Nat → Level
  | 0 => ⟨tooDeep, operand tooDeep tooDeep⟩
  | depth + 1 =>
    let inner := level depth
    let nested := conditionalOver (operators inner.operand) inner.nested
    ⟨nested, operand inner.operand nested⟩

/-- Parses the text of an expression as a whole. -/
def parse (source : String) : Except ExprError Expr :=
  let text := source.toList
  let size := byteLength text
  let locate (tokens : List LocatedToken) : Nat :=
    (tokens.head?.map LocatedToken.offset).getD size
  if maxLength < size then .error ⟨.tooLong, maxLength⟩
  else do
    let tokens ← ExprToken.ofText? text
    match (level maxDepth).nested tokens with
    | .error (fault, rest) => .error ⟨fault, locate rest⟩
    | .ok (expr, []) => .ok expr
    | .ok (_, rest) => .error ⟨.unexpected (current rest), locate rest⟩

end Expr

end ChartSchema
