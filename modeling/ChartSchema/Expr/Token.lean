import ChartSchema.Number.Shortest
import ChartSchema.Text.Blank
import ChartSchema.Text.Pieces

/-!
# Tokens of an expression

An expression is cut into numbers, strings, identifiers, operators and punctuation; blanks
separate them. Each token is kept with the byte offset at which it starts. Cutting fails at a
character that starts no token and at a string without its closing quote.
-/

namespace ChartSchema

/-- The operators of expressions; `===` and `!==` are read as `==` and `!=`. -/
inductive ExprOperator where
  | plus
  | minus
  | times
  | over
  | percent
  | bang
  | equal
  | notEqual
  | less
  | lessEqual
  | greater
  | greaterEqual
  | and
  | or
  deriving DecidableEq

def ExprOperator.text : ExprOperator → String
  | .plus => "+"
  | .minus => "-"
  | .times => "*"
  | .over => "/"
  | .percent => "%"
  | .bang => "!"
  | .equal => "=="
  | .notEqual => "!="
  | .less => "<"
  | .lessEqual => "<="
  | .greater => ">"
  | .greaterEqual => ">="
  | .and => "&&"
  | .or => "||"

inductive ExprToken where
  | number (value : Binary64)
  | string (text : String)
  | identifier (name : String)
  | operator (op : ExprOperator)
  | leftParen
  | rightParen
  | leftBracket
  | rightBracket
  | dot
  | question
  | colon
  deriving DecidableEq

/-- A token as error messages name it. -/
def ExprToken.describe : ExprToken → String
  | .number value => "number " ++ value.toText
  | .string text => "string \"" ++ text ++ "\""
  | .identifier name => "identifier '" ++ name ++ "'"
  | .operator op => "operator '" ++ op.text ++ "'"
  | .leftParen => "'('"
  | .rightParen => "')'"
  | .leftBracket => "'['"
  | .rightBracket => "']'"
  | .dot => "'.'"
  | .question => "'?'"
  | .colon => "':'"

/-- A token and the byte offset of its first character. -/
structure LocatedToken where
  token : ExprToken
  offset : Nat

/-- Why an expression does not compile. -/
inductive ExprFault where
  | tooLong
  | unexpectedCharacter (c : Char)
  | unterminatedString
  /-- No expression can go on with this token, or with the end. -/
  | unexpected (found : Option ExprToken)
  /-- A certain token has to stand here. -/
  | expected (wanted : ExprToken) (found : Option ExprToken)
  /-- A name has to follow a dot. -/
  | expectedName (found : Option ExprToken)
  | unknownIdentifier (name : String)
  | tooDeep

/-- The longest expression, in bytes. -/
def Expr.maxLength : Nat := 1024

/-- How deep parentheses, brackets, branches and unary operands may nest. -/
def Expr.maxDepth : Nat := 64

/-- A token, or the end, as error messages name it. -/
def describeFound : Option ExprToken → String
  | some token => token.describe
  | none => "end of expression"

/-- A fault in words. -/
def ExprFault.message : ExprFault → String
  | .tooLong => "expression longer than " ++ toString Expr.maxLength ++ " bytes"
  | .unexpectedCharacter c => "unexpected character '" ++ String.singleton c ++ "'"
  | .unterminatedString => "unterminated string"
  | .unexpected found => "unexpected " ++ describeFound found
  | .expected wanted found =>
    "expected " ++ wanted.describe ++ " but found " ++ describeFound found
  | .expectedName found => "expected property name but found " ++ describeFound found
  | .unknownIdentifier name => "unknown identifier '" ++ name ++ "'"
  | .tooDeep => "expression nested deeper than " ++ toString Expr.maxDepth ++ " levels"

/-- A fault and the byte offset at which it was found. -/
structure ExprError where
  fault : ExprFault
  offset : Nat

def ExprError.message (error : ExprError) : String :=
  error.fault.message

/-- The message with its place. -/
def ExprError.display (error : ExprError) : String :=
  "Invalid expression at offset " ++ toString error.offset ++ ": " ++ error.message

namespace ExprToken

/-! ### One token -/

def isIdentifierStart (c : Char) : Bool :=
  c.isAlpha || c = '_' || c = '$'

def isIdentifierChar (c : Char) : Bool :=
  c.isAlphanum || c = '_' || c = '$'

/-- The operator at the front of a text, the longest spelling first, and what follows it. -/
def readOperator? : List Char → Option (ExprOperator × List Char)
  | '=' :: '=' :: '=' :: rest => some (.equal, rest)
  | '!' :: '=' :: '=' :: rest => some (.notEqual, rest)
  | '=' :: '=' :: rest => some (.equal, rest)
  | '!' :: '=' :: rest => some (.notEqual, rest)
  | '<' :: '=' :: rest => some (.lessEqual, rest)
  | '>' :: '=' :: rest => some (.greaterEqual, rest)
  | '&' :: '&' :: rest => some (.and, rest)
  | '|' :: '|' :: rest => some (.or, rest)
  | '+' :: rest => some (.plus, rest)
  | '-' :: rest => some (.minus, rest)
  | '*' :: rest => some (.times, rest)
  | '/' :: rest => some (.over, rest)
  | '%' :: rest => some (.percent, rest)
  | '!' :: rest => some (.bang, rest)
  | '<' :: rest => some (.less, rest)
  | '>' :: rest => some (.greater, rest)
  | _ => none

/-- The punctuation written by one character. -/
def punctuation? : Char → Option ExprToken
  | '(' => some .leftParen
  | ')' => some .rightParen
  | '[' => some .leftBracket
  | ']' => some .rightBracket
  | '.' => some .dot
  | '?' => some .question
  | ':' => some .colon
  | _ => none

/-- The number at the front of a text that starts with a digit. A point belongs to it only if a
digit follows. -/
def readNumber (text : List Char) : ExprToken × List Char :=
  let whole := leadingDigits text
  match afterDigits text with
  | '.' :: d :: rest =>
    if d.isDigit then
      (.number (.ofDecimal false (.ofDigits whole (leadingDigits (d :: rest)) 0)),
        afterDigits (d :: rest))
    else (.number (.ofDecimal false (.ofDigits whole [] 0)), '.' :: d :: rest)
  | rest => (.number (.ofDecimal false (.ofDigits whole [] 0)), rest)

/-- The character that a backslash and another character stand for. -/
def unescape : Char → Char
  | 'n' => '\n'
  | 't' => '\t'
  | 'r' => '\r'
  | c => c

/-- The rest of a string up to its closing quote and what follows the quote; `none` if there is no
closing quote. -/
def stringBody? (quote : Char) : List Char → Option (List Char × List Char)
  | [] => none
  | '\\' :: e :: rest =>
    (stringBody? quote rest).map fun (body, rest) => (unescape e :: body, rest)
  | c :: rest =>
    if c = quote then some ([], rest)
    else (stringBody? quote rest).map fun (body, rest) => (c :: body, rest)

/-- The token at the front of a text that starts with no blank, and what follows it. -/
def next? : List Char → Except ExprFault (ExprToken × List Char)
  | [] => .error (.unexpected none)
  | c :: rest =>
    match readOperator? (c :: rest) with
    | some (op, rest) => .ok (.operator op, rest)
    | none =>
      if c.isDigit then .ok (readNumber (c :: rest))
      else if c = '"' ∨ c = '\'' then
        match stringBody? c rest with
        | some (body, rest) => .ok (.string (String.ofList body), rest)
        | none => .error .unterminatedString
      else if isIdentifierStart c then
        .ok (.identifier (String.ofList ((c :: rest).takeWhile isIdentifierChar)),
          (c :: rest).dropWhile isIdentifierChar)
      else match punctuation? c with
        | some token => .ok (token, rest)
        | none => .error (.unexpectedCharacter c)

/-! ### All tokens -/

/-- Cuts a text that starts at a byte offset into at most as many tokens as the first argument
says. Offsets are counted in bytes; an unterminated string is reported at the end of the text. -/
def cut : Nat → Nat → List Char → Except ExprError (List LocatedToken)
  | 0, _, _ => .ok []
  | fuel + 1, start, text =>
    let trimmed := trimLeft text
    let offset := start + byteLength text - byteLength trimmed
    if trimmed = [] then .ok []
    else match next? trimmed with
      | .error .unterminatedString =>
        .error ⟨.unterminatedString, offset + byteLength trimmed⟩
      | .error fault => .error ⟨fault, offset⟩
      | .ok (token, rest) => do
        let tokens ← cut fuel (offset + byteLength trimmed - byteLength rest) rest
        .ok (⟨token, offset⟩ :: tokens)

/-- The tokens of an expression. Every token has a character, so that there are no more tokens
than characters. -/
def ofText? (text : List Char) : Except ExprError (List LocatedToken) :=
  cut text.length 0 text

end ExprToken

end ChartSchema
