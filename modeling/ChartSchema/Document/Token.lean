import ChartSchema.Number.Decimal
import ChartSchema.Text.Blank
import ChartSchema.Text.Pieces

/-!
# Tokens of a schema document

A document is read one lexeme after another. A **lexeme** is a piece of the text, at least one
character long, with the kind of token that it is; blanks, and characters that start no token, are
lexemes of no kind. The lexemes of a text put together give the text (`scan_append`), so that the
span of a token is where its lexeme stands. Nothing is ever refused: strings and interpolations
that are not closed run to the end of the text.
-/

namespace ChartSchema

/-! ### Places -/

/-- A place in a text: bytes before it, and its line and column counted from one. -/
structure Position where
  offset : Nat
  line : Nat
  column : Nat
  deriving DecidableEq

/-- The place before the first character. -/
def Position.start : Position := ⟨0, 1, 1⟩

/-- The place after one character. -/
def Position.step (position : Position) (c : Char) : Position :=
  if c = '\n' then ⟨position.offset + c.utf8Size, position.line + 1, 1⟩
  else ⟨position.offset + c.utf8Size, position.line, position.column + 1⟩

/-- The place after a piece of text. -/
def Position.advance (position : Position) (text : List Char) : Position :=
  text.foldl Position.step position

/-- Where a token stands: its first byte, the byte after it, and its line and column. -/
structure Span where
  start : Nat
  stop : Nat
  line : Nat
  column : Nat
  deriving DecidableEq

/-- The span from a place over a piece of text. -/
def Span.over (position : Position) (text : List Char) : Span :=
  ⟨position.offset, (position.advance text).offset, position.line, position.column⟩

/-! ### Tokens -/

inductive TokenKind where
  /-- A property name or bare word, which may carry an index such as `[0]`. -/
  | identifier (name : String)
  | string (text : String)
  | number (value : Binary64)
  | boolean (value : Bool)
  /-- `$name`, or a bare `$` at the root of a data path. -/
  | variable (name : String)
  /-- The expression between the braces of an interpolation. -/
  | interpolation (expression : String)
  /-- A comment without its mark. -/
  | comment (text : String)
  | colon
  | semicolon
  | dot
  | leftParen
  | rightParen
  | endOfInput
  deriving DecidableEq

/-- A kind of token as error messages name it. -/
def TokenKind.describe : TokenKind → String
  | .identifier _ => "identifier"
  | .string _ => "string"
  | .number _ => "number"
  | .boolean _ => "boolean"
  | .variable _ => "variable"
  | .interpolation _ => "interpolation"
  | .comment _ => "comment"
  | .colon => "':'"
  | .semicolon => "';'"
  | .dot => "'.'"
  | .leftParen => "'('"
  | .rightParen => "')'"
  | .endOfInput => "end of input"

/-- A token with its text and where it stands. -/
structure Token where
  kind : TokenKind
  text : String
  span : Span
  deriving DecidableEq

/-- A token as error messages show it. -/
def Token.display (token : Token) : String :=
  match token.kind with
  | .endOfInput => "end of input"
  | kind => kind.describe ++ " '" ++ token.text ++ "'"

/-- The end of the input at a place. -/
def Token.endAt (position : Position) : Token :=
  ⟨.endOfInput, "", Span.over position []⟩

/-! ### Lexemes -/

/-- A piece of text, the kind of token that it is, and what follows it. -/
structure Lexeme where
  kind : Option TokenKind
  text : List Char
  rest : List Char

def isNameStart (c : Char) : Bool :=
  c.isAlpha || c = '_'

def isNameChar (c : Char) : Bool :=
  c.isAlphanum || c = '_'

/-- A comment: the text up to the end of the line, without the blanks around it. -/
def scanComment (mark text : List Char) : Lexeme :=
  let body := text.takeWhile (· ≠ '\n')
  ⟨some (.comment (String.ofList (trimBlanks body))), mark ++ body, text.dropWhile (· ≠ '\n')⟩

/-- How many inner braces are open after one more character. -/
def bracesAfter (opened : Nat) (c : Char) : Nat :=
  if c = '\x7d' then opened - 1 else if c = '\x7b' then opened + 1 else opened

/-- The body of an interpolation up to the brace that closes it, and what follows that brace. The
first argument counts the inner braces that are open; without a closing brace the body is the
whole text. -/
def interpolationBody : Nat → List Char → List Char × Option (List Char)
  | _, [] => ([], none)
  | opened, c :: rest =>
    if c = '\x7d' ∧ opened = 0 then ([], some rest)
    else
      let inner := interpolationBody (bracesAfter opened c) rest
      (c :: inner.1, inner.2)

/-- What a dollar sign starts: an interpolation, a variable, or the root of a data path, of which
only the sign itself is the token. -/
def scanDollar : List Char → Lexeme
  | '\x7b' :: rest =>
    match interpolationBody 0 rest with
    | (body, some after) =>
      ⟨some (.interpolation (String.ofList body)), '$' :: '\x7b' :: (body ++ ['\x7d']), after⟩
    | (body, none) => ⟨some (.interpolation (String.ofList body)), '$' :: '\x7b' :: body, []⟩
  | '.' :: rest => ⟨some (.variable "$"), ['$'], '.' :: rest⟩
  | c :: rest =>
    if isNameStart c then
      let name := '$' :: (c :: rest).takeWhile isNameChar
      ⟨some (.variable (String.ofList name)), name, (c :: rest).dropWhile isNameChar⟩
    else ⟨none, ['$'], c :: rest⟩
  | [] => ⟨none, ['$'], []⟩

/-- The character that a backslash and another character stand for inside a string. -/
def escaped? : Char → Option Char
  | 'n' => some '\n'
  | 't' => some '\t'
  | 'r' => some '\r'
  | '\\' => some '\\'
  | '"' => some '"'
  | '\'' => some '\''
  | _ => none

/-- What a string says, the text of the string after its opening quote, and what follows it. A
backslash that starts no escape stands for itself. -/
def stringBody (quote : Char) : List Char → List Char × List Char × List Char
  | [] => ([], [], [])
  | '\\' :: e :: rest =>
    match escaped? e with
    | some c =>
      let (value, text, after) := stringBody quote rest
      (c :: value, '\\' :: e :: text, after)
    | none =>
      let (value, text, after) := stringBody quote (e :: rest)
      ('\\' :: value, '\\' :: text, after)
  | c :: rest =>
    if c = quote then ([], [c], rest)
    else
      let (value, text, after) := stringBody quote rest
      (c :: value, c :: text, after)

def scanString (quote : Char) (text : List Char) : Lexeme :=
  let (value, body, after) := stringBody quote text
  ⟨some (.string (String.ofList value)), quote :: body, after⟩

/-- The digits after the point of a number, none if no digit follows the point. -/
def fractionDigits : List Char → List Char
  | '.' :: rest => leadingDigits rest
  | _ => []

/-- A number: digits, with a fraction if digits follow the point, after its sign. -/
def scanNumber (sign text : List Char) : Lexeme :=
  let whole := leadingDigits text
  let after := afterDigits text
  let fraction := fractionDigits after
  let value := Binary64.ofDecimal (sign ≠ []) (.ofDigits whole fraction 0)
  if fraction = [] then ⟨some (.number value), sign ++ whole, after⟩
  else ⟨some (.number value), sign ++ whole ++ '.' :: fraction, afterDigits after.tail⟩

/-- An index in brackets at the front of a text, empty if there is none. -/
def indexSuffix : List Char → List Char
  | '[' :: rest =>
    match leadingDigits rest, afterDigits rest with
    | [], _ => []
    | digits, ']' :: _ => '[' :: (digits ++ [']'])
    | _, _ => []
  | _ => []

/-- A bare word with its index, if it has one, or one of the booleans. -/
def scanWord (text : List Char) : Lexeme :=
  let name := text.takeWhile isNameChar
  let after := text.dropWhile isNameChar
  let index := indexSuffix after
  let word := name ++ index
  let kind : TokenKind :=
    if word = "true".toList then .boolean true
    else if word = "false".toList then .boolean false
    else .identifier (String.ofList word)
  ⟨some kind, word, after.drop index.length⟩

/-- The punctuation written by one character. -/
def punctuation? : Char → Option TokenKind
  | ':' => some .colon
  | ';' => some .semicolon
  | '.' => some .dot
  | '(' => some .leftParen
  | ')' => some .rightParen
  | _ => none

/-- The lexeme at the front of a text with the given first character. -/
def scan (c : Char) (rest : List Char) : Lexeme :=
  if c = '#' then scanComment ['#'] rest
  else if c = '/' ∧ rest.head? = some '/' then scanComment ['/', '/'] rest.tail
  else if c = '$' then scanDollar rest
  else if c = '"' ∨ c = '\'' then scanString c rest
  else match punctuation? c with
    | some kind => ⟨some kind, [c], rest⟩
    | none =>
      if c.isDigit then scanNumber [] (c :: rest)
      else if c = '-' ∧ rest.head?.any Char.isDigit then scanNumber ['-'] rest
      else if isNameStart c then scanWord (c :: rest)
      else ⟨none, [c], rest⟩

/-! ### Nothing is lost -/

theorem interpolationBody_some {opened : Nat} {text body after : List Char}
    (h : interpolationBody opened text = (body, some after)) : body ++ '\x7d' :: after = text := by
  induction text generalizing opened body with
  | nil => simp [interpolationBody] at h
  | cons c rest ih =>
    rw [interpolationBody] at h
    split at h
    · next hc =>
      obtain ⟨rfl, h⟩ := Prod.mk.inj h
      cases h
      -- this brace closes the interpolation
      simp [hc.1]
    · obtain ⟨hbody, hafter⟩ := Prod.mk.inj h
      subst hbody
      simp [ih (Prod.ext rfl hafter)]

theorem interpolationBody_none {opened : Nat} {text body : List Char}
    (h : interpolationBody opened text = (body, none)) : body = text := by
  induction text generalizing opened body with
  | nil => simpa [interpolationBody] using h.symm
  | cons c rest ih =>
    rw [interpolationBody] at h
    split at h
    · simp at h
    · obtain ⟨hbody, hafter⟩ := Prod.mk.inj h
      subst hbody
      simp [ih (Prod.ext rfl hafter)]

theorem stringBody_append (quote : Char) (text : List Char) :
    (stringBody quote text).2.1 ++ (stringBody quote text).2.2 = text := by
  fun_induction stringBody quote text <;> simp_all

theorem leadingDigits_append (text : List Char) : leadingDigits text ++ afterDigits text = text :=
  List.takeWhile_append_dropWhile

theorem scanDollar_append (text : List Char) :
    (scanDollar text).text ++ (scanDollar text).rest = '$' :: text := by
  unfold scanDollar
  split
  · split
    · next h => simp [← interpolationBody_some h]
    · next h => simp [interpolationBody_none h]
  · rfl
  · split
    · simp
    · rfl
  · rfl

theorem scanNumber_append (sign text : List Char) :
    (scanNumber sign text).text ++ (scanNumber sign text).rest = sign ++ text := by
  have hdigits := leadingDigits_append text
  rw [scanNumber]
  split
  · simp [hdigits]
  · next h =>
    match hafter : afterDigits text, h with
    | '.' :: rest, h =>
      rw [hafter] at hdigits
      simp only [fractionDigits, List.tail_cons, List.append_assoc, List.cons_append,
        leadingDigits_append, hdigits]
    | [], h => simp [fractionDigits] at h
    | c :: rest, h =>
      by_cases hc : c = '.'
      · subst hc
        rw [hafter] at hdigits
        simp only [fractionDigits, List.tail_cons, List.append_assoc, List.cons_append,
          leadingDigits_append, hdigits]
      · simp [fractionDigits, hc] at h

theorem indexSuffix_append (text : List Char) :
    indexSuffix text ++ text.drop (indexSuffix text).length = text := by
  unfold indexSuffix
  split
  · next rest =>
    have hdigits := leadingDigits_append rest
    split
    · rfl
    · next hafter _ =>
      rw [hafter] at hdigits
      generalize leadingDigits rest = digits at hdigits ⊢
      simp [← hdigits]
    · rfl
  · rfl

theorem scanWord_append (text : List Char) :
    (scanWord text).text ++ (scanWord text).rest = text := by
  simp [scanWord, indexSuffix_append, List.takeWhile_append_dropWhile]

/-- A lexeme and what follows it are the text. -/
theorem scan_append (c : Char) (rest : List Char) :
    (scan c rest).text ++ (scan c rest).rest = c :: rest := by
  unfold scan
  split
  · next h => simp [scanComment, h, List.takeWhile_append_dropWhile]
  split
  · next h =>
    obtain ⟨rfl, h⟩ := h
    cases rest with
    | nil => simp at h
    | cons d rest =>
      obtain rfl : d = '/' := by simpa using h
      simp [scanComment, List.takeWhile_append_dropWhile]
  split
  · next h => rw [scanDollar_append, h]
  split
  · simp [scanString, stringBody_append]
  split
  · rfl
  split
  · rw [scanNumber_append]; rfl
  split
  · next h => rw [scanNumber_append, h.1]; rfl
  split
  · exact scanWord_append _
  · rfl

end ChartSchema
