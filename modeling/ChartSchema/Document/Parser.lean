import ChartSchema.Document.Basic
import ChartSchema.Document.Lexer

/-!
# Parsing documents

A statement is a path of names joined by dots, a colon, a value and a semicolon. A statement that
is not well formed is reported and left out, and parsing goes on behind the next semicolon; only
where the semicolon is missing the statement stays, and the next one starts where it should have
stood. So a document always gives some statements and a list of errors.

Each step takes tokens off the front of a list and gives what is left. Where the list ends or the
end of the input stands, nothing more is taken.
-/

namespace ChartSchema

/-! ### Errors -/

/-- What is wrong with a statement. -/
inductive ParseFault where
  | expectedProperty (found : Token)
  | expectedColon (path : List String)
  | expectedValue (found : Token)
  | expectedSemicolon (path : List String)
  | tokenLimit (limit : Nat)

/-- The stable code of a fault. -/
def ParseFault.code : ParseFault → String
  | .expectedProperty _ => "EXPECTED_PROPERTY"
  | .expectedColon _ => "EXPECTED_COLON"
  | .expectedValue _ => "EXPECTED_VALUE"
  | .expectedSemicolon _ => "EXPECTED_SEMICOLON"
  | .tokenLimit _ => "TOKEN_LIMIT"

def ParseFault.message : ParseFault → String
  | .expectedProperty found => "Expected property name but found " ++ found.display
  | .expectedColon path => "Expected ':' after '" ++ ".".intercalate path ++ "'"
  | .expectedValue found => "Expected value but found " ++ found.display
  | .expectedSemicolon path => "Expected ';' after value of '" ++ ".".intercalate path ++ "'"
  | .tokenLimit limit => "Input exceeds the limit of " ++ toString limit ++ " tokens"

/-- A fault and where it was found. -/
structure ParseError where
  fault : ParseFault
  line : Nat
  column : Nat

def ParseError.message (error : ParseError) : String :=
  error.fault.message

def ParseError.display (error : ParseError) : String :=
  "Parse error at line " ++ toString error.line ++ ", column " ++ toString error.column ++
    " [" ++ error.fault.code ++ "]: " ++ error.message

/-! ### The front of the tokens -/

/-- The token at the front; behind the last one, the end of the input at the start of the text. -/
def frontToken (tokens : List Token) : Token :=
  tokens.headD (Token.endAt Position.start)

/-- Whether nothing more can be taken. -/
def atEnd (tokens : List Token) : Bool :=
  (frontToken tokens).kind = .endOfInput

/-- A fault at the front of the tokens. -/
def faultAt (tokens : List Token) (fault : ParseFault) : ParseError :=
  ⟨fault, (frontToken tokens).span.line, (frontToken tokens).span.column⟩

/-- An error and the tokens before which parsing stopped. -/
abbrev Failure := ParseError × List Token

/-! ### Parts of a statement -/

/-- Takes a property name. -/
def takeName : List Token → Except Failure (String × List Token)
  | ⟨.identifier name, _, _⟩ :: rest => .ok (name, rest)
  | tokens => .error (faultAt tokens (.expectedProperty (frontToken tokens)), tokens)

/-- Takes the further names of a path, each after a dot. -/
def takeNames : List Token → Except Failure (List String × List Token)
  | ⟨.dot, _, _⟩ :: ⟨.identifier name, _, _⟩ :: rest => do
    let (names, rest) ← takeNames rest
    .ok (name :: names, rest)
  | ⟨.dot, _, _⟩ :: rest => .error (faultAt rest (.expectedProperty (frontToken rest)), rest)
  | tokens => .ok ([], tokens)

/-- Takes a path. -/
def takePath (tokens : List Token) : Except Failure (List String × List Token) := do
  let (first, rest) ← takeName tokens
  let (names, rest) ← takeNames rest
  .ok (first :: names, rest)

/-- Takes the names of a data path, as long as a name follows a dot. -/
def takeDataPath : List Token → List String × List Token
  | ⟨.dot, _, _⟩ :: ⟨.identifier name, _, _⟩ :: rest =>
    let (names, rest) := takeDataPath rest
    (name :: names, rest)
  | tokens => ([], tokens)

/-- Takes the arguments of a call up to its closing parenthesis. What is neither a string nor a
number is passed over; a semicolon or the end of the input ends the call and stays. -/
def takeArguments : List Token → List Written × List Token
  | [] => ([], [])
  | ⟨kind, text, span⟩ :: rest =>
    match kind with
    | .rightParen => ([], rest)
    | .semicolon => ([], ⟨.semicolon, text, span⟩ :: rest)
    | .endOfInput => ([], ⟨.endOfInput, text, span⟩ :: rest)
    | .string text =>
      let (args, rest) := takeArguments rest
      (.string text :: args, rest)
    | .number value =>
      let (args, rest) := takeArguments rest
      (.number value :: args, rest)
    | _ => takeArguments rest

/-- Takes a value. A variable before a dot is the root of a data path. -/
def takeValue : List Token → Except Failure (Written × List Token)
  | ⟨.identifier name, _, _⟩ :: ⟨.leftParen, _, _⟩ :: rest =>
    let (args, rest) := takeArguments rest
    .ok (.call name args, rest)
  | ⟨.identifier name, _, _⟩ :: rest => .ok (.identifier name, rest)
  | ⟨.string text, _, _⟩ :: rest => .ok (.string text, rest)
  | ⟨.number value, _, _⟩ :: rest => .ok (.number value, rest)
  | ⟨.boolean value, _, _⟩ :: rest => .ok (.boolean value, rest)
  | ⟨.variable root, _, _⟩ :: ⟨.dot, text, span⟩ :: rest =>
    let (names, rest) := takeDataPath (⟨.dot, text, span⟩ :: rest)
    .ok (.dataPath (".".intercalate (root :: names)), rest)
  | ⟨.variable name, _, _⟩ :: rest => .ok (.variable name, rest)
  | ⟨.interpolation expression, _, _⟩ :: rest => .ok (.interpolation expression, rest)
  | tokens => .error (faultAt tokens (.expectedValue (frontToken tokens)), tokens)

/-- Takes the colon after a path. -/
def takeColon (path : List String) : List Token → Except Failure (List Token)
  | ⟨.colon, _, _⟩ :: rest => .ok rest
  | tokens => .error (faultAt tokens (.expectedColon path), tokens)

/-- Takes the semicolon after the value of a path. At the end of the input it may be missing;
elsewhere that is reported and nothing is taken. -/
def takeSemicolon (path : List String) : List Token → Option ParseError × List Token
  | ⟨.semicolon, _, _⟩ :: rest => (none, rest)
  | tokens =>
    if atEnd tokens then (none, tokens)
    else (some (faultAt tokens (.expectedSemicolon path)), tokens)

/-- Takes a statement, with the error of a missing semicolon if there is one. -/
def takeStatement (tokens : List Token) :
    Except Failure (Statement × Option ParseError × List Token) := do
  let (path, rest) ← takePath tokens
  let rest ← takeColon path rest
  let (value, rest) ← takeValue rest
  let (error, rest) := takeSemicolon path rest
  .ok (⟨path, value, (frontToken tokens).span⟩, error, rest)

/-- What follows the next semicolon, or the end of the input. -/
def skipStatement : List Token → List Token
  | [] => []
  | token :: rest =>
    match token.kind with
    | .endOfInput => token :: rest
    | .semicolon => rest
    | _ => skipStatement rest

/-- One round of parsing: the statement that was read, if it was well formed, what is wrong with
it, and the tokens from which parsing goes on. -/
structure Round where
  statement : Option Statement
  error : Option ParseError
  rest : List Token

def nextRound (tokens : List Token) : Round :=
  match takeStatement tokens with
  | .ok (statement, error, rest) => ⟨some statement, error, rest⟩
  | .error (error, rest) => ⟨none, some error, skipStatement rest⟩

/-! ### Progress -/

theorem takeName_length {tokens rest : List Token} {name : String}
    (h : takeName tokens = .ok (name, rest)) : rest.length + 1 = tokens.length := by
  unfold takeName at h
  split at h
  · cases h
    rfl
  · cases h

theorem takeName_failure {tokens rest : List Token} {error : ParseError}
    (h : takeName tokens = .error (error, rest)) : rest = tokens := by
  unfold takeName at h
  split at h <;> cases h
  rfl

theorem takeNames_length (tokens : List Token) :
    (∀ names rest, takeNames tokens = .ok (names, rest) → rest.length ≤ tokens.length) ∧
      ∀ error rest, takeNames tokens = .error (error, rest) → rest.length ≤ tokens.length := by
  fun_induction takeNames tokens with
  -- a dot and a name are gone, and perhaps more after them
  | case1 name _ _ _ _ rest ih =>
    constructor
    · intro names after h
      match hrest : takeNames rest with
      | .ok (inner, behind) =>
        rw [hrest] at h
        cases h
        have := ih.1 inner after hrest
        simp only [List.length_cons]
        omega
      | .error e => rw [hrest] at h; cases h
    · intro error after h
      match hrest : takeNames rest with
      | .ok _ => rw [hrest] at h; cases h
      | .error (e, behind) =>
        rw [hrest] at h
        cases h
        have := ih.2 error after hrest
        simp only [List.length_cons]
        omega
  -- a dot without a name is gone when it is reported
  | case2 =>
    constructor
    · intro _ _ h; cases h
    · intro _ _ h
      cases h
      simp
  | case3 =>
    constructor
    · intro _ _ h
      cases h
      exact Nat.le_refl _
    · intro _ _ h; cases h

theorem takeDataPath_length (tokens : List Token) :
    (takeDataPath tokens).2.length ≤ tokens.length := by
  fun_induction takeDataPath tokens <;> simp_all
  omega

theorem takeArguments_length (tokens : List Token) :
    (takeArguments tokens).2.length ≤ tokens.length := by
  fun_induction takeArguments tokens <;> simp_all <;> omega

theorem takeValue_length {tokens rest : List Token} {value : Written}
    (h : takeValue tokens = .ok (value, rest)) : rest.length ≤ tokens.length := by
  unfold takeValue at h
  split at h <;> cases h
  · next rest =>
    have := takeArguments_length rest
    simp only [List.length_cons]
    omega
  · simp
  · simp
  · simp
  · simp
  · next text span rest =>
    have := takeDataPath_length (⟨.dot, text, span⟩ :: rest)
    simp only [List.length_cons] at this ⊢
    omega
  · simp
  · simp

theorem takeValue_failure {tokens rest : List Token} {error : ParseError}
    (h : takeValue tokens = .error (error, rest)) : rest = tokens := by
  unfold takeValue at h
  split at h <;> cases h
  rfl

theorem skipStatement_length (tokens : List Token) :
    (skipStatement tokens).length ≤ tokens.length := by
  fun_induction skipStatement tokens <;> simp_all
  omega

theorem skipStatement_length_lt {tokens : List Token} (h : atEnd tokens = false) :
    (skipStatement tokens).length < tokens.length := by
  match tokens with
  | [] => simp [atEnd, frontToken, Token.endAt] at h
  | token :: rest =>
    rw [skipStatement]
    split
    · next hkind => simp [atEnd, frontToken, hkind] at h
    · simp
    · have := skipStatement_length rest
      simp only [List.length_cons]
      omega

theorem takePath_length {tokens rest : List Token} {path : List String}
    (h : takePath tokens = .ok (path, rest)) : rest.length < tokens.length := by
  unfold takePath at h
  match hname : takeName tokens with
  | .error e => rw [hname] at h; cases h
  | .ok (first, behind) =>
    rw [hname] at h
    change (takeNames behind >>= _) = _ at h
    have hfirst := takeName_length hname
    match hnames : takeNames behind with
    | .error e => rw [hnames] at h; cases h
    | .ok (names, after) =>
      rw [hnames] at h
      cases h
      have := (takeNames_length behind).1 names rest hnames
      omega

/-- A path that is not well formed stops at the very front, or further on. -/
theorem takePath_failure {tokens rest : List Token} {error : ParseError}
    (h : takePath tokens = .error (error, rest)) :
    rest = tokens ∨ rest.length < tokens.length := by
  unfold takePath at h
  match hname : takeName tokens with
  | .error (e, behind) =>
    rw [hname] at h
    cases h
    exact Or.inl (takeName_failure hname)
  | .ok (first, behind) =>
    rw [hname] at h
    change (takeNames behind >>= _) = _ at h
    have hfirst := takeName_length hname
    match hnames : takeNames behind with
    | .ok _ => rw [hnames] at h; cases h
    | .error (e, after) =>
      rw [hnames] at h
      cases h
      have := (takeNames_length behind).2 error rest hnames
      exact Or.inr (by omega)

theorem takeColon_length {path : List String} {tokens rest : List Token}
    (h : takeColon path tokens = .ok rest) : rest.length < tokens.length := by
  unfold takeColon at h
  split at h <;> cases h
  simp

theorem takeColon_failure {path : List String} {tokens rest : List Token} {error : ParseError}
    (h : takeColon path tokens = .error (error, rest)) : rest = tokens := by
  unfold takeColon at h
  split at h <;> cases h
  rfl

theorem takeSemicolon_length (path : List String) (tokens : List Token) :
    (takeSemicolon path tokens).2.length ≤ tokens.length := by
  unfold takeSemicolon
  split
  · simp
  · split <;> exact Nat.le_refl _

/-- A statement takes at least one token, and one that fails stops at the very front or further
on. -/
theorem takeStatement_length (tokens : List Token) :
    (∀ statement error rest, takeStatement tokens = .ok (statement, error, rest) →
      rest.length < tokens.length) ∧
    ∀ error rest, takeStatement tokens = .error (error, rest) →
      rest = tokens ∨ rest.length < tokens.length := by
  unfold takeStatement
  match hpath : takePath tokens with
  | .error (e, behind) =>
    refine ⟨fun _ _ _ h => (by cases h), fun error rest h => ?_⟩
    cases h
    exact takePath_failure hpath
  | .ok (path, behind) =>
    have hlt := takePath_length hpath
    change (∀ statement error rest, (takeColon path behind >>= _) = _ → _) ∧
      ∀ error rest, (takeColon path behind >>= _) = _ → _
    match hcolon : takeColon path behind with
    | .error (e, after) =>
      refine ⟨fun _ _ _ h => (by cases h), fun error rest h => ?_⟩
      cases h
      exact Or.inr (takeColon_failure hcolon ▸ hlt)
    | .ok after =>
      have hcolon := takeColon_length hcolon
      change (∀ statement error rest, (takeValue after >>= _) = _ → _) ∧
        ∀ error rest, (takeValue after >>= _) = _ → _
      match hvalue : takeValue after with
      | .error (e, last) =>
        refine ⟨fun _ _ _ h => (by cases h), fun error rest h => ?_⟩
        cases h
        have := takeValue_failure hvalue
        subst this
        exact Or.inr (by omega)
      | .ok (value, last) =>
        refine ⟨fun statement error rest h => ?_, fun _ _ h => by cases h⟩
        obtain rfl : rest = (takeSemicolon path last).2 := by cases h; rfl
        have := takeValue_length hvalue
        have := takeSemicolon_length path last
        omega

theorem nextRound_length {tokens : List Token} (h : atEnd tokens = false) :
    (nextRound tokens).rest.length < tokens.length := by
  unfold nextRound
  split
  · next hok => exact (takeStatement_length tokens).1 _ _ _ hok
  · next error rest herror =>
    rcases (takeStatement_length tokens).2 _ _ herror with rfl | hlt
    · exact skipStatement_length_lt h
    · exact Nat.lt_of_le_of_lt (skipStatement_length rest) hlt

/-! ### Whole documents -/

/-- The statements and errors from the front of the tokens to the end of the input. -/
def statementsFrom (tokens : List Token) : List Statement × List ParseError :=
  if atEnd tokens then ([], [])
  else
    let round := nextRound tokens
    let (statements, errors) := statementsFrom round.rest
    (round.statement.toList ++ statements, round.error.toList ++ errors)
termination_by tokens.length
decreasing_by exact nextRound_length (Bool.eq_false_iff.2 ‹_›)

/-- The comment that a token is. -/
def Token.comment? (token : Token) : Option Comment :=
  match token.kind with
  | .comment text => some ⟨text, token.span.line⟩
  | _ => none

/-- The document that tokens form, and its errors. Comments may stand anywhere and are set
aside. -/
def parseTokens (tokens : List Token) : Document × List ParseError :=
  let (statements, errors) := statementsFrom (tokens.filter fun token => token.comment?.isNone)
  (⟨statements, tokens.filterMap Token.comment?⟩, errors)

/-- All that comes of parsing a document. -/
structure Parsed where
  document : Document
  schema : Schema
  errors : List ParseError

/-- Parses a document of at most so many tokens. An error behind all others says if it has
more. -/
def parseWithLimit (limit : Nat) (source : String) : Parsed :=
  let ⟨tokens, truncated⟩ := tokenize limit source
  let (document, errors) := parseTokens tokens
  let stop := (tokens.getLastD (Token.endAt Position.start)).span
  let excess := if truncated then [⟨.tokenLimit limit, stop.line, stop.column⟩] else []
  ⟨document, document.schema, errors ++ excess⟩

/-- Parses a document with the default limit of tokens. -/
def parse (source : String) : Parsed :=
  parseWithLimit defaultTokenLimit source

end ChartSchema
