import Mathlib.Data.List.Basic
import ChartSchema.Proofs.Document.Statements

/-!
# The grammar of documents

A document is nothing, or statements with semicolons between them and perhaps one behind the last. A
statement is a path, a colon and a value. `DerivesDocument` says this without the parser, of tokens
without comments; the places of the tokens matter only for where a statement starts. The closing
parenthesis of a call may be missing, and what stands inside a call and is no argument is passed
over: the grammar has the leniency of the parser written out as rules.

The parser reads ahead: a word is a call if a parenthesis follows, and a variable is the root of a
data path if a dot follows. The grammar needs no such conditions. Behind a value stands a semicolon
or nothing, so that tokens which derive a document do so in one way.

Each step of the parser is compared with the grammar in both directions. In the one, a step takes
exactly the tokens that derive something, in front of tokens where it has to stop
(`takePath_append`, `takeValue_append`, `takeStatement_append`); `Stops` says what those are. In the
other, what a step has taken derives what it gives (`derivesValue_of_takeValue`,
`derivesStatement_of_takeStatement`). Both are carried over to whole documents by induction over the
derivation and over the rounds.

The main statement, `parseTokens_iff_derives`, is that a document has no errors exactly if it is
derived, and that its statements are then those of the derivation.
-/

namespace ChartSchema

/-! ### Derivations -/

/-- Whether a token can stand inside a call. -/
def TokenKind.isInside (kind : TokenKind) : Bool :=
  kind ≠ .rightParen ∧ kind ≠ .semicolon ∧ kind ≠ .endOfInput

/-- The value that tokens are. The closing parenthesis of a call may be missing. -/
inductive DerivesValue : List TokenKind → Written → Prop where
  | string (text : String) : DerivesValue [.string text] (.string text)
  | number (value : Binary64) : DerivesValue [.number value] (.number value)
  | boolean (value : Bool) : DerivesValue [.boolean value] (.boolean value)
  | interpolation (expression : String) :
    DerivesValue [.interpolation expression] (.interpolation expression)
  | identifier (name : String) : DerivesValue [.identifier name] (.identifier name)
  | call (name : String) (inside : List TokenKind) (hinside : ∀ kind ∈ inside, kind.isInside) :
    DerivesValue (.identifier name :: .leftParen :: (inside ++ [.rightParen]))
      (.call name (inside.filterMap TokenKind.argument?))
  | openCall (name : String) (inside : List TokenKind) (hinside : ∀ kind ∈ inside, kind.isInside) :
    DerivesValue (.identifier name :: .leftParen :: inside)
      (.call name (inside.filterMap TokenKind.argument?))
  | reference (name : String) : DerivesValue [.variable name] (.variable name)
  | dataPath (root : String) (names : List String) (hnames : names ≠ []) :
    DerivesValue (.variable root :: furtherKinds names)
      (.dataPath (names.foldl (fun text name => text ++ "." ++ name) root))

/-- The statement that tokens are. It starts where the first of them stands. -/
structure DerivesStatement (tokens : List Token) (statement : Statement) : Prop where
  kinds : ∃ valueKinds, DerivesValue valueKinds statement.value ∧
    tokens.map Token.kind = pathKinds statement.path ++ .colon :: valueKinds
  path_ne_nil : statement.path ≠ []
  span_eq : statement.span = (frontToken tokens).span

/-- The statements that tokens are, with semicolons between them. -/
inductive DerivesStatements : List Token → List Statement → Prop where
  | single {tokens : List Token} {statement : Statement} :
    DerivesStatement tokens statement → DerivesStatements tokens [statement]
  | cons {tokens more : List Token} {semicolon : Token} {statement : Statement}
    {statements : List Statement} :
    DerivesStatement tokens statement → semicolon.kind = .semicolon →
      DerivesStatements more statements →
        DerivesStatements (tokens ++ semicolon :: more) (statement :: statements)

/-- The statements of the document that tokens are. -/
inductive DerivesDocument : List Token → List Statement → Prop where
  | empty : DerivesDocument [] []
  | statements {tokens : List Token} {statements : List Statement} :
    DerivesStatements tokens statements → DerivesDocument tokens statements
  | closed {tokens : List Token} {semicolon : Token} {statements : List Statement} :
    DerivesStatements tokens statements → semicolon.kind = .semicolon →
      DerivesDocument (tokens ++ [semicolon]) statements

/-- A document behind a statement and its semicolon. -/
theorem DerivesDocument.cons {tokens more : List Token} {semicolon : Token} {statement : Statement}
    {statements : List Statement} (hstatement : DerivesStatement tokens statement)
    (hsemicolon : semicolon.kind = .semicolon) (hmore : DerivesDocument more statements) :
    DerivesDocument (tokens ++ semicolon :: more) (statement :: statements) := by
  cases hmore with
  | empty => exact .closed (.single hstatement) hsemicolon
  | statements h => exact .statements (.cons hstatement hsemicolon h)
  | closed h hlast =>
    rw [← List.cons_append, ← List.append_assoc]
    exact .closed (.cons hstatement hsemicolon h) hlast

/-! ### No end inside -/

theorem endOfInput_notMem_furtherKinds (names : List String) :
    .endOfInput ∉ furtherKinds names := by
  simp [furtherKinds]

theorem endOfInput_notMem_pathKinds (path : List String) : .endOfInput ∉ pathKinds path := by
  cases path with
  | nil => simp [pathKinds]
  | cons name names => simp [pathKinds_cons, endOfInput_notMem_furtherKinds]

/-- The end of the input is in no value, since it is not inside a call either. -/
theorem DerivesValue.endOfInput_notMem {kinds : List TokenKind} {written : Written}
    (h : DerivesValue kinds written) : .endOfInput ∉ kinds := by
  have hinside {inside : List TokenKind} (h : ∀ kind ∈ inside, kind.isInside = true) :
      .endOfInput ∉ inside := fun hmem => by simpa [TokenKind.isInside] using h _ hmem
  cases h with
  | string | number | boolean | interpolation | identifier | reference => simp
  | call name inside h => simp [hinside h]
  | openCall name inside h => simp [hinside h]
  | dataPath root names => simp [endOfInput_notMem_furtherKinds]

theorem DerivesStatement.endOfInput_notMem {tokens : List Token} {statement : Statement}
    (h : DerivesStatement tokens statement) : .endOfInput ∉ tokens.map Token.kind := by
  obtain ⟨valueKinds, hvalue, hkinds⟩ := h.kinds
  simp [hkinds, endOfInput_notMem_pathKinds, hvalue.endOfInput_notMem]

/-! ### Where a value stops -/

/-- Nothing more belongs to a statement. -/
inductive Stops : List Token → Prop where
  | nil : Stops []
  | semicolon (text : String) (span : Span) (more : List Token) :
    Stops (⟨.semicolon, text, span⟩ :: more)
  | endOfInput (text : String) (span : Span) (more : List Token) :
    Stops (⟨.endOfInput, text, span⟩ :: more)

theorem Stops.of_kind {token : Token} (h : token.kind = .semicolon) (more : List Token) :
    Stops (token :: more) := by
  obtain ⟨kind, text, span⟩ := token
  obtain rfl : kind = .semicolon := h
  exact .semicolon text span more

/-- A statement stops where the input ends. -/
theorem Stops.of_atEnd {tokens : List Token} (h : atEnd tokens = true) : Stops tokens := by
  match tokens with
  | [] => exact .nil
  | ⟨kind, text, span⟩ :: more =>
    obtain rfl : kind = .endOfInput := of_decide_eq_true h
    exact .endOfInput text span more

/-- Where a statement stops there is no dot, so that no path goes on. -/
theorem Stops.front_ne_dot {tokens : List Token} (h : Stops tokens) :
    (frontToken tokens).kind ≠ .dot := by
  cases h <;> exact TokenKind.noConfusion

/-! ### Names -/

theorem takeDataPath_of_front {tokens : List Token} (h : (frontToken tokens).kind ≠ .dot) :
    takeDataPath tokens = ([], tokens) := by
  unfold takeDataPath
  split
  · exact absurd rfl h
  · rfl

/-- All the names are taken if no dot follows them. -/
theorem takeDataPath_append {taken rest : List Token} {names : List String}
    (hkinds : taken.map Token.kind = furtherKinds names) (hrest : (frontToken rest).kind ≠ .dot) :
    takeDataPath (taken ++ rest) = (names, rest) := by
  induction names generalizing taken with
  | nil =>
    obtain rfl : taken = [] := List.map_eq_nil_iff.1 hkinds
    exact takeDataPath_of_front hrest
  | cons name names ih =>
    obtain ⟨dot, dotSpan, behind, rfl, hbehind⟩ := exists_token_cons hkinds
    obtain ⟨text, span, further, rfl, hfurther⟩ := exists_token_cons hbehind
    simp only [List.cons_append, takeDataPath, ih hfurther]

/-- What is taken as names are names. -/
theorem exists_taken_names (tokens : List Token) : ∃ taken,
    tokens = taken ++ (takeDataPath tokens).2 ∧
      taken.map Token.kind = furtherKinds (takeDataPath tokens).1 := by
  fun_induction takeDataPath tokens with
  | case1 dot dotSpan name text span rest names behind hrest ih =>
    rw [hrest] at ih
    obtain ⟨taken, htokens, hkinds⟩ := ih
    refine ⟨⟨.dot, dot, dotSpan⟩ :: ⟨.identifier name, text, span⟩ :: taken, ?_, ?_⟩
    · rw [htokens]
      rfl
    · rw [List.map_cons, List.map_cons, hkinds]
      rfl
  | case2 => exact ⟨[], rfl, rfl⟩

/-- The names of a path are taken like those of a data path, but no dot may stay. -/
theorem takeNames_eq_ok_iff {tokens rest : List Token} {names : List String} :
    takeNames tokens = .ok (names, rest) ↔
      takeDataPath tokens = (names, rest) ∧ (frontToken rest).kind ≠ .dot := by
  fun_induction takeNames tokens generalizing names with
  | case1 dot dotSpan name text span behind ih =>
    constructor
    · intro h
      cases hfurther : takeNames behind with
      | error e =>
        rw [hfurther] at h
        cases h
      | ok taken =>
        rw [hfurther] at h
        cases h
        obtain ⟨htake, hfront⟩ := ih.1 hfurther
        exact ⟨by rw [takeDataPath, htake], hfront⟩
    · rintro ⟨h, hfront⟩
      obtain ⟨further, after, htake⟩ : ∃ further after, takeDataPath behind = (further, after) :=
        ⟨_, _, rfl⟩
      rw [takeDataPath, htake] at h
      cases h
      rw [ih.2 ⟨htake, hfront⟩]
      rfl
  -- the dot without a name would stay
  | case2 text span behind hname =>
    refine iff_of_false (fun h => by cases h) ?_
    rintro ⟨h, hfront⟩
    refine hfront ?_
    rw [takeDataPath] at h
    · cases h
      rfl
    · rintro _ _ name text' span' more ⟨⟩
      exact hname name text' span' more rfl
  | case3 tokens _ hdot =>
    have hfront : (frontToken tokens).kind ≠ .dot := by
      cases tokens with
      | nil => exact TokenKind.noConfusion
      | cons token more =>
        obtain ⟨kind, text, span⟩ := token
        rintro rfl
        exact hdot text span more rfl
    rw [takeDataPath_of_front hfront]
    constructor
    · rintro ⟨⟩
      exact ⟨rfl, hfront⟩
    · rintro ⟨⟨⟩, -⟩
      rfl

/-- A path is taken in front of anything but a dot. -/
theorem takePath_append {taken rest : List Token} {path : List String} (hpath : path ≠ [])
    (hkinds : taken.map Token.kind = pathKinds path) (hrest : (frontToken rest).kind ≠ .dot) :
    takePath (taken ++ rest) = .ok (path, rest) := by
  obtain ⟨name, names, rfl⟩ := List.exists_cons_of_ne_nil hpath
  rw [pathKinds_cons] at hkinds
  obtain ⟨text, span, further, rfl, hfurther⟩ := exists_token_cons hkinds
  have hnames := takeNames_eq_ok_iff.2 ⟨takeDataPath_append hfurther hrest, hrest⟩
  rw [List.cons_append, takePath, takeName]
  change (takeNames (further ++ rest) >>= _) = _
  rw [hnames]
  rfl

/-- What is taken as a path is one. -/
theorem exists_taken_path {tokens rest : List Token} {path : List String}
    (h : takePath tokens = .ok (path, rest)) :
    path ≠ [] ∧ ∃ taken, tokens = taken ++ rest ∧ taken.map Token.kind = pathKinds path := by
  unfold takePath takeName at h
  split at h
  · next name text span behind =>
    change (takeNames behind >>= _) = _ at h
    match hnames : takeNames behind with
    | .error e => rw [hnames] at h; cases h
    | .ok (names, after) =>
      rw [hnames] at h
      cases h
      obtain ⟨taken, htokens, hkinds⟩ := exists_taken_names behind
      rw [(takeNames_eq_ok_iff.1 hnames).1] at htokens hkinds
      refine ⟨List.cons_ne_nil _ _, ⟨.identifier name, text, span⟩ :: taken, ?_, ?_⟩
      · rw [htokens]
        rfl
      · rw [List.map_cons, hkinds, pathKinds_cons]
  · cases h

/-! ### Arguments -/

/-- A call without a closing parenthesis ends where the statement stops. -/
theorem takeArguments_of_stops {tokens : List Token} (h : Stops tokens) :
    takeArguments tokens = ([], tokens) := by
  cases h <;> rfl

/-- What stands inside a call is passed over, but for the arguments. -/
theorem takeArguments_inside {inside : List Token} (h : ∀ token ∈ inside, token.kind.isInside)
    (rest : List Token) :
    takeArguments (inside ++ rest) =
      ((inside.map Token.kind).filterMap TokenKind.argument? ++ (takeArguments rest).1,
        (takeArguments rest).2) := by
  induction inside with
  | nil => rfl
  | cons token inside ih =>
    obtain ⟨kind, text, span⟩ := token
    have hmore := ih fun other hother => h other (List.mem_cons_of_mem _ hother)
    have hkind : kind.isInside = true := h _ List.mem_cons_self
    cases kind with
    | rightParen | semicolon | endOfInput => exact absurd hkind (by decide)
    | _ => simp only [List.cons_append, takeArguments, hmore, List.map_cons, List.filterMap_cons,
        TokenKind.argument?]

/-- A call goes on up to its closing parenthesis, or up to where the statement stops. -/
theorem exists_inside (tokens : List Token) : ∃ inside rest, tokens = inside ++ rest ∧
    (∀ token ∈ inside, token.kind.isInside) ∧
      (Stops rest ∨ ∃ text span more, rest = ⟨.rightParen, text, span⟩ :: more) := by
  induction tokens with
  | nil => exact ⟨[], [], rfl, fun _ h => absurd h List.not_mem_nil, .inl .nil⟩
  | cons token tokens ih =>
    by_cases hinside : token.kind.isInside = true
    · obtain ⟨inside, rest, rfl, hall, hrest⟩ := ih
      exact ⟨token :: inside, rest, rfl, List.forall_mem_cons.2 ⟨hinside, hall⟩, hrest⟩
    · refine ⟨[], token :: tokens, rfl, fun _ h => absurd h List.not_mem_nil, ?_⟩
      obtain ⟨kind, text, span⟩ := token
      simp only [TokenKind.isInside, decide_eq_true_eq, not_and_or, not_not] at hinside
      rcases hinside with rfl | rfl | rfl
      · exact .inr ⟨text, span, tokens, rfl⟩
      · exact .inl (.semicolon text span tokens)
      · exact .inl (.endOfInput text span tokens)

/-! ### Values -/

/-- A data path is written with dots between its names, from the left. -/
theorem intercalate_dots (root : String) (names : List String) :
    ".".intercalate (root :: names) = names.foldl (fun text name => text ++ "." ++ name) root := by
  induction names generalizing root with
  | nil => rfl
  | cons name names ih => exact ih (root ++ "." ++ name)

/-- A value is taken from what derives it, up to where the statement stops. -/
theorem takeValue_append {taken rest : List Token} {written : Written}
    (h : DerivesValue (taken.map Token.kind) written) (hstop : Stops rest) :
    takeValue (taken ++ rest) = .ok (written, rest) := by
  generalize hkinds : taken.map Token.kind = kinds at h
  cases h with
  | string | number | boolean | interpolation =>
    obtain ⟨text, span, nothing, rfl, hnothing⟩ := exists_token_cons hkinds
    obtain rfl := List.map_eq_nil_iff.1 hnothing
    rfl
  | identifier name =>
    obtain ⟨text, span, nothing, rfl, hnothing⟩ := exists_token_cons hkinds
    obtain rfl := List.map_eq_nil_iff.1 hnothing
    cases hstop <;> rfl
  | reference name =>
    obtain ⟨text, span, nothing, rfl, hnothing⟩ := exists_token_cons hkinds
    obtain rfl := List.map_eq_nil_iff.1 hnothing
    cases hstop <;> rfl
  | call name inside hinside =>
    -- whatever stands between the parentheses is passed, and arguments are picked out of it
    obtain ⟨text, span, behind, rfl, hbehind⟩ := exists_token_cons hkinds
    obtain ⟨paren, parenSpan, more, rfl, hmore⟩ := exists_token_cons hbehind
    obtain ⟨args, last, rfl, rfl, hlast⟩ := List.map_eq_append_iff.1 hmore
    obtain ⟨closing, closingSpan, nothing, rfl, hnothing⟩ := exists_token_cons hlast
    obtain rfl := List.map_eq_nil_iff.1 hnothing
    have hargs := takeArguments_inside (List.forall_mem_map.1 hinside)
      (⟨.rightParen, closing, closingSpan⟩ :: rest)
    simp only [List.cons_append, List.append_assoc, List.nil_append, takeValue, hargs,
      takeArguments, List.append_nil]
  | openCall name inside hinside =>
    -- without a closing parenthesis the arguments end where the statement does
    obtain ⟨text, span, behind, rfl, hbehind⟩ := exists_token_cons hkinds
    obtain ⟨paren, parenSpan, args, rfl, rfl⟩ := exists_token_cons hbehind
    have hargs := takeArguments_inside (List.forall_mem_map.1 hinside) rest
    rw [takeArguments_of_stops hstop] at hargs
    simp only [List.cons_append, takeValue, hargs, List.append_nil]
  | dataPath root names hnames =>
    obtain ⟨text, span, further, rfl, hfurther⟩ := exists_token_cons hkinds
    obtain ⟨name, names, rfl⟩ := List.exists_cons_of_ne_nil hnames
    have hpath := takeDataPath_append hfurther hstop.front_ne_dot
    obtain ⟨dot, dotSpan, behind, rfl, hbehind⟩ := exists_token_cons hfurther
    rw [← intercalate_dots]
    simp only [List.cons_append] at hpath ⊢
    simp only [takeValue, hpath]

/-- What is taken as a call derives it if the statement stops behind it. -/
theorem derivesValue_of_takeArguments (name : String) {tokens rest : List Token}
    {args : List Written} (h : takeArguments tokens = (args, rest)) (hstop : Stops rest) :
    ∃ taken, tokens = taken ++ rest ∧
      DerivesValue (.identifier name :: .leftParen :: taken.map Token.kind) (.call name args) := by
  obtain ⟨inside, behind, rfl, hinside, hbehind⟩ := exists_inside tokens
  have hkinds : ∀ kind ∈ inside.map Token.kind, kind.isInside := List.forall_mem_map.2 hinside
  rw [takeArguments_inside hinside] at h
  rcases hbehind with hstops | ⟨text, span, more, rfl⟩
  · rw [takeArguments_of_stops hstops, List.append_nil] at h
    cases h
    exact ⟨inside, rfl, .openCall name _ hkinds⟩
  · simp only [takeArguments, List.append_nil] at h
    cases h
    refine ⟨inside ++ [⟨.rightParen, text, span⟩], by simp, ?_⟩
    rw [List.map_append]
    exact .call name _ hkinds

/-- What is taken as a value derives it if the statement stops behind it. -/
theorem derivesValue_of_takeValue {tokens rest : List Token} {written : Written}
    (h : takeValue tokens = .ok (written, rest)) (hstop : Stops rest) :
    ∃ taken, tokens = taken ++ rest ∧ DerivesValue (taken.map Token.kind) written := by
  unfold takeValue at h
  split at h
  · next name text span paren parenSpan behind =>
    obtain ⟨args, after, hargs⟩ : ∃ args after, takeArguments behind = (args, after) := ⟨_, _, rfl⟩
    rw [hargs] at h
    cases h
    obtain ⟨taken, rfl, hcall⟩ := derivesValue_of_takeArguments name hargs hstop
    exact ⟨⟨.identifier name, text, span⟩ :: ⟨.leftParen, paren, parenSpan⟩ :: taken, rfl, hcall⟩
  · next name text span _ _ =>
    cases h
    exact ⟨[⟨.identifier name, text, span⟩], rfl, .identifier name⟩
  · next string text span _ =>
    cases h
    exact ⟨[⟨.string string, text, span⟩], rfl, .string string⟩
  · next value text span _ =>
    cases h
    exact ⟨[⟨.number value, text, span⟩], rfl, .number value⟩
  · next value text span _ =>
    cases h
    exact ⟨[⟨.boolean value, text, span⟩], rfl, .boolean value⟩
  · next root text span dot dotSpan behind =>
    obtain ⟨taken, htokens, hkinds⟩ := exists_taken_names (⟨.dot, dot, dotSpan⟩ :: behind)
    obtain ⟨names, after, hnames⟩ :
        ∃ names after, takeDataPath (⟨.dot, dot, dotSpan⟩ :: behind) = (names, after) :=
      ⟨_, _, rfl⟩
    rw [hnames] at h htokens hkinds
    cases h
    -- a dot without a name behind it would not let the statement stop
    have hne : names ≠ [] := by
      rintro rfl
      obtain rfl := List.map_eq_nil_iff.1 hkinds
      exact hstop.front_ne_dot (congrArg (fun tokens => (frontToken tokens).kind) htokens.symm)
    refine ⟨⟨.variable root, text, span⟩ :: taken, by rw [htokens]; rfl, ?_⟩
    rw [List.map_cons, hkinds, intercalate_dots]
    exact .dataPath root names hne
  · next name text span _ _ =>
    cases h
    exact ⟨[⟨.variable name, text, span⟩], rfl, .reference name⟩
  · next expression text span _ =>
    cases h
    exact ⟨[⟨.interpolation expression, text, span⟩], rfl, .interpolation expression⟩
  · cases h

/-! ### Statements -/

/-- A statement is taken part by part. -/
theorem takeStatement_eq_ok {tokens rest : List Token} {statement : Statement}
    {error : Option ParseError} (h : takeStatement tokens = .ok (statement, error, rest)) :
    ∃ behind after last, takePath tokens = .ok (statement.path, behind) ∧
      takeColon statement.path behind = .ok after ∧ takeValue after = .ok (statement.value, last) ∧
        takeSemicolon statement.path last = (error, rest) ∧
          statement.span = (frontToken tokens).span := by
  unfold takeStatement at h
  match hpath : takePath tokens with
  | .error e => rw [hpath] at h; cases h
  | .ok (path, behind) =>
    rw [hpath] at h
    change (takeColon path behind >>= _) = _ at h
    match hcolon : takeColon path behind with
    | .error e => rw [hcolon] at h; cases h
    | .ok after =>
      rw [hcolon] at h
      change (takeValue after >>= _) = _ at h
      match hvalue : takeValue after with
      | .error e => rw [hvalue] at h; cases h
      | .ok (value, last) =>
        rw [hvalue] at h
        cases h
        exact ⟨behind, after, last, rfl, hcolon, hvalue, rfl, rfl⟩

/-- Nothing is wrong behind a value exactly where a statement stops. -/
theorem takeSemicolon_eq_none {path : List String} {tokens rest : List Token}
    (h : takeSemicolon path tokens = (none, rest)) :
    Stops tokens ∧ ((∃ semicolon, semicolon.kind = .semicolon ∧ tokens = semicolon :: rest) ∨
      atEnd tokens = true ∧ rest = tokens) := by
  unfold takeSemicolon at h
  split at h
  · next text span more =>
    cases h
    exact ⟨.semicolon text span rest, .inl ⟨_, rfl, rfl⟩⟩
  · split at h
    · next hend =>
      cases h
      exact ⟨.of_atEnd hend, .inr ⟨hend, rfl⟩⟩
    · cases h

theorem DerivesStatement.ne_nil {tokens : List Token} {statement : Statement}
    (h : DerivesStatement tokens statement) : tokens ≠ [] := by
  obtain ⟨valueKinds, -, hkinds⟩ := h.kinds
  rintro rfl
  simp at hkinds

/-- A statement is taken from what derives it, up to where it stops. -/
theorem takeStatement_append {taken rest : List Token} {statement : Statement}
    (h : DerivesStatement taken statement) (hstop : Stops rest) :
    takeStatement (taken ++ rest) =
      .ok (statement, (takeSemicolon statement.path rest).1,
        (takeSemicolon statement.path rest).2) := by
  have hspan := h.span_eq
  rw [← frontToken_append h.ne_nil rest] at hspan
  obtain ⟨valueKinds, hvalue, hkinds⟩ := h.kinds
  obtain ⟨pathTokens, behind, rfl, hpathTokens, hbehind⟩ := List.map_eq_append_iff.1 hkinds
  obtain ⟨colon, colonSpan, valueTokens, rfl, rfl⟩ := exists_token_cons hbehind
  have hpath : takePath (pathTokens ++ ⟨.colon, colon, colonSpan⟩ :: valueTokens ++ rest) =
      .ok (statement.path, ⟨.colon, colon, colonSpan⟩ :: (valueTokens ++ rest)) := by
    rw [List.append_assoc]
    exact takePath_append h.path_ne_nil hpathTokens TokenKind.noConfusion
  rw [takeStatement, hpath]
  change (takeValue (valueTokens ++ rest) >>= _) = _
  rw [takeValue_append hvalue hstop]
  change Except.ok _ = _
  rw [← hspan]
  rfl

/-- What is taken as a statement without an error derives it. -/
theorem derivesStatement_of_takeStatement {tokens rest : List Token} {statement : Statement}
    (h : takeStatement tokens = .ok (statement, none, rest)) :
    ∃ taken last, tokens = taken ++ last ∧ DerivesStatement taken statement ∧
      ((∃ semicolon, semicolon.kind = .semicolon ∧ last = semicolon :: rest) ∨
        atEnd last = true ∧ rest = last) := by
  obtain ⟨behind, after, last, hpath, hcolon, hvalue, hsemicolon, hspan⟩ := takeStatement_eq_ok h
  obtain ⟨hstop, hlast⟩ := takeSemicolon_eq_none hsemicolon
  obtain ⟨hne, pathTokens, rfl, hpathTokens⟩ := exists_taken_path hpath
  obtain ⟨valueTokens, rfl, hderives⟩ := derivesValue_of_takeValue hvalue hstop
  unfold takeColon at hcolon
  split at hcolon
  · next colon colonSpan more =>
    cases hcolon
    have hkinds : (pathTokens ++ ⟨.colon, colon, colonSpan⟩ :: valueTokens).map Token.kind =
        pathKinds statement.path ++ .colon :: valueTokens.map Token.kind := by
      rw [List.map_append, List.map_cons, hpathTokens]
    have htokens : pathTokens ++ ⟨.colon, colon, colonSpan⟩ :: (valueTokens ++ last) =
        pathTokens ++ ⟨.colon, colon, colonSpan⟩ :: valueTokens ++ last := by
      rw [List.append_assoc, List.cons_append]
    refine ⟨_, last, htokens, ⟨⟨_, hderives, hkinds⟩, hne, ?_⟩, hlast⟩
    rw [hspan, htokens, frontToken_append (List.append_ne_nil_of_right_ne_nil _ (by simp)) last]
  · cases hcolon

/-! ### Documents -/

theorem statementsFrom_of_atEnd {tokens : List Token} (h : atEnd tokens = true) :
    statementsFrom tokens = ([], []) := by
  rw [statementsFrom, if_pos h]

/-- A statement without an error stands before those that follow. -/
theorem statementsFrom_cons {tokens rest : List Token} {statement : Statement}
    (hfront : atEnd tokens = false) (h : takeStatement tokens = .ok (statement, none, rest)) :
    statementsFrom tokens =
      (statement :: (statementsFrom rest).1, (statementsFrom rest).2) := by
  have hround : nextRound tokens = ⟨some statement, none, rest⟩ := by
    rw [nextRound, h]
  rw [statementsFrom, if_neg (Bool.eq_false_iff.1 hfront), hround]
  rfl

theorem DerivesStatement.atEnd_append {tokens : List Token} {statement : Statement}
    (h : DerivesStatement tokens statement) (rest : List Token) :
    atEnd (tokens ++ rest) = false := by
  obtain ⟨valueKinds, -, hkinds⟩ := h.kinds
  obtain ⟨name, names, hpath⟩ := List.exists_cons_of_ne_nil h.path_ne_nil
  rw [hpath, pathKinds_cons] at hkinds
  obtain ⟨text, span, more, rfl, -⟩ := exists_token_cons hkinds
  rfl

/-- Statements are taken from what derives them, if behind them stands the end or one semicolon
before it. -/
theorem DerivesStatements.statementsFrom_append {tokens rest last : List Token}
    {statements : List Statement} (h : DerivesStatements tokens statements) (hstop : Stops rest)
    (hrest : ∀ path, takeSemicolon path rest = (none, last)) (hlast : atEnd last = true) :
    statementsFrom (tokens ++ rest) = (statements, []) := by
  induction h with
  | single hstatement =>
    have htake := takeStatement_append hstatement hstop
    rw [hrest] at htake
    rw [statementsFrom_cons (hstatement.atEnd_append rest) htake, statementsFrom_of_atEnd hlast]
  | @cons tokens more semicolon _ _ hstatement hsemicolon _ ih =>
    have htake := takeStatement_append hstatement (.of_kind hsemicolon (more ++ rest))
    obtain ⟨kind, text, span⟩ := semicolon
    obtain rfl : kind = .semicolon := hsemicolon
    rw [List.append_assoc, List.cons_append]
    rw [statementsFrom_cons (hstatement.atEnd_append _) htake]
    simp only [takeSemicolon, ih]

/-- **What is derived is accepted.** -/
theorem DerivesDocument.statementsFrom_append {tokens rest : List Token}
    {statements : List Statement} (h : DerivesDocument tokens statements)
    (hrest : atEnd rest = true) : statementsFrom (tokens ++ rest) = (statements, []) := by
  cases h with
  | empty => exact statementsFrom_of_atEnd hrest
  | statements h =>
    have htake (path : List String) : takeSemicolon path rest = (none, rest) := by
      cases Stops.of_atEnd hrest with
      | semicolon => cases hrest
      | nil | endOfInput => rfl
    exact h.statementsFrom_append (.of_atEnd hrest) htake hrest
  | @closed _ semicolon _ h hsemicolon =>
    obtain ⟨kind, text, span⟩ := semicolon
    obtain rfl : kind = .semicolon := hsemicolon
    rw [List.append_assoc]
    exact h.statementsFrom_append (.semicolon text span rest) (fun _ => rfl) hrest

/-- **What is accepted is derived**, from the tokens before the end. -/
theorem derivesDocument_of_statementsFrom {tokens : List Token} {statements : List Statement}
    (h : statementsFrom tokens = (statements, [])) :
    ∃ taken rest, tokens = taken ++ rest ∧ atEnd rest = true ∧
      DerivesDocument taken statements := by
  fun_induction statementsFrom tokens generalizing statements with
  | case1 tokens hend =>
    cases h
    exact ⟨[], tokens, rfl, hend, .empty⟩
  | case2 tokens hend round more errors hmore =>
    rename_i ih
    obtain ⟨hstatements, herrors⟩ := Prod.mk.inj h
    obtain ⟨hround, rfl⟩ := List.append_eq_nil_iff.1 herrors
    match htake : takeStatement tokens with
    | .error (error, behind) => simp [round, nextRound, htake] at hround
    | .ok (statement, some error, behind) => simp [round, nextRound, htake] at hround
    | .ok (statement, none, behind) =>
      have hnext : nextRound tokens = ⟨some statement, none, behind⟩ := by rw [nextRound, htake]
      simp only [round, hnext] at hstatements hmore ih
      obtain ⟨further, rest, rfl, hrest, hderives⟩ := ih hmore
      obtain ⟨taken, last, rfl, hstatement, hlast⟩ := derivesStatement_of_takeStatement htake
      subst hstatements
      rcases hlast with ⟨semicolon, hsemicolon, rfl⟩ | ⟨hlast, hbehind⟩
      · refine ⟨taken ++ semicolon :: further, rest, by simp, hrest, ?_⟩
        exact .cons hstatement hsemicolon hderives
      -- nothing follows at the end
      · rw [hbehind, statementsFrom_of_atEnd hlast] at hmore
        cases hmore
        exact ⟨taken, last, rfl, hlast, .statements (.single hstatement)⟩

/-! ### Whole token lists -/

theorem DerivesStatements.endOfInput_notMem {tokens : List Token} {statements : List Statement}
    (h : DerivesStatements tokens statements) : .endOfInput ∉ tokens.map Token.kind := by
  induction h with
  | single h => exact h.endOfInput_notMem
  | cons h hsemicolon _ ih =>
    rw [List.map_append, List.map_cons, hsemicolon]
    simp only [List.mem_append, List.mem_cons, not_or]
    exact ⟨h.endOfInput_notMem, TokenKind.noConfusion, ih⟩

/-- The end of the input is in no document. -/
theorem DerivesDocument.endOfInput_notMem {tokens : List Token} {statements : List Statement}
    (h : DerivesDocument tokens statements) : .endOfInput ∉ tokens.map Token.kind := by
  cases h with
  | empty => exact List.not_mem_nil
  | statements h => exact h.endOfInput_notMem
  | closed h hsemicolon =>
    rw [List.map_append, List.map_singleton, hsemicolon]
    simp only [List.mem_append, List.mem_singleton, not_or]
    exact ⟨h.endOfInput_notMem, TokenKind.noConfusion⟩

/-- Tokens before the end are found again. -/
theorem takeWhile_append_atEnd {tokens rest : List Token}
    (h : .endOfInput ∉ tokens.map Token.kind) (hrest : atEnd rest = true) :
    (tokens ++ rest).takeWhile (fun token => token.kind ≠ .endOfInput) = tokens := by
  rw [List.takeWhile_append_of_pos]
  · have hnil : rest.takeWhile (fun token => token.kind ≠ .endOfInput) = [] := by
      match rest with
      | [] => rfl
      | token :: more =>
        have hkind : token.kind = .endOfInput := of_decide_eq_true hrest
        simp [hkind]
    rw [hnil, List.append_nil]
  · intro token hmem
    exact decide_eq_true fun hkind => h (hkind ▸ List.mem_map_of_mem hmem)

/-- The tokens that belong to a document: all but comments and the end of the input. -/
def contentOf (tokens : List Token) : List Token :=
  tokens.filter fun token => !token.kind.isComment && token.kind ≠ .endOfInput

/-- Behind the content stands at most the end of the input. -/
theorem exists_content_append {tokens : List Token}
    (h : ∀ token ∈ tokens.dropLast, token.kind ≠ .endOfInput) :
    ∃ rest, atEnd rest = true ∧
      tokens.filter (fun token => token.comment?.isNone) = contentOf tokens ++ rest := by
  simp only [comment?_isNone]
  rcases List.eq_nil_or_concat' tokens with rfl | ⟨front, last, rfl⟩
  · exact ⟨[], rfl, rfl⟩
  rw [List.dropLast_concat] at h
  have hfront : front.filter (fun token => !token.kind.isComment) = contentOf front :=
    List.filter_congr fun token hmem => by simp [h token hmem]
  have hcontent : contentOf (front ++ [last]) = contentOf front ++ contentOf [last] :=
    List.filter_append ..
  rw [List.filter_append, hfront, hcontent]
  by_cases hlast : last.kind = .endOfInput
  · refine ⟨[last], decide_eq_true hlast, ?_⟩
    simp [contentOf, hlast, TokenKind.isComment]
  · refine ⟨[], rfl, ?_⟩
    simp [contentOf, hlast, List.filter_singleton]

/-- **A document without errors is one that the grammar derives**, and its statements are those of
the derivation. -/
theorem parseTokens_iff_derives {tokens : List Token}
    (h : ∀ token ∈ tokens.dropLast, token.kind ≠ .endOfInput) :
    ((parseTokens tokens).2 = [] ↔ ∃ statements, DerivesDocument (contentOf tokens) statements) ∧
      ∀ statements, DerivesDocument (contentOf tokens) statements →
        (parseTokens tokens).1.statements = statements := by
  obtain ⟨rest, hrest, htokens⟩ := exists_content_append h
  have haccepted (statements : List Statement)
      (hderives : DerivesDocument (contentOf tokens) statements) :
      (parseTokens tokens).2 = [] ∧ (parseTokens tokens).1.statements = statements := by
    rw [parseTokens, htokens, hderives.statementsFrom_append hrest]
    exact ⟨rfl, rfl⟩
  refine ⟨⟨fun herrors => ?_, ?_⟩, fun statements hderives => (haccepted statements hderives).2⟩
  swap
  · rintro ⟨statements, hderives⟩
    exact (haccepted statements hderives).1
  have hstatements : statementsFrom (contentOf tokens ++ rest) =
      ((parseTokens tokens).1.statements, []) := by
    rw [← herrors, ← htokens]
    rfl
  obtain ⟨taken, last, heq, hlast, hderives⟩ := derivesDocument_of_statementsFrom hstatements
  -- both are what stands before the end
  have htaken : contentOf tokens = taken := by
    have hcontent : .endOfInput ∉ (contentOf tokens).map Token.kind := by
      simp [contentOf]
    rw [← takeWhile_append_atEnd hcontent hrest, heq,
      takeWhile_append_atEnd hderives.endOfInput_notMem hlast]
  exact ⟨_, htaken ▸ hderives⟩

/-- A call that the semicolon ends, with a comment and tokens that are no arguments inside, and a
data path at the end of the input. -/
theorem parseTokens_iff_derives_openCall :
    let tokens : List Token := [⟨.identifier "source", "source", ⟨0, 6, 1, 1⟩⟩,
      ⟨.colon, ":", ⟨6, 7, 1, 7⟩⟩, ⟨.identifier "rest", "rest", ⟨8, 12, 1, 9⟩⟩,
      ⟨.leftParen, "(", ⟨12, 13, 1, 13⟩⟩, ⟨.variable "$base", "$base", ⟨13, 18, 1, 14⟩⟩,
      ⟨.comment "or", "# or", ⟨19, 23, 1, 20⟩⟩, ⟨.string "/sales", "'/sales'", ⟨24, 32, 2, 1⟩⟩,
      ⟨.semicolon, ";", ⟨32, 33, 2, 9⟩⟩, ⟨.identifier "map", "map", ⟨34, 37, 2, 11⟩⟩,
      ⟨.dot, ".", ⟨37, 38, 2, 14⟩⟩, ⟨.identifier "labels", "labels", ⟨38, 44, 2, 15⟩⟩,
      ⟨.colon, ":", ⟨44, 45, 2, 21⟩⟩, ⟨.variable "$", "$", ⟨46, 47, 2, 23⟩⟩,
      ⟨.dot, ".", ⟨47, 48, 2, 24⟩⟩, ⟨.identifier "months[0]", "months[0]", ⟨48, 57, 2, 25⟩⟩,
      ⟨.endOfInput, "", ⟨57, 57, 2, 34⟩⟩]
    (∀ token ∈ tokens.dropLast, token.kind ≠ .endOfInput) ∧
      (parseTokens tokens).2 = [] ∧
      (parseTokens tokens).1.statements =
        [⟨["source"], .call "rest" [.string "/sales"], ⟨0, 6, 1, 1⟩⟩,
          ⟨["map", "labels"], .dataPath "$.months[0]", ⟨34, 37, 2, 11⟩⟩] := by
  intro tokens
  have hend : ∀ token ∈ tokens.dropLast, token.kind ≠ .endOfInput := by decide
  have hsource : DerivesStatement ((contentOf tokens).take 6)
      ⟨["source"], .call "rest" [.string "/sales"], ⟨0, 6, 1, 1⟩⟩ :=
    ⟨⟨_, .openCall "rest" [.variable "$base", .string "/sales"] (by decide), rfl⟩, by simp, rfl⟩
  have hmap : DerivesStatement ((contentOf tokens).drop 7)
      ⟨["map", "labels"], .dataPath "$.months[0]", ⟨34, 37, 2, 11⟩⟩ :=
    ⟨⟨_, .dataPath "$" ["months[0]"] (by simp), rfl⟩, by simp, rfl⟩
  have hderives : DerivesDocument (contentOf tokens) _ :=
    .statements (@DerivesStatements.cons _ _ ⟨.semicolon, ";", ⟨32, 33, 2, 9⟩⟩ _ _ hsource rfl
      (.single hmap))
  obtain ⟨hiff, hstatements⟩ := parseTokens_iff_derives hend
  exact ⟨hend, hiff.2 ⟨_, hderives⟩, hstatements _ hderives⟩

end ChartSchema
