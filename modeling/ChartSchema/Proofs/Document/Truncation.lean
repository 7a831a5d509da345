import Mathlib.Data.List.Basic
import ChartSchema.Proofs.Document.Grammar
import ChartSchema.Proofs.Document.Lexemes

/-!
# Documents cut short

A document with more tokens than the limit is parsed as if it ended in front of the first token too
many. What is parsed then is compared here with what is parsed of the whole document. The parser
reads from the front, so that up to the cut it cannot tell the two apart:

* a step either does the same on both (`SameStep`) or has met the cut (`MeetsCut`);
* a value, which is not lost when the document ends inside it, is the same or is all there is of it
  before the cut (`CutShort`);
* a round that has met the cut leaves nothing from which another statement could start (`UsedUp`).

A round before the cut is of one of these sorts (`nextRound_cut`), and the run of the rounds follows
(`statementsFrom_cut`). So at most the last statement differs, and only in its value: a statement
whose value is cut off has its path, its colon and its first token before the cut. `FirstOf` is this
relation between lists of statements, from which the two statements about prefixes are read off.

The errors of statements never say that there are too many tokens
(`isExcess_of_mem_statementsFrom`), so that the one that is added for the limit can be told from all
others.

The main statement, `parseWithLimit_cut`, compares a document under a limit with the whole document.
-/

namespace ChartSchema

/-! ### Steps on tokens that are cut off -/

section Steps

variable {α β : Type} (stop back : List Token)

/-- A step that does the same on some tokens, whether they stop there or go on. -/
inductive SameStep : Except Failure (α × List Token) → Except Failure (α × List Token) → Prop where
  | ok (value : α) (rest : List Token) :
    SameStep (.ok (value, rest ++ stop)) (.ok (value, rest ++ back))
  | error (error : ParseError) (rest : List Token) :
    SameStep (.error (error, rest ++ stop)) (.error (error, rest ++ back))

/-- A step that stops at the cut. -/
inductive MeetsCut : Except Failure (α × List Token) → Prop where
  | ok (value : α) : MeetsCut (.ok (value, stop))
  | error (error : ParseError) : MeetsCut (.error (error, stop))

/-- A step that does the same unless it stops at the cut. -/
def SameUpToCut (cut whole : Except Failure (α × List Token)) : Prop :=
  SameStep stop back cut whole ∨ MeetsCut stop cut

variable {stop back}

/-- Steps one after the other do the same up to the cut, if a step that starts at the cut stops
there. -/
theorem SameUpToCut.bind {cut whole : Except Failure (α × List Token)}
    {next : α × List Token → Except Failure (β × List Token)} (h : SameUpToCut stop back cut whole)
    (hnext : ∀ value rest,
      SameUpToCut stop back (next (value, rest ++ stop)) (next (value, rest ++ back)))
    (hstop : ∀ value, MeetsCut stop (next (value, stop))) :
    SameUpToCut stop back (cut >>= next) (whole >>= next) := by
  rcases h with h | h
  · cases h with
    | ok value rest => exact hnext value rest
    | error error rest => exact .inl (.error error rest)
  · cases h with
    | ok value => exact .inr (hstop value)
    | error error => exact .inr (.error error)

end Steps

section Parsing

variable (place : Position) (back tokens : List Token)

theorem takeName_cut : SameUpToCut [Token.endAt place] back
    (takeName (tokens ++ [Token.endAt place])) (takeName (tokens ++ back)) := by
  rcases tokens with _ | ⟨⟨kind, text, span⟩, more⟩
  · exact .inr (.error _)
  · cases kind with
    | identifier name => exact .inl (.ok name more)
    | _ => exact .inl (.error _ (_ :: more))

theorem takeNames_cut : SameUpToCut [Token.endAt place] back
    (takeNames (tokens ++ [Token.endAt place])) (takeNames (tokens ++ back)) := by
  fun_induction takeNames tokens with
  | case1 dot dotSpan name text span rest ih =>
    refine ih.bind (fun names after => ?_) fun names => ?_
    · exact .inl (.ok (name :: names) after)
    · exact .ok (name :: names)
  -- a dot without a name is an error here or at the cut
  | case2 dot dotSpan rest hname =>
    rcases rest with _ | ⟨⟨kind, text, span⟩, more⟩
    · exact .inr (.error _)
    · cases kind with
      | identifier name => exact absurd rfl (hname name text span more)
      | _ => exact .inl (.error _ (_ :: more))
  | case3 tokens _ hdot =>
    rcases tokens with _ | ⟨⟨kind, text, span⟩, more⟩
    · exact .inr (.ok [])
    · cases kind with
      | dot => exact absurd rfl (hdot text span more)
      | _ => exact .inl (.ok [] (_ :: more))

/-- A path is the same, or is cut off. -/
theorem takePath_cut : SameUpToCut [Token.endAt place] back
    (takePath (tokens ++ [Token.endAt place])) (takePath (tokens ++ back)) := by
  refine (takeName_cut place back tokens).bind (fun first rest => ?_) fun first => ?_
  · refine (takeNames_cut place back rest).bind (fun names after => ?_) fun names => ?_
    · exact .inl (.ok (first :: names) after)
    · exact .ok (first :: names)
  · exact .ok [first]

/-- The path of a statement and its colon. -/
def takeTarget (tokens : List Token) : Except Failure (List String × List Token) := do
  let (path, rest) ← takePath tokens
  let rest ← takeColon path rest
  .ok (path, rest)

/-- A statement is its target, its value and the semicolon, in steps that are followed apart. -/
theorem takeStatement_eq : takeStatement tokens = (do
    let (path, rest) ← takeTarget tokens
    let (value, rest) ← takeValue rest
    let (error, rest) := takeSemicolon path rest
    .ok (⟨path, value, (frontToken tokens).span⟩, error, rest)) := by
  rw [takeStatement, takeTarget]
  cases takePath tokens with
  | error failure => rfl
  | ok taken =>
    obtain ⟨path, rest⟩ := taken
    simp only [bind, Except.bind]
    cases takeColon path rest <;> rfl

/-- A path and its colon are the same, or are cut off. -/
theorem takeTarget_cut : SameUpToCut [Token.endAt place] back
    (takeTarget (tokens ++ [Token.endAt place])) (takeTarget (tokens ++ back)) := by
  refine (takePath_cut place back tokens).bind (fun path rest => ?_) fun path => ?_
  · rcases rest with _ | ⟨⟨kind, text, span⟩, more⟩
    · exact .inr (.error _)
    · cases kind with
      | colon => exact .inl (.ok path more)
      | _ => exact .inl (.error _ (_ :: more))
  · exact .error _

/-! ### Values -/

/-- Tokens from which no other statement comes: the cut, maybe behind the dot of a data path. -/
inductive UsedUp : List Token → Prop where
  | cut : UsedUp [Token.endAt place]
  | dot (text : String) (span : Span) : UsedUp [⟨.dot, text, span⟩, Token.endAt place]

variable {place back tokens}

/-- From what is used up comes no statement. -/
theorem UsedUp.statementsFrom_eq_nil (h : UsedUp place tokens) :
    (statementsFrom tokens).1 = [] := by
  have hend : statementsFrom [Token.endAt place] = ([], []) := by
    rw [statementsFrom]
    exact if_pos rfl
  cases h with
  | cut => rw [hend]
  | dot text span =>
    -- no statement starts with a dot, and skipping it leads to the cut
    have hround : (nextRound [⟨.dot, text, span⟩, Token.endAt place]).statement = none ∧
        (nextRound [⟨.dot, text, span⟩, Token.endAt place]).rest = [Token.endAt place] := ⟨rfl, rfl⟩
    rw [statementsFrom, if_neg (by exact Bool.false_ne_true)]
    simp only [hround, hend]
    rfl

variable (place back)

/-- What is taken of some tokens if they are cut off, and what if they go on: the same, or of the
former all that there is. -/
inductive CutShort {α : Type} : α × List Token → α × List Token → Prop where
  | same (value : α) (rest : List Token) :
    CutShort (value, rest ++ [Token.endAt place]) (value, rest ++ back)
  | usedUp (value : α) (rest : List Token) (whole : α × List Token) (h : UsedUp place rest) :
    CutShort (value, rest) whole

variable {place back}

theorem CutShort.map {α β : Type} {cut whole : α × List Token} (h : CutShort place back cut whole)
    (f : α → β) : CutShort place back (f cut.1, cut.2) (f whole.1, whole.2) := by
  cases h with
  | same value rest => exact .same (f value) rest
  | usedUp value rest whole hused => exact .usedUp (f value) rest _ hused

variable (place back tokens)

/-- The names of a data path are the same, or all that there are. -/
theorem takeDataPath_cut : CutShort place back
    (takeDataPath (tokens ++ [Token.endAt place])) (takeDataPath (tokens ++ back)) := by
  fun_induction takeDataPath tokens with
  | case1 dot dotSpan name text span rest names after hafter ih => exact ih.map (name :: ·)
  | case2 tokens hpair =>
    rcases tokens with _ | ⟨⟨kind, text, span⟩, more⟩
    · exact .usedUp [] _ _ .cut
    · cases kind with
      | dot =>
        rcases more with _ | ⟨⟨kind, name, nameSpan⟩, rest⟩
        -- whether the dot belongs to the path is told by what is cut off
        · exact .usedUp [] _ _ (.dot text span)
        · cases kind with
          | identifier word => exact absurd rfl (hpair text span word name nameSpan rest)
          | _ => exact .same [] (_ :: _ :: rest)
      | _ => exact .same [] (_ :: more)

/-- The arguments of a call are the same, or all that there are. -/
theorem takeArguments_cut : CutShort place back
    (takeArguments (tokens ++ [Token.endAt place])) (takeArguments (tokens ++ back)) := by
  induction tokens with
  | nil => exact .usedUp [] _ _ .cut
  | cons token more ih =>
    obtain ⟨kind, text, span⟩ := token
    cases kind with
    | rightParen => exact .same [] more
    | semicolon | endOfInput => exact .same [] (_ :: more)
    | string argument => exact ih.map (.string argument :: ·)
    | number argument => exact ih.map (.number argument :: ·)
    | _ => exact ih

theorem takeSemicolon_cut (path : List String) : CutShort place back
    (takeSemicolon path (tokens ++ [Token.endAt place])) (takeSemicolon path (tokens ++ back)) := by
  rcases tokens with _ | ⟨⟨kind, text, span⟩, more⟩
  · exact .usedUp none _ _ .cut
  · cases kind with
    | semicolon => exact .same none more
    | endOfInput => exact .same none (_ :: more)
    | _ => exact .same (some _) (_ :: more)

/-- What a value gives on tokens that are cut off, and what if they go on. -/
inductive ValueCutShort :
    Except Failure (Written × List Token) → Except Failure (Written × List Token) → Prop where
  | ok (cut whole : Written × List Token) (h : CutShort place back cut whole) :
    ValueCutShort (.ok cut) (.ok whole)
  | error (error : ParseError) (rest : List Token) :
    ValueCutShort (.error (error, rest ++ [Token.endAt place])) (.error (error, rest ++ back))
  | missing (error : ParseError) (whole : Except Failure (Written × List Token)) :
    ValueCutShort (.error (error, [Token.endAt place])) whole

/-- A word and a variable are values, whatever follows them. -/
theorem exists_takeValue {kind : TokenKind}
    (hkind : (∃ name, kind = .identifier name) ∨ ∃ root, kind = .variable root) (text : String)
    (span : Span) : ∃ taken, takeValue (⟨kind, text, span⟩ :: tokens) = .ok taken := by
  rcases hkind with ⟨name, rfl⟩ | ⟨root, rfl⟩
  · rcases tokens with _ | ⟨⟨kind, paren, parenSpan⟩, rest⟩
    · exact ⟨_, rfl⟩
    · cases kind <;> exact ⟨_, rfl⟩
  · rcases tokens with _ | ⟨⟨kind, dot, dotSpan⟩, rest⟩
    · exact ⟨_, rfl⟩
    · cases kind <;> exact ⟨_, rfl⟩

/-- A value is the same, is cut short, or fails at the cut. -/
theorem takeValue_cut : ValueCutShort place back
    (takeValue (tokens ++ [Token.endAt place])) (takeValue (tokens ++ back)) := by
  rcases tokens with _ | ⟨⟨kind, text, span⟩, more⟩
  · exact .missing _ _
  · cases kind with
    | string | number | boolean | interpolation => exact .ok _ _ (.same _ more)
    | identifier name =>
      rcases more with _ | ⟨⟨kind, paren, parenSpan⟩, rest⟩
      -- whether the word is called is told by what is cut off
      · obtain ⟨whole, hwhole⟩ := exists_takeValue back (.inl ⟨name, rfl⟩) text span
        rw [List.singleton_append, List.singleton_append, hwhole]
        exact .ok (.identifier name, _) whole (.usedUp _ _ _ .cut)
      · cases kind with
        | leftParen => exact .ok _ _ ((takeArguments_cut place back rest).map (Written.call name))
        | _ => exact .ok _ _ (.same (Written.identifier name) (_ :: rest))
    | «variable» root =>
      rcases more with _ | ⟨⟨kind, dot, dotSpan⟩, rest⟩
      -- whether the variable is the root of a data path is told by what is cut off
      · obtain ⟨whole, hwhole⟩ := exists_takeValue back (.inr ⟨root, rfl⟩) text span
        rw [List.singleton_append, List.singleton_append, hwhole]
        exact .ok (.variable root, _) whole (.usedUp _ _ _ .cut)
      · cases kind with
        | dot =>
          exact .ok _ _ ((takeDataPath_cut place back (⟨.dot, dot, dotSpan⟩ :: rest)).map
            fun names => Written.dataPath (".".intercalate (root :: names)))
        | _ => exact .ok _ _ (.same (Written.variable root) (_ :: rest))
    | _ => exact .error _ (_ :: more)

/-! ### Rounds -/

theorem skipStatement_cut :
    (∃ rest, skipStatement (tokens ++ [Token.endAt place]) = rest ++ [Token.endAt place] ∧
      skipStatement (tokens ++ back) = rest ++ back) ∨
      skipStatement (tokens ++ [Token.endAt place]) = [Token.endAt place] := by
  induction tokens with
  | nil => exact .inr rfl
  | cons token more ih =>
    obtain ⟨kind, text, span⟩ := token
    cases kind with
    | semicolon => exact .inl ⟨more, rfl, rfl⟩
    | endOfInput => exact .inl ⟨_ :: more, rfl, rfl⟩
    | _ => exact ih

/-- What a round gives on tokens that are cut off, and what if they go on. -/
inductive RoundCutShort : Round → Round → Prop where
  | same (statement : Option Statement) (error : Option ParseError) (rest : List Token) :
    RoundCutShort ⟨statement, error, rest ++ [Token.endAt place]⟩ ⟨statement, error, rest ++ back⟩
  /-- A statement with the cut in its value. -/
  | value (path : List String) (value value' : Written) (span : Span)
    (error error' : Option ParseError) (rest rest' : List Token) (h : UsedUp place rest) :
    RoundCutShort ⟨some ⟨path, value, span⟩, error, rest⟩ ⟨some ⟨path, value', span⟩, error', rest'⟩
  | missing (error : Option ParseError) (rest : List Token) (whole : Round)
    (h : UsedUp place rest) : RoundCutShort ⟨none, error, rest⟩ whole

theorem roundCutShort_failed (error : ParseError) : RoundCutShort place back
    ⟨none, some error, skipStatement (tokens ++ [Token.endAt place])⟩
    ⟨none, some error, skipStatement (tokens ++ back)⟩ := by
  rcases skipStatement_cut place back tokens with ⟨rest, hcut, hwhole⟩ | hcut
  · rw [hcut, hwhole]
    exact .same none (some error) rest
  · rw [hcut]
    exact .missing _ _ _ .cut

variable {tokens}

omit back in
theorem usedUp_takeSemicolon (h : UsedUp place tokens) (path : List String) :
    UsedUp place (takeSemicolon path tokens).2 := by
  cases h with
  | cut => exact .cut
  | dot text span => exact .dot text span

/-- **A round that starts before the cut** does the same as on the whole document, or uses up all
that is before the cut. -/
theorem nextRound_cut (hne : tokens ≠ []) : RoundCutShort place back
    (nextRound (tokens ++ [Token.endAt place])) (nextRound (tokens ++ back)) := by
  have htarget := takeTarget_cut place back tokens
  rw [nextRound, nextRound, takeStatement_eq, takeStatement_eq, frontToken_append hne,
    frontToken_append hne]
  generalize takeTarget (tokens ++ [Token.endAt place]) = cut at htarget ⊢
  generalize takeTarget (tokens ++ back) = whole at htarget ⊢
  -- the target is taken alike, or the cut stands in it
  rcases htarget with hsame | hmeets
  · cases hsame with
    | error error rest => exact roundCutShort_failed place back rest error
    | ok path rest =>
      have hvalue := takeValue_cut place back rest
      simp only [bind, Except.bind]
      generalize takeValue (rest ++ [Token.endAt place]) = cut at hvalue ⊢
      generalize takeValue (rest ++ back) = whole at hvalue ⊢
      cases hvalue with
      | error error rest => exact roundCutShort_failed place back rest error
      | missing error whole => exact .missing _ _ _ .cut
      | ok cut whole h =>
        cases h with
        | usedUp value rest whole hused =>
          exact .value _ _ _ _ _ _ _ _ (usedUp_takeSemicolon place hused path)
        | same value rest =>
          have hsemicolon := takeSemicolon_cut place back rest path
          dsimp only
          generalize takeSemicolon path (rest ++ [Token.endAt place]) = cut at hsemicolon ⊢
          generalize takeSemicolon path (rest ++ back) = whole at hsemicolon ⊢
          cases hsemicolon with
          | same error rest => exact .same _ error rest
          | usedUp error rest whole hused => exact .value _ _ _ _ _ _ _ _ hused
  · cases hmeets with
    | ok path => exact .missing _ _ _ .cut
    | error error => exact .missing _ _ _ .cut

end Parsing

/-! ### Statements -/

/-- Statements that are the first of some others, but for the value of the last of them. -/
inductive FirstOf : List Statement → List Statement → Prop where
  | nil (whole : List Statement) : FirstOf [] whole
  | value (path : List String) (value value' : Written) (span : Span) (whole : List Statement) :
    FirstOf [⟨path, value, span⟩] (⟨path, value', span⟩ :: whole)
  | cons (statement : Statement) (cut whole : List Statement) (h : FirstOf cut whole) :
    FirstOf (statement :: cut) (statement :: whole)

/-- All statements but the last are the first of the others. -/
theorem FirstOf.dropLast_prefix {cut whole : List Statement} (h : FirstOf cut whole) :
    cut.dropLast <+: whole := by
  induction h with
  | nil whole => exact List.nil_prefix
  | value path value value' span whole => exact List.nil_prefix
  | cons statement cut whole h ih =>
    cases cut with
    | nil => exact List.nil_prefix
    | cons next cut => exact List.cons_prefix_cons.2 ⟨rfl, ih⟩

/-- The path of a statement and where it starts. -/
def Statement.target (statement : Statement) : List String × Span :=
  (statement.path, statement.span)

/-- The paths and the starts of all statements are the first of the others. -/
theorem FirstOf.map_target_prefix {cut whole : List Statement} (h : FirstOf cut whole) :
    cut.map Statement.target <+: whole.map Statement.target := by
  induction h with
  | nil whole => exact List.nil_prefix
  | value path value value' span whole =>
    exact List.cons_prefix_cons.2 ⟨rfl, List.nil_prefix⟩
  | cons statement cut whole h ih => exact List.cons_prefix_cons.2 ⟨rfl, ih⟩

theorem statementsFrom_of_round {tokens : List Token} (h : atEnd tokens = false) :
    (statementsFrom tokens).1 =
      (nextRound tokens).statement.toList ++ (statementsFrom (nextRound tokens).rest).1 := by
  rw [statementsFrom, if_neg (Bool.eq_false_iff.1 h)]

/-- **What is parsed before a cut** is what is parsed first without it. -/
theorem statementsFrom_cut (place : Position) (back tokens : List Token) :
    FirstOf (statementsFrom (tokens ++ [Token.endAt place])).1
      (statementsFrom (tokens ++ back)).1 := by
  generalize hcut : tokens ++ [Token.endAt place] = cut
  fun_induction statementsFrom cut generalizing tokens with
  | case1 cut hend => exact .nil _
  | case2 cut hend round statements errors hmore ih =>
    have hne : tokens ≠ [] := by
      rintro rfl
      obtain rfl := hcut
      exact hend rfl
    have hround : RoundCutShort place back round (nextRound (tokens ++ back)) := by
      have hcompared := nextRound_cut place back hne
      rwa [hcut] at hcompared
    have hfront : atEnd (tokens ++ back) = false := by
      rw [atEnd, frontToken_append hne, ← frontToken_append hne [Token.endAt place], hcut]
      exact Bool.eq_false_iff.2 hend
    rw [statementsFrom_of_round hfront]
    obtain rfl : statements = (statementsFrom round.rest).1 := (congrArg Prod.fst hmore).symm
    clear_value round
    generalize nextRound (tokens ++ back) = whole at hround ⊢
    -- the rounds agree, or the value or the target of this one is cut short
    cases hround with
    | same statement error rest =>
      have hrest := ih rest rfl
      cases statement with
      | none => exact hrest
      | some statement => exact .cons statement _ _ hrest
    | value path value value' span error error' rest rest' hused =>
      rw [hused.statementsFrom_eq_nil]
      exact .value path value value' span _
    | missing error rest whole hused =>
      rw [hused.statementsFrom_eq_nil]
      exact .nil _

/-! ### Errors -/

/-- Whether an error says that there were too many tokens. -/
def ParseError.isExcess (error : ParseError) : Bool :=
  error.fault.code = "TOKEN_LIMIT"

/-- A step that does not fail for an excess of tokens. -/
def FailsWithoutExcess {α : Type} (step : Except Failure α) : Prop :=
  ∀ error rest, step = .error (error, rest) → error.isExcess = false

section Errors

variable {α β : Type}

theorem failsWithoutExcess_ok (value : α) : FailsWithoutExcess (.ok value) := by
  rintro error rest ⟨⟩

theorem failsWithoutExcess_error {error : ParseError} (h : error.isExcess = false)
    (rest : List Token) : FailsWithoutExcess (.error (error, rest) : Except Failure α) := by
  rintro other behind ⟨⟩
  exact h

/-- Steps one after the other have no other errors than each of them. -/
theorem FailsWithoutExcess.bind {step : Except Failure α} {next : α → Except Failure β}
    (h : FailsWithoutExcess step) (hnext : ∀ value, FailsWithoutExcess (next value)) :
    FailsWithoutExcess (step >>= next) := by
  cases step with
  | error failure =>
    intro error rest heq
    exact h error rest (by cases heq; rfl)
  | ok value => exact hnext value

variable (tokens : List Token)

theorem failsWithoutExcess_takeNames : FailsWithoutExcess (takeNames tokens) := by
  fun_induction takeNames tokens with
  | case1 dot dotSpan name text span rest ih =>
    exact ih.bind fun taken => failsWithoutExcess_ok _
  | case2 dot dotSpan rest hname => exact failsWithoutExcess_error rfl _
  | case3 tokens _ hdot => exact failsWithoutExcess_ok _

theorem failsWithoutExcess_takePath : FailsWithoutExcess (takePath tokens) := by
  refine FailsWithoutExcess.bind ?_ fun first => ?_
  · unfold takeName
    split
    · exact failsWithoutExcess_ok _
    · exact failsWithoutExcess_error rfl _
  · exact (failsWithoutExcess_takeNames first.2).bind fun names => failsWithoutExcess_ok _

theorem failsWithoutExcess_takeStatement : FailsWithoutExcess (takeStatement tokens) := by
  refine (failsWithoutExcess_takePath tokens).bind fun path => ?_
  refine FailsWithoutExcess.bind ?_ fun rest => ?_
  · unfold takeColon
    split
    · exact failsWithoutExcess_ok _
    · exact failsWithoutExcess_error rfl _
  · refine FailsWithoutExcess.bind ?_ fun value => failsWithoutExcess_ok _
    unfold takeValue
    split
    case h_9 => exact failsWithoutExcess_error rfl _
    all_goals exact failsWithoutExcess_ok _

theorem isExcess_of_mem_takeSemicolon {path : List String} {error : ParseError}
    (h : (takeSemicolon path tokens).1 = some error) : error.isExcess = false := by
  unfold takeSemicolon at h
  split at h
  · cases h
  · split at h
    · cases h
    · obtain rfl := Option.some.inj h
      rfl

theorem isExcess_of_mem_nextRound {error : ParseError}
    (h : (nextRound tokens).error = some error) : error.isExcess = false := by
  rw [nextRound] at h
  cases htake : takeStatement tokens with
  | error failure =>
    rw [htake] at h
    obtain rfl := Option.some.inj h
    exact failsWithoutExcess_takeStatement tokens _ _ htake
  | ok taken =>
    obtain ⟨statement, missing, rest⟩ := taken
    rw [htake] at h
    obtain ⟨_, _, last, _, _, _, hsemicolon, _⟩ := takeStatement_eq_ok htake
    exact isExcess_of_mem_takeSemicolon last ((congrArg Prod.fst hsemicolon).trans h)

/-- **No error of a statement** is about the number of tokens. -/
theorem isExcess_of_mem_statementsFrom {error : ParseError}
    (h : error ∈ (statementsFrom tokens).2) : error.isExcess = false := by
  fun_induction statementsFrom tokens with
  | case1 tokens hend => exact absurd h List.not_mem_nil
  | case2 tokens hend round statements errors hmore ih =>
    rw [hmore] at ih
    rcases List.mem_append.1 h with h | h
    · exact isExcess_of_mem_nextRound tokens (Option.mem_toList.1 h)
    · exact ih h

end Errors

/-! ### Whole documents -/

section Documents

variable {limit : Nat} {source : String}

/-- Tokens that are cut off anywhere, comments among them. -/
theorem parseTokens_cut (place : Position) (front back : List Token) :
    FirstOf (parseTokens (front ++ [Token.endAt place])).1.statements
        (parseTokens (front ++ back)).1.statements ∧
      (parseTokens (front ++ [Token.endAt place])).1.comments <+:
        (parseTokens (front ++ back)).1.comments := by
  constructor
  · rw [parseTokens, parseTokens, List.filter_append, List.filter_append]
    exact statementsFrom_cut place _ _
  · have hcut : (parseTokens (front ++ [Token.endAt place])).1.comments =
        front.filterMap Token.comment? := by
      rw [parseTokens, List.filterMap_append]
      exact List.append_nil _
    have hwhole : (parseTokens (front ++ back)).1.comments =
        front.filterMap Token.comment? ++ back.filterMap Token.comment? :=
      List.filterMap_append
    rw [hcut, hwhole]
    exact List.prefix_append _ _

/-- Without a token too many, all of them are parsed. -/
theorem parseWithLimit_of_le (h : (tokensFrom Position.start source.toList).length ≤ limit) :
    let tokens := tokensFrom Position.start source.toList ++
      [Token.endAt (Position.start.advance source.toList)]
    (parseWithLimit limit source).document = (parseTokens tokens).1 ∧
      (parseWithLimit limit source).errors = (parseTokens tokens).2 := by
  rw [parseWithLimit, tokenize_eq_cut, cutTokens, List.getElem?_eq_none h]
  exact ⟨rfl, List.append_nil _⟩

/-- With more tokens than the limit, only so many are parsed, and one more error says so. -/
theorem parseWithLimit_of_lt (h : limit < (tokensFrom Position.start source.toList).length) :
    ∃ place excess,
      let tokens := (tokensFrom Position.start source.toList).take limit ++ [Token.endAt place]
      (parseWithLimit limit source).document = (parseTokens tokens).1 ∧
        (parseWithLimit limit source).errors = (parseTokens tokens).2 ++ [excess] ∧
        excess.fault = .tokenLimit limit := by
  rw [parseWithLimit, tokenize_eq_cut, cutTokens, List.getElem?_eq_getElem h]
  exact ⟨_, _, rfl, rfl, rfl⟩

end Documents

/-- **A limit keeps the front of a document.** Of a document with more tokens than the limit, the
last error and no other says so, and without more no error does. The comments are the first of
those of the whole document, so are the statements but perhaps the last, and the last has the path
and the span of the statement that stands there in the whole document. -/
theorem parseWithLimit_cut {source : String} {limit full : Nat}
    (hfull : (tokensFrom Position.start source.toList).length ≤ full) :
    let count := (tokensFrom Position.start source.toList).length
    let cut := parseWithLimit limit source
    let whole := parseWithLimit full source
    (limit < count → ∃ errors excess, cut.errors = errors ++ [excess] ∧
        excess.fault = .tokenLimit limit ∧ excess.isExcess = true ∧
        ∀ error ∈ errors, error.isExcess = false) ∧
      (count ≤ limit → ∀ error ∈ cut.errors, error.isExcess = false) ∧
      cut.document.comments <+: whole.document.comments ∧
      cut.document.statements.dropLast <+: whole.document.statements ∧
      cut.document.statements.map Statement.target <+:
        whole.document.statements.map Statement.target := by
  intro count cut whole
  obtain ⟨hwhole, -⟩ := parseWithLimit_of_le hfull
  rcases Nat.lt_or_ge limit count with hlt | hge
  · obtain ⟨place, excess, hcut, herrors, hexcess⟩ := parseWithLimit_of_lt hlt
    -- the tokens within the limit are the front of all tokens
    obtain ⟨hfirst, hcomments⟩ := parseTokens_cut place
      ((tokensFrom Position.start source.toList).take limit)
      ((tokensFrom Position.start source.toList).drop limit ++
        [Token.endAt (Position.start.advance source.toList)])
    rw [← List.append_assoc, List.take_append_drop, ← hwhole, ← hcut] at hfirst hcomments
    refine ⟨fun _ => ⟨_, excess, herrors, hexcess, ?_, fun error => ?_⟩, fun hge => ?_, hcomments,
      hfirst.dropLast_prefix, hfirst.map_target_prefix⟩
    · rw [ParseError.isExcess, hexcess]
      rfl
    · exact isExcess_of_mem_statementsFrom _
    · omega
  · obtain ⟨hcut, herrors⟩ := parseWithLimit_of_le hge
    have hsame : cut.document = whole.document := hcut.trans hwhole.symm
    rw [hsame]
    refine ⟨fun hlt => ?_, fun _ error herror => ?_, List.prefix_rfl, List.dropLast_prefix _,
      List.prefix_rfl⟩
    · omega
    · rw [herrors] at herror
      exact isExcess_of_mem_statementsFrom _ herror

/-- A limit that ends a document inside a path of its data, where the value is another. -/
theorem parseWithLimit_cut_inside :
    let source := "a: 1; # one\nmap.x: $.rows.y; b: 2;"
    let cut := parseWithLimit 11 source
    let whole := parseWithLimit 19 source
    (tokensFrom Position.start source.toList).length ≤ 19 ∧
      (∃ errors excess, cut.errors = errors ++ [excess] ∧ excess.fault = .tokenLimit 11 ∧
        excess.isExcess = true ∧ ∀ error ∈ errors, error.isExcess = false) ∧
      cut.document.comments <+: whole.document.comments ∧
      cut.document.statements.dropLast <+: whole.document.statements ∧
      cut.document.statements.map Statement.target <+:
        whole.document.statements.map Statement.target ∧
      cut.document.statements.length = 2 ∧
      ¬ cut.document.statements <+: whole.document.statements := by
  intro source cut whole
  have hfull : (tokensFrom Position.start source.toList).length ≤ 19 := by decide +kernel
  have hmore : 11 < (tokensFrom Position.start source.toList).length := by decide +kernel
  obtain ⟨hexcess, -, hcomments, hfirst, htargets⟩ := @parseWithLimit_cut source 11 19 hfull
  refine ⟨hfull, hexcess hmore, hcomments, hfirst, htargets, by decide +kernel, fun hprefix => ?_⟩
  have htexts := hprefix.map fun statement => statement.value.toValue.string?
  exact absurd htexts (by decide +kernel)

end ChartSchema
