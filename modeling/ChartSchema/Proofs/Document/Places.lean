import Mathlib.Data.List.Forall2
import Mathlib.Data.PFun
import ChartSchema.Proofs.Document.Progress

/-!
# Parsing with a place in the tokens

A document can be parsed with nothing but a place in its tokens: a **walk** looks up the token at
its place, goes on to the next one, and repeats its loops for as long as it sees reason to. Nothing
in it says that the token is there or that a loop ever ends, so the results of walks are partial: a
walk that looks behind the last token or goes on for ever has none.

On tokens that have an end (`withEnd`) every walk has a result. The parser of lists and the walks
are compared step by step: `placeOf` is the place where what is left of the tokens starts, and what
stands from that place on is what a step of the parser is given. The walk then gives what the step
gives and stops where the step leaves off (`outcome`), for no step takes the end. A walk is composed
as its step is (`bind_at`), and for a loop the induction is over the tokens that are left, since
each round but the last goes on by at least one. So there is one lemma for each walk, named after
it, from `name_at` to `statement_at`, and `found_at` for the loop over statements.

The main statement, `parseByPlaces_ends`, is that a walk over a document always stops at the first
end of the input, and what it has found by then: the statements and the errors of the parser, no
more of them than the tokens before the end pay for, each statement behind the one before.
-/

namespace ChartSchema

/-! ### Walks -/

/-- A walk over tokens: a value or an error, and the place where it stops. -/
abbrev Walk (α : Type) := ExceptT ParseError (StateT Nat Part) α

namespace Walk

/-- Repeats a round, each time with what it has left for the next one, until it gives a value. -/
def loop {α σ : Type} (round : σ → StateT Nat Part (α ⊕ σ)) (state : σ) : StateT Nat Part α :=
  fun place => PFun.fix (fun input : σ × Nat => (round input.1 input.2).map fun result =>
    result.1.map (fun value => (value, result.2)) fun next => (next, result.2)) (state, place)

section Parsing

variable (tokens : List Token)

/-- The token at the place. -/
def current : StateT Nat Part Token := fun place =>
  (Part.ofOption tokens[place]?).map fun token => (token, place)

/-- The kind of the token behind the one at the place, if there is one. -/
def kindBehind : StateT Nat Part (Option TokenKind) := fun place =>
  Part.some (tokens[place + 1]?.map Token.kind, place)

/-- Goes on to the next token, but never behind the end of the input. -/
def advance : StateT Nat Part Unit := do
  let token ← current tokens
  if token.kind = .endOfInput then return ()
  else modify (· + 1)

/-- Fails with what is wrong with the token at the place. -/
def fail {α : Type} (fault : Token → ParseFault) : Walk α := do
  let token ← current tokens
  throw ⟨fault token, token.span.line, token.span.column⟩

/-- A property name. -/
def name : Walk String := do
  match (← current tokens).kind with
  | .identifier name =>
    advance tokens
    return name
  | _ => fail tokens .expectedProperty

/-- A dot and the name behind it, if there is a dot. -/
def nextName (path : List String) :
    StateT Nat Part (Except ParseError (List String) ⊕ List String) := do
  if (← current tokens).kind = .dot then
    advance tokens
    match ← (name tokens).run with
    | .ok name => return .inr (path ++ [name])
    | .error error => return .inl (.error error)
  else return .inl (.ok path)

/-- A path. -/
def path : Walk (List String) := do
  let first ← name tokens
  ExceptT.mk (loop (nextName tokens) [first])

/-- The colon behind a path. -/
def colon (path : List String) : Walk Unit := do
  if (← current tokens).kind = .colon then advance tokens
  else fail tokens fun _ => .expectedColon path

/-- A dot and a name behind what has been read of a data path, if both are there. -/
def nextSegment (text : String) : StateT Nat Part (String ⊕ String) := do
  if (← current tokens).kind = .dot then
    match ← kindBehind tokens with
    | some (.identifier name) =>
      advance tokens
      advance tokens
      return .inr (text ++ "." ++ name)
    | _ => return .inl text
  else return .inl text

/-- The data path that a variable is the root of. -/
def dataPath (root : String) : StateT Nat Part String :=
  loop (nextSegment tokens) root

/-- One more token of a call, behind the arguments that it has. -/
def nextArgument (args : List Written) :
    StateT Nat Part (List Written ⊕ List Written) := do
  let kind := (← current tokens).kind
  if kind = .rightParen then
    advance tokens
    return .inl args
  else if kind = .semicolon ∨ kind = .endOfInput then return .inl args
  else
    advance tokens
    return .inr (args ++ kind.argument?.toList)

/-- The arguments of a call. -/
def arguments : StateT Nat Part (List Written) :=
  loop (nextArgument tokens) []

/-- A value. -/
def value : Walk Written := do
  match (← current tokens).kind with
  | .identifier name =>
    advance tokens
    if (← current tokens).kind = .leftParen then
      advance tokens
      return .call name (← arguments tokens)
    else return .identifier name
  | .string text =>
    advance tokens
    return .string text
  | .number value =>
    advance tokens
    return .number value
  | .boolean value =>
    advance tokens
    return .boolean value
  | .variable root =>
    advance tokens
    if (← current tokens).kind = .dot then return .dataPath (← dataPath tokens root)
    else return .variable root
  | .interpolation expression =>
    advance tokens
    return .interpolation expression
  | _ => fail tokens .expectedValue

/-- The semicolon behind the value of a path, or what is wrong without it. -/
def semicolon (path : List String) : StateT Nat Part (Option ParseError) := do
  let token ← current tokens
  if token.kind = .semicolon then
    advance tokens
    return none
  else if token.kind = .endOfInput then return none
  else return some ⟨.expectedSemicolon path, token.span.line, token.span.column⟩

/-- A statement, with the error of a missing semicolon if there is one. -/
def statement : Walk (Statement × Option ParseError) := do
  let first ← current tokens
  let path ← path tokens
  colon tokens path
  let value ← value tokens
  let error ← semicolon tokens path
  return (⟨path, value, first.span⟩, error)

/-- One more token of a statement that is skipped, up to its semicolon or the end of the input. -/
def nextSkipped (_ : Unit) : StateT Nat Part (Unit ⊕ Unit) := do
  let kind := (← current tokens).kind
  if kind = .endOfInput then return .inl ()
  else
    advance tokens
    return if kind = .semicolon then .inl () else .inr ()

/-- Goes on behind the next semicolon, or to the end of the input. -/
def skip : StateT Nat Part Unit :=
  loop (nextSkipped tokens) ()

/-- One more statement or error behind those that have been found, unless the input ends. -/
def nextFound (found : List Statement × List ParseError) :
    StateT Nat Part
      ((List Statement × List ParseError) ⊕ (List Statement × List ParseError)) := do
  if (← current tokens).kind = .endOfInput then return .inl found
  else
    match ← (statement tokens).run with
    | .ok taken => return .inr (found.1 ++ [taken.1], found.2 ++ taken.2.toList)
    | .error error =>
      skip tokens
      return .inr (found.1, found.2 ++ [error])

end Parsing

end Walk

/-- Tokens with the end of the input behind them, if it is not the last of them. -/
def withEnd (tokens : List Token) : List Token :=
  if tokens.getLast?.map Token.kind = some .endOfInput then tokens
  else tokens ++ [Token.endAt Position.start]

/-- The document that tokens form and its errors, found by a walk, and the place where the walk
stops. -/
def parseByPlaces (tokens : List Token) : Part ((Document × List ParseError) × Nat) :=
  let content := withEnd (tokens.filter fun token => token.comment?.isNone)
  (Walk.loop (Walk.nextFound content) ([], []) 0).map fun walked =>
    ((⟨walked.1.1, tokens.filterMap Token.comment?⟩, walked.1.2), walked.2)

/-! ### Places -/

/-- The place in some tokens of what is left of them. -/
def placeOf (tokens rest : List Token) : Nat :=
  tokens.length - rest.length

section Places

variable {tokens rest : List Token} {token : Token}

/-- A token that is not the end is gone as well. -/
theorem Spends.tail (h : Spends 0 tokens (token :: rest)) (hkind : token.kind ≠ .endOfInput) :
    Spends 0 tokens rest :=
  (h.trans ((Spends.refl rest).cons hkind)).mono (Nat.zero_le _)

theorem placeOf_append (taken rest : List Token) : placeOf (taken ++ rest) rest = taken.length := by
  rw [placeOf, List.length_append, Nat.add_sub_cancel]

/-- Behind one more token the place is the next one. -/
theorem placeOf_tail (h : Spends 0 tokens (token :: rest)) :
    placeOf tokens rest = placeOf tokens (token :: rest) + 1 := by
  obtain ⟨taken, rfl, -⟩ := h
  rw [placeOf_append, List.append_cons, placeOf_append, List.length_append, List.length_singleton]

/-- Where nothing but the end is left, all the tokens before it are gone. -/
theorem placeOf_of_atEnd (h : Spends 0 tokens rest) (hend : atEnd rest = true) :
    placeOf tokens rest = (beforeEnd tokens).length := by
  obtain ⟨taken, rfl, -, hpassed⟩ := h
  rw [placeOf_append, beforeEnd_append hpassed, beforeEnd_of_atEnd hend, List.append_nil]

/-- Where a walk stands, there is a token: the first of what is left. -/
theorem getElem?_placeOf (h : Spends 0 tokens rest) :
    (withEnd tokens)[placeOf tokens rest]? = some (frontToken rest) := by
  obtain ⟨taken, rfl, -, hpassed⟩ := h
  rw [placeOf_append]
  cases rest with
  | cons token rest =>
    have hat : (taken ++ token :: rest)[taken.length]? = some token := by simp
    rw [withEnd]
    split
    · exact hat
    · rw [List.getElem?_append_left (by simp)]
      exact hat
  | nil =>
    have hopen : (taken ++ []).getLast?.map Token.kind ≠ some .endOfInput := by
      rw [List.append_nil]
      intro hlast
      obtain ⟨last, hlast, hkind⟩ := Option.map_eq_some_iff.1 hlast
      exact hpassed last (List.mem_of_getLast? hlast) hkind
    rw [withEnd, if_neg hopen]
    simp [frontToken]

end Places

namespace Walk

/-! ### Runs of walks -/

section Runs

variable {α β σ : Type} {place behind : Nat} {result : α}

/-- A walk goes on from where its first step has come. -/
theorem bind_step {step : StateT Nat Part α} {next : α → StateT Nat Part β}
    (h : step place = Part.some (result, behind)) : (step >>= next) place = next result behind := by
  simp only [bind, StateT.bind, h]
  exact Part.bind_some _ _

theorem bind_ok {walk : Walk α} {next : α → Walk β}
    (h : walk place = Part.some (.ok result, behind)) :
    (walk >>= next) place = next result behind :=
  bind_step h

theorem bind_error {walk : Walk α} {next : α → Walk β} {error : ParseError}
    (h : walk place = Part.some (.error error, behind)) :
    (walk >>= next) place = Part.some (.error error, behind) :=
  bind_step h

/-- A step that cannot fail, as one that might. -/
theorem lift_eq {step : StateT Nat Part α} (h : step place = Part.some (result, behind)) :
    (liftM step : Walk α) place = Part.some (.ok result, behind) := by
  simp only [liftM, monadLift, MonadLift.monadLift, ExceptT.lift, ExceptT.mk, Functor.map,
    StateT.map, h]
  exact Part.bind_some _ _

variable {round : σ → StateT Nat Part (α ⊕ σ)} {state next : σ}

/-- A loop ends with the value that a round gives. -/
theorem loop_stop (h : round state place = Part.some (.inl result, behind)) :
    loop round state place = Part.some (result, behind) := by
  refine Part.eq_some_iff.2 (PFun.fix_stop ?_)
  rw [h, Part.map_some]
  exact Part.mem_some _

/-- A loop goes on with what a round leaves. -/
theorem loop_next (h : round state place = Part.some (.inr next, behind)) :
    loop round state place = loop round next behind := by
  refine PFun.fix_fwd_eq ?_
  rw [h, Part.map_some]
  exact Part.mem_some _

end Runs

/-- What a walk over some tokens gives where a step has a result on what is left of them. -/
def outcome {α σ : Type} (tokens : List Token) (value : σ → α) (left : σ → List Token) :
    Except Failure σ → Part (Except ParseError α × Nat)
  | .ok taken => Part.some (.ok (value taken), placeOf tokens (left taken))
  | .error failure => Part.some (.error failure.1, placeOf tokens failure.2)

section Agreement

variable {α β σ τ : Type} {count : Nat} {tokens rest : List Token} {token : Token}

/-- **Walks are composed as steps are.** The first step may cost something, which only has to be
more than nothing where a loop goes on. -/
theorem bind_at {walk : Walk α} {next : α → Walk β} {step : Except Failure σ}
    {after : σ → Except Failure τ} {value : σ → α} {left : σ → List Token} {value' : τ → β}
    {left' : τ → List Token} (h : Spends 0 tokens rest)
    (hwalk : walk (placeOf tokens rest) = outcome tokens value left step)
    (hcosts : Costs count left rest step)
    (hnext : ∀ taken, Spends 0 tokens (left taken) →
      next (value taken) (placeOf tokens (left taken)) =
        outcome tokens value' left' (after taken)) :
    (walk >>= next) (placeOf tokens rest) = outcome tokens value' left' (step >>= after) := by
  cases step with
  | error failure => exact bind_error hwalk
  | ok taken =>
    rw [bind_ok hwalk]
    exact hnext taken ((h.trans hcosts).mono (Nat.zero_le _))

/-! ### Steps of walks -/

/-- A walk sees the front of what is left, which is the end where nothing is. -/
theorem current_at (h : Spends 0 tokens rest) :
    current (withEnd tokens) (placeOf tokens rest) =
      Part.some (frontToken rest, placeOf tokens rest) := by
  rw [current, getElem?_placeOf h]
  exact Part.map_some _ _

theorem front_at (h : Spends 0 tokens (token :: rest)) :
    current (withEnd tokens) (placeOf tokens (token :: rest)) =
      Part.some (token, placeOf tokens (token :: rest)) :=
  current_at h

/-- A walk goes on behind a token that is not the end. -/
theorem advance_at (h : Spends 0 tokens (token :: rest)) (hkind : token.kind ≠ .endOfInput) :
    advance (withEnd tokens) (placeOf tokens (token :: rest)) =
      Part.some ((), placeOf tokens rest) := by
  rw [advance, bind_step (front_at h), if_neg hkind, placeOf_tail h]
  rfl

/-- A walk sees the token behind the next one. -/
theorem kindBehind_at (h : Spends 0 tokens (token :: rest)) (hkind : token.kind ≠ .endOfInput) :
    kindBehind (withEnd tokens) (placeOf tokens (token :: rest)) =
      Part.some (some (frontToken rest).kind, placeOf tokens (token :: rest)) := by
  rw [kindBehind, ← placeOf_tail h, getElem?_placeOf (h.tail hkind), Option.map_some]

/-- A walk fails at its token, as a step does. -/
theorem fail_at (h : Spends 0 tokens rest) (fault : Token → ParseFault) :
    (fail (withEnd tokens) fault : Walk α) (placeOf tokens rest) =
      Part.some (.error (faultAt rest (fault (frontToken rest))), placeOf tokens rest) := by
  rw [fail, bind_ok (lift_eq (current_at h))]
  rfl

theorem name_at (h : Spends 0 tokens rest) : name (withEnd tokens) (placeOf tokens rest) =
    outcome tokens Prod.fst Prod.snd (takeName rest) := by
  rw [name, bind_ok (lift_eq (current_at h))]
  rcases rest with _ | ⟨⟨kind, text, span⟩, more⟩
  · exact fail_at h .expectedProperty
  · cases kind with
    | identifier name => exact bind_ok (lift_eq (advance_at h TokenKind.noConfusion))
    | _ => exact fail_at h .expectedProperty

/-- The loop over further names gives what the recursion over them gives, behind the names that
there are. -/
theorem names_at (h : Spends 0 tokens rest) (path : List String) :
    loop (nextName (withEnd tokens)) path (placeOf tokens rest) =
      outcome tokens (fun taken => path ++ taken.1) Prod.snd (takeNames rest) := by
  -- the loop has the path so far, which the step only puts together behind it: so for every path
  fun_induction takeNames rest generalizing path with
  | case1 dot dotSpan name text span rest ih =>
    have hname := h.tail TokenKind.noConfusion
    have hround : nextName (withEnd tokens) path
          (placeOf tokens (⟨.dot, dot, dotSpan⟩ :: ⟨.identifier name, text, span⟩ :: rest)) =
        Part.some (.inr (path ++ [name]), placeOf tokens rest) := by
      rw [nextName, bind_step (front_at h), if_pos rfl,
        bind_step (advance_at h TokenKind.noConfusion)]
      exact bind_step (name_at hname)
    rw [loop_next hround, ih (hname.tail TokenKind.noConfusion)]
    cases takeNames rest with
    | error failure => rfl
    | ok taken => simp [outcome, bind, Except.bind]
  | case2 dot dotSpan rest hname =>
    have hmissing := h.tail TokenKind.noConfusion
    refine loop_stop ?_
    rw [nextName, bind_step (front_at h), if_pos rfl,
      bind_step (advance_at h TokenKind.noConfusion)]
    rcases rest with _ | ⟨⟨kind, text, span⟩, more⟩
    · exact bind_step (name_at hmissing)
    · cases kind with
      | identifier name => exact absurd rfl (hname name text span more)
      | _ => exact bind_step (name_at hmissing)
  | case3 rest _ hdot =>
    have hfront : ¬ (frontToken rest).kind = .dot := by
      rcases rest with _ | ⟨⟨kind, text, span⟩, more⟩
      · exact TokenKind.noConfusion
      · rintro rfl
        exact hdot text span more rfl
    rw [outcome, List.append_nil]
    refine loop_stop ?_
    rw [nextName, bind_step (current_at h), if_neg hfront]
    rfl

theorem path_at (h : Spends 0 tokens rest) : path (withEnd tokens) (placeOf tokens rest) =
    outcome tokens Prod.fst Prod.snd (takePath rest) := by
  rw [path, takePath]
  refine bind_at h (name_at h) (costs_takeName rest) fun first hfirst => ?_
  obtain ⟨first, behind⟩ := first
  refine (names_at hfirst [first]).trans ?_
  change outcome tokens _ _ (takeNames behind) = outcome tokens _ _ (takeNames behind >>= _)
  cases takeNames behind <;> rfl

theorem colon_at (h : Spends 0 tokens rest) (path : List String) :
    colon (withEnd tokens) path (placeOf tokens rest) =
      outcome tokens (fun _ => ()) id (takeColon path rest) := by
  rw [colon, bind_ok (lift_eq (current_at h))]
  rcases rest with _ | ⟨⟨kind, text, span⟩, more⟩
  · exact fail_at h fun _ => .expectedColon path
  · cases kind with
    | colon => exact lift_eq (advance_at h TokenKind.noConfusion)
    | _ => exact fail_at h fun _ => .expectedColon path

/-- The loop over the names of a data path adds them to the text one by one. -/
theorem segments_at (h : Spends 0 tokens rest) (text : String) :
    loop (nextSegment (withEnd tokens)) text (placeOf tokens rest) =
      Part.some ((takeDataPath rest).1.foldl (fun text name => text ++ "." ++ name) text,
        placeOf tokens (takeDataPath rest).2) := by
  fun_induction takeDataPath rest generalizing text with
  | case1 dot dotSpan name word span rest names behind hbehind ih =>
    have hname := h.tail TokenKind.noConfusion
    have hround : nextSegment (withEnd tokens) text
          (placeOf tokens (⟨.dot, dot, dotSpan⟩ :: ⟨.identifier name, word, span⟩ :: rest)) =
        Part.some (.inr (text ++ "." ++ name), placeOf tokens rest) := by
      rw [nextSegment, bind_step (front_at h), if_pos rfl,
        bind_step (kindBehind_at h TokenKind.noConfusion)]
      refine (bind_step (advance_at h TokenKind.noConfusion)).trans ?_
      exact bind_step (advance_at hname TokenKind.noConfusion)
    rw [loop_next hround, ih (hname.tail TokenKind.noConfusion), hbehind]
    rfl
  | case2 rest hpair =>
    refine loop_stop ?_
    rw [nextSegment, bind_step (current_at h)]
    rcases rest with _ | ⟨⟨kind, dot, dotSpan⟩, more⟩
    · rfl
    · cases kind with
      | dot =>
        refine (bind_step (kindBehind_at h TokenKind.noConfusion)).trans ?_
        rcases more with _ | ⟨⟨kind, word, span⟩, rest⟩
        · rfl
        · cases kind with
          | identifier name => exact absurd rfl (hpair dot dotSpan name word span rest)
          | _ => rfl
      | _ => rfl

/-- The loop over the tokens of a call collects its arguments. -/
theorem arguments_at (h : Spends 0 tokens rest) (args : List Written) :
    loop (nextArgument (withEnd tokens)) args (placeOf tokens rest) =
      Part.some (args ++ (takeArguments rest).1, placeOf tokens (takeArguments rest).2) := by
  induction rest generalizing args with
  | nil =>
    rw [takeArguments, List.append_nil]
    exact loop_stop (bind_step (current_at h))
  | cons token rest ih =>
    obtain ⟨kind, text, span⟩ := token
    cases kind with
    | semicolon | endOfInput =>
      rw [takeArguments, List.append_nil]
      exact loop_stop (bind_step (front_at h))
    | rightParen =>
      rw [takeArguments, List.append_nil]
      refine loop_stop ((bind_step (front_at h)).trans ?_)
      exact bind_step (advance_at h TokenKind.noConfusion)
    | _ =>
      refine (loop_next ((bind_step (front_at h)).trans
        (bind_step (advance_at h TokenKind.noConfusion)))).trans ?_
      refine (ih (h.tail TokenKind.noConfusion) _).trans ?_
      simp [takeArguments, TokenKind.argument?]

theorem value_at (h : Spends 0 tokens rest) : value (withEnd tokens) (placeOf tokens rest) =
    outcome tokens Prod.fst Prod.snd (takeValue rest) := by
  rw [value, bind_ok (lift_eq (current_at h))]
  rcases rest with _ | ⟨⟨kind, text, span⟩, more⟩
  · exact fail_at h .expectedValue
  · cases kind with
    | string | number | boolean | interpolation =>
      exact bind_ok (lift_eq (advance_at h TokenKind.noConfusion))
    | identifier name =>
      have hmore := h.tail TokenKind.noConfusion
      refine (bind_ok (lift_eq (advance_at h TokenKind.noConfusion))).trans ?_
      refine (bind_ok (lift_eq (current_at hmore))).trans ?_
      rcases more with _ | ⟨⟨kind, paren, parenSpan⟩, rest⟩
      · rfl
      · cases kind with
        | leftParen =>
          have hrest := hmore.tail TokenKind.noConfusion
          refine (bind_ok (lift_eq (advance_at hmore TokenKind.noConfusion))).trans ?_
          exact bind_ok (lift_eq (arguments_at hrest []))
        | _ => rfl
    | «variable» root =>
      have hmore := h.tail TokenKind.noConfusion
      refine (bind_ok (lift_eq (advance_at h TokenKind.noConfusion))).trans ?_
      refine (bind_ok (lift_eq (current_at hmore))).trans ?_
      rcases more with _ | ⟨⟨kind, dot, dotSpan⟩, rest⟩
      · rfl
      · cases kind with
        | dot =>
          -- the walk appends the names one by one, the step joins them all at once
          refine (bind_ok (lift_eq (segments_at hmore root))).trans ?_
          rw [takeValue, ← intercalate_dots]
          rfl
        | _ => rfl
    | _ => exact fail_at h .expectedValue

theorem semicolon_at (h : Spends 0 tokens rest) (path : List String) :
    semicolon (withEnd tokens) path (placeOf tokens rest) =
      Part.some ((takeSemicolon path rest).1, placeOf tokens (takeSemicolon path rest).2) := by
  rw [semicolon, bind_step (current_at h)]
  rcases rest with _ | ⟨⟨kind, text, span⟩, more⟩
  · rfl
  · cases kind with
    | semicolon => exact bind_step (advance_at h TokenKind.noConfusion)
    | _ => rfl

/-- **A walk over a statement** gives what taking one gives. -/
theorem statement_at (h : Spends 0 tokens rest) :
    statement (withEnd tokens) (placeOf tokens rest) =
      outcome tokens (fun taken => (taken.1, taken.2.1)) (fun taken => taken.2.2)
        (takeStatement rest) := by
  rw [statement, bind_ok (lift_eq (current_at h)), takeStatement]
  refine bind_at h (path_at h) (costs_takePath rest) fun path hpath => ?_
  refine bind_at hpath (colon_at hpath path.1) (costs_takeColon path.2 path.1)
    fun behind hbehind => ?_
  refine bind_at hbehind (value_at hbehind) (costs_takeValue behind) fun value hvalue => ?_
  exact bind_ok (lift_eq (semicolon_at hvalue path.1))

/-- A walk skips as far as the parser does. -/
theorem skip_at (h : Spends 0 tokens rest) :
    skip (withEnd tokens) (placeOf tokens rest) =
      Part.some ((), placeOf tokens (skipStatement rest)) := by
  induction rest with
  | nil => exact loop_stop (bind_step (current_at h))
  | cons token rest ih =>
    obtain ⟨kind, text, span⟩ := token
    cases kind with
    | endOfInput => exact loop_stop (bind_step (front_at h))
    | semicolon =>
      refine loop_stop ((bind_step (front_at h)).trans ?_)
      exact bind_step (advance_at h TokenKind.noConfusion)
    | _ =>
      refine (loop_next ((bind_step (front_at h)).trans
        (bind_step (advance_at h TokenKind.noConfusion)))).trans ?_
      exact ih (h.tail TokenKind.noConfusion)

/-- A walk over some tokens finds the statements and the errors of what is left, and stops where
they end. -/
theorem found_at (h : Spends 0 tokens rest) (found : List Statement × List ParseError) :
    loop (nextFound (withEnd tokens)) found (placeOf tokens rest) =
      Part.some ((found.1 ++ (statementsFrom rest).1, found.2 ++ (statementsFrom rest).2),
        (beforeEnd tokens).length) := by
  fun_induction statementsFrom rest generalizing found with
  | case1 rest hend =>
    have hkind : (frontToken rest).kind = .endOfInput := of_decide_eq_true hend
    rw [← placeOf_of_atEnd h hend, List.append_nil, List.append_nil]
    refine loop_stop ?_
    rw [nextFound, bind_step (current_at h), if_pos hkind]
    rfl
  | case2 rest hend round more further hmore ih =>
    have hfront : atEnd rest = false := Bool.eq_false_iff.2 hend
    have hkind : ¬ (frontToken rest).kind = .endOfInput := of_decide_eq_false hfront
    have hleft : Spends 0 tokens round.rest :=
      (h.trans (nextRound_spends hfront)).mono (Nat.zero_le _)
    have hround : nextFound (withEnd tokens) found (placeOf tokens rest) =
        Part.some (.inr (found.1 ++ round.statement.toList, found.2 ++ round.error.toList),
          placeOf tokens round.rest) := by
      have hstatement := statement_at h
      have hcosts := costs_takeStatement rest
      rw [nextFound, bind_step (current_at h), if_neg hkind]
      cases htake : takeStatement rest with
      | ok taken =>
        rw [htake] at hstatement
        refine (bind_step hstatement).trans ?_
        simp only [round, nextRound, htake]
        rfl
      -- the walk skips on from where the statement failed, not from where it started
      | error failure =>
        rw [htake] at hstatement hcosts
        refine (bind_step hstatement).trans ?_
        refine (bind_step (skip_at (h.trans hcosts))).trans ?_
        simp only [round, nextRound, htake, Option.toList_none, List.append_nil]
        rfl
    rw [loop_next hround, ih hleft, hmore]
    simp

end Agreement

end Walk

/-! ### Whole documents -/

theorem exists_withEnd_eq (tokens : List Token) : ∃ more, withEnd tokens = tokens ++ more := by
  rw [withEnd]
  split
  · exact ⟨[], (List.append_nil _).symm⟩
  · exact ⟨_, rfl⟩

theorem Statement.StartsAt.append {tokens : List Token} {statement : Statement} {place : Nat}
    (h : statement.StartsAt tokens place) (more : List Token) :
    statement.StartsAt (tokens ++ more) place := by
  obtain ⟨name, text, hplace, hname⟩ := h
  obtain ⟨hlt, -⟩ := List.getElem?_eq_some_iff.1 hplace
  exact ⟨name, text, (List.getElem?_append_left hlt).trans hplace, hname⟩

/-- Behind the tokens before the end nothing is left but the end. -/
theorem exists_beforeEnd_append (tokens : List Token) : ∃ rest, tokens = beforeEnd tokens ++ rest ∧
    atEnd rest = true ∧ ∀ token ∈ beforeEnd tokens, token.kind ≠ .endOfInput := by
  induction tokens with
  | nil => exact ⟨[], rfl, rfl, fun _ hmem => absurd hmem List.not_mem_nil⟩
  | cons token tokens ih =>
    by_cases hkind : token.kind = .endOfInput
    · have hend : atEnd (token :: tokens) = true := decide_eq_true hkind
      rw [beforeEnd_of_atEnd hend]
      exact ⟨token :: tokens, rfl, hend, fun _ hmem => absurd hmem List.not_mem_nil⟩
    · obtain ⟨rest, htokens, hend, hpassed⟩ := ih
      have hfront : beforeEnd (token :: tokens) = token :: beforeEnd tokens :=
        List.takeWhile_cons_of_pos (decide_eq_true hkind)
      rw [hfront]
      exact ⟨rest, congrArg (token :: ·) htokens, hend, List.forall_mem_cons.2 ⟨hkind, hpassed⟩⟩

/-- Comments can be left out before the end is looked for, or afterwards. -/
theorem beforeEnd_filter (tokens : List Token) :
    beforeEnd (tokens.filter fun token => !token.kind.isComment) =
      (beforeEnd tokens).filter fun token => !token.kind.isComment := by
  obtain ⟨rest, htokens, hend, hpassed⟩ := exists_beforeEnd_append tokens
  have hleft : atEnd (rest.filter fun token => !token.kind.isComment) = true := by
    cases rest with
    | nil => rfl
    | cons token rest =>
      have hkind : token.kind = .endOfInput := of_decide_eq_true hend
      rw [List.filter_cons_of_pos (by rw [hkind]; rfl)]
      exact hend
  conv_lhs => rw [htokens]
  rw [List.filter_append, beforeEnd_append, beforeEnd_of_atEnd hleft, List.append_nil]
  exact fun token hmem => hpassed token (List.mem_of_mem_filter hmem)

/-- The first end of the input stands behind the tokens before it, also where it has been added. -/
theorem kind_withEnd_beforeEnd (tokens : List Token) :
    (withEnd tokens)[(beforeEnd tokens).length]?.map Token.kind = some .endOfInput := by
  obtain ⟨rest, htokens, hend, hpassed⟩ := exists_beforeEnd_append tokens
  have hleft : Spends 0 tokens rest := ⟨_, htokens, Nat.zero_le _, hpassed⟩
  rw [← placeOf_of_atEnd hleft hend, getElem?_placeOf hleft]
  exact congrArg some (of_decide_eq_true hend)

theorem kind_withEnd_of_lt {tokens : List Token} {place : Nat}
    (h : place < (beforeEnd tokens).length) :
    (withEnd tokens)[place]?.map Token.kind ≠ some .endOfInput := by
  obtain ⟨more, hmore⟩ := exists_withEnd_eq tokens
  obtain ⟨rest, htokens, -, hpassed⟩ := exists_beforeEnd_append tokens
  have hwhole : withEnd tokens = beforeEnd tokens ++ (rest ++ more) := by
    rw [hmore, ← List.append_assoc, ← htokens]
  rw [hwhole, List.getElem?_append_left h]
  intro hkind
  obtain ⟨token, htoken, hkind⟩ := Option.map_eq_some_iff.1 hkind
  exact hpassed token (List.mem_of_getElem? htoken) hkind

/-- **Parsing always stops at the first end of the input**, which is there at the latest behind the
last token. The tokens before it, but for the comments, pay for twice the statements and for the
errors, and each statement starts at one of them behind the start of the one before. -/
theorem parseByPlaces_ends (tokens : List Token) :
    let content := withEnd (tokens.filter fun token => !token.kind.isComment)
    let count := ((beforeEnd tokens).filter fun token => !token.kind.isComment).length
    parseByPlaces tokens = Part.some (parseTokens tokens, count) ∧
      content[count]?.map Token.kind = some .endOfInput ∧
      (∀ place < count, content[place]?.map Token.kind ≠ some .endOfInput) ∧
      2 * (parseTokens tokens).1.statements.length + (parseTokens tokens).2.length ≤ count ∧
      ∃ places : List Nat, places.Pairwise (· < ·) ∧
        List.Forall₂ (fun statement place => place < count ∧ statement.StartsAt content place)
          (parseTokens tokens).1.statements places := by
  intro content count
  obtain ⟨written, hwritten⟩ :
      ∃ written, (tokens.filter fun token => !token.kind.isComment) = written := ⟨_, rfl⟩
  have hcount : count = (beforeEnd written).length := by rw [← hwritten, beforeEnd_filter]
  have hparsed : parseTokens tokens = (⟨(statementsFrom written).1,
      tokens.filterMap Token.comment?⟩, (statementsFrom written).2) := by
    rw [parseTokens, ← hwritten]
    simp only [comment?_isNone]
  simp only [content, hwritten, hcount, hparsed]
  refine ⟨?_, kind_withEnd_beforeEnd written, fun place => kind_withEnd_of_lt,
    statementsFrom_weight_le written, ?_⟩
  · have hwalk := Walk.found_at (Spends.refl written) ([], [])
    rw [placeOf, Nat.sub_self] at hwalk
    simp only [parseByPlaces, comment?_isNone, hwritten, hwalk]
    exact Part.map_some _ _
  · obtain ⟨more, hmore⟩ := exists_withEnd_eq written
    obtain ⟨places, hpairwise, -, hplaces⟩ := exists_starts [] written
    refine ⟨places, hpairwise, hplaces.imp fun statement place hstart => ⟨hstart.1, ?_⟩⟩
    rw [hmore]
    exact hstart.2.append more

end ChartSchema
