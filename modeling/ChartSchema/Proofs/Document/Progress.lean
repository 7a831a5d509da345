import Mathlib.Data.List.Basic
import ChartSchema.Proofs.Document.Grammar

/-!
# How far the parser comes

Every step of the parser takes tokens off the front, and the end of the input is never among them.
`Spends count` says this of the tokens before and behind a step, with the least number that is gone;
it composes (`Spends.trans`), and it is a statement about the tokens before the end, so that it can
be counted (`Spends.length_beforeEnd`).

A step that succeeds has such a number (`Costs`): one for a name, a colon or a value, and so three
for a statement (`costs_takeStatement`). A step that fails may take none, but then at least one
token is skipped before the parser goes on (`Spends.skip`). So every round pays for what it gives
(`nextRound_spends`): three tokens for a statement, two for itself and one for the semicolon that
may be missing, and one token for a statement that fails.

Two results follow by induction over the rounds. A run of them gives no more than the tokens before
the end pay for (`statementsFrom_weight_le`), a bound that is met by a document with one statement
and two errors. And each of its statements starts behind the one before, at a token whose span it
has (`exists_starts`), so that no statement is found twice.
-/

namespace ChartSchema

/-! ### Tokens before the end -/

/-- The tokens before the first end of the input. -/
def beforeEnd (tokens : List Token) : List Token :=
  tokens.takeWhile fun token => token.kind ≠ .endOfInput

/-- Tokens that are not the end are in front of it. -/
theorem beforeEnd_append {taken : List Token} (h : ∀ token ∈ taken, token.kind ≠ .endOfInput)
    (rest : List Token) : beforeEnd (taken ++ rest) = taken ++ beforeEnd rest :=
  List.takeWhile_append_of_pos fun token hmem => decide_eq_true (h token hmem)

theorem beforeEnd_of_atEnd {tokens : List Token} (h : atEnd tokens = true) :
    beforeEnd tokens = [] :=
  @takeWhile_append_atEnd [] tokens List.not_mem_nil h

/-- From some tokens to others at least so many are gone, and the end of the input is not among
them. -/
def Spends (count : Nat) (tokens rest : List Token) : Prop :=
  ∃ taken, tokens = taken ++ rest ∧ count ≤ taken.length ∧ ∀ token ∈ taken, token.kind ≠ .endOfInput

section Spending

variable {count more : Nat} {tokens rest last : List Token} {token : Token}

/-- Nothing is taken for nothing. -/
theorem Spends.refl (tokens : List Token) : Spends 0 tokens tokens :=
  ⟨[], rfl, Nat.le_refl _, fun _ hmem => absurd hmem List.not_mem_nil⟩

theorem Spends.cons (hkind : token.kind ≠ .endOfInput) (h : Spends count tokens rest) :
    Spends (count + 1) (token :: tokens) rest := by
  obtain ⟨taken, rfl, hcount, hpassed⟩ := h
  exact ⟨token :: taken, rfl, Nat.succ_le_succ hcount, List.forall_mem_cons.2 ⟨hkind, hpassed⟩⟩

/-- What two steps take adds up. -/
theorem Spends.trans (h : Spends count tokens rest) (hmore : Spends more rest last) :
    Spends (count + more) tokens last := by
  obtain ⟨taken, rfl, hcount, hpassed⟩ := h
  obtain ⟨further, rfl, hfurther, hpassed'⟩ := hmore
  refine ⟨taken ++ further, (List.append_assoc _ _ _).symm, ?_, ?_⟩
  · rw [List.length_append]
    exact Nat.add_le_add hcount hfurther
  · exact List.forall_mem_append.2 ⟨hpassed, hpassed'⟩

theorem Spends.mono (h : Spends count tokens rest) (hle : more ≤ count) :
    Spends more tokens rest := by
  obtain ⟨taken, htokens, hcount, hpassed⟩ := h
  exact ⟨taken, htokens, Nat.le_trans hle hcount, hpassed⟩

/-- What is left is the rear of what was there. -/
theorem Spends.suffix (h : Spends count tokens rest) : rest <:+ tokens := by
  obtain ⟨taken, htokens, -⟩ := h
  exact ⟨taken, htokens.symm⟩

/-- **What is spent is gone before the end.** -/
theorem Spends.length_beforeEnd (h : Spends count tokens rest) :
    count + (beforeEnd rest).length ≤ (beforeEnd tokens).length := by
  obtain ⟨taken, rfl, hcount, hpassed⟩ := h
  rw [beforeEnd_append hpassed, List.length_append]
  exact Nat.add_le_add_right hcount _

end Spending

/-! ### What a step costs -/

/-- A step that takes at least so many tokens where it succeeds. -/
def Costs {α : Type} (count : Nat) (rest : α → List Token) (tokens : List Token) :
    Except Failure α → Prop
  | .ok taken => Spends count tokens (rest taken)
  | .error failure => Spends 0 tokens failure.2

section Steps

variable {α β : Type} {count : Nat} {rest : α → List Token} {tokens : List Token}
  {step : Except Failure α}

/-- What has been taken in front of a step counts as well. -/
theorem Costs.after {front : List Token} {taken : Nat}
    (h : Costs (count - taken) rest tokens step) (hfront : Spends taken front tokens) :
    Costs count rest front step := by
  cases step with
  | error failure => exact (hfront.trans h).mono (Nat.zero_le _)
  | ok result =>
    refine (hfront.trans h).mono ?_
    omega

/-- The costs of two steps add up, where the second has to pay only what the first has not. -/
theorem Costs.bind {last : β → List Token} {next : α → Except Failure β} {total : Nat}
    (h : Costs count rest tokens step)
    (hnext : ∀ taken, Costs (total - count) last (rest taken) (next taken)) :
    Costs total last tokens (step >>= next) := by
  cases step with
  | error failure => exact h
  | ok taken => exact (hnext taken).after h

end Steps

section Parsing

variable (tokens : List Token)

theorem costs_takeName : Costs 1 Prod.snd tokens (takeName tokens) := by
  unfold takeName
  split
  · exact (Spends.refl _).cons TokenKind.noConfusion
  · exact .refl _

theorem costs_takeNames : Costs 0 Prod.snd tokens (takeNames tokens) := by
  fun_induction takeNames tokens with
  | case1 dot dotSpan name text span rest ih =>
    have hfront : Spends 2 (⟨.dot, dot, dotSpan⟩ :: ⟨.identifier name, text, span⟩ :: rest) rest :=
      ((Spends.refl rest).cons TokenKind.noConfusion).cons TokenKind.noConfusion
    refine Costs.after (ih.bind fun names => ?_) hfront
    exact .refl _
  | case2 => exact ((Spends.refl _).cons TokenKind.noConfusion).mono (Nat.zero_le _)
  | case3 => exact .refl _

/-- A path has a name, and what follows it costs nothing more. -/
theorem costs_takePath : Costs 1 Prod.snd tokens (takePath tokens) := by
  refine (costs_takeName tokens).bind fun first => ?_
  refine (costs_takeNames first.2).bind fun names => ?_
  exact .refl _

theorem costs_takeColon (path : List String) : Costs 1 id tokens (takeColon path tokens) := by
  unfold takeColon
  split
  · exact (Spends.refl _).cons TokenKind.noConfusion
  · exact .refl _

theorem spends_takeDataPath : Spends 0 tokens (takeDataPath tokens).2 := by
  obtain ⟨taken, htokens, hkinds⟩ := exists_taken_names tokens
  refine ⟨taken, htokens, Nat.zero_le _, fun token hmem hkind => ?_⟩
  refine endOfInput_notMem_furtherKinds (takeDataPath tokens).1 ?_
  rw [← hkinds, ← hkind]
  exact List.mem_map_of_mem hmem

theorem spends_takeArguments : Spends 0 tokens (takeArguments tokens).2 := by
  induction tokens with
  | nil => exact .refl _
  | cons token rest ih =>
    obtain ⟨kind, text, span⟩ := token
    cases kind with
    | semicolon | endOfInput => exact .refl _
    | rightParen => exact ((Spends.refl _).cons TokenKind.noConfusion).mono (Nat.zero_le _)
    | _ => exact (ih.cons TokenKind.noConfusion).mono (Nat.zero_le _)

/-- A value is at least one token, a call with its arguments included. -/
theorem costs_takeValue : Costs 1 Prod.snd tokens (takeValue tokens) := by
  unfold takeValue
  split
  · next name text span paren parenSpan rest =>
    have hcall : Spends 1 (⟨.leftParen, paren, parenSpan⟩ :: rest) (takeArguments rest).2 :=
      (spends_takeArguments rest).cons TokenKind.noConfusion
    exact (hcall.cons TokenKind.noConfusion).mono (Nat.le_succ 1)
  · exact (Spends.refl _).cons TokenKind.noConfusion
  · exact (Spends.refl _).cons TokenKind.noConfusion
  · exact (Spends.refl _).cons TokenKind.noConfusion
  · exact (Spends.refl _).cons TokenKind.noConfusion
  · exact (spends_takeDataPath _).cons TokenKind.noConfusion
  · exact (Spends.refl _).cons TokenKind.noConfusion
  · exact (Spends.refl _).cons TokenKind.noConfusion
  · exact .refl _

theorem spends_takeSemicolon (path : List String) :
    Spends 0 tokens (takeSemicolon path tokens).2 := by
  unfold takeSemicolon
  split
  · exact ((Spends.refl _).cons TokenKind.noConfusion).mono (Nat.zero_le _)
  · split
    · exact .refl _
    · exact .refl _

/-- A statement has at least a name, a colon and a value. -/
theorem costs_takeStatement : Costs 3 (fun taken => taken.2.2) tokens (takeStatement tokens) := by
  refine (costs_takePath tokens).bind fun path => ?_
  refine (costs_takeColon path.2 path.1).bind fun behind => ?_
  refine (costs_takeValue behind).bind fun value => ?_
  exact spends_takeSemicolon value.2 path.1

/-- Skipping takes the token at the front, unless that is the end. -/
theorem spends_skipStatement :
    Spends (if atEnd tokens then 0 else 1) tokens (skipStatement tokens) := by
  induction tokens with
  | nil => exact .refl _
  | cons token rest ih =>
    rw [skipStatement]
    by_cases hkind : token.kind = .endOfInput
    · have hend : atEnd (token :: rest) = true := decide_eq_true hkind
      rw [if_pos hend, hkind]
      exact .refl _
    · have hfront : ¬ atEnd (token :: rest) = true := fun hend => hkind (of_decide_eq_true hend)
      rw [if_neg hfront]
      split
      · next hend => exact absurd hend hkind
      · exact (Spends.refl _).cons hkind
      · exact (ih.mono (Nat.zero_le _)).cons hkind

end Parsing

/-! ### Rounds -/

/-- What a round gives: each statement counts twice, each error once. -/
def Round.weight (round : Round) : Nat :=
  2 * round.statement.toList.length + round.error.toList.length

section Rounds

variable {tokens : List Token}

/-- Where a statement fails, it or the skipping behind it takes a token. -/
theorem Spends.skip {rest : List Token} (h : Spends 0 tokens rest) (hfront : atEnd tokens = false) :
    Spends 1 tokens (skipStatement rest) := by
  obtain ⟨taken, htokens, -, hpassed⟩ := h
  cases taken with
  | nil =>
    obtain rfl : tokens = rest := htokens
    have hskip := spends_skipStatement tokens
    rwa [if_neg (Bool.eq_false_iff.1 hfront)] at hskip
  | cons token taken =>
    have hskip := (spends_skipStatement rest).mono (Nat.zero_le _)
    exact Spends.trans ⟨token :: taken, htokens, Nat.succ_le_succ (Nat.zero_le _), hpassed⟩ hskip

/-- A round gives something, so that it takes something. -/
theorem weight_nextRound_pos (tokens : List Token) : 0 < (nextRound tokens).weight := by
  unfold nextRound
  split
  · exact Nat.add_pos_left Nat.two_pos _
  · exact Nat.one_pos

/-- **A round pays for what it gives** with tokens of its own. -/
theorem nextRound_spends (h : atEnd tokens = false) :
    Spends (nextRound tokens).weight tokens (nextRound tokens).rest := by
  have hcosts := costs_takeStatement tokens
  unfold nextRound
  split
  · next statement error rest htake =>
    rw [htake] at hcosts
    -- a missing semicolon is one error more, and nothing is taken for it
    refine Spends.mono hcosts ?_
    cases error with
    | none => exact Nat.le_succ 2
    | some error => exact Nat.le_refl 3
  · next error rest htake =>
    rw [htake] at hcosts
    exact Spends.skip hcosts h

/-- **Twice the statements and the errors are at most the tokens before the end.** -/
theorem statementsFrom_weight_le (tokens : List Token) :
    2 * (statementsFrom tokens).1.length + (statementsFrom tokens).2.length ≤
      (beforeEnd tokens).length := by
  fun_induction statementsFrom tokens with
  | case1 tokens hend => exact Nat.zero_le _
  | case2 tokens hend round statements errors hmore ih =>
    have hround : Spends round.weight tokens round.rest :=
      nextRound_spends (Bool.eq_false_iff.2 hend)
    have hpaid := hround.length_beforeEnd
    have hlater : 2 * statements.length + errors.length ≤ (beforeEnd round.rest).length := by
      rw [hmore] at ih
      exact ih
    rw [Round.weight] at hpaid
    rw [List.length_append, List.length_append]
    omega

/-- The tokens `a : b :` are all paid out, for one statement and two errors. -/
example :
    let tokens : List Token := [.identifier "a", .colon, .identifier "b", .colon].map fun kind =>
      { Token.endAt Position.start with kind }
    let found := statementsFrom tokens
    2 * found.1.length + found.2.length = (beforeEnd tokens).length := by
  cbv

end Rounds

/-! ### Where statements start -/

/-- A statement starts at a place in some tokens: there stands the first name of its path, and its
span is the span of that token. -/
def Statement.StartsAt (tokens : List Token) (statement : Statement) (place : Nat) : Prop :=
  ∃ name text, tokens[place]? = some ⟨.identifier name, text, statement.span⟩ ∧
    statement.path.head? = some name

/-- The statement of a round starts where the round does. -/
theorem startsAt_of_nextRound {tokens : List Token} {statement : Statement}
    (h : (nextRound tokens).statement = some statement) (done : List Token) :
    statement.StartsAt (done ++ tokens) done.length := by
  unfold nextRound at h
  split at h
  · next htake =>
    cases h
    obtain ⟨behind, after, last, hpath, -, -, -, hspan⟩ := takeStatement_eq_ok htake
    obtain ⟨hne, taken, rfl, hkinds⟩ := exists_taken_path hpath
    obtain ⟨name, names, hnames⟩ := List.exists_cons_of_ne_nil hne
    rw [hnames, pathKinds_cons] at hkinds
    obtain ⟨text, span, more, rfl, -⟩ := exists_token_cons hkinds
    refine ⟨name, text, ?_, by rw [hnames]; rfl⟩
    rw [hspan]
    simp [frontToken]
  · cases h

/-- **Each statement starts behind the one before**, and before the end. -/
theorem exists_starts (done rest : List Token) :
    ∃ places : List Nat, places.Pairwise (· < ·) ∧ (∀ place ∈ places, done.length ≤ place) ∧
      List.Forall₂ (fun statement place => place < (done ++ beforeEnd rest).length ∧
        statement.StartsAt (done ++ rest) place) (statementsFrom rest).1 places := by
  -- the tokens of each round join those that are done, so its places are behind them
  fun_induction statementsFrom rest generalizing done with
  | case1 rest hend => exact ⟨[], .nil, fun _ hmem => absurd hmem List.not_mem_nil, .nil⟩
  | case2 rest hend round statements errors hmore ih =>
    have hfront : atEnd rest = false := Bool.eq_false_iff.2 hend
    obtain ⟨taken, htokens, hcount, hpassed⟩ := nextRound_spends hfront
    have hpos : 0 < taken.length := Nat.lt_of_lt_of_le (weight_nextRound_pos rest) hcount
    have hwhole : done ++ taken ++ round.rest = done ++ rest := by
      rw [List.append_assoc]
      exact congrArg (done ++ ·) htokens.symm
    have hbefore : done ++ taken ++ beforeEnd round.rest = done ++ beforeEnd rest := by
      rw [List.append_assoc, ← beforeEnd_append hpassed]
      exact congrArg (done ++ beforeEnd ·) htokens.symm
    obtain ⟨places, hpairwise, hbehind, hplaces⟩ := ih (done ++ taken)
    rw [hmore, hwhole, hbefore] at hplaces
    have hlater : ∀ place ∈ places, done.length < place := fun place hmem => by
      have hplace := hbehind place hmem
      rw [List.length_append] at hplace
      omega
    cases hstatement : round.statement with
    | none =>
      exact ⟨places, hpairwise, fun place hmem => Nat.le_of_lt (hlater place hmem), hplaces⟩
    | some statement =>
      have hstart : done.length < (done ++ beforeEnd rest).length := by
        rw [← hbefore, List.length_append, List.length_append]
        omega
      refine ⟨done.length :: places, List.pairwise_cons.2 ⟨hlater, hpairwise⟩, ?_, ?_⟩
      · refine List.forall_mem_cons.2 ⟨Nat.le_refl _, fun place hmem => ?_⟩
        exact Nat.le_of_lt (hlater place hmem)
      · exact .cons ⟨hstart, startsAt_of_nextRound hstatement done⟩ hplaces

end ChartSchema
