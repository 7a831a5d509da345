import Mathlib.Data.List.Basic
import ChartSchema.Proofs.Document.Statements

/-!
# Recovery at semicolons

Whatever is wrong with the statements before a semicolon, the parser goes on behind it as if it
started there. The reason is that no step of the parser steps over a semicolon: each takes tokens up
to the next one at most, and looks behind a token only if that token is none.

This is made precise with **terminated** tokens, which end with a semicolon and have no end of the
input among them. On them a step does the same whatever follows: it gives the same value or the same
error, and leaves the same tokens with the same rear. `Extends` compares the two runs of a step that
can fail, and `Extends.bind` composes them; what a step leaves is terminated again, so that the next
one is in the same position. Only what takes the semicolon itself, at the end of a round, can leave
nothing. This is why `takeSemicolon_terminated` and `skipStatement_terminated` have one case more,
and it is the only place where a round ends.

A round is therefore the same whatever follows (`nextRound_terminated`), by induction so is a run of
rounds (`statementsFrom_terminated`), and comments are taken out before the parser sees the tokens.
The main statement, `parseTokens_append`, cuts a document at a semicolon into two that are parsed by
themselves: statements, errors and comments are those of the front and then those of the rear.
-/

namespace ChartSchema

/-! ### Terminated tokens -/

/-- Tokens of which the last is a semicolon and none is the end of the input. -/
structure Terminated (tokens : List Token) : Prop where
  last : tokens.getLast?.map Token.kind = some .semicolon
  unended : ∀ token ∈ tokens, token.kind ≠ .endOfInput

variable {token : Token} {tokens : List Token}

/-- There is a semicolon among terminated tokens. -/
theorem Terminated.ne_nil (h : Terminated tokens) : tokens ≠ [] := by
  rintro rfl
  cases h.last

theorem Terminated.tail (h : Terminated (token :: tokens)) : tokens = [] ∨ Terminated tokens := by
  rcases List.eq_nil_or_concat' tokens with rfl | ⟨front, last, rfl⟩
  · exact .inl rfl
  · refine .inr ⟨?_, fun other hmem => h.unended other (List.mem_cons_of_mem _ hmem)⟩
    have hlast := h.last
    rw [← List.cons_append, List.getLast?_concat] at hlast
    rwa [List.getLast?_concat]

/-- A semicolon is still to come behind any other token. -/
theorem Terminated.tail_of_ne (h : Terminated (token :: tokens)) (hkind : token.kind ≠ .semicolon) :
    Terminated tokens := by
  refine h.tail.resolve_left ?_
  rintro rfl
  exact hkind (Option.some.inj h.last)

/-- Terminated tokens do not start with the end of the input. -/
theorem Terminated.atEnd_eq_false (h : Terminated tokens) : atEnd tokens = false := by
  obtain ⟨token, more, rfl⟩ := List.exists_cons_of_ne_nil h.ne_nil
  exact decide_eq_false (h.unended token List.mem_cons_self)

/-! ### Steps that stop before a semicolon -/

variable {α β : Type} (back : List Token)

/-- What a step gives on terminated tokens, and what it gives when more follows them. -/
inductive Extends : Except Failure (α × List Token) → Except Failure (α × List Token) → Prop where
  | ok (value : α) (rest : List Token) (hrest : Terminated rest) :
    Extends (.ok (value, rest)) (.ok (value, rest ++ back))
  | error (error : ParseError) (rest : List Token) (hrest : Terminated rest) :
    Extends (.error (error, rest)) (.error (error, rest ++ back))

variable {back}

/-- Steps one after the other are independent of what follows if each of them is. -/
theorem Extends.bind {step step' : Except Failure (α × List Token)}
    {next : α × List Token → Except Failure (β × List Token)} (h : Extends back step step')
    (hnext : ∀ value rest, Terminated rest →
      Extends back (next (value, rest)) (next (value, rest ++ back))) :
    Extends back (step >>= next) (step' >>= next) := by
  cases h with
  | ok value rest hrest => exact hnext value rest hrest
  | error error rest hrest => exact .error error rest hrest

theorem extends_takeName (h : Terminated tokens) :
    Extends back (takeName tokens) (takeName (tokens ++ back)) := by
  obtain ⟨⟨kind, text, span⟩, more, rfl⟩ := List.exists_cons_of_ne_nil h.ne_nil
  cases kind with
  | identifier name => exact .ok name more (h.tail_of_ne TokenKind.noConfusion)
  | _ => exact .error _ _ h

theorem extends_takeNames (h : Terminated tokens) :
    Extends back (takeNames tokens) (takeNames (tokens ++ back)) := by
  fun_induction takeNames tokens with
  | case1 dot dotSpan name text span rest ih =>
    have hrest := (h.tail_of_ne TokenKind.noConfusion).tail_of_ne TokenKind.noConfusion
    refine (ih hrest).bind fun names after hafter => ?_
    exact .ok (name :: names) after hafter
  -- the token where a name is missing is still before the semicolon, or is it
  | case2 dot dotSpan rest hname =>
    have hrest := h.tail_of_ne TokenKind.noConfusion
    obtain ⟨⟨kind, text, span⟩, more, rfl⟩ := List.exists_cons_of_ne_nil hrest.ne_nil
    cases kind with
    | identifier name => exact absurd rfl (hname name text span more)
    | _ => exact .error _ _ hrest
  | case3 tokens _ hdot =>
    obtain ⟨⟨kind, text, span⟩, more, rfl⟩ := List.exists_cons_of_ne_nil h.ne_nil
    cases kind with
    | dot => exact absurd rfl (hdot text span more)
    | _ => exact .ok [] _ h

/-- A path ends before a semicolon, or fails there. -/
theorem extends_takePath (h : Terminated tokens) :
    Extends back (takePath tokens) (takePath (tokens ++ back)) := by
  refine (extends_takeName h).bind fun first rest hrest => ?_
  refine (extends_takeNames hrest).bind fun names after hafter => ?_
  exact .ok (first :: names) after hafter

/-- The names of a data path end before a semicolon. -/
theorem takeDataPath_terminated (h : Terminated tokens) (back : List Token) :
    Terminated (takeDataPath tokens).2 ∧ takeDataPath (tokens ++ back) =
      ((takeDataPath tokens).1, (takeDataPath tokens).2 ++ back) := by
  fun_induction takeDataPath tokens with
  | case1 dot dotSpan name text span rest names after hafter ih =>
    have hrest := (h.tail_of_ne TokenKind.noConfusion).tail_of_ne TokenKind.noConfusion
    obtain ⟨hterminated, hsame⟩ := ih hrest
    rw [hafter] at hterminated hsame
    refine ⟨hterminated, ?_⟩
    simp only [List.cons_append, takeDataPath, hsame]
  | case2 tokens hpair =>
    refine ⟨h, ?_⟩
    obtain ⟨⟨kind, text, span⟩, more, rfl⟩ := List.exists_cons_of_ne_nil h.ne_nil
    cases kind with
    | dot =>
      have hmore := h.tail_of_ne TokenKind.noConfusion
      obtain ⟨⟨kind, name, nameSpan⟩, rest, rfl⟩ := List.exists_cons_of_ne_nil hmore.ne_nil
      cases kind with
      | identifier word => exact absurd rfl (hpair text span word name nameSpan rest)
      | _ => rfl
    | _ => rfl

/-- The arguments of a call end before a semicolon, also without a closing parenthesis. -/
theorem takeArguments_terminated (h : Terminated tokens) (back : List Token) :
    Terminated (takeArguments tokens).2 ∧ takeArguments (tokens ++ back) =
      ((takeArguments tokens).1, (takeArguments tokens).2 ++ back) := by
  induction tokens with
  | nil => exact absurd rfl h.ne_nil
  | cons token more ih =>
    obtain ⟨kind, text, span⟩ := token
    cases kind with
    | rightParen => exact ⟨h.tail_of_ne TokenKind.noConfusion, rfl⟩
    | semicolon => exact ⟨h, rfl⟩
    | endOfInput => exact absurd rfl (h.unended _ List.mem_cons_self)
    | _ =>
      obtain ⟨hterminated, hsame⟩ := ih (h.tail_of_ne TokenKind.noConfusion)
      simp only [List.cons_append, takeArguments, hsame]
      exact ⟨hterminated, trivial⟩

/-- A value ends before a semicolon; what decides between two sorts of values is a token behind its
first, and that is no semicolon. -/
theorem extends_takeValue (h : Terminated tokens) :
    Extends back (takeValue tokens) (takeValue (tokens ++ back)) := by
  obtain ⟨⟨kind, text, span⟩, more, rfl⟩ := List.exists_cons_of_ne_nil h.ne_nil
  have hmore : kind ≠ .semicolon → Terminated more := fun hkind => h.tail_of_ne hkind
  cases kind with
  | string | number | boolean | interpolation => exact .ok _ more (hmore TokenKind.noConfusion)
  | identifier name =>
    have hmore := hmore TokenKind.noConfusion
    obtain ⟨⟨kind, paren, parenSpan⟩, rest, rfl⟩ := List.exists_cons_of_ne_nil hmore.ne_nil
    cases kind with
    | leftParen =>
      obtain ⟨hterminated, hsame⟩ :=
        takeArguments_terminated (hmore.tail_of_ne TokenKind.noConfusion) back
      simp only [List.cons_append, takeValue, hsame]
      exact .ok _ _ hterminated
    | _ => exact .ok _ _ hmore
  | «variable» root =>
    have hmore := hmore TokenKind.noConfusion
    obtain ⟨⟨kind, dot, dotSpan⟩, rest, rfl⟩ := List.exists_cons_of_ne_nil hmore.ne_nil
    cases kind with
    | dot =>
      obtain ⟨hterminated, hsame⟩ := takeDataPath_terminated hmore back
      simp only [List.cons_append] at hsame
      simp only [List.cons_append, takeValue, hsame]
      exact .ok _ _ hterminated
    | _ => exact .ok _ _ hmore
  | _ => exact .error _ _ h

theorem takeColon_terminated (h : Terminated tokens) (back : List Token) (path : List String) :
    (∃ rest, Terminated rest ∧ takeColon path tokens = .ok rest ∧
        takeColon path (tokens ++ back) = .ok (rest ++ back)) ∨
      ∃ error, takeColon path tokens = .error (error, tokens) ∧
        takeColon path (tokens ++ back) = .error (error, tokens ++ back) := by
  obtain ⟨⟨kind, text, span⟩, more, rfl⟩ := List.exists_cons_of_ne_nil h.ne_nil
  cases kind with
  | colon => exact .inl ⟨more, h.tail_of_ne TokenKind.noConfusion, rfl, rfl⟩
  | _ => exact .inr ⟨_, rfl, rfl⟩

/-! ### Rounds -/

theorem takeSemicolon_terminated (h : Terminated tokens) (back : List Token)
    (path : List String) :
    ((takeSemicolon path tokens).2 = [] ∨ Terminated (takeSemicolon path tokens).2) ∧
      takeSemicolon path (tokens ++ back) =
        ((takeSemicolon path tokens).1, (takeSemicolon path tokens).2 ++ back) := by
  have hfront := h.atEnd_eq_false
  obtain ⟨⟨kind, text, span⟩, more, rfl⟩ := List.exists_cons_of_ne_nil h.ne_nil
  have hfront' : atEnd (⟨kind, text, span⟩ :: (more ++ back)) = false := hfront
  cases kind with
  | semicolon => exact ⟨h.tail, rfl⟩
  | _ =>
    simp only [List.cons_append, takeSemicolon, hfront, hfront', Bool.false_eq_true, if_false]
    exact ⟨.inr h, rfl⟩

/-- Skipping stops behind the first semicolon. -/
theorem skipStatement_terminated (h : Terminated tokens) (back : List Token) :
    (skipStatement tokens = [] ∨ Terminated (skipStatement tokens)) ∧
      skipStatement (tokens ++ back) = skipStatement tokens ++ back := by
  induction tokens with
  | nil => exact absurd rfl h.ne_nil
  | cons token more ih =>
    obtain ⟨kind, text, span⟩ := token
    cases kind with
    | semicolon => exact ⟨h.tail, rfl⟩
    | endOfInput => exact absurd rfl (h.unended _ List.mem_cons_self)
    | _ => exact ih (h.tail_of_ne TokenKind.noConfusion)

/-- A statement on terminated tokens is taken, or fails, in the same way whatever follows them. -/
theorem takeStatement_terminated (h : Terminated tokens) (back : List Token) :
    (∃ statement error rest, (rest = [] ∨ Terminated rest) ∧
        takeStatement tokens = .ok (statement, error, rest) ∧
          takeStatement (tokens ++ back) = .ok (statement, error, rest ++ back)) ∨
      ∃ error rest, Terminated rest ∧ takeStatement tokens = .error (error, rest) ∧
        takeStatement (tokens ++ back) = .error (error, rest ++ back) := by
  have hpath : Extends back (takePath tokens) (takePath (tokens ++ back)) := extends_takePath h
  rw [takeStatement, takeStatement, frontToken_append h.ne_nil]
  generalize takePath tokens = taken, takePath (tokens ++ back) = taken' at hpath ⊢
  cases hpath with
  | error error rest hrest => exact .inr ⟨error, rest, hrest, rfl, rfl⟩
  | ok path behind hbehind =>
    rcases takeColon_terminated hbehind back path with
      ⟨after, hafter, hcolon, hcolon'⟩ | ⟨error, hcolon, hcolon'⟩
    · have hvalue : Extends back (takeValue after) (takeValue (after ++ back)) :=
        extends_takeValue hafter
      simp only [bind, Except.bind, hcolon, hcolon']
      generalize takeValue after = value, takeValue (after ++ back) = value' at hvalue ⊢
      cases hvalue with
      | error error rest hrest => exact .inr ⟨error, rest, hrest, rfl, rfl⟩
      | ok value last hlast =>
        obtain ⟨hrest, hsame⟩ := takeSemicolon_terminated hlast back path
        refine .inl ⟨_, _, _, hrest, rfl, ?_⟩
        simp only [hsame]
    · refine .inr ⟨error, behind, hbehind, ?_, ?_⟩
      · simp only [bind, Except.bind, hcolon]
      · simp only [bind, Except.bind, hcolon']

/-- **A round on terminated tokens** is the same whatever follows them, and leaves them terminated
or used up. -/
theorem nextRound_terminated (h : Terminated tokens) (back : List Token) :
    ((nextRound tokens).rest = [] ∨ Terminated (nextRound tokens).rest) ∧
      nextRound (tokens ++ back) =
        { nextRound tokens with rest := (nextRound tokens).rest ++ back } := by
  rcases takeStatement_terminated h back with
    ⟨statement, error, rest, hrest, htake, htake'⟩ | ⟨error, rest, hrest, htake, htake'⟩
  · rw [nextRound, nextRound, htake, htake']
    exact ⟨hrest, rfl⟩
  · obtain ⟨hskip, hskip'⟩ := skipStatement_terminated hrest back
    simp only [nextRound, htake, htake', hskip']
    exact ⟨hskip, trivial⟩

/-! ### Documents -/

/-- **What follows terminated tokens is parsed by itself.** -/
theorem statementsFrom_terminated (h : tokens = [] ∨ Terminated tokens) (back : List Token) :
    statementsFrom (tokens ++ back) =
      ((statementsFrom tokens).1 ++ (statementsFrom back).1,
        (statementsFrom tokens).2 ++ (statementsFrom back).2) := by
  fun_induction statementsFrom tokens with
  | case1 tokens hend =>
    obtain rfl : tokens = [] := h.resolve_right fun h => by simp [h.atEnd_eq_false] at hend
    rfl
  | case2 tokens hend round statements errors hmore =>
    rename_i ih
    have hterminated : Terminated tokens := h.resolve_left (by rintro rfl; exact hend rfl)
    obtain ⟨hrest, hround⟩ := nextRound_terminated hterminated back
    have hfront : atEnd (tokens ++ back) = false := by
      rw [atEnd, frontToken_append hterminated.ne_nil]
      exact Bool.eq_false_iff.2 hend
    have hbehind := ih hrest
    rw [hmore] at hbehind
    rw [statementsFrom, if_neg (Bool.eq_false_iff.1 hfront), hround]
    simp only [round, hbehind, List.append_assoc]

/-- **A semicolon separates what is parsed before it from what is parsed behind it.** The
statements, the errors and the comments of a document are those up to the semicolon, then those
behind it. -/
theorem parseTokens_append {front : List Token} (hopen : ∀ token ∈ front, token.kind ≠ .endOfInput)
    (hlast : ((front.filter fun token => !token.kind.isComment).getLast?).map Token.kind =
      some .semicolon)
    {stop : Token} (hstop : stop.kind = .endOfInput) (back : List Token) :
    (parseTokens (front ++ back)).1.statements =
        (parseTokens (front ++ [stop])).1.statements ++ (parseTokens back).1.statements ∧
      (parseTokens (front ++ back)).2 =
        (parseTokens (front ++ [stop])).2 ++ (parseTokens back).2 ∧
      (parseTokens (front ++ back)).1.comments =
        front.filterMap Token.comment? ++ (parseTokens back).1.comments := by
  set content := front.filter fun token => token.comment?.isNone with hcontent
  have hterminated : Terminated content := by
    simp only [hcontent, comment?_isNone]
    exact ⟨hlast, fun token hmem => hopen token (List.mem_of_mem_filter hmem)⟩
  have hcut (back : List Token) :
      (parseTokens (front ++ back)).1.statements =
          (statementsFrom content).1 ++ (parseTokens back).1.statements ∧
        (parseTokens (front ++ back)).2 = (statementsFrom content).2 ++ (parseTokens back).2 := by
    rw [parseTokens, List.filter_append, statementsFrom_terminated (.inr hterminated)]
    exact ⟨rfl, rfl⟩
  have hnothing : (parseTokens [stop]).1.statements = [] ∧ (parseTokens [stop]).2 = [] := by
    have hfilter : [stop].filter (fun token => token.comment?.isNone) = [stop] := by
      simp [Token.comment?, hstop]
    have hend : atEnd [stop] = true := decide_eq_true hstop
    rw [parseTokens, hfilter, statementsFrom, if_pos hend]
    exact ⟨rfl, rfl⟩
  obtain ⟨hstatements, herrors⟩ := hcut [stop]
  rw [hnothing.1, List.append_nil] at hstatements
  rw [hnothing.2, List.append_nil] at herrors
  rw [hstatements, herrors]
  exact ⟨(hcut back).1, (hcut back).2, List.filterMap_append⟩

/-- A path that ends in a dot, with a comment behind the semicolon, before a call that is never
closed. -/
theorem parseTokens_append_dangling :
    let front : List Token := [⟨.identifier "title", "title", ⟨0, 5, 1, 1⟩⟩,
      ⟨.dot, ".", ⟨5, 6, 1, 6⟩⟩, ⟨.semicolon, ";", ⟨6, 7, 1, 7⟩⟩,
      ⟨.comment "what else", "# what else", ⟨8, 19, 1, 9⟩⟩]
    let stop : Token := ⟨.endOfInput, "", ⟨19, 19, 1, 20⟩⟩
    let back : List Token := [⟨.identifier "source", "source", ⟨20, 26, 2, 1⟩⟩,
      ⟨.colon, ":", ⟨26, 27, 2, 7⟩⟩, ⟨.identifier "rest", "rest", ⟨28, 32, 2, 9⟩⟩,
      ⟨.leftParen, "(", ⟨32, 33, 2, 13⟩⟩, ⟨.endOfInput, "", ⟨33, 33, 2, 14⟩⟩]
    (∀ token ∈ front, token.kind ≠ .endOfInput) ∧
      ((front.filter fun token => !token.kind.isComment).getLast?).map Token.kind =
        some .semicolon ∧
      stop.kind = .endOfInput ∧
      (parseTokens (front ++ back)).1.statements =
        (parseTokens (front ++ [stop])).1.statements ++ (parseTokens back).1.statements ∧
      (parseTokens (front ++ back)).2 =
        (parseTokens (front ++ [stop])).2 ++ (parseTokens back).2 ∧
      (parseTokens (front ++ back)).1.comments =
        [⟨"what else", 1⟩] ++ (parseTokens back).1.comments := by
  intro front stop back
  have hopen : ∀ token ∈ front, token.kind ≠ .endOfInput := by decide
  have hlast : ((front.filter fun token => !token.kind.isComment).getLast?).map Token.kind =
      some .semicolon := rfl
  exact ⟨hopen, hlast, rfl, parseTokens_append hopen hlast rfl back⟩

end ChartSchema
