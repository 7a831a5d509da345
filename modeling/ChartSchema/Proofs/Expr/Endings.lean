import Mathlib.Data.List.Chain
import ChartSchema.Expr.Parser

/-!
# How expressions end

The lines of a printed document end in a semicolon or in the remark that something is not
expressible. No expression that compiles ends like that (`Expr.not_suffix_of_parse`): a semicolon
starts no token, and the remark has two names side by side, which no expression has.

The tokens of an expression that ends in a remark are not known, since a string may have begun
anywhere before it. Of the tokens it matters only that none but a string reaches over a parenthesis
or a semicolon: `Stands` says this of one token, and `Cuts` of a text and all its tokens. So the
tokens of the rear of a text are tokens of the text, unless they are inside a string
(`Cuts.behind`), and a string would need a quote to end, of which the two endings have none.

The second half is about the parser. In what it takes off the tokens no two names stand side by
side (`Takes`), whatever it parses; `KeepsApart` says so of a parser. For this to survive when one
parser follows another, what the second one takes must not start with a name either (`TakesOn`),
and `GoesOn` says that of a parser that goes on with an expression. Each parser is built from
others, and there is one lemma for each way of building one, up to the two parsers of a level
(`keepsApart_level`), by induction on the depth.
-/

namespace ChartSchema

/-- What a successful step after another one has taken. -/
theorem ok_of_bind {ε α β : Type} {step : Except ε α} {next : α → Except ε β} {result : β}
    (h : (step >>= next) = .ok result) : ∃ value, step = .ok value ∧ next value = .ok result := by
  cases step with
  | error e => exact nomatch h
  | ok value => exact ⟨value, rfl, h⟩

namespace ExprToken

/-! ### Pieces of text -/

/-- The text of a token: an opening parenthesis, characters without parentheses that open and
without semicolons, or a string, which ends in a quote. -/
inductive IsPiece : List Char → Prop where
  | paren : IsPiece ['(']
  | plain {piece : List Char} (h : ∀ c ∈ piece, c ≠ '(' ∧ c ≠ ';') : IsPiece piece
  | quoted (front : List Char) {quote : Char} (h : quote = '"' ∨ quote = '\'') :
    IsPiece (front ++ [quote])

/-- A token stands in front of a text: its piece, which is not empty, and what follows. -/
def Stands (text rest : List Char) : Prop :=
  ∃ piece, text = piece ++ rest ∧ piece ≠ [] ∧ IsPiece piece

theorem stands_plain {piece rest : List Char} (hne : piece ≠ [])
    (h : ∀ c ∈ piece, c ≠ '(' ∧ c ≠ ';') : Stands (piece ++ rest) rest :=
  ⟨piece, rfl, hne, .plain h⟩

/-- Operators have no parenthesis and no semicolon. -/
theorem stands_operator {text rest : List Char} {op : ExprOperator}
    (h : readOperator? text = some (op, rest)) : Stands text rest := by
  rw [readOperator?.eq_def] at h
  split at h
  all_goals
    cases h
  all_goals
    first
      | exact @stands_plain [_, _, _] _ (List.cons_ne_nil _ _) (by simp)
      | exact @stands_plain [_, _] _ (List.cons_ne_nil _ _) (by simp)
      | exact @stands_plain [_] _ (List.cons_ne_nil _ _) (by simp)

/-- A run of characters that are no marks. -/
theorem stands_takeWhile {p : Char → Bool} (hparen : p '(' = false) (hsemicolon : p ';' = false)
    {c : Char} {rest : List Char} (hc : p c = true) :
    Stands (c :: rest) ((c :: rest).dropWhile p) := by
  refine ⟨(c :: rest).takeWhile p, List.takeWhile_append_dropWhile.symm, by simp [hc], .plain ?_⟩
  intro d hd
  have hp := List.all_eq_true.1 List.all_takeWhile d hd
  constructor
  · rintro rfl
    rw [hparen] at hp
    exact nomatch hp
  · rintro rfl
    rw [hsemicolon] at hp
    exact nomatch hp

theorem ne_mark_of_mem_leadingDigits {text : List Char} {c : Char} (h : c ∈ leadingDigits text) :
    c ≠ '(' ∧ c ≠ ';' := by
  have hdigit : c.isDigit = true := List.all_eq_true.1 List.all_takeWhile c h
  constructor
  · rintro rfl
    exact nomatch hdigit
  · rintro rfl
    exact nomatch hdigit

/-- Numbers have no parenthesis and no semicolon. -/
theorem stands_number {c : Char} {rest : List Char} (hc : c.isDigit = true) :
    Stands (c :: rest) (readNumber (c :: rest)).2 := by
  have hsplit : leadingDigits (c :: rest) ++ afterDigits (c :: rest) = c :: rest :=
    List.takeWhile_append_dropWhile
  have hne : leadingDigits (c :: rest) ≠ [] := by simp [leadingDigits, hc]
  have hwhole : Stands (c :: rest) (afterDigits (c :: rest)) :=
    ⟨_, hsplit.symm, hne, .plain fun d => ne_mark_of_mem_leadingDigits⟩
  rw [readNumber]
  split
  · next d after hafter =>
    rw [hafter] at hsplit hwhole
    split
    -- the fraction belongs to the number
    · refine ⟨leadingDigits (c :: rest) ++ '.' :: leadingDigits (d :: after), ?_, by simp, ?_⟩
      · have hfraction : leadingDigits (d :: after) ++ afterDigits (d :: after) = d :: after :=
          List.takeWhile_append_dropWhile
        rw [List.append_assoc, List.cons_append, hfraction, hsplit]
      · refine .plain fun e he => ?_
        rcases List.mem_append.1 he with he | he
        · exact ne_mark_of_mem_leadingDigits he
        · rcases List.mem_cons.1 he with rfl | he
          · decide
          · exact ne_mark_of_mem_leadingDigits he
    · exact hwhole
  · exact hwhole

/-- A string ends with its quote. -/
theorem exists_inner_of_stringBody? {quote : Char} {text body rest : List Char}
    (h : stringBody? quote text = some (body, rest)) : ∃ inner, text = inner ++ quote :: rest := by
  fun_induction stringBody? quote text generalizing body with
  | case1 => exact nomatch h
  | case2 e more ih =>
    obtain ⟨⟨inside, after⟩, hinside, heq⟩ := Option.map_eq_some_iff.1 h
    obtain ⟨-, rfl⟩ := Prod.mk.inj heq
    obtain ⟨inner, rfl⟩ := ih hinside
    exact ⟨'\\' :: e :: inner, rfl⟩
  | case3 more =>
    obtain ⟨-, rfl⟩ := Prod.mk.inj (Option.some.inj h)
    exact ⟨[], rfl⟩
  | case4 c more _ _ ih =>
    obtain ⟨⟨inside, after⟩, hinside, heq⟩ := Option.map_eq_some_iff.1 h
    obtain ⟨-, rfl⟩ := Prod.mk.inj heq
    obtain ⟨inner, rfl⟩ := ih hinside
    exact ⟨c :: inner, rfl⟩

theorem stands_punctuation {c : Char} {token : ExprToken} (h : punctuation? c = some token)
    (rest : List Char) : Stands (c :: rest) rest := by
  by_cases hparen : c = '('
  · subst hparen
    exact ⟨['('], rfl, List.cons_ne_nil _ _, .paren⟩
  · have hsemicolon : c ≠ ';' := by
      rintro rfl
      exact nomatch h
    exact @stands_plain [c] rest (List.cons_ne_nil _ _) (by simp [hparen, hsemicolon])

/-- **No token but a string reaches over a parenthesis or a semicolon.** -/
theorem stands_next {text rest : List Char} {token : ExprToken}
    (h : next? text = .ok (token, rest)) : Stands text rest := by
  rw [next?.eq_def] at h
  split at h
  · cases h
  next c more =>
  split at h
  · next op after hop =>
    obtain ⟨-, rfl⟩ := Prod.mk.inj (Except.ok.inj h)
    exact stands_operator hop
  split at h
  · next hdigit =>
    have hrest : (readNumber (c :: more)).2 = rest := congrArg Prod.snd (Except.ok.inj h)
    rw [← hrest]
    exact stands_number hdigit
  split at h
  · next hquote =>
    split at h
    · next body after hbody =>
      obtain ⟨-, rfl⟩ := Prod.mk.inj (Except.ok.inj h)
      obtain ⟨inner, rfl⟩ := exists_inner_of_stringBody? hbody
      exact ⟨c :: inner ++ [c], by simp, by simp, .quoted (c :: inner) hquote⟩
    · cases h
  split at h
  · next hstart =>
    obtain ⟨-, rfl⟩ := Prod.mk.inj (Except.ok.inj h)
    refine stands_takeWhile rfl rfl ?_
    simp only [isIdentifierStart, isIdentifierChar, Char.isAlphanum, Bool.or_eq_true] at hstart ⊢
    exact hstart.imp_left (Or.imp_left Or.inl)
  split at h
  · next token' hpunctuation =>
    obtain ⟨-, rfl⟩ := Prod.mk.inj (Except.ok.inj h)
    exact stands_punctuation hpunctuation _
  · cases h

/-! ### All tokens -/

/-- The tokens of a text, wherever it starts. -/
inductive Cuts : List Char → List ExprToken → Prop where
  | nil {text : List Char} (h : trimLeft text = []) : Cuts text []
  | cons {text rest : List Char} {token : ExprToken} {tokens : List ExprToken}
    (h : next? (trimLeft text) = .ok (token, rest)) (hrest : Cuts rest tokens) :
    Cuts text (token :: tokens)

/-- The tokens of a text cut it, one after the other. -/
theorem cuts_of_cut {fuel start : Nat} {text : List Char} {tokens : List LocatedToken}
    (hfuel : text.length ≤ fuel) (h : cut fuel start text = .ok tokens) :
    Cuts text (tokens.map LocatedToken.token) := by
  induction fuel generalizing start text tokens with
  | zero =>
    obtain rfl := List.eq_nil_of_length_eq_zero (Nat.le_zero.1 hfuel)
    obtain rfl := Except.ok.inj h
    exact .nil rfl
  | succ fuel ih =>
    rw [cut] at h
    split at h
    · next hblank =>
      obtain rfl := Except.ok.inj h
      exact .nil hblank
    split at h
    · exact nomatch h
    · exact nomatch h
    · next token rest hnext =>
      obtain ⟨more, hmore, heq⟩ := ok_of_bind h
      obtain rfl := Except.ok.inj heq
      refine .cons hnext (ih ?_ hmore)
      obtain ⟨piece, htrimmed, hpiece, -⟩ := stands_next hnext
      have hlength := congrArg List.length htrimmed
      have hpositive := List.length_pos_iff.2 hpiece
      have htrim : (trimLeft text).length ≤ text.length := (List.dropWhile_suffix _).length_le
      rw [List.length_append] at hlength
      omega

section Tails

variable {front rest : List Char} {mark : Char}

/-- Blanks in front of a mark. -/
theorem trimLeft_append (hmark : isBlank mark = false) :
    trimLeft (front ++ mark :: rest) = trimLeft front ++ mark :: rest := by
  induction front with
  | nil => simp [trimLeft, hmark]
  | cons c front ih =>
    by_cases hc : isBlank c = true
    · simpa [trimLeft, hc] using ih
    · simp [trimLeft, hc]

/-- A token in front of a parenthesis or a semicolon with no quote behind it ends there. -/
theorem Stands.before_mark {text after : List Char} (h : Stands text after)
    (htext : text = front ++ mark :: rest) (hfront : front ≠ [])
    (hmark : mark = '(' ∨ mark = ';') (hquotes : ∀ c ∈ mark :: rest, c ≠ '"' ∧ c ≠ '\'') :
    ∃ more, after = more ++ mark :: rest := by
  obtain ⟨piece, hsplit, -, hpiece⟩ := h
  rw [htext] at hsplit
  rcases List.append_eq_append_iff.1 hsplit with ⟨inside, hinside, hafter⟩ | ⟨more, -, hafter⟩
  · cases inside with
    | nil => exact ⟨[], hafter.symm⟩
    | cons c inside =>
      obtain ⟨rfl, rfl⟩ := List.cons.inj hafter
      -- the token reaches over the mark; only a string does, and it has a quote behind the mark
      cases hpiece with
      | paren =>
        have hlength := congrArg List.length hinside
        have hpositive := List.length_pos_iff.2 hfront
        simp only [List.length_append, List.length_cons, List.length_nil] at hlength
        omega
      | plain hplain =>
        have hnot := hplain mark (by rw [hinside]; simp)
        exact absurd hmark (not_or.2 hnot)
      | @quoted inner quote hquote =>
        have hlast := congrArg List.getLast? hinside
        rw [List.getLast?_concat, List.getLast?_append_of_ne_nil _ (List.cons_ne_nil _ _)] at hlast
        have hmem := List.mem_append_left after (List.mem_of_getLast? hlast.symm)
        exact absurd hquote (not_or.2 (hquotes quote hmem))
  · exact ⟨more, hafter⟩

/-- The tokens behind a mark are cut as if nothing stood in front of it. -/
theorem Cuts.behind {text : List Char} {tokens : List ExprToken} (h : Cuts text tokens)
    (htext : text = front ++ mark :: rest) (hmark : mark = '(' ∨ mark = ';')
    (hquotes : ∀ c ∈ mark :: rest, c ≠ '"' ∧ c ≠ '\'') :
    ∃ before behind, tokens = before ++ behind ∧ Cuts (mark :: rest) behind := by
  have hblank : isBlank mark = false := by
    rcases hmark with rfl | rfl
    · decide
    · decide
  induction h generalizing front with
  | nil h =>
    rw [htext, trimLeft_append hblank] at h
    exact absurd h (by simp)
  | @cons text after token tokens h hrest ih =>
    rw [htext, trimLeft_append hblank] at h
    by_cases hfront : trimLeft front = []
    · refine ⟨[], token :: tokens, rfl, .cons ?_ hrest⟩
      rw [hfront] at h
      have hself : trimLeft (mark :: rest) = mark :: rest := @trimLeft_append [] rest mark hblank
      rw [hself]
      exact h
    · obtain ⟨more, hmore⟩ := (stands_next h).before_mark rfl hfront hmark hquotes
      obtain ⟨before, behind, rfl, hcuts⟩ := ih hmore
      exact ⟨token :: before, behind, rfl, hcuts⟩

end Tails

/-! ### Two endings -/

/-- The first token of a text is cut first. -/
theorem Cuts.first {text rest : List Char} {token : ExprToken} {tokens : List ExprToken}
    (h : Cuts text tokens) (hnext : next? (trimLeft text) = .ok (token, rest)) :
    ∃ more, tokens = token :: more ∧ Cuts rest more := by
  cases h with
  | nil hblank =>
    rw [hblank] at hnext
    exact nomatch hnext
  | cons hfirst hrest =>
    rw [hnext] at hfirst
    obtain ⟨rfl, rfl⟩ := Prod.mk.inj (Except.ok.inj hfirst)
    exact ⟨_, rfl, hrest⟩

/-- No tokens end in a semicolon. -/
theorem not_cuts_semicolon (tokens : List ExprToken) : ¬ Cuts ";\n".toList tokens := by
  have hsemicolon : next? (trimLeft ";\n".toList) = .error (.unexpectedCharacter ';') := rfl
  intro h
  cases h with
  | nil hblank =>
    rw [hblank] at hsemicolon
    exact nomatch hsemicolon
  | cons hnext =>
    rw [hsemicolon] at hnext
    exact nomatch hnext

/-- The remark begins with a parenthesis and two names. -/
theorem tokens_of_cuts_remark {tokens : List ExprToken}
    (h : Cuts "(not expressible)\n".toList tokens) : ∃ more, tokens =
      .leftParen :: .identifier "not" :: .identifier "expressible" :: more := by
  have hparen : next? (trimLeft "(not expressible)\n".toList) =
    .ok (.leftParen, "not expressible)\n".toList) := rfl
  have hnot : next? (trimLeft "not expressible)\n".toList) =
    .ok (.identifier "not", " expressible)\n".toList) := rfl
  have hexpressible : next? (trimLeft " expressible)\n".toList) =
    .ok (.identifier "expressible", ")\n".toList) := rfl
  obtain ⟨behind, rfl, hbehind⟩ := h.first hparen
  obtain ⟨last, rfl, hlast⟩ := hbehind.first hnot
  obtain ⟨more, rfl, -⟩ := hlast.first hexpressible
  exact ⟨more, rfl⟩

end ExprToken

/-! ### Names side by side -/

/-- Whether a token is a name. -/
def ExprToken.isName : ExprToken → Bool
  | .identifier _ => true
  | _ => false

namespace Expr

/-- No two names stand side by side. -/
def Apart (tokens : List LocatedToken) : Prop :=
  tokens.IsChain fun token next => token.token.isName = true → next.token.isName = false

/-- In what is taken off tokens, no two names stand side by side. -/
def Takes (tokens rest : List LocatedToken) : Prop :=
  ∃ taken, tokens = taken ++ rest ∧ Apart taken

/-- In what is taken off tokens, no two names stand side by side, and no name stands at the front,
so that it can follow anything. -/
def TakesOn (tokens rest : List LocatedToken) : Prop :=
  ∃ taken, tokens = taken ++ rest ∧ Apart taken ∧ ∀ first ∈ taken.head?, first.token.isName = false

variable {tokens behind rest : List LocatedToken} {token wanted : ExprToken} {offset : Nat}

theorem TakesOn.refl (tokens : List LocatedToken) : TakesOn tokens tokens :=
  ⟨[], rfl, List.isChain_nil, by simp⟩

theorem TakesOn.takes (h : TakesOn tokens rest) : Takes tokens rest := by
  obtain ⟨taken, rfl, htaken, -⟩ := h
  exact ⟨taken, rfl, htaken⟩

theorem Takes.goOn (h : Takes tokens behind) (hbehind : TakesOn behind rest) :
    Takes tokens rest := by
  obtain ⟨taken, rfl, htaken⟩ := h
  obtain ⟨more, rfl, hmore, hfirst⟩ := hbehind
  refine ⟨taken ++ more, (List.append_assoc _ _ _).symm, ?_⟩
  exact List.IsChain.append htaken hmore fun _ _ next hnext _ => hfirst next hnext

/-- What is taken behind a token that is no name can follow anything together with it. -/
theorem TakesOn.of_takes (htoken : token.isName = false) (h : Takes tokens rest) :
    TakesOn (⟨token, offset⟩ :: tokens) rest := by
  obtain ⟨taken, rfl, htaken⟩ := h
  refine ⟨⟨token, offset⟩ :: taken, rfl, List.isChain_cons.2 ⟨fun next _ hname => ?_, htaken⟩,
    fun first hfirst => ?_⟩
  · rw [htoken] at hname
    exact nomatch hname
  · rw [← Option.some.inj hfirst]
    exact htoken

theorem Takes.first (h : TakesOn tokens rest) : Takes (⟨token, offset⟩ :: tokens) rest :=
  Takes.goOn ⟨[⟨token, offset⟩], rfl, List.isChain_singleton _⟩ h

/-! ### What parsers take -/

/-- A parser in whose expressions no two names stand side by side. -/
def KeepsApart (parser : Parser) : Prop :=
  ∀ tokens expr rest, parser tokens = .ok (expr, rest) → Takes tokens rest

/-- A parser that goes on with an expression. -/
def GoesOn (parser : Parser) : Prop :=
  ∀ tokens expr rest, parser tokens = .ok (expr, rest) → TakesOn tokens rest

theorem keepsApart_tooDeep : KeepsApart tooDeep :=
  fun _ _ _ h => nomatch h

theorem takesOn_of_ok {target expr : Expr}
    (h : (Except.ok (target, tokens) : Except ParseFault _) = .ok (expr, rest)) :
    TakesOn tokens rest := by
  obtain ⟨-, rfl⟩ := Prod.mk.inj (Except.ok.inj h)
  exact .refl tokens

/-- A token that has to stand there, and what is taken behind it. -/
theorem takesOn_of_expect (hwanted : wanted.isName = false)
    (h : expect wanted tokens = .ok behind) (hbehind : Takes behind rest) :
    TakesOn tokens rest := by
  rw [expect] at h
  split at h
  · next hcurrent =>
    obtain ⟨⟨token, offset⟩, hhead, htoken⟩ := Option.map_eq_some_iff.1 hcurrent
    obtain ⟨more, rfl⟩ := List.head?_eq_some_iff.1 hhead
    obtain rfl := Except.ok.inj h
    obtain rfl : token = wanted := htoken
    exact .of_takes hwanted hbehind
  · exact nomatch h

/-- An expression followed by what goes on with it. -/
theorem KeepsApart.goOn {first : Parser} {next : Nat → Expr → Parser} (hfirst : KeepsApart first)
    (hnext : ∀ fuel expr, GoesOn (next fuel expr)) :
    KeepsApart fun tokens => first tokens >>= fun taken =>
      next taken.2.length taken.1 taken.2 := by
  intro tokens expr rest h
  obtain ⟨⟨inner, behind⟩, hinner, hbehind⟩ := ok_of_bind h
  exact (hfirst tokens inner behind hinner).goOn (hnext _ inner behind expr rest hbehind)

variable {nested deeper : Parser}

/-- Names stand alone among the simplest expressions, and in parentheses. -/
theorem keepsApart_primary (hnested : KeepsApart nested) : KeepsApart (primary nested) := by
  intro tokens expr rest h
  rw [primary.eq_def] at h
  split at h
  · exact .first (takesOn_of_ok h)
  · exact .first (takesOn_of_ok h)
  · split at h
    · exact .first (takesOn_of_ok h)
    · exact nomatch h
  · obtain ⟨⟨inner, behind⟩, hinner, hparen⟩ := ok_of_bind h
    obtain ⟨last, hexpect, hlast⟩ := ok_of_bind hparen
    have hclosing := takesOn_of_expect rfl hexpect (takesOn_of_ok hlast).takes
    exact (TakesOn.of_takes rfl ((hnested _ inner behind hinner).goOn hclosing)).takes
  · exact nomatch h

/-- Behind a dot stands one name, and behind it no other. -/
theorem goesOn_accessFrom (hnested : KeepsApart nested) (fuel : Nat) (target : Expr) :
    GoesOn (accessFrom nested fuel target) := by
  induction fuel generalizing target with
  | zero => exact fun tokens expr rest h => takesOn_of_ok h
  | succ fuel ih =>
    intro tokens expr rest h
    rw [accessFrom.eq_def] at h
    simp only at h
    split at h
    -- a member: its name stands behind a dot
    · exact .of_takes rfl (.first (ih _ _ expr rest h))
    · exact nomatch h
    · obtain ⟨⟨position, behind⟩, hposition, hbracket⟩ := ok_of_bind h
      obtain ⟨last, hexpect, hlast⟩ := ok_of_bind hbracket
      have hclosing := takesOn_of_expect rfl hexpect (ih _ last expr rest hlast).takes
      exact .of_takes rfl ((hnested _ position behind hposition).goOn hclosing)
    · exact takesOn_of_ok h

theorem keepsApart_accessed (hnested : KeepsApart nested) : KeepsApart (accessed nested) :=
  (keepsApart_primary hnested).goOn fun fuel target => goesOn_accessFrom hnested fuel target

/-- Operands keep names apart, with operators in front or without. -/
theorem keepsApart_operand (hdeeper : KeepsApart deeper) (hnested : KeepsApart nested) :
    KeepsApart (operand deeper nested) := by
  intro tokens expr rest h
  rw [operand.eq_def] at h
  split at h
  · split at h
    · obtain ⟨⟨value, behind⟩, hvalue, hbehind⟩ := ok_of_bind h
      have hoperand := (hdeeper _ value behind hvalue).goOn (takesOn_of_ok hbehind)
      exact (TakesOn.of_takes rfl hoperand).takes
    · exact keepsApart_accessed hnested _ expr rest h
  · exact keepsApart_accessed hnested _ expr rest h

section Chains

variable {combine : ExprOperator → Option (Expr → Expr → Expr)} {next : Parser}

/-- Between two operands stands an operator. -/
theorem goesOn_chainFrom (hnext : KeepsApart next) (fuel : Nat) (left : Expr) :
    GoesOn (chainFrom combine next fuel left) := by
  induction fuel generalizing left with
  | zero => exact fun tokens expr rest h => takesOn_of_ok h
  | succ fuel ih =>
    intro tokens expr rest h
    rw [chainFrom.eq_def] at h
    simp only at h
    split at h
    · split at h
      · obtain ⟨⟨right, behind⟩, hright, hbehind⟩ := ok_of_bind h
        have hoperand := hnext _ right behind hright
        exact .of_takes rfl (hoperand.goOn (ih _ behind expr rest hbehind))
      · exact takesOn_of_ok h
    · exact takesOn_of_ok h

theorem keepsApart_chain (hnext : KeepsApart next) : KeepsApart (chain combine next) :=
  hnext.goOn fun fuel left => goesOn_chainFrom hnext fuel left

end Chains

theorem keepsApart_operators {operand : Parser} (hoperand : KeepsApart operand) :
    KeepsApart (operators operand) :=
  keepsApart_chain <| keepsApart_chain <| keepsApart_chain <| keepsApart_chain <|
    keepsApart_chain <| keepsApart_chain hoperand

/-- The branches of a conditional have a mark in front of them. -/
theorem keepsApart_conditionalOver {condition : Parser} (hcondition : KeepsApart condition)
    (hnested : KeepsApart nested) : KeepsApart (conditionalOver condition nested) := by
  intro tokens expr rest h
  obtain ⟨⟨test, behind⟩, htest, hbehind⟩ := ok_of_bind h
  refine (hcondition tokens test behind htest).goOn ?_
  simp only at hbehind
  split at hbehind
  · obtain ⟨⟨yes, last⟩, hyes, hlast⟩ := ok_of_bind hbehind
    obtain ⟨other, hexpect, hother⟩ := ok_of_bind hlast
    obtain ⟨⟨no, final⟩, hno, hfinal⟩ := ok_of_bind hother
    have hbranch := (hnested other no final hno).goOn (takesOn_of_ok hfinal)
    have hcolon := takesOn_of_expect rfl hexpect hbranch
    exact .of_takes rfl ((hnested _ yes last hyes).goOn hcolon)
  · exact takesOn_of_ok hbehind

/-- No expression has two names side by side. -/
theorem keepsApart_level (depth : Nat) :
    KeepsApart (level depth).nested ∧ KeepsApart (level depth).operand := by
  induction depth with
  | zero => exact ⟨keepsApart_tooDeep, keepsApart_operand keepsApart_tooDeep keepsApart_tooDeep⟩
  | succ depth ih =>
    have hnested := keepsApart_conditionalOver (keepsApart_operators ih.2) ih.1
    exact ⟨hnested, keepsApart_operand ih.2 hnested⟩

/-- **No expression ends like a line of a printed document**: not in a semicolon and a line feed,
and not in the remark that something is not expressible. -/
theorem not_suffix_of_parse {source : String} {tree : Expr} (h : parse source = .ok tree) :
    ¬ ";\n".toList <:+ source.toList ∧ ¬ "(not expressible)\n".toList <:+ source.toList := by
  rw [parse] at h
  simp only at h
  split at h
  · exact nomatch h
  obtain ⟨tokens, htokens, htree⟩ := ok_of_bind h
  have hcuts := ExprToken.cuts_of_cut (Nat.le_refl _) htokens
  have hapart : Apart tokens := by
    split at htree
    · exact nomatch htree
    · next expr hexpr =>
      obtain ⟨taken, rfl, htaken⟩ := (keepsApart_level maxDepth).1 tokens expr [] hexpr
      rw [List.append_nil]
      exact htaken
    · exact nomatch htree
  constructor
  · rintro ⟨front, htext⟩
    have hquotes : ∀ c ∈ ";\n".toList, c ≠ '"' ∧ c ≠ '\'' := by simp
    obtain ⟨before, behind, -, hbehind⟩ := hcuts.behind htext.symm (.inr rfl) hquotes
    exact ExprToken.not_cuts_semicolon behind hbehind
  · rintro ⟨front, htext⟩
    have hquotes : ∀ c ∈ "(not expressible)\n".toList, c ≠ '"' ∧ c ≠ '\'' := by simp
    obtain ⟨before, behind, hsplit, hbehind⟩ := hcuts.behind htext.symm (.inl rfl) hquotes
    obtain ⟨more, rfl⟩ := ExprToken.tokens_of_cuts_remark hbehind
    have hchain : (tokens.map LocatedToken.token).IsChain fun token next =>
      token.isName = true → next.isName = false := (List.isChain_map _).2 hapart
    rw [hsplit] at hchain
    -- behind the parenthesis stand two names
    have hnames := (List.isChain_append.1 hchain).2.1.tail
    exact nomatch (List.isChain_cons_cons.1 hnames).1 rfl

end Expr

end ChartSchema
