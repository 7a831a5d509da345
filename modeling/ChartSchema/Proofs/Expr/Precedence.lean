import ChartSchema.Proofs.Expr.Rendering

/-!
# Precedence of operators

The rendered text of an expression parses as that expression, if the depth is enough for it, and
otherwise fails because the depth is used up (`Expr.parse_text`). The parser of a grade takes a
rendered expression of at most that grade off the front of the tokens and goes on with it
(`Expr.Reads`), whatever follows that does not belong to a tighter grade. So the left side of an
operator is what was read before, and the right side ends where the next operator of the level
stands.

What follows is part of the statement: tokens **end** a grade if none of its operators, nor of a
tighter one, goes on with them (`Ends`). With this the parsers of all grades can be spoken of at
once, by numbers, and a rendered expression is read by the parser of its own grade and by those of
all looser grades (`Reads.mono`).

The depth is carried along as a condition. `Gives fits first second` says that two parsers give the
same if the depth fits, and that the first fails as too deep if it does not; it composes
(`Gives.trans`), so that each construct adds the condition of its parts. A construct in parentheses
is read one level further down.

There is one lemma for each construct, from `readable_literal` to `readable_conditional`, in which
its operands are read already; `readable` puts them together by induction over the expression. With
the tokens of a text being those that were rendered, this is a statement about the text.
-/

namespace ChartSchema

namespace Expr

/-! ### The parsers by grade -/

/-- The operators whose right side admits a grade, and what they build. -/
def levelOperator : Nat → ExprOperator → Option (Expr → Expr → Expr)
  | 1 => productOperator
  | 2 => sumOperator
  | 3 => comparisonOperator
  | 4 => equalityOperator
  | 5 => andOperator
  | 6 => orOperator
  | _ => fun _ => none

/-- The parser for expressions of at most a grade, conditionals left out. -/
def parserAt (depth : Nat) : Nat → Parser
  | 0 => accessed (level depth).nested
  | 1 => (level depth).operand
  | inner + 2 => chain (levelOperator (inner + 1)) (parserAt depth (inner + 1))

/-- How a conditional goes on with its condition. -/
def branches (nested : Parser) (condition : Expr) : Parser
  | ⟨.question, _⟩ :: rest => do
    let (yes, rest) ← nested rest
    let rest ← expect .colon rest
    let (no, rest) ← nested rest
    .ok (.conditional condition yes no, rest)
  | rest => .ok (condition, rest)

/-- An expression one level deeper is a condition, with its branches if there are any. -/
theorem nested_level_succ (depth : Nat) (tokens : List LocatedToken) :
    (level (depth + 1)).nested tokens =
      (parserAt depth 7 tokens).bind fun taken =>
        branches (level depth).nested taken.1 taken.2 :=
  rfl

/-- At depth zero nothing further down is parsed. -/
theorem operand_level_zero : (level 0).operand = operand tooDeep tooDeep :=
  rfl

/-- One level of depth more parses operands by the level below. -/
theorem operand_level_succ (depth : Nat) :
    (level (depth + 1)).operand = operand (level depth).operand (level (depth + 1)).nested :=
  rfl

/-- How the parser of a grade goes on with an expression. -/
def goOn (depth : Nat) : Nat → Nat → Expr → Parser
  | 0, fuel, e => accessFrom (level depth).nested fuel e
  | 1, _, e => fun rest => .ok (e, rest)
  | inner + 2, fuel, e =>
    chainFrom (levelOperator (inner + 1)) (parserAt depth (inner + 1)) fuel e

/-! ### What follows -/

/-- The grade of the right side of an operator, if it is a binary or logical one. -/
def inner? : ExprOperator → Option Nat
  | .times | .over | .percent => some 1
  | .plus | .minus => some 2
  | .less | .lessEqual | .greater | .greaterEqual => some 3
  | .equal | .notEqual => some 4
  | .and => some 5
  | .or => some 6
  | .bang => none

/-- The grade of what a token builds with the expression in front of it. -/
def joins? : ExprToken → Option Nat
  | .dot => some 0
  | .leftBracket => some 0
  | .operator op => (inner? op).map (· + 1)
  | .question => some 8
  | _ => none

/-- Nothing follows that builds an expression of a tighter grade with what stands in front. -/
def Ends (grade : Nat) (rest : List LocatedToken) : Prop :=
  ∀ token ∈ current rest, ∀ joined ∈ joins? token, grade ≤ joined

variable {depth grade levels inner fuel offset : Nat} {e : Expr} {tokens : List ExprToken}
  {token : ExprToken} {located rest : List LocatedToken}

/-- What ends a grade ends the tighter ones. -/
theorem Ends.mono {tighter : Nat} (h : Ends grade rest) (hle : tighter ≤ grade) :
    Ends tighter rest :=
  fun token htoken joined hjoined => Nat.le_trans hle (h token htoken joined hjoined)

theorem ends_zero (rest : List LocatedToken) : Ends 0 rest :=
  fun _ _ _ _ => Nat.zero_le _

/-- Tokens end a grade if the first of them belongs to none that is tighter. -/
theorem ends_cons_iff :
    Ends grade (⟨token, offset⟩ :: rest) ↔ ∀ joined ∈ joins? token, grade ≤ joined := by
  constructor
  · exact fun h => h token rfl
  · intro h first hfirst
    obtain rfl := Option.some.inj hfirst
    exact h

/-- In front of a closing mark, every expression ends. -/
theorem ends_of_closing (h : joins? token = none) : Ends grade (⟨token, offset⟩ :: rest) := by
  rw [ends_cons_iff, h]
  exact fun joined hjoined => nomatch hjoined

/-- In front of a token that joins it, an expression is read up to the grade of the whole. -/
theorem ends_of_joins {joined : Nat} (h : joins? token = some joined) :
    Ends joined (⟨token, offset⟩ :: rest) := by
  rw [ends_cons_iff, h]
  intro other hother
  rw [Option.some.inj hother]

theorem Ends.le_of_joins {joined : Nat} (h : Ends grade (⟨token, offset⟩ :: rest))
    (hjoins : joins? token = some joined) : grade ≤ joined :=
  ends_cons_iff.1 h joined hjoins

/-- Nothing is joined behind a unary operator but what is joined to its operand. -/
theorem Ends.two (h : Ends 1 rest) : Ends 2 rest := by
  intro token htoken joined hjoined
  have hone := h token htoken joined hjoined
  have hne : joined ≠ 1 := by
    rintro rfl
    cases token with
    | operator op => cases op <;> exact nomatch hjoined
    | _ => exact nomatch hjoined
  omega

theorem inner?_of_levelOperator {op : ExprOperator} {build : Expr → Expr → Expr}
    (h : levelOperator inner op = some build) : inner? op = some inner := by
  unfold levelOperator at h
  split at h
  all_goals
    cases op
    all_goals
      first
        | rfl
        | exact nomatch h

/-- A binary operator belongs to the level with its grade. -/
theorem levelOperator_binary (op : BinaryOp) :
    levelOperator op.inner op.operator = some (.binary op) := by
  cases op <;> rfl

theorem levelOperator_logical (op : LogicalOp) :
    levelOperator op.inner op.operator = some (.logical op) := by
  cases op <;> rfl

/-- A parser stops where what follows belongs to looser grades. -/
theorem goOn_of_ends (h : Ends (grade + 1) rest) :
    goOn depth grade fuel e rest = .ok (e, rest) := by
  match grade, fuel with
  | 0, 0 => rfl
  | 0, fuel + 1 =>
    rw [goOn, accessFrom.eq_def]
    simp only
    split
    · exact absurd (h.le_of_joins rfl) (by decide)
    · exact absurd (h.le_of_joins rfl) (by decide)
    · exact absurd (h.le_of_joins rfl) (by decide)
    · rfl
  | 1, _ => rfl
  | inner + 2, 0 => rfl
  | inner + 2, fuel + 1 =>
    rw [goOn, chainFrom.eq_def]
    simp only
    split
    · next op offset behind =>
      split
      · next build hbuild =>
        have hjoins : joins? (.operator op) = some (inner + 2) := by
          rw [joins?, inner?_of_levelOperator hbuild, Option.map_some]
        have := h.le_of_joins hjoins
        omega
      · rfl
    · rfl

/-! ### Results -/

/-- A result that is the expected one as long as the depth is enough, and otherwise the failure that
says that it is not. -/
structure Gives {α : Type} (fits : Prop) (result expected : Except ParseFault α) : Prop where
  eq_of_fits : fits → result = expected
  tooDeep_of_not : ¬ fits → ∃ rest, result = .error (.tooDeep, rest)

namespace Gives

variable {α β : Type} {fits more : Prop} {first second third : Except ParseFault α}

/-- What is the same is the same whether the depth fits or not. -/
theorem of_eq (hfits : fits) (h : first = second) : Gives fits first second :=
  ⟨fun _ => h, fun hnot => absurd hfits hnot⟩

theorem of_not (hnot : ¬ fits) (rest : List LocatedToken) :
    Gives fits (.error (.tooDeep, rest)) second :=
  ⟨fun hfits => absurd hfits hnot, fun _ => ⟨rest, rfl⟩⟩

theorem of_iff (h : Gives fits first second) (hiff : fits ↔ more) : Gives more first second :=
  ⟨fun hmore => h.eq_of_fits (hiff.2 hmore), fun hnot => h.tooDeep_of_not (mt hiff.1 hnot)⟩

/-- Two steps need the depth of both. -/
theorem trans (h : Gives fits first second) (hnext : Gives more second third) :
    Gives (fits ∧ more) first third := by
  constructor
  · rintro ⟨hfits, hmore⟩
    rw [h.eq_of_fits hfits, hnext.eq_of_fits hmore]
  · intro hnot
    by_cases hfits : fits
    · rw [h.eq_of_fits hfits]
      exact hnext.tooDeep_of_not fun hmore => hnot ⟨hfits, hmore⟩
    · exact h.tooDeep_of_not hfits

/-- A step after which the next one works on the expected value. -/
theorem bind {value : α} (h : Gives fits first (.ok value)) (next : α → Except ParseFault β) :
    Gives fits (first >>= next) (next value) := by
  constructor
  · intro hfits
    rw [h.eq_of_fits hfits]
    rfl
  · intro hnot
    obtain ⟨rest, hfirst⟩ := h.tooDeep_of_not hnot
    rw [hfirst]
    exact ⟨rest, rfl⟩

end Gives

/-! ### Reading -/

/-- The parser of a grade takes tokens as an expression and goes on with it, if the depth is enough
for the levels of the expression. -/
def Reads (depth grade levels : Nat) (tokens : List ExprToken) (e : Expr) : Prop :=
  ∀ located rest, located.map LocatedToken.token = tokens → Ends grade rest →
    ∃ fuel, rest.length ≤ fuel ∧ Gives (levels ≤ depth) (parserAt depth grade (located ++ rest))
      (goOn depth grade fuel e rest)

/-- At one level less, the rendered expression is read as a whole. -/
def ReadsNested (depth : Nat) (e : Expr) : Prop :=
  ∀ located rest, located.map LocatedToken.token = e.tokens → Ends 9 rest →
    Gives (e.nesting < depth) ((level depth).nested (located ++ rest)) (.ok (e, rest))

/-- A first token that is no operator. -/
def StartsPlain (tokens : List ExprToken) : Prop :=
  ∃ first more, tokens = first :: more ∧ ∀ op, first ≠ .operator op

/-- What is read with nothing behind it that would join it. -/
theorem Reads.stop (h : Reads depth grade levels tokens e)
    (hlocated : located.map LocatedToken.token = tokens) (hends : Ends (grade + 1) rest) :
    Gives (levels ≤ depth) (parserAt depth grade (located ++ rest)) (.ok (e, rest)) := by
  obtain ⟨fuel, -, hgives⟩ := h located rest hlocated (hends.mono (Nat.le_succ grade))
  rw [goOn_of_ends hends] at hgives
  exact hgives

/-- What is read with a token behind it leaves fuel for that token. -/
theorem Reads.before (h : Reads depth grade levels tokens e)
    (hlocated : located.map LocatedToken.token = tokens)
    (hends : Ends grade (⟨token, offset⟩ :: rest)) :
    ∃ fuel, rest.length ≤ fuel ∧
      Gives (levels ≤ depth) (parserAt depth grade (located ++ ⟨token, offset⟩ :: rest))
        (goOn depth grade (fuel + 1) e (⟨token, offset⟩ :: rest)) := by
  obtain ⟨fuel, hfuel, hgives⟩ := h located _ hlocated hends
  rw [List.length_cons] at hfuel
  cases fuel with
  | zero => omega
  | succ fuel => exact ⟨fuel, by omega, hgives⟩

/-- Without an operator in front, an operand is an expression with what is accessed of it. -/
theorem operand_of_first (h : ∀ op, current located ≠ some (.operator op)) :
    (level depth).operand located = accessed (level depth).nested located := by
  have hoperand (deeper nested : Parser) :
      operand deeper nested located = accessed nested located := by
    rw [operand.eq_def]
    split
    · next op offset rest => exact absurd rfl (h op)
    · rfl
  cases depth with
  | zero => exact hoperand _ _
  | succ depth => exact hoperand _ _

/-- The parser of a looser grade reads what the parser of a grade reads. -/
theorem Reads.succ (hstart : grade = 0 → StartsPlain tokens)
    (h : Reads depth grade levels tokens e) : Reads depth (grade + 1) levels tokens e := by
  intro located rest hlocated hends
  have hgives := h.stop hlocated hends
  cases grade with
  | zero =>
    obtain ⟨first, more, rfl, hfirst⟩ := hstart rfl
    obtain ⟨⟨token, offset⟩, behind, rfl, rfl, -⟩ := List.map_eq_cons_iff.1 hlocated
    refine ⟨rest.length, Nat.le_refl _, ?_⟩
    have hoperand := @operand_of_first depth (⟨token, offset⟩ :: behind ++ rest) fun op heq =>
      hfirst op (Option.some.inj heq)
    rw [parserAt, hoperand]
    exact hgives
  | succ inner => exact ⟨rest.length, Nat.le_refl _, hgives.bind _⟩

/-- **What is read at a grade is read at looser ones.** -/
theorem Reads.mono {looser : Nat} (hstart : grade = 0 → StartsPlain tokens)
    (h : Reads depth grade levels tokens e) (hle : grade ≤ looser) :
    Reads depth looser levels tokens e := by
  induction hle with
  | refl => exact h
  | step hle ih => exact ih.succ fun hzero => hstart (Nat.le_zero.1 (hzero ▸ hle))

/-! ### Parentheses -/

theorem startsPlain_parens (tokens : List ExprToken) : StartsPlain (.leftParen :: tokens) :=
  ⟨_, _, rfl, fun _ heq => nomatch heq⟩

theorem expect_cons (rest : List LocatedToken) :
    expect token (⟨token, offset⟩ :: rest) = .ok rest :=
  if_pos rfl

/-- In parentheses, an expression is read one level deeper and can be followed by anything. -/
theorem ReadsNested.parens (h : ReadsNested depth e) :
    Reads depth 0 (e.nesting + 1) (.leftParen :: (e.tokens ++ [.rightParen])) e := by
  intro located rest hlocated hends
  obtain ⟨⟨_, opening⟩, behind, rfl, rfl, hbehind⟩ := List.map_eq_cons_iff.1 hlocated
  obtain ⟨inner, last, rfl, hinner, hlast⟩ := List.map_eq_append_iff.1 hbehind
  obtain ⟨⟨_, closing⟩, rfl, rfl⟩ := List.map_eq_singleton_iff.1 hlast
  have hnested := h inner (⟨.rightParen, closing⟩ :: rest) hinner (ends_of_closing rfl)
  have hprimary : Gives (e.nesting < depth) (primary (level depth).nested
      (⟨.leftParen, opening⟩ :: (inner ++ ⟨.rightParen, closing⟩ :: rest))) (.ok (e, rest)) := by
    have hparens := hnested.bind fun taken =>
      (expect .rightParen taken.2).bind fun rest => .ok (taken.1, rest)
    rw [expect_cons] at hparens
    exact hparens
  refine ⟨rest.length, Nat.le_refl _, ?_⟩
  rw [List.cons_append, List.append_assoc]
  exact hprimary.bind fun taken => accessFrom (level depth).nested taken.2.length taken.1 taken.2

/-- What is read in a place that admits a grade, and what is read with nothing behind it. -/
structure Readable (e : Expr) : Prop where
  starts : e.grade = 0 → StartsPlain e.tokens
  placed : ∀ depth grade, grade ≤ 7 →
    Reads depth grade (e.deepened grade e.nesting) (e.placed grade e.tokens) e
  nested : ∀ depth, ReadsNested depth e

/-- An expression that binds most loosely is read in parentheses, or where everything is admitted.
-/
theorem readable_of_nested (hgrade : 7 < e.grade) (h : ∀ depth, ReadsNested depth e) :
    Readable e where
  starts hzero := absurd hgrade (by omega)
  placed depth grade hle := by
    have hparens : Reads depth grade _ _ e := (h depth).parens.mono
      (fun _ => startsPlain_parens _) (Nat.zero_le grade)
    rw [deepened, Expr.placed, if_pos (by omega), if_pos (by omega)]
    exact hparens
  nested := h

/-- What is no conditional is read as a condition without branches. -/
theorem readsNested_of_reads (h : ∀ depth, Reads depth 7 e.nesting e.tokens e) (depth : Nat) :
    ReadsNested depth e := by
  intro located rest hlocated hends
  cases depth with
  | zero => exact .of_not (Nat.not_lt_zero _) _
  | succ depth =>
    have hstop : branches (level depth).nested e rest = .ok (e, rest) := by
      rw [branches.eq_def]
      split
      · exact absurd (hends.le_of_joins rfl) (by decide)
      · rfl
    have hcondition := (h depth).stop hlocated (hends.mono (by decide))
    have hread := hcondition.bind fun taken => branches (level depth).nested taken.1 taken.2
    rw [hstop] at hread
    rw [nested_level_succ]
    exact hread.of_iff Nat.lt_succ_iff.symm

/-- An expression that is read at its own grade is read wherever it can stand. -/
theorem readable_of_reads (hgrade : e.grade ≤ 7) (hstart : e.grade = 0 → StartsPlain e.tokens)
    (h : ∀ depth, Reads depth e.grade e.nesting e.tokens e) : Readable e where
  starts := hstart
  placed depth grade hle := by
    rw [deepened, Expr.placed]
    split
    · exact (readsNested_of_reads (fun depth => (h depth).mono hstart hgrade) depth).parens.mono
        (fun _ => startsPlain_parens _) (Nat.zero_le grade)
    · exact (h depth).mono hstart (by omega)
  nested := readsNested_of_reads fun depth => (h depth).mono hstart hgrade

/-! ### Every construct -/

/-- An expression of one token. -/
theorem readable_of_primary (hgrade : e.grade = 0) (hnesting : e.nesting = 0)
    (htokens : e.tokens = [token]) (htoken : ∀ op, token ≠ .operator op)
    (h : ∀ nested offset rest, primary nested (⟨token, offset⟩ :: rest) = .ok (e, rest)) :
    Readable e := by
  refine readable_of_reads (by omega) (fun _ => ⟨token, [], htokens, htoken⟩) fun depth => ?_
  rw [hgrade, hnesting, htokens]
  intro located rest hlocated _
  obtain ⟨⟨_, offset⟩, rfl, rfl⟩ := List.map_eq_singleton_iff.1 hlocated
  refine ⟨rest.length, Nat.le_refl _, .of_eq (Nat.zero_le _) ?_⟩
  rw [List.singleton_append, parserAt, accessed, h]
  rfl

theorem readable_literal {value : Json} (h : IsPlainLiteral value) : Readable (.literal value) := by
  cases value with
  | null => exact readable_of_primary rfl rfl rfl (by simp) fun _ _ _ => rfl
  | bool value =>
    cases value with
    | false => exact readable_of_primary rfl rfl rfl (by simp) fun _ _ _ => rfl
    | true => exact readable_of_primary rfl rfl rfl (by simp) fun _ _ _ => rfl
  | number number =>
    cases number with
    | integer value inRange =>
      obtain ⟨hlow, hhigh⟩ : 0 ≤ value ∧ value < 0x20000000000000 := h
      have hsmall : value.natAbs < Nat.pow 2 53 := by
        have hpow : Nat.pow 2 53 = 0x20000000000000 := rfl
        omega
      have hmeasure : Json.ofMeasure (.ofInt value) = .number (.integer value inRange) := by
        rw [Json.ofMeasure_ofInt hsmall, Json.ofInt, dif_pos inRange]
      refine readable_of_primary rfl rfl rfl (by simp) fun nested offset rest => ?_
      rw [primary, hmeasure]
    | real value isFinite => exact h.elim
  | string text => exact readable_of_primary rfl rfl rfl (by simp) fun _ _ _ => rfl
  | array items => exact h.elim
  | object fields => exact h.elim

theorem startsPlain_placed {target : Expr} (h : Readable target) (more : List ExprToken) :
    StartsPlain (target.placed 0 target.tokens ++ more) := by
  rw [Expr.placed]
  split
  · exact startsPlain_parens _
  · obtain ⟨first, behind, htokens, hfirst⟩ := h.starts (by omega)
    exact ⟨first, behind ++ more, by rw [htokens, List.cons_append], hfirst⟩

/-- A member of an expression is read behind it. -/
theorem readable_member {target : Expr} (h : Readable target) (name : String) :
    Readable (.member target name) := by
  refine readable_of_reads (Nat.zero_le _) (fun _ => startsPlain_placed h _) fun depth => ?_
  intro located rest hlocated _
  obtain ⟨inside, behind, rfl, hinside, hbehind⟩ := List.map_eq_append_iff.1 hlocated
  obtain ⟨⟨_, dot⟩, last, rfl, rfl, hlast⟩ := List.map_eq_cons_iff.1 hbehind
  obtain ⟨⟨_, offset⟩, rfl, rfl⟩ := List.map_eq_singleton_iff.1 hlast
  have hdot : Ends 0 (⟨.dot, dot⟩ :: ⟨.identifier name, offset⟩ :: rest) := ends_zero _
  obtain ⟨fuel, hfuel, hgives⟩ := (h.placed depth 0 (Nat.zero_le _)).before hinside hdot
  rw [List.length_cons] at hfuel
  rw [List.append_assoc]
  exact ⟨fuel, by omega, hgives⟩

theorem readable_index {target position : Expr} (htarget : Readable target)
    (hposition : Readable position) : Readable (.index target position) := by
  refine readable_of_reads (Nat.zero_le _) (fun _ => startsPlain_placed htarget _) fun depth => ?_
  intro located rest hlocated _
  obtain ⟨inside, behind, rfl, hinside, hbehind⟩ := List.map_eq_append_iff.1 hlocated
  obtain ⟨⟨_, opening⟩, more, rfl, rfl, hmore⟩ := List.map_eq_cons_iff.1 hbehind
  obtain ⟨inner, last, rfl, hinner, hlast⟩ := List.map_eq_append_iff.1 hmore
  obtain ⟨⟨_, closing⟩, rfl, rfl⟩ := List.map_eq_singleton_iff.1 hlast
  have hopening : Ends 0
      (⟨.leftBracket, opening⟩ :: (inner ++ ⟨.rightBracket, closing⟩ :: rest)) := ends_zero _
  obtain ⟨fuel, hfuel, hgives⟩ := (htarget.placed depth 0 (Nat.zero_le _)).before hinside hopening
  rw [List.length_append, List.length_cons] at hfuel
  have hnested := hposition.nested depth inner (⟨.rightBracket, closing⟩ :: rest) hinner
    (ends_of_closing rfl)
  have hlast := hnested.bind fun taken => (expect .rightBracket taken.2).bind fun rest =>
    accessFrom (level depth).nested fuel (.index target taken.1) rest
  rw [expect_cons] at hlast
  rw [List.append_assoc, List.cons_append, List.append_assoc]
  refine ⟨fuel, by omega, (hgives.trans hlast).of_iff ?_⟩
  rw [nesting]
  omega

/-- A unary operator takes its operand one level deeper. -/
theorem operand_operator {op : UnaryOp} (deeper nested : Parser) (rest : List LocatedToken) :
    operand deeper nested (⟨.operator op.operator, offset⟩ :: rest) =
      (deeper rest).bind fun taken => .ok (.unary op taken.1, taken.2) := by
  cases op <;> rfl

/-- A unary operator is read with its operand, which may have one itself. -/
theorem readable_unary {operand : Expr} (h : Readable operand) (op : UnaryOp) :
    Readable (.unary op operand) := by
  have hgrade : (Expr.unary op operand).grade = 1 := rfl
  refine readable_of_reads (by omega) (by omega) fun depth => ?_
  intro located rest hlocated hends
  obtain ⟨⟨_, offset⟩, behind, rfl, rfl, hbehind⟩ := List.map_eq_cons_iff.1 hlocated
  refine ⟨rest.length, Nat.le_refl _, ?_⟩
  rw [hgrade, goOn, parserAt, nesting, List.cons_append]
  cases depth with
  | zero =>
    rw [operand_level_zero, operand_operator]
    exact .of_not (by omega) (behind ++ rest)
  | succ depth =>
    have hoperand := (h.placed depth 1 (by decide)).stop hbehind hends.two
    have hread := hoperand.bind fun taken => .ok (Expr.unary op taken.1, taken.2)
    rw [operand_level_succ, operand_operator]
    exact hread.of_iff Nat.succ_le_succ_iff.symm

/-- The left side of an operator is what was read before, and its right side ends where the next
operator of the level stands. -/
theorem reads_infix {left right : Expr} {op : ExprOperator} {build : Expr → Expr → Expr}
    {leftLevels rightLevels : Nat} {leftTokens rightTokens : List ExprToken}
    (hop : levelOperator inner op = some build)
    (hleft : Reads depth (inner + 1) leftLevels leftTokens left)
    (hright : Reads depth inner rightLevels rightTokens right) :
    Reads depth (inner + 1) (max leftLevels rightLevels)
      (leftTokens ++ .operator op :: rightTokens) (build left right) := by
  intro located rest hlocated hends
  obtain ⟨front, behind, rfl, hfront, hbehind⟩ := List.map_eq_append_iff.1 hlocated
  obtain ⟨⟨_, offset⟩, back, rfl, rfl, hback⟩ := List.map_eq_cons_iff.1 hbehind
  have hjoins : joins? (.operator op) = some (inner + 1) := by
    rw [joins?, inner?_of_levelOperator hop, Option.map_some]
  -- the left side ends in front of the operator, since that joins it
  have hoperator : Ends (inner + 1) (⟨.operator op, offset⟩ :: (back ++ rest)) :=
    ends_of_joins hjoins
  obtain ⟨fuel, hfuel, hgives⟩ := hleft.before hfront hoperator
  -- what follows joins at most the whole, so that the right side ends in front of it
  have hstop := hright.stop hback hends
  rw [List.length_append] at hfuel
  rw [List.append_assoc, List.cons_append]
  cases inner with
  | zero => exact nomatch hop
  | succ inner =>
    have hnext := hstop.bind fun taken =>
      chainFrom (levelOperator (inner + 1)) (parserAt depth (inner + 1)) fuel
        (build left taken.1) taken.2
    rw [goOn, chainFrom] at hgives
    simp only [hop] at hgives
    exact ⟨fuel, by omega, (hgives.trans hnext).of_iff Nat.max_le.symm⟩

/-- A binary operator is read between its sides, of which the left one may have the same grade. -/
theorem readable_binary {left right : Expr} (hleft : Readable left) (hright : Readable right)
    (op : BinaryOp) : Readable (.binary op left right) := by
  have hgrade : (Expr.binary op left right).grade = op.inner + 1 := rfl
  have hinner : op.inner ≤ 4 := by cases op <;> decide
  exact readable_of_reads (by omega) (by omega) fun depth => reads_infix (levelOperator_binary op)
    (hleft.placed depth _ (by omega)) (hright.placed depth _ (by omega))

theorem readable_logical {left right : Expr} (hleft : Readable left) (hright : Readable right)
    (op : LogicalOp) : Readable (.logical op left right) := by
  have hgrade : (Expr.logical op left right).grade = op.inner + 1 := rfl
  have hinner : op.inner ≤ 6 := by cases op <;> decide
  exact readable_of_reads (by omega) (by omega) fun depth => reads_infix (levelOperator_logical op)
    (hleft.placed depth _ (by omega)) (hright.placed depth _ (by omega))

/-- A conditional is read with everything in its branches. -/
theorem readable_conditional {condition yes no : Expr} (hcondition : Readable condition)
    (hyes : Readable yes) (hno : Readable no) : Readable (.conditional condition yes no) := by
  refine readable_of_nested (Nat.lt_succ_self 7) fun depth => ?_
  intro located rest hlocated hends
  obtain ⟨front, behind, rfl, hfront, hbehind⟩ := List.map_eq_append_iff.1 hlocated
  obtain ⟨⟨_, question⟩, more, rfl, rfl, hmore⟩ := List.map_eq_cons_iff.1 hbehind
  obtain ⟨middle, last, rfl, hmiddle, hlast⟩ := List.map_eq_append_iff.1 hmore
  obtain ⟨⟨_, colon⟩, back, rfl, rfl, hback⟩ := List.map_eq_cons_iff.1 hlast
  cases depth with
  | zero => exact .of_not (Nat.not_lt_zero _) _
  | succ depth =>
    have hquestion : Ends 8
        (⟨.question, question⟩ :: (middle ++ ⟨.colon, colon⟩ :: (back ++ rest))) :=
      ends_of_joins rfl
    -- the condition ends at the question mark, the first branch at the colon
    have htest := (hcondition.placed depth 7 (Nat.le_refl _)).stop hfront hquestion
    have hfirst := hyes.nested depth middle (⟨.colon, colon⟩ :: (back ++ rest)) hmiddle
      (ends_of_closing rfl)
    have hsecond := hno.nested depth back rest hback hends
    have hread := htest.bind fun taken => branches (level depth).nested taken.1 taken.2
    have hbranch := hfirst.bind fun taken => (expect .colon taken.2).bind fun rest =>
      ((level depth).nested rest).bind fun last =>
        .ok (Expr.conditional condition taken.1 last.1, last.2)
    rw [expect_cons] at hbranch
    have hlast := hsecond.bind fun last => .ok (Expr.conditional condition yes last.1, last.2)
    rw [nested_level_succ, List.append_assoc, List.cons_append, List.append_assoc,
      List.cons_append]
    refine ((hread.trans hbranch).trans hlast).of_iff ?_
    rw [nesting]
    omega

/-! ### The whole expression -/

/-- Every expression that can be written is read back from its tokens. -/
theorem readable {e : Expr} (h : e.IsPlain) : Readable e := by
  induction e with
  | literal value => exact readable_literal h
  | params => exact readable_of_primary rfl rfl rfl (by simp) fun _ _ _ => rfl
  | member target name htarget => exact readable_member (htarget h.1) name
  | index target position htarget hposition =>
    exact readable_index (htarget h.1) (hposition h.2)
  | unary op operand hoperand => exact readable_unary (hoperand h) op
  | binary op left right hleft hright => exact readable_binary (hleft h.1) (hright h.2) op
  | logical op left right hleft hright => exact readable_logical (hleft h.1) (hright h.2) op
  | conditional condition yes no hcondition hyes hno =>
    exact readable_conditional (hcondition h.1) (hyes h.2.1) (hno h.2.2)

/-- **The text of an expression parses as that expression**, if it nests at most 64 levels deep, and
otherwise fails because it nests deeper. -/
theorem parse_text {e : Expr} (h : e.IsPlain) (hsize : byteLength e.text.toList ≤ 1024) :
    (e.depth ≤ 64 → parse e.text = .ok e) ∧
      (64 < e.depth → ∃ offset, parse e.text = .error ⟨.tooDeep, offset⟩) := by
  obtain ⟨located, htokens, hlocated⟩ := exists_ofText?_text h
  have hread := (readable h).nested maxDepth located [] hlocated (by simp [Ends, current])
  rw [List.append_nil] at hread
  have hlength : ¬ maxLength < byteLength e.text.toList := Nat.not_lt.2 hsize
  constructor
  · intro hdepth
    have hnested := hread.eq_of_fits hdepth
    rw [parse]
    simp only [if_neg hlength, htokens, bind, Except.bind, hnested]
  · intro hdepth
    have hnot : ¬ e.nesting < maxDepth := by
      rw [depth] at hdepth
      rw [maxDepth]
      omega
    obtain ⟨rest, hnested⟩ := hread.tooDeep_of_not hnot
    rw [parse]
    simp only [if_neg hlength, htokens, bind, Except.bind, hnested]
    exact ⟨_, rfl⟩

/-- A product with a sum on its left, in one branch of a conditional, and 64 unary operators. -/
theorem parse_text_mixed :
    let three : Expr := .literal (.number (.integer 3 (by decide)))
    let size : Expr := .member .params "size"
    let mixed : Expr := .conditional (.binary .less size three)
      (.binary .mul (.binary .add size three) (.unary .minus size))
      (.index .params (.literal (.string "a\"b")))
    let deep : Expr := Nat.repeat (.unary .not) 64 .params
    mixed.text = "params . size < 3 ? ( params . size + 3 ) * - params . size : " ++
      "params [ \"a\\\"b\" ]" ∧
      parse mixed.text = .ok mixed ∧ ∃ offset, parse deep.text = .error ⟨.tooDeep, offset⟩ := by
  intro three size mixed deep
  have hsize : size.IsPlain := ⟨trivial, isIdentifier_cons rfl rfl⟩
  have hthree : three.IsPlain := ⟨by decide, by decide⟩
  have hmixed : mixed.IsPlain := ⟨⟨hsize, hthree⟩, ⟨⟨hsize, hthree⟩, hsize⟩, trivial, trivial⟩
  have hdeep : deep.IsPlain := trivial
  refine ⟨by decide +kernel, ?_, ?_⟩
  · exact (parse_text hmixed (by decide +kernel)).1 (by decide)
  · exact (parse_text hdeep (by decide +kernel)).2 (by decide)

end Expr

end ChartSchema
