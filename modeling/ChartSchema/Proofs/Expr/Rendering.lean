import ChartSchema.Expr.Parser
import ChartSchema.Proofs.Number.Integers

/-!
# Rendering expressions

An expression is rendered as its tokens with one blank between them (`Expr.text`). Its **grade**
says how loosely its outermost construct binds, and an operand stands in parentheses where its grade
is looser than the place admits: binary and logical operators admit their own grade on the left
only, and both branches of a conditional admit everything. The rendering has nothing of the parser
in it, so that it can serve as the meaning of precedence.

Not every syntax tree has a text: `Expr.IsPlain` asks that literals are of the kinds that can be
written, that numbers are exact integers without a sign, and that names are identifiers.

Cutting the text into tokens gives the rendered tokens back (`Expr.exists_ofText?_text`). For one
token this is `next?_spell`, with a case for each kind: an operator is recognized with a blank
behind it although a longer one may begin alike, a number is read up to the blank, a string up to
its closing quote with what is escaped in it, and an identifier up to the first character that
cannot be in one. The blanks between the tokens are what makes this work for all tokens next to each
other, and the induction is over the tokens.
-/

namespace ChartSchema

/-! ### Operators -/

/-- The operator that is written for a unary one. -/
def UnaryOp.operator : UnaryOp → ExprOperator
  | .not => .bang
  | .minus => .minus
  | .plus => .plus

/-- The operator that is written for a binary one. -/
def BinaryOp.operator : BinaryOp → ExprOperator
  | .add => .plus
  | .sub => .minus
  | .mul => .times
  | .div => .over
  | .rem => .percent
  | .equal => .equal
  | .notEqual => .notEqual
  | .less => .less
  | .lessEqual => .lessEqual
  | .greater => .greater
  | .greaterEqual => .greaterEqual

def LogicalOp.operator : LogicalOp → ExprOperator
  | .and => .and
  | .or => .or

/-- The loosest grade of the right side of an operator. -/
def BinaryOp.inner : BinaryOp → Nat
  | .mul | .div | .rem => 1
  | .add | .sub => 2
  | .less | .lessEqual | .greater | .greaterEqual => 3
  | .equal | .notEqual => 4

/-- The loosest grade of the right side of an operator. -/
def LogicalOp.inner : LogicalOp → Nat
  | .and => 5
  | .or => 6

/-! ### Tokens of an expression -/

namespace Expr

/-- How loosely an expression binds: `0` with its members and indices, `1` behind a unary operator,
then one grade for each level of binary and logical operators, and `8` for a conditional. -/
def grade : Expr → Nat
  | .literal _ => 0
  | .params => 0
  | .member .. => 0
  | .index .. => 0
  | .unary .. => 1
  | .binary op _ _ => op.inner + 1
  | .logical op _ _ => op.inner + 1
  | .conditional .. => 8

/-- The tokens of an expression in a place that admits a grade. -/
def placed (admitted : Nat) (e : Expr) (tokens : List ExprToken) : List ExprToken :=
  if admitted < e.grade then .leftParen :: (tokens ++ [.rightParen]) else tokens

/-- The token of a literal. Real numbers, arrays and objects have none. -/
def literalTokens : Json → List ExprToken
  | .null => [.identifier "null"]
  | .bool value => [.identifier (if value then "true" else "false")]
  | .number (.integer value _) => [.number (.ofInt value)]
  | .string text => [.string text]
  | _ => []

/-- The tokens of an expression, with parentheses only where they are needed. -/
def tokens : Expr → List ExprToken
  | .literal value => literalTokens value
  | .params => [.identifier "params"]
  | .member target name => target.placed 0 target.tokens ++ [.dot, .identifier name]
  | .index target position =>
    target.placed 0 target.tokens ++ .leftBracket :: (position.tokens ++ [.rightBracket])
  | .unary op operand => .operator op.operator :: operand.placed 1 operand.tokens
  | .binary op left right =>
    left.placed (op.inner + 1) left.tokens ++
      .operator op.operator :: right.placed op.inner right.tokens
  | .logical op left right =>
    left.placed (op.inner + 1) left.tokens ++
      .operator op.operator :: right.placed op.inner right.tokens
  | .conditional condition yes no =>
    condition.placed 7 condition.tokens ++
      .question :: (yes.tokens ++ .colon :: no.tokens)

/-- The levels that an expression takes in a place that admits a grade. -/
def deepened (admitted : Nat) (e : Expr) (levels : Nat) : Nat :=
  if admitted < e.grade then levels + 1 else levels

/-- How deep parentheses, brackets, branches and unary operands nest inside an expression. -/
def nesting : Expr → Nat
  | .literal _ => 0
  | .params => 0
  | .member target _ => target.deepened 0 target.nesting
  | .index target position => max (target.deepened 0 target.nesting) (position.nesting + 1)
  | .unary _ operand => operand.deepened 1 operand.nesting + 1
  | .binary op left right =>
    max (left.deepened (op.inner + 1) left.nesting) (right.deepened op.inner right.nesting)
  | .logical op left right =>
    max (left.deepened (op.inner + 1) left.nesting) (right.deepened op.inner right.nesting)
  | .conditional condition yes no =>
    max (condition.deepened 7 condition.nesting) (max (yes.nesting + 1) (no.nesting + 1))

/-- The nesting of an expression that counts as one level itself. -/
def depth (e : Expr) : Nat :=
  e.nesting + 1

end Expr

/-! ### Spelling -/

namespace ExprToken

/-- A character of a string in double quotes. -/
def escapeQuoted (c : Char) : List Char :=
  if c = '"' ∨ c = '\\' then ['\\', c] else [c]

/-- A token as it is written; a number by its digits without sign and fraction. -/
def spell : ExprToken → List Char
  | .number value => Nat.toDigits 10 value.truncate.toNat
  | .string text => '"' :: (text.toList.flatMap escapeQuoted ++ ['"'])
  | .identifier name => name.toList
  | .operator op => op.text.toList
  | .leftParen => ['(']
  | .rightParen => [')']
  | .leftBracket => ['[']
  | .rightBracket => [']']
  | .dot => ['.']
  | .question => ['?']
  | .colon => [':']

/-- An identifier: a letter, an underscore or a dollar sign, and behind it digits as well. -/
def IsIdentifier (name : String) : Prop :=
  ∃ first more, name.toList = first :: more ∧ isIdentifierStart first = true ∧
    ∀ c ∈ more, isIdentifierChar c = true

/-- Tokens that can be written: natural numbers below `2 ^ 53` and identifiers, and all tokens of
other kinds. -/
def IsPlain : ExprToken → Prop
  | .number value => ∃ n : Nat, n < 0x20000000000000 ∧ value = .ofInt n
  | .identifier name => IsIdentifier name
  | _ => True

end ExprToken

namespace Expr

/-- The text of an expression: its tokens with one blank between them. -/
def text (e : Expr) : String :=
  String.ofList (joinWith ' ' (e.tokens.map ExprToken.spell))

/-- A literal that can be written: `null`, a boolean, a string, or a natural number below
`2 ^ 53`. -/
def IsPlainLiteral : Json → Prop
  | .null => True
  | .bool _ => True
  | .number (.integer value _) => 0 ≤ value ∧ value < 0x20000000000000
  | .string _ => True
  | _ => False

/-- All literals can be written, and the names of members are identifiers. -/
def IsPlain : Expr → Prop
  | .literal value => IsPlainLiteral value
  | .params => True
  | .member target name => target.IsPlain ∧ ExprToken.IsIdentifier name
  | .index target position => target.IsPlain ∧ position.IsPlain
  | .unary _ operand => operand.IsPlain
  | .binary _ left right => left.IsPlain ∧ right.IsPlain
  | .logical _ left right => left.IsPlain ∧ right.IsPlain
  | .conditional condition yes no => condition.IsPlain ∧ yes.IsPlain ∧ no.IsPlain

end Expr

/-! ### One token -/

namespace ExprToken

variable {rest : List Char}

/-- The characters with which operators start. -/
def operatorStarts : List Char :=
  ['=', '!', '<', '>', '&', '|', '+', '-', '*', '/', '%']

theorem readOperator?_eq_none {p : Char → Bool} {c : Char} (hp : operatorStarts.any p = false)
    (hc : p c = true) (rest : List Char) : readOperator? (c :: rest) = none := by
  have hstart : c ∉ operatorStarts := fun hmem => List.any_eq_false.1 hp c hmem hc
  rw [readOperator?.eq_def]
  split
  all_goals
    first
      | rfl
      | next heq =>
        obtain ⟨rfl, -⟩ := List.cons.inj heq
        exact absurd (by simp [operatorStarts]) hstart

/-- An operator is read whole, since a blank follows. -/
theorem next?_operator (op : ExprOperator) (hrest : ∀ c ∈ rest.head?, c = ' ') :
    next? (op.text.toList ++ rest) = .ok (.operator op, rest) := by
  cases rest with
  | nil => cases op <;> rfl
  | cons c more =>
    obtain rfl := hrest c rfl
    cases op <;> rfl

/-- An escaped text is read up to the quote behind it. -/
theorem stringBody?_escaped (body rest : List Char) :
    stringBody? '"' (body.flatMap escapeQuoted ++ '"' :: rest) = some (body, rest) := by
  induction body with
  | nil => rfl
  | cons c body ih =>
    rw [List.flatMap_cons, escapeQuoted, List.append_assoc]
    split
    · next hc =>
      have hunescape : unescape c = c := by
        rcases hc with rfl | rfl
        · rfl
        · rfl
      rw [List.cons_append, List.singleton_append, stringBody?, ih, Option.map_some, hunescape]
    · next hc =>
      obtain ⟨hquote, hbackslash⟩ := not_or.1 hc
      rw [List.singleton_append, stringBody?.eq_def]
      split
      · next heq => exact nomatch heq
      · next heq => exact absurd (List.cons.inj heq).1 hbackslash
      · next heq =>
        obtain ⟨rfl, rfl⟩ := List.cons.inj heq
        rw [if_neg hquote, ih, Option.map_some]

theorem next?_string (text : String) (rest : List Char) :
    next? ((spell (.string text)) ++ rest) = .ok (.string text, rest) := by
  have hbody := stringBody?_escaped text.toList rest
  have hoperator :
      readOperator? ('"' :: (text.toList.flatMap escapeQuoted ++ '"' :: rest)) = none :=
    @readOperator?_eq_none (· = '"') '"' rfl rfl _
  rw [spell, List.cons_append, List.append_assoc, List.singleton_append, next?, hoperator]
  simp [hbody]

/-- An identifier is read up to the blank behind it. -/
theorem next?_identifier {name : String} (h : IsIdentifier name)
    (hrest : ∀ c ∈ rest.head?, c = ' ') :
    next? (name.toList ++ rest) = .ok (.identifier name, rest) := by
  obtain ⟨first, more, hname, hfirst, hmore⟩ := h
  have hall : ∀ c ∈ first :: more, isIdentifierChar c = true := by
    intro c hc
    rcases List.mem_cons.1 hc with rfl | hc
    · simp only [isIdentifierStart, isIdentifierChar, Char.isAlphanum, Bool.or_eq_true] at hfirst ⊢
      exact hfirst.imp_left (Or.imp_left Or.inl)
    · exact hmore c hc
  have hstop : ∀ c ∈ rest.head?, isIdentifierChar c = false := by
    intro c hc
    rw [hrest c hc]
    rfl
  have hquote : ¬(first = '"' ∨ first = '\'') := by
    rintro (rfl | rfl)
    · exact nomatch hfirst
    · exact nomatch hfirst
  have hrun := takeWhile_run hall hstop
  have hbehind := dropWhile_run hall hstop
  rw [List.cons_append] at hrun hbehind
  rw [hname, List.cons_append, next?, readOperator?_eq_none rfl hfirst,
    isDigit_eq_false (by decide) hfirst]
  simp only [Bool.false_eq_true, if_false, if_neg hquote, if_pos hfirst, hrun, hbehind]
  rw [← hname, String.ofList_toList]

/-- An exact integer is read as it is. -/
theorem next?_number {n : Nat} (h : n < 0x20000000000000) (hrest : ∀ c ∈ rest.head?, c = ' ') :
    next? (spell (.number (.ofInt n)) ++ rest) = .ok (.number (.ofInt n), rest) := by
  have hstop : ∀ c ∈ rest.head?, c.isDigit = false := by
    intro c hc
    rw [hrest c hc]
    rfl
  have hleading : leadingDigits (Nat.toDigits 10 n ++ rest) = Nat.toDigits 10 n :=
    takeWhile_run isDigit_toDigits hstop
  have hafter : afterDigits (Nat.toDigits 10 n ++ rest) = rest :=
    dropWhile_run isDigit_toDigits hstop
  have hread : readNumber (Nat.toDigits 10 n ++ rest) = (.number (.ofInt n), rest) := by
    rw [readNumber, hafter, hleading, Binary64.ofDecimal_toDigits]
    split
    · exact absurd (hrest '.' rfl) (by decide)
    · rfl
  have hspell : spell (.number (.ofInt n)) = Nat.toDigits 10 n := by
    rw [spell, Binary64.truncate_ofInt (by exact h), Int.toNat_natCast]
  rw [hspell]
  obtain ⟨c, more, hdigits⟩ := List.exists_cons_of_ne_nil (@Nat.toDigits_ne_nil n 10)
  have hdigit : c.isDigit = true := isDigit_toDigits c (by rw [hdigits]; exact List.mem_cons_self)
  rw [hdigits, List.cons_append] at hread ⊢
  rw [next?, readOperator?_eq_none rfl hdigit, if_pos hdigit, hread]

/-- **A token is read back**, with nothing or a blank behind it. -/
theorem next?_spell {token : ExprToken} (h : token.IsPlain) (hrest : ∀ c ∈ rest.head?, c = ' ') :
    next? (token.spell ++ rest) = .ok (token, rest) := by
  cases token with
  | number value =>
    obtain ⟨n, hn, rfl⟩ := h
    exact next?_number hn hrest
  | string text => exact next?_string text rest
  | identifier name => exact next?_identifier h hrest
  | operator op => exact next?_operator op hrest
  | _ => rfl

/-! ### All tokens -/

/-- A token starts with a character that is not trimmed off. -/
theorem exists_spell_cons {token : ExprToken} (h : token.IsPlain) :
    ∃ first more, token.spell = first :: more ∧ isBlank first = false := by
  cases token with
  | number value =>
    obtain ⟨c, more, hdigits⟩ :=
      List.exists_cons_of_ne_nil (@Nat.toDigits_ne_nil value.truncate.toNat 10)
    have hdigit : c.isDigit = true := isDigit_toDigits c (by rw [hdigits]; exact List.mem_cons_self)
    rw [Char.isDigit, Bool.and_eq_true, decide_eq_true_iff, decide_eq_true_iff] at hdigit
    have hlow : 48 ≤ c.toNat := hdigit.1
    have hhigh : c.toNat ≤ 57 := hdigit.2
    exact ⟨c, more, hdigits, isBlank_eq_false (by omega) (by omega)⟩
  | identifier name =>
    obtain ⟨first, more, hname, hfirst, -⟩ := h
    refine ⟨first, more, hname, ?_⟩
    simp only [isIdentifierStart, Bool.or_eq_true, decide_eq_true_iff] at hfirst
    rcases hfirst with (halpha | rfl) | rfl
    · obtain ⟨hlow, hhigh⟩ := toNat_of_isAlpha halpha
      exact isBlank_eq_false (by omega) (by omega)
    · rfl
    · rfl
  | operator op => cases op <;> exact ⟨_, _, rfl, rfl⟩
  | _ => exact ⟨_, _, rfl, rfl⟩

theorem trimLeft_joined {tokens : List ExprToken} (h : ∀ token ∈ tokens, token.IsPlain) :
    trimLeft (joinWith ' ' (tokens.map spell)) = joinWith ' ' (tokens.map spell) := by
  cases tokens with
  | nil => rfl
  | cons token tokens =>
    obtain ⟨first, more, hspell, hblank⟩ := exists_spell_cons (h token List.mem_cons_self)
    cases tokens with
    | nil => simp [joinWith, trimLeft, hspell, hblank]
    | cons next tokens => simp [joinWith, trimLeft, hspell, hblank]

/-- Behind the first of the tokens stands nothing or a blank, and then the others. -/
theorem exists_joined_cons (token : ExprToken) {tokens : List ExprToken}
    (h : ∀ other ∈ tokens, other.IsPlain) :
    ∃ rest, joinWith ' ' ((token :: tokens).map spell) = token.spell ++ rest ∧
      (∀ c ∈ rest.head?, c = ' ') ∧ trimLeft rest = joinWith ' ' (tokens.map spell) := by
  cases tokens with
  | nil => exact ⟨[], (List.append_nil _).symm, by simp, rfl⟩
  | cons next tokens => exact ⟨_, rfl, forall_head?.2 rfl, trimLeft_joined h⟩

/-- The first token is cut off, and the others behind it. -/
theorem exists_cut_succ {text rest : List Char} {token : ExprToken} (fuel start : Nat)
    (hne : trimLeft text ≠ []) (hnext : next? (trimLeft text) = .ok (token, rest)) :
    ∃ offset after, cut (fuel + 1) start text =
      (cut fuel after rest).bind fun tokens => .ok (⟨token, offset⟩ :: tokens) := by
  rw [cut]
  simp only [if_neg hne, hnext]
  exact ⟨_, _, rfl⟩

/-- Tokens with one blank between them are cut where the blanks are. -/
theorem exists_cut_joined {tokens : List ExprToken} (h : ∀ token ∈ tokens, token.IsPlain)
    {fuel start : Nat} {text : List Char} (hfuel : text.length ≤ fuel)
    (htext : trimLeft text = joinWith ' ' (tokens.map spell)) :
    ∃ located, cut fuel start text = .ok located ∧
      located.map LocatedToken.token = tokens := by
  induction tokens generalizing fuel start text with
  | nil =>
    refine ⟨[], ?_, rfl⟩
    cases fuel with
    | zero => rfl
    | succ fuel => exact if_pos htext
  | cons token tokens ih =>
    obtain ⟨htoken, htokens⟩ := List.forall_mem_cons.1 h
    obtain ⟨rest, hjoined, hrest, htrim⟩ := exists_joined_cons token htokens
    obtain ⟨first, more, hspell, -⟩ := exists_spell_cons htoken
    rw [hjoined] at htext
    have hlength : (trimLeft text).length ≤ text.length := (List.dropWhile_suffix _).length_le
    rw [htext, List.length_append, hspell, List.length_cons] at hlength
    have hne : token.spell ++ rest ≠ [] := by simp [hspell]
    have hnext := next?_spell htoken hrest
    rw [← htext] at hne hnext
    cases fuel with
    | zero => omega
    | succ fuel =>
      obtain ⟨offset, after, hcut⟩ := exists_cut_succ fuel start hne hnext
      obtain ⟨located, hrest, hlocated⟩ := @ih htokens fuel after rest (by omega) htrim
      refine ⟨⟨token, offset⟩ :: located, ?_, congrArg (token :: ·) hlocated⟩
      rw [hcut, hrest]
      rfl

end ExprToken

namespace Expr

theorem isIdentifier_cons {first : Char} {more : List Char}
    (hfirst : ExprToken.isIdentifierStart first = true)
    (hmore : more.all ExprToken.isIdentifierChar = true) :
    ExprToken.IsIdentifier (String.ofList (first :: more)) :=
  ⟨first, more, String.toList_ofList, hfirst, List.all_eq_true.1 hmore⟩

/-- The tokens of a plain literal are plain. -/
theorem IsPlainLiteral.tokens {value : Json} (h : IsPlainLiteral value) :
    ∀ token ∈ literalTokens value, token.IsPlain := by
  cases value with
  | null => exact List.forall_mem_singleton.2 (isIdentifier_cons rfl rfl)
  | bool value =>
    cases value with
    | false => exact List.forall_mem_singleton.2 (isIdentifier_cons rfl rfl)
    | true => exact List.forall_mem_singleton.2 (isIdentifier_cons rfl rfl)
  | number number =>
    cases number with
    | integer value inRange =>
      obtain ⟨hlow, hhigh⟩ : 0 ≤ value ∧ value < 0x20000000000000 := h
      have hvalue : (value.toNat : Int) = value := Int.toNat_of_nonneg hlow
      exact List.forall_mem_singleton.2 ⟨value.toNat, by omega, by rw [hvalue]⟩
    | real value isFinite => exact h.elim
  | string text => exact List.forall_mem_singleton.2 trivial
  | array items => exact h.elim
  | object fields => exact h.elim

theorem plain_placed {admitted : Nat} {e : Expr} {tokens : List ExprToken}
    (h : ∀ token ∈ tokens, token.IsPlain) : ∀ token ∈ e.placed admitted tokens, token.IsPlain := by
  rw [placed]
  split
  · exact List.forall_mem_cons.2 ⟨trivial, List.forall_mem_append.2
      ⟨h, List.forall_mem_singleton.2 trivial⟩⟩
  · exact h

/-- What can be written has tokens that can be written. -/
theorem IsPlain.tokens {e : Expr} (h : e.IsPlain) : ∀ token ∈ e.tokens, token.IsPlain := by
  induction e with
  | literal value => exact IsPlainLiteral.tokens h
  | params => exact List.forall_mem_singleton.2 (isIdentifier_cons rfl rfl)
  | member target name htarget =>
    exact List.forall_mem_append.2 ⟨plain_placed (htarget h.1), List.forall_mem_cons.2
      ⟨trivial, List.forall_mem_singleton.2 h.2⟩⟩
  | index target position htarget hposition =>
    exact List.forall_mem_append.2 ⟨plain_placed (htarget h.1), List.forall_mem_cons.2
      ⟨trivial, List.forall_mem_append.2 ⟨hposition h.2, List.forall_mem_singleton.2 trivial⟩⟩⟩
  | unary op operand hoperand =>
    exact List.forall_mem_cons.2 ⟨trivial, plain_placed (hoperand h)⟩
  | binary op left right hleft hright =>
    exact List.forall_mem_append.2 ⟨plain_placed (hleft h.1), List.forall_mem_cons.2
      ⟨trivial, plain_placed (hright h.2)⟩⟩
  | logical op left right hleft hright =>
    exact List.forall_mem_append.2 ⟨plain_placed (hleft h.1), List.forall_mem_cons.2
      ⟨trivial, plain_placed (hright h.2)⟩⟩
  | conditional condition yes no hcondition hyes hno =>
    exact List.forall_mem_append.2 ⟨plain_placed (hcondition h.1), List.forall_mem_cons.2
      ⟨trivial, List.forall_mem_append.2 ⟨hyes h.2.1, List.forall_mem_cons.2
        ⟨trivial, hno h.2.2⟩⟩⟩⟩

/-- **The text of an expression is cut into its tokens.** -/
theorem exists_ofText?_text {e : Expr} (h : e.IsPlain) :
    ∃ located, ExprToken.ofText? e.text.toList = .ok located ∧
      located.map LocatedToken.token = e.tokens := by
  rw [text, String.toList_ofList]
  exact ExprToken.exists_cut_joined h.tokens (Nat.le_refl _) (ExprToken.trimLeft_joined h.tokens)

end Expr

end ChartSchema
