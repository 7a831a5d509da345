import ChartSchema.Document.Parser
import ChartSchema.Proofs.Document.Spelling

/-!
# Parsing what is spelled

The parser sees the kinds of tokens only, apart from the places that go into statements and errors.
So each of its steps is described on lists of tokens of given kinds: what it takes, and the kinds of
what it leaves. `exists_token_cons` is how a proof gets hold of a token from its kind, and each of
the lemmas behind it follows one step of the parser, from the names of a path (`takePath_of_kinds`)
over the right side (`takeValue_of_spells`) to the whole statement with its semicolon
(`takeStatement_of_kinds`).

What is spelled is meant to be read, so that no step fails here and no error is recorded. A document
whose tokens, comments apart, spell a list of entries is therefore parsed into these entries
(`statementsFrom_of_spellsAll`, by induction over the entries), and its schema is what they build
(`parseWithLimit_of_spellsAll`). The comments are taken out of the tokens before the parser starts,
and the end of the input is added behind them; with no token too many, this is all there is between
the text and the statements (`parseWithLimit_eq`).

Carrying out statements means carrying out entries of paths and values, which is how the schema of a
document is spoken of from here on (`applyEntries`, `entryValues`).
-/

namespace ChartSchema

/-- A list of tokens whose kinds are known at the front. -/
theorem exists_token_cons {tokens : List Token} {kind : TokenKind} {kinds : List TokenKind}
    (h : tokens.map Token.kind = kind :: kinds) :
    ∃ text span rest, tokens = ⟨kind, text, span⟩ :: rest ∧ rest.map Token.kind = kinds := by
  obtain ⟨⟨kind', text, span⟩, rest, rfl, hkind, hrest⟩ := List.map_eq_cons_iff.1 h
  obtain rfl : kind' = kind := hkind
  exact ⟨text, span, rest, rfl, hrest⟩

/-- The token at the front stays there whatever follows. -/
theorem frontToken_append {tokens : List Token} (h : tokens ≠ []) (rest : List Token) :
    frontToken (tokens ++ rest) = frontToken tokens := by
  obtain ⟨token, more, rfl⟩ := List.exists_cons_of_ne_nil h
  rfl

/-! ### Paths -/

/-- The tokens of the further names of a path. -/
def furtherKinds (names : List String) : List TokenKind :=
  names.flatMap fun name => [.dot, .identifier name]

theorem pathKinds_cons (name : String) (names : List String) :
    pathKinds (name :: names) = .identifier name :: furtherKinds names := by
  induction names generalizing name with
  | nil => rfl
  | cons next names ih =>
    rw [pathKinds, ih]
    · rfl
    · exact List.cons_ne_nil _ _

section Steps

variable {tokens : List Token} {more : List TokenKind}

/-- Names with dots between them are taken up to the colon. -/
theorem takeNames_of_kinds {names : List String}
    (h : tokens.map Token.kind = furtherKinds names ++ .colon :: more) :
    ∃ rest, takeNames tokens = .ok (names, rest) ∧ rest.map Token.kind = .colon :: more := by
  induction names generalizing tokens with
  | nil =>
    obtain ⟨text, span, rest, rfl, -⟩ := exists_token_cons h
    exact ⟨_, rfl, h⟩
  | cons name names ih =>
    obtain ⟨dot, dotSpan, behind, rfl, hbehind⟩ := exists_token_cons h
    obtain ⟨text, span, rest, rfl, hrest⟩ := exists_token_cons hbehind
    obtain ⟨left, htake, hleft⟩ := ih hrest
    refine ⟨left, ?_, hleft⟩
    rw [takeNames, htake]
    rfl

/-- A path is taken up to its colon. -/
theorem takePath_of_kinds {path : List String} (hpath : path ≠ [])
    (h : tokens.map Token.kind = pathKinds path ++ .colon :: more) :
    ∃ rest, takePath tokens = .ok (path, rest) ∧ rest.map Token.kind = .colon :: more := by
  obtain ⟨name, names, rfl⟩ := List.exists_cons_of_ne_nil hpath
  rw [pathKinds_cons] at h
  obtain ⟨text, span, rest, rfl, hrest⟩ := exists_token_cons h
  obtain ⟨left, htake, hleft⟩ := takeNames_of_kinds hrest
  refine ⟨left, ?_, hleft⟩
  have hname : takeName (⟨.identifier name, text, span⟩ :: rest) = .ok (name, rest) := rfl
  rw [takePath, hname]
  change (takeNames rest >>= _) = _
  rw [htake]
  rfl

/-! ### Values -/

/-- Arguments are taken up to the closing parenthesis, and this with them. -/
theorem takeArguments_of_kinds {kinds : List TokenKind} {args : List Written}
    (hargs : SpellsArguments kinds args)
    (h : tokens.map Token.kind = kinds ++ .rightParen :: more) :
    ∃ rest, takeArguments tokens = (args, rest) ∧ rest.map Token.kind = more := by
  induction hargs generalizing tokens with
  | nil =>
    obtain ⟨text, span, rest, rfl, hrest⟩ := exists_token_cons h
    exact ⟨rest, rfl, hrest⟩
  | @cons kind arg kinds args hkind _ ih =>
    obtain ⟨text, span, rest, rfl, hrest⟩ := exists_token_cons h
    obtain ⟨left, htake, hleft⟩ := ih hrest
    refine ⟨left, ?_, hleft⟩
    cases kind with
    | string | number =>
      cases hkind
      rw [takeArguments, htake]
    | _ => cases hkind

/-- A right side is taken from its tokens, whatever follows them. -/
theorem takeValue_of_spells {kinds : List TokenKind} {written : Written}
    (hspells : Spells kinds written) (h : tokens.map Token.kind = kinds ++ more) :
    ∃ rest, takeValue tokens = .ok (written, rest) ∧ rest.map Token.kind = more := by
  cases hspells with
  | string | number | boolean | interpolation =>
    obtain ⟨text, span, rest, rfl, hrest⟩ := exists_token_cons h
    exact ⟨rest, rfl, hrest⟩
  | call name hargs =>
    obtain ⟨text, span, behind, rfl, hbehind⟩ := exists_token_cons h
    obtain ⟨paren, parenSpan, rest, rfl, hrest⟩ := exists_token_cons hbehind
    obtain ⟨left, htake, hleft⟩ := takeArguments_of_kinds hargs
      (hrest.trans (List.append_assoc _ _ _))
    refine ⟨left, ?_, hleft⟩
    rw [takeValue, htake]

/-! ### Statements -/

/-- A statement is taken with its semicolon, and starts at its first token. -/
theorem takeStatement_of_kinds {path : List String} {kinds : List TokenKind} {written : Written}
    (hpath : path ≠ []) (hspells : Spells kinds written)
    (h : tokens.map Token.kind = pathKinds path ++ .colon :: (kinds ++ .semicolon :: more)) :
    ∃ span rest, takeStatement tokens = .ok (⟨path, written, span⟩, none, rest) ∧
      rest.map Token.kind = more := by
  obtain ⟨behind, htake, hbehind⟩ := takePath_of_kinds hpath h
  obtain ⟨colon, colonSpan, after, rfl, hafter⟩ := exists_token_cons hbehind
  obtain ⟨last, hvalue, hlast⟩ := takeValue_of_spells hspells hafter
  obtain ⟨semicolon, semicolonSpan, rest, rfl, hrest⟩ := exists_token_cons hlast
  refine ⟨(frontToken tokens).span, rest, ?_, hrest⟩
  rw [takeStatement, htake]
  change (takeValue after >>= _) = _
  rw [hvalue]
  rfl

/-- **Entries are parsed from what spells them**, without an error. -/
theorem statementsFrom_of_spellsAll {kinds : List TokenKind}
    {entries : List (List String × Written)} (hspells : SpellsAll kinds entries)
    {tokens : List Token} (h : tokens.map Token.kind = kinds ++ [.endOfInput]) :
    ∃ statements, statementsFrom tokens = (statements, []) ∧
      statements.map (fun statement => (statement.path, statement.value)) = entries := by
  induction hspells generalizing tokens with
  | nil =>
    obtain ⟨text, span, rest, rfl, -⟩ := exists_token_cons h
    refine ⟨[], ?_, rfl⟩
    rw [statementsFrom, if_pos (by rfl)]
  | @cons path written kinds more entries hpath hwritten hmore ih =>
    simp only [List.append_assoc, List.cons_append] at h
    have hfront : atEnd tokens = false := by
      obtain ⟨name, names, rfl⟩ := List.exists_cons_of_ne_nil hpath
      rw [pathKinds_cons] at h
      obtain ⟨text, span, rest, rfl, -⟩ := exists_token_cons h
      rfl
    obtain ⟨span, rest, htake, hrest⟩ := takeStatement_of_kinds hpath hwritten h
    obtain ⟨statements, hstatements, hentries⟩ := ih hrest
    refine ⟨⟨path, written, span⟩ :: statements, ?_, by rw [List.map_cons, hentries]⟩
    have hround : nextRound tokens = ⟨some ⟨path, written, span⟩, none, rest⟩ := by
      rw [nextRound, htake]
    rw [statementsFrom, if_neg (by rw [hfront]; exact Bool.false_ne_true), hround]
    simp only [hstatements]
    rfl

end Steps

/-! ### Documents -/

/-- Carries out the entries of a document in order. -/
def applyEntries (schema : Schema) (entries : List (List String × Value)) : Schema :=
  entries.foldl (fun schema entry => schema.insertPath entry.2 entry.1) schema

/-- The entries as paths and property values. -/
def entryValues (entries : List (List String × Written)) : List (List String × Value) :=
  entries.map fun entry => (entry.1, entry.2.toValue)

theorem foldl_apply (schema : Schema) (statements : List Statement) :
    statements.foldl Statement.apply schema =
      applyEntries schema (entryValues
        (statements.map fun statement => (statement.path, statement.value))) := by
  rw [applyEntries, entryValues, List.map_map, List.foldl_map]
  rfl

theorem comment?_isNone (token : Token) : token.comment?.isNone = !token.kind.isComment := by
  rw [Token.comment?]
  cases token.kind <;> rfl

/-- Without a token too many, the parser gets all tokens but the comments, and the end. -/
theorem parseWithLimit_eq {limit : Nat} {source : String}
    (hlimit : (tokensFrom Position.start source.toList).length ≤ limit) :
    ∃ tokens : List Token,
      tokens.map Token.kind =
        (kindsOf source.toList).filter (fun kind => !kind.isComment) ++ [.endOfInput] ∧
      (parseWithLimit limit source).document.statements = (statementsFrom tokens).1 ∧
      (parseWithLimit limit source).errors = (statementsFrom tokens).2 := by
  have hall : tokenize limit source = ⟨tokensFrom Position.start source.toList ++
      [Token.endAt (Position.start.advance source.toList)], false⟩ := by
    rw [tokenize, List.getElem?_eq_none hlimit]
  refine ⟨(tokensFrom Position.start source.toList ++
    [Token.endAt (Position.start.advance source.toList)]).filter
      fun token => token.comment?.isNone, ?_, ?_, ?_⟩
  · rw [List.filter_append, List.map_append, kindsOf, List.filter_map]
    congr 2
    exact List.filter_congr fun token _ => comment?_isNone token
  · rw [parseWithLimit, hall]
    rfl
  · rw [parseWithLimit, hall]
    exact List.append_nil _

/-- A document that spells entries has no errors, and these entries are its statements. -/
theorem statements_of_spellsAll {limit : Nat} {source : String}
    (hlimit : (tokensFrom Position.start source.toList).length ≤ limit)
    {entries : List (List String × Written)}
    (hspells : SpellsAll ((kindsOf source.toList).filter fun kind => !kind.isComment) entries) :
    (parseWithLimit limit source).errors = [] ∧
      (parseWithLimit limit source).document.statements.map
        (fun statement => (statement.path, statement.value)) = entries := by
  obtain ⟨tokens, hkinds, hstatements, herrors⟩ := parseWithLimit_eq hlimit
  obtain ⟨statements, htaken, hentries⟩ := statementsFrom_of_spellsAll hspells hkinds
  rw [herrors, hstatements, htaken]
  exact ⟨rfl, hentries⟩

/-- A document that spells entries has no errors, and its schema is what the entries build. -/
theorem parseWithLimit_of_spellsAll {limit : Nat} {source : String}
    (hlimit : (tokensFrom Position.start source.toList).length ≤ limit)
    {entries : List (List String × Written)}
    (hspells : SpellsAll ((kindsOf source.toList).filter fun kind => !kind.isComment) entries) :
    (parseWithLimit limit source).errors = [] ∧
      (parseWithLimit limit source).schema = applyEntries [] (entryValues entries) := by
  obtain ⟨herrors, hentries⟩ := statements_of_spellsAll hlimit hspells
  refine ⟨herrors, ?_⟩
  have hschema : (parseWithLimit limit source).schema =
      (parseWithLimit limit source).document.statements.foldl Statement.apply [] := rfl
  rw [hschema, foldl_apply, hentries]

end ChartSchema
