import ChartSchema.Proofs.Document.Leaves
import ChartSchema.Proofs.Document.Progress

/-!
# Where the leaves of a parsed schema come from

The schema of a document is read with errors and all, and still nothing stands in it that is not in
the text: every leaf is put there by a statement, and the names and the expression of a statement
are tokens of the document (`leafOf_parse`). Three things are followed from the text to the schema.

* **Tokens.** A name has no line feed, since neither a word nor the index behind it can hold one.
  The braces of an expression are balanced, unless it runs to the end of the document because
  nothing closes it. `TokenKind.WellCut` says both, and it holds of what is scanned at any character
  (`wellCut_scan`) and so of every token (`wellCut_of_mem_kindsOf`).
* **Statements.** `Statement.From` says that the names of the path and the expression of the value
  are among the tokens. A round has this from the tokens that it starts with (`from_of_nextRound`),
  whatever is wrong with other statements (`from_of_mem_statementsFrom`).
* **Leaves.** The schema is built from the entries of the statements (`schema_parse`), and what is
  built has no other leaves than its entries. Each value is a leaf, and a callback in it comes from
  an interpolation with the same expression (`toValue_cases`).

The fields of a parsed schema are in order as well (`ordered_parse`). Both facts are what the
printer needs to know of a schema that came from a text.
-/

namespace ChartSchema

/-! ### Names and expressions -/

/-- What names and expressions look like that are cut off the front of a text. -/
def TokenKind.WellCut (text : List Char) : TokenKind → Prop
  | .identifier name => '\n' ∉ name.toList
  | .interpolation expression => Balanced expression.toList ∨ expression.toList <:+ text
  | _ => True

/-- What is cut off the rear of a text is cut off the text. -/
theorem TokenKind.WellCut.mono {front back : List Char} {kind : TokenKind} (h : kind.WellCut back)
    (hback : back <:+ front) : kind.WellCut front := by
  cases kind with
  | identifier name => exact h
  | interpolation expression => exact h.imp_right fun hsuffix => hsuffix.trans hback
  | _ => trivial

/-- A body that is closed has itself closed the braces that were open before it and those that it
opens, and never more than these. -/
theorem balanced_of_interpolationBody {opened : Nat} {text body rest : List Char}
    (h : interpolationBody opened text = (body, some rest)) :
    (∀ front back, body = front ++ back → front.count '\x7d' ≤ opened + front.count '\x7b') ∧
      body.count '\x7d' = opened + body.count '\x7b' := by
  induction text generalizing opened body with
  | nil => simp [interpolationBody] at h
  | cons c text ih =>
    rw [interpolationBody] at h
    split at h
    · next hclosed =>
      obtain ⟨rfl, -⟩ := Prod.mk.inj h
      refine ⟨fun front back hfront => ?_, by rw [hclosed.2]; rfl⟩
      obtain ⟨rfl, -⟩ := List.append_eq_nil_iff.1 hfront.symm
      exact Nat.zero_le _
    · next hopen =>
      obtain ⟨inner, after, hinner⟩ : ∃ inner after,
        interpolationBody (bracesAfter opened c) text = (inner, after) := ⟨_, _, rfl⟩
      rw [hinner] at h
      simp only at h
      obtain ⟨rfl, rfl⟩ := Prod.mk.inj h
      -- the character shifts the count of open braces for what is behind it
      obtain ⟨hnever, htotal⟩ := ih hinner
      have hcount := count_bracesAfter hopen
      refine ⟨fun front back hfront => ?_, ?_⟩
      · cases front with
        | nil => exact Nat.zero_le _
        | cons d front =>
          obtain ⟨rfl, hback⟩ := List.cons.inj hfront
          have hless := hnever front back hback
          have hsum := hcount front
          omega
      · have hsum := hcount inner
        omega

/-- An interpolation is closed, or takes all that is left. -/
theorem wellCut_scanDollar (text : List Char) :
    ∀ kind ∈ (scanDollar text).kind, kind.WellCut ('$' :: text) := by
  unfold scanDollar
  split
  · next rest =>
    split
    · next body after hbody =>
      rintro kind ⟨⟩
      obtain ⟨hnever, htotal⟩ := balanced_of_interpolationBody hbody
      left
      rw [String.toList_ofList]
      exact ⟨by simpa using hnever, by simpa using htotal⟩
    -- nothing closes the body: it is all the rest of the text
    · next body hbody =>
      rintro kind ⟨⟩
      obtain rfl := interpolationBody_none hbody
      right
      rw [String.toList_ofList]
      exact ⟨['$', '\x7b'], rfl⟩
  · rintro kind ⟨⟩
    trivial
  · split
    · rintro kind ⟨⟩
      trivial
    · simp
  · simp

/-- The index behind a word stays on its line. -/
theorem lineFeed_notMem_indexSuffix (text : List Char) : '\n' ∉ indexSuffix text := by
  unfold indexSuffix
  split
  · next rest =>
    split
    · exact List.not_mem_nil
    · next digits after hdigits hafter =>
      intro hmem
      simp only [List.mem_cons, List.mem_append, List.not_mem_nil, or_false] at hmem
      rcases hmem with h | h | h
      · exact absurd h (by decide)
      · exact absurd (List.all_eq_true.1 List.all_takeWhile _ h) (by decide)
      · exact absurd h (by decide)
    · exact List.not_mem_nil
  · exact List.not_mem_nil

theorem wellCut_scanWord (text : List Char) :
    ∀ kind ∈ (scanWord text).kind, kind.WellCut text := by
  rintro kind ⟨⟩
  split
  · trivial
  split
  · trivial
  · rw [TokenKind.WellCut, String.toList_ofList, List.mem_append, not_or]
    constructor
    · intro hmem
      exact nomatch List.all_eq_true.1 List.all_takeWhile _ hmem
    · exact lineFeed_notMem_indexSuffix _

theorem wellCut_scanNumber (sign digits : List Char) {text : List Char} :
    ∀ kind ∈ (scanNumber sign digits).kind, kind.WellCut text := by
  rw [scanNumber]
  split
  · rintro kind ⟨⟩
    trivial
  · rintro kind ⟨⟩
    trivial

/-- Whatever is scanned at a character is cut well. -/
theorem wellCut_scan (c : Char) (rest : List Char) :
    ∀ kind ∈ (scan c rest).kind, kind.WellCut (c :: rest) := by
  unfold scan
  split
  · rintro kind ⟨⟩
    trivial
  split
  · rintro kind ⟨⟩
    trivial
  split
  · next hdollar =>
    rw [hdollar]
    exact wellCut_scanDollar rest
  split
  · rintro kind ⟨⟩
    trivial
  split
  · next kind hkind =>
    rintro kind ⟨⟩
    unfold punctuation? at hkind
    split at hkind
    all_goals
      cases hkind
    all_goals trivial
  split
  · exact wellCut_scanNumber [] (c :: rest)
  split
  · exact wellCut_scanNumber ['-'] rest
  split
  · exact wellCut_scanWord _
  · simp

/-- The names and expressions of a document. -/
theorem wellCut_of_mem_kindsOf {text : List Char} {kind : TokenKind} (h : kind ∈ kindsOf text) :
    kind.WellCut text := by
  induction hlength : text.length using Nat.strongRecOn generalizing text with
  | ind length ih =>
    cases text with
    | nil => simp at h
    | cons c rest =>
      rw [kindsOf_cons, List.mem_append, Option.mem_toList] at h
      rcases h with h | h
      · exact wellCut_scan c rest kind h
      · have hshorter := scan_rest_length c rest
        have hback := ih _ (hlength ▸ hshorter) h rfl
        exact hback.mono ⟨_, scan_append c rest⟩

/-! ### Statements -/

/-- The names and the expression of a statement are tokens. -/
structure Statement.From (kinds : List TokenKind) (statement : Statement) : Prop where
  path_ne_nil : statement.path ≠ []
  names : ∀ name ∈ statement.path, .identifier name ∈ kinds
  expression : ∀ expression, statement.value = .interpolation expression →
    .interpolation expression ∈ kinds

theorem Statement.From.mono {kinds more : List TokenKind} {statement : Statement}
    (h : statement.From kinds) (hmore : kinds ⊆ more) : statement.From more :=
  ⟨h.path_ne_nil, fun name hname => hmore (h.names name hname),
    fun expression hvalue => hmore (h.expression expression hvalue)⟩

theorem identifier_mem_pathKinds {path : List String} {name : String} (h : name ∈ path) :
    .identifier name ∈ pathKinds path := by
  cases path with
  | nil => exact absurd h List.not_mem_nil
  | cons first names =>
    rw [pathKinds_cons]
    rcases List.mem_cons.1 h with rfl | hmem
    · exact List.mem_cons_self
    · refine List.mem_cons_of_mem _ (List.mem_flatMap.2 ⟨name, hmem, ?_⟩)
      exact List.mem_cons_of_mem _ List.mem_cons_self

/-- The expression of a value is a token. -/
theorem interpolation_of_takeValue {tokens rest : List Token} {expression : String}
    (h : takeValue tokens = .ok (.interpolation expression, rest)) :
    .interpolation expression ∈ tokens.map Token.kind := by
  unfold takeValue at h
  split at h
  all_goals cases h
  exact List.mem_cons_self

/-- What a statement is made of are the tokens from which it is taken. -/
theorem from_of_takeStatement {tokens rest : List Token} {statement : Statement}
    {error : Option ParseError} (h : takeStatement tokens = .ok (statement, error, rest)) :
    statement.From (tokens.map Token.kind) := by
  obtain ⟨behind, after, last, hpath, hcolon, hvalue, -⟩ := takeStatement_eq_ok h
  have hback := costs_takeColon behind statement.path
  obtain ⟨hne, taken, rfl, hkinds⟩ := exists_taken_path hpath
  rw [hcolon] at hback
  rw [List.map_append, hkinds]
  refine ⟨hne, fun name hname => ?_, fun expression hexpression => ?_⟩
  · exact List.mem_append_left _ (identifier_mem_pathKinds hname)
  · rw [hexpression] at hvalue
    exact List.mem_append_right _
      (List.map_subset _ (Spends.suffix hback).subset (interpolation_of_takeValue hvalue))

theorem from_of_nextRound {tokens : List Token} {statement : Statement}
    (h : (nextRound tokens).statement = some statement) :
    statement.From (tokens.map Token.kind) := by
  unfold nextRound at h
  split at h
  · next htake =>
    cases h
    exact from_of_takeStatement htake
  · exact nomatch h

/-- The statements of a document come from its tokens, whatever is wrong with others. -/
theorem from_of_mem_statementsFrom {tokens : List Token} {statement : Statement}
    (h : statement ∈ (statementsFrom tokens).1) : statement.From (tokens.map Token.kind) := by
  fun_induction statementsFrom tokens with
  | case1 tokens hend => exact absurd h List.not_mem_nil
  | case2 tokens hend round more errors hmore =>
    rename_i ih
    rw [hmore] at ih
    have hback : round.rest.map Token.kind ⊆ tokens.map Token.kind :=
      List.map_subset _ (nextRound_spends (Bool.eq_false_iff.2 hend)).suffix.subset
    rcases List.mem_append.1 h with hround | hlater
    · exact from_of_nextRound (Option.mem_toList.1 hround)
    · exact (ih hlater).mono hback

/-! ### Documents -/

/-- Tokens of a document are cut off its text, apart from the end of the input. -/
theorem wellCut_of_mem_tokenize {limit : Nat} {source : String} {token : Token}
    (h : token ∈ (tokenize limit source).tokens) : token.kind.WellCut source.toList := by
  have hcut {token : Token} (h : token ∈ tokensFrom Position.start source.toList) :
      token.kind.WellCut source.toList :=
    wellCut_of_mem_kindsOf (List.mem_map_of_mem h)
  unfold tokenize at h
  simp only at h
  split at h
  · rcases List.mem_append.1 h with h | h
    · exact hcut (List.mem_of_mem_take h)
    · obtain rfl := List.mem_singleton.1 h
      trivial
  · rcases List.mem_append.1 h with h | h
    · exact hcut h
    · obtain rfl := List.mem_singleton.1 h
      trivial

mutual

/-- No written value has fields, so that none can be out of order. -/
theorem Written.ordered_toValue : (written : Written) → written.toValue.Ordered
  | .call _ args => ordered_itemsToValues args
  | .interpolation _ => by
    rw [toValue]
    split <;> trivial
  | .string _ | .number _ | .boolean _ | .identifier _ | .variable _ | .dataPath _ => trivial

/-- The same of the arguments of a call. -/
theorem Written.ordered_itemsToValues :
    (items : List Written) → Value.ItemsOrdered (itemsToValues items)
  | [] => trivial
  | item :: rest => ⟨item.ordered_toValue, ordered_itemsToValues rest⟩

end

/-- What a statement writes is a leaf, and deferred only as its own expression. -/
theorem toValue_cases (written : Written) :
    IsLeaf written.toValue ∧ ∀ callback, written.toValue = .deferred callback →
      written = .interpolation callback.expression := by
  cases written with
  | interpolation expression =>
    rw [Written.toValue]
    split
    · next callback hcompile =>
      refine ⟨rfl, ?_⟩
      rintro _ ⟨⟩
      unfold Callback.compile at hcompile
      split at hcompile
      · cases hcompile
        rfl
      · cases hcompile
    · refine ⟨rfl, ?_⟩
      rintro callback ⟨⟩
  | string | number | boolean | identifier | «variable» | dataPath | call =>
    refine ⟨rfl, ?_⟩
    rintro callback ⟨⟩

/-- The entries from which the schema of a document is built. -/
def parsedEntries (limit : Nat) (source : String) : List (List String × Value) :=
  entryValues ((parseWithLimit limit source).document.statements.map fun statement =>
    (statement.path, statement.value))

/-- The schema of a document is built from the entries of its statements. -/
theorem schema_parse (limit : Nat) (source : String) :
    (parseWithLimit limit source).schema = applyEntries [] (parsedEntries limit source) :=
  foldl_apply [] _

/-- An entry comes from a statement, and this from the text of the document. -/
theorem exists_statement {limit : Nat} {source : String} {entry : List String × Value}
    (h : entry ∈ parsedEntries limit source) :
    ∃ statement : Statement, entry = (statement.path, statement.value.toValue) ∧
      ∃ kinds, statement.From kinds ∧ ∀ kind ∈ kinds, kind.WellCut source.toList := by
  rw [parsedEntries, entryValues, List.map_map] at h
  obtain ⟨statement, hstatement, rfl⟩ := List.mem_map.1 h
  refine ⟨statement, rfl, _, from_of_mem_statementsFrom hstatement, List.forall_mem_map.2 ?_⟩
  exact fun token htoken => wellCut_of_mem_tokenize (List.mem_of_mem_filter htoken)

/-- **The schema of a document is ordered**, with errors or without. -/
theorem ordered_parse (limit : Nat) (source : String) :
    (Value.object (parseWithLimit limit source).schema).Ordered := by
  rw [schema_parse]
  refine ordered_applyEntries (fun entry hentry => ?_) ?_
  · obtain ⟨statement, rfl, -⟩ := exists_statement hentry
    exact statement.value.ordered_toValue
  · rw [Value.Ordered, Value.FieldsOrdered]
    exact ⟨List.Pairwise.nil, trivial⟩

/-- What the leaves of a document look like. -/
structure LeafOf (source : String) (leaf : List String × Value) : Prop where
  names : ∀ name ∈ leaf.1, '\n' ∉ name.toList
  expression : ∀ callback, leaf.2 = .deferred callback →
    Balanced callback.expression.toList ∨ callback.expression.toList <:+ source.toList

/-- **Leaves come from statements**, and so from the text. -/
theorem leafOf_parse {limit : Nat} {source : String} {leaf : List String × Value}
    (h : leaf ∈ fieldLeaves (parseWithLimit limit source).schema) : LeafOf source leaf := by
  rw [schema_parse] at h
  have hentries : ∀ entry ∈ parsedEntries limit source, entry.1 ≠ [] ∧ IsLeaf entry.2 := by
    intro entry hentry
    obtain ⟨statement, rfl, kinds, hfrom, -⟩ := exists_statement hentry
    exact ⟨hfrom.path_ne_nil, (toValue_cases statement.value).1⟩
  rcases mem_fieldLeaves_applyEntries hentries h with hmem | hmem
  · obtain ⟨statement, rfl, kinds, hfrom, hkinds⟩ := exists_statement hmem
    refine ⟨fun name hname => hkinds _ (hfrom.names name hname), fun callback hcallback => ?_⟩
    have hvalue := (toValue_cases statement.value).2 callback hcallback
    exact hkinds _ (hfrom.expression _ hvalue)
  · exact absurd hmem List.not_mem_nil

end ChartSchema
