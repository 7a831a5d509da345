import ChartSchema.Proofs.Document.Kinds

/-!
# What starts a token

The lexer reads a text lexeme by lexeme. Some lexemes are tokens, and others, as blanks and stray
characters, are not. Which of the two it is can be seen at the front: a character starts a token by
itself, or together with the one behind it (`StartsToken`). Whatever else it is, it is a lexeme of
its own and no token (`scan_of_not_startsToken`), so that the text between two tokens is passed over
one character at a time. No blank starts a token.

What is read as a token is a comment, which starts with the mark of one, or it belongs to a
statement (`scan_kind_cases`). The end of the input is neither and is never found in a text
(`endOfInput_notMem_kindsOf`): it is what the lexer adds behind the last token.

`tokens_induction` is the induction that all statements about the tokens of a whole text use. It
goes along the text, with what has been read so far kept beside what is still to come, because the
place of a token is known from the former. The two ways to go on are `tokensFrom_of_none` and
`tokensFrom_of_some`. A text with more tokens than the limit is cut behind the last of them that
counts, and `tokenize_eq_cut` separates this from the reading.
-/

namespace ChartSchema

/-! ### Comments and content -/

/-- A kind of token that belongs to a statement. -/
def TokenKind.isContent : TokenKind → Bool
  | .comment _ | .endOfInput => false
  | _ => true

section Lexemes

variable {text : List Char} {kind : TokenKind}

/-- What starts with a dollar sign belongs to a statement. -/
theorem isContent_scanDollar (h : (scanDollar text).kind = some kind) : kind.isContent = true := by
  unfold scanDollar at h
  split at h
  · split at h
    all_goals
      cases h
      rfl
  · cases h
    rfl
  · split at h
    all_goals cases h
    rfl
  · cases h

theorem isContent_scanNumber {sign : List Char} (h : (scanNumber sign text).kind = some kind) :
    kind.isContent = true := by
  unfold scanNumber at h
  simp only at h
  split at h
  all_goals
    cases h
    rfl

theorem isContent_scanWord (h : (scanWord text).kind = some kind) : kind.isContent = true := by
  unfold scanWord at h
  cases h
  split
  · rfl
  split
  all_goals rfl

theorem isContent_punctuation? {c : Char} (h : punctuation? c = some kind) :
    kind.isContent = true := by
  unfold punctuation? at h
  split at h
  all_goals cases h
  all_goals rfl

/-- A token belongs to a statement, or it is a comment and starts with the mark of one. -/
theorem scan_kind_cases {c : Char} (h : (scan c text).kind = some kind) :
    kind.isContent = true ∨
      ((∃ body, kind = .comment body) ∧ (c = '#' ∨ (c = '/' ∧ text.head? = some '/'))) := by
  unfold scan at h
  split at h
  · next hhash =>
    cases h
    exact .inr ⟨⟨_, rfl⟩, .inl hhash⟩
  split at h
  · next hslash =>
    cases h
    exact .inr ⟨⟨_, rfl⟩, .inr hslash⟩
  left
  split at h
  · exact isContent_scanDollar h
  split at h
  · cases h
    rfl
  split at h
  · next hmark =>
    cases h
    exact isContent_punctuation? hmark
  split at h
  · exact isContent_scanNumber h
  split at h
  · exact isContent_scanNumber h
  split at h
  · exact isContent_scanWord h
  · cases h

end Lexemes

/-- No character is read as the end of the input. -/
theorem ne_endOfInput_of_scan {c : Char} {rest : List Char} {kind : TokenKind}
    (h : (scan c rest).kind = some kind) : kind ≠ .endOfInput := by
  rintro rfl
  rcases scan_kind_cases h with hcontent | ⟨⟨body, hbody⟩, -⟩
  · exact nomatch hcontent
  · exact nomatch hbody

/-- The end of the input is no token of a text. -/
theorem endOfInput_notMem_kindsOf (text : List Char) : .endOfInput ∉ kindsOf text := by
  induction hlength : text.length using Nat.strongRecOn generalizing text with
  | ind length ih =>
    cases text with
    | nil => exact kindsOf_nil ▸ List.not_mem_nil
    | cons c rest =>
      rw [kindsOf_cons, List.mem_append, Option.mem_toList, not_or]
      exact ⟨fun hkind => ne_endOfInput_of_scan hkind rfl,
        ih _ (hlength ▸ scan_rest_length c rest) _ rfl⟩

/-! ### First characters -/

/-- The marks that start a token whatever follows them. -/
def startMarks : List Char :=
  ['#', '"', '\'', ':', ';', '.', '(', ')']

/-- A character starts a token in front of a text. -/
inductive StartsToken : Char → List Char → Prop
  | mark {c : Char} {rest : List Char} (h : c ∈ startMarks) : StartsToken c rest
  | digit {c : Char} {rest : List Char} (h : c.isDigit = true) : StartsToken c rest
  | name {c : Char} {rest : List Char} (h : isNameStart c = true) : StartsToken c rest
  | comment {rest : List Char} : StartsToken '/' ('/' :: rest)
  | negative {c : Char} {rest : List Char} (h : c.isDigit = true) : StartsToken '-' (c :: rest)
  | interpolation {rest : List Char} : StartsToken '$' ('\x7b' :: rest)
  | root {rest : List Char} : StartsToken '$' ('.' :: rest)
  | variableName {c : Char} {rest : List Char} (h : isNameStart c = true) :
    StartsToken '$' (c :: rest)

section Starts

variable {c : Char} {rest : List Char}

/-- What is read as a number is a token. -/
theorem scanNumber_kind_ne_none (sign text : List Char) : (scanNumber sign text).kind ≠ none := by
  rw [scanNumber]
  split
  · exact Option.some_ne_none _
  · exact Option.some_ne_none _

/-- Behind a dollar sign a name is read, unless an interpolation or a data path starts there. -/
theorem scanDollar_cons {first : Char} (hbrace : first ≠ '\x7b') (hdot : first ≠ '.')
    (rest : List Char) :
    scanDollar (first :: rest) =
      if isNameStart first then
        ⟨some (.variable (String.ofList ('$' :: (first :: rest).takeWhile isNameChar))),
          '$' :: (first :: rest).takeWhile isNameChar, (first :: rest).dropWhile isNameChar⟩
      else ⟨none, ['$'], first :: rest⟩ := by
  rw [scanDollar]
  · exact hbrace
  · exact hdot

/-- **What starts a token is one.** The cases are the ways in which a token can start. -/
theorem StartsToken.kind_ne_none (h : StartsToken c rest) : (scan c rest).kind ≠ none := by
  cases h with
  | mark h =>
    simp only [startMarks, List.mem_cons, List.not_mem_nil, or_false] at h
    rcases h with rfl | rfl | rfl | rfl | rfl | rfl | rfl | rfl
    all_goals exact Option.some_ne_none _
  | digit h =>
    rw [scan_of_no_mark h rfl, if_pos h]
    exact scanNumber_kind_ne_none _ _
  | name h =>
    rw [scan_of_isNameStart h]
    exact Option.some_ne_none _
  | comment => exact Option.some_ne_none _
  | negative h =>
    have hscan (digit : Char) (rest : List Char) (hdigit : digit.isDigit = true) :
        scan '-' (digit :: rest) = scanNumber ['-'] (digit :: rest) := by
      simp [scan, punctuation?, hdigit]
    rw [hscan _ _ h]
    exact scanNumber_kind_ne_none _ _
  | interpolation =>
    have hscan (rest : List Char) : scan '$' ('\x7b' :: rest) = scanDollar ('\x7b' :: rest) := rfl
    rw [hscan, scanDollar]
    split
    all_goals exact Option.some_ne_none _
  | root => exact Option.some_ne_none _
  | @variableName first rest h =>
    have hscan : scan '$' (first :: rest) = scanDollar (first :: rest) := rfl
    have hbrace : first ≠ '\x7b' := by
      rintro rfl
      exact absurd h (by decide)
    have hdot : first ≠ '.' := by
      rintro rfl
      exact absurd h (by decide)
    rw [hscan, scanDollar_cons hbrace hdot, if_pos h]
    exact Option.some_ne_none _

/-- A dollar sign that starts nothing is a lexeme by itself. -/
theorem scanDollar_of_not_startsToken (h : ¬ StartsToken '$' rest) :
    scanDollar rest = ⟨none, ['$'], rest⟩ := by
  unfold scanDollar
  split
  · exact absurd .interpolation h
  · exact absurd .root h
  · split
    · next hname => exact absurd (.variableName hname) h
    · rfl
  · rfl

/-- Punctuation starts a token whatever follows it. -/
theorem mem_startMarks_of_punctuation? {kind : TokenKind} (h : punctuation? c = some kind) :
    c ∈ startMarks := by
  by_contra hmark
  rw [punctuation?] at h
  · exact Option.some_ne_none kind h.symm
  all_goals
    rintro rfl
    exact hmark (by decide)

/-- A character that starts no token is a lexeme of no kind. -/
theorem scan_of_not_startsToken (h : ¬ StartsToken c rest) : scan c rest = ⟨none, [c], rest⟩ := by
  have hmark (hc : c ∈ startMarks) : False := h (.mark hc)
  unfold scan
  split
  · next hhash => exact (hmark (by simp [startMarks, hhash])).elim
  split
  · next hslash =>
    obtain ⟨rfl, hhead⟩ := hslash
    obtain ⟨body, rfl⟩ := List.head?_eq_some_iff.1 hhead
    exact absurd .comment h
  split
  · next hdollar =>
    subst hdollar
    exact scanDollar_of_not_startsToken h
  split
  · next hquote => exact (hmark (by rcases hquote with rfl | rfl <;> decide)).elim
  split
  · next hpunctuation => exact (hmark (mem_startMarks_of_punctuation? hpunctuation)).elim
  split
  · next hdigit => exact absurd (.digit hdigit) h
  split
  · next hnumber =>
    obtain ⟨rfl, hdigit⟩ := hnumber
    obtain ⟨digit, hhead, hdigit⟩ := (Option.any_eq_true _ _).1 hdigit
    obtain ⟨digits, rfl⟩ := List.head?_eq_some_iff.1 hhead
    exact absurd (.negative hdigit) h
  split
  · next hname => exact absurd (.name hname) h
  · rfl

/-- A character is no token exactly where it starts none. -/
theorem scan_kind_eq_none_iff : (scan c rest).kind = none ↔ ¬ StartsToken c rest := by
  constructor
  · exact fun hkind hstarts => hstarts.kind_ne_none hkind
  · intro h
    rw [scan_of_not_startsToken h]

/-- No blank starts a token. -/
theorem StartsToken.isBlank_eq_false (h : StartsToken c rest) : isBlank c = false := by
  cases h with
  | mark h =>
    simp only [startMarks, List.mem_cons, List.not_mem_nil, or_false] at h
    rcases h with rfl | rfl | rfl | rfl | rfl | rfl | rfl | rfl
    all_goals rfl
  | digit h =>
    rw [Char.isDigit, Bool.and_eq_true, decide_eq_true_iff, decide_eq_true_iff] at h
    have hlow : 48 ≤ c.toNat := h.1
    have hhigh : c.toNat ≤ 57 := h.2
    exact ChartSchema.isBlank_eq_false (by omega) (by omega)
  | name h =>
    rw [isNameStart, Bool.or_eq_true, decide_eq_true_iff] at h
    rcases h with halpha | rfl
    · have hbounds := toNat_of_isAlpha halpha
      exact ChartSchema.isBlank_eq_false (by omega) (by omega)
    · rfl
  | comment => rfl
  | negative => rfl
  | interpolation => rfl
  | root => rfl
  | variableName => rfl

/-- A blank is a lexeme of no kind. -/
theorem scan_of_isBlank (h : isBlank c = true) (rest : List Char) :
    scan c rest = ⟨none, [c], rest⟩ := by
  refine scan_of_not_startsToken fun hstarts => ?_
  rw [hstarts.isBlank_eq_false] at h
  exact Bool.noConfusion h

end Starts

/-! ### One lexeme after another -/

theorem Position.advance_append (position : Position) (text more : List Char) :
    position.advance (text ++ more) = (position.advance text).advance more :=
  List.foldl_append

/-- The token of a kind that is written at a place. -/
def Token.over (position : Position) (kind : TokenKind) (text : List Char) : Token :=
  ⟨kind, String.ofList text, Span.over position text⟩

theorem Token.after_over (position : Position) (kind : TokenKind) (text : List Char) :
    (Token.over position kind text).after = position.advance text := by
  rw [Token.after, Token.over, String.toList_ofList]
  rfl

section Lexemes

variable {position : Position} {c : Char} {rest : List Char}

/-- A text can be cut behind every lexeme. -/
theorem cut_behind_lexeme {text done : List Char} (h : text = done ++ c :: rest) :
    text = done ++ (scan c rest).text ++ (scan c rest).rest := by
  rw [h, List.append_assoc, scan_append]

/-- A lexeme of no kind gives no token. -/
theorem tokensFrom_of_none (h : (scan c rest).kind = none) :
    tokensFrom position (c :: rest) = tokensFrom (position.advance [c]) rest := by
  rw [tokensFrom, h, scan_of_not_startsToken (scan_kind_eq_none_iff.1 h)]

/-- A lexeme with a kind gives the first token. -/
theorem tokensFrom_of_some {kind : TokenKind} (h : (scan c rest).kind = some kind) :
    tokensFrom position (c :: rest) = Token.over position kind (scan c rest).text ::
      tokensFrom (position.advance (scan c rest).text) (scan c rest).rest := by
  rw [tokensFrom, h]
  rfl

end Lexemes

/-- **Induction along a text**: what holds of no tokens at its end, and of the tokens behind a piece
of it whenever it holds of those behind one lexeme more, holds of the tokens behind every piece. -/
theorem tokens_induction {source : String} {motive : List Char → List Char → List Token → Prop}
    (stop : motive source.toList [] [])
    (skip : ∀ done c rest tokens, source.toList = done ++ c :: rest → (scan c rest).kind = none →
      motive (done ++ [c]) rest tokens → motive done (c :: rest) tokens)
    (token : ∀ done c rest kind tokens, source.toList = done ++ c :: rest →
      (scan c rest).kind = some kind →
      motive (done ++ (scan c rest).text) (scan c rest).rest tokens →
      motive done (c :: rest)
        (Token.over (Position.start.advance done) kind (scan c rest).text :: tokens))
    {done rest : List Char} (h : source.toList = done ++ rest) :
    motive done rest (tokensFrom (Position.start.advance done) rest) := by
  induction hlength : rest.length using Nat.strongRecOn generalizing done rest with
  | ind length ih =>
    cases rest with
    | nil =>
      have hdone : source.toList = done := h.trans (List.append_nil done)
      rw [tokensFrom, ← hdone]
      exact stop
    | cons c rest =>
      cases hkind : (scan c rest).kind with
      | none =>
        have hnext : source.toList = done ++ [c] ++ rest := h.trans (List.append_cons done c rest)
        have htokens := ih rest.length (by simp [← hlength]) hnext rfl
        rw [tokensFrom_of_none hkind, ← Position.advance_append]
        exact skip done c rest _ h hkind htokens
      | some kind =>
        have htokens := ih _ (hlength ▸ scan_rest_length c rest) (cut_behind_lexeme h) rfl
        rw [tokensFrom_of_some hkind, ← Position.advance_append]
        exact token done c rest kind _ h hkind htokens

/-- The tokens of a text cut at a limit, with the place where the text ends. -/
def cutTokens (limit : Nat) (stop : Position) (all : List Token) : Tokens :=
  all[limit]?.elim ⟨all ++ [Token.endAt stop], false⟩ fun excess =>
    ⟨all.take limit ++ [Token.endAt excess.after], true⟩

/-- The tokens of a document are all tokens of its text, cut at the limit. -/
theorem tokenize_eq_cut (limit : Nat) (source : String) :
    tokenize limit source = cutTokens limit (Position.start.advance source.toList)
      (tokensFrom Position.start source.toList) := by
  rw [tokenize, cutTokens]
  cases (tokensFrom Position.start source.toList)[limit]? <;> rfl

end ChartSchema
