import ChartSchema.Document.Token

/-!
# The tokens of a document

Cutting a whole document gives its tokens in order, each where its lexeme stands, and the end of
the input behind them. Only a limited number of tokens is taken; beyond it the document is
truncated, and the end stands behind the first token too many.
-/

namespace ChartSchema

/-! ### Progress -/

theorem takeWhile_ne_nil {p : Char → Bool} {c : Char} {rest : List Char} (h : p c = true) :
    (c :: rest).takeWhile p ≠ [] := by
  simp [h]

theorem scanDollar_text_ne_nil (text : List Char) : (scanDollar text).text ≠ [] := by
  unfold scanDollar
  split
  · split <;> simp
  · simp
  · split <;> simp
  · simp

theorem scanNumber_text_ne_nil {sign text : List Char} (h : sign ++ leadingDigits text ≠ []) :
    (scanNumber sign text).text ≠ [] := by
  rw [scanNumber]
  split
  · exact h
  · simp

/-- Every lexeme has a character. -/
theorem scan_text_ne_nil (c : Char) (rest : List Char) : (scan c rest).text ≠ [] := by
  unfold scan
  split
  · simp [scanComment]
  split
  · simp [scanComment]
  split
  · exact scanDollar_text_ne_nil rest
  split
  · simp [scanString]
  split
  · simp
  split
  · next h =>
    have hdigits : (c :: rest).takeWhile Char.isDigit ≠ [] := takeWhile_ne_nil h
    exact scanNumber_text_ne_nil (by simpa [leadingDigits] using hdigits)
  split
  · exact scanNumber_text_ne_nil (by simp)
  split
  · next h =>
    -- what starts a name also belongs to it
    have hname : isNameChar c = true := by
      simp only [isNameStart, isNameChar, Char.isAlphanum, Bool.or_eq_true] at h ⊢
      exact h.imp_left Or.inl
    simp [scanWord, hname]
  · simp

theorem scan_rest_length (c : Char) (rest : List Char) :
    (scan c rest).rest.length < (c :: rest).length := by
  have h := congrArg List.length (scan_append c rest)
  have := List.length_pos_iff.2 (scan_text_ne_nil c rest)
  rw [List.length_append] at h
  omega

/-! ### All tokens -/

/-- The tokens of a text that starts at a place, without the end of the input. -/
def tokensFrom (position : Position) : List Char → List Token
  | [] => []
  | c :: rest =>
    let lexeme := scan c rest
    let following := tokensFrom (position.advance lexeme.text) lexeme.rest
    match lexeme.kind with
    | some kind =>
      ⟨kind, String.ofList lexeme.text, Span.over position lexeme.text⟩ :: following
    | none => following
termination_by text => text.length
decreasing_by exact scan_rest_length c rest

/-- How many tokens a document may have where nothing else is said. -/
def defaultTokenLimit : Nat := 1000

/-- The place behind a token. -/
def Token.after (token : Token) : Position :=
  Position.advance ⟨token.span.start, token.span.line, token.span.column⟩ token.text.toList

/-- The tokens of a document and whether it had more than the limit. -/
structure Tokens where
  tokens : List Token
  truncated : Bool

/-- The tokens of a document, at most as many as the limit and the end of the input. -/
def tokenize (limit : Nat) (source : String) : Tokens :=
  let all := tokensFrom Position.start source.toList
  -- the token at the limit, counted from zero, is the first too many
  match all[limit]? with
  | some excess => ⟨all.take limit ++ [Token.endAt excess.after], true⟩
  | none => ⟨all ++ [Token.endAt (Position.start.advance source.toList)], false⟩

end ChartSchema
