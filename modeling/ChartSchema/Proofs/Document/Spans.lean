import Mathlib.Data.List.Induction
import ChartSchema.Proofs.Document.Slicing

/-!
# Where tokens stand

The tokens of a document are pieces of it. A token `StandsIn` the document if the slice of its span
is its text, and its line and column count the line feeds before it and the characters behind the
last of them. Tokens come in order and apart from each other, and a character between them is a
blank or starts no token. `PlacedIn` says all of this of a list of tokens, with nothing in it about
the lexer: the spans are byte offsets into the document, and the slices are cut by the slicing
function that has no result inside a character.

While a document is read, the tokens of the rest are placed behind the piece that has been read
(`PlacedBehind`). A lexeme of no kind keeps them so (`PlacedBehind.skip`), since its character is
one that starts no token, and a lexeme with a kind puts one more in front of them
(`PlacedBehind.token`). The induction along the text then gives it for all tokens of a document.

The lines and columns of a position are counters that are moved on character by character. That they
say what they should is `Position.line_advance` and `Position.column_advance`.

If there are too many tokens, the first of them are kept and so are their places
(`tokenize_placed`); the end of the input stands behind the last one.
-/

namespace ChartSchema

/-! ### Places -/

/-- A token stands in a text where its span says: its text is the slice of the span, and its line
and column are one more than the line feeds before it and the characters behind the last of them. -/
structure Token.StandsIn (source : String) (token : Token) : Prop where
  nonempty : token.span.start < token.span.stop
  text : slice? source token.span.start token.span.stop = some token.text
  place : ∃ before, slice? source 0 token.span.start = some before ∧
    token.span.line = 1 + before.toList.count '\n' ∧
      token.span.column = 1 + (before.toList.reverse.takeWhile (· ≠ '\n')).length

/-- A byte offset belongs to a span. -/
def Span.Covers (span : Span) (offset : Nat) : Prop :=
  span.start ≤ offset ∧ offset < span.stop

/-- Tokens stand in a text in order, without the end of the input. Up to an offset, whatever is in
none of them is a blank or starts no token. -/
structure PlacedIn (source : String) (tokens : List Token) (reach : Nat) : Prop where
  content : ∀ token ∈ tokens, token.kind ≠ .endOfInput
  stands : ∀ token ∈ tokens, token.StandsIn source
  ordered : tokens.Pairwise fun token later => token.span.stop ≤ later.span.start
  between : ∀ before c after, source.toList = before ++ c :: after → byteLength before < reach →
    (∀ token ∈ tokens, ¬ token.span.Covers (byteLength before)) →
      isBlank c = true ∨ ¬ StartsToken c after

/-- The byte behind the last of some tokens. -/
def lastStop (tokens : List Token) : Nat :=
  tokens.getLast?.elim 0 fun token => token.span.stop

/-! ### One token -/

/-- The line counts the line feeds. -/
theorem Position.line_advance (position : Position) (text : List Char) :
    (position.advance text).line = position.line + text.count '\n' := by
  induction text generalizing position with
  | nil => rfl
  | cons c rest ih =>
    have hadvance : position.advance (c :: rest) = (position.step c).advance rest := rfl
    rw [hadvance, ih, Position.step]
    by_cases hc : c = '\n'
    · rw [if_pos hc, hc, List.count_cons_self]
      exact Nat.add_right_comm _ _ _
    · rw [if_neg hc, List.count_cons_of_ne hc]

/-- The column counts the characters behind the last line feed, from one. -/
theorem Position.column_advance (text : List Char) :
    (Position.start.advance text).column =
      1 + (text.reverse.takeWhile (· ≠ '\n')).length := by
  induction text using List.reverseRecOn with
  | nil => rfl
  | append_singleton text c ih =>
    have hadvance : Position.start.advance (text ++ [c]) = (Position.start.advance text).step c :=
      Position.advance_append _ _ _
    rw [hadvance, Position.step, List.reverse_append, List.reverse_singleton, List.singleton_append]
    by_cases hc : c = '\n'
    · rw [if_pos hc, List.takeWhile_cons_of_neg (by simp [hc])]
      rfl
    · rw [if_neg hc, List.takeWhile_cons_of_pos (by simp [hc]), List.length_cons, ← Nat.add_assoc,
        ← ih]

theorem Position.offset_start_advance (text : List Char) :
    (Position.start.advance text).offset = byteLength text :=
  (Position.offset_advance _ _).trans (Nat.zero_add _)

theorem byteLength_pos {text : List Char} (h : text ≠ []) : 0 < byteLength text := by
  obtain ⟨c, rest, rfl⟩ := List.exists_cons_of_ne_nil h
  have := c.utf8Size_pos
  rw [byteLength]
  omega

section Pieces

variable {source : String} {before text after : List Char} {kind : TokenKind}

@[simp] theorem start_over : (Token.over (Position.start.advance before) kind text).span.start =
    byteLength before :=
  Position.offset_start_advance before

@[simp] theorem stop_over : (Token.over (Position.start.advance before) kind text).span.stop =
    byteLength (before ++ text) := by
  rw [Token.over, Span.over, ← Position.advance_append]
  exact Position.offset_start_advance _

/-- A piece of a text stands behind what is before it. -/
theorem standsIn_over (h : source.toList = before ++ text ++ after) (hne : text ≠ []) :
    (Token.over (Position.start.advance before) kind text).StandsIn source where
  nonempty := by
    have := byteLength_pos hne
    rw [start_over, stop_over, byteLength_append]
    omega
  text := by
    rw [start_over, stop_over]
    exact slice?_append h
  place := by
    have hbefore : source.toList = [] ++ before ++ (text ++ after) := by simp [h]
    refine ⟨String.ofList before, ?_, ?_, ?_⟩
    · rw [start_over]
      exact slice?_append hbefore
    · rw [String.toList_ofList]
      exact Position.line_advance _ _
    · rw [String.toList_ofList]
      exact Position.column_advance before

end Pieces

/-! ### One lexeme after another -/

/-- Tokens that are placed in a text behind a piece of it. -/
structure PlacedBehind (source : String) (done : List Char) (tokens : List Token) : Prop where
  content : ∀ token ∈ tokens, token.kind ≠ .endOfInput
  stands : ∀ token ∈ tokens, token.StandsIn source
  behind : ∀ token ∈ tokens, byteLength done ≤ token.span.start
  ordered : tokens.Pairwise fun token later => token.span.stop ≤ later.span.start
  between : ∀ before c after, source.toList = before ++ c :: after → done <+: before →
    (∀ token ∈ tokens, ¬ token.span.Covers (byteLength before)) → ¬ StartsToken c after

/-- Of two pieces at the front of a text the shorter is the front of the longer. -/
theorem prefix_of_byteLength_le {front before whole : List Char} (hfront : front <+: whole)
    (hbefore : before <+: whole) (h : byteLength front ≤ byteLength before) : front <+: before := by
  rcases List.prefix_or_prefix_of_prefix hfront hbefore with hprefix | ⟨more, rfl⟩
  · exact hprefix
  · have hmore : more = [] := by
      by_contra hne
      have := byteLength_pos hne
      rw [byteLength_append] at h
      omega
    exact ⟨[], by rw [hmore, List.append_nil, List.append_nil]⟩

section Lexemes

variable {source : String} {done rest : List Char} {c : Char} {tokens : List Token}

/-- Where the text ends there are no more tokens. -/
theorem placedBehind_nil : PlacedBehind source source.toList [] where
  content := by simp
  stands := by simp
  behind := by simp
  ordered := .nil
  between := by
    intro before c after hsource hdone
    have hlength := hdone.length_le
    rw [hsource, List.length_append, List.length_cons] at hlength
    omega

/-- A lexeme of no kind stands between tokens. -/
theorem PlacedBehind.skip (h : source.toList = done ++ c :: rest)
    (hkind : (scan c rest).kind = none) (hrest : PlacedBehind source (done ++ [c]) tokens) :
    PlacedBehind source done tokens where
  content := hrest.content
  stands := hrest.stands
  behind := by
    intro token hmem
    have hbehind := hrest.behind token hmem
    rw [byteLength_append] at hbehind
    omega
  ordered := hrest.ordered
  between := by
    rintro before d after hsource ⟨taken, rfl⟩ hout
    have hsame : done ++ c :: rest = done ++ (taken ++ d :: after) := by
      rw [← h, hsource, List.append_assoc]
    have hrest' : c :: rest = taken ++ d :: after := List.append_cancel_left hsame
    cases taken with
    | nil =>
      obtain ⟨rfl, rfl⟩ := List.cons.inj hrest'
      exact scan_kind_eq_none_iff.1 hkind
    | cons e taken =>
      obtain ⟨rfl, -⟩ := List.cons.inj hrest'
      exact hrest.between _ d after hsource ⟨taken, by simp⟩ hout

/-- A lexeme with a kind is a token, and the others are behind it. -/
theorem PlacedBehind.token {kind : TokenKind} (h : source.toList = done ++ c :: rest)
    (hkind : (scan c rest).kind = some kind)
    (hrest : PlacedBehind source (done ++ (scan c rest).text) tokens) :
    PlacedBehind source done
      (Token.over (Position.start.advance done) kind (scan c rest).text :: tokens) where
  content := List.forall_mem_cons.2 ⟨ne_endOfInput_of_scan hkind, hrest.content⟩
  stands := List.forall_mem_cons.2
    ⟨standsIn_over (cut_behind_lexeme h) (scan_text_ne_nil c rest), hrest.stands⟩
  behind := by
    refine List.forall_mem_cons.2 ⟨by rw [start_over], fun token hmem => ?_⟩
    have hbehind := hrest.behind token hmem
    rw [byteLength_append] at hbehind
    omega
  ordered := by
    refine List.pairwise_cons.2 ⟨fun later hmem => ?_, hrest.ordered⟩
    rw [stop_over]
    exact hrest.behind later hmem
  between := by
    intro before d after hsource hdone hout
    obtain ⟨hfirst, hout⟩ := List.forall_mem_cons.1 hout
    have hstart : byteLength done ≤ byteLength before := by
      obtain ⟨more, rfl⟩ := hdone
      simp
    have hstop : byteLength (done ++ (scan c rest).text) ≤ byteLength before := by
      by_contra hinside
      refine hfirst ⟨?_, ?_⟩
      · rw [start_over]
        exact hstart
      · rw [stop_over]
        omega
    have hfront : done ++ (scan c rest).text <+: source.toList :=
      ⟨(scan c rest).rest, (cut_behind_lexeme h).symm⟩
    exact hrest.between before d after hsource
      (prefix_of_byteLength_le hfront ⟨_, hsource.symm⟩ hstop) hout

end Lexemes

/-- The tokens behind a piece of a text are placed there. -/
theorem placedBehind_tokensFrom {source : String} {done rest : List Char}
    (h : source.toList = done ++ rest) :
    PlacedBehind source done (tokensFrom (Position.start.advance done) rest) :=
  tokens_induction (motive := fun done _ tokens => PlacedBehind source done tokens)
    placedBehind_nil (fun _ _ _ _ => .skip) (fun _ _ _ _ _ => .token) h

/-! ### All tokens -/

section Tokens

variable {source : String} {front back : List Token}

/-- Tokens that are placed from the start of a text on are placed in it. -/
theorem PlacedBehind.placedIn {tokens : List Token} (h : PlacedBehind source [] tokens)
    (reach : Nat) : PlacedIn source tokens reach where
  content := h.content
  stands := h.stands
  ordered := h.ordered
  between := by
    intro before c after hsource _ hout
    exact .inr (h.between before c after hsource List.nil_prefix hout)

/-- The first of some placed tokens are placed up to the last of them. -/
theorem PlacedBehind.front_placedIn (h : PlacedBehind source [] (front ++ back)) :
    PlacedIn source front (lastStop front) where
  content := fun token hmem => h.content token (List.mem_append_left back hmem)
  stands := fun token hmem => h.stands token (List.mem_append_left back hmem)
  ordered := (List.pairwise_append.1 h.ordered).1
  between := by
    intro before c after hsource hreach hout
    refine .inr (h.between before c after hsource List.nil_prefix fun token hmem => ?_)
    rcases List.mem_append.1 hmem with hfront | hback
    · exact hout token hfront
    · -- the other tokens start where the last of the first stops, or later
      rintro ⟨hstart, -⟩
      cases hlast : front.getLast? with
      | none =>
        rw [lastStop, hlast, Option.elim_none] at hreach
        omega
      | some last =>
        have hapart := (List.pairwise_append.1 h.ordered).2.2 last (List.mem_of_getLast? hlast)
          token hback
        rw [lastStop, hlast, Option.elim_some] at hreach
        omega

end Tokens

/-- **Tokens stand where they say**: the tokens of a document end in their only end of the input.
All others are placed in the document, and the characters between them are blanks or start no token,
up to the last of them if there were too many, and to the end of the document otherwise. No slice
that they are read with is cut inside a character. -/
theorem tokenize_placed (limit : Nat) (source : String) :
    ∃ tokens stop, (tokenize limit source).tokens = tokens ++ [stop] ∧ stop.kind = .endOfInput ∧
      PlacedIn source tokens
        (if (tokenize limit source).truncated then lastStop tokens else source.utf8ByteSize) ∧
      tokenizeBySlices? limit source = some (tokenize limit source) := by
  have hplaced : PlacedBehind source [] (tokensFrom Position.start source.toList) :=
    placedBehind_tokensFrom (List.nil_append _).symm
  have hslices := tokenizeBySlices?_eq limit source
  rw [tokenize_eq_cut] at hslices ⊢
  generalize tokensFrom Position.start source.toList = all at hplaced hslices ⊢
  rw [cutTokens] at hslices ⊢
  cases hexcess : all[limit]? with
  | none =>
    rw [hexcess] at hslices
    exact ⟨all, _, rfl, rfl, hplaced.placedIn _, hslices⟩
  | some excess =>
    rw [hexcess] at hslices
    have hfront : PlacedBehind source [] (all.take limit ++ all.drop limit) := by
      rw [List.take_append_drop]
      exact hplaced
    exact ⟨all.take limit, _, rfl, rfl, hfront.front_placedIn, hslices⟩

end ChartSchema
