import Mathlib.Data.String.Basic
import Mathlib.Logic.Function.Iterate
import ChartSchema.Proofs.Document.Lexemes

/-!
# A document read by slices

The tokens of a document can be read with nothing but a place in its bytes: a **cursor** takes one
character after another, and every text that a token needs is sliced out of the document between two
places where the cursor has been. A slice exists only between the first bytes of characters
(`slice?`), and the reader by slices has no result where it meets any other offset
(`tokenizeBySlices?`). That it always has one is therefore a statement about this reader, and it is
proved in `Proofs.Document.Slicing`; here the reader is defined, and what is needed of cursors.

The reader is written as the characters come. The body of an interpolation is sliced from the offset
behind its brace, a number is sliced whole and then read from its text, and the digits of an index
are counted as characters and left out by bytes. Its loops end because each round takes a character
(`Cursor.length_advance`), which is why no fuel is needed for the loops inside a token.

A cursor stands `between` a piece of the text that it has taken and the rest. From there it looks
ahead and goes on as one expects (`Cursor.peek?_between`, `Cursor.advance_between`,
`Cursor.advanceWhile_between`), and a slice from one cursor to another is the text between them
(`Cursor.textUpTo?_between`). Its offset is the number of bytes that it has taken, which is the
first byte of a character or the end of the text (`isValid_byteLength`).
-/

namespace ChartSchema

/-! ### Slices -/

/-- The part of a text between two byte offsets, if both are where a character starts or the text
ends, and in order. -/
def slice? (source : String) (start stop : Nat) : Option String :=
  if String.Pos.Raw.IsValid source ⟨start⟩ ∧ String.Pos.Raw.IsValid source ⟨stop⟩ ∧
      start ≤ stop then
    some (String.Pos.Raw.extract source ⟨start⟩ ⟨stop⟩)
  else none

/-- The part of a text from a byte offset on. -/
def sliceFrom? (source : String) (start : Nat) : Option String :=
  slice? source start source.utf8ByteSize

/-! ### Cursors -/

/-- A reader of a text: the characters that it has not taken yet, each with its byte offset, and the
place that it has counted up to. -/
structure Cursor where
  ahead : List (Nat × Char)
  position : Position

/-- The characters of a text with their byte offsets, counted from the given one. -/
def charOffsets (offset : Nat) : List Char → List (Nat × Char)
  | [] => []
  | c :: rest => (offset, c) :: charOffsets (offset + c.utf8Size) rest

namespace Cursor

/-- The cursor in front of a text. -/
def start (source : String) : Cursor :=
  ⟨charOffsets 0 source.toList, Position.start⟩

/-- The next character, if there is one. -/
def peek? (cursor : Cursor) : Option Char :=
  cursor.ahead.head?.map Prod.snd

/-- Takes a character. -/
def advance (cursor : Cursor) : Cursor :=
  cursor.ahead.head?.elim cursor fun next =>
    ⟨cursor.ahead.tail, { cursor.position.step next.2 with offset := next.1 + next.2.utf8Size }⟩

/-- Every character that is taken is one less ahead. -/
theorem length_advance {cursor : Cursor} {c : Char} (h : cursor.peek? = some c) :
    cursor.advance.ahead.length < cursor.ahead.length := by
  obtain ⟨ahead, position⟩ := cursor
  cases ahead with
  | nil => simp [peek?] at h
  | cons next rest => simp [advance]

/-- Takes characters as long as they are of a kind. -/
def advanceWhile (p : Char → Bool) (cursor : Cursor) : Cursor :=
  if _ : cursor.peek?.any p = true then advanceWhile p cursor.advance else cursor
termination_by cursor.ahead.length
decreasing_by
  rename_i h
  obtain ⟨c, hc, -⟩ := (Option.any_eq_true _ _).1 h
  exact length_advance hc

/-- Taking characters of a kind never puts any back. -/
theorem length_advanceWhile_le (p : Char → Bool) (cursor : Cursor) :
    (cursor.advanceWhile p).ahead.length ≤ cursor.ahead.length := by
  fun_induction advanceWhile p cursor with
  | case1 cursor h ih =>
    obtain ⟨c, hc, -⟩ := (Option.any_eq_true _ _).1 h
    have := length_advance hc
    omega
  | case2 cursor h => exact Nat.le_refl _

/-- What a token needs of a text: its kind, if it is one, and the cursor behind it. -/
abbrev Reading := Option TokenKind × Cursor

section Scanning

variable (source : String)

/-- The text between two cursors. -/
def textUpTo? (cursor behind : Cursor) : Option String :=
  slice? source cursor.position.offset behind.position.offset

/-- The character behind the next one, which is looked up in the rest of the text. -/
def peekSecond? (cursor : Cursor) : Option (Option Char) :=
  (sliceFrom? source cursor.position.offset).map fun rest => rest.toList[1]?

/-- Takes a character that is no token. -/
def skip (cursor : Cursor) : Reading :=
  (none, cursor.advance)

/-- A comment behind its mark. -/
def comment? (cursor : Cursor) : Option Reading :=
  let behind := cursor.advanceWhile (· ≠ '\n')
  (cursor.textUpTo? source behind).map fun body =>
    (some (.comment (String.ofList (trimBlanks body.toList))), behind)

/-- The body of an interpolation that starts at an offset, with the number of braces that are
open. -/
def interpolation? (first depth : Nat) (cursor : Cursor) : Option Reading :=
  match _ : cursor.peek? with
  | none => (sliceFrom? source first).map fun body => (some (.interpolation body), cursor)
  | some c =>
    if c = '\x7d' ∧ depth = 1 then
      (slice? source first cursor.position.offset).map fun body =>
        (some (.interpolation body), cursor.advance)
    else
      let depth := if c = '\x7d' then depth - 1 else if c = '\x7b' then depth + 1 else depth
      interpolation? first depth cursor.advance
termination_by cursor.ahead.length
decreasing_by exact length_advance ‹_›

/-- An interpolation that nothing closes takes all that is left. -/
theorem interpolation?_of_end {first depth : Nat} {cursor : Cursor} (h : cursor.peek? = none) :
    cursor.interpolation? source first depth =
      (sliceFrom? source first).map fun body => (some (.interpolation body), cursor) := by
  rw [interpolation?]
  split
  · rfl
  · next hnext => simp [h] at hnext

/-- One more character of an interpolation, which may close it or count as a brace. -/
theorem interpolation?_of_next {first depth : Nat} {cursor : Cursor} {c : Char}
    (h : cursor.peek? = some c) :
    cursor.interpolation? source first depth =
      if c = '\x7d' ∧ depth = 1 then
        (slice? source first cursor.position.offset).map fun body =>
          (some (.interpolation body), cursor.advance)
      else cursor.advance.interpolation? source first
        (if c = '\x7d' then depth - 1 else if c = '\x7b' then depth + 1 else depth) := by
  rw [interpolation?]
  split
  · next hend => simp [h] at hend
  · next next hnext =>
    obtain rfl : c = next := by simpa [h] using hnext
    rfl

/-- What a dollar sign starts. -/
def dollar? (cursor : Cursor) : Option Reading :=
  (cursor.peekSecond? source).bind fun second =>
    if second = some '\x7b' then
      let body := cursor.advance.advance
      body.interpolation? source body.position.offset 1
    else if second = some '.' then some (some (.variable "$"), cursor.advance)
    else if second.any isNameStart then
      let behind := cursor.advance.advanceWhile isNameChar
      (cursor.textUpTo? source behind).map fun name => (some (.variable name), behind)
    else some cursor.skip

/-- What a string says behind its opening quote, after what has been read of it. -/
def stringValue (quote : Char) (value : List Char) (cursor : Cursor) : List Char × Cursor :=
  match _ : cursor.peek? with
  | none => (value, cursor)
  | some c =>
    if c = quote then (value, cursor.advance)
    else if c = '\\' then
      match _ : cursor.advance.peek?.bind escaped? with
      | some e => stringValue quote (value ++ [e]) cursor.advance.advance
      | none => stringValue quote (value ++ ['\\']) cursor.advance
    else stringValue quote (value ++ [c]) cursor.advance
termination_by cursor.ahead.length
decreasing_by
  · rename_i h _ _ he
    obtain ⟨d, hd, -⟩ := Option.bind_eq_some_iff.1 he
    exact Nat.lt_trans (length_advance hd) (length_advance h)
  · exact length_advance ‹_›
  · exact length_advance ‹_›

theorem stringValue_of_end {quote : Char} {value : List Char} {cursor : Cursor}
    (h : cursor.peek? = none) : cursor.stringValue quote value = (value, cursor) := by
  rw [stringValue]
  split
  · rfl
  · next hnext => simp [h] at hnext

/-- One more character of a string, or two if the first of them is a backslash before one that can
be escaped. -/
theorem stringValue_of_next {quote : Char} {value : List Char} {cursor : Cursor} {c : Char}
    (h : cursor.peek? = some c) :
    cursor.stringValue quote value =
      if c = quote then (value, cursor.advance)
      else if c = '\\' then
        (cursor.advance.peek?.bind escaped?).elim
          (cursor.advance.stringValue quote (value ++ ['\\']))
          fun e => cursor.advance.advance.stringValue quote (value ++ [e])
      else cursor.advance.stringValue quote (value ++ [c]) := by
  rw [stringValue]
  split
  · next hend => simp [h] at hend
  · next next hnext =>
    obtain rfl : c = next := by simpa [h] using hnext
    split
    · rfl
    split
    · split
      · next hescaped => rw [hescaped, Option.elim_some]
      · next hplain => rw [hplain, Option.elim_none]
    · rfl

/-- Takes a point and the digits behind it, if there are any. -/
def fraction? (cursor : Cursor) : Option Cursor :=
  if cursor.peek? = some '.' then
    (cursor.peekSecond? source).map fun second =>
      if second.any Char.isDigit then cursor.advance.advanceWhile Char.isDigit else cursor
  else some cursor

/-- A number with its sign. -/
def number? (cursor : Cursor) : Option Reading :=
  let digits := if cursor.peek? = some '-' then cursor.advance else cursor
  ((digits.advanceWhile Char.isDigit).fraction? source).bind fun behind =>
    (cursor.textUpTo? source behind).map fun text =>
      (some (.number ((Binary64.ofText? text.toList).getD (.zero false))), behind)

end Scanning

end Cursor

/-- How many characters an index in brackets at the front of a text has. The digits are counted in
characters and left out by bytes. -/
def indexLength? (rest : String) : Option (Option Nat) :=
  if rest.toList.head? = some '[' then
    let inner := String.ofList rest.toList.tail
    let digits := (inner.toList.takeWhile Char.isDigit).length
    if digits = 0 then some none
    else (sliceFrom? inner digits).map fun behind =>
      if behind.toList.head? = some ']' then some (digits + 2) else none
  else some none

namespace Cursor

section Scanning

variable (source : String)

/-- A bare word with its index. -/
def word? (cursor : Cursor) : Option Reading :=
  let name := cursor.advanceWhile isNameChar
  (sliceFrom? source name.position.offset).bind fun rest => (indexLength? rest).bind fun index =>
    let behind := advance^[index.getD 0] name
    (cursor.textUpTo? source behind).map fun text =>
      (some (if text = "true" then .boolean true else if text = "false" then .boolean false
        else .identifier text), behind)

/-- What a character starts that is no mark. -/
def plain? (c : Char) (cursor : Cursor) : Option Reading :=
  if c = '-' then
    (cursor.peekSecond? source).bind fun second =>
      if second.any Char.isDigit then cursor.number? source else some cursor.skip
  else if c.isDigit then cursor.number? source
  else if isNameStart c then cursor.word? source
  else some cursor.skip

/-- What a character that is no blank starts. -/
def lexeme? (c : Char) (cursor : Cursor) : Option Reading :=
  if c = '#' then cursor.advance.comment? source
  else if c = '/' then
    (cursor.peekSecond? source).bind fun second =>
      if second = some '/' then cursor.advance.advance.comment? source else some cursor.skip
  else if c = '$' then cursor.dollar? source
  else if c = '"' ∨ c = '\'' then
    let read := cursor.advance.stringValue c []
    some (some (.string (String.ofList read.1)), read.2)
  else (punctuation? c).elim (cursor.plain? source c) fun kind => some (some kind, cursor.advance)

/-- What the next character starts, or the end of the input. -/
def read? (cursor : Cursor) : Option Reading :=
  cursor.peek?.elim (some (some .endOfInput, cursor)) fun c => cursor.lexeme? source c

/-- The next token and the cursor behind it. A round that takes no character has no result. -/
def nextToken? (cursor : Cursor) : Option (Token × Cursor) :=
  let first := cursor.advanceWhile isBlank
  match first.read? source with
  | none => none
  | some (some kind, behind) =>
    (first.textUpTo? source behind).map fun text =>
      (⟨kind, text, ⟨first.position.offset, behind.position.offset, first.position.line,
        first.position.column⟩⟩, behind)
  | some (none, behind) =>
    if _ : behind.ahead.length < first.ahead.length then nextToken? behind else none
termination_by cursor.ahead.length
decreasing_by exact Nat.lt_of_lt_of_le ‹_› (length_advanceWhile_le isBlank cursor)

/-- The tokens from a cursor on, with room for so many before the end of the input. -/
def takeTokens? (room : Nat) (cursor : Cursor) : Option Tokens :=
  (cursor.nextToken? source).bind fun next =>
    if next.1.kind = .endOfInput then some ⟨[next.1], false⟩
    else
      match room with
      | 0 => some ⟨[Token.endAt next.2.position], true⟩
      | room + 1 => (takeTokens? room next.2).map fun more =>
        ⟨next.1 :: more.tokens, more.truncated⟩

end Scanning

end Cursor

/-- The tokens of a document, read by slices. -/
def tokenizeBySlices? (limit : Nat) (source : String) : Option Tokens :=
  (Cursor.start source).takeTokens? source limit

/-! ### Slices between pieces -/

/-- Bytes are counted as the text itself counts them. -/
theorem byteLength_eq (text : List Char) : byteLength text = (String.ofList text).utf8ByteSize := by
  rw [String.utf8ByteSize_ofList]
  induction text with
  | nil => rfl
  | cons c rest ih => rw [byteLength, String.utf8Len_cons, ih, Nat.add_comm]

section Slices

variable {source : String} {before piece after : List Char}

/-- Behind every piece of a text a slice may start or end. -/
theorem isValid_byteLength (h : source.toList = before ++ after) :
    String.Pos.Raw.IsValid source ⟨byteLength before⟩ := by
  rw [String.Pos.Raw.isValid_iff_exists_append]
  refine ⟨String.ofList before, String.ofList after, ?_, ?_⟩
  · rw [← String.ofList_append, ← h, String.ofList_toList]
  · rw [byteLength_eq]
    rfl

/-- A slice between two pieces of a text is what stands between them. -/
theorem slice?_append (h : source.toList = before ++ piece ++ after) :
    slice? source (byteLength before) (byteLength (before ++ piece)) =
      some (String.ofList piece) := by
  have hstart : String.Pos.Raw.IsValid source ⟨byteLength before⟩ :=
    isValid_byteLength (h.trans (List.append_assoc _ _ _))
  have hstop : String.Pos.Raw.IsValid source ⟨byteLength (before ++ piece)⟩ := isValid_byteLength h
  have horder : byteLength before ≤ byteLength (before ++ piece) := by simp
  rw [slice?, if_pos ⟨hstart, hstop, horder⟩, ← String.extract_of_valid before piece after, ← h,
    String.ofList_toList, byteLength_append, byteLength_eq, byteLength_eq,
    String.utf8ByteSize_ofList, String.utf8ByteSize_ofList]

/-- A slice from behind a piece is the rest of the text. -/
theorem sliceFrom?_append (h : source.toList = before ++ after) :
    sliceFrom? source (byteLength before) = some (String.ofList after) := by
  have hsize : source.utf8ByteSize = byteLength (before ++ after) := by
    rw [byteLength_eq, ← h, String.ofList_toList]
  rw [sliceFrom?, hsize]
  exact slice?_append (h.trans (List.append_nil _).symm)

end Slices

/-! ### Cursors in a text -/

theorem Position.offset_step (position : Position) (c : Char) :
    (position.step c).offset = position.offset + c.utf8Size := by
  rw [Position.step]
  split <;> rfl

/-- A position counts the bytes of what it has advanced over. -/
theorem Position.offset_advance (position : Position) (text : List Char) :
    (position.advance text).offset = position.offset + byteLength text := by
  induction text generalizing position with
  | nil => rfl
  | cons c rest ih =>
    rw [Position.advance, List.foldl_cons, ← Position.advance, ih, offset_step, byteLength,
      Nat.add_assoc]

namespace Cursor

/-- The cursor that has taken a piece of a text and has the rest ahead. -/
def between (done rest : List Char) : Cursor :=
  ⟨charOffsets (byteLength done) rest, Position.start.advance done⟩

/-- What is read of a lexeme behind a piece of a text. -/
def reading (done : List Char) (lexeme : Lexeme) : Reading :=
  (lexeme.kind, between (done ++ lexeme.text) lexeme.rest)

theorem start_eq (source : String) : start source = between [] source.toList := rfl

section Between

variable {done rest : List Char}

theorem offset_between : (between done rest).position.offset = byteLength done := by
  rw [between, Position.offset_advance]
  exact Nat.zero_add _

theorem length_ahead_between : (between done rest).ahead.length = rest.length := by
  have hlength (offset : Nat) : (charOffsets offset rest).length = rest.length := by
    induction rest generalizing offset with
    | nil => rfl
    | cons c rest ih => exact congrArg (· + 1) (ih (offset + c.utf8Size))
  exact hlength _

@[simp] theorem peek?_between : (between done rest).peek? = rest.head? := by
  cases rest <;> rfl

@[simp] theorem advance_between (c : Char) :
    (between done (c :: rest)).advance = between (done ++ [c]) rest := by
  have hoffset : ((Position.start.advance done).step c).offset = byteLength done + c.utf8Size := by
    rw [Position.offset_step, ← @offset_between done []]
    rfl
  have hposition : ({ (Position.start.advance done).step c with
      offset := byteLength done + c.utf8Size } : Position) =
        (Position.start.advance done).step c := by
    rw [← hoffset]
  have hlength : byteLength (done ++ [c]) = byteLength done + c.utf8Size := by simp [byteLength]
  rw [between, between, Position.advance_append, hlength, advance]
  simp only [charOffsets, List.head?_cons, Option.elim_some, List.tail_cons, hposition]
  rfl

theorem advanceWhile_between (p : Char → Bool) :
    (between done rest).advanceWhile p =
      between (done ++ rest.takeWhile p) (rest.dropWhile p) := by
  induction rest generalizing done with
  | nil =>
    rw [advanceWhile, dif_neg (by simp)]
    simp
  | cons c rest ih =>
    by_cases hc : p c = true
    · rw [advanceWhile, dif_pos (by simp [hc]), advance_between, ih]
      simp [hc]
    · rw [advanceWhile, dif_neg (by simp [hc])]
      simp [hc]

variable {source : String}

/-- The text between two cursors of a text. -/
theorem textUpTo?_between {piece after : List Char} (h : source.toList = done ++ piece ++ after) :
    (between done rest).textUpTo? source (between (done ++ piece) after) =
      some (String.ofList piece) := by
  rw [textUpTo?, offset_between, offset_between]
  exact slice?_append h

theorem peekSecond?_between (h : source.toList = done ++ rest) :
    (between done rest).peekSecond? source = some rest[1]? := by
  rw [peekSecond?, offset_between, sliceFrom?_append h, Option.map_some, String.toList_ofList]

end Between

end Cursor

end ChartSchema
