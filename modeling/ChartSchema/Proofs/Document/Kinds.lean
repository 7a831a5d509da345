import ChartSchema.Document.Lexer
import ChartSchema.Proofs.Document.Writable
import ChartSchema.Proofs.Number.ReadBack

/-!
# Reading printed pieces

Where a token stands in the text makes no difference to its kind. `kindsOf` is the list of the kinds
of the tokens of a text, and this module says for every piece that the printer writes which kinds it
adds in front of those of the text that follows.

What follows matters: a name ends only where no further name character and no bracket stands
(`EndsWord`), and a number where no digit and no point stands (`EndsNumber`). For everything else
the end is part of the piece: a string has its closing quote, an interpolation its closing brace, a
comment its line feed. So each lemma is an equation for the kinds of a piece with any text behind
it, under one of the two conditions or none, and the lines of a document are read by rewriting with
these equations from the left to the right.

* `kindsOf_segment` and `kindsOf_boolean` for words: the lexer reads name characters and then an
  index, and only afterwards looks whether the word is one of the booleans (`scanWord_run`).
* `kindsOf_quote` for strings, by induction over the text that is escaped.
* `kindsOf_interpolation` for expressions with balanced braces: the lexer counts the open braces and
  stops at the one that closes none of them (`interpolationBody_balanced`).
* `kindsOf_numeral` for numbers, where the numeral denotes the number that is read.
-/

namespace ChartSchema

/-- The kinds of the tokens of a text, in order. -/
def kindsOf (text : List Char) : List TokenKind :=
  (tokensFrom Position.start text).map Token.kind

/-- The kinds of the tokens do not depend on where the text stands. -/
theorem map_kind_tokensFrom (position : Position) (text : List Char) :
    (tokensFrom position text).map Token.kind = kindsOf text := by
  suffices h : ∀ other, (tokensFrom position text).map Token.kind =
      (tokensFrom other text).map Token.kind from h _
  fun_induction tokensFrom position text with
  | case1 position => exact fun other => by rw [tokensFrom]
  | case2 position c rest lexeme following kind hkind ih =>
    intro other
    rw [tokensFrom]
    simp only [lexeme] at hkind ih
    simp only [hkind, List.map_cons]
    exact congrArg (kind :: ·) (ih _)
  | case3 position c rest lexeme following hkind ih =>
    intro other
    rw [tokensFrom]
    simp only [lexeme] at hkind ih
    simp only [hkind]
    exact ih _

@[simp] theorem kindsOf_nil : kindsOf [] = [] := by
  rw [kindsOf, tokensFrom, List.map_nil]

/-- The lexeme at the front comes first. -/
theorem kindsOf_cons (c : Char) (rest : List Char) :
    kindsOf (c :: rest) = (scan c rest).kind.toList ++ kindsOf (scan c rest).rest := by
  rw [kindsOf, tokensFrom]
  cases hkind : (scan c rest).kind with
  | none => simp only [map_kind_tokensFrom, Option.toList_none, List.nil_append]
  | some kind =>
    simp only [List.map_cons, map_kind_tokensFrom, Option.toList_some, List.singleton_append]

/-- The kinds of a text whose first lexeme is known. -/
theorem kindsOf_of_scan {c : Char} {rest : List Char} {lexeme : Lexeme}
    (h : scan c rest = lexeme) :
    kindsOf (c :: rest) = lexeme.kind.toList ++ kindsOf lexeme.rest := by
  rw [kindsOf_cons, h]

/-! ### Blanks and punctuation -/

section Marks

variable (rest : List Char)

@[simp] theorem kindsOf_blank : kindsOf (' ' :: rest) = kindsOf rest :=
  @kindsOf_of_scan ' ' rest ⟨none, [' '], rest⟩ rfl

@[simp] theorem kindsOf_lineFeed : kindsOf ('\n' :: rest) = kindsOf rest :=
  @kindsOf_of_scan '\n' rest ⟨none, ['\n'], rest⟩ rfl

@[simp] theorem kindsOf_comma : kindsOf (',' :: rest) = kindsOf rest :=
  @kindsOf_of_scan ',' rest ⟨none, [','], rest⟩ rfl

@[simp] theorem kindsOf_colon : kindsOf (':' :: rest) = .colon :: kindsOf rest :=
  @kindsOf_of_scan ':' rest ⟨some .colon, [':'], rest⟩ rfl

@[simp] theorem kindsOf_semicolon : kindsOf (';' :: rest) = .semicolon :: kindsOf rest :=
  @kindsOf_of_scan ';' rest ⟨some .semicolon, [';'], rest⟩ rfl

@[simp] theorem kindsOf_dot : kindsOf ('.' :: rest) = .dot :: kindsOf rest :=
  @kindsOf_of_scan '.' rest ⟨some .dot, ['.'], rest⟩ rfl

@[simp] theorem kindsOf_leftParen : kindsOf ('(' :: rest) = .leftParen :: kindsOf rest :=
  @kindsOf_of_scan '(' rest ⟨some .leftParen, ['('], rest⟩ rfl

@[simp] theorem kindsOf_rightParen : kindsOf (')' :: rest) = .rightParen :: kindsOf rest :=
  @kindsOf_of_scan ')' rest ⟨some .rightParen, [')'], rest⟩ rfl

end Marks

/-! ### Comments -/

/-- A line that starts with a hash is a comment up to its end. -/
theorem kindsOf_comment {body : List Char} (hbody : '\n' ∉ body) (rest : List Char) :
    kindsOf ('#' :: (body ++ '\n' :: rest)) =
      .comment (String.ofList (trimBlanks body)) :: kindsOf rest := by
  have hline : ∀ c ∈ body, decide (c ≠ '\n') = true :=
    fun c hc => decide_eq_true fun heq => hbody (heq ▸ hc)
  have hend : ∀ c ∈ ('\n' :: rest).head?, decide (c ≠ '\n') = false := forall_head?.2 rfl
  have hscan : scan '#' (body ++ '\n' :: rest) = scanComment ['#'] (body ++ '\n' :: rest) := rfl
  rw [kindsOf_of_scan hscan, scanComment]
  simp only [takeWhile_run hline hend, dropWhile_run hline hend, kindsOf_lineFeed,
    Option.toList_some, List.singleton_append]

/-! ### Words -/

/-- The marks that decide alone what is read. -/
def marks : List Char :=
  ['#', '/', '$', '"', '\'', ':', ';', '.', '(', ')']

/-- A character of a class without marks starts a number, a word or nothing. -/
theorem scan_of_no_mark {p : Char → Bool} {c : Char} (h : p c = true)
    (hmarks : (marks.all fun mark => !p mark) = true) (rest : List Char) :
    scan c rest =
      if c.isDigit then scanNumber [] (c :: rest)
      else if c = '-' ∧ rest.head?.any Char.isDigit then scanNumber ['-'] rest
      else if isNameStart c then scanWord (c :: rest)
      else ⟨none, [c], rest⟩ := by
  have hne {mark : Char} (hmark : mark ∈ marks) : c ≠ mark := by
    rintro rfl
    have hnot := List.all_eq_true.1 hmarks c hmark
    rw [h] at hnot
    exact nomatch hnot
  have hpunctuation : punctuation? c = none := by
    rw [punctuation?] <;> exact hne (by decide)
  have hquote : ¬(c = '"' ∨ c = '\'') := by
    rintro (hc | hc)
    · exact hne (by decide) hc
    · exact hne (by decide) hc
  rw [scan, if_neg (hne (by decide)), if_neg fun hc => hne (by decide) hc.1,
    if_neg (hne (by decide)), if_neg hquote, hpunctuation]

theorem isDigit_of_isNameStart {c : Char} (h : isNameStart c = true) : c.isDigit = false :=
  isDigit_eq_false (by decide) h

/-- What starts a name is read as a word. -/
theorem scan_of_isNameStart {c : Char} (h : isNameStart c = true) (rest : List Char) :
    scan c rest = scanWord (c :: rest) := by
  have hsign : ¬(c = '-' ∧ rest.head?.any Char.isDigit) := by
    rintro ⟨rfl, -⟩
    exact nomatch h
  rw [scan_of_no_mark h rfl, isDigit_of_isNameStart h, if_neg Bool.false_ne_true, if_neg hsign,
    if_pos h]

/-- What stands behind a word: nothing that would be part of it. -/
def EndsWord (rest : List Char) : Prop :=
  ∀ c ∈ rest.head?, isNameChar c = false ∧ c ≠ '['

/-- Where a word ends there is no index. -/
theorem indexSuffix_none {rest : List Char} (h : EndsWord rest) : indexSuffix rest = [] := by
  rw [indexSuffix.eq_def]
  split
  · next after => exact absurd rfl (h '[' rfl).2
  · rfl

/-- An index is read whole. -/
theorem indexSuffix_index {index : List Char} (h : IsIndex index) (rest : List Char) :
    indexSuffix (index ++ rest) = index := by
  obtain ⟨digits, rfl, hdigits, hall⟩ := h
  have hstop : ∀ c ∈ (']' :: rest).head?, Char.isDigit c = false := forall_head?.2 rfl
  have htext : '[' :: (digits ++ [']']) ++ rest = '[' :: (digits ++ ']' :: rest) := by simp
  have hleading : leadingDigits (digits ++ ']' :: rest) = digits := takeWhile_run hall hstop
  have hafter : afterDigits (digits ++ ']' :: rest) = ']' :: rest := dropWhile_run hall hstop
  rw [htext, indexSuffix, hleading, hafter]
  cases digits with
  | nil => exact absurd rfl hdigits
  | cons d digits => rfl

/-- A word is read up to its end. -/
theorem scanWord_run {name index rest : List Char} (hname : ∀ c ∈ name, isNameChar c = true)
    (hindex : index = [] ∨ IsIndex index) (hrest : EndsWord rest) :
    scanWord (name ++ (index ++ rest)) =
      ⟨some (if name ++ index = "true".toList then .boolean true
        else if name ++ index = "false".toList then .boolean false
        else .identifier (String.ofList (name ++ index))), name ++ index, rest⟩ := by
  have hstop : ∀ c ∈ (index ++ rest).head?, isNameChar c = false := by
    rcases hindex with rfl | ⟨digits, rfl, -⟩
    · exact fun c hc => (hrest c hc).1
    · exact forall_head?.2 rfl
  have hsuffix : indexSuffix (index ++ rest) = index := by
    rcases hindex with rfl | hindex
    · exact indexSuffix_none hrest
    · exact indexSuffix_index hindex rest
  rw [scanWord, takeWhile_run hname hstop, dropWhile_run hname hstop, hsuffix, List.drop_left]

/-- A path segment is read as a name. -/
theorem kindsOf_segment {text : String} (h : IsPathSegment text) {rest : List Char}
    (hrest : EndsWord rest) :
    kindsOf (text.toList ++ rest) = .identifier text :: kindsOf rest := by
  obtain ⟨name, index, htext, hname, hindex⟩ := h
  obtain ⟨⟨first, more, hchars, hfirst, hmore⟩, htrue, hfalse⟩ := hname
  rw [String.toList_ofList] at hchars
  have hall : ∀ c ∈ name, isNameChar c = true := by
    rw [hchars]
    intro c hc
    rcases List.mem_cons.1 hc with rfl | hc
    · exact isNameChar_of_isNameStart hfirst
    · exact hmore c hc
  -- with an index it is no boolean for its bracket
  have hword (word : String) (hplain : '[' ∉ word.toList) (hne : String.ofList name ≠ word) :
      name ++ index ≠ word.toList := by
    intro heq
    rcases hindex with rfl | ⟨digits, rfl, -⟩
    · rw [List.append_nil] at heq
      exact hne (String.toList_inj.1 (by rw [String.toList_ofList, heq]))
    · rw [← heq] at hplain
      exact hplain (List.mem_append_right _ List.mem_cons_self)
  have hscan : scan first (more ++ (index ++ rest)) =
      ⟨some (.identifier text), text.toList, rest⟩ := by
    rw [scan_of_isNameStart hfirst, ← List.cons_append, ← hchars, scanWord_run hall hindex hrest,
      if_neg (hword "true" (by decide) htrue), if_neg (hword "false" (by decide) hfalse), ← htext,
      String.ofList_toList]
  rw [htext, List.append_assoc, hchars, List.cons_append, kindsOf_of_scan hscan]
  rfl

/-- A boolean is read as such where the word ends. -/
theorem kindsOf_boolean (value : Bool) {rest : List Char} (hrest : EndsWord rest) :
    kindsOf ((if value then "true".toList else "false".toList) ++ rest) =
      .boolean value :: kindsOf rest := by
  cases value with
  | true =>
    have hscan : scan 't' ("rue".toList ++ rest) = ⟨some (.boolean true), "true".toList, rest⟩ := by
      rw [scan_of_isNameStart rfl]
      exact @scanWord_run "true".toList [] rest (List.all_eq_true.1 rfl) (.inl rfl) hrest
    exact kindsOf_of_scan hscan
  | false =>
    have hscan : scan 'f' ("alse".toList ++ rest) =
        ⟨some (.boolean false), "false".toList, rest⟩ := by
      rw [scan_of_isNameStart rfl]
      exact @scanWord_run "false".toList [] rest (List.all_eq_true.1 rfl) (.inl rfl) hrest
    exact kindsOf_of_scan hscan

/-! ### Strings and interpolations -/

/-- An escaped character is read as the character. -/
theorem stringBody_escape (c : Char) (text : List Char) :
    stringBody '"' (Printer.escape c ++ text) =
      (c :: (stringBody '"' text).1, Printer.escape c ++ (stringBody '"' text).2.1,
        (stringBody '"' text).2.2) := by
  fun_cases Printer.escape c with
  | case1 => rfl
  | case2 => rfl
  | case3 => rfl
  | case4 => rfl
  | case5 => rfl
  | case6 c hquote hslash _ _ _ =>
    rw [List.singleton_append, stringBody, if_neg hquote]
    · rfl
    · rintro e rest rfl
      exact fun _ => hslash rfl

/-- An escaped text is read up to the quote behind it. -/
theorem stringBody_quote (text rest : List Char) :
    stringBody '"' (text.flatMap Printer.escape ++ '"' :: rest) =
      (text, text.flatMap Printer.escape ++ ['"'], rest) := by
  induction text with
  | nil => rfl
  | cons c text ih =>
    rw [List.flatMap_cons, List.append_assoc, stringBody_escape, ih]
    simp

/-- A quoted string is read as the string, whatever follows. -/
theorem kindsOf_quote (text : String) (rest : List Char) :
    kindsOf (Printer.quote text ++ rest) = .string text :: kindsOf rest := by
  have hscan : scan '"' (text.toList.flatMap Printer.escape ++ '"' :: rest) =
      ⟨some (.string text), Printer.quote text, rest⟩ := by
    have hstring : scan '"' (text.toList.flatMap Printer.escape ++ '"' :: rest) =
      scanString '"' (text.toList.flatMap Printer.escape ++ '"' :: rest) := rfl
    rw [hstring, scanString, stringBody_quote]
    simp only [String.ofList_toList, Printer.quote]
  rw [Printer.quote, List.cons_append, List.append_assoc, List.singleton_append,
    kindsOf_of_scan hscan]
  rfl

/-- How far the counts of braces behind a character are from those with it. -/
theorem count_bracesAfter {opened : Nat} {c : Char} (hopen : ¬(c = '\x7d' ∧ opened = 0))
    (front : List Char) :
    (c :: front).count '\x7d' + bracesAfter opened c + front.count '\x7b' =
      opened + (c :: front).count '\x7b' + front.count '\x7d' := by
  rw [bracesAfter, List.count_cons, List.count_cons]
  by_cases hclose : c = '\x7d'
  · subst hclose
    have hpos : opened ≠ 0 := fun hzero => hopen ⟨rfl, hzero⟩
    rw [if_pos rfl]
    simp
    omega
  · by_cases hinner : c = '\x7b'
    · subst hinner
      simp
      omega
    · simp [hclose, hinner]
      omega

/-- Braces inside a body are matched up to the one that closes it. -/
theorem interpolationBody_balanced {opened : Nat} {text : List Char}
    (hnever : ∀ front back, text = front ++ back →
      front.count '\x7d' ≤ opened + front.count '\x7b')
    (htotal : text.count '\x7d' = opened + text.count '\x7b') (rest : List Char) :
    interpolationBody opened (text ++ '\x7d' :: rest) = (text, some rest) := by
  induction text generalizing opened with
  | nil =>
    have hclosed : opened = 0 := by simpa using htotal.symm
    rw [hclosed]
    rfl
  | cons c text ih =>
    have hopen : ¬(c = '\x7d' ∧ opened = 0) := by
      rintro ⟨rfl, rfl⟩
      exact absurd (hnever ['\x7d'] text rfl) (by decide)
    have hcount := count_bracesAfter hopen
    have hrest := @ih (bracesAfter opened c) (fun front back heq => by
        have hfront := hnever (c :: front) back (by rw [heq, List.cons_append])
        have hsum := hcount front
        omega) (by
        have hsum := hcount text
        omega)
    rw [List.cons_append, interpolationBody, if_neg hopen, hrest]

/-- A balanced expression between braces is read as the expression, whatever follows. -/
theorem kindsOf_interpolation {expression : String} (h : Balanced expression.toList)
    (rest : List Char) :
    kindsOf ((Value.interpolation expression).toList ++ rest) =
      .interpolation expression :: kindsOf rest := by
  have htext : (Value.interpolation expression).toList ++ rest =
      '$' :: '\x7b' :: (expression.toList ++ '\x7d' :: rest) := by
    simp [Value.interpolation]
  have hbody : interpolationBody 0 (expression.toList ++ '\x7d' :: rest) =
      (expression.toList, some rest) :=
    interpolationBody_balanced (by simpa using h.1) (by simpa using h.2) rest
  have hscan : scan '$' ('\x7b' :: (expression.toList ++ '\x7d' :: rest)) =
      scanDollar ('\x7b' :: (expression.toList ++ '\x7d' :: rest)) := rfl
  rw [htext, kindsOf_of_scan hscan, scanDollar, hbody]
  simp only [String.ofList_toList, Option.toList_some, List.singleton_append]

/-! ### Numbers -/

/-- What stands behind a number: no digit and no point. -/
def EndsNumber (rest : List Char) : Prop :=
  ∀ c ∈ rest.head?, c.isDigit = false ∧ c ≠ '.'

/-- A numeral is read up to its end. -/
theorem scanNumber_numeral {sign text rest : List Char} {value : Binary64}
    (h : Numeral (sign ≠ []) value text) (hrest : EndsNumber rest) :
    scanNumber sign (text ++ rest) = ⟨some (.number value), sign ++ text, rest⟩ := by
  obtain ⟨whole, fraction, rfl, hwhole, hdigits, hfraction, hvalue⟩ := h
  have hend : ∀ c ∈ rest.head?, c.isDigit = false := fun c hc => (hrest c hc).1
  have hnone : fractionDigits rest = [] := by
    rw [fractionDigits.eq_def]
    split
    · next after => exact absurd rfl (hrest '.' rfl).2
    · rfl
  by_cases hpoint : fraction = []
  · subst hpoint
    have hleading : leadingDigits (whole ++ rest) = whole := takeWhile_run hdigits hend
    have hafter : afterDigits (whole ++ rest) = rest := dropWhile_run hdigits hend
    rw [if_pos rfl, List.append_nil, scanNumber, hleading, hafter]
    simp only [hnone, if_true, hvalue]
  · have hstop : ∀ c ∈ ('.' :: (fraction ++ rest)).head?, c.isDigit = false :=
      forall_head?.2 rfl
    have hleading : leadingDigits (whole ++ '.' :: (fraction ++ rest)) = whole :=
      takeWhile_run hdigits hstop
    have hafter : afterDigits (whole ++ '.' :: (fraction ++ rest)) = '.' :: (fraction ++ rest) :=
      dropWhile_run hdigits hstop
    have hread : leadingDigits (fraction ++ rest) = fraction := takeWhile_run hfraction hend
    have hlast : afterDigits (fraction ++ rest) = rest := dropWhile_run hfraction hend
    rw [if_neg hpoint, List.append_assoc, List.cons_append, scanNumber, hleading, hafter]
    simp only [fractionDigits, hread, hpoint, if_false, List.tail_cons, hlast, hvalue,
      List.append_assoc]

/-- A numeral behind its sign is read as the number. -/
theorem kindsOf_numeral {negative : Bool} {value : Binary64} {text rest : List Char}
    (h : Numeral negative value text) (hrest : EndsNumber rest) :
    kindsOf ((if negative then ['-'] else []) ++ (text ++ rest)) =
      .number value :: kindsOf rest := by
  obtain ⟨digit, more, hdigit, htext⟩ :
      ∃ digit more, digit.isDigit = true ∧ text = digit :: more := by
    obtain ⟨whole, fraction, rfl, hwhole, hdigits, -⟩ := h
    obtain ⟨digit, more, rfl⟩ := List.exists_cons_of_ne_nil hwhole
    exact ⟨digit, _, hdigits digit List.mem_cons_self, rfl⟩
  cases negative with
  | true =>
    have hscan : scan '-' (text ++ rest) = scanNumber ['-'] (text ++ rest) := by
      rw [htext, List.cons_append, scan]
      simp [punctuation?, hdigit]
    have hnumber := @scanNumber_numeral ['-'] text rest value h hrest
    rw [if_pos rfl, List.singleton_append, kindsOf_of_scan (hscan.trans hnumber)]
    rfl
  | false =>
    have hscan : scan digit (more ++ rest) = scanNumber [] (text ++ rest) := by
      rw [htext, scan_of_no_mark hdigit rfl, if_pos hdigit, List.cons_append]
    have hnumber := @scanNumber_numeral [] text rest value h hrest
    rw [if_neg Bool.false_ne_true, List.nil_append, htext, List.cons_append,
      kindsOf_of_scan (hscan.trans hnumber)]
    rfl

end ChartSchema
