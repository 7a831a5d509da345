import Mathlib.Data.List.TakeWhile
import ChartSchema.Proofs.Document.Cursors

/-!
# Slices stay between characters

The reader by slices takes every lexeme of a document as the reader of characters does
(`Cursor.lexeme?_between`), one token after another. So it always has a result, and that is the
tokens of the document (`tokenizeBySlices?_eq`): whatever a document contains, no slice is ever cut
inside a character.

There is one lemma for each sort of lexeme. It starts with a cursor between a piece of the text and
the rest, and says that the reading succeeds, with the kind of the lexeme, and leaves the cursor
behind it. For most sorts the slices lie between places where the cursor has been, so that they
exist. Two are more than a piece that the cursor has passed over:

* the digits of an index are counted in characters and left out by bytes, which comes to the same
  because a digit has one byte (`byteLength_digits`, `indexLength?_ofList`);
* a number is read a second time from its whole text, and this reading has to succeed with the value
  of the numeral (`exists_numeral_scanNumber`, `Numeral.ofText?_sign`), so that it is never lost or
  taken for one of the names of values that are not finite.

From one lexeme to all of them the induction is along the text; blanks are passed over first, and a
character that is no token is passed over as well.
-/

namespace ChartSchema

/-! ### Numerals -/

/-- There are digits in front exactly if the first character is one. -/
theorem leadingDigits_ne_nil_iff {text : List Char} :
    leadingDigits text ≠ [] ↔ text.head?.any Char.isDigit = true := by
  cases text with
  | nil => simp [leadingDigits]
  | cons c rest => simp [leadingDigits, List.takeWhile_cons]

/-- Digits have one byte each. -/
theorem byteLength_digits {digits : List Char} (h : ∀ c ∈ digits, c.isDigit = true) :
    byteLength digits = digits.length := by
  induction digits with
  | nil => rfl
  | cons c rest ih =>
    have hsize : c.utf8Size = 1 := by
      have hdigit := h c List.mem_cons_self
      rw [Char.isDigit, Bool.and_eq_true, decide_eq_true_iff, decide_eq_true_iff] at hdigit
      exact Char.utf8Size_eq_one_iff.2 (UInt32.le_trans hdigit.2 (by decide))
    rw [byteLength, hsize, ih fun d hd => h d (List.mem_cons_of_mem c hd), List.length_cons]
    omega

/-- What is read as a number is a numeral behind its sign. -/
theorem exists_numeral_scanNumber (sign : List Char) {text : List Char}
    (h : leadingDigits text ≠ []) :
    ∃ value numeral, Numeral (sign ≠ []) value numeral ∧
      (scanNumber sign text).kind = some (.number value) ∧
        (scanNumber sign text).text = sign ++ numeral := by
  have hdigits (text : List Char) : ∀ c ∈ leadingDigits text, c.isDigit = true :=
    fun _ => List.mem_takeWhile_imp
  have hfraction : ∀ c ∈ fractionDigits (afterDigits text), c.isDigit = true := by
    rw [fractionDigits.eq_def]
    split
    · exact hdigits _
    · simp
  refine ⟨_, _, ⟨leadingDigits text, fractionDigits (afterDigits text), rfl, h, hdigits text,
    hfraction, rfl⟩, ?_, ?_⟩
  · rw [scanNumber]
    split <;> rfl
  · rw [scanNumber]
    by_cases hnil : fractionDigits (afterDigits text) = []
    · rw [if_pos hnil, if_pos hnil, List.append_nil]
    · rw [if_neg hnil, if_neg hnil, List.append_assoc]

/-- A text with a digit in front is no name of a value that is not finite. -/
theorem map_toLower_ne {c first : Char} {rest name : List Char} (hc : c.isDigit = true)
    (hfirst : ∀ d : Fin 10, (Char.ofNat (48 + d)).toLower ≠ first) :
    (c :: rest).map Char.toLower ≠ first :: name := by
  intro heq
  have hlower : c.toLower = first := (List.cons.inj heq).1
  have hdigit : c.isDigit = false :=
    @isDigit_eq_false (fun d => decide (d.toLower = first)) c (fun d => decide_eq_false (hfirst d))
      (decide_eq_true hlower)
  exact absurd hc (by simp [hdigit])

/-- A numeral is read as the decimal that its digits write. -/
theorem Decimal.ofText?_digits {whole fraction : List Char} (hne : whole ≠ [])
    (hwhole : ∀ c ∈ whole, c.isDigit = true) (hfraction : ∀ c ∈ fraction, c.isDigit = true) :
    Decimal.ofText? (whole ++ if fraction = [] then [] else '.' :: fraction) =
      some (.ofDigits whole fraction 0) := by
  have hnone : ¬ (whole = [] ∧ fraction = []) := fun h => hne h.1
  have hleading (digits : List Char) (h : ∀ c ∈ digits, c.isDigit = true) :
      leadingDigits digits = digits := List.takeWhile_eq_self_iff.2 h
  have hafter (digits : List Char) (h : ∀ c ∈ digits, c.isDigit = true) :
      afterDigits digits = [] := List.dropWhile_eq_nil_iff.2 h
  by_cases hpoint : fraction = []
  · subst hpoint
    rw [if_pos rfl, List.append_nil, Decimal.ofText?, hleading whole hwhole, hafter whole hwhole]
    exact if_neg hnone
  · have hstop : ∀ c ∈ ('.' :: fraction).head?, c.isDigit = false := forall_head?.2 rfl
    have hfirst : leadingDigits (whole ++ '.' :: fraction) = whole := takeWhile_run hwhole hstop
    have hlast : afterDigits (whole ++ '.' :: fraction) = '.' :: fraction :=
      dropWhile_run hwhole hstop
    rw [if_neg hpoint, Decimal.ofText?, hfirst, hlast]
    simp only [hleading fraction hfraction, hafter fraction hfraction, if_neg hnone, exponent?,
      Option.map_some]

/-- A numeral behind its sign is read as its value. -/
theorem Numeral.ofText?_sign {sign text : List Char} {value : Binary64}
    (hsign : sign = [] ∨ sign = ['-']) (h : Numeral (sign ≠ []) value text) :
    Binary64.ofText? (sign ++ text) = some value := by
  obtain ⟨whole, fraction, rfl, hne, hwhole, hfraction, hvalue⟩ := h
  have hdecimal := Decimal.ofText?_digits hne hwhole hfraction
  obtain ⟨c, more, rfl⟩ := List.exists_cons_of_ne_nil hne
  have hc : c.isDigit = true := hwhole c List.mem_cons_self
  generalize htail : (if fraction = [] then [] else '.' :: fraction) = tail at hdecimal ⊢
  rw [List.cons_append] at hdecimal ⊢
  have hsplit : splitSign (sign ++ c :: (more ++ tail)) =
      (decide (sign ≠ []), c :: (more ++ tail)) := by
    rcases hsign with rfl | rfl
    · rw [List.nil_append, splitSign]
      · rfl
      · intro rest heq
        rw [(List.cons.inj heq).1] at hc
        exact absurd hc (by decide)
      · intro rest heq
        rw [(List.cons.inj heq).1] at hc
        exact absurd hc (by decide)
    · rfl
  have hinf : ¬ ((c :: (more ++ tail)).map Char.toLower = "inf".toList ∨
      (c :: (more ++ tail)).map Char.toLower = "infinity".toList) := by
    rintro (heq | heq)
    · exact map_toLower_ne hc (by decide) heq
    · exact map_toLower_ne hc (by decide) heq
  have hnan : (c :: (more ++ tail)).map Char.toLower ≠ "nan".toList :=
    map_toLower_ne hc (by decide)
  rw [Binary64.ofText?, hsplit]
  simp only
  rw [if_neg hinf, if_neg hnan, hdecimal, Option.map_some, hvalue]

namespace Cursor

section Between

variable {done rest : List Char} {source : String}

/-! ### Tokens behind their first characters -/

/-- A text can be cut behind every run of characters of a kind. -/
theorem cut_behind_run {text : List Char} (p : Char → Bool) (h : text = done ++ rest) :
    text = done ++ rest.takeWhile p ++ rest.dropWhile p := by
  rw [h, List.append_assoc, List.takeWhile_append_dropWhile]

/-- A comment is sliced up to the end of its line. -/
theorem comment?_between (h : source.toList = done ++ rest) :
    (between done rest).comment? source =
      some (some (.comment (String.ofList (trimBlanks (rest.takeWhile (· ≠ '\n'))))),
        between (done ++ rest.takeWhile (· ≠ '\n')) (rest.dropWhile (· ≠ '\n'))) := by
  simp only [comment?, advanceWhile_between, textUpTo?_between (cut_behind_run _ h),
    Option.map_some, String.toList_ofList]

/-- An interpolation whose body starts behind `done`, after some of it has been taken. -/
theorem interpolation?_between {taken body : List Char} {opened : Nat}
    {after : Option (List Char)} (h : source.toList = done ++ taken ++ rest)
    (hbody : interpolationBody opened rest = (body, after)) :
    (between (done ++ taken) rest).interpolation? source (byteLength done) (opened + 1) =
      some (some (.interpolation (String.ofList (taken ++ body))),
        between (done ++ taken ++ body ++ after.elim [] fun _ => ['\x7d']) (after.getD [])) := by
  induction rest generalizing taken body opened with
  | nil =>
    obtain ⟨rfl, rfl⟩ := Prod.mk.inj hbody
    have hrest : source.toList = done ++ taken := h.trans (List.append_nil _)
    rw [interpolation?_of_end source peek?_between, sliceFrom?_append hrest]
    simp
  | cons c rest ih =>
    rw [interpolationBody] at hbody
    rw [interpolation?_of_next source peek?_between, advance_between, offset_between]
    by_cases hclose : c = '\x7d' ∧ opened = 0
    -- the brace that closes the interpolation
    · rw [if_pos hclose] at hbody
      obtain ⟨rfl, rfl⟩ := Prod.mk.inj hbody
      rw [if_pos ⟨hclose.1, by omega⟩, slice?_append h, hclose.1]
      simp
    · rw [if_neg hclose] at hbody
      obtain ⟨rfl, rfl⟩ := Prod.mk.inj hbody
      have hopen : ¬ (c = '\x7d' ∧ opened + 1 = 1) := by
        rintro ⟨hc, hopened⟩
        exact hclose ⟨hc, by omega⟩
      have hdepth : (if c = '\x7d' then opened + 1 - 1 else
          if c = '\x7b' then opened + 1 + 1 else opened + 1) = bracesAfter opened c + 1 := by
        rw [bracesAfter]
        split
        · next hc =>
          have : opened ≠ 0 := fun hzero => hclose ⟨hc, hzero⟩
          omega
        · split <;> rfl
      have hnext : source.toList = done ++ (taken ++ [c]) ++ rest := by simp [h]
      rw [if_neg hopen, hdepth, List.append_assoc done taken [c], ih hnext rfl]
      simp

/-- A string behind its opening quote. -/
theorem stringValue_between {quote : Char} (hquote : quote ≠ '\\') (value : List Char) :
    (between done rest).stringValue quote value =
      (value ++ (stringBody quote rest).1,
        between (done ++ (stringBody quote rest).2.1) (stringBody quote rest).2.2) := by
  fun_induction stringBody quote rest generalizing done value with
  | case1 =>
    rw [stringValue_of_end peek?_between]
    simp
  | case2 e rest c hescaped inner text after hinner ih =>
    rw [stringValue_of_next peek?_between, if_neg (Ne.symm hquote), if_pos rfl, advance_between,
      peek?_between, List.head?_cons, Option.bind_some, hescaped, Option.elim_some, advance_between,
      ih, hinner]
    simp
  | case3 e rest hplain inner text after hinner ih =>
    rw [stringValue_of_next peek?_between, if_neg (Ne.symm hquote), if_pos rfl, advance_between,
      peek?_between, List.head?_cons, Option.bind_some, hplain, Option.elim_none, ih, hinner]
    simp
  | case4 rest _ =>
    rw [stringValue_of_next peek?_between, if_pos rfl, advance_between]
    simp
  | case5 c rest hlast hc inner text after hinner ih =>
    rw [stringValue_of_next peek?_between, if_neg hc, advance_between]
    by_cases hbackslash : c = '\\'
    -- a backslash that nothing follows
    · obtain rfl : rest = [] := by
        cases rest with
        | nil => rfl
        | cons e more => exact (hlast e more hbackslash rfl).elim
      rw [if_pos hbackslash, peek?_between, List.head?_nil, Option.bind_none, Option.elim_none, ih,
        hinner, hbackslash]
      simp
    · rw [if_neg hbackslash, ih, hinner]
      simp

/-- What a dollar sign starts. -/
theorem dollar?_between (h : source.toList = done ++ '$' :: rest) :
    (between done ('$' :: rest)).dollar? source =
      some (reading done (scanDollar rest)) := by
  rw [dollar?, peekSecond?_between h, Option.bind_some, List.getElem?_cons_succ, advance_between]
  cases rest with
  | nil => simp [scanDollar, skip, reading]
  | cons c rest =>
    rw [List.getElem?_cons_zero]
    by_cases hbrace : c = '\x7b'
    · subst hbrace
      obtain ⟨body, after, hbody⟩ : ∃ body after, interpolationBody 0 rest = (body, after) :=
        ⟨_, _, rfl⟩
      have hsource : source.toList = (done ++ ['$'] ++ ['\x7b']) ++ [] ++ rest := by simp [h]
      have hread := interpolation?_between hsource hbody
      rw [List.append_nil, Nat.zero_add, List.nil_append] at hread
      rw [if_pos rfl, advance_between]
      simp only [offset_between, hread, scanDollar, hbody, reading]
      cases after <;> simp
    by_cases hdot : c = '.'
    · subst hdot
      simp [scanDollar, reading]
    -- neither an interpolation nor a data path starts here
    have hbrace' : ¬ some c = some '\x7b' := fun heq => hbrace (Option.some.inj heq)
    have hdot' : ¬ some c = some '.' := fun heq => hdot (Option.some.inj heq)
    rw [scanDollar_cons hbrace hdot, if_neg hbrace', if_neg hdot', Option.any_some]
    by_cases hname : isNameStart c = true
    · have hsource : source.toList = done ++ ('$' :: (c :: rest).takeWhile isNameChar) ++
          (c :: rest).dropWhile isNameChar := by
        rw [List.append_assoc, List.cons_append, List.takeWhile_append_dropWhile, h]
      rw [if_pos hname, if_pos hname, advanceWhile_between, List.append_assoc,
        List.singleton_append]
      simp only [textUpTo?_between hsource, Option.map_some, reading]
    · rw [if_neg hname, if_neg hname, skip, advance_between, reading]

/-- A point and the digits behind it. -/
theorem fraction?_between (h : source.toList = done ++ rest) :
    (between done rest).fraction? source =
      some (if fractionDigits rest = [] then between done rest
        else between (done ++ '.' :: fractionDigits rest) (afterDigits rest.tail)) := by
  rw [fraction?, peek?_between]
  by_cases hpoint : rest.head? = some '.'
  · obtain ⟨more, rfl⟩ := List.head?_eq_some_iff.1 hpoint
    have hfraction : fractionDigits ('.' :: more) = leadingDigits more := rfl
    rw [if_pos hpoint, peekSecond?_between h, Option.map_some, advance_between,
      advanceWhile_between, hfraction, List.getElem?_cons_succ, ← List.head?_eq_getElem?]
    by_cases hdigit : more.head?.any Char.isDigit = true
    · have hne : leadingDigits more ≠ [] := leadingDigits_ne_nil_iff.2 hdigit
      rw [if_pos hdigit, if_neg hne, List.append_assoc]
      rfl
    · have hnil : leadingDigits more = [] := by
        by_contra hne
        exact hdigit (leadingDigits_ne_nil_iff.1 hne)
      rw [if_neg hdigit, if_pos hnil]
  · have hnil : fractionDigits rest = [] := by
      rw [fractionDigits.eq_def]
      split
      · exact absurd rfl hpoint
      · rfl
    rw [if_neg hpoint, if_pos hnil]

/-- A number with its sign. -/
theorem number?_between {sign : List Char} (hsign : sign = [] ∨ sign = ['-'])
    (hdigits : leadingDigits rest ≠ []) (h : source.toList = done ++ (sign ++ rest)) :
    (between done (sign ++ rest)).number? source = some (reading done (scanNumber sign rest)) := by
  obtain ⟨value, text, hnumeral, hkind, htext⟩ := exists_numeral_scanNumber sign hdigits
  -- the sign is passed first, then the digits before the point and those behind it
  have hfirst : (if (between done (sign ++ rest)).peek? = some '-' then
      (between done (sign ++ rest)).advance else between done (sign ++ rest)) =
        between (done ++ sign) rest := by
    rcases hsign with rfl | rfl
    · have hhead : rest.head? ≠ some '-' := by
        intro hminus
        have hdigit := leadingDigits_ne_nil_iff.1 hdigits
        rw [hminus] at hdigit
        exact absurd hdigit (by decide)
      rw [List.nil_append, peek?_between, if_neg hhead, List.append_nil]
    · exact advance_between '-'
  have hwhole : source.toList = done ++ sign ++ leadingDigits rest ++ afterDigits rest :=
    cut_behind_run Char.isDigit (h.trans (List.append_assoc done sign rest).symm)
  have hbehind : (if fractionDigits (afterDigits rest) = [] then
      between (done ++ sign ++ leadingDigits rest) (afterDigits rest)
      else between (done ++ sign ++ leadingDigits rest ++ '.' :: fractionDigits (afterDigits rest))
        (afterDigits (afterDigits rest).tail)) =
      between (done ++ (scanNumber sign rest).text) (scanNumber sign rest).rest := by
    rw [scanNumber]
    split
    · rw [List.append_assoc]
    · simp only [List.append_assoc]
  have hsource : source.toList =
      done ++ (scanNumber sign rest).text ++ (scanNumber sign rest).rest := by
    rw [h, List.append_assoc, scanNumber_append]
  have hvalue :
      Binary64.ofText? (String.ofList (scanNumber sign rest).text).toList = some value := by
    rw [String.toList_ofList, htext]
    exact hnumeral.ofText?_sign hsign
  simp only [number?, hfirst]
  rw [advanceWhile_between, ← leadingDigits, ← afterDigits, fraction?_between hwhole, hbehind,
    Option.bind_some, textUpTo?_between hsource, Option.map_some, hvalue, Option.getD_some, reading,
    hkind]

/-- An index in brackets is as long as it is where characters are counted. -/
theorem indexLength?_ofList (text : List Char) :
    ∃ index, indexLength? (String.ofList text) = some index ∧
      index.getD 0 = (indexSuffix text).length := by
  rw [indexLength?, String.toList_ofList]
  by_cases hbracket : text.head? = some '['
  · obtain ⟨inner, rfl⟩ := List.head?_eq_some_iff.1 hbracket
    have hsize : byteLength (leadingDigits inner) = (leadingDigits inner).length :=
      byteLength_digits fun _ => List.mem_takeWhile_imp
    have hrest : sliceFrom? (String.ofList inner) (leadingDigits inner).length =
        some (String.ofList (afterDigits inner)) := by
      rw [← hsize]
      exact sliceFrom?_append (by rw [String.toList_ofList, leadingDigits_append])
    rw [if_pos hbracket, List.tail_cons]
    simp only [String.toList_ofList]
    rw [← leadingDigits, hrest, Option.map_some, String.toList_ofList, indexSuffix]
    generalize leadingDigits inner = digits
    generalize afterDigits inner = after
    cases digits with
    | nil => exact ⟨none, rfl, rfl⟩
    | cons d digits =>
      have hlength : (d :: digits).length ≠ 0 := by simp
      rw [if_neg hlength]
      by_cases hclose : after.head? = some ']'
      · obtain ⟨more, rfl⟩ := List.head?_eq_some_iff.1 hclose
        rw [if_pos hclose]
        exact ⟨_, rfl, by simp⟩
      · rw [if_neg hclose]
        refine ⟨none, rfl, ?_⟩
        split
        · rfl
        · exact absurd rfl hclose
        · rfl
  · rw [if_neg hbracket, indexSuffix.eq_def]
    split
    · exact absurd rfl hbracket
    · exact ⟨none, rfl, rfl⟩

theorem iterate_advance_between (count : Nat) :
    advance^[count] (between done rest) =
      between (done ++ rest.take count) (rest.drop count) := by
  induction count generalizing done rest with
  | zero => simp
  | succ count ih =>
    rw [Function.iterate_succ_apply]
    cases rest with
    | nil =>
      have hstay : (between done []).advance = between done [] := rfl
      rw [hstay, ih]
      simp
    | cons c rest =>
      rw [advance_between, ih]
      simp

/-- A bare word with its index. -/
theorem word?_between (h : source.toList = done ++ rest) :
    (between done rest).word? source = some (reading done (scanWord rest)) := by
  obtain ⟨index, hindex, hlength⟩ := indexLength?_ofList (rest.dropWhile isNameChar)
  have hword : source.toList = done ++ (scanWord rest).text ++ (scanWord rest).rest := by
    rw [h, List.append_assoc, scanWord_append]
  have htake : (rest.dropWhile isNameChar).take (index.getD 0) =
      indexSuffix (rest.dropWhile isNameChar) := by
    rw [hlength]
    exact (List.prefix_iff_eq_take.1 ⟨_, indexSuffix_append _⟩).symm
  have hbehind : between (done ++ rest.takeWhile isNameChar ++
        (rest.dropWhile isNameChar).take (index.getD 0))
      ((rest.dropWhile isNameChar).drop (index.getD 0)) =
        between (done ++ (scanWord rest).text) (scanWord rest).rest := by
    rw [htake, hlength, List.append_assoc]
    rfl
  have hkind : (scanWord rest).kind =
      some (if String.ofList (scanWord rest).text = "true" then .boolean true
        else if String.ofList (scanWord rest).text = "false" then .boolean false
        else .identifier (String.ofList (scanWord rest).text)) := by
    have hiff (word : String) :
        String.ofList (scanWord rest).text = word ↔ (scanWord rest).text = word.toList := by
      rw [← String.ofList_inj, String.ofList_toList]
    simp only [hiff]
    rfl
  rw [word?, advanceWhile_between]
  simp only [offset_between]
  rw [sliceFrom?_append (cut_behind_run isNameChar h), Option.bind_some, hindex, Option.bind_some,
    iterate_advance_between, hbehind, textUpTo?_between hword, Option.map_some, ← hkind, reading]

/-- What a character starts that is no mark. -/
theorem plain?_between {c : Char} (h : source.toList = done ++ c :: rest) :
    (between done (c :: rest)).plain? source c = some (reading done
      (if c.isDigit then scanNumber [] (c :: rest)
      else if c = '-' ∧ rest.head?.any Char.isDigit then scanNumber ['-'] rest
      else if isNameStart c then scanWord (c :: rest)
      else ⟨none, [c], rest⟩)) := by
  have hskip : (between done (c :: rest)).skip = reading done ⟨none, [c], rest⟩ := by
    rw [skip, advance_between, reading]
  rw [plain?]
  by_cases hsign : c = '-'
  · subst hsign
    have hdigit : ¬ ('-' : Char).isDigit = true := by decide
    have hname : ¬ isNameStart '-' = true := by decide
    rw [if_pos rfl, peekSecond?_between h, Option.bind_some, List.getElem?_cons_succ,
      ← List.head?_eq_getElem?, if_neg hdigit]
    by_cases hnumber : rest.head?.any Char.isDigit = true
    · have hdigits : leadingDigits rest ≠ [] := leadingDigits_ne_nil_iff.2 hnumber
      rw [if_pos hnumber, if_pos ⟨rfl, hnumber⟩]
      exact number?_between (Or.inr rfl) hdigits h
    · rw [if_neg hnumber, if_neg fun hboth => hnumber hboth.2, if_neg hname, hskip]
  · rw [if_neg hsign]
    by_cases hdigit : c.isDigit = true
    · have hdigits : leadingDigits (c :: rest) ≠ [] := leadingDigits_ne_nil_iff.2 hdigit
      rw [if_pos hdigit, if_pos hdigit]
      exact number?_between (Or.inl rfl) hdigits h
    · have hnumber : ¬ (c = '-' ∧ rest.head?.any Char.isDigit = true) := fun hboth => hsign hboth.1
      rw [if_neg hdigit, if_neg hdigit, if_neg hnumber]
      by_cases hname : isNameStart c = true
      · rw [if_pos hname, if_pos hname, word?_between h]
      · rw [if_neg hname, if_neg hname, hskip]

/-- What the next character starts. -/
theorem lexeme?_between {c : Char} (h : source.toList = done ++ c :: rest) :
    (between done (c :: rest)).lexeme? source c = some (reading done (scan c rest)) := by
  have hnext : source.toList = done ++ [c] ++ rest := h.trans (List.append_cons done c rest)
  -- both readers ask the same questions in the same order
  rw [lexeme?, scan]
  by_cases hhash : c = '#'
  · rw [if_pos hhash, if_pos hhash, advance_between, comment?_between hnext]
    simp [reading, scanComment, hhash]
  rw [if_neg hhash, if_neg hhash]
  by_cases hslash : c = '/'
  · subst hslash
    rw [if_pos rfl, peekSecond?_between h, Option.bind_some, List.getElem?_cons_succ,
      ← List.head?_eq_getElem?]
    by_cases hcomment : rest.head? = some '/'
    · obtain ⟨body, rfl⟩ := List.head?_eq_some_iff.1 hcomment
      have hbody : source.toList = done ++ ['/'] ++ ['/'] ++ body := by
        rw [hnext, List.append_assoc _ ['/'] body, List.singleton_append]
      rw [if_pos hcomment, if_pos ⟨rfl, hcomment⟩, advance_between, advance_between,
        comment?_between hbody]
      simp [reading, scanComment]
    · -- a lone slash is no token
      rw [if_neg hcomment, if_neg fun hboth => hcomment hboth.2, skip, advance_between]
      rfl
  have hcomment : ¬ (c = '/' ∧ rest.head? = some '/') := fun hboth => hslash hboth.1
  rw [if_neg hslash, if_neg hcomment]
  by_cases hdollar : c = '$'
  · subst hdollar
    rw [if_pos rfl, if_pos rfl, dollar?_between h]
  rw [if_neg hdollar, if_neg hdollar]
  by_cases hquote : c = '"' ∨ c = '\''
  · have hbackslash : c ≠ '\\' := by
      rintro rfl
      exact absurd hquote (by decide)
    rw [if_pos hquote, if_pos hquote, advance_between, stringValue_between hbackslash]
    simp [reading, scanString]
  rw [if_neg hquote, if_neg hquote]
  cases punctuation? c with
  | some kind => rw [Option.elim_some, advance_between, reading]
  | none => rw [Option.elim_none, plain?_between h]

end Between

/-! ### One token after another -/

section Tokens

variable {source : String} {done rest : List Char}

/-- Where there is no blank, the next character is read. -/
theorem first_between {c : Char} (h : isBlank c = false) :
    (between done (c :: rest)).advanceWhile isBlank = between done (c :: rest) := by
  have hc : ¬ isBlank c = true := by simp [h]
  rw [advanceWhile_between, List.takeWhile_cons_of_neg hc, List.dropWhile_cons_of_neg hc,
    List.append_nil]

/-- A reading of the next character, which is there, always succeeds. -/
theorem read?_between {c : Char} (h : source.toList = done ++ c :: rest) :
    (between done (c :: rest)).read? source = some (reading done (scan c rest)) := by
  rw [read?, peek?_between, List.head?_cons, Option.elim_some, lexeme?_between h]

/-- At the end of a text stands the end of the input. -/
theorem nextToken?_between_nil (h : source.toList = done) :
    (between done []).nextToken? source =
      some (Token.endAt (Position.start.advance done), between done []) := by
  have hsource : source.toList = done ++ [] ++ [] := by simp [h]
  have htext : (between done []).textUpTo? source (between done []) = some "" := by
    have hslice := @textUpTo?_between done [] source [] [] hsource
    rwa [List.append_nil] at hslice
  rw [nextToken?, advanceWhile_between, List.takeWhile_nil, List.dropWhile_nil, List.append_nil]
  simp only [read?, peek?_between, List.head?_nil, Option.elim_none, htext, Option.map_some]
  rfl

/-- A lexeme that is no token is passed over. -/
theorem nextToken?_between_none {c : Char} (h : source.toList = done ++ c :: rest)
    (hkind : (scan c rest).kind = none) :
    (between done (c :: rest)).nextToken? source =
      (between (done ++ [c]) rest).nextToken? source := by
  have hlexeme : scan c rest = ⟨none, [c], rest⟩ :=
    scan_of_not_startsToken (scan_kind_eq_none_iff.1 hkind)
  by_cases hblank : isBlank c = true
  · have hfirst : (between done (c :: rest)).advanceWhile isBlank =
        (between (done ++ [c]) rest).advanceWhile isBlank := by
      rw [advanceWhile_between, advanceWhile_between, List.takeWhile_cons_of_pos hblank,
        List.dropWhile_cons_of_pos hblank, List.append_assoc, List.singleton_append]
    rw [nextToken?, hfirst, ← nextToken?]
  · have hplain : isBlank c = false := Bool.eq_false_iff.2 hblank
    have hshorter : (between (done ++ [c]) rest).ahead.length <
        (between done (c :: rest)).ahead.length := by
      rw [length_ahead_between, length_ahead_between, List.length_cons]
      omega
    rw [nextToken?, first_between hplain]
    simp only [read?_between h, hlexeme, reading]
    rw [dif_pos hshorter]

/-- A lexeme that is a token is the next one. -/
theorem nextToken?_between_some {c : Char} {kind : TokenKind}
    (h : source.toList = done ++ c :: rest) (hkind : (scan c rest).kind = some kind) :
    (between done (c :: rest)).nextToken? source =
      some (Token.over (Position.start.advance done) kind (scan c rest).text,
        between (done ++ (scan c rest).text) (scan c rest).rest) := by
  have hplain : isBlank c = false := by
    by_contra hblank
    rw [scan_of_isBlank (Bool.not_eq_false _ ▸ hblank)] at hkind
    exact Option.some_ne_none kind hkind.symm
  rw [nextToken?, first_between hplain]
  simp only [read?_between h, reading, hkind, textUpTo?_between (cut_behind_lexeme h),
    Option.map_some, Token.over, Span.over, ← Position.advance_append]
  rfl

theorem takeTokens?_of_nextToken? {room : Nat} {cursor other : Cursor}
    (h : cursor.nextToken? source = other.nextToken? source) :
    cursor.takeTokens? source room = other.takeTokens? source room := by
  rw [takeTokens?.eq_def, takeTokens?.eq_def, h]

/-- The tokens from a cursor on are those of the text that it has ahead. -/
theorem takeTokens?_between (room : Nat) (h : source.toList = done ++ rest) :
    (between done rest).takeTokens? source room =
      some (cutTokens room (Position.start.advance source.toList)
        (tokensFrom (Position.start.advance done) rest)) := by
  revert room
  refine tokens_induction (motive := fun done rest tokens => ∀ room,
    (between done rest).takeTokens? source room =
      some (cutTokens room (Position.start.advance source.toList) tokens)) ?stop ?skip ?token h
  case stop =>
    intro room
    have hend : (Token.endAt (Position.start.advance source.toList)).kind = .endOfInput := rfl
    rw [takeTokens?.eq_def, nextToken?_between_nil rfl, Option.bind_some, if_pos hend]
    rfl
  case skip =>
    intro done c rest tokens h hkind ih room
    rw [takeTokens?_of_nextToken? (nextToken?_between_none h hkind)]
    exact ih room
  case token =>
    intro done c rest kind tokens h hkind ih room
    have hcontent : (Token.over (Position.start.advance done) kind (scan c rest).text).kind ≠
        .endOfInput := ne_endOfInput_of_scan hkind
    rw [takeTokens?.eq_def, nextToken?_between_some h hkind, Option.bind_some, if_neg hcontent]
    cases room with
    | zero =>
      rw [cutTokens, List.getElem?_cons_zero, Option.elim_some, Token.after_over,
        ← Position.advance_append]
      rfl
    | succ room =>
      simp only [ih room, Option.map_some]
      rw [cutTokens, cutTokens, List.getElem?_cons_succ]
      cases tokens[room]? <;> rfl

end Tokens

end Cursor

/-- **Slices are never cut inside a character**: whatever a document contains, reading it by slices
gives its tokens. -/
theorem tokenizeBySlices?_eq (limit : Nat) (source : String) :
    tokenizeBySlices? limit source = some (tokenize limit source) := by
  rw [tokenizeBySlices?, Cursor.start_eq, Cursor.takeTokens?_between limit (List.nil_append _).symm,
    tokenize_eq_cut]
  rfl

end ChartSchema
