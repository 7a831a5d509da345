import ChartSchema.Document.Basic
import ChartSchema.Proofs.Document.Kinds

/-!
# Spelling printed documents

`Written.ofValue?` is the right side of a statement that is written for a value, if there is one,
and `writtenEntry` the entry that is written for a leaf. What the printer makes of them is text, and
what the parser sees of a text are tokens. The relation between the two sides is `Spells`, from a
right side to the kinds of its tokens, and `SpellsAll`, from the entries of a document to the kinds
of all its tokens but comments.

The printer decides by itself what can be written, and the lemmas compare the two decisions case by
case: `argument_cases` for an argument of a call, `value_cases` for a value and `leafText_cases` for
a line. In each, either there is nothing to write and the printer refuses, or there is something and
the printed text has the tokens that spell it, in front of those of whatever follows.

Numbers are where this takes work. A finite number is written as a sign and a numeral
(`number?_of_finite`), in one of two ways: as an integer if it is one and not too large, and with a
fraction otherwise. Both zeros are written alike, so that the sign of zero is not written.

A leaf that is refused becomes a comment, which the parser does not see. Hence the lines of a list
of leaves spell exactly the entries of the leaves that can be written (`spellsAll_lines`).
-/

namespace ChartSchema

/-! ### What is written -/

/-- The argument that is written for a value, if a call can have it. The sign of zero is not
written. -/
def Written.argumentOf? : Value → Option Written
  | .string text => some (.string text)
  | .number value => if value.isFinite then some (.number value.withoutZeroSign) else none
  | _ => none

/-- The right side that is written for a value, if there is one. -/
def Written.ofValue? : Value → Option Written
  | .string text => some (.string text)
  | .number value => if value.isFinite then some (.number value.withoutZeroSign) else none
  | .bool value => some (.boolean value)
  | .call name args =>
    if IsIdentifier name then (args.mapM Written.argumentOf?).map (.call name) else none
  | .deferred callback => some (.interpolation callback.expression)
  | _ => none

/-- What is written for a leaf. -/
def writtenEntry (leaf : List String × Value) : Option (List String × Written) :=
  if ∀ name ∈ leaf.1, IsPathSegment name then
    (Written.ofValue? leaf.2).map fun written => (leaf.1, written)
  else none

/-! ### Kinds of tokens -/

/-- The argument that a token inside a call is; only strings and numbers are arguments. -/
def TokenKind.argument? : TokenKind → Option Written
  | .string text => some (.string text)
  | .number value => some (.number value)
  | _ => none

/-- The tokens of the arguments of a call, one for each. -/
abbrev SpellsArguments (kinds : List TokenKind) (args : List Written) : Prop :=
  List.Forall₂ (fun kind arg => kind.argument? = some arg) kinds args

/-- The tokens of a right side. -/
inductive Spells : List TokenKind → Written → Prop where
  | string (text : String) : Spells [.string text] (.string text)
  | number (value : Binary64) : Spells [.number value] (.number value)
  | boolean (value : Bool) : Spells [.boolean value] (.boolean value)
  | call (name : String) {kinds : List TokenKind} {args : List Written}
    (hargs : SpellsArguments kinds args) :
    Spells (.identifier name :: .leftParen :: (kinds ++ [.rightParen])) (.call name args)
  | interpolation (expression : String) :
    Spells [.interpolation expression] (.interpolation expression)

/-- The tokens of a path: names with dots between them. -/
def pathKinds : List String → List TokenKind
  | [] => []
  | [name] => [.identifier name]
  | name :: rest => .identifier name :: .dot :: pathKinds rest

/-- The tokens of a list of entries, a statement for each. -/
inductive SpellsAll : List TokenKind → List (List String × Written) → Prop where
  | nil : SpellsAll [] []
  | cons {path : List String} {written : Written} {kinds more : List TokenKind}
    {entries : List (List String × Written)} (hpath : path ≠ []) (hwritten : Spells kinds written)
    (hmore : SpellsAll more entries) :
    SpellsAll (pathKinds path ++ .colon :: (kinds ++ .semicolon :: more))
      ((path, written) :: entries)

def TokenKind.isComment : TokenKind → Bool
  | .comment _ => true
  | _ => false

/-! ### Printed values -/

/-- A number ends in front of any other character than a digit or a point. -/
theorem endsNumber_cons {c : Char} (hdigit : c.isDigit = false) (hpoint : c ≠ '.')
    (rest : List Char) : EndsNumber (c :: rest) :=
  forall_head?.2 ⟨hdigit, hpoint⟩

/-- A word ends in front of any character that is no part of a name and no bracket. -/
theorem endsWord_cons {c : Char} (hname : isNameChar c = false) (hbracket : c ≠ '[')
    (rest : List Char) : EndsWord (c :: rest) :=
  forall_head?.2 ⟨hname, hbracket⟩

/-- The text of a signed count is a sign and its digits. -/
theorem integer_signed (negative : Bool) {n : Nat} (hn : n ≠ 0) :
    Printer.integer (Binary64.signed negative n) =
      (if negative then ['-'] else []) ++ Nat.toDigits 10 n := by
  rw [Printer.integer, Binary64.signed]
  cases negative with
  | true =>
    have hlt : (-(n : Int)) < 0 := by omega
    rw [if_pos rfl, if_pos hlt, if_pos rfl, Int.natAbs_neg, Int.natAbs_natCast]
  | false =>
    have hge : ¬((n : Int) < 0) := by omega
    rw [if_neg Bool.false_ne_true, if_neg hge, if_neg Bool.false_ne_true, Int.natAbs_natCast]

/-- Both zeros are written alike. -/
theorem number?_zero (negative : Bool) (representable : Representable 0) :
    Printer.number? (.finite negative 0 representable) = some ['0'] := by
  have hintegral : (Binary64.finite negative 0 representable).isIntegral = true := by
    rw [Binary64.isIntegral, Nat.zero_mod]
    rfl
  have htruncate : (Binary64.finite negative 0 representable).truncate = 0 := by
    rw [Binary64.truncate, Nat.zero_div]
    cases negative <;> rfl
  have hfinite : (Binary64.finite negative 0 representable).isFinite = true := rfl
  rw [Printer.number?, if_pos hfinite, htruncate, if_pos ⟨hintegral, by decide⟩]
  rfl

/-- A finite number is written as its sign and a numeral. -/
theorem number?_of_finite {value : Binary64} (h : value.isFinite = true) :
    ∃ negative text, Printer.number? value = some ((if negative then ['-'] else []) ++ text) ∧
      Numeral negative value.withoutZeroSign text := by
  cases value with
  | nan => exact nomatch h
  | infinite negative => exact nomatch h
  | finite negative units representable =>
    by_cases hzero : units = 0
    · subst hzero
      refine ⟨false, ['0'], number?_zero negative representable, ['0'], [], rfl,
        List.cons_ne_nil _ _, List.all_eq_true.1 rfl, List.all_eq_true.1 rfl, ?_⟩
      rw [Binary64.withoutZeroSign, if_pos rfl]
      rfl
    · rw [Printer.number?, if_pos h, Binary64.withoutZeroSign, if_neg hzero]
      split
      · next hsmall =>
        have hintegral : units % unitsPerOne = 0 := of_decide_eq_true hsmall.1
        refine ⟨negative, _, congrArg some ?_, numeral_integer representable hzero hintegral⟩
        rw [Binary64.truncate, integer_signed negative (div_ne_zero_of_integral hzero hintegral)]
      · obtain ⟨text, hnumeral, htext⟩ := write_plain representable hzero
        exact ⟨negative, text, congrArg some htext, hnumeral⟩

/-- There is no text for an infinity or for what is not a number. -/
theorem number?_of_not_finite {value : Binary64} (h : ¬value.isFinite = true) :
    Printer.number? value = none := by
  rw [Printer.number?, if_neg h]

/-- An argument is printed exactly when there is one to write, and is read as it. -/
theorem argument_cases (value : Value) :
    (Printer.argument? value = none ∧ Written.argumentOf? value = none) ∨
      ∃ text arg kind, Printer.argument? value = some text ∧
        Written.argumentOf? value = some arg ∧ kind.argument? = some arg ∧
        ∀ rest, EndsNumber rest → kindsOf (text ++ rest) = kind :: kindsOf rest := by
  cases value with
  | null | bool | array | object | call | deferred => exact .inl ⟨rfl, rfl⟩
  | string text =>
    exact .inr ⟨_, _, .string text, rfl, rfl, rfl, fun rest _ => kindsOf_quote text rest⟩
  | number value =>
    by_cases hfinite : value.isFinite = true
    · obtain ⟨negative, text, htext, hnumeral⟩ := number?_of_finite hfinite
      refine .inr ⟨_, _, .number _, htext, if_pos hfinite, rfl, fun rest hrest => ?_⟩
      rw [List.append_assoc]
      exact kindsOf_numeral hnumeral hrest
    · exact .inl ⟨number?_of_not_finite hfinite, if_neg hfinite⟩

/-- The arguments of a call are printed exactly when all of them can be written, and are read as
they are. -/
theorem arguments_cases (values : List Value) :
    (values.mapM Printer.argument? = none ∧ values.mapM Written.argumentOf? = none) ∨
      ∃ texts args kinds, values.mapM Printer.argument? = some texts ∧
        values.mapM Written.argumentOf? = some args ∧ SpellsArguments kinds args ∧
        ∀ rest, kindsOf (Printer.commaSeparated texts ++ ')' :: rest) =
          kinds ++ .rightParen :: kindsOf rest := by
  induction values with
  | nil => exact .inr ⟨[], [], [], rfl, rfl, .nil, fun rest => kindsOf_rightParen rest⟩
  | cons value values ih =>
    rcases argument_cases value with ⟨htext, harg⟩ | ⟨text, arg, kind, htext, harg, hkind, hread⟩
    · exact .inl ⟨by simp [htext], by simp [harg]⟩
    rcases ih with ⟨htexts, hargs⟩ | ⟨texts, args, kinds, htexts, hargs, hkinds, hreads⟩
    · exact .inl ⟨by simp [htexts], by simp [hargs]⟩
    refine .inr ⟨text :: texts, arg :: args, kind :: kinds, by simp [htext, htexts],
      by simp [harg, hargs], .cons hkind hkinds, ?_⟩
    intro rest
    cases texts with
    | nil =>
      have hlast := hread (')' :: rest) (endsNumber_cons rfl (by decide) rest)
      rw [Printer.commaSeparated, hlast, List.cons_append, ← hreads rest]
      rfl
    | cons next texts =>
      have hcomma := hread (',' :: ' ' :: (Printer.commaSeparated (next :: texts) ++ ')' :: rest))
        (endsNumber_cons rfl (by decide) _)
      rw [kindsOf_comma, kindsOf_blank, hreads rest] at hcomma
      rw [Printer.commaSeparated, List.append_assoc, List.cons_append, List.cons_append, hcomma,
        List.cons_append]
      exact List.cons_ne_nil _ _

/-- A value is printed exactly when there is a right side to write, and its text spells it. -/
theorem value_cases (value : Value)
    (hbalanced : ∀ callback, value = .deferred callback → Balanced callback.expression.toList) :
    (Printer.value? value = none ∧ Written.ofValue? value = none) ∨
      ∃ text written kinds, Printer.value? value = some text ∧
        Written.ofValue? value = some written ∧ Spells kinds written ∧
        ∀ rest, kindsOf (text ++ ';' :: rest) = kinds ++ .semicolon :: kindsOf rest := by
  cases value with
  | null | array | object => exact .inl ⟨rfl, rfl⟩
  | string text =>
    refine .inr ⟨_, _, _, rfl, rfl, .string text, fun rest => ?_⟩
    rw [kindsOf_quote, kindsOf_semicolon]
    rfl
  | bool value =>
    refine .inr ⟨_, _, _, rfl, rfl, .boolean value, fun rest => ?_⟩
    rw [kindsOf_boolean value (endsWord_cons rfl (by decide) rest), kindsOf_semicolon]
    rfl
  | deferred callback =>
    refine .inr ⟨_, _, _, rfl, rfl, .interpolation callback.expression, fun rest => ?_⟩
    rw [kindsOf_interpolation (hbalanced callback rfl), kindsOf_semicolon]
    rfl
  | number value =>
    by_cases hfinite : value.isFinite = true
    · obtain ⟨negative, text, htext, hnumeral⟩ := number?_of_finite hfinite
      refine .inr ⟨_, _, _, htext, if_pos hfinite, .number _, fun rest => ?_⟩
      rw [List.append_assoc, kindsOf_numeral hnumeral (endsNumber_cons rfl (by decide) rest),
        kindsOf_semicolon]
      rfl
    · exact .inl ⟨number?_of_not_finite hfinite, if_neg hfinite⟩
  | call name args =>
    rw [Printer.value?, Written.ofValue?]
    rcases arguments_cases args with
      ⟨htexts, hargs⟩ | ⟨texts, written, kinds, htexts, hargs, hkinds, hreads⟩
    · refine .inl ⟨by rw [htexts], ?_⟩
      rw [hargs]
      exact ite_self _
    · rw [htexts, hargs]
      by_cases hname : IsIdentifier name
      · refine .inr ⟨_, _, _, if_pos ((isIdentifier_iff name).2 hname), if_pos hname,
          .call name hkinds, fun rest => ?_⟩
        have hsegment : IsPathSegment name :=
          ⟨name.toList, [], by simp, by simpa using hname, .inl rfl⟩
        have hargs := hreads (';' :: rest)
        rw [kindsOf_semicolon] at hargs
        rw [List.append_assoc, List.cons_append, List.append_assoc, List.singleton_append,
          kindsOf_segment hsegment (endsWord_cons rfl (by decide) _), kindsOf_leftParen, hargs]
        simp
      · exact .inl ⟨if_neg (mt (isIdentifier_iff name).1 hname), if_neg hname⟩

/-! ### Printed lines -/

theorem kindsOf_dottedPath {path : List String} (hpath : path ≠ [])
    (hsegments : ∀ name ∈ path, IsPathSegment name) (rest : List Char) :
    kindsOf (Printer.dottedPath path ++ ':' :: rest) =
      pathKinds path ++ .colon :: kindsOf rest := by
  induction path with
  | nil => exact absurd rfl hpath
  | cons name more ih =>
    have hname := hsegments name List.mem_cons_self
    cases more with
    | nil =>
      change kindsOf (name.toList ++ ':' :: rest) = _
      rw [kindsOf_segment hname (endsWord_cons rfl (by decide) _), kindsOf_colon]
      rfl
    | cons next more =>
      have hmore := ih (List.cons_ne_nil _ _)
        fun key hkey => hsegments key (List.mem_cons_of_mem _ hkey)
      change kindsOf ((name.toList ++ '.' :: Printer.dottedPath (next :: more)) ++ ':' :: rest) = _
      rw [List.append_assoc, List.cons_append,
        kindsOf_segment hname (endsWord_cons rfl (by decide) _), kindsOf_dot, hmore]
      rfl

/-- A character that is in no piece and is not the separator is not in the joined text. -/
theorem notMem_joinWith {c separator : Char} (hc : c ≠ separator) {pieces : List (List Char)}
    (hpieces : ∀ piece ∈ pieces, c ∉ piece) : c ∉ joinWith separator pieces := by
  fun_induction joinWith separator pieces with
  | case1 => exact List.not_mem_nil
  | case2 piece => exact hpieces piece List.mem_cons_self
  | case3 piece pieces _ ih =>
    intro hmem
    rcases List.mem_append.1 hmem with hmem | hmem
    · exact hpieces piece List.mem_cons_self hmem
    · rcases List.mem_cons.1 hmem with heq | hmem
      · exact hc heq
      · exact ih (fun other hother => hpieces other (List.mem_cons_of_mem _ hother)) hmem

theorem lineFeed_notMem_singleLine (text : String) : '\n' ∉ Printer.singleLine text := by
  intro hmem
  obtain ⟨c, -, hc⟩ := List.mem_map.1 hmem
  split at hc
  · exact absurd hc (by decide)
  · next hline => exact hline (.inl hc)

/-- The line of a leaf that cannot be written is a comment. -/
theorem kindsOf_commentLine {path : List String} (hpath : ∀ name ∈ path, '\n' ∉ name.toList)
    (text : String) (rest : List Char) : ∃ comment,
    kindsOf ('#' :: ' ' :: (Printer.dottedPath path ++ ':' :: ' ' :: (Printer.singleLine text ++
      " (not expressible)\n".toList)) ++ rest) = .comment comment :: kindsOf rest := by
  let body := ' ' :: (Printer.dottedPath path ++ ':' :: ' ' :: (Printer.singleLine text ++
    " (not expressible)".toList))
  have hdotted : '\n' ∉ Printer.dottedPath path := by
    refine notMem_joinWith (by decide) fun piece hpiece => ?_
    obtain ⟨name, hname, rfl⟩ := List.mem_map.1 hpiece
    exact hpath name hname
  have hbody : '\n' ∉ body := by
    have hend : '\n' ∉ " (not expressible)".toList := by decide
    simp only [body, List.mem_cons, List.mem_append, not_or]
    exact ⟨by decide, hdotted, by decide, by decide, lineFeed_notMem_singleLine text, hend⟩
  have hline : " (not expressible)\n".toList = " (not expressible)".toList ++ ['\n'] := by decide
  refine ⟨String.ofList (trimBlanks body), ?_⟩
  rw [← kindsOf_comment hbody rest, hline]
  simp only [body, List.cons_append, List.append_assoc, List.nil_append]

/-- Leaves whose lines are read as they are meant: their names are on one line, and the braces of
their callbacks are balanced. -/
structure Printable (leaf : List String × Value) : Prop where
  path_ne_nil : leaf.1 ≠ []
  oneLine : ∀ name ∈ leaf.1, '\n' ∉ name.toList
  balanced : ∀ callback, leaf.2 = .deferred callback → Balanced callback.expression.toList

/-- The line for a leaf, as it is printed. -/
def leafText (leaf : List String × Value) : List Char :=
  Printer.leafLine leaf.1 leaf.2

/-- The line for a leaf is the statement that is written for it, or a comment if there is none. -/
theorem leafText_cases {leaf : List String × Value} (h : Printable leaf) (rest : List Char) :
    (writtenEntry leaf = none ∧
      ∃ comment, kindsOf (leafText leaf ++ rest) = .comment comment :: kindsOf rest) ∨
    ∃ written kinds, writtenEntry leaf = some (leaf.1, written) ∧ Spells kinds written ∧
      kindsOf (leafText leaf ++ rest) =
        pathKinds leaf.1 ++ .colon :: (kinds ++ .semicolon :: kindsOf rest) := by
  obtain ⟨path, value⟩ := leaf
  obtain ⟨hpath, honeLine, hbalanced⟩ := h
  have hcomment := kindsOf_commentLine honeLine value.toJson.toText rest
  have hall : (path.all fun name => Printer.isPathSegment name.toList) = true ↔
      ∀ name ∈ path, IsPathSegment name := by
    rw [List.all_eq_true]
    exact forall₂_congr fun name _ => isPathSegment_iff name
  rw [leafText, writtenEntry, Printer.leafLine]
  by_cases hsegments : ∀ name ∈ path, IsPathSegment name
  · rw [if_pos hsegments, if_pos (hall.2 hsegments)]
    rcases value_cases value hbalanced with
      ⟨htext, hwritten⟩ | ⟨text, written, kinds, htext, hwritten, hspells, hread⟩
    · refine .inl ⟨by rw [hwritten, Option.map_none], ?_⟩
      rw [htext]
      exact hcomment
    · refine .inr ⟨written, kinds, by rw [hwritten, Option.map_some], hspells, ?_⟩
      have hvalue := hread ('\n' :: rest)
      rw [kindsOf_lineFeed] at hvalue
      have hdotted := kindsOf_dottedPath hpath hsegments (' ' :: (text ++ ';' :: '\n' :: rest))
      rw [kindsOf_blank, hvalue] at hdotted
      rw [htext, ← hdotted]
      simp only [List.append_assoc, List.cons_append, List.nil_append]
  · rw [if_neg hsegments, if_neg (mt hall.1 hsegments)]
    exact .inl ⟨rfl, hcomment⟩

/-! ### Printed documents -/

theorem isComment_pathKinds {path : List String} :
    ∀ kind ∈ pathKinds path, (!kind.isComment) = true := by
  fun_induction pathKinds path with
  | case1 => exact fun kind h => absurd h List.not_mem_nil
  | case2 name =>
    intro kind h
    rw [List.mem_singleton.1 h]
    rfl
  | case3 name rest _ ih =>
    intro kind h
    rcases List.mem_cons.1 h with rfl | h
    · rfl
    rcases List.mem_cons.1 h with rfl | h
    · rfl
    · exact ih kind h

/-- No argument is a comment. -/
theorem SpellsArguments.isComment {kinds : List TokenKind} {args : List Written}
    (h : SpellsArguments kinds args) : ∀ kind ∈ kinds, (!kind.isComment) = true := by
  induction h with
  | nil => exact fun kind hkind => absurd hkind List.not_mem_nil
  | @cons kind arg kinds args hargument _ ih =>
    refine List.forall_mem_cons.2 ⟨?_, ih⟩
    cases kind with
    | comment text => cases hargument
    | _ => rfl

/-- No token of a right side is a comment. -/
theorem Spells.isComment {kinds : List TokenKind} {written : Written} (h : Spells kinds written) :
    ∀ kind ∈ kinds, (!kind.isComment) = true := by
  cases h with
  | string | number | boolean | interpolation => simp [TokenKind.isComment]
  | call name hargs =>
    intro kind h
    simp only [List.mem_cons, List.mem_append, List.not_mem_nil, or_false] at h
    rcases h with rfl | rfl | hkind | rfl
    · rfl
    · rfl
    · exact hargs.isComment kind hkind
    · rfl

/-- The line of a leaf is read as it is meant, whatever follows it: as comments, or as the statement
that is written for the leaf. -/
def StandsAlone (leaf : List String × Value) : Prop :=
  ∀ rest,
    (writtenEntry leaf = none ∧ ∃ comments, (∀ kind ∈ comments, kind.isComment = true) ∧
      kindsOf (leafText leaf ++ rest) = comments ++ kindsOf rest) ∨
    ∃ written kinds, writtenEntry leaf = some (leaf.1, written) ∧ Spells kinds written ∧
      kindsOf (leafText leaf ++ rest) =
        pathKinds leaf.1 ++ .colon :: (kinds ++ .semicolon :: kindsOf rest)

/-- A printable leaf has a line that is read by itself. -/
theorem Printable.standsAlone {leaf : List String × Value} (h : Printable leaf) :
    StandsAlone leaf := by
  intro rest
  rcases leafText_cases h rest with ⟨hentry, comment, hkinds⟩ | hstatement
  · exact .inl ⟨hentry, [.comment comment], List.forall_mem_singleton.2 rfl, hkinds⟩
  · exact .inr hstatement

/-- Lines that stand alone spell together what is written for their leaves, comments apart. -/
theorem spellsAll_of_standsAlone {leaves : List (List String × Value)}
    (hpaths : ∀ leaf ∈ leaves, leaf.1 ≠ []) (halone : ∀ leaf ∈ leaves, StandsAlone leaf) :
    SpellsAll ((kindsOf (leaves.flatMap leafText)).filter fun kind => !kind.isComment)
      (leaves.filterMap writtenEntry) := by
  induction leaves with
  | nil =>
    rw [List.flatMap_nil, kindsOf_nil]
    exact .nil
  | cons leaf leaves ih =>
    have hmore := ih (fun other hother => hpaths other (List.mem_cons_of_mem _ hother))
      fun other hother => halone other (List.mem_cons_of_mem _ hother)
    rw [List.flatMap_cons]
    rcases halone leaf List.mem_cons_self (leaves.flatMap leafText) with
      ⟨hentry, comments, hcomments, hkinds⟩ | ⟨written, kinds, hentry, hspells, hkinds⟩
    · have hnone : comments.filter (fun kind => !kind.isComment) = [] :=
        List.filter_eq_nil_iff.2 fun kind hkind => by simp [hcomments kind hkind]
      rw [hkinds, List.filterMap_cons_none hentry, List.filter_append, hnone, List.nil_append]
      exact hmore
    · rw [hkinds, List.filterMap_cons_some hentry, List.filter_append,
        List.filter_eq_self.2 isComment_pathKinds, List.filter_cons_of_pos rfl, List.filter_append,
        List.filter_eq_self.2 hspells.isComment, List.filter_cons_of_pos rfl]
      exact .cons (hpaths leaf List.mem_cons_self) hspells hmore

/-- **What is printed spells what is written**, comments apart. -/
theorem spellsAll_lines {leaves : List (List String × Value)}
    (h : ∀ leaf ∈ leaves, Printable leaf) :
    SpellsAll ((kindsOf (leaves.flatMap leafText)).filter fun kind => !kind.isComment)
      (leaves.filterMap writtenEntry) :=
  spellsAll_of_standsAlone (fun leaf hleaf => (h leaf hleaf).path_ne_nil)
    fun leaf hleaf => (h leaf hleaf).standsAlone

end ChartSchema
