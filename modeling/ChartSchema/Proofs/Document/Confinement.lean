import ChartSchema.Proofs.Document.Lexemes
import ChartSchema.Proofs.Document.Reprinting

/-!
# Printing adds nothing

Whatever a schema holds, its printed text should be parsed without an error and give no leaf that
the schema does not have (`NothingAdded`). The printer puts a leaf without a statement into a
comment, but a name on its path may have a line feed, which ends the comment; and a statement ends
too early, or too late, if the braces of its callback are unbalanced, since a brace in a string
literal of an expression counts too. A leaf is `Confined` if neither happens: all its lines are read
as comments, or the callback of its statement has balanced braces.

The lines of confined leaves stand alone in the text (`Confined.standsAlone`), so that a schema of
them is read back statement by statement. Of leaves that are not confined two may hide each other,
if what breaks out of a comment repeats another statement; but then each of them adds something, or
an error, to a schema by itself. So the exact condition is on a schema together with each of its
leaves (`printsSafely_iff_confined`).
-/

namespace ChartSchema

/-! ### Comments in front of a text -/

/-- What belongs to a statement is no comment. -/
theorem TokenKind.isComment_eq_false {kind : TokenKind} (h : kind.isContent = true) :
    kind.isComment = false := by
  cases kind with
  | comment => exact nomatch h
  | _ => rfl

/-- A text whose last line, if there is one, has its end. -/
def EndsLine (text : List Char) : Prop :=
  ∀ c ∈ text.getLast?, c = '\n'

theorem EndsLine.of_suffix {text back : List Char} (h : EndsLine text) (hback : back <:+ text) :
    EndsLine back := by
  obtain ⟨front, rfl⟩ := hback
  intro c hc
  refine h c ?_
  rw [List.getLast?_append, Option.mem_def.1 hc]
  rfl

theorem EndsLine.lineFeed_mem {text : List Char} (h : EndsLine text) (hne : text ≠ []) :
    '\n' ∈ text := by
  have hlast := h _ (List.getLast?_eq_some_getLast hne)
  exact hlast ▸ List.getLast_mem hne

/-- A comment whose line has its end does not reach into the text behind that. -/
theorem scanComment_append {text : List Char} (hline : '\n' ∈ text) (mark more : List Char) :
    scanComment mark (text ++ more) =
      { scanComment mark text with rest := (scanComment mark text).rest ++ more } := by
  obtain ⟨body, rest, rfl, hbody⟩ := List.eq_append_cons_of_mem hline
  have hall : ∀ c ∈ body, decide (c ≠ '\n') = true :=
    fun c hc => decide_eq_true fun heq => hbody (heq ▸ hc)
  have hstop (behind : List Char) : ∀ c ∈ ('\n' :: behind).head?, decide (c ≠ '\n') = false :=
    forall_head?.2 rfl
  rw [List.append_assoc, List.cons_append, scanComment, scanComment]
  simp only [takeWhile_run hall (hstop _), dropWhile_run hall (hstop _), List.cons_append]

/-- That a dollar sign starts nothing is decided by the character behind it. -/
theorem scanDollar_of_head_eq {text other : List Char} (h : (scanDollar text).kind = none)
    (hhead : text.head? = other.head?) : scanDollar other = ⟨none, ['$'], other⟩ := by
  cases other with
  | nil => rfl
  | cons d other =>
    cases text with
    | nil => exact nomatch hhead
    | cons c text =>
      obtain rfl : c = d := Option.some.inj hhead
      rw [scanDollar.eq_def] at h
      split at h
      · split at h
        all_goals cases h
      · cases h
      · next hbrace hpoint heq =>
        obtain ⟨rfl, rfl⟩ := List.cons.inj heq
        split at h
        · cases h
        · next hname =>
          rw [scanDollar, if_neg hname]
          · exact hbrace
          · exact hpoint
      · next heq => cases heq

/-- That a character starts no token is decided by the next character alone. -/
theorem scan_of_head_eq {c : Char} {text other : List Char} (h : (scan c text).kind = none)
    (hhead : text.head? = other.head?) : scan c other = ⟨none, [c], other⟩ := by
  have hnumber (sign digits : List Char) : (scanNumber sign digits).kind ≠ none := by
    rw [scanNumber]
    split
    all_goals exact Option.some_ne_none _
  unfold scan at h ⊢
  rw [hhead] at h
  split at h
  · cases h
  next hhash =>
  split at h
  · cases h
  next hslash =>
  rw [if_neg hhash, if_neg hslash]
  split at h
  · next hdollar => rw [if_pos hdollar, scanDollar_of_head_eq h hhead, hdollar]
  next hdollar =>
  rw [if_neg hdollar]
  split at h
  · cases h
  next hquote =>
  rw [if_neg hquote]
  split at h
  · cases h
  split at h
  · exact absurd h (hnumber _ _)
  next hdigit =>
  rw [if_neg hdigit]
  split at h
  · exact absurd h (hnumber _ _)
  next hsign =>
  rw [if_neg hsign]
  split at h
  · cases h
  next hname =>
  rw [if_neg hname]

/-- A comment, or a character that starts no token, is read alike whatever follows its line. -/
theorem scan_append_of_comment {c : Char} {text : List Char} (hline : EndsLine (c :: text))
    (hcomment : ∀ kind ∈ (scan c text).kind, kind.isComment = true) (more : List Char) :
    scan c (text ++ more) =
      { scan c text with rest := (scan c text).rest ++ more } := by
  cases text with
  | nil =>
    -- the line feed itself
    obtain rfl : c = '\n' := hline c rfl
    rfl
  | cons d text =>
    have hmem : '\n' ∈ d :: text :=
      (hline.of_suffix (List.suffix_cons c _)).lineFeed_mem (List.cons_ne_nil d text)
    cases hkind : (scan c (d :: text)).kind with
    | none =>
      rw [scan_of_head_eq hkind rfl]
      exact scan_of_head_eq hkind rfl
    | some kind =>
      rcases scan_kind_cases hkind with hcontent | ⟨-, hmark⟩
      · have hnot := TokenKind.isComment_eq_false hcontent
        rw [hcomment kind hkind] at hnot
        exact nomatch hnot
      rcases hmark with rfl | ⟨rfl, hslash⟩
      · exact scanComment_append hmem ['#'] more
      · obtain rfl : d = '/' := Option.some.inj hslash
        have hbody : '\n' ∈ text := (List.mem_cons.1 hmem).resolve_left (by decide)
        exact scanComment_append hbody ['/', '/'] more

/-- Ended lines that are read as comments are read so in front of every text. -/
theorem kindsOf_append_of_comments {text : List Char} (hline : EndsLine text)
    (hcomments : ∀ kind ∈ kindsOf text, kind.isComment = true) (more : List Char) :
    kindsOf (text ++ more) = kindsOf text ++ kindsOf more := by
  induction hlength : text.length using Nat.strongRecOn generalizing text with
  | ind length ih =>
    cases text with
    | nil => rw [kindsOf_nil, List.nil_append, List.nil_append]
    | cons c text =>
      rw [kindsOf_cons, List.forall_mem_append] at hcomments
      obtain ⟨hfirst, hrest⟩ := hcomments
      have hscan := scan_append_of_comment hline
        (fun kind hkind => hfirst kind (Option.mem_toList.2 hkind)) more
      have hsuffix : (scan c text).rest <:+ c :: text := ⟨_, scan_append c text⟩
      have hbehind := ih _ (hlength ▸ scan_rest_length c text) (hline.of_suffix hsuffix) hrest rfl
      rw [List.cons_append, kindsOf_of_scan hscan, kindsOf_cons c text, List.append_assoc, hbehind]

/-! ### Confined leaves -/

/-- A leaf that has no other effect on what is parsed than its statement. -/
structure Confined (leaf : List String × Value) : Prop where
  /-- Without a statement it has none: whatever its names are, its lines are read as comments. -/
  comment : writtenEntry leaf = none → ∀ kind ∈ kindsOf (leafText leaf), kind.isComment = true
  /-- Its statement ends where the printer ends it. -/
  balanced : writtenEntry leaf ≠ none → ∀ callback, leaf.2 = .deferred callback →
    Balanced callback.expression.toList

theorem IsPathSegment.lineFeed_notMem {name : String} (h : IsPathSegment name) :
    '\n' ∉ name.toList := by
  have hkinds := @kindsOf_segment name h [';'] (endsWord_cons rfl (by decide) [])
  have hmem : .identifier name ∈ kindsOf (name.toList ++ [';']) := hkinds ▸ List.mem_cons_self
  exact wellCut_of_mem_kindsOf hmem

/-- Where there is an entry, the names are path segments. -/
theorem names_of_writtenEntry {leaf : List String × Value} (h : writtenEntry leaf ≠ none) :
    ∀ name ∈ leaf.1, IsPathSegment name := by
  by_contra hnames
  rw [writtenEntry, if_neg hnames] at h
  exact h rfl

/-- With names on one line and balanced callbacks a leaf is confined. -/
theorem Printable.confined {leaf : List String × Value} (h : Printable leaf) : Confined leaf where
  comment hnone := by
    rcases leafText_cases h [] with ⟨-, comment, hkinds⟩ | ⟨written, kinds, hsome, -⟩
    · rw [List.append_nil, kindsOf_nil] at hkinds
      rw [hkinds]
      exact List.forall_mem_singleton.2 rfl
    · rw [hnone] at hsome
      exact nomatch hsome
  balanced _ := h.balanced

/-- The line of a leaf has its end, whatever is in it. -/
theorem endsLine_leafText (leaf : List String × Value) : EndsLine (leafText leaf) := by
  obtain ⟨tail, hend, front, hfront⟩ := exists_lineEnd leaf
  intro c hc
  rw [← hfront, List.getLast?_append] at hc
  rcases hend with rfl | rfl
  · exact (Option.some.inj hc).symm
  · exact (Option.some.inj hc).symm

/-- **Confined leaves stand alone**, whatever their names and callbacks are. -/
theorem Confined.standsAlone {leaf : List String × Value} (hpath : leaf.1 ≠ [])
    (h : Confined leaf) : StandsAlone leaf := by
  intro rest
  by_cases hentry : writtenEntry leaf = none
  · have hcomments := h.comment hentry
    exact .inl ⟨hentry, kindsOf (leafText leaf), hcomments,
      kindsOf_append_of_comments (endsLine_leafText leaf) hcomments rest⟩
  · have hnames := names_of_writtenEntry hentry
    have hprintable : Printable leaf :=
      ⟨hpath, fun name hname => (hnames name hname).lineFeed_notMem, h.balanced hentry⟩
    exact hprintable.standsAlone rest

instance : DecidablePred Confined := fun leaf =>
  decidable_of_iff
    ((writtenEntry leaf = none → ∀ kind ∈ kindsOf (leafText leaf), kind.isComment = true) ∧
      (writtenEntry leaf ≠ none → ∀ callback, leaf.2 = .deferred callback →
        Balanced callback.expression.toList))
    ⟨fun h => ⟨h.1, h.2⟩, fun h => ⟨h.comment, h.balanced⟩⟩

/-! ### Nothing is added -/

/-- What is parsed of a printed schema has no error and nothing that the schema has not. -/
structure NothingAdded (limit : Nat) (schema : Schema) : Prop where
  errors_eq_nil : (parseWithLimit limit schema.toDocumentText).errors = []
  /-- Every leaf equals a leaf of the schema under the same path. -/
  leaves : ∀ leaf ∈ fieldLeaves (parseWithLimit limit schema.toDocumentText).schema,
    ∃ other ∈ fieldLeaves schema, LeavesEqual leaf other
  /-- Every statement is the one that is written for a leaf; none is read out of a comment. -/
  statements : ∀ statement ∈ (parseWithLimit limit schema.toDocumentText).document.statements,
    ∃ leaf ∈ fieldLeaves schema, writtenEntry leaf = some (statement.path, statement.value)

/-- With every limit that is large enough nothing is added. -/
def PrintsSafely (schema : Schema) : Prop :=
  ∀ limit, (tokensFrom Position.start schema.toDocumentText.toList).length ≤ limit →
    NothingAdded limit schema

theorem keptEntry_eq_some {keep : Value → Option Value} {leaf other : List String × Value}
    (h : keptEntry keep other = some leaf) : leaf.1 = other.1 ∧ keep other.2 = some leaf.2 := by
  rw [keptEntry] at h
  split at h
  · obtain ⟨kept, hkept, rfl⟩ := Option.map_eq_some_iff.1 h
    exact ⟨rfl, hkept⟩
  · exact nomatch h

theorem equals_of_reread {value again : Value} (h : rereadValue? value = some again) :
    again.equals value = true := by
  rcases value_reread value with ⟨hnone, -⟩ | ⟨same, hsome, -, hequal⟩
  · rw [hnone] at h
    exact nomatch h
  · rw [hsome] at h
    exact Option.some.inj h ▸ hequal

/-- **Confined leaves add nothing**, together as well as alone. -/
theorem printsSafely_of_confined {schema : Schema}
    (h : ∀ leaf ∈ fieldLeaves schema, Confined leaf) : PrintsSafely schema := by
  intro limit hlimit
  have hpaths := fun leaf hleaf => @path_ne_nil_of_mem_fieldLeaves schema leaf hleaf
  have hspells := spellsAll_of_standsAlone hpaths fun leaf hleaf =>
    (h leaf hleaf).standsAlone (hpaths leaf hleaf)
  rw [← toDocumentText_toList schema] at hspells
  obtain ⟨herrors, hschema⟩ := parseWithLimit_of_spellsAll hlimit hspells
  obtain ⟨-, hstatements⟩ := statements_of_spellsAll hlimit hspells
  refine ⟨herrors, fun leaf hleaf => ?_, fun statement hstatement => ?_⟩
  · rw [hschema, entryValues_filterMap] at hleaf
    have hentries : ∀ entry ∈ (fieldLeaves schema).filterMap (keptEntry rereadValue?),
        entry.1 ≠ [] ∧ IsLeaf entry.2 := by
      intro entry hentry
      obtain ⟨other, -, hkept⟩ := List.mem_filterMap.1 hentry
      exact ⟨path_ne_nil_of_mem_kept _ hentry, isLeaf_of_reread (keptEntry_eq_some hkept).2⟩
    rcases mem_fieldLeaves_applyEntries hentries hleaf with hkept | hnone
    · obtain ⟨other, hother, hkept⟩ := List.mem_filterMap.1 hkept
      obtain ⟨hpath, hreread⟩ := keptEntry_eq_some hkept
      exact ⟨other, hother, hpath, equals_of_reread hreread⟩
    · exact absurd hnone List.not_mem_nil
  · have hmem : (statement.path, statement.value) ∈ (fieldLeaves schema).filterMap writtenEntry :=
      hstatements ▸ List.mem_map_of_mem hstatement
    exact List.mem_filterMap.1 hmem

/-! ### Leaves by themselves -/

/-- The schema with one leaf. -/
def Schema.ofLeaf (leaf : List String × Value) : Schema :=
  Schema.insertPath leaf.2 leaf.1 []

/-- The schema with one leaf has this leaf and no other. -/
theorem fieldLeaves_ofLeaf {leaf : List String × Value} (hpath : leaf.1 ≠ [])
    (hleaf : IsLeaf leaf.2) : fieldLeaves (Schema.ofLeaf leaf) = [leaf] := by
  obtain ⟨path, value⟩ := leaf
  rw [Schema.ofLeaf]
  simp only at hpath hleaf ⊢
  induction path with
  | nil => exact absurd rfl hpath
  | cons key names ih =>
    by_cases hnames : names = []
    · subst hnames
      change fieldLeaves [(key, value)] = _
      rw [fieldLeaves, hleaf]
      rfl
    · rw [insertPath_below value key hnames]
      change fieldLeaves [(key, .object (Schema.insertPath value names []))] = _
      rw [fieldLeaves, valueLeaves_object (insertPath_ne_nil value hnames []), ih hnames]
      rfl

/-- Where neither a statement nor an error comes from, the input has ended. -/
theorem atEnd_of_statementsFrom {tokens : List Token} (hstatements : (statementsFrom tokens).1 = [])
    (herrors : (statementsFrom tokens).2 = []) : atEnd tokens = true := by
  by_contra hend
  rw [statementsFrom, if_neg hend] at hstatements herrors
  have hstatement := (List.append_eq_nil_iff.1 hstatements).1
  have herror := (List.append_eq_nil_iff.1 herrors).1
  -- a round gives a statement or an error
  unfold nextRound at hstatement herror
  split at hstatement
  · cases hstatement
  · next htake =>
    rw [htake] at herror
    cases herror

/-- A document without errors and without statements is nothing but comments. -/
theorem isComment_of_parse_nil {limit : Nat} {source : String}
    (hlimit : (tokensFrom Position.start source.toList).length ≤ limit)
    (herrors : (parseWithLimit limit source).errors = [])
    (hstatements : (parseWithLimit limit source).document.statements = []) :
    ∀ kind ∈ kindsOf source.toList, kind.isComment = true := by
  obtain ⟨tokens, hkinds, htaken, hfailed⟩ := parseWithLimit_eq hlimit
  have hend : atEnd tokens = true :=
    atEnd_of_statementsFrom (htaken ▸ hstatements) (hfailed ▸ herrors)
  have hnone : (kindsOf source.toList).filter (fun kind => !kind.isComment) = [] := by
    by_contra hne
    obtain ⟨kind, kinds, hcons⟩ := List.exists_cons_of_ne_nil hne
    rw [hcons] at hkinds
    obtain ⟨text, span, rest, rfl, -⟩ := exists_token_cons hkinds
    obtain rfl : kind = .endOfInput := of_decide_eq_true hend
    have hmem : .endOfInput ∈ kindsOf source.toList :=
      List.mem_of_mem_filter (hcons ▸ List.mem_cons_self)
    exact endOfInput_notMem_kindsOf _ hmem
  intro kind hkind
  simpa using List.filter_eq_nil_iff.1 hnone kind hkind

/-- A document whose schema is empty has no statements. -/
theorem statements_of_schema_nil {limit : Nat} {source : String}
    (h : (parseWithLimit limit source).schema = []) :
    (parseWithLimit limit source).document.statements = [] := by
  by_contra hne
  have hentries : parsedEntries limit source ≠ [] := by
    rw [parsedEntries, entryValues]
    exact mt List.map_eq_nil_iff.1 (mt List.map_eq_nil_iff.1 hne)
  rw [schema_parse] at h
  refine applyEntries_ne_nil hentries (fun entry hentry => ?_) h
  obtain ⟨statement, rfl, kinds, hfrom, -⟩ := exists_statement hentry
  exact hfrom.path_ne_nil

/-- The line of a callback is no comment. -/
theorem exists_content_of_deferred {path : List String} (hpath : path ≠ [])
    (hnames : ∀ name ∈ path, IsPathSegment name) (callback : Callback) :
    ∃ kind ∈ kindsOf (leafText (path, .deferred callback)), kind.isComment = false := by
  obtain ⟨name, names, rfl⟩ := List.exists_cons_of_ne_nil hpath
  have hall : ((name :: names).all fun name => Printer.isPathSegment name.toList) = true :=
    List.all_eq_true.2 fun other hother => (isPathSegment_iff other).2 (hnames other hother)
  rw [leafText, Printer.leafLine, if_pos hall, Printer.value?]
  simp only
  rw [kindsOf_dottedPath hpath hnames, pathKinds_cons]
  exact ⟨_, List.mem_cons_self, rfl⟩

/-- A leaf that adds nothing by itself is confined. -/
theorem confined_of_printsSafely {leaf : List String × Value} (hpath : leaf.1 ≠ [])
    (hleaf : IsLeaf leaf.2) (h : PrintsSafely (Schema.ofLeaf leaf)) : Confined leaf := by
  have hsingle := fieldLeaves_ofLeaf hpath hleaf
  have htext : (Schema.ofLeaf leaf).toDocumentText.toList = leafText leaf := by
    rw [toDocumentText_toList, hsingle, List.flatMap_singleton]
  obtain ⟨limit, hlimit⟩ : ∃ limit,
    (tokensFrom Position.start (Schema.ofLeaf leaf).toDocumentText.toList).length ≤ limit :=
    ⟨_, Nat.le_refl _⟩
  obtain ⟨herrors, hleaves, -⟩ := h limit hlimit
  by_cases hparsed :
    fieldLeaves (parseWithLimit limit (Schema.ofLeaf leaf).toDocumentText).schema = []
  -- if nothing is parsed, there are only comments
  · have hschema := not_imp_not.1 (fieldLeaves_ne_nil _) hparsed
    have hcomments := isComment_of_parse_nil hlimit herrors
      (statements_of_schema_nil hschema)
    rw [htext] at hcomments
    refine ⟨fun _ => hcomments, fun hentry callback hcallback => ?_⟩
    obtain ⟨path, value⟩ := leaf
    obtain rfl : value = .deferred callback := hcallback
    obtain ⟨kind, hkind, hcontent⟩ :=
      exists_content_of_deferred hpath (names_of_writtenEntry hentry) callback
    rw [hcomments kind hkind] at hcontent
    exact nomatch hcontent
  -- what is parsed equals the leaf, so that its names and its callback are read off the text
  · obtain ⟨same, hsame⟩ := List.exists_mem_of_ne_nil _ hparsed
    obtain ⟨other, hother, hnames, hequal⟩ := hleaves same hsame
    rw [hsingle] at hother
    obtain rfl := List.mem_singleton.1 hother
    refine Printable.confined ⟨hpath, ?_, fun callback hcallback => ?_⟩
    · exact hnames ▸ (leafOf_parse hsame).names
    · rw [hcallback] at hequal
      exact balanced_of_parsed (hsingle ▸ List.cons_ne_nil _ _) hsame hequal

/-! ### The exact condition -/

/-- **A schema and each of its leaves by itself print safely** exactly if its leaves are confined,
whatever its keys, its values and its callbacks are. -/
theorem printsSafely_iff_confined (schema : Schema) :
    (PrintsSafely schema ∧ ∀ leaf ∈ fieldLeaves schema, PrintsSafely (Schema.ofLeaf leaf)) ↔
      ∀ leaf ∈ fieldLeaves schema, Confined leaf := by
  constructor
  · rintro ⟨-, halone⟩ leaf hleaf
    exact confined_of_printsSafely (path_ne_nil_of_mem_fieldLeaves hleaf)
      (isLeaf_of_mem_fieldLeaves hleaf) (halone leaf hleaf)
  · intro hconfined
    refine ⟨printsSafely_of_confined hconfined, fun leaf hleaf => printsSafely_of_confined ?_⟩
    rw [fieldLeaves_ofLeaf (path_ne_nil_of_mem_fieldLeaves hleaf) (isLeaf_of_mem_fieldLeaves hleaf)]
    exact List.forall_mem_singleton.2 (hconfined leaf hleaf)

/-- A name with line feeds does no harm if what follows them is a comment again. -/
theorem printsSafely_iff_confined_hash :
    PrintsSafely [("label", .deferred ⟨"params", _, rfl⟩), ("x\n\n // y", .string "z")] :=
  ((printsSafely_iff_confined _).2 (by decide +kernel)).1

/-- A key with a line feed breaks out of its comment, and what follows is read as a statement; and
a brace in a string literal closes the interpolation around it. -/
theorem not_printsSafely_lineFeed :
    ¬PrintsSafely [("x\ny: 1;#", .null)] ∧
      ¬PrintsSafely [("a", .deferred ⟨"\"\x7d\"", _, rfl⟩)] := by
  constructor
  · intro h
    have hsafe := h 9 (by decide +kernel)
    have hpaths : (fieldLeaves (parseWithLimit 9 (Schema.toDocumentText
      [("x\ny: 1;#", .null)])).schema).map Prod.fst = [["y"]] := by decide +kernel
    obtain ⟨leaf, hleaf, hpath⟩ := List.mem_map.1 (hpaths ▸ List.mem_singleton_self ["y"])
    obtain ⟨other, hother, hnames, -⟩ := hsafe.leaves leaf hleaf
    obtain rfl := List.mem_singleton.1 hother
    rw [hpath] at hnames
    exact absurd hnames (by simp)
  · intro h
    have hsafe := h 9 (by decide +kernel)
    exact absurd hsafe.errors_eq_nil (by decide +kernel)

end ChartSchema
