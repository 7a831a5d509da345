import Mathlib.Data.List.Pairwise
import ChartSchema.Fetch.Sources
import ChartSchema.Proofs.DataPath.Writing

/-!
# Field maps

A field map copies fields one after another into a fresh object: each entry has the path of a target
and the path of a source. If the targets are independent, that is, any two of them part, no copy
disturbs another, so that the order of the entries does not matter (`copyFields_perm`), and each may
be taken for the last. What is copied is then found at its target (`getPath?_copyFields`), entries
whose source resolves to nothing can be left out (`copyFields_filter`), and everything else in the
object is there only to hold what was copied (`exists_prefix_of_isScalar`).

The last of these is said about scalars, since the containers on the way to a target are made by the
copies, and about scalars other than `null`, with which lists are filled up to an index. One write
is followed by `prefix_or_of_get?_set`, and the copies by induction from the last one.

Independence is decidable (`independent_iff`), so that a concrete field map is checked by
evaluation. It is needed: of two targets of which one leads on from the other, the later copy
changes what the earlier one has put there.

The main statements are `FieldMap.apply_independent`, about the payload that a field map makes, and
`FieldMap.apply_layOut`, about a payload that is laid out for a field map first and is then found
again at the targets.
-/

namespace ChartSchema

/-- Whether a value has no parts. -/
def Json.isScalar : Json → Bool
  | .array _ => false
  | .object _ => false
  | _ => true

namespace DataPath

/-! ### Scalars -/

section Scalars

variable {payload value found : Json} {path other : DataPath}

/-- There is nothing below `null`. -/
theorem eq_null_of_get?_null (h : get? .null path = some found) : found = .null := by
  cases path with
  | nil => exact (Option.some.inj h).symm
  | cons step rest => cases step <;> cases h

/-- In a fresh object nothing is found but itself. -/
theorem eq_of_get?_empty (h : get? (.object []) path = some found) : found = .object [] := by
  cases path with
  | nil => exact (Option.some.inj h).symm
  | cons step rest => cases step <;> cases h

/-- A part of something is changed by making it a container. -/
theorem isScalar_changeStep (f : Json → Json) (payload : Json) (step : PathStep) :
    (changeStep f payload step).isScalar = false := by
  cases step <;> rfl

/-- **A scalar that a write leaves behind** was written, or was there before, or is a `null` that
fills a list. -/
theorem prefix_or_of_get?_set (hscalar : found.isScalar = true) (hnull : found ≠ .null)
    (h : get? (set value path payload) other = some found) :
    path <+: other ∨ get? payload other = some found := by
  induction path generalizing payload other with
  | nil => exact .inl List.nil_prefix
  | cons step rest ih =>
    rw [set_cons] at h
    cases other with
    | nil =>
      -- the root is a container now
      rw [← Option.some.inj h, isScalar_changeStep] at hscalar
      exact absurd hscalar Bool.false_ne_true
    | cons next more =>
      rw [get?_cons, Option.bind_eq_some_iff] at h
      obtain ⟨part, hpart, hfound⟩ := h
      rcases step?_changeStep_cases _ _ hpart with rfl | hsame | rfl
      · rw [step?_changeStep] at hpart
        rw [← Option.some.inj hpart] at hfound
        rcases ih hfound with hprefix | hbefore
        · exact .inl (List.cons_prefix_cons.2 ⟨rfl, hprefix⟩)
        · rw [get?_cons]
          cases hstep : step? payload next with
          | some part =>
            rw [hstep] at hbefore
            exact .inr hbefore
          | none =>
            rw [hstep] at hbefore
            exact absurd (eq_null_of_get?_null hbefore) hnull
      · rw [get?_cons, hsame]
        exact .inr hfound
      · exact absurd (eq_null_of_get?_null hfound) hnull

end Scalars

/-! ### Copied fields -/

/-- Texts of paths that can be written, any two of which part. -/
structure Independent (texts : List String) : Prop where
  settable : ∀ text ∈ texts, ∃ path, PathText text path ∧ path.Settable
  apart : texts.Pairwise fun text other => ∀ path otherPath,
    PathText text path → PathText other otherPath → path.PartsFrom otherPath

section Deciding

instance : (step other : PathStep) → Decidable (step.PartsFrom other)
  | .key name, .key other =>
    decidable_of_iff (name ≠ other) ⟨.key, fun h => by cases h with | key h => exact h⟩
  | .index position, .index other =>
    decidable_of_iff (position ≠ other) ⟨.index, fun h => by cases h with | index h => exact h⟩
  | .key _, .index _ => isFalse (by rintro ⟨⟩)
  | .index _, .key _ => isFalse (by rintro ⟨⟩)

/-- Two paths part at the first step at which they differ, if they part. -/
theorem partsFrom_cons_iff {step other : PathStep} {path otherPath : DataPath} :
    PartsFrom (step :: path) (other :: otherPath) ↔
      step.PartsFrom other ∨ step = other ∧ PartsFrom path otherPath := by
  constructor
  · intro h
    cases h with
    | here h => exact .inl h
    | later step h => exact .inr ⟨rfl, h⟩
  · rintro (h | ⟨rfl, h⟩)
    · exact .here h path otherPath
    · exact .later step h

/-- Whether two paths part, decided step by step. -/
def decidePartsFrom : (path other : DataPath) → Decidable (path.PartsFrom other)
  | [], _ => isFalse (by rintro ⟨⟩)
  | _ :: _, [] => isFalse (by rintro ⟨⟩)
  | _ :: path, _ :: other =>
    have := decidePartsFrom path other
    decidable_of_iff _ partsFrom_cons_iff.symm

instance (path other : DataPath) : Decidable (path.PartsFrom other) :=
  path.decidePartsFrom other

/-- Independence is tested on the paths as they are read. -/
theorem independent_iff {texts : List String} : Independent texts ↔
    (∀ text ∈ texts, (ofText? text).any isWritable = true) ∧
      texts.Pairwise fun text other => ((ofText? text).all fun path =>
        (ofText? other).all fun otherPath => decide (path.PartsFrom otherPath)) = true := by
  have hsettable (text : String) : (∃ path, PathText text path ∧ path.Settable) ↔
      (ofText? text).any isWritable = true := by
    simp only [Option.any_eq_true, ← ofText?_eq_some_iff, ← isWritable_eq_true_iff]
  have happart (text other : String) :
      (∀ path otherPath, PathText text path → PathText other otherPath →
        path.PartsFrom otherPath) ↔
      ((ofText? text).all fun path =>
        (ofText? other).all fun otherPath => decide (path.PartsFrom otherPath)) = true := by
    simp only [Option.all_eq_true, decide_eq_true_iff, ← ofText?_eq_some_iff]
    exact forall_congr' fun path => forall_comm
  simp only [← hsettable, ← happart]
  exact ⟨fun h => ⟨h.settable, h.apart⟩, fun h => ⟨h.1, h.2⟩⟩

instance (texts : List String) : Decidable (Independent texts) :=
  decidable_of_iff _ independent_iff.symm

end Deciding

/-- Copies the fields of some entries in order, each a target and a source. -/
def copyFields (payload : Json) (entries : List (String × String)) (out : Json) : Json :=
  entries.foldl (fun out entry => copyField payload out entry.1 entry.2) out

section Copying

variable (payload out : Json)

/-- An entry whose target is the text of a path writes what its source resolves to. -/
theorem copyField_of_pathText {target source : String} {path : DataPath}
    (htarget : PathText target path) (hpath : path.Settable) :
    copyField payload out target source =
      (payload.getPath? source).elim out fun value => set value path out := by
  rw [copyField]
  cases payload.getPath? source with
  | none => rfl
  | some value =>
    dsimp only
    rw [setPath?_eq_some_iff.2 ⟨path, htarget, hpath, rfl⟩]
    rfl

/-- An entry whose source resolves to nothing changes nothing. -/
theorem copyField_of_none {target source : String} (h : payload.getPath? source = none) :
    copyField payload out target source = out := by
  rw [copyField, h]

/-- Copies to targets that part can be made in either order. -/
theorem copyField_comm {target other source otherSource : String} {path otherPath : DataPath}
    (htarget : PathText target path) (hpath : path.Settable) (hother : PathText other otherPath)
    (hotherPath : otherPath.Settable) (h : path.PartsFrom otherPath) :
    copyField payload (copyField payload out target source) other otherSource =
      copyField payload (copyField payload out other otherSource) target source := by
  simp only [copyField_of_pathText _ _ htarget hpath, copyField_of_pathText _ _ hother hotherPath]
  cases payload.getPath? source with
  | none => rfl
  | some value =>
    cases payload.getPath? otherSource with
    | none => rfl
    | some value' => exact (set_comm value value' out h).symm

/-- Entries that can be copied in either order. -/
def Commute (entry other : String × String) : Prop :=
  ∀ out, copyField payload (copyField payload out entry.1 entry.2) other.1 other.2 =
    copyField payload (copyField payload out other.1 other.2) entry.1 entry.2

instance : Std.Symm (Commute payload) :=
  ⟨fun _ _ h out => (h out).symm⟩

variable {entries : List (String × String)}

/-- **The order of independent entries does not matter.** -/
theorem copyFields_perm (h : Independent (entries.map Prod.fst)) {order : List (String × String)}
    (hperm : order.Perm entries) :
    copyFields payload order out = copyFields payload entries out := by
  refine (hperm.symm.foldl_eq' (fun entry hentry other hother => ?_) out).symm
  refine List.Pairwise.forall_of_forall (R := Commute payload) (fun _ _ _ => rfl) ?_ hentry hother
  refine (List.pairwise_map.1 h.apart).imp_of_mem fun hentry hother hparts out => ?_
  obtain ⟨path, htarget, hpath⟩ := h.settable _ (List.mem_map_of_mem hentry)
  obtain ⟨otherPath, hotherTarget, hotherPath⟩ := h.settable _ (List.mem_map_of_mem hother)
  exact copyField_comm payload out htarget hpath hotherTarget hotherPath
    (hparts path otherPath htarget hotherTarget)

/-- **What is copied is found at its target.** -/
theorem getPath?_copyFields (h : Independent (entries.map Prod.fst)) {target source : String}
    {value : Json} (hmem : (target, source) ∈ entries)
    (hvalue : payload.getPath? source = some value) :
    (copyFields payload entries out).getPath? target = some value := by
  obtain ⟨front, back, rfl⟩ := List.append_of_mem hmem
  obtain ⟨path, htarget, hpath⟩ := h.settable target (List.mem_map_of_mem hmem)
  -- no copy disturbs this one, so it may be made last
  have hlast : (front ++ back ++ [(target, source)]).Perm (front ++ (target, source) :: back) :=
    (List.perm_append_singleton _ _).trans List.perm_middle.symm
  rw [← copyFields_perm payload out h hlast, copyFields, List.foldl_append, List.foldl_cons,
    List.foldl_nil, copyField_of_pathText _ _ htarget hpath, hvalue, Option.elim_some,
    getPath?_of_pathText htarget, get?_set]

/-- **Entries without a value contribute nothing.** -/
theorem copyFields_filter {keep : String × String → Bool}
    (h : ∀ entry ∈ entries, (payload.getPath? entry.2).isSome = true → keep entry = true) :
    copyFields payload (entries.filter keep) out = copyFields payload entries out := by
  induction entries generalizing out with
  | nil => rfl
  | cons entry entries ih =>
    obtain ⟨hentry, hentries⟩ := List.forall_mem_cons.1 h
    rw [List.filter_cons]
    split
    · exact ih _ hentries
    · next hkeep =>
      have hnone : payload.getPath? entry.2 = none :=
        Option.not_isSome_iff_eq_none.1 fun hsome => hkeep (hentry hsome)
      rw [ih out hentries, copyFields, copyFields, List.foldl_cons, copyField_of_none _ _ hnone]

theorem prefix_or_of_get?_copyField {target source : String} {path : DataPath} {found : Json}
    (hscalar : found.isScalar = true) (hnull : found ≠ .null)
    (h : get? (copyField payload out target source) path = some found) :
    ((payload.getPath? source).isSome = true ∧ ∃ above, PathText target above ∧ above <+: path) ∨
      get? out path = some found := by
  rw [copyField] at h
  cases hvalue : payload.getPath? source with
  | none =>
    rw [hvalue] at h
    exact .inr h
  | some value =>
    rw [hvalue] at h
    dsimp only at h
    cases hset : out.setPath? target value with
    | none =>
      rw [hset] at h
      exact .inr h
    | some after =>
      obtain ⟨above, htarget, -, rfl⟩ := setPath?_eq_some_iff.1 hset
      rw [hset, Option.getD_some] at h
      exact (prefix_or_of_get?_set hscalar hnull h).imp_left fun hprefix =>
        ⟨rfl, above, htarget, hprefix⟩

/-- **A scalar in a mapped payload** lies where an entry with a value put it. -/
theorem exists_prefix_of_isScalar {path : DataPath} {found : Json}
    (hscalar : found.isScalar = true) (hnull : found ≠ .null)
    (h : get? (copyFields payload entries out) path = some found) :
    (∃ entry ∈ entries, (payload.getPath? entry.2).isSome = true ∧
        ∃ above, PathText entry.1 above ∧ above <+: path) ∨
      get? out path = some found := by
  induction entries generalizing out with
  | nil => exact .inr h
  | cons entry entries ih =>
    rcases ih _ h with ⟨later, hmem, hlater⟩ | hbefore
    · exact .inl ⟨later, List.mem_cons_of_mem _ hmem, hlater⟩
    · exact (prefix_or_of_get?_copyField payload out hscalar hnull hbefore).imp_left fun hentry =>
        ⟨entry, List.mem_cons_self, hentry⟩

end Copying

end DataPath

/-! ### Field maps -/

/-- **A field map with independent targets.** What an entry's source resolves to is found at its
target; entries whose source does not resolve can be left out; every scalar but `null` lies at or
below a target whose source resolves; and the order of the entries does not matter. -/
theorem FieldMap.apply_independent {table : FieldMap}
    (h : DataPath.Independent (table.map Prod.fst)) (payload : Json) :
    (∀ target source value, (target, source) ∈ table → payload.getPath? source = some value →
        (table.apply payload).getPath? target = some value) ∧
      (∀ keep : String × String → Bool,
        (∀ entry ∈ table, (payload.getPath? entry.2).isSome = true → keep entry = true) →
          FieldMap.apply (table.filter keep) payload = table.apply payload) ∧
      (∀ path found, found.isScalar = true → found ≠ .null →
        DataPath.get? (table.apply payload) path = some found →
          ∃ entry ∈ table, (payload.getPath? entry.2).isSome = true ∧
            ∃ above, DataPath.PathText entry.1 above ∧ above <+: path) ∧
      ∀ order : List (String × String), order.Perm table →
        FieldMap.apply order payload = table.apply payload := by
  refine ⟨fun target source value => DataPath.getPath?_copyFields payload _ h,
    fun keep => DataPath.copyFields_filter payload _, fun path found hscalar hnull hfound => ?_,
    fun order => DataPath.copyFields_perm payload _ h⟩
  refine (DataPath.exists_prefix_of_isScalar payload _ hscalar hnull hfound).resolve_right ?_
  intro hempty
  rw [DataPath.eq_of_get?_empty hempty] at hscalar
  exact absurd hscalar Bool.false_ne_true

/-- Two targets in one list, of which the first has no value, and a third below a key. -/
theorem FieldMap.apply_independent_list :
    let table : FieldMap := [("a[0]", "$.gone"), ("a[1].x", "$.rows[0]"), ("b.c", "$.name")]
    let payload : Json := .object [("name", .string "n"), ("rows", .array [.bool true])]
    let out : Json := .object [("a", .array [.null, .object [("x", .bool true)]]),
      ("b", .object [("c", .string "n")])]
    DataPath.Independent (table.map Prod.fst) ∧
      ("a[1].x", "$.rows[0]") ∈ table ∧ payload.getPath? "$.rows[0]" = some (.bool true) ∧
      table.apply payload = out ∧ (table.apply payload).getPath? "a[1].x" = some (.bool true) ∧
      FieldMap.apply (table.filter fun entry => entry.1 ≠ "a[0]") payload = table.apply payload ∧
      FieldMap.apply table.reverse payload = table.apply payload := by
  intro table payload out
  have htable : DataPath.Independent (table.map Prod.fst) := by decide +kernel
  have hmem : ("a[1].x", "$.rows[0]") ∈ table := by decide
  have hvalue : payload.getPath? "$.rows[0]" = some (.bool true) := by rfl
  obtain ⟨hfound, hfilter, -, horder⟩ := FieldMap.apply_independent htable payload
  refine ⟨htable, hmem, hvalue, rfl, hfound _ _ _ hmem hvalue, hfilter _ ?_, horder _ ?_⟩
  · decide +kernel
  · exact List.reverse_perm table

/-! ### Payloads laid out for a field map -/

/-- A payload is laid out by the field map with its entries turned around. -/
theorem layOut_eq (canonical : Json) (table : FieldMap) :
    layOut canonical table =
      DataPath.copyFields canonical (table.map Prod.swap) (.object []) := by
  rw [layOut, DataPath.copyFields, List.foldl_map]
  rfl

section Streams

variable {table : FieldMap} (htargets : DataPath.Independent (table.map Prod.fst))
  (hsources : DataPath.Independent (table.map Prod.snd))

include htargets hsources

/-- A value that is laid out at its source is found at its target again. -/
theorem getPath?_apply_layOut {canonical value : Json} {target source : String}
    (hmem : (target, source) ∈ table) (hvalue : canonical.getPath? target = some value) :
    (table.apply (layOut canonical table)).getPath? target = some value := by
  have hswapped : DataPath.Independent ((table.map Prod.swap).map Prod.fst) := by
    rw [List.map_map]
    exact hsources
  have hlaid : (layOut canonical table).getPath? source = some value := by
    rw [layOut_eq]
    exact DataPath.getPath?_copyFields canonical _ hswapped (List.mem_map_of_mem hmem) hvalue
  exact DataPath.getPath?_copyFields _ _ htargets hmem hlaid

theorem getPath?_streamPayload (sample : ChartResponse) {value : Json} {target source : String}
    (hmem : (target, source) ∈ table) (hvalue : sample.toJson.getPath? target = some value) :
    (streamPayload (some table) sample).getPath? target = some value := by
  cases table with
  | nil => exact absurd hmem List.not_mem_nil
  | cons entry entries => exact getPath?_apply_layOut htargets hsources hmem hvalue

end Streams

/-- **A field map undoes its own layout** if its targets are independent and so are its sources:
each target at which a canonical payload has a value has that value again. So a stream with a field
map gives at each target what its sample has there. -/
theorem FieldMap.apply_layOut {table : FieldMap}
    (htargets : DataPath.Independent (table.map Prod.fst))
    (hsources : DataPath.Independent (table.map Prod.snd)) :
    (∀ canonical target source value, (target, source) ∈ table →
      canonical.getPath? target = some value →
        (table.apply (layOut canonical table)).getPath? target = some value) ∧
      (∀ sample : ChartResponse, ∀ target source value, (target, source) ∈ table →
        sample.toJson.getPath? target = some value →
          (streamPayload (some table) sample).getPath? target = some value) ∧
      ∀ jitter parts stream props, ∃ payload,
        (startStream jitter parts (.stream stream) ⟨props, some table, false⟩).result? =
            some (.ok payload) ∧
          ∀ target source value, (target, source) ∈ table →
            (streamSample jitter parts).toJson.getPath? target = some value →
              payload.getPath? target = some value := by
  refine ⟨fun canonical target source value hmem hvalue => ?_,
    fun sample target source value hmem hvalue => ?_, fun jitter parts stream props => ?_⟩
  · exact getPath?_apply_layOut htargets hsources hmem hvalue
  · exact getPath?_streamPayload htargets hsources sample hmem hvalue
  · refine ⟨streamPayload (some table) (streamSample jitter parts), rfl, ?_⟩
    intro target source value hmem hvalue
    exact getPath?_streamPayload htargets hsources _ hmem hvalue

/-- Sources in one list, laid out from its end. -/
theorem FieldMap.apply_layOut_rows :
    let table : FieldMap := [("datasets", "$.rows[2].[1]"), ("labels[0]", "$.rows[0]")]
    let sample : ChartResponse := ⟨["x"], [], none, none⟩
    DataPath.Independent (table.map Prod.fst) ∧ DataPath.Independent (table.map Prod.snd) ∧
      ("labels[0]", "$.rows[0]") ∈ table ∧
      sample.toJson.getPath? "labels[0]" = some (.string "x") ∧
      layOut sample.toJson table =
        .object [("rows", .array [.string "x", .null, .array [.null, .array []]])] ∧
      (table.apply (layOut sample.toJson table)).getPath? "labels[0]" = some (.string "x") ∧
      (streamPayload (some table) sample).getPath? "labels[0]" = some (.string "x") := by
  intro table sample
  have htargets : DataPath.Independent (table.map Prod.fst) := by decide +kernel
  have hsources : DataPath.Independent (table.map Prod.snd) := by decide +kernel
  have hmem : ("labels[0]", "$.rows[0]") ∈ table := by decide
  have hsample : sample.toJson =
      .object [("datasets", .array []), ("labels", .array [.string "x"])] := by
    change ChartResponse.toJson ⟨["x"], [], none, none⟩ = _
    rfl
  have hvalue : sample.toJson.getPath? "labels[0]" = some (.string "x") := by
    rw [hsample]
    rfl
  obtain ⟨hlaid, hstream, -⟩ := FieldMap.apply_layOut htargets hsources
  refine ⟨htargets, hsources, hmem, hvalue, ?_, hlaid _ _ _ _ hmem hvalue,
    hstream _ _ _ _ hmem hvalue⟩
  rw [hsample]
  rfl

end ChartSchema
