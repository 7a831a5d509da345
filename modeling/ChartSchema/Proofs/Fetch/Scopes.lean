import ChartSchema.Proofs.Digest.Boundaries
import ChartSchema.Proofs.Fetch.Origins

/-!
# Scopes that share the adapters

Fetches from any kind of source may go through the same adapters for several **scopes**, each of
which counts how often the shape of its sources has changed. The count is part of the fingerprints,
so a scope whose source has changed its shape is not served what it cached before.

A tracker compares shapes as texts. The text of a shape is put together from parts with marks
between them, so that it is not obvious which sources have the same one; `DataSource.shape_eq_iff`
says that they agree in kind and in the optional fields that they have (`DataSource.SameShape`),
which is stated without any text.

The invariant of a run is `LiveSources.Counted`: the tracker of each scope has counted the
neighbours in its own sequence of sources that differ in shape, and every fetch has in its
fingerprint the count of its scope at that time. Fetches of other scopes do not move it, since each
has a tracker of its own. If two fetches of a scope have the same count, the sources between them
all have one shape (`Counted.sameShape`).

`LiveSources.scopes_follow_shapes` is what follows for every run of several scopes over one cache.
To conclude from equal keys to equal counts it is assumed that no two of the inputs that were hashed
in the run have the same digest; the count has 64 bits, and no run of that many fetches is
considered.
-/

namespace ChartSchema

/-! ### Shapes -/

namespace DataSource

/-- Whether two sources are of one kind and have the same optional fields. -/
def SameShape : DataSource → DataSource → Prop
  | .request a, .request b =>
    (a.method.isSome = b.method.isSome ∧ a.headers.isEmpty = b.headers.isEmpty) ∧
      (a.body.isSome = b.body.isSome ∧ a.params.isEmpty = b.params.isEmpty)
  | .query a, .query b =>
    a.bindings.isEmpty = b.bindings.isEmpty ∧ a.headers.isEmpty = b.headers.isEmpty
  | .stream a, .stream b => a.refreshInterval.isSome = b.refreshInterval.isSome
  | _, _ => False

instance : DecidableRel SameShape := fun a b =>
  match a, b with
  | .request _, .request _ => inferInstanceAs (Decidable ((_ ∧ _) ∧ (_ ∧ _)))
  | .query _, .query _ => inferInstanceAs (Decidable (_ ∧ _))
  | .stream _, .stream _ => inferInstanceAs (Decidable (_ = _))
  | .request _, .query _ | .request _, .stream _ | .query _, .request _ | .query _, .stream _
  | .stream _, .request _ | .stream _, .query _ => inferInstanceAs (Decidable False)

/-- The first letter of a shape tells the kind of the source. -/
theorem head?_shape (source : DataSource) :
    source.shape.toList.head? = source.kindName.toList.head? := by
  cases source <;> simp [shape, kindName]

/-- The texts of shapes are as good as the shapes. -/
theorem shape_eq_iff {a b : DataSource} : a.shape = b.shape ↔ a.SameShape b := by
  have hkind (h : a.shape = b.shape) : a.kindName.toList.head? = b.kindName.toList.head? := by
    rw [← head?_shape, ← head?_shape, h]
  -- within a kind it is a check of the few flags that make up the text
  cases a with
  | request a =>
    cases b with
    | request b =>
      simp only [shape, populatedFields, kindName, SameShape]
      generalize a.method.isSome = m, a.headers.isEmpty = h, a.body.isSome = t,
        a.params.isEmpty = p, b.method.isSome = m', b.headers.isEmpty = h', b.body.isSome = t',
        b.params.isEmpty = p'
      revert m h t p m' h' t' p'
      decide +kernel
    | query b => exact iff_of_false (fun h => absurd (hkind h) (by simp [kindName])) id
    | stream b => exact iff_of_false (fun h => absurd (hkind h) (by simp [kindName])) id
  | query a =>
    cases b with
    | query b =>
      simp only [shape, populatedFields, kindName, SameShape]
      generalize a.bindings.isEmpty = v, a.headers.isEmpty = h, b.bindings.isEmpty = v',
        b.headers.isEmpty = h'
      revert v h v' h'
      decide +kernel
    | request b => exact iff_of_false (fun h => absurd (hkind h) (by simp [kindName])) id
    | stream b => exact iff_of_false (fun h => absurd (hkind h) (by simp [kindName])) id
  | stream a =>
    cases b with
    | stream b =>
      simp only [shape, populatedFields, kindName, SameShape]
      generalize a.refreshInterval.isSome = r, b.refreshInterval.isSome = r'
      revert r r'
      decide +kernel
    | request b => exact iff_of_false (fun h => absurd (hkind h) (by simp [kindName])) id
    | query b => exact iff_of_false (fun h => absurd (hkind h) (by simp [kindName])) id

/-- Sources of one shape with a third are of one shape. -/
theorem SameShape.trans {a b c : DataSource} (h : a.SameShape b) (h' : b.SameShape c) :
    a.SameShape c :=
  shape_eq_iff.1 ((shape_eq_iff.2 h).trans (shape_eq_iff.2 h'))

theorem SameShape.refl (a : DataSource) : a.SameShape a :=
  shape_eq_iff.1 rfl

end DataSource

/-! ### Counting changes -/

/-- How many neighbours in a sequence of sources differ in shape. -/
def adjacentChanges : List DataSource → Nat
  | first :: second :: rest =>
    (if first.SameShape second then 0 else 1) + adjacentChanges (second :: rest)
  | _ => 0

/-- The changes in a sequence are those up to a source and those from there on. -/
theorem adjacentChanges_append_cons (before after : List DataSource) (source : DataSource) :
    adjacentChanges (before ++ source :: after) =
      adjacentChanges (before ++ [source]) + adjacentChanges (source :: after) := by
  induction before with
  | nil => exact (Nat.zero_add _).symm
  | cons first before ih =>
    cases before with
    | nil =>
      simp only [List.cons_append, List.nil_append, adjacentChanges, Nat.add_zero]
    | cons second before =>
      simp only [List.cons_append, adjacentChanges, Nat.add_assoc] at ih ⊢
      rw [ih]

/-- There are fewer changes than sources. -/
theorem adjacentChanges_lt_length {sources : List DataSource} (h : sources ≠ []) :
    adjacentChanges sources < sources.length := by
  induction sources with
  | nil => exact absurd rfl h
  | cons first rest ih =>
    cases rest with
    | nil => exact Nat.zero_lt_one
    | cons second rest =>
      have hrest := ih (List.cons_ne_nil _ _)
      rw [adjacentChanges, List.length_cons]
      split <;> omega

/-- Without a change all sources have the shape of the first. -/
theorem sameShape_of_adjacentChanges_eq_zero {first : DataSource} {rest : List DataSource}
    (h : adjacentChanges (first :: rest) = 0) : ∀ other ∈ rest, first.SameShape other := by
  induction rest generalizing first with
  | nil => exact fun other hmem => by cases hmem
  | cons second rest ih =>
    obtain ⟨hfirst, hrest⟩ := Nat.add_eq_zero_iff.1 h
    have hsame : first.SameShape second := by
      by_contra hne
      rw [if_neg hne] at hfirst
      cases hfirst
    intro other hmem
    rcases List.mem_cons.1 hmem with rfl | hmem
    · exact hsame
    · exact hsame.trans (ih hrest other hmem)

/-- A tracker that has seen a sequence of sources. -/
def ShapeTracker.having (seen : List DataSource) : ShapeTracker :=
  ⟨seen.getLast?.map DataSource.shape, adjacentChanges seen⟩

/-- A tracker counts the changes in the sequence. -/
theorem ShapeTracker.observe_having (seen : List DataSource) (source : DataSource) :
    (having seen).observe source = having (seen ++ [source]) := by
  rcases List.eq_nil_or_concat seen with rfl | ⟨before, last, rfl⟩
  · rfl
  · rw [List.concat_eq_append, having, having, List.getLast?_concat, List.getLast?_concat,
      List.append_assoc, List.singleton_append, adjacentChanges_append_cons before [source] last]
    simp only [Option.map_some, observe, adjacentChanges, DataSource.shape_eq_iff]
    split
    · next hsame => rw [DataSource.shape_eq_iff.2 hsame]; rfl
    · rfl

/-! ### Runs -/

/-- A fetch as its scope knows it: its source, its props, and the changes that were counted when it
started. -/
structure SourceCall where
  scope : Nat
  source : DataSource
  props : Option Json
  changes : Nat

/-- What the fingerprint of a plain request depends on. -/
def SourceCall.input? (call : SourceCall) : Option FingerprintInput :=
  match call.source with
  | .request source =>
    some ⟨source.verb, fillUrl call.props source.url, source.params, source.body, call.changes⟩
  | _ => none

/-- The key under which a fetch looks into the cache. -/
def SourceCall.key? (call : SourceCall) : Option String :=
  call.input?.map fingerprint

/-- The sources that a scope has fetched from, in their order. -/
def scopeSources (scope : Nat) (calls : List SourceCall) : List DataSource :=
  (calls.filter fun call => call.scope = scope).map SourceCall.source

/-- What can happen to the adapters. -/
inductive SourcesInput where
  | fetch (scope : Nat) (source : DataSource) (context : FetchContext) (parts : List Binary64)
      (now : Int)
  | happen (number : Nat) (event : SendEvent) (now : Int)
  | invalidateAll

/-- The adapters with the trackers of all scopes, the fetches through them, and what was observed of
them. -/
structure LiveSources where
  sources : Sources
  trackers : Nat → ShapeTracker
  calls : List SourceCall
  fetches : List SourceFetch
  history : List Observation

namespace LiveSources

/-- Adapters that were just made. -/
def new (settings : Settings) : LiveSources :=
  ⟨.ofSettings settings, fun _ => .fresh, [], [], []⟩

/-- A fetch starts in a scope. -/
def fetch (live : LiveSources) (scope : Nat) (source : DataSource) (context : FetchContext)
    (parts : List Binary64) (now : Int) : LiveSources :=
  let (fetch, sources, tracker) :=
    Sources.start { live.sources with parts := parts } source context (live.trackers scope) now
  { sources := sources
    trackers := fun other => if other = scope then tracker else live.trackers other
    calls := live.calls ++ [⟨scope, source, context.props, tracker.changes⟩]
    fetches := live.fetches ++ [fetch]
    history := live.history ++ fetch.observedAtStart live.fetches.length }

/-- An event happens to a fetch. One that has ended, or never started, is left alone. -/
def happen (live : LiveSources) (number : Nat) (event : SendEvent) (now : Int) : LiveSources :=
  match live.fetches[number]? with
  | some fetch =>
    if fetch.result?.isSome then live
    else
      let (next, sources) := live.sources.advance fetch event now
      { live with
        sources := sources
        fetches := live.fetches.set number next
        history := live.history ++ fetch.observed number event next }
  | none => live

/-- Lets one thing happen. -/
def act (live : LiveSources) : SourcesInput → LiveSources
  | .fetch scope source context parts now => live.fetch scope source context parts now
  | .happen number event now => live.happen number event now
  | .invalidateAll =>
    { live with sources := { live.sources with request := live.sources.request.invalidateAll } }

/-- Lets one thing happen after the other. -/
def replay (live : LiveSources) (inputs : List SourcesInput) : LiveSources :=
  inputs.foldl act live

/-- The adapter for plain requests, with all fetches. -/
def requests (live : LiveSources) : LiveAdapter :=
  ⟨live.sources.request, live.fetches, live.history⟩

variable {live : LiveSources}

/-- What every input preserves is preserved by every run. -/
theorem replay_preserves {motive : LiveSources → Prop}
    (hact : ∀ live input, motive live → motive (live.act input)) (inputs : List SourcesInput)
    (h : motive live) : motive (live.replay inputs) := by
  induction inputs generalizing live with
  | nil => exact h
  | cons input inputs ih => exact ih (hact live input h)

/-- Events happen to fetches of all kinds as they do to those of plain requests. -/
theorem requests_happen (live : LiveSources) (number : Nat) (event : SendEvent) (now : Int) :
    (live.happen number event now).requests = live.requests.happen number event now := by
  cases hfetch : live.fetches[number]? with
  | none => simp only [happen, LiveAdapter.happen, requests, hfetch]
  | some fetch =>
    by_cases hended : fetch.result?.isSome = true
    · simp only [happen, LiveAdapter.happen, requests, hfetch, if_pos hended]
    · simp only [happen, LiveAdapter.happen, requests, hfetch, if_neg hended]
      rfl

theorem calls_happen (live : LiveSources) (number : Nat) (event : SendEvent) (now : Int) :
    (live.happen number event now).calls = live.calls ∧
      (live.happen number event now).trackers = live.trackers := by
  unfold happen
  split
  · split <;> exact ⟨rfl, rfl⟩
  · exact ⟨rfl, rfl⟩

/-! ### Counters -/

/-- Every scope counts the changes in its own sequence of sources. -/
structure Counted (live : LiveSources) : Prop where
  tracker : ∀ scope, live.trackers scope = .having (scopeSources scope live.calls)
  changes : ∀ (number : Nat) (call : SourceCall), live.calls[number]? = some call →
    call.changes = adjacentChanges (scopeSources call.scope (live.calls.take (number + 1)))

/-- A call adds its source to the sequence of its own scope. -/
theorem scopeSources_concat (scope : Nat) (calls : List SourceCall) (call : SourceCall) :
    scopeSources scope (calls ++ [call]) =
      scopeSources scope calls ++ if call.scope = scope then [call.source] else [] := by
  rw [scopeSources, scopeSources, List.filter_append, List.map_append]
  by_cases h : call.scope = scope <;> simp [h]

/-- A fetch adds its source to the sequence of its scope. -/
theorem scopeSources_take {calls : List SourceCall} {i : Nat} {call : SourceCall}
    (h : calls[i]? = some call) : scopeSources call.scope (calls.take (i + 1)) =
      scopeSources call.scope (calls.take i) ++ [call.source] := by
  rw [List.take_add_one, h, Option.toList_some, scopeSources_concat, if_pos rfl]

theorem scopeSources_append (scope : Nat) (calls more : List SourceCall) :
    scopeSources scope (calls ++ more) = scopeSources scope calls ++ scopeSources scope more := by
  rw [scopeSources, List.filter_append, List.map_append]
  rfl

/-- The counter of a scope after it has noted a source. -/
theorem Counted.observe (h : live.Counted) (scope : Nat) (source : DataSource) :
    (live.trackers scope).observe source =
      .having (scopeSources scope live.calls ++ [source]) := by
  rw [h.tracker, ShapeTracker.observe_having]

/-- A fetch is one more call, with the count of its scope. -/
theorem calls_fetch (live : LiveSources) (scope : Nat) (source : DataSource)
    (context : FetchContext) (parts : List Binary64) (now : Int) :
    (live.fetch scope source context parts now).calls =
      live.calls ++
        [⟨scope, source, context.props, ((live.trackers scope).observe source).changes⟩] := by
  cases source <;> rfl

/-- A fetch moves the tracker of its own scope only. -/
theorem trackers_fetch (live : LiveSources) (scope : Nat) (source : DataSource)
    (context : FetchContext) (parts : List Binary64) (now : Int) :
    (live.fetch scope source context parts now).trackers = fun other =>
      if other = scope then (live.trackers scope).observe source else live.trackers other := by
  cases source <;> rfl

/-- Whatever happens, the counts are those of the changes. -/
theorem Counted.act (h : live.Counted) (input : SourcesInput) : (live.act input).Counted := by
  cases input with
  | invalidateAll => exact ⟨h.tracker, h.changes⟩
  | happen number event now =>
    obtain ⟨hcalls, htrackers⟩ := live.calls_happen number event now
    rw [LiveSources.act]
    exact ⟨htrackers ▸ hcalls ▸ h.tracker, hcalls ▸ h.changes⟩
  | fetch scope source context parts now =>
    have htracker := h.observe scope source
    refine ⟨fun other => ?_, fun number call hcall => ?_⟩
    · simp only [LiveSources.act, trackers_fetch, calls_fetch, scopeSources_concat]
      by_cases hother : other = scope
      · rw [if_pos hother, if_pos hother.symm, htracker, hother]
      · rw [if_neg hother, if_neg (Ne.symm hother), List.append_nil, h.tracker]
    · rw [LiveSources.act, calls_fetch] at hcall ⊢
      rcases getElem?_concat_cases hcall with hold | ⟨rfl, rfl⟩
      · have hlt : number + 1 ≤ live.calls.length := (List.getElem?_eq_some_iff.1 hold).1
        rw [List.take_append_of_le_length hlt]
        exact h.changes number call hold
      · rw [List.take_of_length_le (by rw [List.length_append, List.length_singleton]),
          scopeSources_concat, if_pos rfl, htracker]
        rfl

theorem counted_new (settings : Settings) : (new settings).Counted :=
  ⟨fun _ => rfl, fun number call hcall => by cases hcall⟩

/-! ### Payloads -/

theorem traced_new (settings : Settings) :
    (new settings).requests.Traced ((new settings).calls.map SourceCall.key?) := by
  exact LiveAdapter.traced_of_nil (RequestAdapter.current_newCache _ _ settings.cache) rfl
    fun number fetch hfetch => by cases hfetch

/-- Every input keeps track of where payloads come from. -/
theorem traced_act (h : live.requests.Traced (live.calls.map SourceCall.key?))
    (input : SourcesInput) :
    (live.act input).requests.Traced ((live.act input).calls.map SourceCall.key?) := by
  cases input with
  | invalidateAll =>
    have htraced := h.act .invalidateAll
    rwa [AdapterInput.keys, List.append_nil] at htraced
  | happen number event now =>
    rw [act, requests_happen, (live.calls_happen number event now).1]
    exact h.happen number event now
  | fetch scope source context parts now =>
    rw [act, calls_fetch, List.map_append]
    cases source with
    | request source =>
      exact h.start (.request source) context
        ((live.trackers scope).observe (.request source)).changes now
    | query source => exact h.begin_other _ rfl
    | stream source =>
      refine h.begin_other (startStream live.sources.jitter parts (.stream source) context) ?_
      by_cases hcancelled : context.cancelled = true
      · rw [startStream, if_pos hcancelled]
        rfl
      · rw [startStream, if_neg hcancelled]
        rfl

/-- No two of the inputs that fetches hash have the same digest without being the same bytes. -/
def CollisionFree (live : LiveSources) : Prop :=
  ∀ first ∈ live.calls, ∀ second ∈ live.calls, ∀ input other,
    first.input? = some input → second.input? = some other →
      Sha256.digest input.bytes = Sha256.digest other.bytes → input.bytes = other.bytes

end LiveSources

/-- The counter stands at the end of the bytes. -/
theorem FingerprintInput.cacheBust_of_bytes {input other : FingerprintInput}
    (h : input.bytes = other.bytes) (hinput : input.cacheBust < 2 ^ 64)
    (hother : other.cacheBust < 2 ^ 64) : input.cacheBust = other.cacheBust := by
  have hcounters := (List.append_inj' h
    ((length_counterBytes input.cacheBust).trans (length_counterBytes other.cacheBust).symm)).2
  exact counterBytes_injective hcounters hinput hother

theorem SourceCall.cacheBust_of_input? {call : SourceCall} {input : FingerprintInput}
    (h : call.input? = some input) : input.cacheBust = call.changes := by
  unfold input? at h
  split at h
  · cases h
    rfl
  · cases h

namespace LiveSources

variable {live : LiveSources}

/-- A run of at most `2 ^ 64` calls has counts of 64 bits. -/
theorem Counted.changes_lt (h : live.Counted) (hcalls : live.calls.length ≤ 2 ^ 64) {number : Nat}
    {call : SourceCall} (hcall : live.calls[number]? = some call) : call.changes < 2 ^ 64 := by
  have hlength : (scopeSources call.scope (live.calls.take (number + 1))).length ≤
      live.calls.length := by
    rw [scopeSources, List.length_map]
    exact Nat.le_trans (List.length_filter_le _ _) (List.length_take_le' _ _)
  rw [h.changes number call hcall]
  refine Nat.lt_of_lt_of_le (adjacentChanges_lt_length ?_) (Nat.le_trans hlength hcalls)
  rw [scopeSources_take hcall]
  exact List.append_ne_nil_of_right_ne_nil _ (List.cons_ne_nil _ _)

/-- Fetches with one key have counted the same number of changes. -/
theorem changes_eq_of_key (hcounted : live.Counted) (hcalls : live.calls.length ≤ 2 ^ 64)
    (hfree : live.CollisionFree) {i j : Nat} {first second : SourceCall} {key : String}
    (hfirst : live.calls[i]? = some first) (hsecond : live.calls[j]? = some second)
    (hkey : first.key? = some key) (hkey' : second.key? = some key) :
    first.changes = second.changes := by
  obtain ⟨input, hinput, rfl⟩ := Option.map_eq_some_iff.1 hkey
  obtain ⟨other, hother, hprint⟩ := Option.map_eq_some_iff.1 hkey'
  have hbytes := hfree first (List.mem_of_getElem? hfirst) second (List.mem_of_getElem? hsecond)
    input other hinput hother (FingerprintInput.digest_eq_of_fingerprint_eq hprint.symm)
  have hlt := hcounted.changes_lt hcalls hfirst
  have hlt' := hcounted.changes_lt hcalls hsecond
  rw [← SourceCall.cacheBust_of_input? hinput] at hlt ⊢
  rw [← SourceCall.cacheBust_of_input? hother] at hlt' ⊢
  exact FingerprintInput.cacheBust_of_bytes hbytes hlt hlt'

/-- Between two fetches of a scope that have counted the same number of changes, all sources of the
scope have one shape. -/
theorem Counted.sameShape (h : live.Counted) {i j k : Nat} {first second middle : SourceCall}
    (hfirst : live.calls[i]? = some first) (hsecond : live.calls[j]? = some second)
    (hmiddle : live.calls[k]? = some middle) (hik : i ≤ k) (hkj : k ≤ j)
    (hscope : first.scope = second.scope) (hscope' : middle.scope = second.scope)
    (hchanges : first.changes = second.changes) : first.source.SameShape middle.source := by
  have hsplit : live.calls.take (j + 1) =
      live.calls.take (i + 1) ++ (live.calls.take (j + 1)).drop (i + 1) := by
    conv_lhs => rw [← List.take_append_drop (i + 1) (live.calls.take (j + 1))]
    rw [List.take_take, Nat.min_eq_left (by omega)]
  -- nothing changes behind the first of the two
  rw [h.changes i first hfirst, h.changes j second hsecond, hsplit, scopeSources_append, ← hscope,
    scopeSources_take hfirst, List.append_assoc, List.singleton_append,
    adjacentChanges_append_cons _ (scopeSources _ _)] at hchanges
  have hsame := sameShape_of_adjacentChanges_eq_zero (Nat.left_eq_add.1 hchanges)
  rcases Nat.eq_or_lt_of_le hik with rfl | hlt
  · obtain rfl := Option.some.inj (hfirst.symm.trans hmiddle)
    exact .refl _
  · refine hsame middle.source (List.mem_map_of_mem (List.mem_filter.2 ⟨?_, ?_⟩))
    · refine List.mem_of_getElem? (i := k - (i + 1)) ?_
      rw [List.getElem?_drop, List.getElem?_take_of_lt (by omega), ← hmiddle]
      congr 1
      omega
    · exact decide_eq_true (hscope'.trans hscope.symm)

/-- **Scopes follow shapes.** In every run of several scopes over the same adapters, the counter of
a scope after each fetch is the number of neighbours in its own sequence of sources that differ in
shape. A plain request returns the payload that some fetch decoded last under its fingerprint; if
this was an earlier fetch of the same scope, then all fetches of the scope from that one on had the
same shape. -/
theorem scopes_follow_shapes (settings : Settings) (inputs : List SourcesInput) :
    let live := (new settings).replay inputs
    (∀ (number : Nat) (call : SourceCall), live.calls[number]? = some call →
      call.changes = adjacentChanges (scopeSources call.scope (live.calls.take (number + 1)))) ∧
    (live.calls.length ≤ 2 ^ 64 → live.CollisionFree →
      ∀ before since (number : Nat) (call : SourceCall) key payload answer,
        live.history = before ++ .returned number (.ok payload) answer :: since →
        live.calls[number]? = some call → call.key? = some key →
        ∃ origin decoding, DecodedLast key origin payload decoding before ∧
          ∀ first, live.calls[origin]? = some first → first.scope = call.scope →
            ∀ (k : Nat) (middle : SourceCall), live.calls[k]? = some middle →
              middle.scope = call.scope → origin ≤ k → k ≤ number →
                first.source.SameShape middle.source) := by
  intro live
  have hcounted : live.Counted :=
    replay_preserves (fun _ input h => h.act input) inputs (counted_new settings)
  have htraced : live.requests.Traced (live.calls.map SourceCall.key?) :=
    replay_preserves (motive := fun live => live.requests.Traced (live.calls.map SourceCall.key?))
      (fun _ input h => traced_act h input) inputs (traced_new settings)
  refine ⟨hcounted.changes, fun hcalls hfree before since number call key payload answer hreturned
    hcall hkey => ?_⟩
  have hkeys {i : Nat} {found : SourceCall} (hfound : live.calls[i]? = some found) :
      (live.calls.map SourceCall.key?)[i]? = some found.key? := by
    rw [List.getElem?_map, hfound]
    rfl
  have hlast := htraced.origin before since number key payload answer hreturned
    ((hkeys hcall).trans (congrArg some hkey))
  obtain ⟨origin, decoding, hdecoded⟩ := exists_decodedLast hlast
  refine ⟨origin, decoding, hdecoded,
    fun first hfirst hscope k middle hmiddle hscope' hik hkj => ?_⟩
  -- the fetch that decoded the payload has the same key, and so the same counter
  have hmem : .decoded origin key payload ∈ live.history := by
    obtain ⟨-, rest, hbefore, -⟩ := id hdecoded
    rw [hreturned, hbefore]
    exact List.mem_append_left _ (List.mem_append_right _ List.mem_cons_self)
  have hfirstKey : first.key? = some key :=
    Option.some.inj ((hkeys hfirst).symm.trans (htraced.decoded origin key payload hmem))
  have hchanges := changes_eq_of_key hcounted hcalls hfree hfirst hcall hfirstKey hkey
  exact hcounted.sameShape hfirst hcall hmiddle hik hkj hscope hscope' hchanges

/-- A plain request that finds nothing in the cache returns what it decodes from its reply. -/
theorem exists_returned_of_miss {live : LiveSources} {scope : Nat} {source : RequestSource}
    {context : FetchContext} {parts : List Binary64} {now later : Int} {key : String}
    (hkey : source.fingerprint (fillUrl context.props source.url)
      ((live.trackers scope).observe (.request source)).changes = key)
    (hmiss : (live.sources.request.look key now).1 = none)
    (hcancelled : context.cancelled = false) :
    ∃ before answer, ((live.fetch scope (.request source) context parts now).happen
        live.fetches.length .null later).history =
      before ++ [.returned live.fetches.length (.ok .null) answer] := by
  have hstate := RequestAdapter.startFetch_state_of_miss hkey hmiss
  rw [hcancelled] at hstate
  have hdecoded := Fetching.decoded?_null (RequestAdapter.startFetch_key_of_miss hkey hmiss)
    hstate (congrArg SendPlan.decode RequestAdapter.startFetch_plan)
  have hhappen := @LiveAdapter.happen_eq (live.requests.start (.request source) context
    ((live.trackers scope).observe (.request source)).changes now) _ _ LiveAdapter.getElem?_start
    (Fetching.active_of_decoded? hdecoded) .null later
  have hhistory := (congrArg LiveAdapter.history (requests_happen
    (live.fetch scope (.request source) context parts now) live.fetches.length .null later)).trans
      (congrArg LiveAdapter.history hhappen)
  have hobserved := hhistory.trans (congrArg (_ ++ ·) (SourceFetch.observed_of_payload hdecoded))
  exact ⟨_, _, hobserved.trans (List.append_cons ..)⟩

/-- A scope that asks a query in between is not served what it cached before. -/
theorem scopes_follow_shapes_switch :
    let source : RequestSource := .ofUrl "https://a"
    let query : DataSource := .query ⟨"https://a", "q", [], []⟩
    let context : FetchContext := ⟨none, none, false⟩
    let inputs := [.fetch 0 (.request source) context [] 0, .happen 0 .null 1,
      .fetch 0 query context [] 2, .fetch 0 (.request source) context [] 3, .happen 2 .null 4]
    let live := (new .standard).replay inputs
    live.calls.length ≤ 2 ^ 64 ∧ live.CollisionFree ∧
      ∃ before answer, live.history = before ++ [.returned 2 (.ok .null) answer] ∧
        ∃ origin decoding,
          DecodedLast (source.fingerprint source.url 2) origin .null decoding before ∧
            origin ≠ 0 := by
  intro source query context inputs live
  let three := (new .standard).replay (inputs.take 3)
  have hlive : live = (three.fetch 0 (.request source) context [] 3).happen 2 .null 4 := by
    simp only [live, three, inputs, replay, List.take_succ_cons, List.take_zero, List.foldl_cons,
      List.foldl_nil, act]
  have hchanges : ((three.trackers 0).observe (.request source)).changes = 2 := by decide +kernel
  have hcalls : live.calls = [⟨0, .request source, none, 0⟩, ⟨0, query, none, 1⟩,
      ⟨0, .request source, none, 2⟩] := by
    rw [hlive, (calls_happen _ 2 .null 4).1, calls_fetch, hchanges]
    rfl
  have hlength : live.calls.length ≤ 2 ^ 64 := by
    rw [hcalls]
    decide
  have hfree : live.CollisionFree := by
    have hdigest : Sha256.digest (FingerprintInput.bytes ⟨"GET", "https://a", [], none, 0⟩) ≠
        Sha256.digest (FingerprintInput.bytes ⟨"GET", "https://a", [], none, 2⟩) := by
      decide +kernel
    intro first hfirst second hsecond input other hinput hother hequal
    rw [hcalls] at hfirst hsecond
    simp only [List.mem_cons, List.not_mem_nil, or_false] at hfirst hsecond
    rcases hfirst with rfl | rfl | rfl <;> rcases hsecond with rfl | rfl | rfl <;>
      cases hinput <;> cases hother
    · rfl
    · exact absurd hequal hdigest
    · exact absurd hequal.symm hdigest
    · rfl
  have hmiss : (three.sources.request.look (source.fingerprint source.url 2) 3).1 = none :=
    Option.isNone_iff_eq_none.1 (by decide +kernel)
  have hfetches : three.fetches.length = 2 := rfl
  obtain ⟨before, answer, hreturned⟩ := @exists_returned_of_miss three 0 source context [] 3 4 _
    (congrArg (source.fingerprint _) hchanges) hmiss rfl
  rw [hfetches, ← hlive] at hreturned
  refine ⟨hlength, hfree, before, answer, hreturned, ?_⟩
  have hcall (i : Nat) : live.calls[i]? = ([⟨0, .request source, none, 0⟩, ⟨0, query, none, 1⟩,
      ⟨0, .request source, none, 2⟩] : List SourceCall)[i]? := by
    rw [hcalls]
  obtain ⟨origin, decoding, hdecoded, hshape⟩ := (scopes_follow_shapes .standard inputs).2 hlength
    hfree before [] 2 _ (source.fingerprint source.url 2) .null answer hreturned
      (hcall 2) rfl
  refine ⟨origin, decoding, hdecoded, ?_⟩
  rintro rfl
  exact hshape _ (hcall 0) rfl 1 _ (hcall 1) rfl (by decide) (by decide)

end LiveSources

end ChartSchema
