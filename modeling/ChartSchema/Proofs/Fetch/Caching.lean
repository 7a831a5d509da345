import ChartSchema.Proofs.Fetch.Runs

/-!
# Fetches answered by the cache

With a cache, a fetch is answered without sending anything exactly if the cache holds an entry under
its fingerprint that is not older than the time to live. The payload is then the one that was
decoded last for this fingerprint, by whichever fetch (`LiveAdapter.answered_by_cache`).

The invariant of a run says what the cache holds: under every key the payload that was decoded last
under it, with the one time to live (`RequestAdapter.Coherent`). The converse is not part of it, for
entries are evicted and the cache is emptied; what was decoded last is said by the history alone
(`lastDecoded`). The look-up of a fetch keeps the invariant, and so does a payload that is put into
the cache, since it is the last one from then on. An event that decodes nothing adds no observation
that counts (`lastDecoded_observed`).

Field maps come in only when a fetch answers. `AnswersWith` says what a field map makes of a result:
nothing without one or with an empty one, and otherwise what `FieldMap.apply` makes of the payload;
that the adapter does this is `answersWith_map`. Two runs that differ in field maps alone leave the
same cache, since they agree in all that an input can act on (`LiveAdapter.Alike`), so that no field
map changes what is stored.
-/

namespace ChartSchema

/-! ### The last payload under a key -/

/-- What was decoded last was decoded later, or else before. -/
theorem lastDecoded_append (key : String) (history later : List Observation) :
    lastDecoded key (history ++ later) = (lastDecoded key later).or (lastDecoded key history) := by
  rw [lastDecoded, List.filterMap_append, List.getLast?_append]
  rfl

namespace SourceFetch

variable {number : Nat} {fetch next : SourceFetch} {event : SendEvent}

theorem filterMap_returns (key : String) :
    (fetch.returns number).filterMap (Observation.decodedUnder? key) = [] := by
  rw [List.filterMap_eq_nil_iff]
  intro observation hmem
  obtain ⟨result, -, rfl⟩ := mem_returns.1 hmem
  rfl

theorem filterMap_sent (key : String) (requests : List HttpRequest) :
    (requests.map (Observation.sent number)).filterMap (Observation.decodedUnder? key) = [] := by
  rw [List.filterMap_map, List.filterMap_eq_nil_iff]
  exact fun _ _ => rfl

/-- At its start a fetch decodes nothing. -/
theorem lastDecoded_observedAtStart (key : String) :
    lastDecoded key (fetch.observedAtStart number) = none := by
  rw [lastDecoded, observedAtStart, List.filterMap_append, filterMap_sent, filterMap_returns]
  rfl

/-- What an event adds is what it decodes, under its key. -/
theorem lastDecoded_observed (key : String) :
    lastDecoded key (fetch.observed number event next) =
      (fetch.fetching.decoded? event).bind fun (other, payload) =>
        if other = key then some payload else none := by
  rw [lastDecoded, observed, List.filterMap_append, List.filterMap_append, filterMap_sent,
    filterMap_returns, List.append_nil, List.nil_append, List.filterMap_map]
  cases fetch.fetching.decoded? event with
  | none => rfl
  | some found =>
    obtain ⟨other, payload⟩ := found
    by_cases h : other = key <;> simp [Observation.decodedUnder?, h]

end SourceFetch

/-! ### What the cache holds -/

namespace RequestAdapter

/-- A cache whose entries live for one time and hold what was decoded last under their keys. -/
def Coherent (adapter : RequestAdapter) (ttl : Nat) (history : List Observation) : Prop :=
  ∃ cache, adapter.cache = some cache ∧ cache.defaultTtl = ttl ∧
    ∀ entry ∈ cache.entries.entries,
      entry.2.ttl = ttl ∧ lastDecoded entry.1 history = some entry.2.value

variable {adapter : RequestAdapter} {ttl : Nat} {history later : List Observation} {key : String}
  {now : Int} {payload : Json}

/-- A fetch that starts only looks into the cache. -/
theorem start_adapter (adapter : RequestAdapter) (source : RequestSource) (props : Option Json)
    (cancelled : Bool) (cacheBust : Nat) (now : Int) :
    (adapter.start source props cancelled cacheBust now).2 =
      (adapter.look (source.fingerprint (fillUrl props source.url) cacheBust) now).2 := by
  cases hlook : (adapter.look (source.fingerprint (fillUrl props source.url) cacheBust) now).1 with
  | some payload => rw [start_of_hit hlook]
  | none => rw [start_of_miss hlook]

/-- A look keeps the invariant, since it only drops entries and moves them. -/
theorem Coherent.look (h : adapter.Coherent ttl history) (key : String) (now : Int) :
    (adapter.look key now).2.Coherent ttl history := by
  obtain ⟨cache, hcache, httl, hentries⟩ := h
  refine ⟨(cache.get key now).2, ?_, TtlCache.defaultTtl_get.trans httl, fun entry hmem =>
    hentries entry (TtlCache.mem_entries_get hmem)⟩
  rw [RequestAdapter.look, hcache]

/-- The start of a fetch keeps the invariant. -/
theorem Coherent.startFetch (h : adapter.Coherent ttl history) (source : DataSource)
    (context : FetchContext) (cacheBust : Nat) (now : Int) :
    (adapter.startFetch source context cacheBust now).2.Coherent ttl history := by
  cases source with
  | query source => exact h
  | stream source => exact h
  | request source =>
    rw [RequestAdapter.startFetch, start_adapter]
    exact h.look _ now

theorem Coherent.invalidateAll (h : adapter.Coherent ttl history) :
    adapter.invalidateAll.Coherent ttl history := by
  obtain ⟨cache, hcache, httl, -⟩ := h
  refine ⟨cache.clear, ?_, httl, fun entry hmem => by cases hmem⟩
  rw [RequestAdapter.invalidateAll, hcache]
  rfl

/-- The invariant depends on the history only by what was decoded last. -/
theorem Coherent.of_lastDecoded (h : adapter.Coherent ttl history)
    (hlater : ∀ key, lastDecoded key later = lastDecoded key history) :
    adapter.Coherent ttl later := by
  obtain ⟨cache, hcache, httl, hentries⟩ := h
  refine ⟨cache, hcache, httl, fun entry hmem => ?_⟩
  rw [hlater]
  exact hentries entry hmem

/-- A payload is put into the cache when it is decoded. -/
theorem Coherent.store (h : adapter.Coherent ttl history)
    (hkey : lastDecoded key later = some payload)
    (hother : ∀ other, other ≠ key → lastDecoded other later = lastDecoded other history)
    (now : Int) : (adapter.store key payload now).Coherent ttl later := by
  obtain ⟨cache, hcache, httl, hentries⟩ := h
  refine ⟨cache.insert key payload cache.defaultTtl now, ?_, httl, fun entry hmem => ?_⟩
  · rw [RequestAdapter.store, hcache]
    rfl
  · rcases LruCache.mem_entries_insert hmem with rfl | ⟨hmem, hne⟩
    · exact ⟨httl, hkey⟩
    · rw [hother entry.1 hne]
      exact hentries entry hmem

/-- What is found in the cache. -/
theorem look_eq_some_iff : (adapter.look key now).1 = some payload ↔
    ∃ cache entry, adapter.cache = some cache ∧ cache.entries.peek key = some entry ∧
      entry.age now ≤ entry.ttl ∧ entry.value = payload := by
  unfold RequestAdapter.look
  cases adapter.cache with
  | none => simp
  | some cache =>
    simp only [TtlCache.get_eq_some_iff, Option.some.injEq, exists_and_left, exists_eq_left']

end RequestAdapter

namespace LiveAdapter

variable {live : LiveAdapter} {ttl : Nat}

theorem coherent_new (retry : RetrySettings) (timeout capacity ttl : Nat) :
    (new retry timeout capacity ttl).adapter.Coherent ttl
      (new retry timeout capacity ttl).history :=
  ⟨.empty capacity ttl, rfl, rfl, fun entry hmem => by cases hmem⟩

theorem coherent_act (h : live.adapter.Coherent ttl live.history) (input : AdapterInput) :
    (live.act input).adapter.Coherent ttl (live.act input).history := by
  cases input with
  | invalidateAll => exact h.invalidateAll
  | start source context cacheBust now =>
    refine (h.startFetch source context cacheBust now).of_lastDecoded fun key => ?_
    rw [act, start, lastDecoded_append, SourceFetch.lastDecoded_observedAtStart, Option.none_or]
  | happen number event now =>
    rcases live.happen_cases number event now with hsame | ⟨fetch, -, hactive, hnext⟩
    · rw [act, hsame]
      exact h
    rw [act, hnext, SourceFetch.after, RequestAdapter.keepPayload_step hactive]
    have hlast (key : String) : lastDecoded key (live.history ++
        fetch.observed number event (fetch.after event)) = _ :=
      (lastDecoded_append _ _ _).trans (by rw [SourceFetch.lastDecoded_observed])
    cases hdecoded : fetch.fetching.decoded? event with
    | none =>
      refine h.of_lastDecoded fun key => (hlast key).trans ?_
      rw [hdecoded, Option.bind_none, Option.none_or]
    | some found =>
      refine h.store ((hlast found.1).trans ?_) (fun other hne => (hlast other).trans ?_) now
      · simp [hdecoded]
      · simp [hdecoded, hne.symm]

/-- **The cache holds what was decoded last**, all along a run. -/
theorem coherent_replay (h : live.adapter.Coherent ttl live.history) (inputs : List AdapterInput) :
    (live.replay inputs).adapter.Coherent ttl (live.replay inputs).history :=
  replay_preserves (motive := fun live => live.adapter.Coherent ttl live.history)
    (fun _ input h => coherent_act h input) inputs h

end LiveAdapter

/-! ### Field maps -/

/-- What a fetch with a field map answers when it comes to a result: the result as it is if there is
no map or nothing in it, and else the result with its payload reshaped. -/
def AnswersWith (fieldMap : Option FieldMap) (result answer : FetchResult) : Prop :=
  (fieldMap.getD [] = [] → answer = result) ∧
    ∀ table, fieldMap = some table → table ≠ [] → answer = result.map table.apply

/-- The adapter answers with the field map applied. -/
theorem answersWith_map (fieldMap : Option FieldMap) (result : FetchResult) :
    AnswersWith fieldMap result (result.map (applyFieldMap fieldMap)) := by
  refine ⟨fun hnil => ?_, fun table htable hne => ?_⟩
  · have hsame : applyFieldMap fieldMap = id := by
      funext payload
      cases fieldMap with
      | none => rfl
      | some table =>
        obtain rfl : table = [] := hnil
        rfl
    rw [hsame]
    cases result <;> rfl
  · obtain ⟨entry, entries, rfl⟩ := List.exists_cons_of_ne_nil hne
    rw [htable]
    rfl

/-- The input without its field map. -/
def AdapterInput.withoutFieldMap : AdapterInput → AdapterInput
  | .start source context cacheBust now =>
    .start source { context with fieldMap := none } cacheBust now
  | input => input

/-- Field maps do not matter to what is sent and what is cached. -/
theorem RequestAdapter.startFetch_withoutFieldMap (adapter : RequestAdapter) (source : DataSource)
    (context : FetchContext) (cacheBust : Nat) (now : Int) :
    (adapter.startFetch source { context with fieldMap := none } cacheBust now).1.fetching =
        (adapter.startFetch source context cacheBust now).1.fetching ∧
      (adapter.startFetch source { context with fieldMap := none } cacheBust now).2 =
        (adapter.startFetch source context cacheBust now).2 := by
  cases source <;> exact ⟨rfl, rfl⟩

namespace LiveAdapter

/-- Whether two adapters and the fetches through them are the same, but for field maps. -/
structure Alike (live other : LiveAdapter) : Prop where
  adapter : live.adapter = other.adapter
  fetches : live.fetches.map SourceFetch.fetching = other.fetches.map SourceFetch.fetching

variable {live other : LiveAdapter}

/-- An input acts on what is the same without field maps. -/
theorem Alike.act_withoutFieldMap (h : live.Alike other) (input : AdapterInput) :
    (live.act input).Alike (other.act input.withoutFieldMap) := by
  cases input with
  | invalidateAll => exact ⟨congrArg RequestAdapter.invalidateAll h.adapter, h.fetches⟩
  | start source context cacheBust now =>
    obtain ⟨hfetching, hadapter⟩ :=
      other.adapter.startFetch_withoutFieldMap source context cacheBust now
    refine ⟨?_, ?_⟩
    · simp only [act, start, AdapterInput.withoutFieldMap, h.adapter, hadapter]
    · simp only [act, start, AdapterInput.withoutFieldMap, h.adapter, List.map_append, h.fetches,
        List.map_cons, List.map_nil, hfetching]
  | happen number event now =>
    have hget : live.fetches[number]?.map SourceFetch.fetching =
        other.fetches[number]?.map SourceFetch.fetching := by
      rw [← List.getElem?_map, h.fetches, List.getElem?_map]
    simp only [act, happen, AdapterInput.withoutFieldMap]
    cases hlive : live.fetches[number]? with
    | none =>
      rw [hlive, Option.map_none, eq_comm, Option.map_eq_none_iff] at hget
      rw [hget]
      exact h
    | some fetch =>
      rw [hlive, Option.map_some, eq_comm, Option.map_eq_some_iff] at hget
      obtain ⟨fetch', hother, hfetching⟩ := hget
      rw [hother]
      have hended : fetch.result?.isSome = fetch'.result?.isSome := by
        rw [Bool.eq_iff_iff, SourceFetch.isSome_result?_iff, SourceFetch.isSome_result?_iff,
          hfetching]
      simp only [hended, ← hfetching, h.adapter]
      split
      · exact h
      · exact ⟨rfl, by rw [List.map_set, List.map_set, h.fetches]⟩

theorem Alike.replay_withoutFieldMap (h : live.Alike other) (inputs : List AdapterInput) :
    (live.replay inputs).Alike (other.replay (inputs.map AdapterInput.withoutFieldMap)) := by
  induction inputs generalizing live other with
  | nil => exact h
  | cons input inputs ih => exact ih (h.act_withoutFieldMap input)

/-- Field maps change nothing that is stored. -/
theorem adapter_replay_congr (live : LiveAdapter) {inputs inputs' : List AdapterInput}
    (h : inputs.map AdapterInput.withoutFieldMap = inputs'.map AdapterInput.withoutFieldMap) :
    (live.replay inputs).adapter = (live.replay inputs').adapter := by
  have halike : live.Alike live := ⟨rfl, rfl⟩
  rw [(halike.replay_withoutFieldMap inputs).adapter, h,
    (halike.replay_withoutFieldMap inputs').adapter]

/-! ### Answers -/

/-- Whether the cache holds an entry under a key that is not too old. -/
def Holds (live : LiveAdapter) (ttl : Nat) (key : String) (now : Int) : Prop :=
  ∃ cache entry, live.adapter.cache = some cache ∧ cache.entries.peek key = some entry ∧
    entry.age now ≤ ttl

/-- A fetch finds in the cache what was decoded last, if it is not too old. -/
theorem look_of_holds {ttl : Nat} {key : String} {now : Int}
    (hcoherent : live.adapter.Coherent ttl live.history) (h : live.Holds ttl key now) :
    ∃ payload, (live.adapter.look key now).1 = some payload ∧
      lastDecoded key live.history = some payload := by
  obtain ⟨cache, hcache, -, hentries⟩ := hcoherent
  obtain ⟨cache', entry, hcache', hpeek, hage⟩ := h
  obtain rfl := Option.some.inj (hcache.symm.trans hcache')
  obtain ⟨httl, hlast⟩ := hentries _ (LruCache.mem_of_find? hpeek)
  refine ⟨entry.value, ?_, hlast⟩
  exact RequestAdapter.look_eq_some_iff.2 ⟨cache, entry, hcache, hpeek, httl ▸ hage, rfl⟩

/-- Where the cache holds no entry that is young enough, a look finds nothing. -/
theorem look_of_not_holds {ttl : Nat} {key : String} {now : Int}
    (hcoherent : live.adapter.Coherent ttl live.history) (h : ¬ live.Holds ttl key now) :
    (live.adapter.look key now).1 = none := by
  obtain ⟨cache, hcache, -, hentries⟩ := hcoherent
  refine Option.eq_none_iff_forall_ne_some.2 fun payload hlook => h ?_
  obtain ⟨cache', entry, hcache', hpeek, hage, -⟩ := RequestAdapter.look_eq_some_iff.1 hlook
  obtain rfl := Option.some.inj (hcache.symm.trans hcache')
  exact ⟨cache, entry, hcache, hpeek, (hentries _ (LruCache.mem_of_find? hpeek)).1 ▸ hage⟩

/-- What is decoded is in the cache at once. -/
theorem holds_of_decoded {ttl number : Nat} {fetch : SourceFetch} {event : SendEvent}
    {key : String} {payload : Json} {now : Int}
    (hcoherent : live.adapter.Coherent ttl live.history)
    (hfetch : live.fetches[number]? = some fetch)
    (hdecoded : fetch.fetching.decoded? event = some (key, payload)) :
    (live.act (.happen number event now)).Holds ttl key now := by
  obtain ⟨cache, hcache, -, -⟩ := hcoherent
  have hactive := Fetching.active_of_decoded? hdecoded
  have hadapter : (live.act (.happen number event now)).adapter =
      live.adapter.store key payload now := by
    rw [act, happen_eq hfetch hactive, SourceFetch.after, RequestAdapter.keepPayload_step hactive,
      hdecoded]
    rfl
  have hage : (now - now).toNat ≤ ttl := by
    rw [Int.sub_self]
    exact Nat.zero_le ttl
  refine ⟨cache.insert key payload cache.defaultTtl now, ⟨payload, now, cache.defaultTtl⟩, ?_,
    LruCache.peek_insert_self, hage⟩
  rw [hadapter, RequestAdapter.store, hcache]
  rfl

/-- How a fetch with a number, a key and a field map fares that starts in one live adapter, as it
shows in a later one. -/
structure Answers (number : Nat) (key : String) (fieldMap : Option FieldMap) (held : Prop)
    (before after : LiveAdapter) : Prop where
  /-- It returns a payload without sending anything exactly if the cache holds one. -/
  unsent_iff : (∃ payload answer, .returned number (.ok payload) answer ∈ after.history) ∧
      (∀ request, .sent number request ∉ after.history) ↔ held
  /-- What the cache holds is what was decoded last, and this is what the fetch returns. -/
  cached : held → ∃ payload, lastDecoded key before.history = some payload ∧
    (∃ answer, .returned number (.ok payload) answer ∈ after.history) ∧
      ∀ result answer, .returned number result answer ∈ after.history → result = .ok payload
  /-- Any other payload that it returns it has decoded. -/
  decoded_iff : ∀ other payload, .decoded number other payload ∈ after.history ↔
    ¬ held ∧ other = key ∧ ∃ answer, .returned number (.ok payload) answer ∈ after.history
  /-- It answers with what it returns, after its own field map. -/
  mapped : ∀ result answer, .returned number result answer ∈ after.history →
    AnswersWith fieldMap result answer

end LiveAdapter

/-! ### One fetch of a run -/

section

variable {source : RequestSource} {context : FetchContext} {cacheBust : Nat} {now : Int}
  {key : String} (hkey : source.fingerprint (fillUrl context.props source.url) cacheBust = key)

include hkey

namespace RequestAdapter

variable {adapter : RequestAdapter}

/-- A payload that is found in the cache ends a fetch. -/
theorem startFetch_state_of_hit {payload : Json}
    (hhit : (adapter.look key now).1 = some payload) :
    (adapter.startFetch (.request source) context cacheBust now).1.fetching.state =
      .done (.ok payload) := by
  subst hkey
  rw [startFetch, start_of_hit hhit]

/-- A fetch that finds nothing in the cache ends only if it is cancelled. -/
theorem startFetch_state_of_miss (hmiss : (adapter.look key now).1 = none) :
    (adapter.startFetch (.request source) context cacheBust now).1.fetching.state =
      if context.cancelled then .done (.error .cancelled) else .inFlight 0 := by
  subst hkey
  rw [startFetch, start_of_miss hmiss]

theorem startFetch_key_of_miss (hmiss : (adapter.look key now).1 = none) :
    (adapter.startFetch (.request source) context cacheBust now).1.fetching.key = some key := by
  subst hkey
  rw [startFetch, start_of_miss hmiss]

end RequestAdapter

namespace LiveAdapter

variable {live : LiveAdapter} {ttl : Nat} {observation : Observation} {fetch : SourceFetch}

omit hkey in
theorem getElem?_start :
    (live.start (.request source) context cacheBust now).fetches[live.fetches.length]? =
      some (live.adapter.startFetch (.request source) context cacheBust now).1 :=
  List.getElem?_concat_length

omit hkey in
/-- What is observed of a fetch that has just started. -/
theorem mem_history_start (hfaithful : live.Faithful)
    (hmem : observation ∈ (live.start (.request source) context cacheBust now).history)
    (hnumber : observation.number = live.fetches.length) :
    observation ∈
      (live.adapter.startFetch (.request source) context cacheBust now).1.observedAtStart
        live.fetches.length := by
  refine (List.mem_append.1 hmem).resolve_left fun hold => ?_
  obtain ⟨fetch, hfetch, -⟩ := hfaithful observation hold
  have hlt : observation.number < live.fetches.length := (List.getElem?_eq_some_iff.1 hfetch).1
  exact Nat.lt_irrefl _ (hnumber ▸ hlt)

omit hkey in
theorem mem_history_of_observedAtStart
    (hmem : observation ∈
      (live.adapter.startFetch (.request source) context cacheBust now).1.observedAtStart
        live.fetches.length) (later : List AdapterInput) :
    observation ∈ ((live.start (.request source) context cacheBust now).replay later).history :=
  (history_replay _ later).subset (List.mem_append_right _ hmem)

omit hkey in
/-- Of a fetch that has ended when it starts only its result is observed. -/
theorem mem_history_of_ended {result : FetchResult} (hfaithful : live.Faithful)
    (hstate : (live.adapter.startFetch (.request source) context cacheBust now).1.fetching.state =
      .done result) (later : List AdapterInput)
    (hmem : observation ∈
      ((live.start (.request source) context cacheBust now).replay later).history)
    (hnumber : observation.number = live.fetches.length) :
    observation = .returned live.fetches.length result
      (result.map (applyFieldMap context.fieldMap)) := by
  have hstart := replay_ended later getElem?_start hstate observation hmem hnumber
  rcases SourceFetch.mem_observedAtStart.1 (mem_history_start hfaithful hstart hnumber) with
    ⟨⟨attempt, hattempt⟩, -⟩ | hreturned
  · rw [hstate] at hattempt
    cases hattempt
  · obtain ⟨result', hstate', rfl⟩ := SourceFetch.mem_returns.1 hreturned
    obtain rfl := SendState.done.inj (hstate.symm.trans hstate')
    rfl

/-- A fetch that starts while the cache holds its payload. -/
theorem answers_of_holds (hfaithful : live.Faithful)
    (hcoherent : live.adapter.Coherent ttl live.history) (later : List AdapterInput)
    (hheld : live.Holds ttl key now) :
    Answers live.fetches.length key context.fieldMap (live.Holds ttl key now) live
      ((live.start (.request source) context cacheBust now).replay later) := by
  obtain ⟨payload, hlook, hlast⟩ := look_of_holds hcoherent hheld
  have hstate := RequestAdapter.startFetch_state_of_hit hkey hlook
  have honly {observation : Observation} := @mem_history_of_ended source context cacheBust now
    live observation _ hfaithful hstate later
  have hreturned : Observation.returned live.fetches.length (.ok payload)
      (.ok (applyFieldMap context.fieldMap payload)) ∈
        ((live.start (.request source) context cacheBust now).replay later).history :=
    mem_history_of_observedAtStart (SourceFetch.mem_observedAtStart.2
      (.inr (SourceFetch.mem_returns.2 ⟨_, hstate, rfl⟩))) later
  refine ⟨iff_of_true ⟨⟨payload, _, hreturned⟩, fun request hmem => ?_⟩ hheld,
    fun _ => ⟨payload, hlast, ⟨_, hreturned⟩, fun result answer hmem => ?_⟩,
    fun other payload' => iff_of_false (fun hmem => ?_) fun h => h.1 hheld,
    fun result answer hmem => ?_⟩
  · cases honly hmem rfl
  · cases honly hmem rfl
    rfl
  · cases honly hmem rfl
  · cases honly hmem rfl
    exact answersWith_map context.fieldMap (.ok payload)

/-- A fetch that starts while the cache holds nothing for it, or only what is too old. -/
theorem answers_of_not_holds (hfaithful : live.Faithful)
    (hcoherent : live.adapter.Coherent ttl live.history) (later : List AdapterInput)
    (hheld : ¬ live.Holds ttl key now) :
    Answers live.fetches.length key context.fieldMap (live.Holds ttl key now) live
      ((live.start (.request source) context cacheBust now).replay later) := by
  have hlook := look_of_not_holds hcoherent hheld
  have hstate := RequestAdapter.startFetch_state_of_miss hkey hlook
  -- the fetch has the key, and all that is observed of it fits it
  obtain ⟨fetch, hfetch, hcontinues⟩ :=
    replay_continues later (@getElem?_start source context cacheBust now live)
  have hfetchKey : fetch.fetching.key = some key :=
    hcontinues.key.trans (RequestAdapter.startFetch_key_of_miss hkey hlook)
  have hfaithful' := (hfaithful.act (.start (.request source) context cacheBust now)).replay later
  refine ⟨iff_of_false ?_ hheld, fun hheld' => absurd hheld' hheld, fun other payload => ⟨?_, ?_⟩,
    fun result answer hmem => ?_⟩
  · rintro ⟨⟨payload, answer, hreturned⟩, hunsent⟩
    by_cases hcancelled : context.cancelled = true
    · cases mem_history_of_ended hfaithful (hstate.trans (if_pos hcancelled)) later hreturned rfl
    · have hsent := SourceFetch.mem_observedAtStart.2 (.inl
        ⟨⟨0, hstate.trans (if_neg hcancelled)⟩, @rfl _ (Observation.sent live.fetches.length _)⟩)
      exact hunsent _ (mem_history_of_observedAtStart hsent later)
  · intro hmem
    obtain ⟨hother, answer, hreturned⟩ := hfaithful'.fits hfetch hmem rfl
    exact ⟨hheld, Option.some.inj (hother.symm.trans hfetchKey), answer, hreturned⟩
  · rintro ⟨-, rfl, answer, hreturned⟩
    exact (hfaithful'.fits hfetch hreturned rfl).2 payload other rfl hfetchKey
  · rw [(hfaithful'.fits hfetch hmem rfl).1, hcontinues.fieldMap]
    exact answersWith_map context.fieldMap result

end LiveAdapter

end

namespace LiveAdapter

/-- **Fetches answered by the cache.** In every run of an adapter with a cache, a fetch returns a
payload without sending anything exactly if, when it starts, the cache holds an entry under its
fingerprint that is not older than the time to live. The payload is then the one that was decoded
last by a fetch with this fingerprint, and what is decoded is in the cache at once. Every fetch
answers with what it returns after its own field map, and no field map changes what is stored. -/
theorem answered_by_cache (retry : RetrySettings) (timeout capacity ttl : Nat)
    (earlier later : List AdapterInput) (source : RequestSource) (context : FetchContext)
    (cacheBust : Nat) (now : Int) :
    let input := AdapterInput.start (.request source) context cacheBust now
    let before := (new retry timeout capacity ttl).replay earlier
    let after := (new retry timeout capacity ttl).replay (earlier ++ input :: later)
    let key := source.fingerprint (fillUrl context.props source.url) cacheBust
    Answers before.fetches.length key context.fieldMap (before.Holds ttl key now) before after ∧
      (∀ number fetch event moment other payload, before.fetches[number]? = some fetch →
        fetch.fetching.decoded? event = some (other, payload) →
        (before.act (.happen number event moment)).Holds ttl other moment) ∧
      ∀ others : List AdapterInput,
        others.map AdapterInput.withoutFieldMap =
          (earlier ++ input :: later).map AdapterInput.withoutFieldMap →
        ((new retry timeout capacity ttl).replay others).adapter = after.adapter := by
  intro input before after key
  have hfaithful : before.Faithful :=
    Faithful.replay (fun observation hmem => by cases hmem) earlier
  have hcoherent := coherent_replay (coherent_new retry timeout capacity ttl) earlier
  have hafter : after = (before.start (.request source) context cacheBust now).replay later := by
    simp only [after, replay, List.foldl_append, List.foldl_cons]
    rfl
  refine ⟨?_, fun _ _ _ _ _ _ => holds_of_decoded hcoherent,
    fun others hothers => adapter_replay_congr _ hothers⟩
  rw [hafter]
  by_cases hheld : before.Holds ttl key now
  · exact answers_of_holds rfl hfaithful hcoherent later hheld
  · exact answers_of_not_holds rfl hfaithful hcoherent later hheld

/-- A source that is fetched again soon, with a field map that puts the whole payload at `labels`,
is not asked again: the second fetch returns what the first has decoded, and answers with it at that
place. -/
theorem answered_by_cache_again :
    let source : RequestSource := ⟨"/sales", none, [], none, []⟩
    let table : FieldMap := [("labels", "$")]
    let after := (new .standard 10000 1 1000).replay
      [.start (.request source) ⟨none, none, false⟩ 0 0, .happen 0 (.reply (.ok (.ofJson .null))) 5,
        .start (.request source) ⟨none, some table, false⟩ 0 6]
    .returned 1 (.ok .null) (.ok (.object [("labels", .null)])) ∈ after.history ∧
      ∀ request, .sent 1 request ∉ after.history := by
  intro source table after
  let before := (new .standard 10000 1 1000).replay
    [.start (.request source) ⟨none, none, false⟩ 0 0, .happen 0 (.reply (.ok (.ofJson .null))) 5]
  have hanswers := (answered_by_cache .standard 10000 1 1000
    [.start (.request source) ⟨none, none, false⟩ 0 0, .happen 0 (.reply (.ok (.ofJson .null))) 5]
    [] source ⟨none, some table, false⟩ 0 6).1
  have hheld : before.Holds 1000 (source.fingerprint (fillUrl none source.url) 0) 6 :=
    ⟨_, _, rfl, LruCache.peek_insert_self, by decide⟩
  obtain ⟨payload, hlast, ⟨answer, hreturned⟩, -⟩ := hanswers.cached hheld
  have hhistory : before.history = [.sent 0 (source.toRequest source.url),
      .decoded 0 (source.fingerprint source.url 0) .null,
      .returned 0 (.ok .null) (.ok .null)] := rfl
  have hdecoded : lastDecoded (source.fingerprint source.url 0) before.history = some .null := by
    simp [hhistory, lastDecoded, List.findSome?_cons, Observation.decodedUnder?]
  obtain rfl := Option.some.inj (hdecoded.symm.trans hlast)
  obtain rfl := (hanswers.mapped _ answer hreturned).2 table rfl (List.cons_ne_nil _ _)
  exact ⟨hreturned, (hanswers.unsent_iff.2 hheld).2⟩

end LiveAdapter

end ChartSchema
