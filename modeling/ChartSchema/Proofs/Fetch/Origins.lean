import Mathlib.Data.List.Basic
import ChartSchema.Proofs.Fetch.Caching

/-!
# Where payloads come from

A fetch decodes its payload from the reply to a call, or finds one in the cache. Either way it
returns the payload that was decoded last under its key, by itself or by another fetch.

This is said at the place in the history where the fetch returns, by the invariant
`LiveAdapter.Traced`: the history is cut into what is before and what is behind, and what was
decoded last is looked for before. It needs the key under which every fetch looked into the cache,
also of those that were answered by it: the **keys** of a run, one for each fetch. The predicate
`IsLast` picks the last observation of a kind, and stays what it is when something is added that is
of another kind.

For the cache the invariant is that it holds nothing but what was decoded last under each key
(`RequestAdapter.Current`), which is kept by everything that happens, with a cache or without one. A
fetch that returns at its start has found its payload there; one that returns later has decoded it
in the very event, so that it is the last under its key at that moment.

What a fetch sends is known as well: the request of its plan, which is that of its source with the
props put in (`RequestAdapter.startFetch_plan`). So every payload is traced back to a request and to
the source that asked for it.
-/

namespace ChartSchema

/-! ### The last observation of a kind -/

/-- Whether an observation is the last of a kind in a history, and what was observed before it. -/
def IsLast (kind : Observation → Prop) (observation : Observation)
    (before history : List Observation) : Prop :=
  kind observation ∧
    ∃ since, history = before ++ observation :: since ∧ ∀ later ∈ since, ¬ kind later

section

variable {α : Type} {a : α}

/-- What is put together of two lists and has an element in the middle has it in one of the two. -/
theorem append_eq_append_cons {old new before since : List α}
    (h : old ++ new = before ++ a :: since) :
    (∃ rest, old = before ++ a :: rest) ∨
      ∃ seen, before = old ++ seen ∧ new = seen ++ a :: since := by
  rcases List.append_eq_append_iff.1 h with ⟨seen, hbefore, hnew⟩ | ⟨rest, hold, hrest⟩
  · exact .inr ⟨seen, hbefore, hnew⟩
  · cases rest with
    | nil => exact .inr ⟨[], by rw [hold, List.append_nil, List.append_nil], hrest.symm⟩
    | cons b rest =>
      obtain ⟨rfl, -⟩ := List.cons.inj hrest
      exact .inl ⟨rest, hold⟩

theorem mem_of_eq_append_cons {list before since : List α} (h : list = before ++ a :: since) :
    a ∈ list := by
  rw [h]
  exact List.mem_append_right _ List.mem_cons_self

theorem getElem?_concat_cases {list : List α} {last : α} {i : Nat}
    (h : (list ++ [last])[i]? = some a) : list[i]? = some a ∨ i = list.length ∧ last = a := by
  rw [List.getElem?_append] at h
  split at h
  · exact .inl h
  · rw [List.getElem?_singleton] at h
    split at h
    · exact .inr ⟨by omega, Option.some.inj h⟩
    · cases h

end

/-- If there is an observation of a kind, one of them is the last. -/
theorem exists_isLast {kind : Observation → Prop} {history : List Observation}
    (h : ∃ observation ∈ history, kind observation) :
    ∃ observation before, IsLast kind observation before history := by
  induction history with
  | nil =>
    obtain ⟨observation, hmem, -⟩ := h
    cases hmem
  | cons first rest ih =>
    by_cases hrest : ∃ observation ∈ rest, kind observation
    · obtain ⟨observation, before, hkind, since, rfl, hsince⟩ := ih hrest
      exact ⟨observation, first :: before, hkind, since, rfl, hsince⟩
    · obtain ⟨observation, hmem, hkind⟩ := h
      rcases List.mem_cons.1 hmem with rfl | hmem
      · exact ⟨observation, [], hkind, rest, rfl, fun later hlater hlaterKind =>
          hrest ⟨later, hlater, hlaterKind⟩⟩
      · exact absurd ⟨observation, hmem, hkind⟩ hrest

theorem IsLast.mem {kind : Observation → Prop} {observation : Observation}
    {before history : List Observation} (h : IsLast kind observation before history) :
    observation ∈ history := by
  obtain ⟨-, since, hhistory, -⟩ := h
  exact mem_of_eq_append_cons hhistory

theorem IsLast.mem_of_before {kind : Observation → Prop} {observation earlier : Observation}
    {before history : List Observation} (h : IsLast kind observation before history)
    (hearlier : earlier ∈ before) : earlier ∈ history := by
  obtain ⟨-, since, rfl, -⟩ := h
  exact List.mem_append_left _ hearlier

/-- There is only one last observation. -/
theorem IsLast.unique {kind : Observation → Prop} {first second : Observation}
    {before other history : List Observation} (hfirst : IsLast kind first before history)
    (hsecond : IsLast kind second other history) : before = other ∧ first = second := by
  obtain ⟨hkind, since, rfl, hsince⟩ := hfirst
  obtain ⟨hkind', since', heq, hsince'⟩ := hsecond
  rcases List.append_eq_append_iff.1 heq with ⟨seen, hother, hrest⟩ | ⟨seen, hbefore, hrest⟩
  · cases seen with
    | nil => exact ⟨by rw [hother, List.append_nil], (List.cons.inj hrest).1⟩
    | cons observation seen =>
      exact absurd hkind' (hsince second (mem_of_eq_append_cons (List.cons.inj hrest).2))
  · cases seen with
    | nil => exact ⟨by rw [hbefore, List.append_nil], (List.cons.inj hrest).1.symm⟩
    | cons observation seen =>
      exact absurd hkind (hsince' first (mem_of_eq_append_cons (List.cons.inj hrest).2))

/-- What was before does not change which is the last. -/
theorem IsLast.append_left {kind : Observation → Prop} {observation : Observation}
    {before history : List Observation} (h : IsLast kind observation before history)
    (earlier : List Observation) :
    IsLast kind observation (earlier ++ before) (earlier ++ history) := by
  obtain ⟨hkind, since, rfl, hsince⟩ := h
  exact ⟨hkind, since, (List.append_assoc _ _ _).symm, hsince⟩

/-- Whether the payload that was decoded last under a key is one that a fetch decoded, and what was
observed before that. -/
def DecodedLast (key : String) (number : Nat) (payload : Json)
    (before history : List Observation) : Prop :=
  IsLast (fun observation => ∃ other, observation.decodedUnder? key = some other)
    (.decoded number key payload) before history

/-- What was observed before the last call that a fetch sent. -/
def SentLast (number : Nat) (before history : List Observation) : Prop :=
  ∃ request, IsLast (fun observation => ∃ other, observation = .sent number other)
    (.sent number request) before history

/-- A request that was sent was sent a last time. -/
theorem exists_sentLast {number : Nat} {request : HttpRequest} {history : List Observation}
    (h : .sent number request ∈ history) : ∃ before, SentLast number before history := by
  obtain ⟨observation, before, hlast⟩ :=
    @exists_isLast (fun observation => ∃ other, observation = .sent number other) history
      ⟨_, h, request, rfl⟩
  obtain ⟨other, rfl⟩ := hlast.1
  exact ⟨before, other, hlast⟩

/-- The payload that was decoded last was decoded by a fetch. -/
theorem exists_decodedLast {key : String} {payload : Json} {history : List Observation}
    (h : lastDecoded key history = some payload) :
    ∃ number before, DecodedLast key number payload before history := by
  obtain ⟨observation, hmem, hdecoded⟩ :=
    List.mem_filterMap.1 (List.mem_of_getLast? h)
  obtain ⟨last, before, hlast⟩ :=
    @exists_isLast (fun observation => ∃ other, observation.decodedUnder? key = some other) history
      ⟨observation, hmem, payload, hdecoded⟩
  obtain ⟨⟨other, hother⟩, since, rfl, hsince⟩ := id hlast
  have hnone : since.filterMap (Observation.decodedUnder? key) = [] :=
    List.filterMap_eq_nil_iff.2 fun later hlater =>
      Option.eq_none_iff_forall_ne_some.2 fun payload hpayload => hsince later hlater ⟨_, hpayload⟩
  rw [lastDecoded, List.filterMap_append, List.filterMap_cons_some hother, hnone,
    List.getLast?_concat] at h
  cases last with
  | decoded number found payload' =>
    by_cases hfound : found = key
    · subst hfound
      simp only [Observation.decodedUnder?, if_true] at hother
      obtain rfl := Option.some.inj (hother.trans h)
      exact ⟨number, before, hlast⟩
    · simp [Observation.decodedUnder?, hfound] at hother
  | _ => simp [Observation.decodedUnder?] at hother

/-! ### Keys -/

/-- The key under which the fetch that starts, if one does, looks into the cache. -/
def AdapterInput.keys : AdapterInput → List (Option String)
  | .start (.request source) context cacheBust _ =>
    [some (source.fingerprint (fillUrl context.props source.url) cacheBust)]
  | .start (.query _) _ _ _ => [none]
  | .start (.stream _) _ _ _ => [none]
  | .happen _ _ _ => []
  | .invalidateAll => []

namespace RequestAdapter

/-- Whether the cache, if there is one, holds what was decoded last under its keys. -/
def Current (adapter : RequestAdapter) (history : List Observation) : Prop :=
  ∀ cache, adapter.cache = some cache → ∃ ttl, adapter.Coherent ttl history

variable {adapter : RequestAdapter} {history : List Observation} {key : String} {now : Int}
  {payload : Json}

/-- What is found in the cache was decoded last. -/
theorem Current.lastDecoded_of_look (h : adapter.Current history)
    (hlook : (adapter.look key now).1 = some payload) : lastDecoded key history = some payload := by
  obtain ⟨cache, entry, hcache, hpeek, -, rfl⟩ := look_eq_some_iff.1 hlook
  obtain ⟨ttl, cache', hcache', -, hentries⟩ := h cache hcache
  obtain rfl := Option.some.inj (hcache.symm.trans hcache')
  exact (hentries _ (LruCache.mem_of_find? hpeek)).2

/-- A cache without entries holds nothing that it should not. -/
theorem current_of_entries_nil
    (h : ∀ cache, adapter.cache = some cache → cache.entries.entries = []) :
    adapter.Current history := by
  intro cache hcache
  refine ⟨cache.defaultTtl, cache, hcache, rfl, fun entry hmem => ?_⟩
  rw [h cache hcache] at hmem
  cases hmem

/-- A cache that was just made has no entries. -/
theorem current_newCache (retry : RetrySettings) (timeout : Nat) (settings : CacheSettings) :
    Current ⟨retry, timeout, settings.newCache⟩ history := by
  refine current_of_entries_nil fun cache hcache => ?_
  have hnew : settings.newCache = some cache := hcache
  rw [CacheSettings.newCache] at hnew
  split at hnew
  · cases hnew
    rfl
  · cases hnew

/-- A look leaves a cache, or none, as there was. -/
theorem isSome_cache_look : (adapter.look key now).2.cache.isSome = adapter.cache.isSome := by
  unfold look
  split
  · next cache hcache => rw [hcache]; rfl
  · rfl

theorem isSome_cache_store : (adapter.store key payload now).cache.isSome = adapter.cache.isSome :=
  Option.isSome_map

theorem isSome_cache_keepPayload {key : Option String} {state : SendState} :
    (adapter.keepPayload key state now).cache.isSome = adapter.cache.isSome := by
  unfold keepPayload
  split
  · exact isSome_cache_store
  · rfl

/-- The start of a fetch leaves a cache, or none, as there was. -/
theorem isSome_cache_startFetch (source : DataSource) (context : FetchContext) (cacheBust : Nat)
    (now : Int) :
    (adapter.startFetch source context cacheBust now).2.cache.isSome = adapter.cache.isSome := by
  cases source with
  | query source => rfl
  | stream source => rfl
  | request source =>
    rw [startFetch, start_adapter]
    exact isSome_cache_look

end RequestAdapter

namespace LiveAdapter

variable {live : LiveAdapter}

/-- No input takes the cache away or adds one. -/
theorem isSome_cache_act (live : LiveAdapter) (input : AdapterInput) :
    (live.act input).adapter.cache.isSome = live.adapter.cache.isSome := by
  cases input with
  | start source context cacheBust now =>
    exact RequestAdapter.isSome_cache_startFetch source context cacheBust now
  | invalidateAll => exact Option.isSome_map
  | happen number event now =>
    rcases live.happen_cases number event now with hsame | ⟨fetch, -, -, hnext⟩
    · rw [act, hsame]
    · rw [act, hnext]
      exact RequestAdapter.isSome_cache_keepPayload

/-- Whatever happens, the cache holds nothing but what was decoded last. -/
theorem current_act (h : live.adapter.Current live.history) (input : AdapterInput) :
    (live.act input).adapter.Current (live.act input).history := by
  intro cache hcache
  have hsome : live.adapter.cache.isSome = true := by
    rw [← live.isSome_cache_act input, hcache]
    rfl
  obtain ⟨cache', hcache'⟩ := Option.isSome_iff_exists.1 hsome
  obtain ⟨ttl, hcoherent⟩ := h cache' hcache'
  exact ⟨ttl, coherent_act hcoherent input⟩

end LiveAdapter

/-! ### What is observed when a fetch returns a payload -/

/-- Nothing is sent at the end. -/
theorem SendPlan.sends_done {plan : SendPlan} {state : SendState} {result : FetchResult} :
    plan.sends state (.done result) = [] := by
  cases state <;> rfl

namespace SourceFetch

variable {number : Nat} {fetch : SourceFetch} {event : SendEvent} {payload : Json}

/-- A fetch that has a payload when it starts is not observed but for that. -/
theorem observedAtStart_of_payload (h : fetch.fetching.state = .done (.ok payload)) :
    fetch.observedAtStart number =
      [.returned number (.ok payload) (.ok (applyFieldMap fetch.fieldMap payload))] := by
  simp only [observedAtStart, SendPlan.sendsAtStart, returns, result?, h]
  rfl

theorem decoded_notMem_observedAtStart {other : Nat} {key : String} :
    .decoded other key payload ∉ fetch.observedAtStart number := by
  intro h
  rcases mem_observedAtStart.1 h with ⟨-, hsent⟩ | hreturned
  · cases hsent
  · obtain ⟨result, -, hresult⟩ := mem_returns.1 hreturned
    cases hresult

/-- A payload that is observed is the one that the event decodes. -/
theorem decoded?_of_mem_observed {next : SourceFetch} {other : Nat} {key : String}
    (h : .decoded other key payload ∈ fetch.observed number event next) :
    fetch.fetching.decoded? event = some (key, payload) := by
  rcases mem_observed.1 h with ⟨_, _, hsent⟩ | ⟨_, _, hdecoded, heq⟩ | hreturned
  · cases hsent
  · cases heq
    exact hdecoded
  · obtain ⟨result, -, hresult⟩ := mem_returns.1 hreturned
    cases hresult

theorem state_of_mem_observedAtStart {result answer : FetchResult} {other : Nat}
    (h : .returned other result answer ∈ fetch.observedAtStart number) :
    fetch.fetching.state = .done result := by
  rcases mem_observedAtStart.1 h with ⟨-, hsent⟩ | hreturned
  · cases hsent
  · obtain ⟨result, hstate, hresult⟩ := mem_returns.1 hreturned
    cases hresult
    exact hstate

/-- A fetch that is seen to return has ended. -/
theorem state_of_mem_observed {next : SourceFetch} {result answer : FetchResult} {other : Nat}
    (h : .returned other result answer ∈ fetch.observed number event next) :
    next.fetching.state = .done result := by
  rcases mem_observed.1 h with ⟨_, _, hsent⟩ | ⟨_, _, _, hdecoded⟩ | hreturned
  · cases hsent
  · cases hdecoded
  · obtain ⟨result, hstate, hresult⟩ := mem_returns.1 hreturned
    cases hresult
    exact hstate

/-- A fetch that comes to a payload has just decoded it. -/
theorem observed_of_payload {key : String}
    (hdecoded : fetch.fetching.decoded? event = some (key, payload)) :
    fetch.observed number event (fetch.after event) =
      [.decoded number key payload,
        .returned number (.ok payload) (.ok (applyFieldMap fetch.fieldMap payload))] := by
  have hstep := ((Fetching.decoded?_eq_some_iff (Fetching.active_of_decoded? hdecoded)).1
    hdecoded).2
  have hsends : fetch.fetching.plan.sends fetch.fetching.state (.done (.ok payload)) = [] :=
    SendPlan.sends_done
  simp only [observed, returns, result?, after, hdecoded, hstep, hsends]
  rfl

section

variable {history before since : List Observation} {other : Nat} {answer : FetchResult}

/-- A payload is returned before a fetch starts, or the fetch returns it at once. -/
theorem returned_of_start (heq : history ++ fetch.observedAtStart number =
      before ++ .returned other (.ok payload) answer :: since) :
    (∃ rest, history = before ++ .returned other (.ok payload) answer :: rest) ∨
      other = number ∧ before = history ∧ fetch.fetching.state = .done (.ok payload) := by
  refine (append_eq_append_cons heq).imp_right ?_
  rintro ⟨seen, rfl, hseen⟩
  have hmem := mem_of_eq_append_cons hseen
  have hstate := state_of_mem_observedAtStart hmem
  rw [observedAtStart_of_payload hstate] at hseen
  cases seen with
  | nil => exact ⟨number_of_mem_observedAtStart hmem, List.append_nil _, hstate⟩
  | cons first seen => simp at hseen

/-- A payload is returned before an event happens to a fetch, or right after the fetch has decoded
it. -/
theorem returned_of_event (hactive : ∀ result, fetch.fetching.state ≠ .done result)
    (heq : history ++ fetch.observed number event (fetch.after event) =
      before ++ .returned other (.ok payload) answer :: since) :
    (∃ rest, history = before ++ .returned other (.ok payload) answer :: rest) ∨
      other = number ∧ ∀ key, fetch.fetching.key = some key →
        before = history ++ [.decoded number key payload] := by
  refine (append_eq_append_cons heq).imp_right ?_
  rintro ⟨seen, rfl, hseen⟩
  have hmem := mem_of_eq_append_cons hseen
  refine ⟨number_of_mem_observed hmem, fun key hkey => ?_⟩
  have hdecoded : fetch.fetching.decoded? event = some (key, payload) :=
    (Fetching.decoded?_eq_some_iff hactive).2 ⟨hkey, state_of_mem_observed hmem⟩
  rw [observed_of_payload hdecoded] at hseen
  match seen with
  | [] => simp at hseen
  | [first] => rw [(List.cons.inj hseen).1]
  | first :: second :: seen => simp at hseen

end

end SourceFetch

/-! ### A reply -/

/-- The reply `null`. -/
def SendEvent.null : SendEvent :=
  .reply (.ok (.ofJson .null))

/-- What a plain request decodes from the reply `null`. -/
theorem Fetching.decoded?_null {fetching : Fetching} {key : String} {attempt : Nat} {url : String}
    (hkey : fetching.key = some key) (hstate : fetching.state = .inFlight attempt)
    (hdecode : fetching.plan.decode = fun response => response.decode url) :
    fetching.decoded? .null = some (key, .null) := by
  simp only [decoded?, hkey, hstate, SendPlan.decoded?, SendEvent.null, hdecode]
  rfl

/-- A fetch sends what its source and its props ask for. -/
theorem RequestAdapter.startFetch_plan {adapter : RequestAdapter} {source : RequestSource}
    {context : FetchContext} {cacheBust : Nat} {now : Int} :
    (adapter.startFetch (.request source) context cacheBust now).1.fetching.plan =
      adapter.plan source (fillUrl context.props source.url) := by
  cases hlook : (adapter.look
      (source.fingerprint (fillUrl context.props source.url) cacheBust) now).1 with
  | some payload => simp only [startFetch, start_of_hit hlook]
  | none => simp only [startFetch, start_of_miss hlook]

/-! ### The invariant -/

namespace LiveAdapter

/-- What a run keeps of payloads, with the key under which each fetch looked into the cache. -/
structure Traced (live : LiveAdapter) (keys : List (Option String)) : Prop where
  /-- The cache holds what was decoded last. -/
  current : live.adapter.Current live.history
  length : keys.length = live.fetches.length
  /-- A fetch under way keeps what arrives under the key under which it looked. -/
  key : ∀ (number : Nat) (fetch : SourceFetch), live.fetches[number]? = some fetch →
    (∀ result, fetch.fetching.state ≠ .done result) → keys[number]? = some fetch.fetching.key
  /-- Only fetches that have started are observed. -/
  started : ∀ observation ∈ live.history, observation.number < live.fetches.length
  /-- A fetch decodes under the key under which it looked. -/
  decoded : ∀ (number : Nat) key payload, .decoded number key payload ∈ live.history →
    keys[number]? = some (some key)
  /-- A fetch with a key returns a payload right after it has decoded it. -/
  own : ∀ before since (number : Nat) payload answer (fetch : SourceFetch) key,
    live.history = before ++ .returned number (.ok payload) answer :: since →
      live.fetches[number]? = some fetch → fetch.fetching.key = some key →
        ∃ earlier, before = earlier ++ [.decoded number key payload]
  /-- A payload that is returned is the one that was decoded last. -/
  origin : ∀ before since (number : Nat) key payload answer,
    live.history = before ++ .returned number (.ok payload) answer :: since →
      keys[number]? = some (some key) → lastDecoded key before = some payload

variable {live : LiveAdapter} {keys : List (Option String)}

/-- Before anything is observed only the cache matters and what is under way. -/
theorem traced_of_nil {adapter : RequestAdapter} {fetches : List SourceFetch}
    (hcurrent : adapter.Current []) (hlength : keys.length = fetches.length)
    (hkey : ∀ (number : Nat) (fetch : SourceFetch), fetches[number]? = some fetch →
      keys[number]? = some fetch.fetching.key) : Traced ⟨adapter, fetches, []⟩ keys := by
  have hnil {before since : List Observation} {observation : Observation}
      (heq : [] = before ++ observation :: since) : False :=
    List.append_ne_nil_of_right_ne_nil _ (List.cons_ne_nil _ _) heq.symm
  exact ⟨hcurrent, hlength, fun number fetch hfetch _ => hkey number fetch hfetch,
    fun observation hmem => (by cases hmem), fun number key payload hmem => (by cases hmem),
    fun before since number payload answer fetch key heq => absurd heq hnil,
    fun before since number key payload answer heq => absurd heq hnil⟩

/-- A fetch starts. A payload that it has at once must be the one that was decoded last. -/
theorem Traced.begin (h : live.Traced keys) (adapter : RequestAdapter) (fetch : SourceFetch)
    (key? : Option String)
    (hcurrent : adapter.Current (live.history ++ fetch.observedAtStart live.fetches.length))
    (hkey : (∀ result, fetch.fetching.state ≠ .done result) → key? = fetch.fetching.key)
    (hown : ∀ payload, fetch.fetching.state = .done (.ok payload) → fetch.fetching.key = none)
    (horigin : ∀ key payload, key? = some key → fetch.fetching.state = .done (.ok payload) →
      lastDecoded key live.history = some payload) :
    Traced ⟨adapter, live.fetches ++ [fetch],
      live.history ++ fetch.observedAtStart live.fetches.length⟩ (keys ++ [key?]) := by
  have hconcat : (keys ++ [key?])[live.fetches.length]? = some key? := by
    rw [← h.length]
    exact List.getElem?_concat_length
  refine ⟨hcurrent, ?_, fun number other hother hactive => ?_, fun observation hmem => ?_,
    fun number key payload hmem => ?_,
    fun before since number payload answer other key heq hother hkey => ?_,
    fun before since number key payload answer heq hkeys => ?_⟩
  · rw [List.length_append, List.length_append, h.length]
    rfl
  · rcases getElem?_concat_cases hother with hold | ⟨rfl, rfl⟩
    · have hlt : number < keys.length := h.length ▸ (List.getElem?_eq_some_iff.1 hold).1
      rw [List.getElem?_append_left hlt]
      exact h.key number other hold hactive
    · rw [hconcat, hkey hactive]
  · rw [List.length_append, List.length_singleton]
    rcases List.mem_append.1 hmem with hold | hnew
    · exact Nat.lt_succ_of_lt (h.started observation hold)
    · rw [SourceFetch.number_of_mem_observedAtStart hnew]
      exact Nat.lt_succ_self _
  · rcases List.mem_append.1 hmem with hold | hnew
    · rw [List.getElem?_append_left (h.length ▸ h.started _ hold)]
      exact h.decoded number key payload hold
    · exact absurd hnew SourceFetch.decoded_notMem_observedAtStart
  · rcases SourceFetch.returned_of_start heq with ⟨rest, hold⟩ | ⟨rfl, -, hstate⟩
    · have hlt : number < live.fetches.length := h.started _ (mem_of_eq_append_cons hold)
      rw [List.getElem?_append_left hlt] at hother
      exact h.own before rest number payload answer other key hold hother hkey
    · obtain rfl := Option.some.inj (List.getElem?_concat_length.symm.trans hother)
      rw [hown payload hstate] at hkey
      cases hkey
  · rcases SourceFetch.returned_of_start heq with ⟨rest, hold⟩ | ⟨rfl, rfl, hstate⟩
    · have hlt : number < keys.length := h.length ▸ h.started _ (mem_of_eq_append_cons hold)
      rw [List.getElem?_append_left hlt] at hkeys
      exact h.origin before rest number key payload answer hold hkeys
    · exact horigin key payload (Option.some.inj (hconcat.symm.trans hkeys)) hstate

/-- A fetch starts through another adapter. -/
theorem Traced.begin_other (h : live.Traced keys) (fetch : SourceFetch)
    (hkey : fetch.fetching.key = none) :
    Traced ⟨live.adapter, live.fetches ++ [fetch],
      live.history ++ fetch.observedAtStart live.fetches.length⟩ (keys ++ [none]) := by
  refine h.begin _ fetch none (fun cache hcache => ?_) (fun _ => hkey.symm) (fun _ _ => hkey)
    fun key payload hnone _ => ?_
  · obtain ⟨ttl, hcoherent⟩ := h.current cache hcache
    refine ⟨ttl, hcoherent.of_lastDecoded fun key => ?_⟩
    rw [lastDecoded_append, SourceFetch.lastDecoded_observedAtStart, Option.none_or]
  · cases hnone

theorem Traced.start (h : live.Traced keys) (source : DataSource) (context : FetchContext)
    (cacheBust : Nat) (now : Int) :
    (live.start source context cacheBust now).Traced
      (keys ++ (AdapterInput.start source context cacheBust now).keys) := by
  have hcurrent := current_act h.current (.start source context cacheBust now)
  cases source with
  | query source => exact h.begin_other _ rfl
  | stream source => exact h.begin_other _ rfl
  | request source =>
    have hbegin := h.begin _ (live.adapter.startFetch (.request source) context cacheBust now).1
      (some (source.fingerprint (fillUrl context.props source.url) cacheBust)) hcurrent
    cases hlook : (live.adapter.look
        (source.fingerprint (fillUrl context.props source.url) cacheBust) now).1 with
    | some found =>
      -- a hit returns what the cache holds, which is what was decoded last
      have hfound := @RequestAdapter.startFetch_state_of_hit source context cacheBust now _ rfl
        live.adapter found hlook
      refine hbegin (fun hactive => absurd hfound (hactive _))
        (fun _ => RequestAdapter.key_of_startFetch) fun key payload hkey hstate => ?_
      obtain rfl := Option.some.inj hkey
      cases hfound.symm.trans hstate
      exact h.current.lastDecoded_of_look hlook
    | none =>
      -- a miss returns no payload at its start
      have hmiss := @RequestAdapter.startFetch_state_of_miss source context cacheBust now _ rfl
        live.adapter hlook
      refine hbegin (fun _ => (RequestAdapter.startFetch_key_of_miss rfl hlook).symm)
        (fun _ => RequestAdapter.key_of_startFetch) fun key payload _ hstate => ?_
      rw [hmiss] at hstate
      split at hstate <;> cases hstate

theorem Traced.happen (h : live.Traced keys) (number : Nat) (event : SendEvent) (now : Int) :
    (live.happen number event now).Traced keys := by
  have hcurrent := current_act h.current (.happen number event now)
  rw [act] at hcurrent
  -- an event for a fetch that has ended changes nothing
  rcases live.happen_cases number event now with hsame | ⟨fetch, hfetch, hactive, hnext⟩
  · rw [hsame]
    exact h
  rw [hnext] at hcurrent ⊢
  have hlt : number < live.fetches.length := (List.getElem?_eq_some_iff.1 hfetch).1
  have hkey := h.key number fetch hfetch hactive
  have hset : (live.fetches.set number (fetch.after event))[number]? = some (fetch.after event) :=
    List.getElem?_set_self hlt
  refine ⟨hcurrent, ?_, fun other next hother hactive' => ?_, fun observation hmem => ?_,
    fun other key payload hmem => ?_,
    fun before since other payload answer next key heq hother hnextKey => ?_,
    fun before since other key payload answer heq hkeys => ?_⟩
  · rw [List.length_set, h.length]
  · by_cases hsame : number = other
    · subst hsame
      obtain rfl := Option.some.inj (hset.symm.trans hother)
      exact hkey
    · rw [List.getElem?_set_ne hsame] at hother
      exact h.key other next hother hactive'
  · rw [List.length_set]
    rcases List.mem_append.1 hmem with hold | hnew
    · exact h.started observation hold
    · rw [SourceFetch.number_of_mem_observed hnew]
      exact hlt
  · rcases List.mem_append.1 hmem with hold | hnew
    · exact h.decoded other key payload hold
    · obtain rfl : other = number := SourceFetch.number_of_mem_observed hnew
      have hdecoded := SourceFetch.decoded?_of_mem_observed hnew
      rw [hkey, ((Fetching.decoded?_eq_some_iff hactive).1 hdecoded).1]
  · by_cases hsame : number = other
    · subst hsame
      obtain rfl := Option.some.inj (hset.symm.trans hother)
      rcases SourceFetch.returned_of_event hactive heq with ⟨rest, hold⟩ | ⟨-, hbefore⟩
      · exact h.own before rest number payload answer fetch key hold hfetch hnextKey
      · exact ⟨live.history, hbefore key hnextKey⟩
    · rcases SourceFetch.returned_of_event hactive heq with ⟨rest, hold⟩ | ⟨rfl, -⟩
      · rw [List.getElem?_set_ne hsame] at hother
        exact h.own before rest other payload answer next key hold hother hnextKey
      · exact absurd rfl hsame
  · rcases SourceFetch.returned_of_event hactive heq with ⟨rest, hold⟩ | ⟨rfl, hbefore⟩
    · exact h.origin before rest other key payload answer hold hkeys
    · rw [hbefore key (Option.some.inj (hkey.symm.trans hkeys)), lastDecoded_append]
      simp [lastDecoded, Observation.decodedUnder?]

theorem Traced.act (h : live.Traced keys) (input : AdapterInput) :
    (live.act input).Traced (keys ++ input.keys) := by
  cases input with
  | start source context cacheBust now => exact h.start source context cacheBust now
  | happen number event now =>
    rw [AdapterInput.keys, List.append_nil]
    exact h.happen number event now
  | invalidateAll =>
    rw [AdapterInput.keys, List.append_nil]
    exact ⟨current_act h.current .invalidateAll, h.length, h.key, h.started, h.decoded, h.own,
      h.origin⟩

/-- **Every payload that is returned was decoded last** under the key, at its place in the history
of a run. -/
theorem Traced.replay (h : live.Traced keys) (inputs : List AdapterInput) :
    (live.replay inputs).Traced (keys ++ inputs.flatMap AdapterInput.keys) := by
  induction inputs generalizing live keys with
  | nil =>
    rw [List.flatMap_nil, List.append_nil]
    exact h
  | cons input inputs ih =>
    rw [List.flatMap_cons, ← List.append_assoc]
    exact ih (h.act input)

end LiveAdapter

end ChartSchema
