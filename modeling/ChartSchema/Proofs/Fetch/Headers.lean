import ChartSchema.Proofs.Fetch.Invalidation

/-!
# Headers of the requests behind payloads

The fingerprint of a plain request leaves its headers out. So what a fetch finds in the cache may
come from a request with other headers, as long as both requests have the same fingerprint. For
every payload that is returned there is one fetch that decoded it last under the fingerprint, and it
comes from a request with the headers of the source of this fetch and with no others
(`LiveAdapter.headers_of_payload`). A fetch that has sent a request itself returns the payload of
its own.

Where a payload comes from is read off the history. `RepliedTo` says that the payload was the last
one to be decoded under the key, and that the request is the one which the fetch that decoded it had
sent last before; there is at most one such request (`RepliedTo.unique`). What was sent is
determined by the source and the props of the fetch that sent it, and the invariant
`LiveAdapter.Asks` keeps for every fetch of a run what it was called with.

The run in `headers_of_payload_shared` has two fetches with the same headers that share a payload
through the cache, and the one in `headers_crossed` two fetches with different headers: the second
is answered with the payload that was decoded for the first.
-/

namespace ChartSchema

/-! ### What fetches ask for -/

/-- A plain request as a fetch asks for it. -/
structure RequestCall where
  source : RequestSource
  props : Option Json
  cacheBust : Nat

namespace RequestCall

/-- The address of a call, with the props put in. -/
def url (call : RequestCall) : String :=
  fillUrl call.props call.source.url

/-- The key under which the fetch looks into the cache. -/
def key (call : RequestCall) : String :=
  call.source.fingerprint call.url call.cacheBust

/-- The request that the fetch sends if it sends one. -/
def request (call : RequestCall) : HttpRequest :=
  call.source.toRequest call.url

end RequestCall

/-- The fingerprint leaves headers out. -/
theorem RequestSource.fingerprint_headers (source : RequestSource) (headers : Fields String)
    (url : String) (cacheBust : Nat) :
    RequestSource.fingerprint { source with headers := headers } url cacheBust =
      source.fingerprint url cacheBust := rfl

/-- What the fetch that starts, if one does, asks for, if it is a plain request. -/
def AdapterInput.calls : AdapterInput → List (Option RequestCall)
  | .start (.request source) context cacheBust _ => [some ⟨source, context.props, cacheBust⟩]
  | .start (.query _) _ _ _ => [none]
  | .start (.stream _) _ _ _ => [none]
  | .happen _ _ _ => []
  | .invalidateAll => []

theorem AdapterInput.keys_eq_map_calls (input : AdapterInput) :
    input.keys = input.calls.map (Option.map RequestCall.key) := by
  cases input with
  | start source context cacheBust now => cases source <;> rfl
  | happen number event now => rfl
  | invalidateAll => rfl

/-- One input starts one fetch at most. -/
theorem AdapterInput.length_calls_le (input : AdapterInput) : input.calls.length ≤ 1 := by
  cases input with
  | start source context cacheBust now => cases source <;> exact Nat.le_refl 1
  | happen number event now => exact Nat.zero_le 1
  | invalidateAll => exact Nat.zero_le 1

/-! ### Replies to requests -/

/-- Whether the payload that was decoded last under a key was decoded by a fetch from the reply to a
request. -/
def RepliedTo (request : HttpRequest) (number : Nat) (key : String) (payload : Json)
    (history : List Observation) : Prop :=
  ∃ decoding sending, DecodedLast key number payload decoding history ∧
    IsLast (fun observation => ∃ other, observation = .sent number other) (.sent number request)
      sending decoding

/-- Whether the payload that was decoded last under a key was decoded from the reply to a request
with the given headers. -/
def RepliedWith (headers : Fields String) (key : String) (payload : Json)
    (history : List Observation) : Prop :=
  ∃ request number, RepliedTo request number key payload history ∧ request.headers = headers

section

variable {request other : HttpRequest} {number origin : Nat} {key : String} {payload : Json}
  {history : List Observation}

/-- There is only one request behind a payload. -/
theorem RepliedTo.unique (h : RepliedTo request number key payload history)
    (hother : RepliedTo other origin key payload history) : request = other ∧ number = origin := by
  obtain ⟨decoding, sending, hdecoded, hsent⟩ := h
  obtain ⟨decoding', sending', hdecoded', hsent'⟩ := hother
  obtain ⟨rfl, hsame⟩ := hdecoded.unique hdecoded'
  obtain rfl : number = origin := congrArg Observation.number hsame
  exact ⟨(Observation.sent.inj (hsent.unique hsent').2).2, rfl⟩

/-- The headers behind a payload are those of the one request behind it. -/
theorem RepliedTo.repliedWith_iff (h : RepliedTo request number key payload history)
    {headers : Fields String} :
    RepliedWith headers key payload history ↔ headers = request.headers := by
  constructor
  · rintro ⟨other, origin, hother, rfl⟩
    rw [(h.unique hother).1]
  · rintro rfl
    exact ⟨request, number, h, rfl⟩

/-- A request behind a payload was sent before. -/
theorem RepliedTo.mem (h : RepliedTo request number key payload history) :
    .sent number request ∈ history := by
  obtain ⟨decoding, sending, hdecoded, hsent⟩ := h
  exact hdecoded.mem_of_before hsent.mem

/-- What was replied to was sent. -/
theorem RepliedWith.exists_sent {headers : Fields String}
    (h : RepliedWith headers key payload history) :
    ∃ number request, .sent number request ∈ history ∧ request.headers = headers := by
  obtain ⟨request, number, hreplied, hheaders⟩ := h
  exact ⟨number, request, hreplied.mem, hheaders⟩

end

/-! ### The invariant -/

/-- A fetch that has just sent a request is in flight. -/
theorem SendPlan.exists_inFlight_of_mem_sends {plan : SendPlan} {state next : SendState}
    {request : HttpRequest} (h : request ∈ plan.sends state next) :
    ∃ attempt, next = .inFlight attempt := by
  cases next with
  | inFlight attempt => exact ⟨attempt, rfl⟩
  | pausing attempt => cases state <;> cases h
  | done result =>
    rw [sends_done] at h
    cases h

namespace LiveAdapter

/-- What a run keeps of the requests that its fetches ask for. -/
structure Asks (live : LiveAdapter) (calls : List (Option RequestCall)) : Prop where
  traced : live.Traced (calls.map (Option.map RequestCall.key))
  /-- A fetch sends only what it asks for. -/
  request : ∀ (number : Nat) (fetch : SourceFetch) call, live.fetches[number]? = some fetch →
    calls[number]? = some (some call) → fetch.fetching.plan.request = call.request
  /-- A fetch that has sent something keeps what arrives under its key. -/
  sent : ∀ (number : Nat) request (fetch : SourceFetch), .sent number request ∈ live.history →
    live.fetches[number]? = some fetch →
      (calls.map (Option.map RequestCall.key))[number]? = some fetch.fetching.key

variable {live : LiveAdapter} {calls : List (Option RequestCall)}

/-- There is one call for each fetch. -/
theorem Asks.length (h : live.Asks calls) : calls.length = live.fetches.length := by
  rw [← h.traced.length, List.length_map]

theorem called_ofSettings (retry : RetrySettings) (timeout : Nat) (settings : CacheSettings)
    (key : String) (number : Nat) : (ofSettings retry timeout settings).Called key number where
  inFlight := fun fetch attempt hfetch => by cases hfetch
  decoded := fun before since payload heq =>
    absurd heq.symm (List.append_ne_nil_of_right_ne_nil _ (List.cons_ne_nil _ _))

theorem asks_nil {adapter : RequestAdapter} (h : adapter.Current []) :
    Asks ⟨adapter, [], []⟩ [] where
  traced := traced_of_nil h rfl fun number fetch hfetch => by cases hfetch
  request := fun number fetch call hfetch => by cases hfetch
  sent := fun number request fetch hmem => by cases hmem

/-- What has been sent just now was sent by a fetch that is in flight. -/
theorem inFlight_of_sent {input : AdapterInput} {number : Nat} {request : HttpRequest}
    {fetch : SourceFetch} (hnew : .sent number request ∉ live.history)
    (hmem : .sent number request ∈ (live.act input).history)
    (hfetch : (live.act input).fetches[number]? = some fetch) :
    ∃ attempt, fetch.fetching.state = .inFlight attempt := by
  cases input with
  | invalidateAll => exact absurd hmem hnew
  | start source context cacheBust now =>
    have hobserved := (List.mem_append.1 hmem).resolve_left hnew
    obtain rfl : number = live.fetches.length :=
      SourceFetch.number_of_mem_observedAtStart hobserved
    obtain rfl := Option.some.inj (List.getElem?_concat_length.symm.trans hfetch)
    rcases SourceFetch.mem_observedAtStart.1 hobserved with ⟨hstate, -⟩ | hreturned
    · exact hstate
    · obtain ⟨result, -, hresult⟩ := SourceFetch.mem_returns.1 hreturned
      cases hresult
  | happen other event now =>
    rcases live.happen_cases other event now with hsame | ⟨found, hfound, -, hnext⟩
    · rw [act, hsame] at hmem
      exact absurd hmem hnew
    rw [act, hnext] at hmem hfetch
    have hobserved := (List.mem_append.1 hmem).resolve_left hnew
    obtain rfl : number = other := SourceFetch.number_of_mem_observed hobserved
    obtain rfl := Option.some.inj
      ((List.getElem?_set_self (List.getElem?_eq_some_iff.1 hfound).1).symm.trans hfetch)
    rcases SourceFetch.mem_observed.1 hobserved with ⟨_, hsends, -⟩ | ⟨_, _, -, heq⟩ | hreturned
    · exact SendPlan.exists_inFlight_of_mem_sends hsends
    · cases heq
    · obtain ⟨result, -, hresult⟩ := SourceFetch.mem_returns.1 hreturned
      cases hresult

/-- A fetch that has just started sends what it asks for. -/
theorem request_of_started {input : AdapterInput} {fetch : SourceFetch} {call : RequestCall}
    (hfetch : (live.act input).fetches[live.fetches.length]? = some fetch)
    (hcall : input.calls[0]? = some (some call)) : fetch.fetching.plan.request = call.request := by
  cases input with
  | happen number event now => cases hcall
  | invalidateAll => cases hcall
  | start source context cacheBust now =>
    obtain rfl := Option.some.inj (List.getElem?_concat_length.symm.trans hfetch)
    cases source with
    | query source => cases hcall
    | stream source => cases hcall
    | request source =>
      cases hcall
      exact congrArg SendPlan.request RequestAdapter.startFetch_plan

theorem Asks.act (h : live.Asks calls) (input : AdapterInput) :
    (live.act input).Asks (calls ++ input.calls) := by
  have htraced := h.traced.act input
  rw [AdapterInput.keys_eq_map_calls, ← List.map_append] at htraced
  refine ⟨htraced, fun number fetch call hfetch hcall => ?_,
    fun number request fetch hmem hfetch => ?_⟩
  · by_cases hold : number < live.fetches.length
    · obtain ⟨next, hnext, hcontinues⟩ :=
        act_continues input (List.getElem?_eq_getElem hold)
      obtain rfl := Option.some.inj (hnext.symm.trans hfetch)
      rw [List.getElem?_append_left (h.length.symm ▸ hold)] at hcall
      rw [hcontinues.plan]
      exact h.request number _ call (List.getElem?_eq_getElem hold) hcall
    · -- the only new fetch is the one that the input starts
      obtain ⟨hlt, -⟩ := List.getElem?_eq_some_iff.1 hcall
      have hone := input.length_calls_le
      rw [List.length_append, h.length] at hlt
      obtain rfl : number = live.fetches.length := by omega
      rw [List.getElem?_append_right (Nat.le_of_eq h.length), h.length, Nat.sub_self] at hcall
      exact request_of_started hfetch hcall
  · by_cases hold : .sent number request ∈ live.history
    · have hlt : number < live.fetches.length := h.traced.started _ hold
      obtain ⟨next, hnext, hcontinues⟩ :=
        act_continues input (List.getElem?_eq_getElem hlt)
      obtain rfl := Option.some.inj (hnext.symm.trans hfetch)
      rw [List.map_append, List.getElem?_append_left (by rw [List.length_map, h.length]; exact hlt),
        hcontinues.key]
      exact h.sent number request _ hold (List.getElem?_eq_getElem hlt)
    · obtain ⟨attempt, hstate⟩ := inFlight_of_sent hold hmem hfetch
      exact htraced.key number fetch hfetch fun result hdone => by
        rw [hstate] at hdone
        cases hdone

/-- The calls of a run are those of its inputs, in order. -/
theorem Asks.replay (h : live.Asks calls) (inputs : List AdapterInput) :
    (live.replay inputs).Asks (calls ++ inputs.flatMap AdapterInput.calls) := by
  induction inputs generalizing live calls with
  | nil =>
    rw [List.flatMap_nil, List.append_nil]
    exact h
  | cons input inputs ih =>
    rw [List.flatMap_cons, ← List.append_assoc]
    exact ih (h.act input)

theorem getElem?_keys_iff {number : Nat} {key : String} :
    (calls.map (Option.map RequestCall.key))[number]? = some (some key) ↔
      ∃ call, calls[number]? = some (some call) ∧ call.key = key := by
  simp only [List.getElem?_map, Option.map_eq_some_iff]
  constructor
  · rintro ⟨_, hcall, call, rfl, hkey⟩
    exact ⟨call, hcall, hkey⟩
  · rintro ⟨call, hcall, hkey⟩
    exact ⟨some call, hcall, call, rfl, hkey⟩

/-- A payload that was decoded last comes from the reply to the request of a fetch with the key. -/
theorem Asks.exists_repliedTo (h : live.Asks calls) (hfaithful : live.Faithful)
    (hcalled : ∀ key number, live.Called key number) {key : String} {payload : Json}
    {before : List Observation} (hbefore : before <+: live.history)
    (hlast : lastDecoded key before = some payload) :
    ∃ origin asked, calls[origin]? = some (some asked) ∧ asked.key = key ∧
      RepliedTo asked.request origin key payload before := by
  obtain ⟨origin, decoding, hdecoded⟩ := exists_decodedLast hlast
  obtain ⟨asked, hasked, hkey⟩ := getElem?_keys_iff.1
    (h.traced.decoded origin key payload (hbefore.subset hdecoded.mem))
  obtain ⟨_, hsent⟩ := (hcalled key origin).sent_of_decodedLast hbefore hdecoded
  obtain ⟨sending, request, hsending⟩ := exists_sentLast hsent
  -- the fetch sends nothing but its own request
  obtain ⟨fetch, hfetch, hfits⟩ :=
    hfaithful _ (hbefore.subset (hdecoded.mem_of_before hsending.mem))
  obtain rfl : request = asked.request := hfits.trans (h.request origin fetch asked hfetch hasked)
  exact ⟨origin, asked, hasked, hkey, decoding, sending, hdecoded, hsending⟩

/-- A fetch that has sent a request returns what it has decoded itself. -/
theorem Asks.decodedLast_of_sent (h : live.Asks calls) {before since : List Observation}
    {number : Nat} {payload : Json} {answer : FetchResult} {call : RequestCall}
    {request : HttpRequest}
    (hreturned : live.history = before ++ .returned number (.ok payload) answer :: since)
    (hcall : calls[number]? = some (some call))
    (hsent : .sent number request ∈ live.history) :
    ∃ decoding, DecodedLast call.key number payload decoding before := by
  have hlt : number < live.fetches.length := h.traced.started _ hsent
  have hfetch := List.getElem?_eq_getElem hlt
  have hkey := (h.sent number request _ hsent hfetch).symm.trans
    (getElem?_keys_iff.2 ⟨call, hcall, rfl⟩)
  obtain ⟨decoding, rfl⟩ := h.traced.own before since number payload answer _ call.key hreturned
    hfetch (Option.some.inj hkey)
  exact ⟨decoding, ⟨payload, by simp [Observation.decodedUnder?]⟩, [], rfl,
    fun later hmem => by cases hmem⟩

/-! ### Two fetches with one fingerprint -/

/-- A plain request without props, at the beginning. -/
def plainStart (source : RequestSource) : AdapterInput :=
  .start (.request source) ⟨none, none, false⟩ 0 0

/-- A plain request that differs from others only in its headers. -/
def tokenSource (token : String) : RequestSource :=
  ⟨"https://a", none, [("Authorization", token)], none, []⟩

/-- The first fetch through a new adapter sends its request. -/
theorem exists_fetch_of_plainStart {source : RequestSource} {key : String}
    (hkey : source.fingerprint (fillUrl none source.url) 0 = key) :
    ∃ fetch, ((ofSettings .standard 10000 .standard).act (plainStart source)).fetches[0]? =
        some fetch ∧
      fetch.fetching.state = .inFlight 0 ∧ fetch.fetching.key = some key ∧ fetch.fieldMap = none ∧
      (fetch.fetching.plan.decode = fun response => response.decode (fillUrl none source.url)) ∧
      ((ofSettings .standard 10000 .standard).act (plainStart source)).history =
        [.sent 0 (source.toRequest (fillUrl none source.url))] := by
  let adapter := (ofSettings .standard 10000 .standard).adapter
  let fetch := (adapter.startFetch (.request source) ⟨none, none, false⟩ 0 0).1
  have hlook : (adapter.look key 0).1 = none := rfl
  have hstate : fetch.fetching.state = .inFlight 0 :=
    @RequestAdapter.startFetch_state_of_miss source ⟨none, none, false⟩ 0 0 key hkey _ hlook
  have hplan : fetch.fetching.plan = adapter.plan source (fillUrl none source.url) :=
    @RequestAdapter.startFetch_plan adapter source ⟨none, none, false⟩ 0 0
  refine ⟨fetch, rfl, hstate,
    @RequestAdapter.startFetch_key_of_miss source ⟨none, none, false⟩ 0 0 key hkey _ hlook, rfl,
    congrArg SendPlan.decode hplan, ?_⟩
  change [] ++ fetch.observedAtStart 0 = _
  simp only [SourceFetch.observedAtStart, SourceFetch.returns, SendPlan.sendsAtStart, hstate,
    hplan, RequestAdapter.plan]
  rfl

/-- The reply to the first fetch answers a second one with the same fingerprint as well, so that
nothing else is sent. -/
theorem history_of_two {first second : RequestSource} {key : String}
    (hfirst : first.fingerprint (fillUrl none first.url) 0 = key)
    (hsecond : second.fingerprint (fillUrl none second.url) 0 = key) :
    let new := ofSettings .standard 10000 .standard
    let replied := [.sent 0 (first.toRequest (fillUrl none first.url)), .decoded 0 key .null] ++
      [.returned 0 (.ok .null) (.ok .null)]
    (new.replay [plainStart first, .happen 0 .null 0]).history = replied ∧
      (new.replay [plainStart first, .happen 0 .null 0, plainStart second]).history =
        replied ++ [.returned 1 (.ok .null) (.ok .null)] ∧
      ∀ number request,
        .sent number request ∈ replied ++ [.returned 1 (.ok .null) (.ok .null)] →
          number = 0 ∧ request = first.toRequest (fillUrl none first.url) := by
  intro new replied
  obtain ⟨fetch, hfetch, hstate, hkey, hmap, hdecode, hsent⟩ := exists_fetch_of_plainStart hfirst
  obtain ⟨hreplied, hreturned⟩ := @history_of_reply (new.act (plainStart first)) key 0 _ 0 fetch
    (fillUrl none first.url) second ⟨none, none, false⟩ 0
    (coherent_act (coherent_of_enabled rfl []) (plainStart first)) hfetch hkey hstate hdecode
    hsecond
  rw [hsent, hmap] at hreplied
  rw [hreplied] at hreturned
  simp only [replay, List.foldl_cons, List.foldl_nil]
  refine ⟨hreplied, hreturned, fun number request hmem => ?_⟩
  simp only [replied, List.mem_append, List.mem_cons, List.not_mem_nil, or_false, reduceCtorEq,
    Observation.sent.injEq] at hmem
  exact hmem

/-! ### Headers -/

/-- **The headers behind a payload.** In every run of an adapter, with a cache or without one, a
payload that a fetch returns comes from the reply to the request of one fetch with the same
fingerprint, and this request carries the headers of the source of that fetch and no others. If the
fetch that returns the payload has sent a request itself, it is that fetch. -/
theorem headers_of_payload (retry : RetrySettings) (timeout : Nat) (settings : CacheSettings)
    (inputs : List AdapterInput) {before since : List Observation} {number : Nat} {payload : Json}
    {answer : FetchResult} {call : RequestCall}
    (hreturned : ((ofSettings retry timeout settings).replay inputs).history =
      before ++ .returned number (.ok payload) answer :: since)
    (hcall : (inputs.flatMap AdapterInput.calls)[number]? = some (some call)) :
    ∃ origin asked, (inputs.flatMap AdapterInput.calls)[origin]? = some (some asked) ∧
      asked.key = call.key ∧ RepliedTo asked.request origin call.key payload before ∧
      (∀ headers, RepliedWith headers call.key payload before ↔ headers = asked.source.headers) ∧
      ((∃ request, .sent number request ∈
        ((ofSettings retry timeout settings).replay inputs).history) → origin = number) := by
  have hasks := (asks_nil (RequestAdapter.current_newCache retry timeout settings)).replay inputs
  rw [List.nil_append] at hasks
  have hfaithful : ((ofSettings retry timeout settings).replay inputs).Faithful :=
    Faithful.replay (fun observation hmem => by cases hmem) inputs
  have hcalled (key : String) (number : Nat) :=
    (called_ofSettings retry timeout settings key number).replay inputs
  have hlast := hasks.traced.origin before since number call.key payload answer hreturned
    (getElem?_keys_iff.2 ⟨call, hcall, rfl⟩)
  obtain ⟨origin, asked, hasked, hkey, hreplied⟩ :=
    hasks.exists_repliedTo hfaithful hcalled (hreturned ▸ List.prefix_append _ _) hlast
  refine ⟨origin, asked, hasked, hkey, hreplied, fun headers => hreplied.repliedWith_iff, ?_⟩
  rintro ⟨request, hsent⟩
  obtain ⟨decoding, hdecoded⟩ := hasks.decodedLast_of_sent hreturned hcall hsent
  obtain ⟨other, -, hother, -⟩ := hreplied
  exact congrArg Observation.number (hother.unique hdecoded).2

/-- Two fetches that differ in their headers share a payload: what the second returns comes from the
reply to the request of the first, with the headers of the first. -/
theorem headers_of_payload_shared :
    let first : RequestCall := ⟨tokenSource "Bearer a", none, 0⟩
    let second : RequestCall := ⟨tokenSource "Bearer b", none, 0⟩
    let inputs := [plainStart first.source, .happen 0 .null 0, plainStart second.source]
    ∃ before answer,
      ((ofSettings .standard 10000 .standard).replay inputs).history =
          before ++ .returned 1 (.ok .null) answer :: [] ∧
        (inputs.flatMap AdapterInput.calls)[1]? = some (some second) ∧
        RepliedTo first.request 0 second.key .null before ∧
        ∀ headers, RepliedWith headers second.key .null before ↔
          headers = [("Authorization", "Bearer a")] := by
  intro first second inputs
  obtain ⟨-, hhistory, hsent⟩ := @history_of_two first.source second.source _ rfl
    ((tokenSource "Bearer a").fingerprint_headers [("Authorization", "Bearer b")] "https://a" 0)
  have hsecond : (inputs.flatMap AdapterInput.calls)[1]? = some (some second) := rfl
  obtain ⟨origin, asked, hasked, -, hreplied, hheaders, -⟩ :=
    headers_of_payload .standard 10000 .standard inputs hhistory hsecond
  -- only the first fetch has sent anything
  obtain ⟨rfl, -⟩ := hsent origin asked.request (List.mem_append_left _ hreplied.mem)
  have hfirst : (inputs.flatMap AdapterInput.calls)[0]? = some (some first) := rfl
  obtain rfl : first = asked := Option.some.inj (Option.some.inj (hfirst.symm.trans hasked))
  exact ⟨_, _, hhistory, hsecond, hreplied, hheaders⟩

/-- A fetch with other headers finds the payload in the cache, and no request with its own headers
is ever sent. -/
theorem headers_crossed :
    let call : RequestCall := ⟨tokenSource "Bearer b", none, 0⟩
    let inputs := [plainStart (tokenSource "Bearer a"), .happen 0 .null 0, plainStart call.source]
    ∃ before answer,
      ((ofSettings .standard 10000 .standard).replay inputs).history =
          before ++ .returned 1 (.ok .null) answer :: [] ∧
        (inputs.flatMap AdapterInput.calls)[1]? = some (some call) ∧
        ¬ RepliedWith call.source.headers call.key .null before ∧
        ∀ number request,
          .sent number request ∈ ((ofSettings .standard 10000 .standard).replay inputs).history →
            request.headers ≠ call.source.headers := by
  intro call inputs
  obtain ⟨-, hhistory, hsent⟩ := @history_of_two (tokenSource "Bearer a") call.source _ rfl
    ((tokenSource "Bearer a").fingerprint_headers [("Authorization", "Bearer b")] "https://a" 0)
  rw [← hhistory] at hsent
  have hother : (tokenSource "Bearer a").headers ≠ call.source.headers := by
    simp [tokenSource, call]
  have hcall : (inputs.flatMap AdapterInput.calls)[1]? = some (some call) := rfl
  refine ⟨_, _, hhistory, hcall, fun hreplied => ?_, fun number request hmem => ?_⟩
  · obtain ⟨number, request, hmem, hheaders⟩ := hreplied.exists_sent
    rw [(hsent number request (hhistory ▸ List.mem_append_left _ hmem)).2] at hheaders
    exact hother hheaders
  · rw [(hsent number request hmem).2]
    exact hother

end LiveAdapter

end ChartSchema
