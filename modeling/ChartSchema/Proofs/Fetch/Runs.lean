import ChartSchema.Fetch.Sources
import ChartSchema.Proofs.Fetch.Attempts

/-!
# Runs of one adapter

Many fetches may be under way at once through one adapter for plain requests. A **live adapter** is
the adapter with all fetches that ever went through it, numbered in the order in which they started,
and with the **history** of what was observed. `LiveAdapter.act` lets one thing happen: a fetch
starts, an event happens to a fetch, or the cache is emptied. Everything that can happen is a list
of such inputs, in any order and at any times.

The observations are those that somebody outside can make: a request is sent, a payload is decoded
under a key, a fetch returns with its answer. What an event adds to the history is a function of the
fetch before and behind it (`mem_observed`), so that the history is determined by the run and holds
nothing that the fetches do not do.

What a run does is known from what one input does. There are four facts of this sort, each proved
for one input and then for a run, by `LiveAdapter.replay_preserves` or by the same induction:

* fetches go on from what they were (`LiveAdapter.act_continues`): their plan and their key stay;
* the history only grows (`LiveAdapter.history_act`);
* of a fetch that has ended nothing more is observed (`LiveAdapter.act_ended`);
* every observation fits the fetch that it is about (`LiveAdapter.Faithful`).
-/

namespace ChartSchema

/-- What can happen to an adapter. -/
inductive AdapterInput where
  | start (source : DataSource) (context : FetchContext) (cacheBust : Nat) (now : Int)
  | happen (number : Nat) (event : SendEvent) (now : Int)
  | invalidateAll

/-! ### Observations -/

/-- What is observed of a fetch. -/
inductive Observation where
  | sent (number : Nat) (request : HttpRequest)
  /-- A reply ends a fetch: the payload decoded from it, and the key of the fetch. -/
  | decoded (number : Nat) (key : String) (payload : Json)
  /-- A fetch has ended: its result, and the answer after the field map. -/
  | returned (number : Nat) (result answer : FetchResult)

namespace Observation

/-- The fetch that is observed. -/
def number : Observation → Nat
  | sent number _ => number
  | decoded number _ _ => number
  | returned number _ _ => number

/-- The payload if one was decoded under a key. -/
def decodedUnder? (key : String) : Observation → Option Json
  | decoded _ other payload => if other = key then some payload else none
  | _ => none

end Observation

/-- The payload that was decoded last under a key. -/
def lastDecoded (key : String) (history : List Observation) : Option Json :=
  (history.filterMap (Observation.decodedUnder? key)).getLast?

/-- The payload that is decoded from a reply. -/
def SendPlan.decoded? (plan : SendPlan) : SendState → SendEvent → Option Json
  | .inFlight _, .reply (.ok response) => (plan.decode response).toOption
  | _, _ => none

/-- The payload that is decoded from a reply, with the key of the fetch. -/
def Fetching.decoded? (fetching : Fetching) (event : SendEvent) : Option (String × Json) :=
  fetching.key.bind fun key =>
    (fetching.plan.decoded? fetching.state event).map fun payload => (key, payload)

namespace SourceFetch

/-- What is observed when a fetch has come to a state: how it has ended, if it has. -/
def returns (number : Nat) (fetch : SourceFetch) : List Observation :=
  match fetch.fetching.state, fetch.result? with
  | .done result, some answer => [.returned number result answer]
  | _, _ => []

/-- What is observed when a fetch starts. -/
def observedAtStart (number : Nat) (fetch : SourceFetch) : List Observation :=
  (fetch.fetching.plan.sendsAtStart fetch.fetching.state).map (.sent number) ++
    fetch.returns number

/-- What is observed when an event leads from one fetch to the next. -/
def observed (number : Nat) (fetch : SourceFetch) (event : SendEvent) (next : SourceFetch) :
    List Observation :=
  (fetch.fetching.plan.sends fetch.fetching.state next.fetching.state).map (.sent number) ++
    (fetch.fetching.decoded? event).toList.map
        (fun (key, payload) => .decoded number key payload) ++
      next.returns number

end SourceFetch

/-! ### Runs -/

/-- An adapter, the fetches through it, and what was observed of them. -/
structure LiveAdapter where
  adapter : RequestAdapter
  fetches : List SourceFetch
  history : List Observation

namespace LiveAdapter

/-- An adapter that was just made, with a cache. -/
def new (retry : RetrySettings) (timeout capacity ttl : Nat) : LiveAdapter :=
  ⟨⟨retry, timeout, CacheSettings.newCache ⟨true, capacity, ttl⟩⟩, [], []⟩

/-- A fetch starts. -/
def start (live : LiveAdapter) (source : DataSource) (context : FetchContext) (cacheBust : Nat)
    (now : Int) : LiveAdapter :=
  let (fetch, adapter) := live.adapter.startFetch source context cacheBust now
  ⟨adapter, live.fetches ++ [fetch],
    live.history ++ fetch.observedAtStart live.fetches.length⟩

/-- An event happens to a fetch. One that has ended, or never started, is left alone. -/
def happen (live : LiveAdapter) (number : Nat) (event : SendEvent) (now : Int) : LiveAdapter :=
  match live.fetches[number]? with
  | some fetch =>
    if fetch.result?.isSome then live
    else
      let (fetching, adapter) := live.adapter.advance fetch.fetching event now
      let next := { fetch with fetching := fetching }
      ⟨adapter, live.fetches.set number next, live.history ++ fetch.observed number event next⟩
  | none => live

/-- Lets one thing happen. -/
def act (live : LiveAdapter) : AdapterInput → LiveAdapter
  | .start source context cacheBust now => live.start source context cacheBust now
  | .happen number event now => live.happen number event now
  | .invalidateAll => { live with adapter := live.adapter.invalidateAll }

/-- Lets one thing happen after the other. -/
def replay (live : LiveAdapter) (inputs : List AdapterInput) : LiveAdapter :=
  inputs.foldl act live

end LiveAdapter

/-! ### What one event does to a fetch -/

namespace SendPlan

variable {plan : SendPlan} {payload : Json}

/-- An attempt ends a fetch well exactly if it has a payload. -/
theorem afterAttempt_eq_ok_iff {attempt : Nat} {result : FetchResult} :
    plan.afterAttempt attempt result = .done (.ok payload) ↔ result = .ok payload := by
  cases result with
  | ok found => simp [afterAttempt]
  | error error =>
    rw [afterAttempt]
    split <;> simp

/-- Sending ends with a payload exactly when this is decoded from a reply. -/
theorem decoded?_eq_some_iff {state : SendState} {event : SendEvent}
    (hactive : ∀ result, state ≠ .done result) :
    plan.decoded? state event = some payload ↔ plan.step state event = .done (.ok payload) := by
  cases state with
  | done result => exact absurd rfl (hactive result)
  | pausing attempt => cases event <;> simp [decoded?, step]
  | inFlight attempt =>
    cases event with
    | reply outcome =>
      rw [step, afterAttempt_eq_ok_iff]
      cases outcome with
      | error error => simp [decoded?, Except.bind]
      | ok response =>
        rw [decoded?, Except.bind]
        cases plan.decode response <;> simp [Except.toOption]
    | deadline =>
      rw [step, afterAttempt_eq_ok_iff]
      simp [decoded?]
    | _ => simp [decoded?, step]

end SendPlan

/-- Only a fetch that has not ended decodes anything. -/
theorem Fetching.active_of_decoded? {fetching : Fetching} {event : SendEvent}
    {found : String × Json} (h : fetching.decoded? event = some found) :
    ∀ result, fetching.state ≠ .done result := by
  intro result hstate
  simp [decoded?, hstate, SendPlan.decoded?] at h

/-- What an event decodes is the payload with which it ends the fetch. -/
theorem Fetching.decoded?_eq_some_iff {fetching : Fetching} {event : SendEvent} {key : String}
    {payload : Json} (hactive : ∀ result, fetching.state ≠ .done result) :
    fetching.decoded? event = some (key, payload) ↔
      fetching.key = some key ∧
        fetching.plan.step fetching.state event = .done (.ok payload) := by
  rw [← SendPlan.decoded?_eq_some_iff hactive]
  simp only [Fetching.decoded?, Option.bind_eq_some_iff, Option.map_eq_some_iff, Prod.mk.injEq]
  constructor
  · rintro ⟨_, hkey, _, hpayload, rfl, rfl⟩
    exact ⟨hkey, hpayload⟩
  · rintro ⟨hkey, hpayload⟩
    exact ⟨key, hkey, payload, hpayload, rfl, rfl⟩

namespace RequestAdapter

variable {adapter : RequestAdapter} {fetching : Fetching} {event : SendEvent} {now : Int}

/-- A payload that is decoded is put into the cache, and nothing else is. -/
theorem keepPayload_step (hactive : ∀ result, fetching.state ≠ .done result) :
    adapter.keepPayload fetching.key (fetching.plan.step fetching.state event) now =
      (fetching.decoded? event).elim adapter fun (key, payload) =>
        adapter.store key payload now := by
  cases hdecoded : fetching.decoded? event with
  | some found =>
    obtain ⟨hkey, hstep⟩ := (Fetching.decoded?_eq_some_iff hactive).1 hdecoded
    rw [hkey, hstep]
    rfl
  | none =>
    unfold keepPayload
    split
    · next payload key hstep hkey =>
      rw [(Fetching.decoded?_eq_some_iff hactive).2 ⟨hkey, hstep⟩] at hdecoded
      cases hdecoded
    · rfl

end RequestAdapter

/-! ### What is observed -/

namespace SourceFetch

variable {number : Nat} {fetch next : SourceFetch} {event : SendEvent} {observation : Observation}

/-- A fetch has a result exactly if it has ended. -/
theorem isSome_result?_iff :
    fetch.result?.isSome = true ↔ ∃ result, fetch.fetching.state = .done result := by
  unfold result?
  cases fetch.fetching.state <;> simp

/-- What is seen of a fetch that has ended is its answer. -/
theorem mem_returns : observation ∈ fetch.returns number ↔ ∃ result,
    fetch.fetching.state = .done result ∧
      observation = .returned number result (result.map (applyFieldMap fetch.fieldMap)) := by
  unfold returns result?
  cases fetch.fetching.state <;> simp

/-- At its start a fetch sends its request, or returns. -/
theorem mem_observedAtStart : observation ∈ fetch.observedAtStart number ↔
    (∃ attempt, fetch.fetching.state = .inFlight attempt) ∧
        observation = .sent number fetch.fetching.plan.request ∨
      observation ∈ fetch.returns number := by
  rw [observedAtStart, List.mem_append]
  refine or_congr_left ?_
  cases fetch.fetching.state <;> simp [SendPlan.sendsAtStart]

/-- With an event a fetch may send its request again, decode a payload, and return. -/
theorem mem_observed : observation ∈ fetch.observed number event next ↔
    (∃ request ∈ fetch.fetching.plan.sends fetch.fetching.state next.fetching.state,
        observation = .sent number request) ∨
      (∃ key payload, fetch.fetching.decoded? event = some (key, payload) ∧
        observation = .decoded number key payload) ∨
      observation ∈ next.returns number := by
  simp only [observed, List.mem_append, List.mem_map, Option.mem_toList, Prod.exists, or_assoc,
    @eq_comm _ _ observation]

theorem number_of_mem_observedAtStart (h : observation ∈ fetch.observedAtStart number) :
    observation.number = number := by
  rcases mem_observedAtStart.1 h with ⟨-, rfl⟩ | h
  · rfl
  · obtain ⟨result, -, rfl⟩ := mem_returns.1 h
    rfl

theorem number_of_mem_observed (h : observation ∈ fetch.observed number event next) :
    observation.number = number := by
  rcases mem_observed.1 h with ⟨request, -, rfl⟩ | ⟨key, payload, -, rfl⟩ | h
  · rfl
  · rfl
  · obtain ⟨result, -, rfl⟩ := mem_returns.1 h
    rfl

end SourceFetch

/-- All requests that a fetch sends are alike. -/
theorem SendPlan.eq_of_mem_sends {plan : SendPlan} {state next : SendState} {request : HttpRequest}
    (h : request ∈ plan.sends state next) : request = plan.request := by
  unfold sends at h
  split at h
  · exact List.mem_singleton.1 h
  · cases h

/-! ### What one input does -/

/-- A fetch after an event. -/
def SourceFetch.after (fetch : SourceFetch) (event : SendEvent) : SourceFetch :=
  { fetch with
    fetching :=
      { fetch.fetching with state := fetch.fetching.plan.step fetch.fetching.state event } }

/-- A fetch that went on from another one: only its state may differ. -/
structure SourceFetch.Continues (fetch next : SourceFetch) : Prop where
  plan : next.fetching.plan = fetch.fetching.plan
  key : next.fetching.key = fetch.fetching.key
  fieldMap : next.fieldMap = fetch.fieldMap

theorem SourceFetch.Continues.trans {fetch next last : SourceFetch} (h : fetch.Continues next)
    (hnext : next.Continues last) : fetch.Continues last :=
  ⟨hnext.plan.trans h.plan, hnext.key.trans h.key, hnext.fieldMap.trans h.fieldMap⟩

namespace LiveAdapter

variable {live : LiveAdapter} {number : Nat} {fetch : SourceFetch}

/-- What an event does to a fetch that has not ended. -/
theorem happen_eq (hfetch : live.fetches[number]? = some fetch)
    (hactive : ∀ result, fetch.fetching.state ≠ .done result) (event : SendEvent) (now : Int) :
    live.happen number event now =
      ⟨live.adapter.keepPayload fetch.fetching.key (fetch.after event).fetching.state now,
        live.fetches.set number (fetch.after event),
        live.history ++ fetch.observed number event (fetch.after event)⟩ := by
  have hactive' : ¬ fetch.result?.isSome = true := by
    rw [SourceFetch.isSome_result?_iff, not_exists]
    exact hactive
  simp only [happen, hfetch, hactive', RequestAdapter.advance_eq _ hactive]
  rfl

/-- An event changes nothing, or it happens to a fetch that has not ended. -/
theorem happen_cases (live : LiveAdapter) (number : Nat) (event : SendEvent) (now : Int) :
    live.happen number event now = live ∨
      ∃ fetch, live.fetches[number]? = some fetch ∧
        (∀ result, fetch.fetching.state ≠ .done result) ∧
        live.happen number event now =
          ⟨live.adapter.keepPayload fetch.fetching.key (fetch.after event).fetching.state now,
            live.fetches.set number (fetch.after event),
            live.history ++ fetch.observed number event (fetch.after event)⟩ := by
  cases hfetch : live.fetches[number]? with
  | none => exact .inl (by simp only [happen, hfetch])
  | some fetch =>
    by_cases hended : ∃ result, fetch.fetching.state = .done result
    · exact .inl (by simp only [happen, hfetch, SourceFetch.isSome_result?_iff.2 hended, if_true])
    · have hactive := not_exists.1 hended
      exact .inr ⟨fetch, rfl, hactive, happen_eq hfetch hactive event now⟩

/-- Fetches go on from what they were. -/
theorem act_continues (input : AdapterInput) (h : live.fetches[number]? = some fetch) :
    ∃ next, (live.act input).fetches[number]? = some next ∧ fetch.Continues next := by
  cases input with
  | start source context cacheBust now =>
    exact ⟨fetch, (List.getElem?_append_left (List.getElem?_eq_some_iff.1 h).1).trans h,
      rfl, rfl, rfl⟩
  | invalidateAll => exact ⟨fetch, h, rfl, rfl, rfl⟩
  | happen other event now =>
    rcases live.happen_cases other event now with hsame | ⟨found, hfound, -, hnext⟩
    · exact ⟨fetch, (congrArg (·.fetches[number]?) hsame).trans h, rfl, rfl, rfl⟩
    · simp only [act, hnext]
      by_cases heq : other = number
      · subst heq
        obtain rfl := Option.some.inj (h.symm.trans hfound)
        exact ⟨_, List.getElem?_set_self (List.getElem?_eq_some_iff.1 h).1, rfl, rfl, rfl⟩
      · exact ⟨fetch, (List.getElem?_set_ne heq).trans h, rfl, rfl, rfl⟩

/-- The history only grows. -/
theorem history_act (live : LiveAdapter) (input : AdapterInput) :
    live.history <+: (live.act input).history := by
  cases input with
  | start source context cacheBust now => exact List.prefix_append _ _
  | invalidateAll => exact List.prefix_refl _
  | happen number event now =>
    rcases live.happen_cases number event now with hsame | ⟨found, -, -, hnext⟩
    · exact ⟨[], by rw [act, hsame, List.append_nil]⟩
    · rw [act, hnext]
      exact List.prefix_append _ _

/-- Nothing is observed any more of a fetch that has ended. -/
theorem act_ended (input : AdapterInput) {result : FetchResult}
    (h : live.fetches[number]? = some fetch) (hended : fetch.fetching.state = .done result) :
    (live.act input).fetches[number]? = some fetch ∧
      ∀ observation ∈ (live.act input).history, observation.number = number →
        observation ∈ live.history := by
  have hlt : number < live.fetches.length := (List.getElem?_eq_some_iff.1 h).1
  cases input with
  | start source context cacheBust now =>
    refine ⟨(List.getElem?_append_left hlt).trans h, fun observation hmem hnumber => ?_⟩
    refine (List.mem_append.1 hmem).resolve_right fun hnew => ?_
    have := SourceFetch.number_of_mem_observedAtStart hnew
    omega
  | invalidateAll => exact ⟨h, fun observation hmem _ => hmem⟩
  | happen other event now =>
    rcases live.happen_cases other event now with hsame | ⟨found, hfound, hactive, hnext⟩
    · rw [act, hsame]
      exact ⟨h, fun observation hmem _ => hmem⟩
    · have hne : other ≠ number := by
        rintro rfl
        obtain rfl := Option.some.inj (h.symm.trans hfound)
        exact hactive result hended
      simp only [act, hnext]
      refine ⟨(List.getElem?_set_ne hne).trans h, fun observation hmem hnumber => ?_⟩
      refine (List.mem_append.1 hmem).resolve_right fun hnew => ?_
      exact hne ((SourceFetch.number_of_mem_observed hnew).symm.trans hnumber)

/-- What every input preserves is preserved by every run. -/
theorem replay_preserves {motive : LiveAdapter → Prop}
    (hact : ∀ live input, motive live → motive (live.act input)) (inputs : List AdapterInput)
    (h : motive live) : motive (live.replay inputs) := by
  induction inputs generalizing live with
  | nil => exact h
  | cons input inputs ih => exact ih (hact live input h)

/-- Fetches go on from what they were, all along a run. -/
theorem replay_continues (inputs : List AdapterInput) (h : live.fetches[number]? = some fetch) :
    ∃ next, (live.replay inputs).fetches[number]? = some next ∧ fetch.Continues next := by
  refine replay_preserves (motive := fun later =>
    ∃ next, later.fetches[number]? = some next ∧ fetch.Continues next)
    (fun later input => ?_) inputs ⟨fetch, h, rfl, rfl, rfl⟩
  rintro ⟨next, hnext, hcontinues⟩
  obtain ⟨last, hlast, hcontinues'⟩ := act_continues input hnext
  exact ⟨last, hlast, hcontinues.trans hcontinues'⟩

/-- The history of a run only grows. -/
theorem history_replay (live : LiveAdapter) (inputs : List AdapterInput) :
    live.history <+: (live.replay inputs).history :=
  replay_preserves (motive := fun later => live.history <+: later.history)
    (fun later input h => h.trans (later.history_act input)) inputs (List.prefix_refl _)

theorem replay_ended (inputs : List AdapterInput) {result : FetchResult}
    (h : live.fetches[number]? = some fetch) (hended : fetch.fetching.state = .done result) :
    ∀ observation ∈ (live.replay inputs).history, observation.number = number →
      observation ∈ live.history := by
  refine (replay_preserves (motive := fun later => later.fetches[number]? = some fetch ∧
    ∀ observation ∈ later.history, observation.number = number → observation ∈ live.history)
    (fun later input hlater => ?_) inputs ⟨h, fun _ hmem _ => hmem⟩).2
  obtain ⟨hfetch, hseen⟩ := act_ended input hlater.1 hended
  exact ⟨hfetch, fun observation hmem hnumber =>
    hlater.2 observation (hseen observation hmem hnumber) hnumber⟩

end LiveAdapter

/-! ### Observations fit their fetches -/

/-- Whether an observation is one of a fetch. What the fetch returned was decoded, unless the fetch
has no key: then it was answered by the cache. -/
def Observation.Fits (history : List Observation) (fetch : SourceFetch) : Observation → Prop
  | sent _ request => request = fetch.fetching.plan.request
  | decoded number key payload =>
    fetch.fetching.key = some key ∧ ∃ answer, .returned number (.ok payload) answer ∈ history
  | returned number result answer =>
    answer = result.map (applyFieldMap fetch.fieldMap) ∧
      ∀ payload key, result = .ok payload → fetch.fetching.key = some key →
        .decoded number key payload ∈ history

/-- What fits a fetch fits it later. -/
theorem Observation.Fits.next {history later : List Observation} {fetch next : SourceFetch}
    {observation : Observation} (h : observation.Fits history fetch)
    (hhistory : history <+: later) (hcontinues : fetch.Continues next) :
    observation.Fits later next := by
  cases observation with
  | sent number request => exact h.trans (congrArg _ hcontinues.plan.symm)
  | decoded number key payload =>
    obtain ⟨hkey, answer, hanswer⟩ := h
    exact ⟨hcontinues.key.trans hkey, answer, hhistory.subset hanswer⟩
  | returned number result answer =>
    refine ⟨hcontinues.fieldMap ▸ h.1, fun payload key hresult hkey => ?_⟩
    exact hhistory.subset (h.2 payload key hresult (hcontinues.key.symm.trans hkey))

/-- Every observation is one of a fetch. -/
def LiveAdapter.Faithful (live : LiveAdapter) : Prop :=
  ∀ observation ∈ live.history, ∃ fetch,
    live.fetches[observation.number]? = some fetch ∧ observation.Fits live.history fetch

/-- A payload at the start of a fetch is one from the cache: it is not put there again. -/
theorem RequestAdapter.key_of_startFetch {adapter : RequestAdapter} {source : DataSource}
    {context : FetchContext} {cacheBust : Nat} {now : Int} {payload : Json}
    (h : (adapter.startFetch source context cacheBust now).1.fetching.state = .done (.ok payload)) :
    (adapter.startFetch source context cacheBust now).1.fetching.key = none := by
  cases source with
  | query source => rfl
  | stream source => rfl
  | request source =>
    cases hlook : (adapter.look
        (source.fingerprint (fillUrl context.props source.url) cacheBust) now).1 with
    | some payload => simp only [startFetch, start_of_hit hlook]
    | none =>
      simp only [startFetch, start_of_miss hlook] at h
      split at h <;> cases h

namespace SourceFetch

variable {number : Nat} {fetch : SourceFetch} {event : SendEvent} {observation : Observation}
  (history : List Observation)

/-- What is observed at the start of a fetch. -/
theorem fits_observedAtStart
    (hkey : ∀ payload, fetch.fetching.state = .done (.ok payload) → fetch.fetching.key = none)
    (hmem : observation ∈ fetch.observedAtStart number) : observation.Fits history fetch := by
  rcases mem_observedAtStart.1 hmem with ⟨-, rfl⟩ | hreturned
  · rfl
  · obtain ⟨result, hstate, rfl⟩ := mem_returns.1 hreturned
    refine ⟨rfl, fun payload key hresult hsome => ?_⟩
    rw [hkey payload (hresult ▸ hstate)] at hsome
    cases hsome

/-- What is observed when an event happens to a fetch. -/
theorem fits_observed (hactive : ∀ result, fetch.fetching.state ≠ .done result)
    (hmem : observation ∈ fetch.observed number event (fetch.after event)) :
    observation.Fits (history ++ fetch.observed number event (fetch.after event))
      (fetch.after event) := by
  rcases mem_observed.1 hmem with
    ⟨request, hrequest, rfl⟩ | ⟨key, payload, hdecoded, rfl⟩ | hreturned
  · exact SendPlan.eq_of_mem_sends hrequest
  · obtain ⟨hkey, hstep⟩ := (Fetching.decoded?_eq_some_iff hactive).1 hdecoded
    have hreturned : .returned number (.ok payload) _ ∈ (fetch.after event).returns number :=
      mem_returns.2 ⟨.ok payload, hstep, rfl⟩
    exact ⟨hkey, _, List.mem_append_right _ (mem_observed.2 (.inr (.inr hreturned)))⟩
  · obtain ⟨result, hstate, rfl⟩ := mem_returns.1 hreturned
    refine ⟨rfl, fun payload key hresult hkey => ?_⟩
    have hdecoded : fetch.fetching.decoded? event = some (key, payload) :=
      (Fetching.decoded?_eq_some_iff hactive).2 ⟨hkey, hresult ▸ hstate⟩
    exact List.mem_append_right _ (mem_observed.2 (.inr (.inl ⟨key, payload, hdecoded, rfl⟩)))

end SourceFetch

namespace LiveAdapter

variable {live : LiveAdapter}

theorem Faithful.act (h : live.Faithful) (input : AdapterInput) : (live.act input).Faithful := by
  intro observation hmem
  by_cases hold : observation ∈ live.history
  · obtain ⟨fetch, hfetch, hfits⟩ := h observation hold
    obtain ⟨next, hnext, hcontinues⟩ := act_continues input hfetch
    exact ⟨next, hnext, hfits.next (live.history_act input) hcontinues⟩
  -- the observation is new, and one of the fetch that the input is about
  cases input with
  | invalidateAll => exact absurd hmem hold
  | start source context cacheBust now =>
    have hnew := (List.mem_append.1 hmem).resolve_left hold
    refine ⟨(live.adapter.startFetch source context cacheBust now).1, ?_,
      SourceFetch.fits_observedAtStart _ (fun _ => RequestAdapter.key_of_startFetch) hnew⟩
    rw [SourceFetch.number_of_mem_observedAtStart hnew]
    exact List.getElem?_concat_length
  | happen number event now =>
    rcases live.happen_cases number event now with hsame | ⟨fetch, hfetch, hactive, hnext⟩
    · exact absurd (by rwa [LiveAdapter.act, hsame] at hmem) hold
    rw [LiveAdapter.act, hnext] at hmem ⊢
    have hnew := (List.mem_append.1 hmem).resolve_left hold
    refine ⟨fetch.after event, ?_, SourceFetch.fits_observed _ hactive hnew⟩
    rw [SourceFetch.number_of_mem_observed hnew]
    exact List.getElem?_set_self (List.getElem?_eq_some_iff.1 hfetch).1

/-- What is observed of a fetch fits it. -/
theorem Faithful.fits {number : Nat} {fetch : SourceFetch} {observation : Observation}
    (h : live.Faithful) (hfetch : live.fetches[number]? = some fetch)
    (hmem : observation ∈ live.history) (hnumber : observation.number = number) :
    observation.Fits live.history fetch := by
  subst hnumber
  obtain ⟨fetch', hfetch', hfits⟩ := h observation hmem
  obtain rfl := Option.some.inj (hfetch.symm.trans hfetch')
  exact hfits

/-- **Every observation of a run fits its fetch.** -/
theorem Faithful.replay (h : live.Faithful) (inputs : List AdapterInput) :
    (live.replay inputs).Faithful :=
  replay_preserves (fun _ input h => h.act input) inputs h

end LiveAdapter

end ChartSchema
