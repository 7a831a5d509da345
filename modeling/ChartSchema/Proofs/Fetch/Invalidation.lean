import ChartSchema.Proofs.Fetch.Origins

/-!
# Emptying the cache while fetches are under way

What was decoded before the cache is emptied is not returned by fetches that start afterwards. Still
a call may be in flight when the cache is emptied, and its reply is put into the cache when it
arrives. So fetches may be answered by replies to calls that were sent before, and
`LiveAdapter.invalidation_lasts_iff` says when: exactly if a call under their key is in flight at
the moment at which the cache is emptied.

The part of a run behind that moment is looked at as a run of its own, which starts with the fetches
that are under way and with nothing observed (`LiveAdapter.emptied`). What happened before only
stands in front of its history (`replay_prepend`), so that whatever is decoded last in the later
part was decoded since. A payload from there was decoded from the reply to a call that was sent
since, or to one that was in flight; the fetches that were called under a key are followed by
`LiveAdapter.Called`.

Conversely, if a call is in flight it can be answered next, and a fetch that starts then finds its
payload. This needs an adapter with a cache and room in it, and every cache has room for one entry.
Without a cache every fetch sends a call of its own, and both sides of the equivalence are true.
-/

namespace ChartSchema

/-- Whether the payload that was decoded last under a key was decoded after the earlier
observations of a history. -/
def DecodedSince (earlier history : List Observation) (key : String) (payload : Json) : Prop :=
  ∃ number decoding, DecodedLast key number payload decoding history ∧ earlier <+: decoding

/-- Whether the payload that was decoded last under a key was decoded from the reply to a call that
was sent after the earlier observations of a history. -/
def RepliedSince (earlier history : List Observation) (key : String) (payload : Json) : Prop :=
  ∃ number decoding sending, DecodedLast key number payload decoding history ∧
    SentLast number sending decoding ∧ earlier <+: sending

namespace LiveAdapter

/-- An adapter that was just made, with a cache or without one. -/
def ofSettings (retry : RetrySettings) (timeout : Nat) (settings : CacheSettings) : LiveAdapter :=
  ⟨⟨retry, timeout, settings.newCache⟩, [], []⟩

/-! ### Histories that start late -/

/-- An adapter whose history starts with earlier observations. -/
def prepend (earlier : List Observation) (live : LiveAdapter) : LiveAdapter :=
  { live with history := earlier ++ live.history }

variable {live : LiveAdapter} {earlier : List Observation}

/-- What an input does does not depend on what was observed earlier. -/
theorem act_prepend (live : LiveAdapter) (input : AdapterInput) :
    (live.prepend earlier).act input = (live.act input).prepend earlier := by
  cases input with
  | invalidateAll => rfl
  | start source context cacheBust now =>
    simp only [act, start, prepend, List.append_assoc]
  | happen number event now =>
    simp only [act, happen, prepend]
    cases live.fetches[number]? with
    | none => rfl
    | some fetch =>
      by_cases hended : fetch.result?.isSome = true
      · simp only [hended, if_true]
      · simp only [hended, if_false, List.append_assoc, Bool.false_eq_true]

/-- What happened before a run stands in front of its history and changes nothing in it. -/
theorem replay_prepend (live : LiveAdapter) (inputs : List AdapterInput) :
    (live.prepend earlier).replay inputs = (live.replay inputs).prepend earlier := by
  induction inputs generalizing live with
  | nil => rfl
  | cons input inputs ih =>
    rw [replay, List.foldl_cons, act_prepend]
    exact ih (live.act input)

/-- An adapter right after its cache was emptied, with nothing observed yet. -/
def emptied (live : LiveAdapter) : LiveAdapter :=
  ⟨live.adapter.invalidateAll, live.fetches, []⟩

/-- Emptying the cache starts a run of its own. -/
theorem act_invalidateAll (live : LiveAdapter) :
    live.act .invalidateAll = live.emptied.prepend live.history := by
  rw [prepend, emptied, List.append_nil]
  rfl

/-- An emptied cache holds nothing that was decoded before. -/
theorem traced_emptied (live : LiveAdapter) :
    live.emptied.Traced (live.fetches.map fun fetch => fetch.fetching.key) := by
  refine traced_of_nil (RequestAdapter.current_of_entries_nil fun cache hcache => ?_)
    (List.length_map _) fun number fetch hfetch => ?_
  · obtain ⟨held, -, rfl⟩ := Option.map_eq_some_iff.1 hcache
    rfl
  · rw [List.getElem?_map, hfetch]
    rfl

/-! ### Calls and their replies -/

/-- Whether all that a fetch decodes under a key is decoded from the reply to a call in the
history. -/
structure Called (live : LiveAdapter) (key : String) (number : Nat) : Prop where
  inFlight : ∀ (fetch : SourceFetch) attempt, live.fetches[number]? = some fetch →
    fetch.fetching.key = some key → fetch.fetching.state = .inFlight attempt →
      ∃ request, .sent number request ∈ live.history
  decoded : ∀ before since payload,
    live.history = before ++ .decoded number key payload :: since →
      ∃ request, .sent number request ∈ before

end LiveAdapter

/-- A fetch decodes only while a call is in flight. -/
theorem Fetching.inFlight_of_decoded? {fetching : Fetching} {event : SendEvent}
    {found : String × Json} (h : fetching.decoded? event = some found) :
    ∃ attempt, fetching.state = .inFlight attempt := by
  cases hstate : fetching.state with
  | inFlight attempt => exact ⟨attempt, rfl⟩
  | pausing attempt => simp [decoded?, SendPlan.decoded?, hstate] at h
  | done result => simp [decoded?, SendPlan.decoded?, hstate] at h

/-- A call that is in flight after an event was in flight before, or has just been sent. -/
theorem SendPlan.inFlight_of_step {plan : SendPlan} {state : SendState} {event : SendEvent}
    {attempt : Nat} (h : plan.step state event = .inFlight attempt) :
    state = .inFlight attempt ∨
      plan.sends state (.inFlight attempt) = [plan.request] := by
  have hafter (attempt' : Nat) (result : FetchResult) :
      plan.afterAttempt attempt' result ≠ .inFlight attempt := by
    unfold afterAttempt
    split
    · exact SendState.noConfusion
    · split <;> exact SendState.noConfusion
  cases state with
  | done result =>
    cases event <;> cases h
  | pausing attempt' => exact .inr rfl
  | inFlight attempt' =>
    cases event with
    | reply outcome => exact absurd h (hafter attempt' _)
    | deadline => exact absurd h (hafter attempt' (.error (.timeout plan.timeout)))
    | pauseOver => exact .inl h
    | cancel => cases h

theorem RequestAdapter.look_of_uncached {adapter : RequestAdapter} {key : String} {now : Int}
    (h : adapter.cache = none) : (adapter.look key now).1 = none := by
  rw [look, h]

namespace LiveAdapter

variable {live : LiveAdapter} {key : String} {number : Nat}

theorem Called.begin (h : live.Called key number) (adapter : RequestAdapter)
    (fetch : SourceFetch) :
    Called ⟨adapter, live.fetches ++ [fetch],
      live.history ++ fetch.observedAtStart live.fetches.length⟩ key number := by
  refine ⟨fun other attempt hother hkey hstate => ?_, fun before since payload heq => ?_⟩
  · rcases getElem?_concat_cases hother with hold | ⟨rfl, rfl⟩
    · obtain ⟨request, hsent⟩ := h.inFlight other attempt hold hkey hstate
      exact ⟨request, List.mem_append_left _ hsent⟩
    · exact ⟨_, List.mem_append_right _
        (SourceFetch.mem_observedAtStart.2 (.inl ⟨⟨attempt, hstate⟩, rfl⟩))⟩
  · rcases append_eq_append_cons heq with ⟨rest, hold⟩ | ⟨seen, rfl, hnew⟩
    · exact h.decoded before rest payload hold
    · exact absurd (mem_of_eq_append_cons hnew) SourceFetch.decoded_notMem_observedAtStart

/-- An event changes no key and no plan. -/
theorem Called.happen (h : live.Called key number) (other : Nat) (event : SendEvent) (now : Int) :
    (live.happen other event now).Called key number := by
  rcases live.happen_cases other event now with hsame | ⟨fetch, hfetch, hactive, hnext⟩
  · rw [hsame]
    exact h
  rw [hnext]
  refine ⟨fun next attempt hnumber hkey hstate => ?_, fun before since payload heq => ?_⟩
  · by_cases hsame : other = number
    · subst hsame
      have hlt : other < live.fetches.length := (List.getElem?_eq_some_iff.1 hfetch).1
      obtain rfl := Option.some.inj ((List.getElem?_set_self hlt).symm.trans hnumber)
      rcases SendPlan.inFlight_of_step hstate with hold | hsends
      · obtain ⟨request, hsent⟩ := h.inFlight fetch attempt hfetch hkey hold
        exact ⟨request, List.mem_append_left _ hsent⟩
      · refine ⟨fetch.fetching.plan.request, List.mem_append_right _
          (SourceFetch.mem_observed.2 (.inl ⟨_, ?_, rfl⟩))⟩
        rw [hstate, hsends]
        exact List.mem_singleton_self _
    · rw [List.getElem?_set_ne hsame] at hnumber
      obtain ⟨request, hsent⟩ := h.inFlight next attempt hnumber hkey hstate
      exact ⟨request, List.mem_append_left _ hsent⟩
  · rcases append_eq_append_cons heq with ⟨rest, hold⟩ | ⟨seen, rfl, hnew⟩
    · exact h.decoded before rest payload hold
    · -- the reply is to a call in flight, and this was sent
      have hmem := mem_of_eq_append_cons hnew
      obtain rfl : number = other := SourceFetch.number_of_mem_observed hmem
      have hdecoded := SourceFetch.decoded?_of_mem_observed hmem
      obtain ⟨attempt, hstate⟩ := Fetching.inFlight_of_decoded? hdecoded
      have hkey := ((Fetching.decoded?_eq_some_iff hactive).1 hdecoded).1
      obtain ⟨request, hsent⟩ := h.inFlight fetch attempt hfetch hkey hstate
      exact ⟨request, List.mem_append_left _ hsent⟩

theorem Called.act (h : live.Called key number) (input : AdapterInput) :
    (live.act input).Called key number := by
  cases input with
  | start source context cacheBust now => exact h.begin _ _
  | happen other event now => exact h.happen other event now
  | invalidateAll => exact ⟨h.inFlight, h.decoded⟩

/-- What a fetch has decoded last under the key comes from the reply to a call before that. -/
theorem Called.sent_of_decodedLast (h : live.Called key number) {payload : Json}
    {decoding seen : List Observation} (hseen : seen <+: live.history)
    (hdecoded : DecodedLast key number payload decoding seen) :
    ∃ request, .sent number request ∈ decoding := by
  obtain ⟨-, rest, rfl, -⟩ := hdecoded
  obtain ⟨unseen, hunseen⟩ := hseen
  rw [List.append_assoc, List.cons_append] at hunseen
  exact h.decoded decoding (rest ++ unseen) payload hunseen.symm

/-- The key under which a fetch was called is its key for good. -/
theorem Called.replay (h : live.Called key number) (inputs : List AdapterInput) :
    (live.replay inputs).Called key number :=
  replay_preserves (motive := fun live => live.Called key number)
    (fun _ input h => h.act input) inputs h

/-- All that a fetch decodes later is decoded from replies to later calls, if it has no call in
flight under the key. -/
theorem called_emptied (hidle : ∀ fetch, live.fetches[number]? = some fetch →
    fetch.fetching.key = some key → ∀ attempt, fetch.fetching.state ≠ .inFlight attempt) :
    live.emptied.Called key number := by
  refine ⟨fun fetch attempt hfetch hkey hstate => ?_, fun before since payload heq => ?_⟩
  · exact absurd hstate (hidle fetch hfetch hkey attempt)
  · exact absurd heq.symm (List.append_ne_nil_of_right_ne_nil _ (List.cons_ne_nil _ _))

/-! ### Fetches that start later -/

/-- An adapter without a cache never gets one. -/
theorem uncached_replay (h : live.adapter.cache = none) (inputs : List AdapterInput) :
    (live.replay inputs).adapter.cache = none := by
  refine replay_preserves (motive := fun live => live.adapter.cache = none)
    (fun live input h => ?_) inputs h
  rw [← Option.not_isSome_iff_eq_none, live.isSome_cache_act input, h]
  exact Bool.false_ne_true

theorem length_le_replay_emptied (live : LiveAdapter) (inputs : List AdapterInput) :
    live.fetches.length ≤ (live.emptied.replay inputs).fetches.length := by
  rw [← (live.traced_emptied.replay inputs).length, List.length_append, List.length_map]
  exact Nat.le_add_right _ _

section

variable {source : RequestSource} {context : FetchContext} {cacheBust : Nat} {now : Int}
  {between later : List AdapterInput} {before since : List Observation} {payload : Json}
  {answer : FetchResult}

/-- What is observed before a fetch returns a payload that starts after the cache was emptied. -/
theorem exists_since
    (hstarted : ∀ observation ∈ live.history, observation.number < live.fetches.length)
    (hreturned : ((((live.act .invalidateAll).replay between).act
        (.start (.request source) context cacheBust now)).replay later).history =
      before ++ .returned ((live.act .invalidateAll).replay between).fetches.length (.ok payload)
        answer :: since) :
    ∃ seen, before = live.history ++ seen ∧
      (((live.emptied.replay between).act
        (.start (.request source) context cacheBust now)).replay later).history =
          seen ++ .returned (live.emptied.replay between).fetches.length (.ok payload) answer ::
            since := by
  rw [act_invalidateAll, replay_prepend, act_prepend, replay_prepend] at hreturned
  rcases append_eq_append_cons hreturned with ⟨rest, hold⟩ | ⟨seen, rfl, hnew⟩
  · -- the fetch started after everything that was observed before
    have hlt : (live.emptied.replay between).fetches.length < live.fetches.length :=
      hstarted _ (mem_of_eq_append_cons hold)
    have hlength := live.length_le_replay_emptied between
    omega
  · exact ⟨seen, rfl, hnew⟩

variable {seen : List Observation} (hreturned : (((live.emptied.replay between).act
    (.start (.request source) context cacheBust now)).replay later).history =
      seen ++ .returned (live.emptied.replay between).fetches.length (.ok payload) answer :: since)
  (hkey : source.fingerprint (fillUrl context.props source.url) cacheBust = key)

include hreturned hkey

/-- What is returned is what was decoded last since. -/
theorem lastDecoded_since : lastDecoded key seen = some payload := by
  have hbetween := live.traced_emptied.replay between
  refine ((hbetween.act (.start (.request source) context cacheBust now)).replay later).origin
    seen since _ key payload answer hreturned ?_
  rw [AdapterInput.keys, hkey, ← hbetween.length, List.append_assoc]
  simp

/-- Without a cache a fetch returns what it has decoded itself. -/
theorem decodedLast_of_uncached (hcache : live.adapter.cache = none) :
    ∃ decoding, DecodedLast key (live.emptied.replay between).fetches.length payload decoding
      seen := by
  have huncached : (live.emptied.replay between).adapter.cache = none :=
    uncached_replay (congrArg (Option.map TtlCache.clear) hcache) between
  obtain ⟨fetch, hfetch, hcontinues⟩ :=
    replay_continues later
      (@getElem?_start source context cacheBust now (live.emptied.replay between))
  have hfetchKey := hcontinues.key.trans
    (RequestAdapter.startFetch_key_of_miss hkey (RequestAdapter.look_of_uncached huncached))
  obtain ⟨decoding, rfl⟩ := (((live.traced_emptied.replay between).act
    (.start (.request source) context cacheBust now)).replay later).own
      seen since _ payload answer fetch key hreturned hfetch hfetchKey
  exact ⟨decoding, ⟨payload, by simp [Observation.decodedUnder?]⟩, [], rfl,
    fun later hmem => by cases hmem⟩

omit hreturned hkey

/-- What was decoded last in a part of the history was decoded since its start. -/
theorem decodedSince_of_lastDecoded {history : List Observation}
    (h : lastDecoded key seen = some payload) :
    DecodedSince history (history ++ seen) key payload := by
  obtain ⟨number, decoding, hdecoded⟩ := exists_decodedLast h
  exact ⟨number, history ++ decoding, hdecoded.append_left history, List.prefix_append _ _⟩

/-- What is decoded from replies to calls since is known to be so. -/
theorem repliedSince_of_called {history decoding : List Observation}
    (hseen : seen <+: live.history) (hdecoded : DecodedLast key number payload decoding seen)
    (hcalled : live.Called key number) : RepliedSince history (history ++ seen) key payload := by
  obtain ⟨request, hsent⟩ := hcalled.sent_of_decodedLast hseen hdecoded
  obtain ⟨sending, request', hsending⟩ := exists_sentLast hsent
  exact ⟨number, history ++ decoding, history ++ sending, hdecoded.append_left history,
    ⟨request', hsending.append_left history⟩, List.prefix_append _ _⟩

end

/-! ### Replies to earlier calls -/

/-- How a fetch reads responses that has a key: like every plain request. -/
theorem decode_of_key (retry : RetrySettings) (timeout : Nat) (settings : CacheSettings)
    (inputs : List AdapterInput) :
    ∀ fetch ∈ ((ofSettings retry timeout settings).replay inputs).fetches,
      ∀ key, fetch.fetching.key = some key →
        ∃ url, fetch.fetching.plan.decode = fun response => response.decode url := by
  refine replay_preserves (motive := fun live => ∀ fetch ∈ live.fetches, ∀ key,
    fetch.fetching.key = some key → ∃ url, fetch.fetching.plan.decode = fun response =>
      response.decode url) (fun live input h => ?_) inputs (fun fetch hmem => by cases hmem)
  cases input with
  | invalidateAll => exact h
  | start source context cacheBust now =>
    intro fetch hmem key hkey
    rcases List.mem_append.1 hmem with hold | hnew
    · exact h fetch hold key hkey
    · obtain rfl := List.mem_singleton.1 hnew
      cases source with
      | query source => cases hkey
      | stream source => cases hkey
      | request source =>
        exact ⟨fillUrl context.props source.url,
          congrArg SendPlan.decode RequestAdapter.startFetch_plan⟩
  | happen number event now =>
    intro fetch hmem key hkey
    rcases live.happen_cases number event now with hsame | ⟨found, hfound, -, hnext⟩
    · rw [act, hsame] at hmem
      exact h fetch hmem key hkey
    · rw [act, hnext] at hmem
      rcases List.mem_or_eq_of_mem_set hmem with hold | rfl
      · exact h fetch hold key hkey
      · exact h found (List.mem_of_getElem? hfound) key hkey

/-- A payload that was decoded right after some observations is no reply to a later call. -/
theorem not_repliedSince {earlier since : List Observation} {payload : Json}
    (hsince : ∀ observation ∈ since, observation.decodedUnder? key = none) :
    ¬ RepliedSince earlier (earlier ++ .decoded number key payload :: since) key payload := by
  rintro ⟨other, decoding, sending, hdecoded, ⟨request, -, rest, rfl, -⟩, hprefix⟩
  have hlast : DecodedLast key number payload earlier
      (earlier ++ .decoded number key payload :: since) := by
    refine ⟨⟨payload, by simp [Observation.decodedUnder?]⟩, since, rfl, ?_⟩
    rintro observation hmem ⟨found, hfound⟩
    rw [hsince observation hmem] at hfound
    cases hfound
  have hlength := hprefix.length_le
  rw [(hlast.unique hdecoded).1, List.length_append, List.length_cons] at hlength
  omega

section

variable {ttl attempt : Nat} {fetch : SourceFetch} {url : String} {source : RequestSource}
  {context : FetchContext} {cacheBust : Nat}
  (hcoherent : live.adapter.Coherent ttl live.history)
  (hfetch : live.fetches[number]? = some fetch) (hfetchKey : fetch.fetching.key = some key)
  (hstate : fetch.fetching.state = .inFlight attempt)
  (hdecode : fetch.fetching.plan.decode = fun response => response.decode url)
  (hkey : source.fingerprint (fillUrl context.props source.url) cacheBust = key)

include hcoherent hfetch hfetchKey hstate hdecode hkey

/-- When a reply to a call arrives, the next fetch under the same key returns what was decoded from
it. -/
theorem history_of_reply :
    let started := live.act (.happen number .null 0)
    started.history = live.history ++ [.decoded number key .null,
        .returned number (.ok .null) (.ok (applyFieldMap fetch.fieldMap .null))] ∧
      (started.act (.start (.request source) context cacheBust 0)).history =
        started.history ++ [.returned started.fetches.length (.ok .null)
          (.ok (applyFieldMap context.fieldMap .null))] := by
  intro started
  have hdecoded := Fetching.decoded?_null hfetchKey hstate hdecode
  have hactive := Fetching.active_of_decoded? hdecoded
  have hhistory : started.history =
      live.history ++ fetch.observed number .null (fetch.after .null) :=
    congrArg history (happen_eq hfetch hactive .null 0)
  -- the cache holds the reply
  obtain ⟨payload, hlook, hlast⟩ :=
    look_of_holds (coherent_act hcoherent _) (holds_of_decoded hcoherent hfetch hdecoded)
  have hpayload : payload = .null := by
    change lastDecoded key started.history = _ at hlast
    rw [hhistory, lastDecoded_append, SourceFetch.lastDecoded_observed, hdecoded] at hlast
    simpa using hlast.symm
  subst hpayload
  have hreturned := @SourceFetch.observedAtStart_of_payload started.fetches.length _ _
    (@RequestAdapter.startFetch_state_of_hit source context cacheBust 0 key hkey _ _ hlook)
  refine ⟨?_, congrArg (started.history ++ ·) hreturned⟩
  rw [hhistory, SourceFetch.observed_of_payload hdecoded]

/-- The reply may be to a call that was in flight when the cache was emptied. -/
theorem exists_returned_of_inFlight :
    let started := (live.act .invalidateAll).act (.happen number .null 0)
    ∃ before answer,
      (started.act (.start (.request source) context cacheBust 0)).history =
        before ++ .returned started.fetches.length (.ok .null) answer :: [] ∧
      ¬ RepliedSince live.history before key .null := by
  intro started
  obtain ⟨hhistory, hreturned⟩ := @history_of_reply (live.act .invalidateAll) _ _ _ _ _ _ _ _ _
    (coherent_act hcoherent .invalidateAll) hfetch hfetchKey hstate hdecode hkey
  refine ⟨started.history, _, hreturned, ?_⟩
  rw [hhistory]
  exact not_repliedSince fun observation hmem => by
    rw [List.mem_singleton.1 hmem]
    rfl

end

/-! ### What emptying the cache is good for -/

/-- A new adapter starts with nothing under way and nothing observed. -/
theorem started_of_replay (retry : RetrySettings) (timeout : Nat) (settings : CacheSettings)
    (inputs : List AdapterInput) :
    let live := (ofSettings retry timeout settings).replay inputs
    ∀ observation ∈ live.history, observation.number < live.fetches.length := by
  have hnew : (ofSettings retry timeout settings).Faithful := fun observation hmem => by cases hmem
  intro live observation hmem
  obtain ⟨fetch, hfetch, -⟩ := hnew.replay inputs observation hmem
  exact (List.getElem?_eq_some_iff.1 hfetch).1

theorem coherent_of_enabled {retry : RetrySettings} {timeout : Nat} {settings : CacheSettings}
    (h : settings.enabled = true) (inputs : List AdapterInput) :
    let live := (ofSettings retry timeout settings).replay inputs
    live.adapter.Coherent settings.ttl live.history := by
  refine coherent_replay ?_ inputs
  rw [ofSettings, CacheSettings.newCache, if_pos h]
  exact coherent_new retry timeout settings.capacity settings.ttl

theorem uncached_of_disabled {retry : RetrySettings} {timeout : Nat} {settings : CacheSettings}
    (h : settings.enabled = false) (inputs : List AdapterInput) :
    ((ofSettings retry timeout settings).replay inputs).adapter.cache = none :=
  uncached_replay (if_neg (Bool.eq_false_iff.1 h)) inputs

/-- **How far emptying the cache reaches.** In every run, a fetch that starts after the cache was
emptied returns only what was decoded after that. It never returns what was decoded from the reply
to a call that was sent before, exactly if there is no cache or no call was in flight under its
fingerprint when the cache was emptied. -/
theorem invalidation_lasts_iff (retry : RetrySettings) (timeout : Nat) (settings : CacheSettings)
    (earlier : List AdapterInput) (source : RequestSource) (context : FetchContext)
    (cacheBust : Nat) :
    let cut := (ofSettings retry timeout settings).replay earlier
    let key := source.fingerprint (fillUrl context.props source.url) cacheBust
    let Returns := fun between now later before payload =>
      let started := (cut.act .invalidateAll).replay between
      ∃ answer since,
        ((started.act (.start (.request source) context cacheBust now)).replay later).history =
          before ++ .returned started.fetches.length (.ok payload) answer :: since
    (∀ between now later before payload, Returns between now later before payload →
        DecodedSince cut.history before key payload) ∧
      ((∀ between now later before payload, Returns between now later before payload →
          RepliedSince cut.history before key payload) ↔
        (settings.enabled = true → ∀ fetch ∈ cut.fetches, fetch.fetching.key = some key →
          ∀ attempt, fetch.fetching.state ≠ .inFlight attempt)) := by
  intro cut key Returns
  have hstarted := started_of_replay retry timeout settings earlier
  refine ⟨?_, fun hsince henabled fetch hmem hfetchKey attempt hstate => ?_, fun hidle => ?_⟩
  · rintro between now later before payload ⟨answer, since, hreturned⟩
    obtain ⟨seen, rfl, hseen⟩ := exists_since hstarted hreturned
    exact decodedSince_of_lastDecoded (lastDecoded_since hseen rfl)
  · -- the reply to the call in flight arrives, and the next fetch finds it
    obtain ⟨number, hfetch⟩ := List.mem_iff_getElem?.1 hmem
    obtain ⟨url, hdecode⟩ := decode_of_key retry timeout settings earlier fetch hmem key hfetchKey
    obtain ⟨before, answer, hreturned, hnot⟩ :=
      exists_returned_of_inFlight (coherent_of_enabled henabled earlier) hfetch hfetchKey hstate
        hdecode rfl
    exact hnot (hsince [.happen number .null 0] 0 [] before .null ⟨answer, [], hreturned⟩)
  · rintro between now later before payload ⟨answer, since, hreturned⟩
    obtain ⟨seen, rfl, hseen⟩ := exists_since hstarted hreturned
    have hcalled (number : Nat) (h : cut.emptied.Called key number) :=
      (((h.replay between).act (.start (.request source) context cacheBust now)).replay later)
    have hprefix := hseen ▸ List.prefix_append seen _
    cases henabled : settings.enabled with
    | true =>
      obtain ⟨number, decoding, hdecoded⟩ := exists_decodedLast (lastDecoded_since hseen rfl)
      exact repliedSince_of_called hprefix hdecoded (hcalled number (called_emptied
        fun fetch hfetch => hidle henabled fetch (List.mem_of_getElem? hfetch)))
    | false =>
      obtain ⟨decoding, hdecoded⟩ := decodedLast_of_uncached hseen rfl
        (uncached_of_disabled henabled earlier)
      refine repliedSince_of_called hprefix hdecoded (hcalled _ (called_emptied
        fun fetch hfetch => ?_))
      -- the fetch itself had not started when the cache was emptied
      exact absurd (List.getElem?_eq_some_iff.1 hfetch).1
        (Nat.not_lt.2 (cut.length_le_replay_emptied between))

/-- A call is in flight when the cache is emptied, and its reply answers the next fetch. -/
theorem invalidation_undone :
    let source : RequestSource := ⟨"https://a", none, [], none, []⟩
    let start := AdapterInput.start (.request source) ⟨none, none, false⟩ 0 0
    let cut := (ofSettings .standard 10000 .standard).replay [start]
    let started := (cut.act .invalidateAll).act (.happen 0 .null 0)
    ∃ before answer,
      (started.act start).history =
          before ++ .returned started.fetches.length (.ok .null) answer :: [] ∧
        ¬ RepliedSince cut.history before (source.fingerprint source.url 0) .null := by
  intro source start cut started
  have hlook : ((ofSettings .standard 10000 .standard).adapter.look
      (source.fingerprint source.url 0) 0).1 = none := rfl
  have hstate := @RequestAdapter.startFetch_state_of_miss source ⟨none, none, false⟩ 0 0 _ rfl _
    hlook
  exact exists_returned_of_inFlight (coherent_of_enabled rfl [start]) getElem?_start
    (RequestAdapter.startFetch_key_of_miss rfl hlook) hstate
    (congrArg SendPlan.decode RequestAdapter.startFetch_plan) rfl

end LiveAdapter

end ChartSchema
