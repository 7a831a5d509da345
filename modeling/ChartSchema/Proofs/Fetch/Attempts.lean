import Mathlib.Data.Nat.Find
import ChartSchema.Fetch.RequestAdapter
import ChartSchema.Proofs.Cache.Entries

/-!
# Attempts of a fetch

A fetch that finds nothing in the cache sends its request, and sends it again when an attempt fails
in a way that may pass. What happens to it is up to its **surroundings**: how each attempt ends, and
when it is cancelled, if ever. `LiveFetch.Course` follows a fetch through its surroundings to its
end, of which there is only one (`LiveFetch.Course.unique`).

The last attempt is the first that succeeds or fails for good, or the last that the settings allow
(`IsLastAttempt`): one more than the retries, in 32 bits. `RequestAdapter.course_of_miss` says that
a fetch makes its attempts up to this one and ends like it, unless it is cancelled before. Whatever
happens, what it leaves of the cache is known from the cache that it started with
(`TtlCache.KeptFor`): a failure loses at most an expired entry under its own key, and a payload
comes to the front of all others, the last of which makes room if there is none.

The proof goes along the attempts. Each of them is cancelled, or is the last one, or there is a
pause after it, which is cancelled or leads to the next attempt (`LiveFetch.EndsFrom.of_next`). The
induction is on the attempts that are left, and carries that no moment of cancellation has been met
so far (`LiveFetch.NotYet`). The cache is touched by the first look and by the last step only, so
that its part is computed apart from the induction.
-/

namespace ChartSchema

/-! ### Surroundings -/

/-- How an attempt ends that is not cancelled: with a response or an error of the network, or
because its time is over. -/
inductive AttemptEnd where
  | answered (outcome : Except FetchError HttpResponse)
  | timedOut

namespace AttemptEnd

/-- The event that ends the attempt. -/
def event : AttemptEnd → SendEvent
  | answered outcome => .reply outcome
  | timedOut => .deadline

/-- What the attempt comes to, if responses are read in some way and an attempt may take so many
milliseconds. -/
def result (decode : HttpResponse → FetchResult) (timeout : Nat) : AttemptEnd → FetchResult
  | answered outcome => outcome.bind decode
  | timedOut => .error (.timeout timeout)

end AttemptEnd

/-- Whether no attempt follows one that comes to a result: it succeeded, or failed for good, which
only a cancellation and a source that cannot be used do. -/
def isFinal : FetchResult → Bool
  | .ok _ => true
  | .error .cancelled => true
  | .error (.invalidSource _) => true
  | .error _ => false

theorem isFinal_error (error : FetchError) : isFinal (.error error) = !error.isRetryable := by
  cases error <;> rfl

/-- The last attempt of a fetch that nothing cancels, counted from one: the first that is final, or
the last that is allowed. -/
structure IsLastAttempt (allowed : Nat) (outcome : Nat → FetchResult) (last : Nat) : Prop where
  positive : 1 ≤ last
  le_allowed : last ≤ allowed
  final : isFinal (outcome last) = true ∨ last = allowed
  first : ∀ attempt, 1 ≤ attempt → attempt < last → isFinal (outcome attempt) = false

/-- Where an attempt is allowed, there is a last one. -/
theorem exists_isLastAttempt {allowed : Nat} (hallowed : 1 ≤ allowed)
    (outcome : Nat → FetchResult) : ∃ last, IsLastAttempt allowed outcome last := by
  have hends : ∃ attempt, 1 ≤ attempt ∧
      (isFinal (outcome attempt) = true ∨ attempt = allowed) := ⟨allowed, hallowed, .inr rfl⟩
  refine ⟨Nat.find hends, (Nat.find_spec hends).1, Nat.find_min' hends ⟨hallowed, .inr rfl⟩,
    (Nat.find_spec hends).2, fun attempt hpositive hlt => ?_⟩
  exact Bool.eq_false_iff.2 fun hfinal => Nat.find_min hends hlt ⟨hpositive, .inl hfinal⟩

/-- There is only one last attempt. -/
theorem IsLastAttempt.unique {allowed : Nat} {outcome : Nat → FetchResult} {last other : Nat}
    (h : IsLastAttempt allowed outcome last) (hother : IsLastAttempt allowed outcome other) :
    other = last := by
  have hle {first second : Nat} (hfirst : IsLastAttempt allowed outcome first)
      (hsecond : IsLastAttempt allowed outcome second) : first ≤ second := by
    by_contra hlt
    rcases hsecond.final with hfinal | hspent
    · rw [hfirst.first second hsecond.positive (Nat.not_le.1 hlt)] at hfinal
      cases hfinal
    · exact hlt (hspent ▸ hfirst.le_allowed)
  exact Nat.le_antisymm (hle hother h) (hle h hother)

/-- When a fetch is cancelled: before it starts, during an attempt, or in the pause after one.
Attempts are counted from one. -/
inductive CancelMoment where
  | beforeStart
  | during (attempt : Nat)
  | after (attempt : Nat)
  deriving DecidableEq

namespace CancelMoment

/-- Whether a fetch comes to the moment if it makes so many attempts when nothing cancels it. No
pause follows the last attempt. -/
def IsMet (last : Nat) : CancelMoment → Prop
  | beforeStart => True
  | during attempt => 1 ≤ attempt ∧ attempt ≤ last
  | after attempt => 1 ≤ attempt ∧ attempt < last

/-- How many requests have been sent by the moment. -/
def requests : CancelMoment → Nat
  | beforeStart => 0
  | during attempt => attempt
  | after attempt => attempt

end CancelMoment

/-- What surrounds a fetch: how its attempts end, counted from one, when it is cancelled, if ever,
and which date it is when something happens to it in a state. -/
structure Surroundings where
  ends : Nat → AttemptEnd
  cancelled : Option CancelMoment
  clock : SendState → Int

/-- What an attempt comes to, if nothing cancels it. -/
def Surroundings.outcome (world : Surroundings) (decode : HttpResponse → FetchResult)
    (timeout attempt : Nat) : FetchResult :=
  (world.ends attempt).result decode timeout

/-- What happens to a fetch in a state. -/
def Surroundings.event? (world : Surroundings) : SendState → Option SendEvent
  | .inFlight attempt =>
    if world.cancelled = some (.during (attempt + 1)) then some .cancel
    else some (world.ends (attempt + 1)).event
  | .pausing attempt =>
    if world.cancelled = some (.after attempt) then some .cancel else some .pauseOver
  | .done _ => none

/-! ### Courses -/

/-- The requests that are sent when a fetch comes from one state to another: the end of a pause
sends the request. -/
def SendPlan.sends (plan : SendPlan) : SendState → SendState → List HttpRequest
  | .pausing _, .inFlight _ => [plan.request]
  | _, _ => []

/-- The requests that are sent when a fetch starts in a state. -/
def SendPlan.sendsAtStart (plan : SendPlan) : SendState → List HttpRequest
  | .inFlight _ => [plan.request]
  | _ => []

/-- A fetch, the adapter that it goes through, and the requests that it has sent. -/
structure LiveFetch where
  fetching : Fetching
  adapter : RequestAdapter
  sent : List HttpRequest

namespace LiveFetch

/-- A fetch that has just started. -/
def begin (adapter : RequestAdapter) (source : RequestSource) (props : Option Json)
    (cancelled : Bool) (cacheBust : Nat) (now : Int) : LiveFetch :=
  let (fetching, adapter) := adapter.start source props cancelled cacheBust now
  ⟨fetching, adapter, fetching.plan.sendsAtStart fetching.state⟩

/-- A fetch after something has happened to it. -/
def advance (live : LiveFetch) (event : SendEvent) (now : Int) : LiveFetch :=
  let (fetching, adapter) := live.adapter.advance live.fetching event now
  ⟨fetching, adapter, live.sent ++ fetching.plan.sends live.fetching.state fetching.state⟩

/-- What a fetch comes to in its surroundings. -/
inductive Course (world : Surroundings) : LiveFetch → LiveFetch → Prop where
  | ended {live : LiveFetch} {result : FetchResult} (hstate : live.fetching.state = .done result) :
    Course world live live
  | next {live ended : LiveFetch} {event : SendEvent}
    (hevent : world.event? live.fetching.state = some event)
    (hcourse : Course world (live.advance event (world.clock live.fetching.state)) ended) :
    Course world live ended

/-- A fetch comes to one end only. -/
theorem Course.unique {world : Surroundings} {live ended other : LiveFetch}
    (h : Course world live ended) (hother : Course world live other) : other = ended := by
  induction h with
  | ended hstate =>
    cases hother with
    | ended => rfl
    | next hevent => rw [hstate] at hevent; cases hevent
  | next hevent _ ih =>
    cases hother with
    | ended hstate => rw [hstate] at hevent; cases hevent
    | next hevent' hcourse' =>
      rw [hevent] at hevent'
      cases hevent'
      exact ih hcourse'

end LiveFetch

/-! ### One step -/

namespace RequestAdapter

/-- The adapter when a fetch comes to a state: a payload is put into the cache, if the fetch has a
key. -/
def keepPayload (adapter : RequestAdapter) (key : Option String) (state : SendState) (now : Int) :
    RequestAdapter :=
  match state, key with
  | .done (.ok payload), some key => adapter.store key payload now
  | _, _ => adapter

/-- An event moves a fetch that has not ended to its next state, and touches the cache only to put
a payload into it. -/
theorem advance_eq (adapter : RequestAdapter) {fetching : Fetching}
    (hactive : ∀ result, fetching.state ≠ .done result) (event : SendEvent) (now : Int) :
    adapter.advance fetching event now =
      ({ fetching with state := fetching.plan.step fetching.state event },
        adapter.keepPayload fetching.key (fetching.plan.step fetching.state event) now) := by
  obtain ⟨plan, state, key⟩ := fetching
  cases state with
  | done result => exact absurd rfl (hactive result)
  | _ => rfl

/-- A fetch that finds nothing in the cache sends its request, if it is not cancelled already. -/
theorem start_of_miss {adapter : RequestAdapter} {source : RequestSource} {props : Option Json}
    {cacheBust : Nat} {now : Int}
    (hmiss : (adapter.look (source.fingerprint (fillUrl props source.url) cacheBust) now).1 = none)
    (cancelled : Bool) :
    adapter.start source props cancelled cacheBust now =
      (⟨adapter.plan source (fillUrl props source.url),
        if cancelled then .done (.error .cancelled) else .inFlight 0,
        some (source.fingerprint (fillUrl props source.url) cacheBust)⟩,
        (adapter.look (source.fingerprint (fillUrl props source.url) cacheBust) now).2) := by
  simp only [start, hmiss]

/-- A fetch that finds its payload in the cache ends at once, and needs no key. -/
theorem start_of_hit {adapter : RequestAdapter} {source : RequestSource} {props : Option Json}
    {cacheBust : Nat} {now : Int} {payload : Json}
    (hhit : (adapter.look (source.fingerprint (fillUrl props source.url) cacheBust) now).1 =
      some payload) (cancelled : Bool) :
    adapter.start source props cancelled cacheBust now =
      (⟨adapter.plan source (fillUrl props source.url), .done (.ok payload), none⟩,
        (adapter.look (source.fingerprint (fillUrl props source.url) cacheBust) now).2) := by
  simp only [start, hhit]

end RequestAdapter

/-! ### One attempt -/

namespace SendPlan

variable (plan : SendPlan)

theorem step_event (attempt : Nat) (attemptEnd : AttemptEnd) :
    plan.step (.inFlight attempt) attemptEnd.event =
      plan.afterAttempt attempt (attemptEnd.result plan.decode plan.timeout) := by
  cases attemptEnd <;> rfl

/-- Sending ends with a final result and with the last attempt allowed. -/
theorem afterAttempt_eq (attempt : Nat) (result : FetchResult) :
    plan.afterAttempt attempt result =
      if isFinal result ∨ plan.attempts ≤ attempt + 1 then .done result
      else .pausing (attempt + 1) := by
  cases result with
  | ok payload => simp [afterAttempt, isFinal]
  | error error =>
    have hagain : (error.isRetryable = true ∧ attempt + 1 < plan.attempts) ↔
        ¬ (isFinal (.error error) = true ∨ plan.attempts ≤ attempt + 1) := by
      rw [isFinal_error, Bool.not_eq_true', not_or, Bool.not_eq_false, Nat.not_le]
    simp only [afterAttempt, hagain, ite_not]

variable {plan} {world : Surroundings} {last attempt : Nat}

/-- Up to the last attempt, sending ends with that attempt and with no other. -/
theorem step_of_le_last
    (hlast : IsLastAttempt plan.attempts (world.outcome plan.decode plan.timeout) last)
    (hle : attempt + 1 ≤ last) :
    plan.step (.inFlight attempt) (world.ends (attempt + 1)).event =
      if attempt + 1 = last then .done (world.outcome plan.decode plan.timeout last)
      else .pausing (attempt + 1) := by
  rw [step_event, afterAttempt_eq]
  by_cases heq : attempt + 1 = last
  · have hfinal : isFinal (world.outcome plan.decode plan.timeout last) = true ∨
        plan.attempts ≤ last := hlast.final.imp_right fun h => Nat.le_of_eq h.symm
    rw [if_pos heq, heq]
    exact if_pos hfinal
  · have hlt : attempt + 1 < last := Nat.lt_of_le_of_ne hle heq
    have hnot := hlast.first (attempt + 1) (Nat.le_add_left 1 attempt) hlt
    rw [if_neg heq, if_neg]
    rintro (hfinal | hspent)
    · exact absurd (hnot.symm.trans hfinal) Bool.noConfusion
    · exact absurd (Nat.lt_of_lt_of_le hlt hlast.le_allowed) (Nat.not_lt.2 hspent)

end SendPlan

/-! ### Whole courses -/

namespace LiveFetch

/-- How a fetch ends that looked into the cache in vain. `last` is the number of its attempts when
nothing cancels it. -/
structure Ending (world : Surroundings) (request : HttpRequest) (outcome : Nat → FetchResult)
    (last : Nat) (result : FetchResult) (ended : LiveFetch) : Prop where
  state : ended.fetching.state = .done result
  /-- A fetch that is cancelled sends nothing more. -/
  cancelled : ∀ moment, world.cancelled = some moment → moment.IsMet last →
    result = .error .cancelled ∧ ended.sent = List.replicate moment.requests request
  /-- A fetch that is not cancelled, or too late, ends like its last attempt. -/
  undisturbed : (∀ moment, world.cancelled = some moment → ¬ moment.IsMet last) →
    result = outcome last ∧ ended.sent = List.replicate last request

variable {world : Surroundings} {plan : SendPlan} {key : String} {last attempt : Nat}
  {adapter : RequestAdapter} {sent : List HttpRequest} {request : HttpRequest}
  {outcome : Nat → FetchResult} {ended : LiveFetch}

/-- A fetch that is cancelled at a moment that it comes to. -/
theorem Ending.of_cancelled {moment : CancelMoment} (hmoment : world.cancelled = some moment)
    (hmet : moment.IsMet last) (hstate : ended.fetching.state = .done (.error .cancelled))
    (hsent : ended.sent = List.replicate moment.requests request) :
    Ending world request outcome last (.error .cancelled) ended := by
  refine ⟨hstate, fun other hother _ => ?_, fun hnot => absurd hmet (hnot moment hmoment)⟩
  rw [hmoment] at hother
  cases hother
  exact ⟨rfl, hsent⟩

/-- The moments before an attempt have passed without cancellation. -/
def NotYet (world : Surroundings) (attempt : Nat) : Prop :=
  ∀ moment, world.cancelled = some moment → moment ≠ .during attempt → ¬ moment.IsMet attempt

theorem NotYet.next (h : NotYet world attempt) (hduring : world.cancelled ≠ some (.during attempt))
    (hafter : world.cancelled ≠ some (.after attempt)) : NotYet world (attempt + 1) := by
  intro moment hmoment hne hmet
  refine h moment hmoment (fun heq => hduring (heq ▸ hmoment)) ?_
  cases moment with
  | beforeStart => trivial
  | during other =>
    have hother : other ≠ attempt + 1 := fun heq => hne (heq ▸ rfl)
    have hbefore : other ≠ attempt := fun heq => hduring (heq ▸ hmoment)
    exact ⟨hmet.1, by have := hmet.2; omega⟩
  | after other =>
    have hbefore : other ≠ attempt := fun heq => hafter (heq ▸ hmoment)
    exact ⟨hmet.1, by have := hmet.2; omega⟩

/-- The first step of a course. -/
theorem Course.of_step {state next : SendState} {event : SendEvent} {sent' : List HttpRequest}
    (hevent : world.event? state = some event) (hstep : plan.step state event = next)
    (hsent : sent ++ plan.sends state next = sent')
    (hcourse : Course world ⟨⟨plan, next, some key⟩,
      adapter.keepPayload (some key) next (world.clock state), sent'⟩ ended) :
    Course world ⟨⟨plan, state, some key⟩, adapter, sent⟩ ended := by
  have hactive (result : FetchResult) : state ≠ .done result := by
    rintro rfl
    cases hevent
  have hadvance := @RequestAdapter.advance_eq adapter ⟨plan, state, some key⟩ hactive event
    (world.clock state)
  refine .next hevent ?_
  simpa only [LiveFetch.advance, hadvance, hstep, hsent] using hcourse

/-- A cancellation ends a fetch. -/
theorem Course.of_cancel {state : SendState} (hevent : world.event? state = some .cancel) :
    Course world ⟨⟨plan, state, some key⟩, adapter, sent⟩
      ⟨⟨plan, .done (.error .cancelled), some key⟩, adapter, sent⟩ := by
  cases state with
  | done result => cases hevent
  | inFlight attempt => exact .of_step hevent rfl (List.append_nil sent) (.ended rfl)
  | pausing attempt => exact .of_step hevent rfl (List.append_nil sent) (.ended rfl)

/-- A fetch that nothing has cancelled by its last attempt is never cancelled. -/
theorem NotYet.never (h : NotYet world last) (hduring : world.cancelled ≠ some (.during last)) :
    ∀ moment, world.cancelled = some moment → ¬ moment.IsMet last :=
  fun moment hmoment => h moment hmoment fun heq => hduring (heq ▸ hmoment)

/-- A fetch whose attempt of a number is in flight comes to an end, and puts its payload, if it has
one, into the cache when the last attempt has ended. Attempts are numbered from zero. -/
def EndsFrom (world : Surroundings) (plan : SendPlan) (key : String) (last : Nat)
    (adapter : RequestAdapter) (attempt : Nat) : Prop :=
  ∃ result ended,
    Ending world plan.request (world.outcome plan.decode plan.timeout) last result ended ∧
    ended.adapter =
      adapter.keepPayload (some key) (.done result) (world.clock (.inFlight (last - 1))) ∧
    Course world ⟨⟨plan, .inFlight attempt, some key⟩, adapter,
      List.replicate (attempt + 1) plan.request⟩ ended

/-- An attempt is cancelled, or is the last one, or there is a pause after it, which is cancelled or
leads to the next attempt. -/
theorem EndsFrom.of_next
    (hlast : IsLastAttempt plan.attempts (world.outcome plan.decode plan.timeout) last)
    (hle : attempt + 1 ≤ last) (hnotYet : NotYet world (attempt + 1))
    (hnext : attempt + 2 ≤ last → NotYet world (attempt + 2) →
      EndsFrom world plan key last adapter (attempt + 1)) :
    EndsFrom world plan key last adapter attempt := by
  by_cases hduring : world.cancelled = some (.during (attempt + 1))
  · exact ⟨_, _, .of_cancelled hduring ⟨Nat.le_add_left 1 attempt, hle⟩ rfl rfl, rfl,
      .of_cancel (if_pos hduring)⟩
  have hevent : world.event? (.inFlight attempt) = some (world.ends (attempt + 1)).event :=
    if_neg hduring
  have hstep := SendPlan.step_of_le_last hlast hle
  by_cases hend : attempt + 1 = last
  · rw [if_pos hend] at hstep
    obtain rfl := hend
    have hnever := hnotYet.never hduring
    exact ⟨_, _, ⟨rfl, fun moment hmoment hmet => absurd hmet (hnever moment hmoment),
      fun _ => ⟨rfl, rfl⟩⟩, rfl, .of_step hevent hstep (List.append_nil _) (.ended rfl)⟩
  rw [if_neg hend] at hstep
  have hlt : attempt + 1 < last := Nat.lt_of_le_of_ne hle hend
  by_cases hafter : world.cancelled = some (.after (attempt + 1))
  · exact ⟨_, _, .of_cancelled hafter ⟨Nat.le_add_left 1 attempt, hlt⟩ rfl rfl, rfl,
      .of_step hevent hstep (List.append_nil _) (.of_cancel (if_pos hafter))⟩
  have hover : world.event? (.pausing (attempt + 1)) = some .pauseOver := if_neg hafter
  obtain ⟨result, ended, hending, hadapter, hcourse⟩ := hnext hlt (hnotYet.next hduring hafter)
  have hpause : Course world ⟨⟨plan, .pausing (attempt + 1), some key⟩, adapter,
      List.replicate (attempt + 1) plan.request⟩ ended :=
    .of_step hover rfl List.replicate_succ'.symm hcourse
  exact ⟨result, ended, hending, hadapter, .of_step hevent hstep (List.append_nil _) hpause⟩

/-- An attempt and all that follows it: the induction is on the attempts that are left. -/
theorem endsFrom
    (hlast : IsLastAttempt plan.attempts (world.outcome plan.decode plan.timeout) last)
    (left : Nat) : ∀ attempt, attempt + 1 + left = last → NotYet world (attempt + 1) →
      EndsFrom world plan key last adapter attempt := by
  induction left with
  | zero =>
    intro attempt hleft hnotYet
    exact .of_next hlast (Nat.le_of_eq hleft) hnotYet fun hle => by omega
  | succ left ih =>
    intro attempt hleft hnotYet
    exact .of_next hlast (by omega) hnotYet fun _ => ih (attempt + 1) (by omega)

end LiveFetch

/-! ### What is left of the cache -/

/-- What a fetch under a key leaves of a cache in which it found nothing when it started, with the
date on which its last attempt ended. What was held under the key had expired, and is gone; all
other entries keep their order. -/
structure TtlCache.KeptFor (cache : TtlCache String Json) (key : String) (now : Int)
    (result : FetchResult) (finished : Int) (after : TtlCache String Json) : Prop where
  expired : ∀ entry, cache.entries.peek key = some entry → entry.insertedAt + entry.ttl < now
  defaultTtl : after.defaultTtl = cache.defaultTtl
  /-- A failure puts nothing into the cache. -/
  failed : ∀ error, result = .error error → after.entries =
    { cache.entries with
      entries := LruCache.dropKey key cache.entries.entries
      misses := cache.entries.misses + 1 }
  /-- A payload comes to the front. -/
  room : ∀ payload, result = .ok payload →
    (LruCache.dropKey key cache.entries.entries).length < cache.entries.capacity →
    after.entries =
      { cache.entries with
        entries := (key, ⟨payload, finished, cache.defaultTtl⟩) ::
          LruCache.dropKey key cache.entries.entries
        misses := cache.entries.misses + 1 }
  /-- Where there is no room for a payload, the last entry makes room. -/
  full : ∀ payload, result = .ok payload →
    cache.entries.capacity ≤ (LruCache.dropKey key cache.entries.entries).length →
    after.entries =
      { cache.entries with
        entries := (key, ⟨payload, finished, cache.defaultTtl⟩) ::
          (LruCache.dropKey key cache.entries.entries).dropLast
        misses := cache.entries.misses + 1
        evictions := cache.entries.evictions + 1 }

/-- The look into the cache at the start and the payload at the end are all that touches it. -/
theorem RequestAdapter.exists_keptFor {adapter : RequestAdapter} {cache : TtlCache String Json}
    {key : String} {now : Int} (hcache : adapter.cache = some cache)
    (hmiss : (adapter.look key now).1 = none) (result : FetchResult) (finished : Int) :
    ∃ after, (adapter.look key now).2.keepPayload (some key) (.done result) finished =
      { adapter with cache := some after } ∧ cache.KeptFor key now result finished after := by
  simp only [look, hcache] at hmiss ⊢
  obtain ⟨hexpired, hentries⟩ := TtlCache.entries_of_get_eq_none hmiss
  have hold (entry : TimedEntry Json) (hentry : cache.entries.peek key = some entry) :
      entry.insertedAt + entry.ttl < now := by
    have hage := of_decide_eq_true (hexpired entry hentry)
    rw [TimedEntry.age] at hage
    omega
  -- the look has dropped an expired entry, so that nothing is held under the key
  cases result with
  | error error =>
    exact ⟨_, rfl, hold, TtlCache.defaultTtl_get, fun _ _ => hentries, fun _ h => (by cases h),
      fun _ h => (by cases h)⟩
  | ok payload =>
    have habsent : (cache.get key now).2.entries.peek key = none := by
      rw [hentries]
      exact LruCache.find?_dropKey_self key cache.entries.entries
    have hstored : ((cache.get key now).2.insert key payload cache.defaultTtl finished).entries =
        ((cache.get key now).2.entries.insert key ⟨payload, finished, cache.defaultTtl⟩).2 := rfl
    rw [LruCache.insert_of_peek_eq_none habsent, hentries] at hstored
    refine ⟨(cache.get key now).2.insert key payload cache.defaultTtl finished, ?_, hold,
      TtlCache.defaultTtl_get, fun _ h => (by cases h), fun _ h hroom => ?_, fun _ h hfull => ?_⟩
    · simp only [keepPayload, store, Option.map_some, TtlCache.defaultTtl_get]
    · cases h
      rw [hstored]
      exact congrArg Prod.snd (if_pos hroom)
    · cases h
      rw [hstored]
      exact congrArg Prod.snd (if_neg (Nat.not_lt.2 hfull))

/-! ### Fetches that find nothing in the cache -/

namespace LiveFetch

variable {world : Surroundings} {adapter : RequestAdapter} {source : RequestSource}
  {props : Option Json} {cacheBust : Nat} {now : Int}

theorem begin_of_miss
    (hmiss : (adapter.look (source.fingerprint (fillUrl props source.url) cacheBust) now).1 = none)
    {cancelled : Bool} {state : SendState}
    (hstate : (if cancelled then .done (.error .cancelled) else .inFlight 0) = state) :
    LiveFetch.begin adapter source props cancelled cacheBust now =
      ⟨⟨adapter.plan source (fillUrl props source.url), state,
          some (source.fingerprint (fillUrl props source.url) cacheBust)⟩,
        (adapter.look (source.fingerprint (fillUrl props source.url) cacheBust) now).2,
        (adapter.plan source (fillUrl props source.url)).sendsAtStart state⟩ := by
  simp only [LiveFetch.begin, RequestAdapter.start_of_miss hmiss, hstate]

/-- Before the first attempt a fetch can be cancelled at its start only. -/
theorem notYet_one (hstart : world.cancelled ≠ some .beforeStart) : NotYet world 1 := by
  intro moment hmoment hne hmet
  cases moment with
  | beforeStart => exact hstart hmoment
  | during attempt => exact hne (congrArg _ (Nat.le_antisymm hmet.2 hmet.1))
  | after attempt => exact absurd hmet.2 (Nat.not_lt.2 hmet.1)

end LiveFetch

namespace RequestAdapter

variable {adapter : RequestAdapter}

/-- One attempt more than the retries is allowed, counted in 32 bits. -/
theorem attempts_plan (adapter : RequestAdapter) (source : RequestSource) (url : String) :
    (adapter.plan source url).attempts = min (adapter.retry.maxRetries + 1) 0xffffffff :=
  rfl

/-- **A fetch that finds nothing in the cache** makes its attempts up to the first that succeeds or
fails for good, at most one more than the retries of the settings, and ends like the last of them.
If it is cancelled before that it sends nothing more and ends with this error. Its payload comes to
the front of the cache, under its fingerprint; if it fails the cache stays as it is, but for an
entry under the fingerprint that has expired. -/
theorem course_of_miss (world : Surroundings) {source : RequestSource} {props : Option Json}
    {cacheBust : Nat} {now : Int} (hmiss :
      (adapter.look (source.fingerprint (fillUrl props source.url) cacheBust) now).1 = none) :
    let url := fillUrl props source.url
    let key := source.fingerprint url cacheBust
    let outcome := world.outcome (fun response => response.decode url) adapter.timeout
    let start := LiveFetch.begin adapter source props
      (decide (world.cancelled = some .beforeStart)) cacheBust now
    ∃ last result ended,
      IsLastAttempt (min (adapter.retry.maxRetries + 1) 0xffffffff) outcome last ∧
      LiveFetch.Course world start ended ∧
      (∀ other, LiveFetch.Course world start other → other = ended) ∧
      LiveFetch.Ending world (source.toRequest url) outcome last result ended ∧
      (adapter.cache = none → ended.adapter = adapter) ∧
      ∀ cache, adapter.cache = some cache → ∃ after,
        ended.adapter = { adapter with cache := some after } ∧
          cache.KeptFor key now result (world.clock (.inFlight (last - 1))) after := by
  intro url key outcome start
  let plan := adapter.plan source url
  let looked := (adapter.look key now).2
  have hallowed : 1 ≤ min (adapter.retry.maxRetries + 1) 0xffffffff := by omega
  obtain ⟨last, hlast⟩ := exists_isLastAttempt hallowed outcome
  -- the course of the fetch, with its adapter in the end
  suffices h : ∃ result ended,
      LiveFetch.Ending world (source.toRequest url) outcome last result ended ∧
      ended.adapter =
        looked.keepPayload (some key) (.done result) (world.clock (.inFlight (last - 1))) ∧
      LiveFetch.Course world start ended by
    obtain ⟨result, ended, hending, hadapter, hcourse⟩ := h
    refine ⟨last, result, ended, hlast, hcourse, fun other => hcourse.unique, hending,
      fun hnone => ?_, fun cache hcache => ?_⟩
    · have hlooked : looked = adapter := by simp only [looked, look, hnone]
      rw [hadapter, hlooked]
      cases result with
      | error error => rfl
      | ok payload =>
        simp only [keepPayload, store, hnone, Option.map_none]
        rw [← hnone]
    · rw [hadapter]
      exact exists_keptFor hcache hmiss result _
  by_cases hcancelled : world.cancelled = some .beforeStart
  · have hstart : start = ⟨⟨plan, .done (.error .cancelled), some key⟩, looked, []⟩ :=
      LiveFetch.begin_of_miss hmiss (if_pos (decide_eq_true hcancelled))
    rw [hstart]
    exact ⟨_, _, .of_cancelled hcancelled trivial rfl rfl, rfl, .ended rfl⟩
  · have hstart : start = ⟨⟨plan, .inFlight 0, some key⟩, looked, [plan.request]⟩ :=
      LiveFetch.begin_of_miss hmiss (if_neg (by simpa using hcancelled))
    obtain ⟨left, hleft⟩ := Nat.exists_eq_add_of_le hlast.positive
    rw [← attempts_plan adapter source url] at hlast
    rw [hstart]
    exact LiveFetch.endsFrom hlast left 0 hleft.symm (LiveFetch.notYet_one hcancelled)

/-- With one retry and a cache that is full: two failures use up the retries and leave the cache as
it is; a payload that comes with the retry takes the place of the old entry; and a fetch that is
cancelled in the pause after its first attempt has sent its request once. -/
theorem course_of_miss_runs :
    let retry : RetrySettings := { RetrySettings.standard with maxRetries := 1 }
    let old : List (String × TimedEntry Json) := [("old", ⟨.null, 0, 1000⟩)]
    let adapter : RequestAdapter := ⟨retry, 10000, some ⟨⟨1, old, 0, 0, 0⟩, 1000, 0⟩⟩
    let source : RequestSource := ⟨"/sales", none, [], none, []⟩
    let key := source.fingerprint "/sales" 0
    let request : HttpRequest := ⟨"GET", "/sales", [], [], none⟩
    let refused : AttemptEnd := .answered (.ok ⟨503, none, ""⟩)
    let answered : AttemptEnd := .answered (.ok (.ofJson .null))
    let comesTo (world : Surroundings) (result : FetchResult) (sent : List HttpRequest)
        (held : List (String × TimedEntry Json)) : Prop :=
      ∃ ended, LiveFetch.Course world (.begin adapter source none false 0 0) ended ∧
        ended.fetching.state = .done result ∧ ended.sent = sent ∧
        ∃ cache, ended.adapter.cache = some cache ∧ cache.entries.entries = held
    (adapter.look (source.fingerprint (fillUrl none source.url) 0) 0).1 = none ∧
      comesTo ⟨fun _ => refused, none, fun _ => 7⟩ (.error (.status "/sales" 503))
        [request, request] old ∧
      comesTo ⟨fun attempt => if attempt = 1 then refused else answered, none, fun _ => 7⟩
        (.ok .null) [request, request] [(key, ⟨.null, 7, 1000⟩)] ∧
      comesTo ⟨fun _ => .timedOut, some (.after 1), fun _ => 7⟩ (.error .cancelled)
        [request] old := by
  intro retry old adapter source key request refused answered comesTo
  have hmiss : (adapter.look (source.fingerprint (fillUrl none source.url) 0) 0).1 = none :=
    Option.isNone_iff_eq_none.1 (by decide +kernel)
  have hother : LruCache.dropKey key old = old :=
    LruCache.dropKey_of_find? (Option.isNone_iff_eq_none.1 (by decide +kernel))
  -- where the first attempt is refused or times out, the second is the last
  have htwo {world : Surroundings} {last : Nat}
      (hfirst : isFinal (world.outcome (fun response => response.decode "/sales") 10000 1) = false)
      (hlast : IsLastAttempt 2 (world.outcome (fun response => response.decode "/sales") 10000)
        last) : last = 2 := by
    refine IsLastAttempt.unique ⟨by decide, Nat.le_refl 2, .inr rfl, ?_⟩ hlast
    intro attempt hpositive hlt
    obtain rfl : attempt = 1 := by omega
    exact hfirst
  refine ⟨hmiss, ?_, ?_, ?_⟩
  · obtain ⟨last, result, ended, hlast, hcourse, -, hending, -, hcache⟩ :=
      course_of_miss ⟨fun _ => refused, none, fun _ => 7⟩ hmiss
    obtain rfl := htwo rfl hlast
    obtain ⟨rfl, hsent⟩ := hending.undisturbed fun _ h => by cases h
    obtain ⟨after, hafter, hkept⟩ := hcache _ rfl
    refine ⟨ended, hcourse, hending.state, hsent, after, by rw [hafter], ?_⟩
    rw [hkept.failed _ rfl]
    exact hother
  · obtain ⟨last, result, ended, hlast, hcourse, -, hending, -, hcache⟩ :=
      course_of_miss ⟨fun attempt => if attempt = 1 then refused else answered, none, fun _ => 7⟩
        hmiss
    obtain rfl := htwo rfl hlast
    obtain ⟨rfl, hsent⟩ := hending.undisturbed fun _ h => by cases h
    obtain ⟨after, hafter, hkept⟩ := hcache _ rfl
    refine ⟨ended, hcourse, hending.state, hsent, after, by rw [hafter], ?_⟩
    rw [hkept.full .null rfl (Nat.le_of_eq (congrArg List.length hother.symm))]
    exact congrArg (fun others => _ :: List.dropLast others) hother
  · obtain ⟨last, result, ended, hlast, hcourse, -, hending, -, hcache⟩ :=
      course_of_miss ⟨fun _ => .timedOut, some (.after 1), fun _ => 7⟩ hmiss
    obtain rfl := htwo rfl hlast
    obtain ⟨rfl, hsent⟩ := hending.cancelled (.after 1) rfl ⟨Nat.le_refl 1, Nat.lt_succ_self 1⟩
    obtain ⟨after, hafter, hkept⟩ := hcache _ rfl
    refine ⟨ended, hcourse, hending.state, hsent, after, by rw [hafter], ?_⟩
    rw [hkept.failed _ rfl]
    exact hother

end RequestAdapter

end ChartSchema
