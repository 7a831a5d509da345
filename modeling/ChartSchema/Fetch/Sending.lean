import ChartSchema.Fetch.Http
import ChartSchema.Settings.Basic

/-!
# Sending

A request is sent, and sent again after a pause when it fails in a way that may pass, up to a
number of attempts. While it is in flight and during the pauses it can be cancelled; an attempt
that takes too long counts as failed.

Sending is a state that changes with the **events** that happen to it: a reply, the end of the
time for an attempt, the end of a pause, and cancellation. Which of them happens when is up to the
surroundings.
-/

namespace ChartSchema

/-- What is sent and how: the request, how often it is sent at most, the milliseconds that an
attempt may take, the pause before each further attempt, and how a response is read. -/
structure SendPlan where
  request : HttpRequest
  attempts : Nat
  timeout : Nat
  pause : Nat → Nat
  decode : HttpResponse → FetchResult

/-- Where sending stands. Attempts are numbered from zero. -/
inductive SendState where
  /-- The attempt of this number is in flight. -/
  | inFlight (attempt : Nat)
  /-- The pause before the attempt of this number. -/
  | pausing (attempt : Nat)
  | done (result : FetchResult)

/-- What happens to a request that is being sent. -/
inductive SendEvent where
  | reply (outcome : Except FetchError HttpResponse)
  | deadline
  | pauseOver
  | cancel

namespace SendPlan

/-- The state after an attempt has ended: done, or a pause if the error may pass and there are
attempts left. -/
def afterAttempt (plan : SendPlan) (attempt : Nat) (outcome : FetchResult) : SendState :=
  match outcome with
  | .ok payload => .done (.ok payload)
  | .error error =>
    if error.isRetryable ∧ attempt + 1 < plan.attempts then .pausing (attempt + 1)
    else .done (.error error)

/-- The state after an event. Events that do not concern the state change nothing. -/
def step (plan : SendPlan) : SendState → SendEvent → SendState
  | .inFlight attempt, .reply outcome => plan.afterAttempt attempt (outcome.bind plan.decode)
  | .inFlight attempt, .deadline => plan.afterAttempt attempt (.error (.timeout plan.timeout))
  | .pausing attempt, .pauseOver => .inFlight attempt
  | .inFlight _, .cancel => .done (.error .cancelled)
  | .pausing _, .cancel => .done (.error .cancelled)
  | state, _ => state

end SendPlan

end ChartSchema
