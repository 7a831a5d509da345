import ChartSchema.Chart.Refresh

/-!
# Periodic refreshes

A chart with a live source is refreshed over and over, at ticks that are one period apart; the
first tick is at the start. A refresh that takes longer than a period makes ticks late. A tick
that is late by no more than five milliseconds still counts from the time it was due; after one
that is later the ticks that were missed are skipped, and the next is the first one ahead on the
grid of the ticks.
-/

namespace ChartSchema

/-- How the refreshes of a period have ended so far. -/
structure RefreshTally where
  applied : Nat
  discarded : Nat
  failed : Nat

/-- The tally with one more refresh. -/
def RefreshTally.count (tally : RefreshTally) :
    Except ChartError RefreshOutcome → RefreshTally
  | .ok .applied => { tally with applied := tally.applied + 1 }
  | .ok .discarded => { tally with discarded := tally.discarded + 1 }
  | .error _ => { tally with failed := tally.failed + 1 }

/-- A periodic refresh: its period, the time at which the next tick is due, both in milliseconds,
and its tally. -/
structure Periodic where
  period : Nat
  tick : Nat
  tally : RefreshTally

namespace Periodic

/-- How late a tick may be without skipping others. -/
def leeway : Nat := 5

def start (period now : Nat) : Periodic :=
  ⟨period, now, ⟨0, 0, 0⟩⟩

/-- Takes the tick that is due. -/
def take (periodic : Periodic) (now : Nat) : Periodic :=
  let late := now - periodic.tick
  -- every tick lies a number of periods after the first one
  let tick :=
    if late ≤ leeway then periodic.tick + periodic.period
    else now + (periodic.period - late % periodic.period)
  { periodic with tick := tick }

/-- Counts a refresh that has ended. -/
def count (periodic : Periodic) (outcome : Except ChartError RefreshOutcome) : Periodic :=
  { periodic with tally := periodic.tally.count outcome }

end Periodic

end ChartSchema
