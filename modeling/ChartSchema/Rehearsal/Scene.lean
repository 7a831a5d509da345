import ChartSchema.Chart.Periodic
import ChartSchema.Rehearsal.Stage

/-!
# Scenes

In a scene several players act on one stage at once, each by a list of **cues**: a pause and then
an action, the end of which the player awaits. A periodic refresh may go on beside them until it
is told to end or its chart is torn down; a refresh that has started is awaited before it looks
for either.

What is due first happens first, and of things that are due at the same time those of the player
who comes first.
-/

namespace ChartSchema.Rehearsal

/-- After a pause in milliseconds, an action on the chart of a number. -/
structure Cue where
  pause : Nat
  chart : Nat
  action : Action

/-- A player. The pause of the first of the cues left runs from the time `since`, and `flight` is
the refresh that it has started. Answers come with the times at which they were given, the newest
first. -/
structure Player where
  cues : List Cue
  flight : Option Flight
  since : Nat
  answers : List (Answer × Nat)

/-- A periodic refresh of the chart of a number. -/
structure Repeater where
  chart : Nat
  periodic : Periodic
  flight : Option Flight
  hasEnded : Bool

structure Scene where
  stage : Stage
  players : List Player
  repeater : Option Repeater
  /-- Whether the periodic refresh was told to end. -/
  isStopped : Bool

/-! ### Players -/

namespace Player

/-- A player who starts at a time. -/
def new (cues : List Cue) (since : Nat) : Player :=
  ⟨cues, none, since, []⟩

/-- When a player has something to do next. -/
def nextTime (player : Player) (stage : Stage) : Option Nat :=
  match player.cues, player.flight with
  | [], _ => none
  | _ :: _, some flight => (stage.nextDue flight).map Due.time
  | cue :: _, none => some (player.since + cue.pause)

/-- The player after an action has ended. -/
def conclude (player : Player) (answer : Answer) (now : Nat) : Player :=
  ⟨player.cues.tail, none, now, (answer, now) :: player.answers⟩

/-- The player after a refresh has come to a point. -/
def record (player : Player) (progress : Progress) (now : Nat) : Player :=
  match progress with
  | .underWay flight => { player with flight := some flight }
  | .over outcome => player.conclude (.refreshed outcome) now

end Player

/-! ### Periodic refreshes -/

namespace Repeater

/-- A periodic refresh that starts at a time. -/
def new (chart period now : Nat) : Repeater :=
  ⟨chart, .start period now, none, false⟩

/-- Whether a periodic refresh between two refreshes has to end. -/
def mustEnd (repeater : Repeater) (stage : Stage) (isStopped : Bool) : Bool :=
  isStopped || (stage.chart repeater.chart).isTornDown

/-- When a periodic refresh has something to do next. -/
def nextTime (repeater : Repeater) (stage : Stage) (isStopped : Bool) : Option Nat :=
  if repeater.hasEnded then none
  else match repeater.flight with
    | some flight => (stage.nextDue flight).map Due.time
    | none =>
      if repeater.mustEnd stage isStopped then some stage.clock
      else some repeater.periodic.tick

/-- The periodic refresh after a refresh has come to a point. -/
def record (repeater : Repeater) : Progress → Repeater
  | .underWay flight => { repeater with flight := some flight }
  | .over outcome =>
    { repeater with flight := none, periodic := repeater.periodic.count outcome }

/-- Does what there is to do. -/
def step (repeater : Repeater) (stage : Stage) (isStopped : Bool) : Repeater × Stage :=
  match repeater.flight with
  | some flight =>
    let (progress, stage) := stage.proceed flight
    (repeater.record progress, stage)
  | none =>
    if repeater.mustEnd stage isStopped then ({ repeater with hasEnded := true }, stage)
    else
      let (progress, stage) := stage.launch repeater.chart
      -- the next tick is fixed when this one is taken, however long the refresh will be
      let repeater := { repeater with periodic := repeater.periodic.take stage.clock }
      (repeater.record progress, stage)

end Repeater

/-! ### Scenes -/

namespace Scene

/-- A scene with players only. -/
def ofPlayers (stage : Stage) (cues : List (List Cue)) : Scene :=
  ⟨stage, cues.map fun cues => .new cues stage.clock, none, false⟩

/-- A scene with one player beside a periodic refresh. -/
def ofPeriodic (stage : Stage) (chart period : Nat) (cues : List Cue) : Scene :=
  ⟨stage, [.new cues stage.clock], some (.new chart period stage.clock), false⟩

/-- Who acts in a scene. -/
inductive Actor where
  | player (number : Nat)
  | repeater

/-- Who has something to do next, and when. -/
def upcoming (scene : Scene) : List (Nat × Actor) :=
  let players := scene.players.mapIdx fun number player =>
    (player.nextTime scene.stage).map fun time => (time, Actor.player number)
  let repeater := scene.repeater.bind fun repeater =>
    (repeater.nextTime scene.stage scene.isStopped).map fun time => (time, Actor.repeater)
  (players ++ [repeater]).filterMap id

/-- The first of the earliest. -/
def earliest? : List (Nat × Actor) → Option (Nat × Actor)
  | [] => none
  | first :: rest =>
    match earliest? rest with
    | none => some first
    | some other => if other.1 < first.1 then some other else some first

/-- Lets a player do what there is to do. -/
def stepPlayer (scene : Scene) (number : Nat) (player : Player) : Scene :=
  let stage := scene.stage
  let update (player : Player) (stage : Stage) : Scene :=
    { scene with players := scene.players.set number player, stage := stage }
  match player.flight, player.cues with
  | _, [] => scene
  | some flight, _ =>
    let (progress, stage) := stage.proceed flight
    update (player.record progress stage.clock) stage
  | none, cue :: _ =>
    match cue.action with
    | .refresh =>
      let (progress, stage) := stage.launch cue.chart
      update (player.record progress stage.clock) stage
    | .endPeriodic => { update (player.conclude .done stage.clock) stage with isStopped := true }
    | action => update (player.conclude .done stage.clock) (stage.act cue.chart action)

/-- Lets the next thing happen. -/
def step? (scene : Scene) : Option Scene :=
  (earliest? scene.upcoming).map fun (time, actor) =>
    let scene := { scene with stage := scene.stage.wait time }
    match actor with
    | .player number =>
      match scene.players[number]? with
      | some player => scene.stepPlayer number player
      | none => scene
    | .repeater =>
      match scene.repeater with
      | some repeater =>
        let (repeater, stage) := repeater.step scene.stage scene.isStopped
        { scene with repeater := some repeater, stage := stage }
      | none => scene

/-- Lets things happen until there is nothing to do, up to a number of them. -/
def playUpTo : Nat → Scene → Scene
  | 0, scene => scene
  | limit + 1, scene =>
    match scene.step? with
    | some scene => playUpTo limit scene
    | none => scene

/-- More than the things that can happen in a scene. A refresh takes at most so many events and so
many milliseconds, and a periodic refresh ticks at most once in a millisecond. -/
def limit (scene : Scene) : Nat :=
  let sources := scene.stage.environment.sources
  let retry := sources.request.retry
  let refreshTime :=
    retry.attempts * (sources.request.timeout + sources.queryTimeout + retry.maxBackoff)
  let cues := scene.players.flatMap Player.cues
  let time :=
    cues.foldl (fun total cue => total + cue.pause) ((cues.length + 1) * refreshTime)
  (cues.length + time + 2) * (scene.stage.eventsOfRefresh + 2)

/-- Plays a scene to its end. -/
def play (scene : Scene) : Scene :=
  playUpTo scene.limit scene

/-- What each player was answered, in the order of the cues. -/
def answers (scene : Scene) : List (List (Answer × Nat)) :=
  scene.players.map fun player => player.answers.reverse

/-- The tally of the periodic refresh. -/
def tally (scene : Scene) : RefreshTally :=
  (scene.repeater.map fun repeater => repeater.periodic.tally).getD ⟨0, 0, 0⟩

end Scene

end ChartSchema.Rehearsal
