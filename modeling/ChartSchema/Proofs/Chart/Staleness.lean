import Mathlib.Data.List.Basic
import ChartSchema.Chart.Refresh

/-!
# Stale refreshes

Refreshes of one chart may overlap in any order, and the document and the props may be replaced
between any two of them. A **live chart** is the chart together with the refreshes in flight, each
with its ticket and with its rendering as it was when it started; `LiveChart.Step` lists what can
happen to it between two waits, and `LiveChart.Run` is everything that can happen to a new chart,
with the **history** of what was observed.

What a rendering comes to depends on the environment, on replies and on the clock, of which nothing
is assumed: `renders` says of a refresh which results it may end with. Of real renderings it is
`Rendering.ComesTo`, and then a description is compiled from the document and the props with which
the rendering started (`Rendering.StartsFrom.exists_describe`).

A refresh that ends is discarded exactly when a newer one has started or the version has moved on,
and nothing else changes the current description (`LiveChart.Ending`). Two invariants carry this:

* `LiveChart.Run.elapsed`: the counters of the chart differ from those on a ticket by what the
  history holds behind the start of that refresh. Versions only count up, so that a document that is
  replaced and then put back still discards the refreshes of before.
* `LiveChart.Tracked`: an unchanged version means an unchanged document and unchanged props, so that
  a refresh that is applied was rendered from what the chart holds then, and the numbers of applied
  refreshes increase.

The main statement is `LiveChart.Run.only_latest_applied`.
-/

namespace ChartSchema

/-- What is observed of a chart. -/
inductive ChartEvent where
  | started (ticket : RefreshTicket)
  /-- A refresh has ended: what it rendered, and what it answers. -/
  | finished (ticket : RefreshTicket) (result : Except ChartError Description)
      (outcome : Except ChartError RefreshOutcome)
  | documentReplaced (document : String)
  | propsReplaced (props : Option Json)
  | tornDown

namespace ChartEvent

/-- Whether a refresh starts. -/
def isStart : ChartEvent → Bool
  | started _ => true
  | _ => false

/-- Whether the document or the props are replaced. -/
def isReplacement : ChartEvent → Bool
  | documentReplaced _ => true
  | propsReplaced _ => true
  | _ => false

/-- The sequence number of a refresh that was applied. -/
def applied? : ChartEvent → Option Nat
  | finished ticket _ (.ok .applied) => some ticket.sequence
  | _ => none

end ChartEvent

/-- The sequence numbers of the refreshes that were applied, in the order in which they were. -/
def appliedSequences (history : List ChartEvent) : List Nat :=
  history.filterMap ChartEvent.applied?

/-- What a chart holds after what was observed: the document and the props that were put in last,
or those that it was made with. -/
def heldAfter (document : String) (props : Option Json) (history : List ChartEvent) :
    String × Option Json :=
  history.foldl (fun held event => match event with
    | .documentReplaced document => (document, held.2)
    | .propsReplaced props => (held.1, props)
    | _ => held) (document, props)

/-- Something of a kind was observed after the refresh with a ticket had started. -/
def Since (ticket : RefreshTicket) (kind : ChartEvent → Bool) (history : List ChartEvent) : Prop :=
  ∃ before after, history = before ++ .started ticket :: after ∧ ∃ event ∈ after, kind event = true

/-! ### What renderings come to -/

/-- A rendering as it starts, of a document with props in some environment. -/
def Rendering.StartsFrom (rendering : Rendering) (document : String) (props : Option Json) : Prop :=
  ∃ (environment : Environment) (cancelled : Bool) (tracker : ShapeTracker) (now : Int),
    rendering = (environment.startRendering document props cancelled tracker now).1

/-- What a rendering can come to: events happen to it, each in any environment, until it has
ended. -/
inductive Rendering.ComesTo : Rendering → Except ChartError Description → Prop
  | ended {rendering : Rendering} {result : Except ChartError Description}
    (hresult : rendering.result? = some result) : ComesTo rendering result
  | next {rendering : Rendering} {result : Except ChartError Description}
    (environment : Environment) (event : SendEvent) (now : Int)
    (hcomes : ComesTo (environment.advance rendering event now).1 result) :
    ComesTo rendering result

/-- What a rendering describes that fetches for a compiled chart. -/
theorem Rendering.ComesTo.exists_describe {compiled : CompiledChart} {source : DataSource}
    {rendering : Rendering} {description : Description}
    (h : rendering.ComesTo (.ok description))
    (hrendering : ∃ fetch, rendering = .fetching compiled source fetch) :
    ∃ payload, description = compiled.describe source payload := by
  generalize hresult : (Except.ok description : Except ChartError Description) = result at h
  induction h with
  | ended hended =>
    obtain ⟨fetch, rfl⟩ := hrendering
    rw [Rendering.result?, Option.map_eq_some_iff] at hended
    obtain ⟨outcome, -, hanswer⟩ := hended
    cases outcome with
    | ok payload =>
      rw [← hresult] at hanswer
      exact ⟨payload, (Except.ok.inj hanswer).symm⟩
    | error error =>
      rw [← hresult] at hanswer
      cases hanswer
  | next environment event now _ ih =>
    obtain ⟨fetch, rfl⟩ := hrendering
    exact ih ⟨_, rfl⟩ hresult

/-- **Whatever a rendering comes to was compiled from the document and the props it started
with**, in the environment in which it started. -/
theorem Rendering.StartsFrom.exists_describe {document : String} {props : Option Json}
    {rendering : Rendering} {description : Description}
    (hstart : rendering.StartsFrom document props) (h : rendering.ComesTo (.ok description)) :
    ∃ (environment : Environment) (source : DataSource) (payload : Json),
      (environment.compile document props).source = .ok source ∧
        description = (environment.compile document props).describe source payload := by
  obtain ⟨environment, cancelled, tracker, now, rfl⟩ := hstart
  cases hsource : (environment.compile document props).source with
  | error error =>
    simp only [Environment.startRendering, hsource] at h
    generalize hfailed : Rendering.failed error = rendering at h
    generalize hresult : (Except.ok description : Except ChartError Description) = result at h
    -- a rendering that has failed stays as it is, whatever happens to it
    induction h with
    | ended hended =>
      subst hfailed
      rw [← hresult] at hended
      cases hended
    | next _ _ _ _ ih =>
      subst hfailed
      exact ih rfl hresult
  | ok source =>
    simp only [Environment.startRendering, hsource] at h
    obtain ⟨payload, hpayload⟩ := h.exists_describe ⟨_, rfl⟩
    exact ⟨environment, source, payload, hsource, hpayload⟩

section Outcomes

variable {ε α : Type} {outcome : Option (Except ε α)}

theorem exists_ok_of_isSome (h : (outcome.bind Except.toOption).isSome = true) :
    ∃ value, outcome = some (.ok value) := by
  cases outcome with
  | none => cases h
  | some result =>
    cases result with
    | ok value => exact ⟨value, rfl⟩
    | error error => cases h

/-- An end that is there and no value is an error. -/
theorem exists_error_of_any (h : (outcome.any fun result => result.toOption.isNone) = true) :
    ∃ error, outcome = some (.error error) := by
  cases outcome with
  | none => cases h
  | some result =>
    cases result with
    | ok value => cases h
    | error error => exact ⟨error, rfl⟩

end Outcomes

/-- A chart and its refreshes under way, each as it started. -/
structure LiveChart where
  chart : Chart
  inFlight : List Refresh

namespace LiveChart

/-- A chart that was just made. -/
def new (document : String) (props : Option Json) : LiveChart :=
  ⟨.new document props, []⟩

/-! ### What can happen -/

variable (renders : Refresh → Except ChartError Description → Prop)

/-- What can happen to a chart between two waits. A refresh can start in any environment, and any
refresh under way can end with any result that it can have: `renders` says which, and may allow
for any result or only for those that the rendering of the refresh comes to. -/
inductive Step : LiveChart → ChartEvent → LiveChart → Prop where
  | start (chart : Chart) (inFlight : List Refresh) (environment : Environment) (now : Int) :
    Step ⟨chart, inFlight⟩ (.started (chart.startRefresh environment now).1.ticket)
      ⟨(chart.startRefresh environment now).2.1,
        (chart.startRefresh environment now).1 :: inFlight⟩
  | finish (chart : Chart) (before after : List Refresh) (refresh : Refresh)
      (result : Except ChartError Description) (rendered : renders refresh result) :
    Step ⟨chart, before ++ refresh :: after⟩
      (.finished refresh.ticket result (chart.finish refresh.ticket result).1)
      ⟨(chart.finish refresh.ticket result).2, before ++ after⟩
  | replaceDocument (chart : Chart) (inFlight : List Refresh) (document : String) :
    Step ⟨chart, inFlight⟩ (.documentReplaced document) ⟨chart.updateDocument document, inFlight⟩
  | replaceProps (chart : Chart) (inFlight : List Refresh) (props : Option Json) :
    Step ⟨chart, inFlight⟩ (.propsReplaced props) ⟨chart.updateProps props, inFlight⟩
  | tearDown (chart : Chart) (inFlight : List Refresh) :
    Step ⟨chart, inFlight⟩ .tornDown ⟨chart.tearDown, inFlight⟩

/-- What can happen to a new chart, step by step, and what was observed. -/
inductive Run (document : String) (props : Option Json) : List ChartEvent → LiveChart → Prop where
  | new : Run document props [] (new document props)
  | step {history : List ChartEvent} {event : ChartEvent} {live live' : LiveChart} :
    Run document props history live → Step renders live event live' →
      Run document props (history ++ [event]) live'

/-- How a refresh with a ticket ends, with `live` and `live'` the chart before and after. -/
structure Ending (history : List ChartEvent) (live live' : LiveChart) (ticket : RefreshTicket)
    (result : Except ChartError Description) (outcome : Except ChartError RefreshOutcome) :
    Prop where
  /-- It is discarded exactly when it is stale, whatever was rendered. -/
  discarded_iff : outcome = .ok .discarded ↔
    Since ticket ChartEvent.isStart history ∨ live.chart.version ≠ ticket.version
  /-- The version has moved on exactly when the document or the props were replaced. -/
  version_ne_iff : live.chart.version ≠ ticket.version ↔
    Since ticket ChartEvent.isReplacement history
  /-- A refresh that is not stale is applied if it was rendered. -/
  applied : outcome ≠ .ok .discarded → ∀ description, result = .ok description →
    outcome = .ok .applied ∧ live'.chart.current = some description
  /-- A refresh that is not stale fails if rendering failed. -/
  failed : outcome ≠ .ok .discarded → ∀ error, result = .error error →
    outcome = .error error ∧ live'.chart.current = live.chart.current
  /-- What is applied was rendered from what the chart holds. -/
  rendered : outcome = .ok .applied → ∃ description, result = .ok description ∧
    live'.chart.current = some description ∧
      ∃ refresh : Refresh, refresh.ticket = ticket ∧ renders refresh (.ok description) ∧
        refresh.rendering.StartsFrom live.chart.document live.chart.props
  /-- Nothing but an applied refresh changes the current description. -/
  unchanged : outcome ≠ .ok .applied → live'.chart.current = live.chart.current

/-! ### Counters and history -/

/-- How a chart relates to a ticket when `after` was observed behind the start of its refresh. -/
structure Elapsed (ticket : RefreshTicket) (after : List ChartEvent) (chart : Chart) : Prop where
  sequence : chart.sequence = ticket.sequence + after.countP ChartEvent.isStart
  version : chart.version = ticket.version + after.countP ChartEvent.isReplacement
  held : after.countP ChartEvent.isReplacement = 0 →
    chart.document = ticket.document ∧ chart.props = ticket.props

variable {renders}

/-- A refresh that has just started. -/
theorem Step.elapsed_nil {live live' : LiveChart} {ticket : RefreshTicket}
    (h : Step renders live (.started ticket) live') : Elapsed ticket [] live'.chart := by
  cases h
  exact ⟨rfl, rfl, fun _ => ⟨rfl, rfl⟩⟩

/-- Ending a refresh touches the current description only. -/
theorem finish_chart (chart : Chart) (ticket : RefreshTicket)
    (result : Except ChartError Description) :
    (chart.finish ticket result).2 =
      { chart with current := (chart.finish ticket result).2.current } := by
  unfold Chart.finish
  split
  · cases result <;> rfl
  · rfl

/-- One more step moves the counters by what it adds to the history. -/
theorem Step.elapsed_concat {live live' : LiveChart} {event : ChartEvent}
    (h : Step renders live event live') {ticket : RefreshTicket} {after : List ChartEvent}
    (he : Elapsed ticket after live.chart) : Elapsed ticket (after ++ [event]) live'.chart := by
  obtain ⟨hsequence, hversion, hheld⟩ := he
  cases h with
  | start chart inFlight environment now =>
    refine ⟨?_, ?_, fun h => hheld ?_⟩
    · change chart.sequence + 1 = _
      simp only [List.countP_append, List.countP_singleton, ChartEvent.isStart, if_true]
      exact hsequence ▸ Nat.add_assoc ..
    · change chart.version = _
      simpa [ChartEvent.isReplacement] using hversion
    · simpa [ChartEvent.isReplacement] using h
  | finish chart before after' other result rendered =>
    rw [finish_chart]
    exact ⟨by simpa [ChartEvent.isStart] using hsequence,
      by simpa [ChartEvent.isReplacement] using hversion,
      fun h => hheld (by simpa [ChartEvent.isReplacement] using h)⟩
  | replaceDocument chart inFlight document =>
    refine ⟨by simpa [ChartEvent.isStart, Chart.updateDocument] using hsequence, ?_, fun h => ?_⟩
    · change chart.version + 1 = _
      simp only [List.countP_append, List.countP_singleton, ChartEvent.isReplacement, if_true]
      exact hversion ▸ Nat.add_assoc ..
    · simp [ChartEvent.isReplacement] at h
  | replaceProps chart inFlight props =>
    refine ⟨by simpa [ChartEvent.isStart, Chart.updateProps] using hsequence, ?_, fun h => ?_⟩
    · change chart.version + 1 = _
      simp only [List.countP_append, List.countP_singleton, ChartEvent.isReplacement, if_true]
      exact hversion ▸ Nat.add_assoc ..
    · simp [ChartEvent.isReplacement] at h
  | tearDown chart inFlight =>
    exact ⟨by simpa [ChartEvent.isStart, Chart.tearDown] using hsequence,
      by simpa [ChartEvent.isReplacement, Chart.tearDown] using hversion,
      fun h => hheld (by simpa [ChartEvent.isReplacement] using h)⟩

variable {document : String} {props : Option Json} {history : List ChartEvent} {live : LiveChart}

/-- Wherever the start of a refresh stands in the history, the counters of the chart differ from
those on its ticket by what the history holds behind it. -/
theorem Run.elapsed (run : Run renders document props history live) {before after : List ChartEvent}
    {ticket : RefreshTicket} (h : history = before ++ .started ticket :: after) :
    Elapsed ticket after live.chart := by
  induction run generalizing after with
  | new => simp at h
  | step run hstep ih =>
    rcases List.eq_nil_or_concat' after with rfl | ⟨after, last, rfl⟩
    -- the refresh has just started
    · obtain ⟨-, hlast⟩ := List.append_inj' h rfl
      obtain rfl := List.singleton_inj.1 hlast
      exact hstep.elapsed_nil
    · rw [← List.cons_append, ← List.append_assoc] at h
      obtain ⟨hhistory, hlast⟩ := List.append_inj' h rfl
      obtain rfl := List.singleton_inj.1 hlast
      exact hstep.elapsed_concat (ih hhistory)

/-- A refresh in the history was overtaken exactly when the sequence number has moved on. -/
theorem Run.sequence_ne_iff (run : Run renders document props history live)
    {ticket : RefreshTicket} (hstarted : .started ticket ∈ history) :
    live.chart.sequence ≠ ticket.sequence ↔ Since ticket ChartEvent.isStart history := by
  constructor
  · intro hne
    obtain ⟨before, after, hhistory⟩ := List.append_of_mem hstarted
    have hsequence := (run.elapsed hhistory).sequence
    have hpos : 0 < after.countP ChartEvent.isStart := by omega
    exact ⟨before, after, hhistory, List.countP_pos_iff.1 hpos⟩
  · rintro ⟨before, after, hhistory, hevent⟩
    have hsequence := (run.elapsed hhistory).sequence
    have hpos := List.countP_pos_iff.2 hevent
    omega

/-- The document or the props were replaced behind the start of a refresh in the history exactly
when the version has moved on. -/
theorem Run.version_ne_iff (run : Run renders document props history live)
    {ticket : RefreshTicket} (hstarted : .started ticket ∈ history) :
    live.chart.version ≠ ticket.version ↔ Since ticket ChartEvent.isReplacement history := by
  constructor
  · intro hne
    obtain ⟨before, after, hhistory⟩ := List.append_of_mem hstarted
    have hversion := (run.elapsed hhistory).version
    have hpos : 0 < after.countP ChartEvent.isReplacement := by omega
    exact ⟨before, after, hhistory, List.countP_pos_iff.1 hpos⟩
  · rintro ⟨before, after, hhistory, hevent⟩
    have hversion := (run.elapsed hhistory).version
    have hpos := List.countP_pos_iff.2 hevent
    omega

/-! ### Refreshes under way -/

/-- The sequence number of a refresh. -/
abbrev number (refresh : Refresh) : Nat :=
  refresh.ticket.sequence

/-- The refreshes under way have started, each with a sequence number of its own and rendering what
its ticket says, and none of them has the number of a refresh that was applied. -/
structure Tracked (history : List ChartEvent) (live : LiveChart) : Prop where
  started : ∀ refresh ∈ live.inFlight, .started refresh.ticket ∈ history
  rendering : ∀ refresh ∈ live.inFlight,
    refresh.rendering.StartsFrom refresh.ticket.document refresh.ticket.props
  bounded : ∀ refresh ∈ live.inFlight, number refresh ≤ live.chart.sequence
  distinct : (live.inFlight.map number).Nodup
  applied_le : ∀ sequence ∈ appliedSequences history, sequence ≤ live.chart.sequence
  applied_ended : ∀ sequence ∈ appliedSequences history, sequence ∉ live.inFlight.map number
  increasing : (appliedSequences history).Pairwise (· < ·)

/-- A refresh is applied exactly when it is the latest and was rendered. -/
theorem finish_applied_iff {chart : Chart} {ticket : RefreshTicket}
    {result : Except ChartError Description} :
    (chart.finish ticket result).1 = .ok .applied ↔
      chart.isLatest ticket = true ∧ ∃ description, result = .ok description := by
  unfold Chart.finish
  by_cases hlatest : chart.isLatest ticket = true
  · cases result <;> simp [hlatest]
  · simp [hlatest]

/-- A refresh is the latest if neither counter has moved on. -/
theorem isLatest_iff {chart : Chart} {ticket : RefreshTicket} :
    chart.isLatest ticket = true ↔
      chart.sequence = ticket.sequence ∧ chart.version = ticket.version := by
  simp [Chart.isLatest]

theorem appliedSequences_concat (history : List ChartEvent) (event : ChartEvent) :
    appliedSequences (history ++ [event]) = appliedSequences history ++ event.applied?.toList := by
  unfold appliedSequences
  rw [List.filterMap_append]
  cases h : event.applied? <;> simp [h]

/-- A step that applies nothing, starts nothing and counts no sequence number. -/
theorem Tracked.quiet {live live' : LiveChart} {event : ChartEvent} (h : Tracked history live)
    (hevent : event.applied? = none) (hinFlight : live'.inFlight.Sublist live.inFlight)
    (hsequence : live'.chart.sequence = live.chart.sequence) :
    Tracked (history ++ [event]) live' := by
  have happlied : appliedSequences (history ++ [event]) = appliedSequences history := by
    rw [appliedSequences_concat, hevent, Option.toList_none, List.append_nil]
  refine ⟨fun refresh hmem => ?_, fun refresh hmem => h.rendering refresh (hinFlight.mem hmem),
    fun refresh hmem => ?_, ?_, ?_, ?_, ?_⟩
  · exact List.mem_append_left _ (h.started refresh (hinFlight.mem hmem))
  · exact hsequence ▸ h.bounded refresh (hinFlight.mem hmem)
  · exact h.distinct.sublist (hinFlight.map _)
  · rw [happlied, hsequence]
    exact h.applied_le
  · rw [happlied]
    exact fun sequence hmem hin => h.applied_ended sequence hmem ((hinFlight.map _).mem hin)
  · rw [happlied]
    exact h.increasing

/-- An applied refresh has the largest sequence number, which no refresh before it had. -/
theorem Tracked.apply {chart : Chart} {before after : List Refresh} {refresh : Refresh}
    {description : Description} (h : Tracked history ⟨chart, before ++ refresh :: after⟩)
    (hsequence : chart.sequence = number refresh) :
    Tracked (history ++ [.finished refresh.ticket (.ok description) (.ok .applied)])
      ⟨{ chart with current := some description }, before ++ after⟩ := by
  have hsub : (before ++ after).Sublist (before ++ refresh :: after) :=
    (List.sublist_cons_self refresh after).append_left before
  have happlied :
      appliedSequences (history ++ [.finished refresh.ticket (.ok description) (.ok .applied)]) =
        appliedSequences history ++ [number refresh] := appliedSequences_concat ..
  have hrefresh : refresh ∈ before ++ refresh :: after := by simp
  -- no other refresh under way has the number of the one that ends
  have hfresh : number refresh ∉ (before ++ after).map number := by
    have hperm : ((before ++ refresh :: after).map number).Perm
        (number refresh :: (before ++ after).map number) := List.perm_middle.map _
    exact (List.nodup_cons.1 (hperm.nodup_iff.1 h.distinct)).1
  -- numbers are at most the last one given out, which is that of this refresh
  have hlt : ∀ sequence ∈ appliedSequences history, sequence < number refresh := by
    intro sequence hmem
    have hle := h.applied_le sequence hmem
    have hne : number refresh ≠ sequence := fun heq =>
      h.applied_ended sequence hmem (List.mem_map.2 ⟨refresh, hrefresh, heq⟩)
    simp only at hle
    omega
  refine ⟨fun other hmem => ?_, fun other hmem => h.rendering other (hsub.mem hmem),
    fun other hmem => h.bounded other (hsub.mem hmem), ?_, ?_, ?_, ?_⟩
  · exact List.mem_append_left _ (h.started other (hsub.mem hmem))
  · exact h.distinct.sublist (hsub.map _)
  · rw [happlied]
    intro sequence hmem
    rcases List.mem_append.1 hmem with hmem | hmem
    · exact h.applied_le sequence hmem
    · exact Nat.le_of_eq ((List.mem_singleton.1 hmem).trans hsequence.symm)
  · rw [happlied]
    intro sequence hmem
    rcases List.mem_append.1 hmem with hmem | hmem
    · exact fun hin => h.applied_ended sequence hmem ((hsub.map _).mem hin)
    · exact List.mem_singleton.1 hmem ▸ hfresh
  · rw [happlied, List.pairwise_append]
    refine ⟨h.increasing, List.pairwise_singleton _ _, fun sequence hmem other hother => ?_⟩
    exact List.mem_singleton.1 hother ▸ hlt sequence hmem

/-- A refresh that starts takes a sequence number that is larger than all before. -/
theorem Tracked.start {chart : Chart} {inFlight : List Refresh} (environment : Environment)
    (now : Int) (h : Tracked history ⟨chart, inFlight⟩) :
    Tracked (history ++ [.started (chart.startRefresh environment now).1.ticket])
      ⟨(chart.startRefresh environment now).2.1,
        (chart.startRefresh environment now).1 :: inFlight⟩ := by
  have hsequence : (chart.startRefresh environment now).2.1.sequence = chart.sequence + 1 := rfl
  have hnumber : number (chart.startRefresh environment now).1 = chart.sequence + 1 := rfl
  have hrendering : (chart.startRefresh environment now).1.rendering.StartsFrom
      (chart.startRefresh environment now).1.ticket.document
      (chart.startRefresh environment now).1.ticket.props :=
    ⟨environment, chart.isTornDown, chart.tracker, now, rfl⟩
  -- of the refresh that starts only these facts are needed
  generalize chart.startRefresh environment now = started at hsequence hnumber hrendering ⊢
  have happlied : appliedSequences (history ++ [.started started.1.ticket]) =
      appliedSequences history := by
    rw [appliedSequences_concat]
    exact List.append_nil _
  refine ⟨List.forall_mem_cons.2 ⟨by simp, fun refresh hmem => ?_⟩,
    List.forall_mem_cons.2 ⟨hrendering, h.rendering⟩,
    List.forall_mem_cons.2 ⟨Nat.le_of_eq (hnumber.trans hsequence.symm), fun refresh hmem => ?_⟩,
    ?_, ?_, ?_, ?_⟩
  · exact List.mem_append_left _ (h.started refresh hmem)
  · have := h.bounded refresh hmem
    simp only at this ⊢
    omega
  · refine List.nodup_cons.2 ⟨fun hin => ?_, h.distinct⟩
    obtain ⟨refresh, hmem, heq⟩ := List.mem_map.1 hin
    have := h.bounded refresh hmem
    simp only at this
    omega
  · rw [happlied]
    intro sequence hmem
    have := h.applied_le sequence hmem
    simp only at this ⊢
    omega
  · rw [happlied]
    intro sequence hmem hin
    have hle := h.applied_le sequence hmem
    rcases List.mem_cons.1 hin with heq | hin
    · simp only at hle
      omega
    · exact h.applied_ended sequence hmem hin
  · rw [happlied]
    exact h.increasing

/-- Every step keeps the invariant; only the end of a refresh that is applied needs an argument. -/
theorem Tracked.step {live live' : LiveChart} {event : ChartEvent} (h : Tracked history live)
    (hstep : Step renders live event live') : Tracked (history ++ [event]) live' := by
  cases hstep with
  | start chart inFlight environment now => exact h.start environment now
  | finish chart before after refresh result rendered =>
    by_cases happlied : (chart.finish refresh.ticket result).1 = .ok .applied
    · obtain ⟨hlatest, description, rfl⟩ := finish_applied_iff.1 happlied
      have hchart : chart.finish refresh.ticket (.ok description) =
          (.ok .applied, { chart with current := some description }) := by
        simp [Chart.finish, hlatest]
      rw [hchart]
      exact h.apply (isLatest_iff.1 hlatest).1
    · refine h.quiet ?_ ((List.sublist_cons_self refresh after).append_left before) ?_
      · generalize (chart.finish refresh.ticket result).1 = outcome at happlied
        match outcome, happlied with
        | .ok .discarded, _ => rfl
        | .error _, _ => rfl
      · rw [finish_chart]
  | replaceDocument chart inFlight document => exact h.quiet rfl (List.Sublist.refl _) rfl
  | replaceProps chart inFlight props => exact h.quiet rfl (List.Sublist.refl _) rfl
  | tearDown chart inFlight => exact h.quiet rfl (List.Sublist.refl _) rfl

theorem Run.tracked (run : Run renders document props history live) : Tracked history live := by
  induction run with
  | new =>
    exact ⟨fun _ h => absurd h List.not_mem_nil, fun _ h => absurd h List.not_mem_nil,
      fun _ h => absurd h List.not_mem_nil, List.nodup_nil,
      fun _ h => absurd h List.not_mem_nil, fun _ h => absurd h List.not_mem_nil,
      List.Pairwise.nil⟩
  | step run hstep ih => exact ih.step hstep

/-! ### What a chart holds -/

/-- A chart holds what was put in last. -/
theorem Run.held (run : Run renders document props history live) :
    (live.chart.document, live.chart.props) = heldAfter document props history := by
  induction run with
  | new => rfl
  | step run hstep ih =>
    rw [heldAfter, List.foldl_concat, ← heldAfter, ← ih]
    cases hstep with
    | start | replaceDocument | replaceProps | tearDown => rfl
    | finish chart before after refresh result rendered => rw [finish_chart]

/-! ### How refreshes end -/

/-- **How a refresh ends in a run** is decided by the history behind its start. -/
theorem Run.ending (run : Run renders document props history live) {live' : LiveChart}
    {ticket : RefreshTicket} {result : Except ChartError Description}
    {outcome : Except ChartError RefreshOutcome}
    (hstep : Step renders live (.finished ticket result outcome) live') :
    Ending renders history live live' ticket result outcome := by
  cases hstep with
  | finish chart before after refresh _ rendered =>
    have hmem : refresh ∈ before ++ refresh :: after := by simp
    have hstarted : .started refresh.ticket ∈ history := run.tracked.started refresh hmem
    have hsequence := run.sequence_ne_iff hstarted
    by_cases hlatest : chart.isLatest refresh.ticket = true
    · obtain ⟨hsame, hversion⟩ := isLatest_iff.1 hlatest
      have hfresh : ¬ Since refresh.ticket ChartEvent.isStart history :=
        fun h => hsequence.2 h hsame
      -- nothing was replaced since, so that the ticket says what the chart holds
      have hheld : chart.document = refresh.ticket.document ∧
          chart.props = refresh.ticket.props := by
        obtain ⟨past, future, hhistory⟩ := List.append_of_mem hstarted
        have helapsed := run.elapsed hhistory
        refine helapsed.held ?_
        have := helapsed.version
        simp only at this
        omega
      have hrendering : refresh.rendering.StartsFrom chart.document chart.props := by
        rw [hheld.1, hheld.2]
        exact run.tracked.rendering refresh hmem
      cases result with
      | ok description =>
        have hfinish : chart.finish refresh.ticket (.ok description) =
            (.ok .applied, { chart with current := some description }) := by
          simp [Chart.finish, hlatest]
        rw [hfinish]
        exact ⟨by simp [hfresh, hversion], run.version_ne_iff hstarted, by simp, by simp,
          fun _ => ⟨description, rfl, rfl, refresh, rfl, rendered, hrendering⟩, by simp⟩
      | error error =>
        have hfinish : chart.finish refresh.ticket (.error error) = (.error error, chart) := by
          simp [Chart.finish, hlatest]
        rw [hfinish]
        exact ⟨by simp [hfresh, hversion], run.version_ne_iff hstarted, by simp, by simp, by simp,
          by simp⟩
    · have hfinish : chart.finish refresh.ticket result = (.ok .discarded, chart) := by
        simp [Chart.finish, hlatest]
      have hstale : Since refresh.ticket ChartEvent.isStart history ∨
          chart.version ≠ refresh.ticket.version := by
        rw [isLatest_iff, not_and_or] at hlatest
        exact hlatest.imp_left hsequence.1
      rw [hfinish]
      exact ⟨iff_of_true rfl hstale, run.version_ne_iff hstarted, by simp, by simp, by simp,
        by simp⟩

/-- Nothing but an applied refresh changes the current description. -/
theorem Step.current_eq {live live' : LiveChart} {event : ChartEvent}
    (hstep : Step renders live event live') (hevent : event.applied? = none) :
    live'.chart.current = live.chart.current := by
  cases hstep with
  | finish chart before after refresh result rendered =>
    unfold Chart.finish at hevent ⊢
    split at hevent
    · cases result with
      | ok description => cases hevent
      | error error => simp [*]
    · simp [*]
  | start | replaceDocument | replaceProps | tearDown => rfl

/-- **Only the latest refresh counts.** Whatever happens to a chart in whatever order: refreshes
are applied in the order in which they started, each refresh ends as its being stale or not decides,
and nothing but an applied refresh changes the current description. What an applied refresh has
rendered started from what the chart holds, which is what was put in last. -/
theorem Run.only_latest_applied (run : Run renders document props history live) :
    (appliedSequences history).Pairwise (· < ·) ∧
      (live.chart.document, live.chart.props) = heldAfter document props history ∧
      (∀ ticket result outcome live',
        Step renders live (.finished ticket result outcome) live' →
          Ending renders history live live' ticket result outcome) ∧
      ∀ event live', Step renders live event live' → event.applied? = none →
        live'.chart.current = live.chart.current :=
  ⟨run.tracked.increasing, run.held, fun _ _ _ _ hstep => run.ending hstep,
    fun _ _ hstep hevent => hstep.current_eq hevent⟩

/-- Two refreshes overlap, and the document is replaced and put back between their starts. The newer
one is answered and applied. The older one is cancelled in its fetch afterwards, and its error is
discarded: what was applied stays. -/
theorem Run.only_latest_applied_overlap :
    let document := "source: \"https://a\";"
    let older : RefreshTicket := ⟨1, 0, document, none⟩
    let newer : RefreshTicket := ⟨2, 2, document, none⟩
    let renders := fun refresh : Refresh => refresh.rendering.ComesTo
    ∃ description error live live',
      Run renders document none [.started older, .documentReplaced "type: line;",
        .documentReplaced document, .started newer,
        .finished newer (.ok description) (.ok .applied)] live ∧
      Step renders live (.finished older (.error error) (.ok .discarded)) live' ∧
      live'.chart.current = some description := by
  intro document older newer renders
  let environment := Environment.ofSettings .standard
  have fresh : Run renders document none [] (.new document none) := .new
  have started := fresh.step (.start _ _ environment 0)
  have replaced := started.step (.replaceDocument _ _ "type: line;")
  have restored := replaced.step (.replaceDocument _ _ document)
  have restarted := restored.step (.start _ _ environment 0)
  -- the refreshes, and the chart when both are under way
  let first := ((Chart.new document none).startRefresh environment 0).1
  let held := (((Chart.new document none).startRefresh environment 0).2.1.updateDocument
    "type: line;").updateDocument document
  let second := (held.startRefresh environment 0).1
  let chart := (held.startRefresh environment 0).2.1
  obtain ⟨description, hdescription⟩ : ∃ description,
      (environment.advance second.rendering (.reply (.ok (.ofJson .null))) 0).1.result? =
        some (.ok description) := exists_ok_of_isSome (by decide +kernel)
  obtain ⟨error, herror⟩ : ∃ error,
      (environment.advance first.rendering .cancel 0).1.result? = some (.error error) :=
    exists_error_of_any (by decide +kernel)
  have hsecond : renders second (.ok description) := .next _ _ _ (.ended hdescription)
  have hfirst : renders first (.error error) := .next _ _ _ (.ended herror)
  have hlatest : chart.isLatest second.ticket = true := isLatest_iff.2 ⟨rfl, rfl⟩
  have happlied : chart.finish second.ticket (.ok description) =
      (.ok .applied, { chart with current := some description }) := by
    simp [Chart.finish, hlatest]
  have applied := restarted.step (.finish chart [] [first] second (.ok description) hsecond)
  rw [happlied] at applied
  have hstale : ({ chart with current := some description } : Chart).finish first.ticket
      (.error error) = (.ok .discarded, { chart with current := some description }) := by
    have hnot : ¬ ({ chart with current := some description } : Chart).isLatest first.ticket =
        true := by
      rw [isLatest_iff]
      rintro ⟨hsequence, -⟩
      have htwo : (2 : Nat) = 1 := hsequence
      exact absurd htwo (by decide)
    simp [Chart.finish, hnot]
  have discarded := @Step.finish renders { chart with current := some description } [] [] first
    (.error error) hfirst
  rw [hstale] at discarded
  have ending := applied.only_latest_applied.2.2.1 older (.error error) (.ok .discarded) _ discarded
  exact ⟨description, error, _, _, applied, discarded, ending.unchanged (by simp)⟩

end LiveChart

end ChartSchema
