import ChartSchema.Proofs.Chart.Staleness
import ChartSchema.Proofs.Fetch.Origins
import ChartSchema.Proofs.Fields.Lookup

/-!
# Charts that are torn down

A chart that is torn down cancels its refreshes, those to come included. A refresh that starts
afterwards has ended when it starts: it sends nothing and no event changes it. But what the cache
holds is served even to a fetch that is cancelled, so such a refresh may still be applied.
`RefreshingChart.ends_after_tearDown` says when: exactly if it is the latest on its end and the
cache held an entry for it on its start.

A **refreshing chart** is a chart with all its refreshes, numbered in the order in which they
started, and how they have ended. What is fetched depends on the environment, which charts share; so
every input brings the environment that it meets, in any state, and nothing is assumed about how it
came to be so.

The argument has three parts. A chart stays torn down (`isTornDown_replay`). A rendering that starts
cancelled has a result at once (`Chart.exists_cancelledResult`): an error of the document, the
payload from the cache, or the error of a cancelled fetch, for each kind of source. And a refresh
with a result is settled: no input changes what it will end with, until it ends (`Settled.act`),
however many other refreshes start, end or are cancelled meanwhile.

That a refresh is applied behind a teardown is shown in a run with three stages
(`applied_after_tearDown`): a refresh is answered and its payload is kept by the cache, the document
is replaced by one with the same source, and then the chart is torn down and refreshed.
-/

namespace ChartSchema

/-! ### Runs -/

/-- What can happen to a chart and its refreshes. -/
inductive ChartInput where
  | start (environment : Environment) (now : Int)
  | happen (number : Nat) (environment : Environment) (event : SendEvent) (now : Int)
  /-- A refresh ends, if its rendering has ended. -/
  | finish (number : Nat)
  | replaceDocument (document : String)
  | replaceProps (props : Option Json)
  | tearDown

/-- How a refresh has ended: its number, what it answers, and the chart before and after. -/
structure RefreshEnd where
  number : Nat
  outcome : Except ChartError RefreshOutcome
  before : Chart
  after : Chart

/-- A chart with its refreshes, those that have ended left out, and how these have ended. -/
structure RefreshingChart where
  chart : Chart
  refreshes : List (Option Refresh)
  ends : List RefreshEnd

namespace RefreshingChart

/-- A chart that was just made. -/
def new (document : String) (props : Option Json) : RefreshingChart :=
  ⟨.new document props, [], []⟩

/-- A refresh starts. -/
def start (live : RefreshingChart) (environment : Environment) (now : Int) : RefreshingChart :=
  let (refresh, chart, _) := live.chart.startRefresh environment now
  { live with chart := chart, refreshes := live.refreshes ++ [some refresh] }

/-- An event happens to a refresh. -/
def happen (live : RefreshingChart) (number : Nat) (environment : Environment) (event : SendEvent)
    (now : Int) : RefreshingChart :=
  match live.refreshes[number]? with
  | some (some refresh) =>
    let (rendering, _) := environment.advance refresh.rendering event now
    let next := { refresh with rendering := rendering }
    { live with refreshes := live.refreshes.set number (some next) }
  | _ => live

/-- A refresh ends, if its rendering has ended. -/
def finish (live : RefreshingChart) (number : Nat) : RefreshingChart :=
  match live.refreshes[number]? with
  | some (some refresh) =>
    match refresh.rendering.result? with
    | some result =>
      let (outcome, chart) := live.chart.finish refresh.ticket result
      ⟨chart, live.refreshes.set number none,
        live.ends ++ [⟨number, outcome, live.chart, chart⟩]⟩
    | none => live
  | _ => live

/-- Lets one thing happen. -/
def act (live : RefreshingChart) : ChartInput → RefreshingChart
  | .start environment now => live.start environment now
  | .happen number environment event now => live.happen number environment event now
  | .finish number => live.finish number
  | .replaceDocument document => { live with chart := live.chart.updateDocument document }
  | .replaceProps props => { live with chart := live.chart.updateProps props }
  | .tearDown => { live with chart := live.chart.tearDown }

/-- Lets one thing happen after the other. -/
def replay (live : RefreshingChart) (inputs : List ChartInput) : RefreshingChart :=
  inputs.foldl act live

variable {live : RefreshingChart}

/-- What every input preserves is preserved by every run. -/
theorem replay_preserves {motive : RefreshingChart → Prop}
    (hact : ∀ live input, motive live → motive (live.act input)) (inputs : List ChartInput)
    (h : motive live) : motive (live.replay inputs) := by
  induction inputs generalizing live with
  | nil => exact h
  | cons input inputs ih => exact ih (hact live input h)

/-- The end of a refresh that has a result is seen by the chart, and the refresh is gone. -/
theorem finish_eq {number : Nat} {refresh : Refresh} {result : Except ChartError Description}
    (hrefresh : live.refreshes[number]? = some (some refresh))
    (hresult : refresh.rendering.result? = some result) :
    live.finish number =
      ⟨(live.chart.finish refresh.ticket result).2, live.refreshes.set number none,
        live.ends ++ [⟨number, (live.chart.finish refresh.ticket result).1, live.chart,
          (live.chart.finish refresh.ticket result).2⟩]⟩ := by
  simp only [finish, hrefresh, hresult]

/-- A refresh that cannot end yet, or never started, is left alone. -/
theorem finish_cases (live : RefreshingChart) (number : Nat) :
    live.finish number = live ∨
      ∃ refresh result, live.refreshes[number]? = some (some refresh) ∧
        refresh.rendering.result? = some result ∧
        live.finish number =
          ⟨(live.chart.finish refresh.ticket result).2, live.refreshes.set number none,
            live.ends ++ [⟨number, (live.chart.finish refresh.ticket result).1, live.chart,
              (live.chart.finish refresh.ticket result).2⟩]⟩ := by
  match hrefresh : live.refreshes[number]? with
  | none => exact .inl (by simp only [finish, hrefresh])
  | some none => exact .inl (by simp only [finish, hrefresh])
  | some (some refresh) =>
    cases hresult : refresh.rendering.result? with
    | none => exact .inl (by simp only [finish, hrefresh, hresult])
    | some result => exact .inr ⟨refresh, result, rfl, hresult, finish_eq hrefresh hresult⟩

/-- An event changes nothing but the refresh to which it happens. -/
theorem happen_cases (live : RefreshingChart) (number : Nat) (environment : Environment)
    (event : SendEvent) (now : Int) :
    live.happen number environment event now = live ∨
      ∃ refresh, live.refreshes[number]? = some (some refresh) ∧
        live.happen number environment event now =
          { live with
            refreshes := live.refreshes.set number (some
              { refresh with
                rendering := (environment.advance refresh.rendering event now).1 }) } := by
  unfold happen
  split
  · next refresh hrefresh => exact .inr ⟨refresh, hrefresh, rfl⟩
  · exact .inl rfl

theorem happen_chart (live : RefreshingChart) (number : Nat) (environment : Environment)
    (event : SendEvent) (now : Int) :
    (live.happen number environment event now).chart = live.chart := by
  rcases live.happen_cases number environment event now with hsame | ⟨refresh, -, hnext⟩
  · rw [hsame]
  · rw [hnext]

/-- The end of a refresh touches nothing of the chart but what it shows. -/
theorem finish_chart (live : RefreshingChart) (number : Nat) :
    (live.finish number).chart =
      { live.chart with current := (live.finish number).chart.current } := by
  rcases live.finish_cases number with hsame | ⟨refresh, result, -, -, hnext⟩
  · rw [hsame]
  · rw [hnext]
    exact LiveChart.finish_chart live.chart refresh.ticket result

/-! ### A chart stays torn down -/

theorem isTornDown_act (input : ChartInput) (h : live.chart.isTornDown = true) :
    (live.act input).chart.isTornDown = true := by
  cases input with
  | happen number environment event now =>
    rwa [act, happen_chart]
  | finish number =>
    rw [act, finish_chart]
    exact h
  | tearDown => rfl
  | start | replaceDocument | replaceProps => exact h

/-- A chart that was torn down stays so. -/
theorem isTornDown_replay {inputs : List ChartInput} (h : .tearDown ∈ inputs) :
    (live.replay inputs).chart.isTornDown = true := by
  obtain ⟨before, after, rfl⟩ := List.append_of_mem h
  rw [replay, List.foldl_append, List.foldl_cons]
  exact replay_preserves (motive := fun live => live.chart.isTornDown = true)
    (fun _ input h => isTornDown_act input h) after rfl

end RefreshingChart

/-! ### Renderings that are cancelled when they start -/

/-- What the cache holds for a refresh of a chart: its document names a plain request, and there is
an entry under the fingerprint that is not too old. -/
def Chart.ServedBy (chart : Chart) (environment : Environment) (now : Int) (source : RequestSource)
    (payload : Json) : Prop :=
  (environment.compile chart.document chart.props).source = .ok (.request source) ∧
    (environment.sources.request.look (source.fingerprint (fillUrl chart.props source.url)
      (chart.tracker.observe (.request source)).changes) now).1 = some payload

/-- A rendering that has ended is left alone. -/
theorem Environment.advance_of_ended (environment : Environment) {rendering : Rendering}
    {result : Except ChartError Description} (h : rendering.result? = some result)
    (event : SendEvent) (now : Int) : (environment.advance rendering event now).1 = rendering := by
  cases rendering with
  | failed error => rfl
  | fetching compiled source fetch =>
    have hended : ∃ answer, fetch.fetching.state = .done answer := by
      rw [← SourceFetch.isSome_result?_iff]
      rw [Rendering.result?, Option.map_eq_some_iff] at h
      obtain ⟨answer, hanswer, -⟩ := h
      rw [hanswer]
      rfl
    obtain ⟨answer, hstate⟩ := hended
    simp only [Environment.advance, Sources.advance, RequestAdapter.advance, hstate]

/-- What a refresh of a chart comes to that was torn down before it starts. -/
inductive Chart.CancelledResult (chart : Chart) (environment : Environment) (now : Int) :
    Except ChartError Description → Prop where
  | served (source : RequestSource) (payload : Json)
      (h : chart.ServedBy environment now source payload) :
    CancelledResult chart environment now (.ok
      ((environment.compile chart.document chart.props).describe (.request source)
        (applyFieldMap (environment.compile chart.document chart.props).fieldMap payload)))
  | cancelled (source : DataSource)
      (hsource : (environment.compile chart.document chart.props).source = .ok source)
      (h : ∀ source payload, ¬ chart.ServedBy environment now source payload) :
    CancelledResult chart environment now (.error (.fetch .cancelled))
  | sourceless (error : ChartError)
      (hsource : (environment.compile chart.document chart.props).source = .error error) :
    CancelledResult chart environment now (.error error)

namespace RequestAdapter

variable {adapter : RequestAdapter} {source : RequestSource} {context : FetchContext}
  {cacheBust : Nat} {now : Int} {key : String}
  (hkey : source.fingerprint (fillUrl context.props source.url) cacheBust = key)

include hkey

/-- What the cache holds is served, cancelled or not. -/
theorem result?_startFetch_of_hit {payload : Json}
    (hhit : (adapter.look key now).1 = some payload) :
    (adapter.startFetch (.request source) context cacheBust now).1.result? =
      some (.ok (applyFieldMap context.fieldMap payload)) := by
  subst hkey
  rw [startFetch, start_of_hit hhit]
  rfl

/-- What the cache does not hold is not fetched for a cancelled refresh. -/
theorem result?_startFetch_of_miss (hmiss : (adapter.look key now).1 = none)
    (hcancelled : context.cancelled = true) :
    (adapter.startFetch (.request source) context cacheBust now).1.result? =
      some (.error .cancelled) := by
  subst hkey
  rw [startFetch, start_of_miss hmiss, if_pos hcancelled]
  rfl

end RequestAdapter

/-- A plain request is fetched through the adapter for plain requests. -/
theorem Environment.startRendering_request {environment : Environment} {document : String}
    {props : Option Json} {cancelled : Bool} {tracker : ShapeTracker} {now : Int}
    {source : RequestSource}
    (hsource : (environment.compile document props).source = .ok (.request source)) :
    let fetch := environment.sources.request.startFetch (.request source)
      ⟨props, (environment.compile document props).fieldMap, cancelled⟩
      (tracker.observe (.request source)).changes now
    environment.startRendering document props cancelled tracker now =
      (.fetching (environment.compile document props) (.request source) fetch.1,
        { environment with sources := { environment.sources with request := fetch.2 } },
        tracker.observe (.request source)) := by
  simp only [startRendering, hsource]
  rfl

/-- A refresh of a chart that was torn down has ended when it starts. -/
theorem Chart.exists_cancelledResult {chart : Chart} (htorn : chart.isTornDown = true)
    (environment : Environment) (now : Int) :
    ∃ result, (chart.startRefresh environment now).1.rendering.result? = some result ∧
      chart.CancelledResult environment now result := by
  have hstart : (chart.startRefresh environment now).1.rendering =
      (environment.startRendering chart.document chart.props true chart.tracker now).1 := by
    rw [← htorn]
    rfl
  rw [hstart]
  cases hsource : (environment.compile chart.document chart.props).source with
  | error error =>
    simp only [Environment.startRendering, hsource]
    exact ⟨_, rfl, .sourceless error hsource⟩
  | ok source =>
    have hother (h : ∀ request, source ≠ .request request) :
        chart.CancelledResult environment now (.error (.fetch .cancelled)) := by
      refine .cancelled source hsource fun request payload hserved => h request ?_
      exact Except.ok.inj (hsource.symm.trans hserved.1)
    -- queries and streams look at the cancellation first, and requests into the cache
    cases source with
    | query query =>
      simp only [Environment.startRendering, hsource]
      exact ⟨_, rfl, hother fun _ => DataSource.noConfusion⟩
    | stream stream =>
      simp only [Environment.startRendering, hsource]
      exact ⟨_, rfl, hother fun _ => DataSource.noConfusion⟩
    | request request =>
      rw [congrArg Prod.fst (Environment.startRendering_request hsource)]
      let context : FetchContext :=
        ⟨chart.props, (environment.compile chart.document chart.props).fieldMap, true⟩
      let key := request.fingerprint (fillUrl chart.props request.url)
        (chart.tracker.observe (.request request)).changes
      have hkey : request.fingerprint (fillUrl context.props request.url)
        (chart.tracker.observe (.request request)).changes = key := rfl
      cases hlook : (environment.sources.request.look key now).1 with
      | some payload =>
        have hresult := RequestAdapter.result?_startFetch_of_hit hkey hlook
        exact ⟨_, congrArg (Option.map _) hresult, .served request payload ⟨hsource, hlook⟩⟩
      | none =>
        have hresult := RequestAdapter.result?_startFetch_of_miss hkey hlook rfl
        refine ⟨_, congrArg (Option.map _) hresult, .cancelled _ hsource ?_⟩
        rintro other payload ⟨hsame, hpayload⟩
        obtain rfl := DataSource.request.inj (Except.ok.inj (hsource.symm.trans hsame))
        rw [hlook] at hpayload
        cases hpayload

/-! ### Refreshes of a chart that was torn down -/

/-- How a refresh ends that starts with the chart torn down. -/
structure RefreshEnd.Cancelled (e : RefreshEnd) (chart : Chart) (environment : Environment)
    (now : Int) : Prop where
  /-- It is applied exactly if it is the latest and the cache holds an entry for it. -/
  applied_iff : e.outcome = .ok .applied ↔ e.before.isLatest chart.begin.1 = true ∧
    ∃ source payload, chart.ServedBy environment now source payload
  /-- What is applied is what the cache held. -/
  shown : e.outcome = .ok .applied → ∃ source payload,
    chart.ServedBy environment now source payload ∧
      e.after.current = some
        ((environment.compile chart.document chart.props).describe (.request source)
          (applyFieldMap (environment.compile chart.document chart.props).fieldMap payload))
  /-- If it fails, then because it is cancelled or because there is no source. -/
  failed : ∀ error, e.outcome = .error error → error = .fetch .cancelled ∨
    (environment.compile chart.document chart.props).source = .error error
  /-- Nothing else changes what the chart shows. -/
  unchanged : e.outcome ≠ .ok .applied → e.after.current = e.before.current

/-- The end of a refresh with what it comes to when it is cancelled. -/
theorem Chart.CancelledResult.cancelled_finish {chart : Chart} {environment : Environment}
    {now : Int} {result : Except ChartError Description}
    (h : chart.CancelledResult environment now result) (number : Nat) (before : Chart) :
    RefreshEnd.Cancelled ⟨number, (before.finish chart.begin.1 result).1, before,
      (before.finish chart.begin.1 result).2⟩ chart environment now := by
  by_cases hlatest : before.isLatest chart.begin.1 = true
  · cases h with
    | served source payload hserved =>
      have hfinish (description : Description) : before.finish chart.begin.1 (.ok description) =
          (.ok .applied, { before with current := some description }) := by
        simp [Chart.finish, hlatest]
      rw [hfinish]
      exact ⟨iff_of_true rfl ⟨hlatest, source, payload, hserved⟩,
        fun _ => ⟨source, payload, hserved, rfl⟩, (fun error herror => by cases herror),
        fun hne => absurd rfl hne⟩
    | cancelled source hsource hserved =>
      have hfinish : before.finish chart.begin.1 (.error (.fetch .cancelled)) =
          (.error (.fetch .cancelled), before) := by
        simp [Chart.finish, hlatest]
      rw [hfinish]
      refine ⟨iff_of_false (fun h => by cases h) ?_, (fun h => by cases h), ?_, fun _ => rfl⟩
      · rintro ⟨-, source, payload, h⟩
        exact hserved source payload h
      · rintro error ⟨⟩
        exact .inl rfl
    | sourceless error hsource =>
      have hfinish : before.finish chart.begin.1 (.error error) = (.error error, before) := by
        simp [Chart.finish, hlatest]
      rw [hfinish]
      refine ⟨iff_of_false (fun h => by cases h) ?_, (fun h => by cases h), ?_, fun _ => rfl⟩
      · rintro ⟨-, source, payload, hsource', -⟩
        cases hsource.symm.trans hsource'
      · rintro error ⟨⟩
        exact .inr hsource
  -- a refresh that is not the latest is discarded, whatever it came to
  · have hfinish : before.finish chart.begin.1 result = (.ok .discarded, before) := by
      simp [Chart.finish, hlatest]
    rw [hfinish]
    exact ⟨iff_of_false (fun h => by cases h) fun h => hlatest h.1, (fun h => by cases h),
      (fun error herror => by cases herror), fun _ => rfl⟩

namespace RefreshingChart

variable {live : RefreshingChart}

/-- A refresh that came to a result when it started is held as it was, or has ended with that
result. -/
structure Settled (live : RefreshingChart) (number : Nat) (refresh : Refresh)
    (result : Except ChartError Description) : Prop where
  held : live.refreshes[number]? = some none ∨ live.refreshes[number]? = some (some refresh)
  ended : ∀ e ∈ live.ends, e.number = number →
    ∃ before : Chart, e = ⟨number, (before.finish refresh.ticket result).1, before,
      (before.finish refresh.ticket result).2⟩

/-- No input changes a refresh that has come to a result. -/
theorem Settled.act {number : Nat} {refresh : Refresh} {result : Except ChartError Description}
    (hresult : refresh.rendering.result? = some result)
    (h : live.Settled number refresh result) (input : ChartInput) :
    (live.act input).Settled number refresh result := by
  have hlt : number < live.refreshes.length := by
    rcases h.held with hheld | hheld <;> exact (List.getElem?_eq_some_iff.1 hheld).1
  cases input with
  | replaceDocument | replaceProps | tearDown => exact ⟨h.held, h.ended⟩
  | start environment now =>
    refine ⟨?_, h.ended⟩
    simp only [RefreshingChart.act, start, List.getElem?_append_left hlt]
    exact h.held
  | happen other environment event now =>
    rcases live.happen_cases other environment event now with hsame | ⟨found, hfound, hnext⟩
    · rwa [RefreshingChart.act, hsame]
    rw [RefreshingChart.act, hnext]
    refine ⟨?_, h.ended⟩
    by_cases hother : other = number
    · -- the refresh has ended, and the event leaves it alone
      subst hother
      rcases h.held with hheld | hheld
      · cases hfound.symm.trans hheld
      · obtain rfl := Option.some.inj (Option.some.inj (hfound.symm.trans hheld))
        rw [environment.advance_of_ended hresult]
        exact .inr (List.getElem?_set_self hlt)
    · rw [List.getElem?_set_ne hother]
      exact h.held
  | finish other =>
    rcases live.finish_cases other with hsame | ⟨found, result', hfound, hresult', hnext⟩
    · rwa [RefreshingChart.act, hsame]
    rw [RefreshingChart.act, hnext]
    by_cases hother : other = number
    · subst hother
      rcases h.held with hheld | hheld
      · cases hfound.symm.trans hheld
      · obtain rfl := Option.some.inj (Option.some.inj (hfound.symm.trans hheld))
        obtain rfl := Option.some.inj (hresult.symm.trans hresult')
        refine ⟨.inl (List.getElem?_set_self hlt), fun e hmem hnumber => ?_⟩
        rcases List.mem_append.1 hmem with hold | hnew
        · exact h.ended e hold hnumber
        · exact ⟨live.chart, List.mem_singleton.1 hnew⟩
    · refine ⟨?_, fun e hmem hnumber => ?_⟩
      · rw [List.getElem?_set_ne hother]
        exact h.held
      · rcases List.mem_append.1 hmem with hold | hnew
        · exact h.ended e hold hnumber
        · obtain rfl := List.mem_singleton.1 hnew
          exact absurd hnumber hother

/-- Only refreshes that have started end. -/
theorem number_lt_of_mem_ends (document : String) (props : Option Json)
    (inputs : List ChartInput) : ∀ e ∈ ((new document props).replay inputs).ends,
      e.number < ((new document props).replay inputs).refreshes.length := by
  refine replay_preserves (motive := fun live => ∀ e ∈ live.ends, e.number < live.refreshes.length)
    (fun live input h => ?_) inputs (fun e hmem => by cases hmem)
  cases input with
  | replaceDocument | replaceProps | tearDown => exact h
  | start environment now =>
    intro e hmem
    simp only [act, start, List.length_append, List.length_singleton]
    exact Nat.lt_succ_of_lt (h e hmem)
  | happen number environment event now =>
    rcases live.happen_cases number environment event now with hsame | ⟨refresh, -, hnext⟩
    · rwa [act, hsame]
    · rw [act, hnext]
      simpa only [List.length_set] using h
  | finish number =>
    rcases live.finish_cases number with hsame | ⟨refresh, result, hrefresh, -, hnext⟩
    · rwa [act, hsame]
    · rw [act, hnext]
      simp only [List.length_set]
      intro e hmem
      rcases List.mem_append.1 hmem with hold | hnew
      · exact h e hold
      · rw [List.mem_singleton.1 hnew]
        exact (List.getElem?_eq_some_iff.1 hrefresh).1

/-- **Refreshes after a teardown.** However a refresh came about that starts after the chart was
torn down, and whatever happens then: it has ended when it starts and its start changes nothing that
the chart shows, it is applied exactly if it is the latest on its end and the cache held an entry
for it on its start, and unless it is applied it leaves what the chart shows as it is. -/
theorem ends_after_tearDown (document : String) (props : Option Json)
    (earlier later : List ChartInput) (environment : Environment) (now : Int)
    (htorn : .tearDown ∈ earlier) :
    let live := (new document props).replay earlier
    let started := live.act (.start environment now)
    (live.chart.startRefresh environment now).1.rendering.result?.isSome = true ∧
      started.chart.current = live.chart.current ∧
        ∀ e ∈ (started.replay later).ends, e.number = live.refreshes.length →
          e.Cancelled live.chart environment now := by
  intro live started
  obtain ⟨result, hresult, hcancelled⟩ :=
    Chart.exists_cancelledResult (isTornDown_replay htorn) environment now
  refine ⟨by rw [hresult]; rfl, rfl, fun e hmem hnumber => ?_⟩
  have hsettled : (live.act (.start environment now)).Settled live.refreshes.length
      (live.chart.startRefresh environment now).1 result := by
    refine ⟨.inr List.getElem?_concat_length, fun e hmem hnumber => ?_⟩
    exact absurd hnumber (Nat.ne_of_lt (number_lt_of_mem_ends document props earlier e hmem))
  have hafter := replay_preserves (motive := fun later => later.Settled live.refreshes.length
    (live.chart.startRefresh environment now).1 result)
    (fun _ input h => Settled.act hresult h input) later hsettled
  obtain ⟨before, rfl⟩ := hafter.ended e hmem hnumber
  exact hcancelled.cancelled_finish live.refreshes.length before

/-- A refresh that starts with the chart torn down can end right away. -/
theorem exists_end_of_start (htorn : live.chart.isTornDown = true) (environment : Environment)
    (now : Int) :
    ∃ e ∈ ((live.act (.start environment now)).act (.finish live.refreshes.length)).ends,
      e.number = live.refreshes.length ∧ e.Cancelled live.chart environment now ∧
        e.before.isLatest live.chart.begin.1 = true ∧ e.before.current = live.chart.current := by
  obtain ⟨result, hresult, hcancelled⟩ := Chart.exists_cancelledResult htorn environment now
  have hrefresh : (live.act (.start environment now)).refreshes[live.refreshes.length]? =
      some (some (live.chart.startRefresh environment now).1) := List.getElem?_concat_length
  refine ⟨_, ?_, rfl, hcancelled.cancelled_finish live.refreshes.length
    (live.act (.start environment now)).chart, LiveChart.isLatest_iff.2 ⟨rfl, rfl⟩, rfl⟩
  have hfinish := congrArg RefreshingChart.ends (finish_eq hrefresh hresult)
  exact hfinish ▸ List.mem_append_right _ List.mem_cons_self

end RefreshingChart

/-- A source that is written as an address is a plain request. -/
theorem CompiledChart.source_of_address {compiled : CompiledChart} {url : String}
    (h : (Fields.get? Schema.sourceKey compiled.config).bind Value.string? = some url)
    (hurl : hasText url = true) :
    compiled.source = .ok (.request (RequestSource.ofUrl url)) := by
  obtain ⟨value, hvalue, htext⟩ := Option.bind_eq_some_iff.1 h
  obtain rfl := Value.string?_eq_some_iff.1 htext
  simp only [source, hvalue, DataSource.ofValue, hurl, if_true]
  rfl

/-- What was put into a cache is found there at once. -/
theorem RequestAdapter.look_store {adapter : RequestAdapter} (h : adapter.cache.isSome = true)
    (key : String) (payload : Json) (now : Int) :
    ((adapter.store key payload now).look key now).1 = some payload := by
  obtain ⟨cache, hcache⟩ := Option.isSome_iff_exists.1 h
  refine look_eq_some_iff.2 ⟨cache.insert key payload cache.defaultTtl now,
    ⟨payload, now, cache.defaultTtl⟩, ?_, LruCache.peek_insert_self, ?_, rfl⟩
  · rw [store, hcache]
    rfl
  · rw [TimedEntry.age, Int.sub_self]
    exact Nat.zero_le _

/-- What a refresh has decoded is in the cache for the next one from the same source. -/
theorem Chart.servedBy_of_reply {chart : Chart} {environment : Environment}
    {source : RequestSource} {now : Int} {key : String} (hrunning : chart.isTornDown = false)
    (hsource : (environment.compile chart.document chart.props).source = .ok (.request source))
    (hcache : environment.sources.request.cache.isSome = true)
    (hkey : source.fingerprint (fillUrl chart.props source.url)
      (chart.tracker.observe (.request source)).changes = key)
    (hmiss : (environment.sources.request.look key now).1 = none) {next : Chart}
    (hnext : (environment.compile next.document next.props).source = .ok (.request source))
    (hprops : next.props = chart.props)
    (htracker : (next.tracker.observe (.request source)).changes =
      (chart.tracker.observe (.request source)).changes) :
    let (refresh, _, started) := chart.startRefresh environment now
    next.ServedBy (started.advance refresh.rendering .null now).2 now source .null := by
  let context : FetchContext :=
    ⟨chart.props, (environment.compile chart.document chart.props).fieldMap, false⟩
  have hstate := @RequestAdapter.startFetch_state_of_miss source context _ now key hkey _ hmiss
  have hfetchKey := @RequestAdapter.startFetch_key_of_miss source context _ now key hkey _ hmiss
  have hdecoded := Fetching.decoded?_null hfetchKey hstate
    (congrArg SendPlan.decode RequestAdapter.startFetch_plan)
  have hstored := RequestAdapter.advance_eq
    (environment.sources.request.startFetch (.request source) context
      (chart.tracker.observe (.request source)).changes now).2
    (Fetching.active_of_decoded? hdecoded) .null now
  rw [RequestAdapter.keepPayload_step (Fetching.active_of_decoded? hdecoded), hdecoded] at hstored
  have hstart := @Environment.startRendering_request environment chart.document chart.props false
    chart.tracker now source hsource
  simp only [Chart.startRefresh, Chart.begin, hrunning, hstart]
  refine ⟨hnext, ?_⟩
  rw [hprops, htracker, hkey]
  change ((RequestAdapter.advance _ _ _ _).2.look key now).1 = _
  rw [hstored]
  exact RequestAdapter.look_store
    ((RequestAdapter.isSome_cache_startFetch (.request source) context _ now).trans hcache) _ _ _

namespace RefreshingChart

/-- With an empty cache a refresh after a teardown is not applied. -/
theorem ends_after_tearDown_empty :
    let document := "source: \"https://a\";"
    let earlier : List ChartInput := [.replaceProps none, .tearDown]
    let live := (new document none).replay earlier
    .tearDown ∈ earlier ∧
      ∃ e ∈ ((live.act (.start (.ofSettings .standard) 0)).replay [.finish 0]).ends,
        e.number = 0 ∧ e.outcome ≠ .ok .applied ∧ e.after.current = none := by
  intro document earlier live
  have htorn : .tearDown ∈ earlier := List.mem_cons_of_mem _ List.mem_cons_self
  have hends := (ends_after_tearDown document none earlier [.finish 0] (.ofSettings .standard) 0
    htorn).2.2
  obtain ⟨e, hmem, hnumber, -, -, hcurrent⟩ :=
    @exists_end_of_start live (isTornDown_replay htorn) (.ofSettings .standard) 0
  have hcancelled := hends e hmem hnumber
  have hmissed : e.outcome ≠ .ok .applied := by
    intro happlied
    obtain ⟨-, source, payload, -, hlook⟩ := hcancelled.applied_iff.1 happlied
    cases hlook
  exact ⟨htorn, e, hmem, hnumber, hmissed, (hcancelled.unchanged hmissed).trans hcurrent⟩

/-- A refresh is answered and applied, the document is replaced by one with the same source, and the
chart is torn down. The next refresh finds the answer in the cache and is applied: it changes what
the chart shows. -/
theorem applied_after_tearDown :
    let document := "source: \"https://a\";"
    let environment := Environment.ofSettings .standard
    let started := (Chart.new document none).startRefresh environment 0
    let cached := (started.2.2.advance started.1.rendering .null 0).2
    let live := (new document none).replay
      [.start environment 0, .happen 0 started.2.2 .null 0, .finish 0,
        .replaceDocument "source: \"https://a\"; type: bar;", .tearDown]
    live.chart.isTornDown = true ∧
      ∃ e ∈ ((live.act (.start cached 0)).act (.finish live.refreshes.length)).ends,
        e.number = live.refreshes.length ∧ e.outcome = .ok .applied ∧
          e.after.current ≠ e.before.current := by
  intro document environment started cached live
  let bar := "source: \"https://a\"; type: bar;"
  have htorn : live.chart.isTornDown = true := isTornDown_replay (by simp)
  have hsource : (environment.compile document none).source =
      .ok (.request (RequestSource.ofUrl "https://a")) :=
    CompiledChart.source_of_address (by decide +kernel) rfl
  have hbar : (environment.compile bar none).source =
      .ok (.request (RequestSource.ofUrl "https://a")) :=
    CompiledChart.source_of_address (by decide +kernel) rfl
  -- of the refresh before, the chart keeps only what it shows and the shape of the source
  have hchart : live.chart = { started.2.1 with
      document := bar
      version := 1
      current := live.chart.current
      isTornDown := true } := by
    simp only [live, replay, List.foldl_cons, List.foldl_nil, act]
    rw [finish_chart, happen_chart]
    rfl
  have htracker : live.chart.tracker =
      ShapeTracker.fresh.observe (.request (RequestSource.ofUrl "https://a")) := by
    have hstart := @Environment.startRendering_request environment document none false .fresh 0
      _ hsource
    rw [hchart]
    exact congrArg (fun rendering => rendering.2.2) hstart
  have hserved : live.chart.ServedBy cached 0 (RequestSource.ofUrl "https://a") .null := by
    refine Chart.servedBy_of_reply rfl hsource rfl rfl rfl ?_ ?_ ?_
    · rw [hchart]
      exact hbar
    · rw [hchart]
      rfl
    · rw [htracker]
      simp [ShapeTracker.observe, ShapeTracker.fresh, Chart.new]
  obtain ⟨e, hmem, hnumber, hcancelled, hlatest, hcurrent⟩ := exists_end_of_start htorn cached 0
  have happlied := hcancelled.applied_iff.2 ⟨hlatest, _, .null, hserved⟩
  obtain ⟨_, _, -, hshown⟩ := hcancelled.shown happlied
  -- only what is shown afterwards has a type
  let typed (shown : Option Description) : Option Bool :=
    shown.map fun description => Fields.contains "type" description.config
  have hbefore : typed live.chart.current = some false := by decide +kernel
  have hafter : Fields.contains "type"
      (cached.compile live.chart.document live.chart.props).config = true := by decide +kernel
  refine ⟨htorn, e, hmem, hnumber, happlied, fun hsame => ?_⟩
  have htyped := congrArg typed hsame
  rw [hshown, hcurrent, hbefore] at htyped
  exact absurd (Option.some.inj htyped) (by rw [← Bool.not_eq_true]; exact not_not_intro hafter)

end RefreshingChart

end ChartSchema
