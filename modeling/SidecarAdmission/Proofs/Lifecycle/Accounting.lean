import SidecarAdmission.Proofs.Lifecycle.Operation
import SidecarAdmission.Proofs.Lifecycle.Serving

/-!
The accounts of a loop. What it says in the end that it has done, what the counters tell and what is
in the log of its deeds agree, however its loads and writes come out and in whatever order it wakes
up: this holds at every moment, and so it holds of the run that the stop ends.
-/

set_option autoImplicit false
set_option relaxedAutoImplicit false

namespace SidecarAdmission.Lifecycle

open SidecarAdmission.Storage SidecarAdmission.Telemetry

/-- For each write of the health file, whether it succeeded. -/
def Log.written (log : Log) : List Bool := log.writes.map (·.2.2.isOk)

/-- For each load, whether it gave a state. -/
def Log.loaded (log : Log) : List Bool := log.results.map LoadResult.succeeded

/-- The loads that succeed are those that swap the state. -/
theorem Log.count_loaded (log : Log) : log.loaded.count true = generation log.results := by
  unfold loaded generation
  induction log.results with
  | nil => rfl
  | cons result rest ih =>
    cases result <;> simp [LoadResult.succeeded, LoadResult.state?, List.filterMap_cons, ih]

namespace Operation

/-- What the accounts of a loop say of its deeds, from the state that was in force at first. -/
structure IsAccounted (first : Active) (log : Log) (o : Operation) : Prop where
  newest : IsNewest first log.results o.loop.state
  reloads : o.loop.summary.reloads = log.loaded.count true
  failedReloads : o.loop.summary.failedReloads = log.loaded.count false
  heartbeats : o.loop.summary.heartbeats = log.written.count true
  failedHeartbeats : o.loop.summary.failedHeartbeats = log.written.count false
  reloadCounters : ∀ succeeded, o.counters.count (.reload succeeded) = log.loaded.count succeeded
  healthCounter : o.counters.count .healthWriteFailure = log.written.count false

variable {mayPass : Operation → Nat → Prop} {o o' : Operation} {log : Log}
  {deeds : List Deed} {state : Active}

theorem isAccounted_start {files : FileStore} {now : Nat} {c : ReloadLoop}
    (hstate : c.state = state) (hsummary : c.summary = ⟨0, 0, 0, 0⟩) (hcounters : c.counters = []) :
    IsAccounted state [] (start files now c) := by
  have hnone : (start files now c).counters = [] := by simp [counters, start, hcounters]
  refine ⟨?_, ?_, ?_, ?_, ?_, ?_, ?_⟩
  · rw [← hstate]
    exact isNewest_nil
  · exact congrArg Summary.reloads hsummary
  · exact congrArg Summary.failedReloads hsummary
  · exact congrArg Summary.heartbeats hsummary
  · exact congrArg Summary.failedHeartbeats hsummary
  · intro succeeded
    rw [hnone]
    rfl
  · rw [hnone]
    rfl

/-- What leaves the state, the summary and the counters of loads and beats alone keeps the
accounts, as long as neither a load nor a write is logged. -/
theorem IsAccounted.frame (h : IsAccounted state log o) {log' : Log}
    (hresults : log'.results = log.results) (hwritten : log'.written = log.written)
    (hstate : o'.loop.state = o.loop.state) (hsummary : o'.loop.summary = o.loop.summary)
    (hcounters : ∀ counter, (∀ outcome, counter ≠ .admission outcome) →
      o'.counters.count counter = o.counters.count counter) :
    IsAccounted state log' o' := by
  have hloaded : log'.loaded = log.loaded := by rw [Log.loaded, Log.loaded, hresults]
  refine ⟨?_, ?_, ?_, ?_, ?_, ?_, ?_⟩
  · rw [hresults, hstate]
    exact h.newest
  · rw [hsummary, hloaded, h.reloads]
  · rw [hsummary, hloaded, h.failedReloads]
  · rw [hsummary, hwritten, h.heartbeats]
  · rw [hsummary, hwritten, h.failedHeartbeats]
  · intro succeeded
    rw [hcounters _ (fun _ => Counter.noConfusion), hloaded, h.reloadCounters]
  · rw [hcounters _ (fun _ => Counter.noConfusion), hwritten, h.healthCounter]

/-- A review has counters of its own. -/
theorem count_request (o : Operation) (r : Http.Request) {counter : Counter}
    (h : ∀ outcome, counter ≠ .admission outcome) :
    (o.request r).counters.count counter = o.counters.count counter := by
  have hnone : ∀ outcome : Option Outcome,
      (outcome.map Counter.admission).toList.count counter = 0 := by
    intro outcome
    cases outcome with
    | none => rfl
    | some outcome => simp [(h outcome).symm]
  unfold counters request
  simp only [List.count_append, hnone, Nat.zero_add]

theorem counters_wake (hrunning : o.loop.isStopped = false) (signal : Signal) :
    (o.wake signal).counters =
      match signal with
      | .deadline result => .reload result.succeeded :: o.counters
      | .beat written => if written then o.counters else .healthWriteFailure :: o.counters
      | .event _ | .eventsEnd | .stop => o.counters := by
  have hstep : (o.wake signal).loop.counters = _ :=
    ReloadLoop.counters_step hrunning o.now signal
  unfold counters
  rw [hstep]
  cases signal with
  | beat written => cases written <;> rfl
  | deadline _ | event _ | eventsEnd | stop => rfl

/-- The end of a load enters the accounts as it enters the log. -/
theorem IsAccounted.endLoad (h : IsAccounted state log o) (hrunning : o.loop.isStopped = false)
    (result : LoadResult) :
    IsAccounted state (log ++ [(o.now, .endLoad result)]) (o.endLoad result) := by
  have hloaded : (log ++ [(o.now, Deed.endLoad result)]).loaded =
      log.loaded ++ [result.succeeded] := by
    simp [Log.loaded, Deed.result?]
  have hwritten : (log ++ [(o.now, Deed.endLoad result)]).written = log.written := by
    simp [Log.written, Deed.write?]
  have hsummary : (o.endLoad result).loop.summary =
      if result.succeeded then
        { o.loop.summary with reloads := o.loop.summary.reloads + 1 }
      else { o.loop.summary with failedReloads := o.loop.summary.failedReloads + 1 } :=
    ReloadLoop.summary_step hrunning o.now (.deadline result)
  have hcounters : (o.endLoad result).counters = .reload result.succeeded :: o.counters :=
    counters_wake hrunning (.deadline result)
  refine ⟨?_, ?_, ?_, ?_, ?_, ?_, ?_⟩
  · have hstep := ReloadLoop.isNewest_step h.newest o.now (.deadline result)
    rw [ReloadLoop.result?_of_running hrunning] at hstep
    rw [Log.results_append]
    exact hstep
  · rw [hsummary, hloaded]
    cases result.succeeded <;> simp [h.reloads]
  · rw [hsummary, hloaded]
    cases result.succeeded <;> simp [h.failedReloads]
  · rw [hsummary, hwritten, ← h.heartbeats]
    cases result.succeeded <;> rfl
  · rw [hsummary, hwritten, ← h.failedHeartbeats]
    cases result.succeeded <;> rfl
  · intro succeeded
    rw [hcounters, hloaded, List.count_append, ← h.reloadCounters succeeded]
    cases result.succeeded <;> cases succeeded <;> simp
  · rw [hcounters, hwritten, ← h.healthCounter]
    simp

/-- A beat enters the accounts as it enters the log. -/
theorem IsAccounted.endWrite (h : IsAccounted state log o) (hrunning : o.loop.isStopped = false)
    (path : String) (outcome : Except Failure FileStore) :
    IsAccounted state (log ++ [(o.now, .write path outcome)]) (o.endWrite outcome) := by
  have hresults : (log ++ [(o.now, Deed.write path outcome)]).results = log.results := by
    simp [Deed.result?]
  have hloaded : (log ++ [(o.now, Deed.write path outcome)]).loaded = log.loaded := by
    rw [Log.loaded, hresults, Log.loaded]
  have hwritten : (log ++ [(o.now, Deed.write path outcome)]).written =
      log.written ++ [outcome.isOk] := by
    simp [Log.written, Deed.write?]
  have hsummary : (o.endWrite outcome).loop.summary =
      if outcome.isOk then
        { o.loop.summary with heartbeats := o.loop.summary.heartbeats + 1 }
      else { o.loop.summary with failedHeartbeats := o.loop.summary.failedHeartbeats + 1 } :=
    ReloadLoop.summary_step hrunning o.now (.beat outcome.isOk)
  have hcounters : (o.endWrite outcome).counters =
      if outcome.isOk then o.counters else .healthWriteFailure :: o.counters :=
    counters_wake hrunning (.beat outcome.isOk)
  have hstate : (o.endWrite outcome).loop.state = o.loop.state :=
    o.loop.state_step_of_no_load o.now rfl
  refine ⟨?_, ?_, ?_, ?_, ?_, ?_, ?_⟩
  · rw [hresults, hstate]
    exact h.newest
  · rw [hsummary, hloaded, ← h.reloads]
    cases outcome.isOk <;> rfl
  · rw [hsummary, hloaded, ← h.failedReloads]
    cases outcome.isOk <;> rfl
  · rw [hsummary, hwritten]
    cases outcome.isOk <;> simp [h.heartbeats]
  · rw [hsummary, hwritten]
    cases outcome.isOk <;> simp [h.failedHeartbeats]
  · intro succeeded
    rw [hcounters, hloaded, ← h.reloadCounters succeeded]
    cases outcome.isOk <;> simp
  · rw [hcounters, hwritten, List.count_append, ← h.healthCounter]
    cases outcome.isOk <;> simp

/-- Anything else that a running loop wakes up for leaves the accounts as they are. -/
theorem IsAccounted.wake (h : IsAccounted state log o) (hrunning : o.loop.isStopped = false)
    {log' : Log} {signal : Signal} (hresults : log'.results = log.results)
    (hwritten : log'.written = log.written) (hload : signal.result? = none)
    (hbeat : ∀ written, signal ≠ .beat written) : IsAccounted state log' (o.wake signal) := by
  have hstate := o.loop.state_step_of_no_load o.now hload
  have hsummary := ReloadLoop.summary_step hrunning o.now signal
  have hcounters := counters_wake hrunning signal
  cases signal with
  | deadline result => contradiction
  | beat written => exact absurd rfl (hbeat written)
  | event _ | eventsEnd | stop =>
    exact h.frame hresults hwritten hstate hsummary fun _ _ => by rw [hcounters]

theorem IsAccounted.step (h : IsAccounted state log o) (horder : IsOrderly log o)
    (hstep : Step mayPass o deeds o') :
    IsAccounted state (log ++ Log.entries o.now deeds) o' := by
  cases hstep with
  | around | pass =>
    rw [Log.entries_nil, List.append_nil]
    exact h.frame rfl rfl rfl rfl fun _ _ => rfl
  | request r =>
    rw [Log.entries_nil, List.append_nil]
    exact h.frame rfl rfl rfl rfl fun _ => count_request o r
  | event e waits listens =>
    rw [Log.entries_nil, List.append_nil]
    exact h.wake waits.2 rfl rfl rfl fun _ => Signal.noConfusion
  | eventsEnd waits listens =>
    rw [Log.entries_nil, List.append_nil]
    exact h.wake waits.2 rfl rfl rfl fun _ => Signal.noConfusion
  | beginLoad due waits armed passed =>
    have hwritten : (log ++ [(o.now, Deed.beginLoad)]).written = log.written := by
      simp [Log.written, Deed.write?]
    exact h.frame (by simp [Deed.result?]) hwritten rfl rfl fun _ _ => rfl
  | endLoad result loads => exact h.endLoad (horder.running loads) result
  | beat due interval path outcome waits armed passed beats written =>
    exact h.endWrite waits.2 path outcome
  | stop found waits ready =>
    have hwritten : (log ++ [(o.now, Deed.stop found)]).written = log.written := by
      simp [Log.written, Deed.write?]
    exact h.wake waits.2 (by simp [Deed.result?]) hwritten rfl fun _ => Signal.noConfusion

theorem Runs.isAccounted {first : Operation} (hruns : Runs mayPass first log o)
    (horder : IsOrderly [] first) (h : IsAccounted state [] first) : IsAccounted state log o := by
  induction hruns with
  | begin => exact h
  | step hbefore hstep ih => exact ih.step (horder.runs hbefore) hstep

/-! ### What fails -/

/-- A write that fails is counted, and the loop goes on. -/
theorem Step.of_failed_write {path : String} {e : Failure}
    (hstep : Step mayPass o [.write path (.error e)] o') :
    o'.loop.isStopped = false ∧
      o'.loop.summary =
        { o.loop.summary with failedHeartbeats := o.loop.summary.failedHeartbeats + 1 } ∧
      o'.counters = .healthWriteFailure :: o.counters := by
  cases hstep with
  | beat due interval path outcome waits armed passed beats written =>
    exact ⟨ReloadLoop.isStopped_step waits.2 o.now (.beat false),
      ReloadLoop.summary_step waits.2 o.now (.beat false), counters_wake waits.2 (.beat false)⟩

/-- A load that fails is counted, and the loop goes on with the state that it has. -/
theorem Step.of_failed_load {result : LoadResult} (hrunning : o.loop.isStopped = false)
    (hstep : Step mayPass o [.endLoad result] o') (hfailed : result.succeeded = false) :
    o'.loop.isStopped = false ∧ o'.loop.state = o.loop.state ∧
      o'.loop.summary =
        { o.loop.summary with failedReloads := o.loop.summary.failedReloads + 1 } ∧
      o'.counters = .reload false :: o.counters := by
  cases hstep with
  | endLoad result loads =>
    have hsummary := ReloadLoop.summary_step hrunning o.now (.deadline result)
    have hstate := ReloadLoop.state_step o.loop o.now (.deadline result)
    have hcounters := counters_wake hrunning (.deadline result)
    have hnone : result.state? = none := by
      cases result with
      | loaded => contradiction
      | failed | aborted => rfl
    simp only [hfailed] at hsummary hcounters
    simp only [ReloadLoop.result?_of_running hrunning, Signal.result?, Option.bind_some, hnone,
      Option.getD_none] at hstate
    exact ⟨ReloadLoop.isStopped_step hrunning o.now (.deadline result), hstate, hsummary, hcounters⟩

/-! ### The accounts of a run -/

section Run

variable {files : FileStore} {now debounce interval : Nat} {first : Active} {listens : Bool}
  {path : String}

theorem isAccounted_begin :
    IsAccounted first [] (begin files now first debounce listens interval path) := by
  unfold begin ReloadLoop.withHeartbeat
  split <;> exact isAccounted_start rfl rfl rfl

/-- The accounts of a run. Whatever happens, its summary and its counters tell how many loads have
swapped the state and how many have failed, and how many writes of the health file have succeeded
and how many have failed. A load that is in flight comes to its end, however that is, before
anything else happens to the loop; a load or a write that fails is counted once and nothing else
comes of it; and the stop is the last thing that is done, whatever deadline is set. -/
theorem accounts_of_run
    (hruns : Runs mayPass (begin files now first debounce listens interval path) log o) :
    IsAccounted first log o ∧ log.loaded.count true = generation log.results ∧ IsOrderly log o ∧
      (o.loop.isStopped = true → ∀ more o', Runs mayPass o more o' →
        more = [] ∧ o'.loop = o.loop ∧ o'.isLoading = false) ∧
      (o.isLoading = true →
        (∀ result, Step mayPass o [.endLoad result] (o.endLoad result)) ∧
          ∀ deeds o', Step mayPass o deeds o' →
            (deeds = [] ∧ o'.isLoading = true ∧ o'.loop = o.loop) ∨
              ∃ result, deeds = [.endLoad result] ∧ o' = o.endLoad result) ∧
      (∀ file e o', Step mayPass o [.write file (.error e)] o' →
        o'.loop.isStopped = false ∧
          o'.loop.summary =
            { o.loop.summary with failedHeartbeats := o.loop.summary.failedHeartbeats + 1 } ∧
          o'.counters = .healthWriteFailure :: o.counters) ∧
      ∀ result o', Step mayPass o [.endLoad result] o' → result.succeeded = false →
        o'.loop.isStopped = false ∧ o'.loop.state = o.loop.state ∧
          o'.loop.summary =
            { o.loop.summary with failedReloads := o.loop.summary.failedReloads + 1 } ∧
          o'.counters = .reload false :: o.counters := by
  have horder : IsOrderly log o := isOrderly_begin.runs hruns
  have haccounts : IsAccounted first log o := hruns.isAccounted isOrderly_begin isAccounted_begin
  refine ⟨haccounts, log.count_loaded, horder, ?_, ?_, ?_, ?_⟩
  · intro hstopped more o' hmore
    exact hmore.eq_of_stopped hstopped (horder.idle hstopped)
  · intro hloads
    exact ⟨fun result => .endLoad result hloads, fun deeds o' hstep => hstep.of_loading hloads⟩
  · intro file e o' hstep
    exact hstep.of_failed_write
  · intro result o' hstep hfailed
    have hrunning : o.loop.isStopped = false := by
      cases hstep with
      | endLoad result loads => exact horder.running loads
    exact hstep.of_failed_load hrunning hfailed

/-- A heartbeat fails and a load breaks off before the sender of the stop is gone. -/
theorem accounts_of_run_unlucky :
    ∃ log o, Runs (fun _ _ => True) (begin (.empty []) 0 default 10 true 5 "/health") log o ∧
      log.map (·.1) = [0, 10, 10, 10] ∧ log.isOver = true ∧ o.loop.summary = ⟨0, 1, 0, 1⟩ ∧
      IsAccounted default log o ∧ ∀ more o', Runs (fun _ _ => True) o more o' → more = [] := by
  let first := begin (.empty []) 0 default 10 true 5 "/health"
  have hheard : Runs (fun _ _ => True) first [] (first.wake (.event (.modified []))) :=
    Runs.begin.idle (.event (.modified []) ⟨rfl, rfl⟩ rfl)
  have hbeaten := hheard.step
    (.beat 0 5 "/health" (.error .missing) ⟨rfl, rfl⟩ rfl (Nat.zero_le 0) rfl (by simp))
  have hlater := hbeaten.idle (.pass 10 (Nat.zero_le 10) trivial)
  have hbegun := hlater.step (.beginLoad 10 ⟨rfl, rfl⟩ rfl (Nat.le_refl 10))
  have hended := hbegun.step (.endLoad .aborted rfl)
  have hstopped := hended.step (.stop .closed ⟨rfl, rfl⟩ (by decide))
  obtain ⟨haccounts, -, -, hover, -⟩ := accounts_of_run hstopped
  exact ⟨_, _, hstopped, rfl, rfl, rfl, haccounts, fun more o' h => (hover rfl more o' h).1⟩

end Run

end Operation

/-- In a world, too, the summary of the loop tells what the counters tell. -/
theorem World.summary_counted {files : FileStore} {p : Parameters} {watched : List Place}
    {state : Active} {listens : Bool} {past : List (Nat × Notice)} {w : World}
    (hruns : World.Runs (.start files p watched state listens) past w) :
    w.counters.count (.reload true) = w.loop.summary.reloads ∧
      w.counters.count (.reload false) = w.loop.summary.failedReloads ∧
      w.counters.count .healthWriteFailure = w.loop.summary.failedHeartbeats := by
  obtain ⟨log, hlog⟩ := Operation.exists_runs_ofWorld hruns
  have haccounts : Operation.IsAccounted state log (.ofWorld w) :=
    hlog.isAccounted (Operation.isOrderly_start rfl) (Operation.isAccounted_start rfl rfl rfl)
  refine ⟨?_, ?_, ?_⟩
  · exact (haccounts.reloadCounters true).trans haccounts.reloads.symm
  · exact (haccounts.reloadCounters false).trans haccounts.failedReloads.symm
  · exact haccounts.healthCounter.trans haccounts.failedHeartbeats.symm

end SidecarAdmission.Lifecycle
