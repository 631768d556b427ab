import SidecarAdmission.Lifecycle.ReloadLoop

/-!
What a signal changes of the loop. Only a load that gives a state changes the state, and only a load
and an event that calls for one change the deadline; a loop that has stopped stays as it is.
-/

set_option autoImplicit false
set_option relaxedAutoImplicit false

namespace SidecarAdmission.Lifecycle

/-- The state that a load gave, if it gave one. -/
def LoadResult.state? : LoadResult → Option Active
  | .loaded state => some state
  | .failed _ | .aborted => none

theorem LoadResult.ofExcept_eq_loaded {answer : Except LoadError Active} {state : Active} :
    ofExcept answer = .loaded state ↔ answer = .ok state := by
  cases answer <;> simp [ofExcept]

theorem LoadResult.ofExcept_eq_failed {answer : Except LoadError Active} {e : LoadError} :
    ofExcept answer = .failed e ↔ answer = .error e := by
  cases answer <;> simp [ofExcept]

/-- The result of the load that a signal leads to, if it leads to one. -/
def Signal.result? : Signal → Option LoadResult
  | .deadline result => some result
  | _ => none

/-- There is a heartbeat unless its interval is zero, or it has no file or one without a name. -/
theorem Parameters.heartbeat?_eq_none_iff {p : Parameters} :
    p.heartbeat? = none ↔
      p.heartbeatInterval = 0 ∨ p.heartbeatFile = none ∨ p.heartbeatFile = some "" := by
  unfold heartbeat?
  cases p.heartbeatFile with
  | none => simp
  | some file => simp only [ite_eq_right_iff, reduceCtorEq, imp_false, Option.some.injEq]; grind

theorem Parameters.pos_of_heartbeat? {p : Parameters} {interval : Nat} {path : String}
    (h : p.heartbeat? = some (interval, path)) : 0 < interval := by
  unfold heartbeat? at h
  split at h
  next =>
    split at h
    next hboth =>
      obtain ⟨rfl, -⟩ := Prod.mk.inj (Option.some.inj h)
      exact hboth.1
    next => contradiction
  next => contradiction

namespace ReloadLoop

theorem state_afterLoad (c : ReloadLoop) (result : LoadResult) :
    (c.afterLoad result).state = result.state?.getD c.state := by
  cases result <;> rfl

theorem state_afterBeat (c : ReloadLoop) (now : Nat) (written : Bool) :
    (c.afterBeat now written).state = c.state := by
  cases written <;> rfl

/-- A beat that is not late leaves the next one in time. -/
theorem dueAfter_of_le {due now : Nat} (h : now ≤ due) (interval : Nat) :
    dueAfter due interval now = due + interval := by
  have hintime : ¬ due + tolerance < now := by omega
  exact if_neg hintime

/-- However late a beat is, the next one comes an interval after it was due, or later. -/
theorem add_le_dueAfter (due interval now : Nat) : due + interval ≤ dueAfter due interval now := by
  unfold dueAfter
  split
  · omega
  · exact Nat.le_refl _

/-- The result of the load that a signal leads to now, if it leads to one. -/
def result? (c : ReloadLoop) (signal : Signal) : Option LoadResult :=
  if c.isStopped then none else signal.result?

@[simp] theorem result?_of_stopped {c : ReloadLoop} (h : c.isStopped = true) (signal : Signal) :
    c.result? signal = none := by
  simp [result?, h]

@[simp] theorem result?_of_running {c : ReloadLoop} (h : c.isStopped = false) (signal : Signal) :
    c.result? signal = signal.result? := by
  simp [result?, h]

theorem step_of_stopped {c : ReloadLoop} (h : c.isStopped = true) (now : Nat) (signal : Signal) :
    c.step now signal = c := by
  simp [step, h]

theorem step_of_running {c : ReloadLoop} (h : c.isStopped = false) (now : Nat) (signal : Signal) :
    c.step now signal =
      match signal with
      | .deadline result => { c with deadline := none }.afterLoad result
      | .event e => if e.callsForReload then { c with deadline := some (now + c.debounce) } else c
      | .eventsEnd => { c with listens := false }
      | .beat written => c.afterBeat now written
      | .stop => { c with isStopped := true } := by
  have hrunning : ¬ c.isStopped = true := by simp [h]
  refine (if_neg hrunning).trans ?_
  cases signal <;> rfl

/-- A signal changes the state only if it leads to a load that gives one. -/
theorem state_step (c : ReloadLoop) (now : Nat) (signal : Signal) :
    (c.step now signal).state = ((c.result? signal).bind LoadResult.state?).getD c.state := by
  cases hstopped : c.isStopped with
  | true => simp [step_of_stopped hstopped, hstopped]
  | false =>
    rw [result?_of_running hstopped, step_of_running hstopped]
    cases signal with
    | deadline result => exact state_afterLoad { c with deadline := none } result
    | event e =>
      dsimp only
      split <;> rfl
    | beat written => exact state_afterBeat c now written
    | eventsEnd | stop => rfl

/-- A signal that leads to no load leaves the state as it is. -/
theorem state_step_of_no_load (c : ReloadLoop) (now : Nat) {signal : Signal}
    (h : signal.result? = none) : (c.step now signal).state = c.state := by
  rw [state_step, result?, h]
  split <;> rfl

/-- A load clears the deadline and an event that calls for a reload puts it off; nothing else
changes it. -/
theorem deadline_step {c : ReloadLoop} (h : c.isStopped = false) (now : Nat) (signal : Signal) :
    (c.step now signal).deadline =
      match signal with
      | .deadline _ => none
      | .event e => if e.callsForReload then some (now + c.debounce) else c.deadline
      | .eventsEnd | .beat _ | .stop => c.deadline := by
  rw [step_of_running h]
  cases signal with
  | deadline result => cases result <;> rfl
  | event e =>
    dsimp only
    split <;> rfl
  | beat written => cases written <;> rfl
  | eventsEnd | stop => rfl

/-- A beat puts off the next one; nothing else changes when it is due. -/
theorem nextBeat_step {c : ReloadLoop} (h : c.isStopped = false) (now : Nat) (signal : Signal) :
    (c.step now signal).nextBeat =
      match signal with
      | .beat _ =>
        match c.nextBeat, c.heartbeat with
        | some due, some (interval, _) => some (dueAfter due interval now)
        | _, _ => none
      | .deadline _ | .event _ | .eventsEnd | .stop => c.nextBeat := by
  rw [step_of_running h]
  cases signal with
  | deadline result => cases result <;> rfl
  | event e =>
    dsimp only
    split <;> rfl
  | beat written => cases written <;> rfl
  | eventsEnd | stop => rfl

theorem nextBeat_step_of_no_beat (c : ReloadLoop) (now : Nat) {signal : Signal}
    (h : ∀ written, signal ≠ .beat written) : (c.step now signal).nextBeat = c.nextBeat := by
  cases hstopped : c.isStopped with
  | true => rw [step_of_stopped hstopped]
  | false =>
    rw [nextBeat_step hstopped]
    cases signal with
    | beat written => exact absurd rfl (h written)
    | deadline _ | event _ | eventsEnd | stop => rfl

/-- Only the end of events keeps the loop from listening. -/
theorem listens_step {c : ReloadLoop} (h : c.isStopped = false) (now : Nat) (signal : Signal) :
    (c.step now signal).listens =
      match signal with
      | .eventsEnd => false
      | .deadline _ | .event _ | .beat _ | .stop => c.listens := by
  rw [step_of_running h]
  cases signal with
  | deadline result => cases result <;> rfl
  | event e =>
    dsimp only
    split <;> rfl
  | beat written => cases written <;> rfl
  | eventsEnd | stop => rfl

/-- Only the request to stop ends the loop. -/
theorem isStopped_step {c : ReloadLoop} (h : c.isStopped = false) (now : Nat) (signal : Signal) :
    (c.step now signal).isStopped =
      match signal with
      | .stop => true
      | .deadline _ | .event _ | .eventsEnd | .beat _ => false := by
  rw [step_of_running h]
  cases signal with
  | deadline result => cases result <;> exact h
  | event e =>
    dsimp only
    split <;> exact h
  | beat written => cases written <;> exact h
  | eventsEnd => exact h
  | stop => rfl

/-- A load and a beat are each counted in one of two ways; nothing else is counted. -/
theorem summary_step {c : ReloadLoop} (h : c.isStopped = false) (now : Nat) (signal : Signal) :
    (c.step now signal).summary =
      match signal with
      | .deadline result =>
        if result.succeeded then { c.summary with reloads := c.summary.reloads + 1 }
        else { c.summary with failedReloads := c.summary.failedReloads + 1 }
      | .beat written =>
        if written then { c.summary with heartbeats := c.summary.heartbeats + 1 }
        else { c.summary with failedHeartbeats := c.summary.failedHeartbeats + 1 }
      | .event _ | .eventsEnd | .stop => c.summary := by
  rw [step_of_running h]
  cases signal with
  | deadline result => cases result <;> rfl
  | event e =>
    dsimp only
    split <;> rfl
  | beat written => cases written <;> rfl
  | eventsEnd | stop => rfl

/-- Every load has a counter to it, and of the beats those that fail. -/
theorem counters_step {c : ReloadLoop} (h : c.isStopped = false) (now : Nat) (signal : Signal) :
    (c.step now signal).counters =
      match signal with
      | .deadline result => .reload result.succeeded :: c.counters
      | .beat written => if written then c.counters else .healthWriteFailure :: c.counters
      | .event _ | .eventsEnd | .stop => c.counters := by
  rw [step_of_running h]
  cases signal with
  | deadline result => cases result <;> rfl
  | event e =>
    dsimp only
    split <;> rfl
  | beat written => cases written <;> rfl
  | eventsEnd | stop => rfl

/-- What the loop was started with stays as it is. -/
theorem settings_step (c : ReloadLoop) (now : Nat) (signal : Signal) :
    (c.step now signal).debounce = c.debounce ∧ (c.step now signal).heartbeat = c.heartbeat := by
  cases hstopped : c.isStopped with
  | true =>
    rw [step_of_stopped hstopped]
    exact ⟨rfl, rfl⟩
  | false =>
    rw [step_of_running hstopped]
    cases signal with
    | deadline result => cases result <;> exact ⟨rfl, rfl⟩
    | event e =>
      dsimp only
      split <;> exact ⟨rfl, rfl⟩
    | beat written => cases written <;> exact ⟨rfl, rfl⟩
    | eventsEnd | stop => exact ⟨rfl, rfl⟩

/-- It does not matter when the deadline is cleared, before the load or after it. -/
theorem step_deadline_of_cleared {c : ReloadLoop} (h : c.isStopped = false) (now : Nat)
    (result : LoadResult) :
    step { c with deadline := none } now (.deadline result) = c.step now (.deadline result) := by
  simp only [step, h, Bool.false_eq_true, if_false]

/-- The parameters of a webhook give its loop a heartbeat, or none. -/
theorem start_eq_plain (state : Active) (p : Parameters) (listens : Bool) (now : Nat) :
    start state p listens now =
      match p.heartbeat? with
      | some (interval, path) =>
        (plain state p.debounce listens).withHeartbeat interval path now
      | none => plain state p.debounce listens := by
  cases hheartbeat : p.heartbeat? with
  | none => simp [start, plain, hheartbeat]
  | some heartbeat =>
    obtain ⟨interval, path⟩ := heartbeat
    have hpos : interval ≠ 0 := Nat.ne_of_gt (Parameters.pos_of_heartbeat? hheartbeat)
    simp [start, plain, withHeartbeat, hheartbeat, hpos]

end ReloadLoop

end SidecarAdmission.Lifecycle
