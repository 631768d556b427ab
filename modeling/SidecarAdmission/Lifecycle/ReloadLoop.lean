import SidecarAdmission.Lifecycle.Active
import SidecarAdmission.Lifecycle.Watch
import SidecarAdmission.Telemetry.Metric

/-!
The loop that keeps the served state up to date. It waits for whichever comes first: the deadline of
a reload, an event of the watcher, a beat of the heartbeat, or the request to stop. Every event that
calls for a reload puts the deadline off, so a burst of events leads to one reload, and a reload
that fails leaves the state as it was. Nothing but this loop changes the state.
-/

set_option autoImplicit false
set_option relaxedAutoImplicit false

namespace SidecarAdmission.Lifecycle

open SidecarAdmission.Telemetry

/-- How the load of a state came out; a load may also break off without an answer. -/
inductive LoadResult where
  | loaded (state : Active)
  | failed (cause : LoadError)
  | aborted
deriving Repr, Inhabited

/-- What the answer of a load comes to. -/
def LoadResult.ofExcept : Except LoadError Active → LoadResult
  | .ok state => .loaded state
  | .error cause => .failed cause

/-- Whether a load gave a state. -/
def LoadResult.succeeded : LoadResult → Bool
  | .loaded _ => true
  | _ => false

/-- What the loop has done. The counts are not bounded. In words of 64 bits they would not overflow
either: each takes a load of the files or a write to one, and as many of these as that takes, one in
a nanosecond, last more than five hundred years. -/
structure Summary where
  reloads : Nat
  failedReloads : Nat
  heartbeats : Nat
  failedHeartbeats : Nat
deriving DecidableEq, Repr, Inhabited

/-- What the loop wakes up for: a deadline, with the result of the load that it leads to; an event,
or the end of all events; a beat, and whether its file could be written; or the request to stop. -/
inductive Signal where
  | deadline (result : LoadResult)
  | event (event : FileEvent)
  | eventsEnd
  | beat (written : Bool)
  | stop
deriving Repr, Inhabited

/-- The loop between two signals. Times are in milliseconds. -/
structure ReloadLoop where
  state : Active
  debounce : Nat
  heartbeat : Option (Nat × String)
  listens : Bool
  deadline : Option Nat
  nextBeat : Option Nat
  summary : Summary
  counters : List Counter
  isStopped : Bool
deriving Repr, Inhabited

namespace ReloadLoop

/-- The loop before its first signal, at a time at which the first beat is due. -/
def start (state : Active) (p : Parameters) (listens : Bool) (now : Nat) : ReloadLoop where
  state := state
  debounce := p.debounce
  heartbeat := p.heartbeat?
  listens := listens
  deadline := none
  nextBeat := p.heartbeat?.map fun _ => now
  summary := ⟨0, 0, 0, 0⟩
  counters := []
  isStopped := false

/-- The loop before its first signal, without a heartbeat. -/
def plain (state : Active) (debounce : Nat) (listens : Bool) : ReloadLoop where
  state := state
  debounce := debounce
  heartbeat := none
  listens := listens
  deadline := none
  nextBeat := none
  summary := ⟨0, 0, 0, 0⟩
  counters := []
  isStopped := false

/-- The loop with a heartbeat of which the first beat is due now; an interval of zero gives none. -/
def withHeartbeat (c : ReloadLoop) (interval : Nat) (path : String) (now : Nat) : ReloadLoop :=
  if interval = 0 then c
  else { c with heartbeat := some (interval, path), nextBeat := some now }

/-- The loop after a load. -/
def afterLoad (c : ReloadLoop) (result : LoadResult) : ReloadLoop :=
  let counted := { c with counters := .reload result.succeeded :: c.counters }
  match result with
  | .loaded state =>
    { counted with state, summary := { c.summary with reloads := c.summary.reloads + 1 } }
  | .failed _ | .aborted =>
    { counted with summary := { c.summary with failedReloads := c.summary.failedReloads + 1 } }

/-- How late a beat may come, in milliseconds, and still count as one in time. -/
def tolerance : Nat := 5

/-- When a beat is due after one that was due at a time and has come now: an interval later, counted
from now if the last one was late. -/
def dueAfter (due interval now : Nat) : Nat :=
  if due + tolerance < now then now + interval else due + interval

/-- The loop after a beat at a time. -/
def afterBeat (c : ReloadLoop) (now : Nat) (written : Bool) : ReloadLoop :=
  let c :=
    { c with
      nextBeat :=
        match c.nextBeat, c.heartbeat with
        | some due, some (interval, _) => some (dueAfter due interval now)
        | _, _ => none }
  if written then { c with summary := { c.summary with heartbeats := c.summary.heartbeats + 1 } }
  else
    { c with
      summary := { c.summary with failedHeartbeats := c.summary.failedHeartbeats + 1 }
      counters := .healthWriteFailure :: c.counters }

/-- The loop after a signal at a time. -/
def step (c : ReloadLoop) (now : Nat) (signal : Signal) : ReloadLoop :=
  if c.isStopped then c
  else
    match signal with
    | .deadline result => { c with deadline := none }.afterLoad result
    | .event e => if e.callsForReload then { c with deadline := some (now + c.debounce) } else c
    | .eventsEnd => { c with listens := false }
    | .beat written => c.afterBeat now written
    | .stop => { c with isStopped := true }

end ReloadLoop

end SidecarAdmission.Lifecycle
