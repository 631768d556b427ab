import SidecarAdmission.Lifecycle.StopChannel
import SidecarAdmission.Proofs.Lifecycle.Run

/-!
The loop in operation. Files change around it, reviews are answered beside it, and it wakes up for
whatever is ready, in any order; a load takes time, and until it is over the loop wakes up for
nothing else. What it does outside of itself is logged: loads, writes of the health file, and its
stop. How far the clock may go at once is a parameter, so that a run may keep exact time or none at
all. The runs of a world are among these runs.
-/

set_option autoImplicit false
set_option relaxedAutoImplicit false

namespace SidecarAdmission.Lifecycle

open SidecarAdmission.Storage SidecarAdmission.Telemetry

/-! ### What a loop does -/

inductive Deed where
  | beginLoad
  | endLoad (result : LoadResult)
  | write (path : String) (outcome : Except Failure FileStore)
  | stop (found : Reception)

namespace Deed

def result? : Deed → Option LoadResult
  | .endLoad result => some result
  | .beginLoad | .write _ _ | .stop _ => none

def write? : Deed → Option (String × Except Failure FileStore)
  | .write path outcome => some (path, outcome)
  | .beginLoad | .endLoad _ | .stop _ => none

def beginsLoad : Deed → Bool
  | .beginLoad => true
  | .endLoad _ | .write _ _ | .stop _ => false

def stops : Deed → Bool
  | .stop _ => true
  | .beginLoad | .endLoad _ | .write _ _ => false

end Deed

/-- What a loop has done, and when, the oldest first. -/
abbrev Log := List (Nat × Deed)

namespace Log

def entries (now : Nat) (deeds : List Deed) : Log := deeds.map (now, ·)

def results (log : Log) : List LoadResult := log.filterMap (·.2.result?)

def writes (log : Log) : List (Nat × String × Except Failure FileStore) :=
  log.filterMap fun entry => entry.2.write?.map (entry.1, ·)

/-- How many loads have been begun. -/
def begun (log : Log) : Nat := log.countP (·.2.beginsLoad)

def isOver (log : Log) : Bool := log.any (·.2.stops)

variable {log more : Log} {now : Nat} {deed : Deed}

@[simp] theorem entries_nil : entries now [] = [] := rfl

@[simp] theorem entries_single : entries now [deed] = [(now, deed)] := rfl

@[simp] theorem results_append : results (log ++ more) = log.results ++ more.results :=
  List.filterMap_append

@[simp] theorem results_single : results [(now, deed)] = deed.result?.toList := by
  cases deed <;> rfl

@[simp] theorem writes_append : writes (log ++ more) = log.writes ++ more.writes :=
  List.filterMap_append

@[simp] theorem writes_single :
    writes [(now, deed)] = (deed.write?.map (now, ·)).toList := by
  cases deed <;> rfl

@[simp] theorem begun_append : begun (log ++ more) = log.begun + more.begun :=
  List.countP_append

@[simp] theorem begun_single :
    begun [(now, deed)] = if deed.beginsLoad then 1 else 0 := by
  cases deed <;> rfl

@[simp] theorem isOver_append : isOver (log ++ more) = (log.isOver || more.isOver) :=
  List.any_append

@[simp] theorem isOver_single : isOver [(now, deed)] = deed.stops :=
  Bool.or_false _

theorem isOver_of_mem {found : Reception} (h : (now, Deed.stop found) ∈ log) :
    log.isOver = true :=
  List.any_eq_true.mpr ⟨_, h, rfl⟩

end Log

/-! ### Runs -/

/-- A loop and what it works among: the files, the clock, whether a load is in flight, and what has
been counted of reviews. -/
structure Operation where
  files : FileStore
  now : Nat
  loop : ReloadLoop
  isLoading : Bool
  reviews : List Counter

namespace Operation

def start (files : FileStore) (now : Nat) (loop : ReloadLoop) : Operation :=
  ⟨files, now, loop, false, []⟩

/-- A loop that has just been started, with a heartbeat unless its interval is zero. -/
def begin (files : FileStore) (now : Nat) (state : Active) (debounce : Nat) (listens : Bool)
    (interval : Nat) (path : String) : Operation :=
  start files now ((ReloadLoop.plain state debounce listens).withHeartbeat interval path now)

def counters (o : Operation) : List Counter := o.loop.counters ++ o.reviews

def Waits (o : Operation) : Prop := o.isLoading = false ∧ o.loop.isStopped = false

def wake (o : Operation) (signal : Signal) : Operation :=
  { o with loop := o.loop.step o.now signal }

def beginLoad (o : Operation) : Operation :=
  { o with loop := { o.loop with deadline := none }, isLoading := true }

def endLoad (o : Operation) (result : LoadResult) : Operation :=
  { o.wake (.deadline result) with isLoading := false }

/-- A loop after a beat; a write that fails leaves the files as they are. -/
def endWrite (o : Operation) (outcome : Except Failure FileStore) : Operation :=
  { o.wake (.beat outcome.isOk) with files := outcome.toOption.getD o.files }

/-- A loop beside which a review has been answered. -/
def request (o : Operation) (r : Http.Request) : Operation :=
  let (_, outcome) := Http.Webhook.answer .standard o.loop.state.spec r
  { o with reviews := (outcome.map Counter.admission).toList ++ o.reviews }

/-- What may happen next, with what the loop does. A load may end in any way, and a write may fail
for any reason; one that succeeds leaves what it leaves in the store. The loop stops for whatever it
finds in its channel, a request, requests missed, or no sender any more. -/
inductive Step (mayPass : Operation → Nat → Prop) (o : Operation) :
    List Deed → Operation → Prop where
  | around (files : FileStore) : Step mayPass o [] { o with files }
  | request (r : Http.Request) : Step mayPass o [] (o.request r)
  | pass (instant : Nat) (later : o.now ≤ instant) (may : mayPass o instant) :
    Step mayPass o [] { o with now := instant }
  | event (e : FileEvent) (waits : o.Waits) (listens : o.loop.listens = true) :
    Step mayPass o [] (o.wake (.event e))
  | eventsEnd (waits : o.Waits) (listens : o.loop.listens = true) :
    Step mayPass o [] (o.wake .eventsEnd)
  | beginLoad (due : Nat) (waits : o.Waits) (armed : o.loop.deadline = some due)
      (passed : due ≤ o.now) : Step mayPass o [.beginLoad] o.beginLoad
  | endLoad (result : LoadResult) (loads : o.isLoading = true) :
    Step mayPass o [.endLoad result] (o.endLoad result)
  | beat (due interval : Nat) (path : String) (outcome : Except Failure FileStore)
      (waits : o.Waits) (armed : o.loop.nextBeat = some due) (passed : due ≤ o.now)
      (beats : o.loop.heartbeat = some (interval, path))
      (written : ∀ after, outcome = .ok after → writeHealth o.files path = .ok after) :
    Step mayPass o [.write path outcome] (o.endWrite outcome)
  | stop (found : Reception) (waits : o.Waits) (ready : found ≠ .empty) :
    Step mayPass o [.stop found] (o.wake .stop)

/-- What may become of a loop, with all that it has done on the way. -/
inductive Runs (mayPass : Operation → Nat → Prop) (first : Operation) :
    Log → Operation → Prop where
  | begin : Runs mayPass first [] first
  | step {log : Log} {o o' : Operation} {deeds : List Deed} (h : Runs mayPass first log o)
      (hstep : Step mayPass o deeds o') :
    Runs mayPass first (log ++ Log.entries o.now deeds) o'

variable {mayPass : Operation → Nat → Prop} {first o o' : Operation} {log : Log} {deeds : List Deed}

theorem Runs.idle (h : Runs mayPass first log o) (hstep : Step mayPass o [] o') :
    Runs mayPass first log o' := by
  have hmore := h.step hstep
  rwa [Log.entries_nil, List.append_nil] at hmore

/-! ### Order -/

/-- The order in which a loop does things: its stop comes last, and only when no load is in flight;
and a load that has been begun is over before the next one is. -/
structure IsOrderly (log : Log) (o : Operation) : Prop where
  stopped : o.loop.isStopped = log.isOver
  last : Log.isOver log.dropLast = false
  loads : log.begun = log.results.length + if o.isLoading then 1 else 0
  idle : o.loop.isStopped = true → o.isLoading = false

theorem isOrderly_start {files : FileStore} {now : Nat} {c : ReloadLoop}
    (h : c.isStopped = false) : IsOrderly [] (start files now c) where
  stopped := h
  last := rfl
  loads := rfl
  idle := fun _ => rfl

theorem isOrderly_begin {files : FileStore} {now debounce interval : Nat} {state : Active}
    {listens : Bool} {path : String} :
    IsOrderly [] (begin files now state debounce listens interval path) := by
  refine isOrderly_start ?_
  unfold ReloadLoop.withHeartbeat
  split <;> rfl

theorem IsOrderly.frame (h : IsOrderly log o) (hstopped : o'.loop.isStopped = o.loop.isStopped)
    (hloading : o'.isLoading = o.isLoading) : IsOrderly log o' where
  stopped := hstopped.trans h.stopped
  last := h.last
  loads := by rw [hloading, h.loads]
  idle := by
    rw [hstopped, hloading]
    exact h.idle

/-- A running loop does one thing after another. -/
theorem IsOrderly.concat (h : IsOrderly log o) {deed : Deed} {now : Nat}
    (hrunning : o.loop.isStopped = false) (hstopped : o'.loop.isStopped = deed.stops)
    (hloads : ((if o.isLoading then 1 else 0) + if deed.beginsLoad then 1 else 0) =
      deed.result?.toList.length + if o'.isLoading then 1 else 0)
    (hidle : deed.stops = true → o'.isLoading = false) :
    IsOrderly (log ++ [(now, deed)]) o' where
  stopped := by
    have hopen : log.isOver = false := h.stopped.symm.trans hrunning
    rw [hstopped, Log.isOver_append, Log.isOver_single, hopen, Bool.false_or]
  last := by
    rw [List.dropLast_concat]
    exact h.stopped.symm.trans hrunning
  loads := by
    have hbefore := h.loads
    rw [Log.begun_append, Log.begun_single, Log.results_append, Log.results_single,
      List.length_append]
    omega
  idle := by
    rw [hstopped]
    exact hidle

/-- A load is in flight only while the loop has not stopped. -/
theorem IsOrderly.running (h : IsOrderly log o) (hloads : o.isLoading = true) :
    o.loop.isStopped = false := by
  refine Bool.eq_false_iff.mpr fun hstopped => ?_
  rw [h.idle hstopped] at hloads
  contradiction

theorem IsOrderly.step (h : IsOrderly log o) (hstep : Step mayPass o deeds o') :
    IsOrderly (log ++ Log.entries o.now deeds) o' := by
  cases hstep with
  | around | request | pass =>
    rw [Log.entries_nil, List.append_nil]
    exact h.frame rfl rfl
  | event e waits listens =>
    have hrunning := ReloadLoop.isStopped_step waits.2 o.now (.event e)
    rw [Log.entries_nil, List.append_nil]
    exact h.frame (hrunning.trans waits.2.symm) rfl
  | eventsEnd waits listens =>
    have hrunning := ReloadLoop.isStopped_step waits.2 o.now .eventsEnd
    rw [Log.entries_nil, List.append_nil]
    exact h.frame (hrunning.trans waits.2.symm) rfl
  | beginLoad due waits armed passed =>
    refine h.concat waits.2 waits.2 ?_ (by simp [Deed.stops])
    simp [waits.1, Deed.beginsLoad, Deed.result?, beginLoad]
  | endLoad result loads =>
    have hrunning := h.running loads
    refine h.concat hrunning (ReloadLoop.isStopped_step hrunning o.now _) ?_ (by simp [Deed.stops])
    simp [loads, Deed.beginsLoad, Deed.result?, endLoad]
  | beat due interval path outcome waits armed passed beats written =>
    refine h.concat waits.2 (ReloadLoop.isStopped_step waits.2 o.now _) ?_ (by simp [Deed.stops])
    simp [waits.1, Deed.beginsLoad, Deed.result?, endWrite, wake]
  | stop found waits ready =>
    refine h.concat waits.2 (ReloadLoop.isStopped_step waits.2 o.now _) ?_ fun _ => waits.1
    simp [waits.1, Deed.beginsLoad, Deed.result?, wake]

theorem IsOrderly.runs {past : Log} (h : IsOrderly past first) (hruns : Runs mayPass first log o) :
    IsOrderly (past ++ log) o := by
  induction hruns with
  | begin => simpa using h
  | step _ hstep ih =>
    rw [← List.append_assoc]
    exact ih.step hstep

/-! ### The stop -/

/-- What does not wait is not woken up: only a load that is in flight may end. -/
theorem Step.of_not_waits (hstep : Step mayPass o deeds o') (hwaits : ¬ o.Waits) :
    (deeds = [] ∧ o'.loop = o.loop ∧ o'.isLoading = o.isLoading) ∨
      o.isLoading = true ∧ ∃ result, deeds = [.endLoad result] ∧ o' = o.endLoad result := by
  cases hstep with
  | around | request | pass => exact .inl ⟨rfl, rfl, rfl⟩
  | endLoad result loads => exact .inr ⟨loads, result, rfl, rfl⟩
  | event _ waits | eventsEnd waits | beginLoad _ waits | beat _ _ _ _ waits
  | stop _ waits => exact absurd waits hwaits

/-- While a load is in flight, nothing happens to the loop but the end of the load. -/
theorem Step.of_loading (hstep : Step mayPass o deeds o') (hloads : o.isLoading = true) :
    (deeds = [] ∧ o'.isLoading = true ∧ o'.loop = o.loop) ∨
      ∃ result, deeds = [.endLoad result] ∧ o' = o.endLoad result := by
  have hwaits : ¬ o.Waits := fun hwaits => by simp [hwaits.1] at hloads
  rcases hstep.of_not_waits hwaits with ⟨hdeeds, hloop, hloading⟩ | ⟨-, hend⟩
  · exact .inl ⟨hdeeds, hloading.trans hloads, hloop⟩
  · exact .inr hend

/-- After its stop a loop does nothing any more, whatever happens around it. -/
theorem Runs.eq_of_stopped (hruns : Runs mayPass first log o)
    (hstopped : first.loop.isStopped = true) (hidle : first.isLoading = false) :
    log = [] ∧ o.loop = first.loop ∧ o.isLoading = false := by
  induction hruns with
  | begin => exact ⟨rfl, rfl, hidle⟩
  | @step log o o' deeds _ hstep ih =>
    obtain ⟨rfl, hloop, hloading⟩ := ih
    have hwaits : ¬ o.Waits := fun hwaits => by
      have hrunning := hwaits.2
      rw [hloop, hstopped] at hrunning
      contradiction
    rcases hstep.of_not_waits hwaits with ⟨rfl, hsame, hidle'⟩ | ⟨hloads, -⟩
    · exact ⟨rfl, hsame.trans hloop, hidle'.trans hloading⟩
    · rw [hloading] at hloads
      contradiction

/-! ### The runs of a world -/

/-- Whether time may pass up to an instant where loads take no time and the clock stops at all that
is due. -/
def IsQuietUntil (o : Operation) (instant : Nat) : Prop :=
  o.isLoading = false ∧
    (o.loop.isStopped = false →
      (∀ due, o.loop.deadline = some due → instant ≤ due) ∧
        ∀ due interval path, o.loop.nextBeat = some due →
          o.loop.heartbeat = some (interval, path) → instant ≤ due)

/-- The loop of a world, between two loads. -/
def ofWorld (w : World) : Operation := ⟨w.files, w.now, w.loop, false, w.reviews⟩

/-- Parameters with a heartbeat start a loop with that heartbeat. -/
theorem ofWorld_start {files : FileStore} {p : Parameters} {watched : List Place} {state : Active}
    {listens : Bool} {interval : Nat} {path : String}
    (h : p.heartbeat? = some (interval, path)) :
    ofWorld (.start files p watched state listens) =
      begin files 0 state p.debounce listens interval path := by
  have hloop := ReloadLoop.start_eq_plain state p listens 0
  simp only [h] at hloop
  simp only [ofWorld, World.start, begin, start, hloop]

theorem isQuietUntil_ofWorld {w : World} {instant : Nat}
    (h : ∀ t < instant, w.next? t = none) : (ofWorld w).IsQuietUntil instant := by
  refine ⟨rfl, fun hrunning => ?_⟩
  obtain ⟨hdeadline, hbeat⟩ := World.le_of_quiet hrunning h
  refine ⟨hdeadline, fun due interval path hdue hbeats => ?_⟩
  exact hbeat due path (World.beat?_eq_some_iff.mpr ⟨hdue, interval, hbeats⟩)

/-- Whatever the loop of a world wakes up for is part of a run. -/
theorem Runs.wakes {w w' : World} {seen : List FileEvent}
    (h : Runs IsQuietUntil first log (ofWorld w)) (hwakes : w.Wakes seen w') :
    ∃ more, Runs IsQuietUntil first (log ++ more) (ofWorld w') := by
  cases hwakes with
  | deadline due running armed passed =>
    have hbegun := h.step (.beginLoad due ⟨rfl, running⟩ armed passed)
    have hended := hbegun.step (.endLoad w.loadNow rfl)
    -- A world clears the deadline when the load is over, and not when it begins.
    have hsame : (ofWorld w).beginLoad.endLoad w.loadNow = ofWorld w.passDeadline := by
      have hloop := ReloadLoop.step_deadline_of_cleared running w.now w.loadNow
      simp only [endLoad, wake, beginLoad, ofWorld, hloop]
      rfl
    rw [hsame, List.append_assoc] at hended
    exact ⟨_, hended⟩
  | event e rest running listens queued => exact ⟨_, h.step (.event e ⟨rfl, running⟩ listens)⟩
  | eventsEnd running listens empty closed => exact ⟨_, h.step (.eventsEnd ⟨rfl, running⟩ listens)⟩
  | beat due path running armed passed =>
    obtain ⟨hnext, interval, hbeat⟩ := World.beat?_eq_some_iff.mp armed
    have hwritten := h.step
      (.beat due interval path (writeHealth w.files path) ⟨rfl, running⟩ hnext passed hbeat
        fun _ hafter => hafter)
    have hsame : (ofWorld w).endWrite (writeHealth w.files path) = ofWorld (w.passBeat path) := by
      unfold World.passBeat
      cases writeHealth w.files path <;> rfl
    rw [hsame] at hwritten
    exact ⟨_, hwritten⟩
  | stop running asked =>
    exact ⟨_, h.step (.stop .stop ⟨rfl, running⟩ (by decide))⟩

/-- A run of a world is a run of its loop in which the clock passes over nothing that is due. -/
theorem exists_runs_ofWorld {begin w : World} {past : List (Nat × Notice)}
    (h : World.Runs begin past w) :
    ∃ log, Runs IsQuietUntil (ofWorld begin) log (ofWorld w) := by
  induction h with
  | begin => exact ⟨[], .begin⟩
  | send _ _ _ ih | ask _ ih | close _ _ ih | abort _ _ ih => exact ih
  | @act _ w _ a ih =>
    obtain ⟨log, hruns⟩ := ih
    exact ⟨log, hruns.idle (.around (a.apply w.files))⟩
  | request _ r ih =>
    obtain ⟨log, hruns⟩ := ih
    exact ⟨log, hruns.idle (.request r)⟩
  | wake _ hwakes ih =>
    obtain ⟨log, hruns⟩ := ih
    obtain ⟨more, hmore⟩ := hruns.wakes hwakes
    exact ⟨log ++ more, hmore⟩
  | pass _ instant later quiet ih =>
    obtain ⟨log, hruns⟩ := ih
    exact ⟨log, hruns.idle (.pass instant later (isQuietUntil_ofWorld quiet))⟩

end Operation

end SidecarAdmission.Lifecycle
