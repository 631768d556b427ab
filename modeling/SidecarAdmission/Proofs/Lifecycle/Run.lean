import SidecarAdmission.Proofs.Lifecycle.ReloadLoop
import SidecarAdmission.Proofs.Lifecycle.World
import SidecarAdmission.Proofs.Storage.FileStore

/-!
Runs of a world. Events, requests to stop, requests of the protocol and changes of the files may
come at any time; the loop takes what is ready in any order; and time passes only while nothing is
ready, and never beyond what is due. Waiting is one such run, in an order of its own, and it does
not end before its time is over.
-/

set_option autoImplicit false
set_option relaxedAutoImplicit false

namespace SidecarAdmission.Lifecycle

open SidecarAdmission.Storage

/-- What a world is told: that an event has been sent, or that it is to stop. -/
inductive Notice where
  | event (e : FileEvent)
  | stop
deriving DecidableEq, Repr, Inhabited

namespace World

/-- The events that a beat to a file leads to, as the watcher sees it. -/
def beatEvents (w : World) (path : String) : List FileEvent :=
  match writeHealth w.files path with
  | .ok _ => w.events ((FileAction.write path healthMark).changes w.files)
  | .error _ => []

/-- What a running loop may wake up for now, in no fixed order, with the events that this leads
to. -/
inductive Wakes (w : World) : List FileEvent → World → Prop where
  | deadline (due : Nat) (running : w.loop.isStopped = false)
      (armed : w.loop.deadline = some due) (passed : due ≤ w.now) : Wakes w [] w.passDeadline
  | event (e : FileEvent) (rest : List FileEvent) (running : w.loop.isStopped = false)
      (listens : w.loop.listens = true) (queued : w.queue = e :: rest) :
    Wakes w [] (({ w with queue := rest } : World).signal (.event e))
  | eventsEnd (running : w.loop.isStopped = false) (listens : w.loop.listens = true)
      (empty : w.queue = []) (closed : w.hasSender = false) : Wakes w [] (w.signal .eventsEnd)
  | beat (due : Nat) (path : String) (running : w.loop.isStopped = false)
      (armed : w.beat? = some (due, path)) (passed : due ≤ w.now) :
    Wakes w (w.beatEvents path) (w.passBeat path)
  | stop (running : w.loop.isStopped = false) (asked : w.stopRequested = true) :
    Wakes w [] (w.signal .stop)

/-- Events as notices at a time. -/
def noticesOf (now : Nat) (events : List FileEvent) : List (Nat × Notice) :=
  events.map fun e => (now, .event e)

/-- What may become of a world, with all that it has been told on the way and when. The sender of a
world goes away only if it is not the watcher of the world itself. -/
inductive Runs (first : World) : List (Nat × Notice) → World → Prop where
  | begin : Runs first [] first
  | send {past : List (Nat × Notice)} {w : World} (h : Runs first past w) (e : FileEvent)
      (isOpen : w.hasSender = true) : Runs first (past ++ noticesOf w.now [e]) (w.send e)
  | act {past : List (Nat × Notice)} {w : World} (h : Runs first past w) (a : FileAction) :
    Runs first (past ++ noticesOf w.now (w.events (a.changes w.files))) (w.act a)
  | ask {past : List (Nat × Notice)} {w : World} (h : Runs first past w) :
    Runs first (past ++ [(w.now, .stop)]) { w with stopRequested := true }
  | close {past : List (Nat × Notice)} {w : World} (h : Runs first past w)
      (unwatched : w.watched = []) : Runs first past { w with hasSender := false }
  | request {past : List (Nat × Notice)} {w : World} (h : Runs first past w) (r : Http.Request) :
    Runs first past (w.request r).2
  | abort {past : List (Nat × Notice)} {w : World} (h : Runs first past w) (aborts : Bool) :
    Runs first past { w with loaderAborts := aborts }
  | wake {past : List (Nat × Notice)} {w w' : World} {seen : List FileEvent}
      (h : Runs first past w) (hwakes : Wakes w seen w') :
    Runs first (past ++ noticesOf w.now seen) w'
  | pass {past : List (Nat × Notice)} {w : World} (h : Runs first past w) (instant : Nat)
      (later : w.now ≤ instant) (quiet : ∀ t < instant, w.next? t = none) :
    Runs first past { w with now := instant }

/-- Whether nothing is left to be done now. -/
def IsSettled (w : World) : Prop := w.next? w.now = none

variable {first w w' : World} {past : List (Nat × Notice)} {limit : Nat}

/-! ### Nothing to do -/

theorem nextDue?_eq_none_iff :
    w.nextDue? limit = none ↔
      (∀ due, w.loop.deadline = some due → limit < due) ∧
        ∀ due path, w.beat? = some (due, path) → limit < due := by
  constructor
  · intro h
    unfold nextDue? at h
    simp only at h
    split at h
    next d b path hdeadline hdue =>
      have hbeat : w.beat? = some (b, path) := hdue
      split at h
      next hlimit =>
        refine ⟨fun d' hd => ?_, fun b' path' hb => ?_⟩
        · obtain rfl := Option.some.inj (hdeadline.symm.trans hd)
          omega
        · obtain ⟨rfl, -⟩ := Prod.mk.inj (Option.some.inj (hbeat.symm.trans hb))
          omega
      next => split at h <;> contradiction
    next d hdeadline hdue =>
      have hbeat : w.beat? = none := hdue
      split at h
      next hlimit => simpa [hdeadline, hbeat] using hlimit
      next => contradiction
    next b path hdeadline hdue =>
      have hbeat : w.beat? = some (b, path) := hdue
      split at h
      next hlimit => simpa [hdeadline, hbeat] using hlimit
      next => contradiction
    next hdeadline hdue =>
      have hbeat : w.beat? = none := hdue
      simp [hdeadline, hbeat]
  · rintro ⟨hdeadline, hbeat⟩
    rw [Option.eq_none_iff_forall_ne_some]
    intro w' hnext
    rcases nextDue?_cases hnext with ⟨d, harmed, hd, -, -⟩ | ⟨b, path, harmed, hb, -, -⟩
    · have hlate := hdeadline d harmed
      omega
    · have hlate := hbeat b path harmed
      omega

/-- Nothing happens up to a time if the loop has stopped, or if nothing has come and nothing is due
by then. -/
theorem next?_eq_none_iff :
    w.next? limit = none ↔
      w.loop.isStopped = true ∨
        w.stopRequested = false ∧ (w.loop.listens = true → w.queue = [] ∧ w.hasSender = true) ∧
          (∀ due, w.loop.deadline = some due → limit < due) ∧
          ∀ due path, w.beat? = some (due, path) → limit < due := by
  rw [← nextDue?_eq_none_iff]
  unfold next?
  cases w.loop.isStopped with
  | true => simp
  | false =>
    cases w.stopRequested with
    | true => simp
    | false =>
      cases w.loop.listens with
      | false => simp
      | true =>
        cases w.queue with
        | cons e rest => simp
        | nil => cases w.hasSender <;> simp

/-- What does not happen up to a time does not happen up to an earlier one. -/
theorem next?_eq_none_of_le {earlier : Nat} (h : w.next? limit = none) (hle : earlier ≤ limit) :
    w.next? earlier = none := by
  rw [next?_eq_none_iff] at h ⊢
  refine h.imp_right ?_
  rintro ⟨hstop, hqueue, hdeadline, hbeat⟩
  refine ⟨hstop, hqueue, ?_, ?_⟩
  · intro due hdue
    exact Nat.lt_of_le_of_lt hle (hdeadline due hdue)
  · intro due path hdue
    exact Nat.lt_of_le_of_lt hle (hbeat due path hdue)

/-! ### Due times lie ahead -/

/-- What holds while the clock is kept: nothing is due that has been passed over, and a heartbeat
has an interval. -/
structure IsPaced (p : Parameters) (w : World) : Prop where
  debounce : w.loop.debounce = p.debounce
  interval : ∀ interval path, w.loop.heartbeat = some (interval, path) → 0 < interval
  deadline : w.loop.isStopped = false → ∀ due, w.loop.deadline = some due → w.now ≤ due
  beat : w.loop.isStopped = false → ∀ due path, w.beat? = some (due, path) → w.now ≤ due

variable {p : Parameters}

theorem isPaced_start (files : FileStore) (p : Parameters) (watched : List Place) (state : Active)
    (listens : Bool) : (start files p watched state listens).IsPaced p where
  debounce := rfl
  interval := by
    intro interval path h
    have hbeat : p.heartbeat? = some (interval, path) := h
    exact Parameters.pos_of_heartbeat? hbeat
  deadline := by
    intro _ due h
    contradiction
  beat := by
    intro _ due path _
    exact Nat.zero_le due

/-- What leaves the loop and the clock alone keeps the pace. -/
theorem IsPaced.frame (h : w.IsPaced p) (hloop : w'.loop = w.loop) (hnow : w'.now = w.now) :
    w'.IsPaced p where
  debounce := by rw [hloop, h.debounce]
  interval := by
    rw [hloop]
    exact h.interval
  deadline := by
    rw [hloop, hnow]
    exact h.deadline
  beat := by
    have hbeat : w'.beat? = w.beat? := by simp only [beat?, hloop]
    rw [hloop, hnow, hbeat]
    exact h.beat

theorem beat?_eq_some_iff {due : Nat} {path : String} :
    w.beat? = some (due, path) ↔
      w.loop.nextBeat = some due ∧ ∃ interval, w.loop.heartbeat = some (interval, path) := by
  unfold beat?
  cases w.loop.nextBeat with
  | none => simp
  | some b =>
    cases w.loop.heartbeat with
    | none => simp
    | some beat =>
      obtain ⟨interval, file⟩ := beat
      simp

/-- A deadline is set ahead of now, and so is the next beat. -/
theorem IsPaced.step (h : w.IsPaced p) (hrunning : w.loop.isStopped = false) {signal : Signal}
    (hnow : w'.now = w.now) (hloop : w'.loop = w.loop.step w.now signal) : w'.IsPaced p := by
  obtain ⟨hdebounce, hheartbeat⟩ := w.loop.settings_step w.now signal
  refine ⟨?_, ?_, ?_, ?_⟩
  · rw [hloop, hdebounce, h.debounce]
  · rw [hloop, hheartbeat]
    exact h.interval
  · intro _ due hdue
    have hbefore := h.deadline hrunning
    rw [hloop, ReloadLoop.deadline_step hrunning] at hdue
    rw [hnow]
    cases signal with
    | deadline result => contradiction
    | event e =>
      dsimp only at hdue
      split at hdue
      · obtain rfl := Option.some.inj hdue
        exact Nat.le_add_right _ _
      · exact hbefore due hdue
    | eventsEnd | beat _ | stop => exact hbefore due hdue
  · intro _ due path hdue
    obtain ⟨hnext, interval, hinterval⟩ := beat?_eq_some_iff.mp hdue
    rw [hloop, ReloadLoop.nextBeat_step hrunning] at hnext
    rw [hloop, hheartbeat] at hinterval
    rw [hnow]
    have hbefore : ∀ due, w.loop.nextBeat = some due → w.now ≤ due := fun due hdue =>
      h.beat hrunning due path (beat?_eq_some_iff.mpr ⟨hdue, interval, hinterval⟩)
    cases signal with
    | beat written =>
      cases hlast : w.loop.nextBeat with
      | none => simp [hlast] at hnext
      | some last =>
        have hle := hbefore last hlast
        have hlater := ReloadLoop.add_le_dueAfter last interval w.now
        simp only [hlast, hinterval, Option.some.injEq] at hnext
        omega
    | deadline _ | event _ | eventsEnd | stop => exact hbefore due hnext

theorem loop_passBeat (w : World) (path : String) :
    ∃ written, (w.passBeat path).loop = w.loop.step w.now (.beat written) := by
  unfold passBeat
  split
  · exact ⟨true, rfl⟩
  · exact ⟨false, rfl⟩

/-- Whatever the loop wakes up for is a signal, and takes no time. -/
theorem Wakes.exists_signal {seen : List FileEvent} (h : Wakes w seen w') :
    w.loop.isStopped = false ∧ w'.now = w.now ∧
      ∃ signal, w'.loop = w.loop.step w.now signal := by
  cases h with
  | deadline due running armed passed => exact ⟨running, rfl, .deadline w.loadNow, rfl⟩
  | event e rest running listens queued => exact ⟨running, rfl, .event e, rfl⟩
  | eventsEnd running listens empty closed => exact ⟨running, rfl, .eventsEnd, rfl⟩
  | beat due path running armed passed =>
    obtain ⟨written, hloop⟩ := loop_passBeat w path
    refine ⟨running, ?_, .beat written, hloop⟩
    unfold passBeat
    split <;> rfl
  | stop running asked => exact ⟨running, rfl, .stop, rfl⟩

theorem IsPaced.wakes (h : w.IsPaced p) {seen : List FileEvent} (hwakes : Wakes w seen w') :
    w'.IsPaced p := by
  obtain ⟨hrunning, hnow, signal, hloop⟩ := hwakes.exists_signal
  exact h.step hrunning hnow hloop

/-- Nothing is due before a time up to which nothing happens. -/
theorem le_of_quiet {instant : Nat} (hrunning : w.loop.isStopped = false)
    (hquiet : ∀ t < instant, w.next? t = none) :
    (∀ due, w.loop.deadline = some due → instant ≤ due) ∧
      ∀ due path, w.beat? = some (due, path) → instant ≤ due := by
  have hdue : ∀ t < instant, (∀ due, w.loop.deadline = some due → t < due) ∧
      ∀ due path, w.beat? = some (due, path) → t < due := by
    intro t ht
    have hnone := next?_eq_none_iff.mp (hquiet t ht)
    rw [hrunning] at hnone
    exact (hnone.resolve_left Bool.false_ne_true).2.2
  constructor
  · intro due harmed
    refine Nat.le_of_not_lt fun hpassed => ?_
    exact Nat.lt_irrefl due ((hdue due hpassed).1 due harmed)
  · intro due path harmed
    refine Nat.le_of_not_lt fun hpassed => ?_
    exact Nat.lt_irrefl due ((hdue due hpassed).2 due path harmed)

/-- Time that passes in quiet passes over nothing that is due. -/
theorem IsPaced.pass (h : w.IsPaced p) {instant : Nat}
    (hquiet : ∀ t < instant, w.next? t = none) : IsPaced p { w with now := instant } where
  debounce := h.debounce
  interval := h.interval
  deadline := by
    intro hrunning
    exact (le_of_quiet (w := w) hrunning hquiet).1
  beat := by
    intro hrunning
    exact (le_of_quiet (w := w) hrunning hquiet).2

theorem Runs.isPaced (h : Runs first past w) (hfirst : first.IsPaced p) : w.IsPaced p := by
  induction h with
  | begin => exact hfirst
  | send _ e _ ih => exact ih.frame rfl rfl
  | act _ a ih => exact ih.frame rfl rfl
  | ask _ ih => exact ih.frame rfl rfl
  | close _ _ ih => exact ih.frame rfl rfl
  | request _ r ih => exact ih.frame rfl rfl
  | abort _ aborts ih => exact ih.frame rfl rfl
  | wake _ hwakes ih => exact ih.wakes hwakes
  | pass _ instant _ quiet ih => exact ih.pass quiet

/-! ### Waiting -/

/-- Writing a file changes one thing only: what lies above it is there already. -/
theorem changes_of_write {files after : FileStore} {path : String} {content : Text.Octets}
    (h : files.write path content = .ok after) :
    (FileAction.write path content).changes files =
      [(if (files.at? (files.placeOf path)).isSome then .changeOther else .create,
        files.placeOf path)] := by
  obtain ⟨-, -, above, name, hplace, hreached⟩ := FileStore.set_of_write h
  have hmissing : FileAction.missingAbove files (files.placeOf path) = [] := by
    rw [FileAction.missingAbove, hplace, List.filter_eq_nil_iff]
    intro part hpart
    obtain ⟨n, hn, rfl⟩ := List.mem_map.mp hpart
    have hle : n ≤ above.length := by
      rw [List.mem_range, List.length_append, List.length_singleton] at hn
      omega
    rw [List.take_append_of_le_length hle, Option.isNone_iff_eq_none]
    intro hnone
    have hthere := hreached n hle
    rw [hnone] at hthere
    contradiction
  simp only [FileAction.changes, hmissing, List.map_nil, List.nil_append]

/-- A beat tells of one change at most. -/
theorem length_beatEvents_le (w : World) (path : String) : (w.beatEvents path).length ≤ 1 := by
  unfold beatEvents
  split
  next files hfiles =>
    rw [changes_of_write hfiles, events, List.length_map]
    exact List.length_filter_le _ _
  next => exact Nat.zero_le 1

theorem queue_passBeat (w : World) (path : String) :
    (w.passBeat path).queue = w.queue ++ w.beatEvents path := by
  unfold passBeat beatEvents
  cases writeHealth w.files path with
  | ok files => rfl
  | error e => exact (List.append_nil _).symm

/-- How many beats can still come up to a time. -/
def beatsLeft (w : World) (limit : Nat) : Nat :=
  match w.beat? with
  | some (due, _) => limit + 1 - due
  | none => 0

/-- More than can still happen up to a time: a stop, the end of events, a load for each event, a
deadline that is set, and a beat with its event and the load for it. -/
def measure (w : World) (limit : Nat) : Nat :=
  if w.loop.isStopped then 0
  else 1 + (if w.loop.listens then 1 else 0) + 2 * w.queue.length
    + (if w.loop.deadline.isSome then 1 else 0) + 3 * w.beatsLeft limit

theorem measure_of_running (hrunning : w.loop.isStopped = false) (limit : Nat) :
    w.measure limit =
      1 + (if w.loop.listens then 1 else 0) + 2 * w.queue.length
        + (if w.loop.deadline.isSome then 1 else 0) + 3 * w.beatsLeft limit := by
  simp [measure, hrunning]

/-- A signal that is no beat leaves as many beats as there were. -/
theorem beatsLeft_of_step (hrunning : w.loop.isStopped = false) {now : Nat} {signal : Signal}
    (hloop : w'.loop = w.loop.step now signal) (hsignal : ∀ written, signal ≠ .beat written)
    (limit : Nat) : w'.beatsLeft limit = w.beatsLeft limit := by
  have hnext : w'.loop.nextBeat = w.loop.nextBeat := by
    rw [hloop, ReloadLoop.nextBeat_step hrunning]
    cases signal with
    | beat written => exact absurd rfl (hsignal written)
    | deadline _ | event _ | eventsEnd | stop => rfl
  have hheartbeat : w'.loop.heartbeat = w.loop.heartbeat := by
    rw [hloop, (w.loop.settings_step now signal).2]
  simp only [beatsLeft, beat?, hnext, hheartbeat]

/-- A beat leaves one less, because the next is due later. -/
theorem beatsLeft_lt_of_beat (h : w.IsPaced p) (hrunning : w.loop.isStopped = false)
    {due : Nat} {path : String} (harmed : w.beat? = some (due, path)) (hdue : due ≤ limit)
    {w' : World} {now : Nat} {written : Bool} (hloop : w'.loop = w.loop.step now (.beat written)) :
    w'.beatsLeft limit < w.beatsLeft limit := by
  obtain ⟨hnext, interval, hinterval⟩ := beat?_eq_some_iff.mp harmed
  have hpos := h.interval interval path hinterval
  have hlater := ReloadLoop.add_le_dueAfter due interval now
  have hnext' : w'.loop.nextBeat = some (ReloadLoop.dueAfter due interval now) := by
    rw [hloop, ReloadLoop.nextBeat_step hrunning]
    simp only [hnext, hinterval]
  have hinterval' : w'.loop.heartbeat = some (interval, path) := by
    rw [hloop, (w.loop.settings_step now (.beat written)).2, hinterval]
  have hbeat' : w'.beat? = some (ReloadLoop.dueAfter due interval now, path) :=
    beat?_eq_some_iff.mpr ⟨hnext', interval, hinterval'⟩
  simp only [beatsLeft, harmed, hbeat']
  omega

/-- What is due leaves less to happen. -/
theorem measure_lt_of_nextDue? (h : w.IsPaced p) (hrunning : w.loop.isStopped = false)
    (hnext : w.nextDue? limit = some w') : w'.measure limit < w.measure limit := by
  rw [measure_of_running hrunning]
  rcases nextDue?_cases hnext with ⟨d, harmed, -, -, rfl⟩ | ⟨b, path, harmed, hdue, -, rfl⟩
  · let w' := ({ w with now := d } : World).passDeadline
    have hloop : w'.loop = w.loop.step d (.deadline w.loadNow) := rfl
    have hrunning' : w'.loop.isStopped = false := ReloadLoop.isStopped_step hrunning d _
    have hbeats : w'.beatsLeft limit = w.beatsLeft limit :=
      beatsLeft_of_step hrunning hloop (fun _ => Signal.noConfusion) limit
    have hlistens : w'.loop.listens = w.loop.listens := ReloadLoop.listens_step hrunning d _
    have hdeadline : w'.loop.deadline = none := ReloadLoop.deadline_step hrunning d _
    have hqueue : w'.queue = w.queue := rfl
    show w'.measure limit < _
    rw [measure_of_running hrunning', hbeats, hlistens, hdeadline, hqueue, harmed]
    simp only [Option.isSome_none, Option.isSome_some, Bool.false_eq_true, if_false, if_true]
    omega
  · let w' := ({ w with now := b } : World).passBeat path
    obtain ⟨written, hloop⟩ : ∃ written, w'.loop = w.loop.step b (.beat written) :=
      loop_passBeat { w with now := b } path
    have hrunning' : w'.loop.isStopped = false := by
      rw [hloop]
      exact ReloadLoop.isStopped_step hrunning b _
    have hbeats : w'.beatsLeft limit < w.beatsLeft limit :=
      beatsLeft_lt_of_beat h hrunning harmed hdue hloop
    have hlistens : w'.loop.listens = w.loop.listens := by
      rw [hloop]
      exact ReloadLoop.listens_step hrunning b _
    have hdeadline : w'.loop.deadline = w.loop.deadline := by
      rw [hloop]
      exact ReloadLoop.deadline_step hrunning b _
    have hqueue : w'.queue.length ≤ w.queue.length + 1 := by
      have hevents := length_beatEvents_le { w with now := b } path
      rw [queue_passBeat, List.length_append]
      exact Nat.add_le_add_left hevents _
    show w'.measure limit < _
    rw [measure_of_running hrunning', hlistens, hdeadline]
    omega

/-- Everything that happens leaves less to happen. -/
theorem measure_lt_of_next? (h : w.IsPaced p) (hnext : w.next? limit = some w') :
    w'.measure limit < w.measure limit := by
  obtain ⟨hrunning, hcases⟩ := next?_cases hnext
  rcases hcases with ⟨-, rfl⟩ | ⟨e, rest, hlistens, hqueue, rfl⟩ |
    ⟨hlistens, hqueue, hsender, rfl⟩ | ⟨-, hdue⟩
  · have hstopped : (w.signal .stop).loop.isStopped = true :=
      ReloadLoop.isStopped_step hrunning w.now .stop
    rw [measure_of_running hrunning, measure, if_pos hstopped]
    omega
  · let w' := ({ w with queue := rest } : World).signal (.event e)
    have hloop : w'.loop = w.loop.step w.now (.event e) := rfl
    have hrunning' : w'.loop.isStopped = false := ReloadLoop.isStopped_step hrunning w.now _
    have hbeats : w'.beatsLeft limit = w.beatsLeft limit :=
      beatsLeft_of_step hrunning hloop (fun _ => Signal.noConfusion) limit
    have hlistens' : w'.loop.listens = w.loop.listens := ReloadLoop.listens_step hrunning w.now _
    have hqueue' : w'.queue = rest := rfl
    -- The deadline may be new, which weighs less than the event.
    have hdeadline : (if w'.loop.deadline.isSome then 1 else 0) ≤ 1 := by
      split <;> omega
    show w'.measure limit < _
    rw [measure_of_running hrunning', measure_of_running hrunning, hbeats, hlistens', hqueue',
      hqueue, List.length_cons]
    omega
  · let w' := w.signal .eventsEnd
    have hloop : w'.loop = w.loop.step w.now .eventsEnd := rfl
    have hrunning' : w'.loop.isStopped = false := ReloadLoop.isStopped_step hrunning w.now _
    have hbeats : w'.beatsLeft limit = w.beatsLeft limit :=
      beatsLeft_of_step hrunning hloop (fun _ => Signal.noConfusion) limit
    have hlistens' : w'.loop.listens = false := ReloadLoop.listens_step hrunning w.now _
    have hdeadline : w'.loop.deadline = w.loop.deadline :=
      ReloadLoop.deadline_step hrunning w.now _
    have hqueue' : w'.queue = w.queue := rfl
    show w'.measure limit < _
    rw [measure_of_running hrunning', measure_of_running hrunning, hbeats, hlistens', hlistens,
      hdeadline, hqueue']
    simp only [Bool.false_eq_true, if_false, if_true]
    omega
  · exact measure_lt_of_nextDue? h hrunning hdue

/-- Nothing happens before the time to which nothing is due. -/
theorem next?_eq_none_of_lt {instant : Nat} (hstop : w.stopRequested = false)
    (hquiet : w.loop.listens = true → w.queue = [] ∧ w.hasSender = true)
    (hdeadline : ∀ due, w.loop.deadline = some due → instant ≤ due)
    (hbeat : ∀ due path, w.beat? = some (due, path) → instant ≤ due) :
    ∀ t < instant, w.next? t = none := by
  intro t ht
  refine next?_eq_none_iff.mpr (.inr ⟨hstop, hquiet, ?_, ?_⟩)
  · intro due hdue
    exact Nat.lt_of_lt_of_le ht (hdeadline due hdue)
  · intro due path hdue
    exact Nat.lt_of_lt_of_le ht (hbeat due path hdue)

/-- What happens next in a world is one of the things that may happen. -/
theorem Runs.next (h : Runs first past w) (hpaced : w.IsPaced p)
    (hnext : w.next? limit = some w') (hnow : w.now ≤ limit) :
    ∃ more, Runs first (past ++ more) w' ∧ w'.IsPaced p ∧ w'.now ≤ limit := by
  -- Whatever wakes the loop up, now or when it is due, ends the step.
  have hwake : ∀ {v v' : World} {seen : List FileEvent}, Runs first past v → v.IsPaced p →
      v.now ≤ limit → Wakes v seen v' →
      ∃ more, Runs first (past ++ more) v' ∧ v'.IsPaced p ∧ v'.now ≤ limit := by
    intro v v' seen hruns hpaced hnow hwakes
    obtain ⟨-, hsame, -⟩ := hwakes.exists_signal
    exact ⟨_, hruns.wake hwakes, hpaced.wakes hwakes, by rwa [hsame]⟩
  obtain ⟨hrunning, hcases⟩ := next?_cases hnext
  cases hstop : w.stopRequested with
  | true =>
    have hfirst : w.next? limit = some (w.signal .stop) := by
      simp [next?, hrunning, hstop]
    obtain rfl := Option.some.inj (hnext.symm.trans hfirst)
    exact hwake h hpaced hnow (.stop hrunning hstop)
  | false =>
    rcases hcases with ⟨hasked, -⟩ | ⟨e, rest, hlistens, hqueue, rfl⟩ |
      ⟨hlistens, hqueue, hsender, rfl⟩ | ⟨hquiet, hdue⟩
    · rw [hstop] at hasked
      contradiction
    · exact hwake h hpaced hnow (.event e rest hrunning hlistens hqueue)
    · exact hwake h hpaced hnow (.eventsEnd hrunning hlistens hqueue hsender)
    · rcases nextDue?_cases hdue with
        ⟨d, harmed, hlimit, hfirst, rfl⟩ | ⟨b, path, harmed, hlimit, hfirst, rfl⟩
      · have hbefore : ∀ t < d, w.next? t = none := by
          refine next?_eq_none_of_lt hstop hquiet ?_ hfirst
          intro due hdue
          rw [harmed] at hdue
          exact Nat.le_of_eq (Option.some.inj hdue)
        have hpass := h.pass d (hpaced.deadline hrunning d harmed) hbefore
        exact hwake hpass (hpaced.pass hbefore) hlimit
          (.deadline d hrunning harmed (Nat.le_refl d))
      · have hbefore : ∀ t < b, w.next? t = none := by
          refine next?_eq_none_of_lt hstop hquiet
            (fun due hdue => Nat.le_of_lt (hfirst due hdue)) ?_
          intro due path' hdue
          rw [harmed] at hdue
          exact Nat.le_of_eq (Prod.mk.inj (Option.some.inj hdue)).1
        have hpass := h.pass b (hpaced.beat hrunning b path harmed) hbefore
        exact hwake hpass (hpaced.pass hbefore) hlimit
          (.beat b path hrunning harmed (Nat.le_refl b))

/-- With enough steps, everything happens up to a time. -/
theorem Runs.runTo {fuel : Nat} (h : Runs first past w) (hpaced : w.IsPaced p)
    (hnow : w.now ≤ limit) (hfuel : w.measure limit < fuel) :
    ∃ more, Runs first (past ++ more) (w.runTo limit fuel) ∧
      (w.runTo limit fuel).now = limit ∧ (w.runTo limit fuel).IsSettled := by
  induction fuel generalizing past w with
  | zero => contradiction
  | succ fuel ih =>
    rw [World.runTo]
    split
    next w' hnext =>
      obtain ⟨more, hruns, hpaced', hnow'⟩ := h.next hpaced hnext hnow
      have hless := measure_lt_of_next? hpaced hnext
      obtain ⟨rest, hrest⟩ := ih hruns hpaced' hnow' (by omega)
      rw [List.append_assoc] at hrest
      exact ⟨more ++ rest, hrest⟩
    next hnone =>
      have hpass : Runs first past { w with now := limit } :=
        h.pass limit hnow fun t ht => next?_eq_none_of_le hnone (Nat.le_of_lt ht)
      have hquiet := next?_eq_none_iff.mp hnone
      refine ⟨[], ?_, rfl, next?_eq_none_iff.mpr hquiet⟩
      rwa [List.append_nil]

/-- Time can always pass, and once it has passed nothing is left to be done. -/
theorem Runs.wait (h : Runs first past w) (hpaced : w.IsPaced p) (duration : Nat) :
    ∃ more, Runs first (past ++ more) (w.wait duration) ∧
      (w.wait duration).now = w.now + duration ∧ (w.wait duration).IsSettled := by
  refine h.runTo hpaced (Nat.le_add_right _ _) ?_
  cases hstopped : w.loop.isStopped with
  | true =>
    simp only [measure, hstopped, if_true]
    omega
  | false =>
    have hbeats : w.beatsLeft (w.now + duration) ≤ duration + 1 := by
      unfold beatsLeft
      split
      next due path harmed =>
        have hdue := hpaced.beat hstopped due path harmed
        omega
      next => exact Nat.zero_le _
    have hlistens : (if w.loop.listens then 1 else 0) ≤ 1 := by split <;> omega
    have hdeadline : (if w.loop.deadline.isSome then 1 else 0) ≤ 1 := by split <;> omega
    rw [measure_of_running hstopped]
    omega

end World

end SidecarAdmission.Lifecycle
