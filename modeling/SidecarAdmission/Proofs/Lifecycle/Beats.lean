import Mathlib.Data.Bool.Count
import SidecarAdmission.Proofs.Lifecycle.Accounting

/-!
The schedule of the heartbeat. Where loads and writes take no time and the clock stops at all that
is due, the health file is written at once and then once in every interval, and what lies there
after a write that succeeds is the mark, whatever else the loop has to do. A loop without a
heartbeat never writes.
-/

set_option autoImplicit false
set_option relaxedAutoImplicit false

namespace SidecarAdmission.Lifecycle

open SidecarAdmission.Storage

/-- Whether so many beats are all that have been due before now, and all that were due by then
except perhaps one that is due now. -/
def IsInStep (interval beats now : Nat) : Prop :=
  now ≤ beats * interval ∧ ∀ k < beats, k * interval ≤ now

section InStep

variable {interval beats now : Nat}

theorem isInStep_zero : IsInStep interval 0 0 :=
  ⟨Nat.zero_le _, fun _ hk => absurd hk (Nat.not_lt_zero _)⟩

theorem IsInStep.pass (h : IsInStep interval beats now) {instant : Nat} (hlater : now ≤ instant)
    (hdue : instant ≤ beats * interval) : IsInStep interval beats instant :=
  ⟨hdue, fun k hk => Nat.le_trans (h.2 k hk) hlater⟩

/-- The beat that is due now has been given. -/
theorem IsInStep.beat (h : IsInStep interval beats now) (hdue : beats * interval ≤ now) :
    IsInStep interval (beats + 1) now := by
  have hnow : now = beats * interval := Nat.le_antisymm h.1 hdue
  refine ⟨?_, fun k hk => ?_⟩
  · rw [Nat.succ_mul]
    omega
  · have hle : k ≤ beats := by omega
    have hmul := Nat.mul_le_mul_right interval hle
    omega

/-- Between two beats there is no doubt how many there have been. -/
theorem IsInStep.eq_div (h : IsInStep interval beats now) (hpos : 0 < interval)
    (hbetween : ¬ interval ∣ now) : beats = now / interval + 1 := by
  obtain ⟨hbefore, hafter⟩ := h
  have hne : now ≠ beats * interval := by
    rintro rfl
    exact hbetween (Nat.dvd_mul_left interval beats)
  have hlt : now / interval < beats :=
    (Nat.div_lt_iff_lt_mul hpos).mpr (Nat.lt_of_le_of_ne hbefore hne)
  have hsome : 0 < beats := Nat.zero_lt_of_lt hlt
  have hlast := hafter (beats - 1) (by omega)
  have hle : beats - 1 ≤ now / interval := (Nat.le_div_iff_mul_le hpos).mpr hlast
  omega

end InStep

namespace Operation

/-- Whether the health file holds the mark. -/
def IsMarked (files : FileStore) (path : String) : Prop :=
  files.at? (files.placeOf path) = some (.file healthMark) ∧
    ∀ seen, files.read path = .ok seen → seen = healthMark

/-- What holds at every moment of a run that keeps time. -/
structure IsOnTime (interval : Nat) (path : String) (log : Log) (o : Operation) : Prop where
  heartbeat : o.loop.heartbeat = some (interval, path)
  times : log.writes.map (·.1) = (List.range log.writes.length).map (· * interval)
  marks : ∀ w ∈ log.writes, w.2.1 = path ∧ ∀ after, w.2.2 = .ok after → IsMarked after path
  next : o.loop.isStopped = false →
    o.loop.nextBeat = some (log.writes.length * interval) ∧
      IsInStep interval log.writes.length o.now
  stop : ∀ now found, (now, Deed.stop found) ∈ log → IsInStep interval log.writes.length now

variable {mayPass : Operation → Nat → Prop} {first o o' : Operation} {log more : Log}
  {deeds : List Deed} {interval : Nat} {path : String}

theorem isOnTime_begin {files : FileStore} {state : Active} {debounce : Nat} {listens : Bool}
    (hpos : 0 < interval) :
    IsOnTime interval path [] (begin files 0 state debounce listens interval path) := by
  have hne : interval ≠ 0 := Nat.ne_of_gt hpos
  refine ⟨?_, rfl, ?_, ?_, ?_⟩
  · simp [begin, start, ReloadLoop.withHeartbeat, hne]
  · intro w hw
    contradiction
  · intro _
    refine ⟨?_, isInStep_zero⟩
    simp [begin, start, ReloadLoop.withHeartbeat, hne, Log.writes]
  · intro now found hstop
    contradiction

/-- What neither writes nor stops nor takes time keeps the schedule. -/
theorem IsOnTime.frame (h : IsOnTime interval path log o) (hwrites : more.writes = [])
    (hgoes : more.isOver = false) (hheartbeat : o'.loop.heartbeat = o.loop.heartbeat)
    (hnext : o'.loop.nextBeat = o.loop.nextBeat)
    (hstopped : o'.loop.isStopped = o.loop.isStopped) (hnow : o'.now = o.now) :
    IsOnTime interval path (log ++ more) o' := by
  have hsame : (log ++ more).writes = log.writes := by
    rw [Log.writes_append, hwrites, List.append_nil]
  refine ⟨hheartbeat.trans h.heartbeat, ?_, ?_, ?_, ?_⟩
  · rw [hsame, h.times]
  · rw [hsame]
    exact h.marks
  · rw [hsame, hnext, hstopped, hnow]
    exact h.next
  · intro now found hstop
    rw [hsame]
    rcases List.mem_append.mp hstop with hbefore | hlater
    · exact h.stop now found hbefore
    · rw [Log.isOver_of_mem hlater] at hgoes
      contradiction

/-- A signal other than a beat keeps the schedule, if the loop goes on. -/
theorem IsOnTime.signal (h : IsOnTime interval path log o) (signal : Signal)
    (hloop : o'.loop = o.loop.step o.now signal) (hnow : o'.now = o.now)
    (hwrites : more.writes = []) (hgoes : more.isOver = false)
    (hbeat : ∀ written, signal ≠ .beat written)
    (hstopped : o'.loop.isStopped = o.loop.isStopped) :
    IsOnTime interval path (log ++ more) o' := by
  refine h.frame hwrites hgoes ?_ ?_ hstopped hnow
  · rw [hloop]
    exact (o.loop.settings_step o.now signal).2
  · rw [hloop]
    exact o.loop.nextBeat_step_of_no_beat o.now hbeat

/-- Time passes up to the next beat at most. -/
theorem IsOnTime.pass (h : IsOnTime interval path log o) {instant : Nat} (later : o.now ≤ instant)
    (may : o.IsQuietUntil instant) : IsOnTime interval path log { o with now := instant } where
  heartbeat := h.heartbeat
  times := h.times
  marks := h.marks
  next := by
    intro hrunning
    obtain ⟨hnext, hstep⟩ := h.next hrunning
    have hdue := (may.2 hrunning).2 _ interval path hnext h.heartbeat
    exact ⟨hnext, hstep.pass later hdue⟩
  stop := h.stop

/-- A beat is written on time, and the next one is due an interval later. -/
theorem IsOnTime.beat (h : IsOnTime interval path log o) (horder : IsOrderly log o) {due : Nat}
    {outcome : Except Failure FileStore} (hrunning : o.loop.isStopped = false)
    (harmed : o.loop.nextBeat = some due) (hpassed : due ≤ o.now)
    (hwritten : ∀ after, outcome = .ok after → writeHealth o.files path = .ok after) :
    IsOnTime interval path (log ++ [(o.now, .write path outcome)]) (o.endWrite outcome) := by
  obtain ⟨hnext, hstep⟩ := h.next hrunning
  have hdue : due = log.writes.length * interval := Option.some.inj (harmed.symm.trans hnext)
  -- The clock has not gone past the beat, and the beat is due: it is now.
  have hnow : o.now = log.writes.length * interval := by
    have hbefore := hstep.1
    omega
  have hmore : (log ++ [(o.now, Deed.write path outcome)]).writes =
      log.writes ++ [(o.now, path, outcome)] := by
    simp [Deed.write?]
  have hlength : (log.writes ++ [(o.now, path, outcome)]).length = log.writes.length + 1 :=
    List.length_append
  refine ⟨?_, ?_, ?_, ?_, ?_⟩
  · exact (o.loop.settings_step o.now _).2.trans h.heartbeat
  · rw [hmore, hlength, List.map_append, h.times, List.range_succ, List.map_append]
    simp [hnow]
  · rw [hmore]
    intro w hw
    rcases List.mem_append.mp hw with hbefore | hlast
    · exact h.marks w hbefore
    · obtain rfl := List.mem_singleton.mp hlast
      exact ⟨rfl, fun after hafter => FileStore.content_of_write (hwritten after hafter)⟩
  · intro _
    rw [hmore, hlength]
    refine ⟨?_, hstep.beat (by omega)⟩
    have hagain : (o.endWrite outcome).loop.nextBeat = _ :=
      ReloadLoop.nextBeat_step hrunning o.now (.beat outcome.isOk)
    rw [hagain, Nat.succ_mul]
    simp only [harmed, h.heartbeat]
    rw [ReloadLoop.dueAfter_of_le (by omega), hdue]
  · intro now found hstop
    have hopen : log.isOver = false := horder.stopped.symm.trans hrunning
    rcases List.mem_append.mp hstop with hbefore | hlast
    · rw [Log.isOver_of_mem hbefore] at hopen
      contradiction
    · have hother := List.mem_singleton.mp hlast
      cases hother

/-- The loop stops at a time up to which it has given every beat. -/
theorem IsOnTime.stops (h : IsOnTime interval path log o) {found : Reception}
    (hrunning : o.loop.isStopped = false) :
    IsOnTime interval path (log ++ [(o.now, .stop found)]) (o.wake .stop) := by
  have hsame : (log ++ [(o.now, Deed.stop found)]).writes = log.writes := by
    simp [Deed.write?]
  refine ⟨?_, ?_, ?_, ?_, ?_⟩
  · exact (o.loop.settings_step o.now .stop).2.trans h.heartbeat
  · rw [hsame, h.times]
  · rw [hsame]
    exact h.marks
  · intro hgoes
    have hover : (o.wake .stop).loop.isStopped = true :=
      ReloadLoop.isStopped_step hrunning o.now .stop
    rw [hover] at hgoes
    contradiction
  · intro now found' hstop
    rw [hsame]
    rcases List.mem_append.mp hstop with hbefore | hlast
    · exact h.stop now found' hbefore
    · obtain ⟨rfl, -⟩ := Prod.mk.inj (List.mem_singleton.mp hlast)
      exact (h.next hrunning).2

theorem IsOnTime.step (h : IsOnTime interval path log o) (horder : IsOrderly log o)
    (hstep : Step IsQuietUntil o deeds o') :
    IsOnTime interval path (log ++ Log.entries o.now deeds) o' := by
  cases hstep with
  | around | request => exact h.frame rfl rfl rfl rfl rfl rfl
  | pass instant later may =>
    rw [Log.entries_nil, List.append_nil]
    exact h.pass later may
  | beginLoad due waits armed passed => exact h.frame rfl rfl rfl rfl rfl rfl
  | event e waits listens =>
    have hgoes := ReloadLoop.isStopped_step waits.2 o.now (.event e)
    exact h.signal (.event e) rfl rfl rfl rfl (fun _ => Signal.noConfusion)
      (hgoes.trans waits.2.symm)
  | eventsEnd waits listens =>
    have hgoes := ReloadLoop.isStopped_step waits.2 o.now .eventsEnd
    exact h.signal .eventsEnd rfl rfl rfl rfl (fun _ => Signal.noConfusion)
      (hgoes.trans waits.2.symm)
  | endLoad result loads =>
    have hrunning := horder.running loads
    have hgoes := ReloadLoop.isStopped_step hrunning o.now (.deadline result)
    exact h.signal (.deadline result) rfl rfl rfl rfl (fun _ => Signal.noConfusion)
      (hgoes.trans hrunning.symm)
  | beat due interval' path' outcome waits armed passed beats written =>
    obtain ⟨rfl, rfl⟩ := Prod.mk.inj (Option.some.inj (h.heartbeat.symm.trans beats))
    exact h.beat horder waits.2 armed passed written
  | stop found waits ready => exact h.stops waits.2

theorem Runs.isOnTime (hruns : Runs IsQuietUntil first log o) (horder : IsOrderly [] first)
    (h : IsOnTime interval path [] first) : IsOnTime interval path log o := by
  induction hruns with
  | begin => exact h
  | step hbefore hstep ih => exact ih.step (horder.runs hbefore) hstep

/-! ### No heartbeat -/

/-- A loop without a beat to come never writes. -/
theorem Runs.writes_eq_nil (hruns : Runs mayPass first log o)
    (hnone : first.loop.nextBeat = none) : log.writes = [] ∧ o.loop.nextBeat = none := by
  induction hruns with
  | begin => exact ⟨rfl, hnone⟩
  | @step log o o' deeds _ hstep ih =>
    obtain ⟨hwrites, hnext⟩ := ih
    rw [Log.writes_append, hwrites, List.nil_append]
    have hkept : ∀ {signal : Signal}, (∀ written, signal ≠ .beat written) →
        (o.loop.step o.now signal).nextBeat = none := fun hsignal =>
      (o.loop.nextBeat_step_of_no_beat o.now hsignal).trans hnext
    cases hstep with
    | around | request | pass => exact ⟨rfl, hnext⟩
    | beginLoad => exact ⟨rfl, hnext⟩
    | event | eventsEnd | endLoad | stop => exact ⟨rfl, hkept fun _ => Signal.noConfusion⟩
    | beat due interval path outcome waits armed =>
      rw [hnext] at armed
      contradiction

/-! ### Time can pass -/

/-- A loop that waits for the next beat, with no deadline set. -/
structure AwaitsBeat (interval : Nat) (path : String) (due : Nat) (o : Operation) : Prop where
  waits : o.Waits
  deadline : o.loop.deadline = none
  heartbeat : o.loop.heartbeat = some (interval, path)
  next : o.loop.nextBeat = some due

variable {due : Nat}

theorem AwaitsBeat.isQuietUntil (h : AwaitsBeat interval path due o) {instant : Nat}
    (hbefore : instant ≤ due) : o.IsQuietUntil instant := by
  refine ⟨h.waits.1, fun _ => ⟨?_, ?_⟩⟩
  · intro armed harmed
    rw [h.deadline] at harmed
    contradiction
  · intro armed interval' path' harmed _
    obtain rfl := Option.some.inj (h.next.symm.trans harmed)
    exact hbefore

theorem AwaitsBeat.endWrite (h : AwaitsBeat interval path due o) (hintime : o.now ≤ due)
    (outcome : Except Failure FileStore) :
    AwaitsBeat interval path (due + interval) (o.endWrite outcome) := by
  have hnext : (o.endWrite outcome).loop.nextBeat = _ :=
    ReloadLoop.nextBeat_step h.waits.2 o.now (.beat outcome.isOk)
  have hdeadline : (o.endWrite outcome).loop.deadline = _ :=
    ReloadLoop.deadline_step h.waits.2 o.now (.beat outcome.isOk)
  refine ⟨⟨h.waits.1, ReloadLoop.isStopped_step h.waits.2 o.now _⟩, ?_, ?_, ?_⟩
  · exact hdeadline.trans h.deadline
  · exact (o.loop.settings_step o.now _).2.trans h.heartbeat
  · rw [hnext]
    simp only [h.next, h.heartbeat]
    rw [ReloadLoop.dueAfter_of_le hintime]

/-- Beat after beat, the clock gets to any time. -/
theorem exists_runs_until {files : FileStore} {state : Active} {debounce : Nat} {listens : Bool}
    (hpos : 0 < interval) (time : Nat) :
    ∃ log o due, Runs IsQuietUntil (begin files 0 state debounce listens interval path) log o ∧
      o.now = time ∧ time ≤ due ∧ AwaitsBeat interval path due o := by
  induction time with
  | zero =>
    have hne : interval ≠ 0 := Nat.ne_of_gt hpos
    refine ⟨[], _, 0, .begin, rfl, Nat.le_refl 0, ⟨rfl, ?_⟩, ?_, ?_, ?_⟩ <;>
      simp [begin, start, ReloadLoop.withHeartbeat, ReloadLoop.plain, hne]
  | succ time ih =>
    obtain ⟨log, o, due, hruns, hnow, hdue, hawaits⟩ := ih
    -- A beat that is due is given before the clock goes on.
    obtain ⟨log', o', due', hruns', hnow', hdue', hawaits'⟩ :
        ∃ log' o' due', Runs IsQuietUntil (begin files 0 state debounce listens interval path)
          log' o' ∧ o'.now = time ∧ time < due' ∧ AwaitsBeat interval path due' o' := by
      by_cases hlater : time < due
      · exact ⟨log, o, due, hruns, hnow, hlater, hawaits⟩
      · have hbeaten := hruns.step (.beat due interval path (.error .missing) hawaits.waits
          hawaits.next (by omega) hawaits.heartbeat (by simp))
        exact ⟨_, _, due + interval, hbeaten, hnow, by omega, hawaits.endWrite (by omega) _⟩
    have hpassed := hruns'.idle (.pass (time + 1) (by omega) (hawaits'.isQuietUntil hdue'))
    exact ⟨log', _, due', hpassed, rfl, hdue', hawaits'.waits, hawaits'.deadline,
      hawaits'.heartbeat, hawaits'.next⟩

/-! ### The schedule -/

/-- The schedule of the heartbeat. A loop with an interval that is stopped between two beats has
tried to write the health file at once and then after every interval, as often as the time until the
stop allows, and each write that succeeded left the mark there; what else there was to do, and what
failed, has changed nothing of it. A loop without an interval, and one whose parameters give it no
heartbeat, never try. -/
theorem beats_on_schedule :
    (∀ (files : FileStore) (state : Active) (debounce : Nat) (listens : Bool) (interval : Nat)
        (path : String) (log : Log) (o : Operation) (finish : Nat) (found : Reception),
      0 < interval →
        Runs IsQuietUntil (begin files 0 state debounce listens interval path) log o →
          (finish, Deed.stop found) ∈ log → ¬ interval ∣ finish →
            log.writes.map (·.1) = (List.range (finish / interval + 1)).map (· * interval) ∧
              ∀ w ∈ log.writes, w.2.1 = path ∧
                ∀ after, w.2.2 = .ok after → IsMarked after path) ∧
      (∀ (mayPass : Operation → Nat → Prop) (files : FileStore) (now : Nat) (state : Active)
        (debounce : Nat) (listens : Bool) (path : String) (log : Log) (o : Operation),
        Runs mayPass (begin files now state debounce listens 0 path) log o → log.writes = []) ∧
      ∀ (mayPass : Operation → Nat → Prop) (files : FileStore) (now : Nat) (state : Active)
        (p : Parameters) (listens : Bool) (log : Log) (o : Operation),
        p.heartbeatInterval = 0 ∨ p.heartbeatFile = none ∨ p.heartbeatFile = some "" →
          Runs mayPass (start files now (.start state p listens now)) log o → log.writes = [] := by
  refine ⟨?_, ?_, ?_⟩
  · intro files state debounce listens interval path log o finish found hpos hruns hstop hbetween
    have htime : IsOnTime interval path log o :=
      hruns.isOnTime isOrderly_begin (isOnTime_begin hpos)
    have hcount := (htime.stop finish found hstop).eq_div hpos hbetween
    refine ⟨?_, htime.marks⟩
    rw [htime.times, hcount]
  · intro mayPass files now state debounce listens path log o hruns
    exact (hruns.writes_eq_nil rfl).1
  · intro mayPass files now state p listens log o hdisabled hruns
    have hnone : p.heartbeat? = none := Parameters.heartbeat?_eq_none_iff.mpr hdisabled
    refine (hruns.writes_eq_nil ?_).1
    simp [start, ReloadLoop.start, hnone]

/-- A store in which the mark lies in the working directory. -/
def markedHome : FileStore := ⟨["home"], [(["home", "health"], .file healthMark)]⟩

theorem writeHealth_home : writeHealth (.empty ["home"]) "health" = .ok markedHome := by
  decide +kernel

/-- Two beats, the second of which fails and comes at the time of a load, before a stop; and no beat
where no parameter is given. -/
theorem beats_on_schedule_home :
    (∃ log o, Runs IsQuietUntil (begin (.empty ["home"]) 0 default 5 true 5 "health") log o ∧
      (7, Deed.stop .stop) ∈ log ∧ log.results.length = 1 ∧ log.writes.map (·.1) = [0, 5] ∧
      IsMarked markedHome "health") ∧
      ∀ log o, Runs IsQuietUntil
        (start (.empty ["home"]) 0 (.start default .standard true 0)) log o → log.writes = [] := by
  constructor
  · let heard := (begin (.empty ["home"]) 0 default 5 true 5 "health").wake (.event (.modified []))
    let marked := heard.endWrite (.ok markedHome)
    let loaded := (beginLoad { marked with now := 5 }).endLoad .aborted
    let missed := loaded.endWrite (.error .missing)
    have hheard : Runs IsQuietUntil _ [] heard :=
      Runs.begin.idle (.event (.modified []) ⟨rfl, rfl⟩ rfl)
    have hmarked := hheard.step (.beat 0 5 "health" (.ok markedHome) ⟨rfl, rfl⟩ rfl (Nat.zero_le 0)
      rfl fun after hafter => writeHealth_home.trans hafter)
    have hquiet : marked.IsQuietUntil 5 := by
      refine ⟨rfl, fun _ => ⟨?_, ?_⟩⟩
      · rintro due ⟨⟩
        exact Nat.le_refl 5
      · rintro due interval path ⟨⟩ -
        exact Nat.le_refl 5
    have hbegun := (hmarked.idle (.pass 5 (Nat.zero_le 5) hquiet)).step
      (.beginLoad 5 ⟨rfl, rfl⟩ rfl (Nat.le_refl 5))
    have hloaded : Runs IsQuietUntil _ _ loaded := hbegun.step (.endLoad .aborted rfl)
    have hmissed := hloaded.step
      (.beat 5 5 "health" (.error .missing) ⟨rfl, rfl⟩ rfl (Nat.le_refl 5) rfl (by simp))
    have hquiet' : missed.IsQuietUntil 7 := by
      refine ⟨rfl, fun _ => ⟨?_, ?_⟩⟩
      · intro due hdue
        contradiction
      · rintro due interval path ⟨⟩ -
        decide
    let log : Log := [(0, .write "health" (.ok markedHome)), (5, .beginLoad),
      (5, .endLoad .aborted), (5, .write "health" (.error .missing)), (7, .stop .stop)]
    have hstopped : Runs IsQuietUntil _ log (wake { missed with now := 7 } .stop) :=
      (hmissed.idle (.pass 7 (by decide) hquiet')).step (.stop .stop ⟨rfl, rfl⟩ (by decide))
    have hstop : (7, Deed.stop .stop) ∈ log := by simp [log]
    obtain ⟨htimes, hmarks⟩ := beats_on_schedule.1 _ _ _ _ 5 "health" log _ 7 .stop (by decide)
      hstopped hstop (by decide)
    have hfirst := hmarks (0, "health", .ok markedHome) List.mem_cons_self
    exact ⟨log, _, hstopped, hstop, rfl, htimes, hfirst.2 markedHome rfl⟩
  · intro log o hruns
    exact beats_on_schedule.2.2 _ _ _ _ .standard _ log o (.inl rfl) hruns

end Operation

/-- In a world, too, the beats that have been counted are those that have been due. -/
theorem World.beats_counted {files : FileStore} {p : Parameters} {watched : List Place}
    {state : Active} {listens : Bool} {past : List (Nat × Notice)} {w : World} {interval : Nat}
    {path : String} (hheartbeat : p.heartbeat? = some (interval, path))
    (hruns : World.Runs (.start files p watched state listens) past w)
    (hrunning : w.loop.isStopped = false) :
    IsInStep interval (w.loop.summary.heartbeats + w.loop.summary.failedHeartbeats) w.now := by
  obtain ⟨log, hlog⟩ := Operation.exists_runs_ofWorld hruns
  rw [Operation.ofWorld_start hheartbeat] at hlog
  have haccounts := hlog.isAccounted Operation.isOrderly_begin Operation.isAccounted_begin
  have htime := hlog.isOnTime Operation.isOrderly_begin
    (Operation.isOnTime_begin (Parameters.pos_of_heartbeat? hheartbeat))
  have hcount : w.loop.summary.heartbeats + w.loop.summary.failedHeartbeats =
      log.writes.length := by
    have hall := List.count_true_add_count_false log.written
    have hlength : log.written.length = log.writes.length := List.length_map _
    have hgood := haccounts.heartbeats
    have hbad := haccounts.failedHeartbeats
    simp only [Operation.ofWorld] at hgood hbad
    omega
  rw [hcount]
  exact (htime.next hrunning).2

end SidecarAdmission.Lifecycle
