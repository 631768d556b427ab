import Mathlib.Logic.Relation
import SidecarAdmission.Proofs.Lifecycle.Load

/-!
The loop while its files change. Changes, events, wake-ups and the single reads of a load may follow
each other in any order, as long as an event that calls for a reload comes after each change. A
change is then covered at every moment: an event is still to come or still queued, a deadline is
set, or the newest load was begun after the change. When nothing is left to be done, the last load
has read the files as they are.
-/

set_option autoImplicit false
set_option relaxedAutoImplicit false

namespace SidecarAdmission.Lifecycle

open SidecarAdmission.Storage

/-! ### The loop among changes -/

/-- A loop and what changes around it: the files, how many changes they have seen, whether an event
is still to come for the last of them, and the loads. -/
structure Reloading where
  files : FileStore
  changes : Nat
  isOwed : Bool
  queue : List FileEvent
  hasSender : Bool
  now : Nat
  loop : ReloadLoop
  load : Option Load
  attempts : List Attempt

namespace Reloading

/-- A loop that has just been started on a state. -/
def start (files : FileStore) (state : Active) (p : Parameters) (listens : Bool) (now : Nat) :
    Reloading where
  files := files
  changes := 0
  isOwed := false
  queue := []
  hasSender := true
  now := now
  loop := .start state p listens now
  load := none
  attempts := []

/-- Whether the loop waits for something to wake it up. -/
def Waits (m : Reloading) : Prop := m.load = none ∧ m.loop.isStopped = false

/-- A loop after a signal. -/
def wake (m : Reloading) (signal : Signal) : Reloading :=
  { m with loop := m.loop.step m.now signal }

/-- A loop that begins to load. -/
def beginLoad (m : Reloading) : Reloading :=
  { m with
    loop := { m.loop with deadline := none }
    load := some ⟨m.changes, [], none, .nothing⟩ }

/-- A loop whose load is over. -/
def endLoad (m : Reloading) (l : Load) (result : LoadResult) : Reloading :=
  { m.wake (.deadline result) with
    load := none
    attempts := m.attempts ++ [⟨l, m.loop.state, result⟩] }

/-- What may happen next. Files change, other files are written, events are sent and the sender goes
away while the loop waits or loads; the loop wakes up for anything that is ready, in no fixed order,
but not before a load is over. A read that a change has come into may have seen anything. The clock
may be set to any time, because nothing here rests on how long things take. -/
inductive Step (p : Parameters) (m : Reloading) : Reloading → Prop where
  | change (files : FileStore) :
    Step p m { m with files, changes := m.changes + 1, isOwed := true }
  | touch (files : FileStore) (same : SameInputs p m.files files) : Step p m { m with files }
  | send (e : FileEvent) :
    Step p m { m with queue := m.queue ++ [e], isOwed := m.isOwed && !e.callsForReload }
  | close : Step p m { m with hasSender := false }
  | pass (now : Nat) : Step p m { m with now }
  | deadline (due : Nat) (waits : m.Waits) (armed : m.loop.deadline = some due)
      (passed : due ≤ m.now) : Step p m m.beginLoad
  | event (e : FileEvent) (rest : List FileEvent) (waits : m.Waits)
      (listens : m.loop.listens = true) (queued : m.queue = e :: rest) :
    Step p m ({ m with queue := rest }.wake (.event e))
  | eventsEnd (waits : m.Waits) (listens : m.loop.listens = true) (empty : m.queue = [])
      (closed : m.hasSender = false) : Step p m (m.wake .eventsEnd)
  | beat (due : Nat) (written : Bool) (waits : m.Waits) (armed : m.loop.nextBeat = some due)
      (passed : due ≤ m.now) : Step p m (m.wake (.beat written))
  | stop (waits : m.Waits) : Step p m (m.wake .stop)
  | beginRead (l : Load) (loads : m.load = some l) (idle : l.reading = none)
      (more : l.progress.HasMore) :
    Step p m { m with load := some { l with reading := some m.changes } }
  | endRead (l : Load) (begun : Nat) (seen : FileStore) (loads : m.load = some l)
      (reads : l.reading = some begun) (asIs : begun = m.changes → SameInputs p m.files seen) :
    Step p m { m with load := some (l.endRead p begun seen) }
  | endLoad (l : Load) (answer : Except LoadError Active) (loads : m.load = some l)
      (idle : l.reading = none) (finished : l.progress = .finished answer) :
    Step p m (m.endLoad l (.ofExcept answer))
  | abort (l : Load) (loads : m.load = some l) : Step p m (m.endLoad l .aborted)

/-- Whether a change is still to be acted on: an event is to come or queued that calls for a reload,
a deadline is set, or a load that was begun after the last change is in flight. -/
def IsPending (m : Reloading) : Prop :=
  m.isOwed = true ∨ (∃ e ∈ m.queue, e.callsForReload = true) ∨ m.loop.deadline ≠ none ∨
    ∃ l, m.load = some l ∧ l.begun = m.changes

/-- What holds at every moment. The last line is the heart of it: a change is pending, or the last
attempt was begun after it. -/
structure IsSound (p : Parameters) (m : Reloading) : Prop where
  load : ∀ l, m.load = some l →
    l.IsSound p m.changes m.files ∧ m.loop.deadline = none ∧ m.loop.isStopped = false
  order : ∀ l a, m.load = some l → m.attempts.getLast? = some a → a.load.begun ≤ l.begun
  last : ∀ a, m.attempts.getLast? = some a →
    a.IsSound p m.changes m.files ∧ m.loop.state = a.result.state?.getD a.before
  covered : 0 < m.changes →
    m.IsPending ∨ ∃ a, m.attempts.getLast? = some a ∧ a.load.begun = m.changes

variable {p : Parameters} {m m' : Reloading}

theorem isSound_start (files : FileStore) (state : Active) (listens : Bool) (now : Nat) :
    (start files state p listens now).IsSound p where
  load := by simp [start]
  order := by simp [start]
  last := by simp [start]
  covered := by simp [start]

/-- What leaves the files, the loads and the state alone is sound if what was pending still is. -/
theorem IsSound.frame (h : m.IsSound p) (hfiles : m'.files = m.files)
    (hchanges : m'.changes = m.changes) (hload : m'.load = m.load)
    (hattempts : m'.attempts = m.attempts) (hstate : m'.loop.state = m.loop.state)
    (hloop : m.load = none ∨ m'.loop = m.loop) (hpending : m.IsPending → m'.IsPending) :
    m'.IsSound p where
  load := by
    intro l hl
    rw [hload] at hl
    rw [hfiles, hchanges]
    rcases hloop with hnone | hsame
    · rw [hnone] at hl
      contradiction
    · rw [hsame]
      exact h.load l hl
  order := by
    rw [hload, hattempts]
    exact h.order
  last := by
    rw [hattempts, hfiles, hchanges, hstate]
    exact h.last
  covered := by
    rw [hchanges, hattempts]
    intro hchanged
    exact (h.covered hchanged).imp_left hpending

theorem IsSound.change (h : m.IsSound p) (files : FileStore) :
    IsSound p { m with files, changes := m.changes + 1, isOwed := true } where
  load := by
    intro l hl
    obtain ⟨hload, hloop⟩ := h.load l hl
    exact ⟨hload.change files, hloop⟩
  order := h.order
  last := by
    intro a ha
    obtain ⟨⟨hload, hresult⟩, hstate⟩ := h.last a ha
    exact ⟨⟨hload.change files, hresult⟩, hstate⟩
  covered := fun _ => .inl (.inl rfl)

theorem IsSound.touch (h : m.IsSound p) {files : FileStore} (hsame : SameInputs p m.files files) :
    IsSound p { m with files } where
  load := by
    intro l hl
    obtain ⟨hload, hloop⟩ := h.load l hl
    exact ⟨hload.touch hsame, hloop⟩
  order := h.order
  last := by
    intro a ha
    obtain ⟨⟨hload, hresult⟩, hstate⟩ := h.last a ha
    exact ⟨⟨hload.touch hsame, hresult⟩, hstate⟩
  covered := h.covered

/-- An event that calls for a reload takes the place of the one that was to come. -/
theorem IsSound.send (h : m.IsSound p) (e : FileEvent) :
    IsSound p { m with queue := m.queue ++ [e], isOwed := m.isOwed && !e.callsForReload } := by
  refine h.frame rfl rfl rfl rfl rfl (.inr rfl) ?_
  rintro (howed | ⟨queued, hqueued, hcalls⟩ | hrest)
  · cases hcalls : e.callsForReload with
    | true => exact .inr (.inl ⟨e, by simp, hcalls⟩)
    | false => exact .inl (by simp [howed])
  · exact .inr (.inl ⟨queued, List.mem_append_left _ hqueued, hcalls⟩)
  · exact .inr (.inr hrest)

theorem IsSound.wake (h : m.IsSound p) (hwaits : m.Waits) {signal : Signal}
    (hsignal : signal.result? = none)
    (hdeadline : (m.loop.step m.now signal).deadline = m.loop.deadline) :
    (m.wake signal).IsSound p := by
  have hstate : (m.loop.step m.now signal).state = m.loop.state := by
    rw [ReloadLoop.state_step, ReloadLoop.result?_of_running hwaits.2, hsignal]
    rfl
  refine h.frame rfl rfl rfl rfl hstate (.inl hwaits.1) ?_
  rintro (howed | hqueued | harmed | hflight)
  · exact .inl howed
  · exact .inr (.inl hqueued)
  · exact .inr (.inr (.inl (by rwa [Reloading.wake, hdeadline])))
  · exact .inr (.inr (.inr hflight))

/-- An event that calls for a reload sets a deadline when it leaves the queue. -/
theorem IsSound.event (h : m.IsSound p) (hwaits : m.Waits) {e : FileEvent} {rest : List FileEvent}
    (hqueue : m.queue = e :: rest) : ({ m with queue := rest }.wake (.event e)).IsSound p := by
  have hstate : (m.loop.step m.now (.event e)).state = m.loop.state := by
    rw [ReloadLoop.state_step, ReloadLoop.result?_of_running hwaits.2]
    rfl
  have hdeadline : (m.loop.step m.now (.event e)).deadline =
      if e.callsForReload then some (m.now + m.loop.debounce) else m.loop.deadline :=
    ReloadLoop.deadline_step hwaits.2 m.now (.event e)
  refine h.frame rfl rfl rfl rfl hstate (.inl hwaits.1) ?_
  rintro (howed | ⟨queued, hqueued, hcalls⟩ | harmed | hflight)
  · exact .inl howed
  · rw [hqueue] at hqueued
    rcases List.mem_cons.mp hqueued with rfl | hrest
    · refine .inr (.inr (.inl ?_))
      rw [Reloading.wake, hdeadline, if_pos hcalls]
      exact Option.some_ne_none _
    · exact .inr (.inl ⟨queued, hrest, hcalls⟩)
  · refine .inr (.inr (.inl ?_))
    rw [Reloading.wake, hdeadline]
    split
    · exact Option.some_ne_none _
    · exact harmed
  · exact .inr (.inr (.inr hflight))

theorem IsSound.beginLoad (h : m.IsSound p) (hwaits : m.Waits) : m.beginLoad.IsSound p where
  load := by
    rintro l ⟨⟩
    exact ⟨.start p m.changes m.files, rfl, hwaits.2⟩
  order := by
    rintro l a ⟨⟩ ha
    exact (h.last a ha).1.load.begun_le
  last := h.last
  covered := by
    intro _
    exact .inl (.inr (.inr (.inr ⟨_, rfl, rfl⟩)))

/-- What a load does leaves the loop alone; the load was begun when it was begun. -/
theorem IsSound.read (h : m.IsSound p) {l l' : Load} (hload : m.load = some l)
    (hbegun : l'.begun = l.begun) (hsound : l'.IsSound p m.changes m.files) :
    IsSound p { m with load := some l' } where
  load := by
    rintro _ ⟨⟩
    exact ⟨hsound, (h.load l hload).2⟩
  order := by
    rintro _ a ⟨⟩ ha
    rw [hbegun]
    exact h.order l a hload ha
  last := h.last
  covered := by
    intro hchanged
    refine (h.covered hchanged).imp_left ?_
    rintro (howed | hqueued | harmed | ⟨flying, hflying, hlast⟩)
    · exact .inl howed
    · exact .inr (.inl hqueued)
    · exact .inr (.inr (.inl harmed))
    · obtain rfl : l = flying := Option.some.inj (hload.symm.trans hflying)
      exact .inr (.inr (.inr ⟨l', rfl, hbegun.trans hlast⟩))

/-- A load that is over is the last attempt. If there was a change after it was begun, that change
is pending: the loop has not woken up since, and earlier attempts were begun earlier still. -/
theorem IsSound.endLoad (h : m.IsSound p) {l : Load} (hload : m.load = some l) {result : LoadResult}
    (hresult : result = .aborted ∨
      ∃ answer, l.progress = .finished answer ∧ result = .ofExcept answer) :
    (m.endLoad l result).IsSound p where
  load := by
    intro l' hl
    contradiction
  order := by
    intro l' a hl
    contradiction
  last := by
    intro a ha
    obtain ⟨hsound, -, hrunning⟩ := h.load l hload
    have hlast : (⟨l, m.loop.state, result⟩ : Attempt) = a := by
      simpa [Reloading.endLoad] using ha
    subst hlast
    refine ⟨⟨hsound, hresult⟩, ?_⟩
    show (m.loop.step m.now (.deadline result)).state = result.state?.getD m.loop.state
    rw [ReloadLoop.state_step, ReloadLoop.result?_of_running hrunning]
    rfl
  covered := by
    intro hchanged
    obtain ⟨hsound, hdeadline, -⟩ := h.load l hload
    have hlast : (m.endLoad l result).attempts.getLast? = some ⟨l, m.loop.state, result⟩ := by
      simp [Reloading.endLoad]
    rcases h.covered hchanged with hpending | ⟨a, ha, hbegun⟩
    · rcases hpending with howed | hqueued | harmed | ⟨flying, hflying, hbegun⟩
      · exact .inl (.inl howed)
      · exact .inl (.inr (.inl hqueued))
      · contradiction
      · obtain rfl : l = flying := Option.some.inj (hload.symm.trans hflying)
        exact .inr ⟨_, hlast, hbegun⟩
    · have horder := h.order l a hload ha
      have hle := hsound.begun_le
      have hnow : l.begun = m.changes := by omega
      exact .inr ⟨_, hlast, hnow⟩

/-- One step keeps everything sound. -/
theorem IsSound.step (h : m.IsSound p) (hstep : Step p m m') : m'.IsSound p := by
  cases hstep with
  | change files => exact h.change files
  | touch files same => exact h.touch same
  | send e => exact h.send e
  | close => exact h.frame rfl rfl rfl rfl rfl (.inr rfl) id
  | pass now => exact h.frame rfl rfl rfl rfl rfl (.inr rfl) id
  | deadline due waits armed passed => exact h.beginLoad waits
  | event e rest waits listens queued => exact h.event waits queued
  | eventsEnd waits listens empty closed =>
    exact h.wake waits rfl (ReloadLoop.deadline_step waits.2 m.now .eventsEnd)
  | beat due written waits armed passed =>
    exact h.wake waits rfl (ReloadLoop.deadline_step waits.2 m.now (.beat written))
  | stop waits => exact h.wake waits rfl (ReloadLoop.deadline_step waits.2 m.now .stop)
  | beginRead l loads idle more =>
    exact h.read loads rfl ((h.load l loads).1.beginRead more)
  | endRead l begun seen loads reads asIs =>
    exact h.read loads rfl ((h.load l loads).1.endRead reads asIs)
  | endLoad l answer loads idle finished => exact h.endLoad loads (.inr ⟨answer, finished, rfl⟩)
  | abort l loads => exact h.endLoad loads (.inl rfl)

theorem IsSound.steps (h : m.IsSound p) (hsteps : Relation.ReflTransGen (Step p) m m') :
    m'.IsSound p := by
  induction hsteps with
  | refl => exact h
  | tail _ hstep ih => exact ih.step hstep

/-! ### Loads that nothing comes into -/

/-- A load goes on to its end while the files stay as they are, and answers what they give. -/
theorem steps_read {l : Load} {n : Nat} (hload : m.load = some l) (hidle : l.reading = none)
    (hprogress : l.progress = (Progress.read p m.files)^[n] .nothing) (hn : n ≤ 3) :
    ∃ l', Relation.ReflTransGen (Step p) m { m with load := some l' } ∧ l'.reading = none ∧
      l'.progress = .finished (Active.ofFiles m.files p) := by
  obtain ⟨l', hreads, hidle', -, hfinished⟩ :=
    Load.exists_finished hidle hprogress hn
  have hsame : { m with load := some l } = m := by rw [← hload]
  refine ⟨l', ?_, hidle', hfinished⟩
  rw [← hsame]
  refine hreads.lift' (fun l => { m with load := some l }) ?_
  rintro a _ ⟨idle, more⟩
  let reading : Load := { a with reading := some m.changes }
  have hbegin : Step p { m with load := some a } { m with load := some reading } :=
    .beginRead a rfl idle more
  have hend : Step p { m with load := some reading }
      { m with load := some (a.endRead p m.changes m.files) } :=
    .endRead reading m.changes m.files rfl rfl fun _ => .refl
  exact (Relation.ReflTransGen.single hbegin).tail hend

/-- A loop whose deadline has passed may load the files as they are. -/
theorem steps_deadline {due : Nat} (hwaits : m.Waits) (harmed : m.loop.deadline = some due)
    (hpassed : due ≤ m.now) :
    ∃ l, Relation.ReflTransGen (Step p) m
      (m.beginLoad.endLoad l (.ofExcept (Active.ofFiles m.files p))) := by
  have hbegin : Step p m m.beginLoad := .deadline due hwaits harmed hpassed
  obtain ⟨l, hsteps, hidle, hfinished⟩ :=
    steps_read (p := p) (m := m.beginLoad) (n := 0) rfl rfl rfl (by omega)
  have hend : Step p { m.beginLoad with load := some l }
      (m.beginLoad.endLoad l (.ofExcept (Active.ofFiles m.files p))) :=
    .endLoad l _ rfl hidle hfinished
  exact ⟨l, (Relation.ReflTransGen.head hbegin hsteps).tail hend⟩

/-! ### No change is lost -/

/-- No change is lost. Whenever the files have changed and nothing is left to be done, no event that
calls for a reload, no deadline and no load, the last attempt to load was begun after the last
change, and so were all its reads. If it gave a state, it has read all three files, and its state is
the one that the files give and is in force; otherwise the state before it is in force. -/
theorem last_attempt_is_current {files : FileStore} {state : Active} {listens : Bool} {begin : Nat}
    (hsteps : Relation.ReflTransGen (Step p) (start files state p listens begin) m)
    (hchanged : 0 < m.changes) (howed : m.isOwed = false)
    (hqueue : ∀ e ∈ m.queue, e.callsForReload = false) (hdeadline : m.loop.deadline = none)
    (hload : m.load = none) :
    ∃ a, m.attempts.getLast? = some a ∧ a.load.begun = m.changes ∧
      (∀ n ∈ a.load.stamps, n = m.changes) ∧
      (∀ next, a.result = .loaded next →
        a.load.stamps.length = 3 ∧ Active.ofFiles m.files p = .ok next ∧ m.loop.state = next) ∧
      (∀ e, a.result = .failed e →
        0 < a.load.stamps.length ∧ Active.ofFiles m.files p = .error e ∧
          m.loop.state = a.before) ∧
      (a.result = .aborted → m.loop.state = a.before) := by
  have hsound : m.IsSound p := (isSound_start files state listens begin).steps hsteps
  have hidle : ¬ m.IsPending := by
    rintro (hpending | ⟨e, he, hcalls⟩ | hpending | ⟨l, hl, -⟩)
    · rw [howed] at hpending
      contradiction
    · rw [hqueue e he] at hcalls
      contradiction
    · exact hpending hdeadline
    · rw [hload] at hl
      contradiction
  obtain ⟨a, ha, hbegun⟩ := (hsound.covered hchanged).resolve_left hidle
  obtain ⟨hattempt, hstate⟩ := hsound.last a ha
  have hanswer := hattempt.result_eq hbegun
  refine ⟨a, ha, hbegun, ?_, ?_, ?_, ?_⟩
  · intro n hn
    obtain ⟨hle, hge⟩ := hattempt.load.stamps n hn
    omega
  · intro next hnext
    have hfound := hanswer.resolve_left (by simp [hnext])
    refine ⟨hattempt.length_stamps_of_loaded hnext, ?_, ?_⟩
    · exact LoadResult.ofExcept_eq_loaded.mp (hfound.symm.trans hnext)
    · rw [hstate, hnext]
      rfl
  · intro e he
    have hfound := hanswer.resolve_left (by simp [he])
    refine ⟨hattempt.length_stamps_of_failed he, ?_, ?_⟩
    · exact LoadResult.ofExcept_eq_failed.mp (hfound.symm.trans he)
    · rw [hstate, he]
      rfl
  · intro habort
    rw [hstate, habort]
    rfl

/-- Parameters with files in the working directory. -/
def nearby : Parameters :=
  { Parameters.standard with certificateFile := "cert", keyFile := "key", configFile := "config" }

/-- An armoured block. -/
def armoured (name content : Text.Octets) : Text.Octets :=
  Tls.Pem.opening ++ name ++ Tls.Pem.dashes ++ [0x0a] ++ Text.Base64.encode content ++ [0x0a]
    ++ Tls.Pem.closing ++ name ++ Tls.Pem.dashes

/-- A key on the curve P-256, which it names. -/
def usableKey : Text.Octets :=
  [0x30, 0x31, 0x02, 0x01, 0x01, 0x04, 0x20] ++ List.replicate 32 1
    ++ [0xa0, 0x0a, 0x06, 0x08] ++ Tls.Key.Curve.p256.identifier

/-- An empty configuration, a certificate and a key. -/
def usableFiles : FileStore :=
  ⟨["home"],
    [(["home", "config"], .file []),
      (["home", "cert"], .file (armoured (Text.octets "CERTIFICATE") [])),
      (["home", "key"], .file (armoured (Text.octets "EC PRIVATE KEY") usableKey))]⟩

theorem exists_active_usableFiles : ∃ next, Active.ofFiles usableFiles nearby = .ok next := by
  have hok : (Active.ofFiles usableFiles nearby).toOption.isSome = true := by decide +kernel
  cases hfiles : Active.ofFiles usableFiles nearby with
  | ok next => exact ⟨next, rfl⟩
  | error e =>
    rw [hfiles] at hok
    contradiction

/-- Usable files are put in place, the watcher tells of it, and the deadline passes. -/
def changedAndTold : Reloading :=
  { ({ start usableFiles default nearby true 0 with changes := 1 } : Reloading).wake
      (.event (.modified ["home/config"])) with
    now := 200 }

theorem steps_changedAndTold :
    Relation.ReflTransGen (Step nearby) (start (.empty ["home"]) default nearby true 0)
      changedAndTold :=
  Relation.ReflTransGen.refl
    |>.tail (.change usableFiles)
    |>.tail (.send (.modified ["home/config"]))
    |>.tail (.event (.modified ["home/config"]) [] ⟨rfl, rfl⟩ rfl rfl)
    |>.tail (.pass 200)

/-- The files that were put in place are loaded, with three reads after the change. -/
theorem last_attempt_is_current_usableFiles :
    ∃ m a next,
      Relation.ReflTransGen (Step nearby) (start (.empty ["home"]) default nearby true 0) m ∧
      m.changes = 1 ∧ m.attempts.getLast? = some a ∧ a.load.stamps = [1, 1, 1] ∧
      Active.ofFiles usableFiles nearby = .ok next ∧ m.loop.state = next := by
  obtain ⟨next, hnext⟩ := exists_active_usableFiles
  obtain ⟨l, hload⟩ :=
    steps_deadline (p := nearby) (m := changedAndTold) ⟨rfl, rfl⟩ rfl (Nat.le_refl 200)
  let m := changedAndTold.beginLoad.endLoad l (.ofExcept (Active.ofFiles usableFiles nearby))
  have hsteps : Relation.ReflTransGen (Step nearby)
      (start (.empty ["home"]) default nearby true 0) m := steps_changedAndTold.trans hload
  have hdeadline : m.loop.deadline = none := ReloadLoop.deadline_step rfl 200 _
  have hqueue : ∀ e ∈ m.queue, e.callsForReload = false := by
    intro e he
    contradiction
  obtain ⟨a, hlast, -, hstamps, hloaded, -, -⟩ :=
    last_attempt_is_current hsteps Nat.one_pos rfl hqueue hdeadline rfl
  have hresult : a.result = .loaded next := by
    have hattempt : some (⟨l, default, .ofExcept (Active.ofFiles usableFiles nearby)⟩ : Attempt) =
        some a := hlast
    rw [← Option.some.inj hattempt, hnext]
    rfl
  obtain ⟨hthree, hfiles, hstate⟩ := hloaded next hresult
  have hones : a.load.stamps = [1, 1, 1] := by
    rw [List.eq_replicate_of_mem hstamps, hthree]
    rfl
  exact ⟨m, a, next, hsteps, rfl, hlast, hones, hfiles, hstate⟩

end Reloading

end SidecarAdmission.Lifecycle
