import SidecarAdmission.Lifecycle.Launch
import SidecarAdmission.Proofs.Lifecycle.Reloading
import SidecarAdmission.Proofs.Lifecycle.Watch

/-!
The start of a webhook while its files change. The first load, the listener, the directories that
are watched one by one and the loop come one after the other, and changes may come in between. A
change shows only if the directory of its file is watched by then. As soon as one change shows, a
load follows that has begun after all changes; a change before the watch alone goes unnoticed.
-/

set_option autoImplicit false
set_option relaxedAutoImplicit false

namespace SidecarAdmission.Lifecycle

open SidecarAdmission.Network SidecarAdmission.Storage

/-! ### Watched directories -/

/-- Whether a change of a file shows: its directory is watched. -/
def isWatched (watched : List String) (path : String) : Bool :=
  watched.any fun d => Path.components d = Path.components (Path.directory path)

theorem isWatched_directories {paths : List String} {path : String} (h : path ∈ paths) :
    isWatched (Path.directories paths) path = true := by
  obtain ⟨d, hd, hsame⟩ := Path.exists_mem_directories h
  exact List.any_eq_true.mpr ⟨d, hd, decide_eq_true hsame⟩

/-! ### What is started -/

theorem listenFailure?_address_eq_none_iff {p : Parameters} {privilege : Privilege} :
    p.address.listenFailure? privilege = none ↔ privilege.covers p.port = true := by
  show (if !privilege.covers p.port then some ListenFailure.notPermitted else none) = none ↔ _
  cases privilege.covers p.port <;> simp

/-- A webhook is started exactly if its files give a state, its privilege covers its port and the
directories of its inputs are there; it serves that state and watches these directories. -/
theorem launch_eq_ok_iff {files : FileStore} {p : Parameters} {privilege : Privilege}
    {launched : Launch} :
    launch files p privilege = .ok launched ↔
      ∃ state, Active.ofFiles files p = .ok state ∧ privilege.covers p.port = true ∧
        (∀ d ∈ Path.directories p.inputFiles, files.exists? d = true) ∧
        launched = ⟨privilege, Path.directories p.inputFiles,
          .start files p ((Path.directories p.inputFiles).map files.placeOf) state true⟩ := by
  rw [← listenFailure?_address_eq_none_iff]
  unfold launch
  constructor
  · intro h
    cases hstate : Active.ofFiles files p with
    | error e => simp [hstate] at h
    | ok state =>
      cases hlisten : p.address.listenFailure? privilege with
      | some e => simp [hstate, hlisten] at h
      | none =>
        cases hwatched : watchedDirectories? files p.inputFiles with
        | none => simp [hstate, hlisten, hwatched] at h
        | some directories =>
          simp only [hstate, hlisten, hwatched, Except.ok.injEq] at h
          obtain ⟨rfl, hthere⟩ := watchedDirectories?_eq_some_iff.mp hwatched
          exact ⟨state, rfl, rfl, hthere, h.symm⟩
  · rintro ⟨state, hstate, hlisten, hthere, rfl⟩
    have hwatched := watchedDirectories?_eq_some_iff.mpr ⟨rfl, hthere⟩
    simp only [hstate, hlisten, hwatched]

/-! ### The start among changes -/

/-- How far a webhook has been started: its first load is in flight; the load has given a state; or
it listens and begins to watch. -/
inductive Stage where
  | loading (load : Load)
  | loaded (load : Load) (state : Active)
  | listening (load : Load) (state : Active)

/-- The first load. -/
def Stage.load : Stage → Load
  | .loading load | .loaded load _ | .listening load _ => load

/-- The state that the first load has given, if it is over. -/
def Stage.state? : Stage → Option Active
  | .loading _ => none
  | .loaded _ state | .listening _ state => some state

/-- A webhook that is being started: the files, how many changes they have seen, how many they had
seen when the last was made that shows, whether an event is still to come for it, the events so far
and the directories that are watched by now. -/
structure Startup where
  files : FileStore
  changes : Nat
  lastShown : Nat
  isOwed : Bool
  queue : List FileEvent
  watched : List String
  stage : Stage

namespace Startup

/-- A webhook that begins to load its first state. -/
def begin (files : FileStore) : Startup where
  files := files
  changes := 0
  lastShown := 0
  isOwed := false
  queue := []
  watched := []
  stage := .loading ⟨0, [], none, .nothing⟩

/-- A change of a file. -/
def change (s : Startup) (path : String) (files : FileStore) : Startup :=
  { s with
    files
    changes := s.changes + 1
    lastShown := if isWatched s.watched path then s.changes + 1 else s.lastShown
    isOwed := s.isOwed || isWatched s.watched path }

/-- The loop that a webhook runs once it is started; its first load counts as an attempt. -/
def spawn (s : Startup) (p : Parameters) (load : Load) (state : Active) (now : Nat) :
    Reloading where
  files := s.files
  changes := s.changes
  isOwed := s.isOwed
  queue := s.queue
  hasSender := true
  now := now
  loop := .start state p true now
  load := none
  attempts := [⟨load, state, .loaded state⟩]

/-- What may happen next while a webhook is being started. Files change, other files are written,
and events come as soon as something is watched. It listens only when it has a state, and it watches
only when it listens, one directory after the other. -/
inductive Step (privilege : Privilege) (p : Parameters) (s : Startup) : Startup → Prop where
  | change (path : String) (input : path ∈ p.inputFiles) (files : FileStore) :
    Step privilege p s (s.change path files)
  | touch (files : FileStore) (same : SameInputs p s.files files) :
    Step privilege p s { s with files }
  | send (e : FileEvent) (watches : s.watched ≠ []) :
    Step privilege p s { s with queue := s.queue ++ [e], isOwed := s.isOwed && !e.callsForReload }
  | beginRead (l : Load) (loads : s.stage = .loading l) (idle : l.reading = none)
      (more : l.progress.HasMore) :
    Step privilege p s { s with stage := .loading { l with reading := some s.changes } }
  | endRead (l : Load) (begun : Nat) (seen : FileStore) (loads : s.stage = .loading l)
      (reads : l.reading = some begun) (asIs : begun = s.changes → SameInputs p s.files seen) :
    Step privilege p s { s with stage := .loading (l.endRead p begun seen) }
  | loaded (l : Load) (state : Active) (loads : s.stage = .loading l) (idle : l.reading = none)
      (finished : l.progress = .finished (.ok state)) :
    Step privilege p s { s with stage := .loaded l state }
  | listen (l : Load) (state : Active) (loaded : s.stage = .loaded l state)
      (free : p.address.listenFailure? privilege = none) :
    Step privilege p s { s with stage := .listening l state }
  | watch (l : Load) (state : Active) (d : String) (rest : List String)
      (listens : s.stage = .listening l state)
      (next : Path.directories p.inputFiles = s.watched ++ d :: rest)
      (isThere : s.files.exists? d = true) :
    Step privilege p s { s with watched := s.watched ++ [d] }

/-- What holds while a webhook is being started. -/
structure IsSound (p : Parameters) (s : Startup) : Prop where
  load : s.stage.load.IsSound p s.changes s.files
  state : ∀ state, s.stage.state? = some state →
    s.stage.load.progress = .finished (.ok state)
  shown : 0 < s.lastShown → s.isOwed = true ∨ ∃ e ∈ s.queue, e.callsForReload = true

variable {privilege : Privilege} {p : Parameters} {s s' : Startup}

theorem isSound_begin (p : Parameters) (files : FileStore) : (begin files).IsSound p where
  load := .start p 0 files
  state := by
    intro state h
    contradiction
  shown := by
    intro h
    contradiction

/-- One step keeps everything sound. -/
theorem IsSound.step (h : s.IsSound p) (hstep : Step privilege p s s') : s'.IsSound p := by
  cases hstep with
  | change path input files =>
    refine ⟨h.load.change files, h.state, ?_⟩
    show 0 < (if isWatched s.watched path then s.changes + 1 else s.lastShown) →
      (s.isOwed || isWatched s.watched path) = true ∨ _
    cases hwatched : isWatched s.watched path with
    | true => exact fun _ => .inl (Bool.or_true _)
    | false =>
      intro hshown
      exact (h.shown hshown).imp_left fun howed => by rw [howed, Bool.true_or]
  | touch files same => exact ⟨h.load.touch same, h.state, h.shown⟩
  | send e watches =>
    refine ⟨h.load, h.state, fun hshown => ?_⟩
    rcases h.shown hshown with howed | ⟨queued, hqueued, hcalls⟩
    · cases hcalls : e.callsForReload with
      | true => exact .inr ⟨e, List.mem_append_right _ (List.mem_singleton.mpr rfl), hcalls⟩
      | false => exact .inl (by simp [howed])
    · exact .inr ⟨queued, List.mem_append_left _ hqueued, hcalls⟩
  | beginRead l loads idle more =>
    have hload := h.load
    rw [loads] at hload
    refine ⟨hload.beginRead more, ?_, h.shown⟩
    rintro _ ⟨⟩
  | endRead l begun seen loads reads asIs =>
    have hload := h.load
    rw [loads] at hload
    refine ⟨hload.endRead reads asIs, ?_, h.shown⟩
    rintro _ ⟨⟩
  | loaded l state loads idle finished =>
    have hload := h.load
    rw [loads] at hload
    refine ⟨hload, ?_, h.shown⟩
    rintro _ ⟨⟩
    exact finished
  | listen l state loaded free =>
    obtain ⟨hload, hstate, hshown⟩ := h
    rw [loaded] at hload hstate
    exact ⟨hload, hstate, hshown⟩
  | watch l state d rest listens next isThere => exact ⟨h.load, h.state, h.shown⟩

end Startup

/-! ### From the first load on -/

namespace Reloading

variable {p : Parameters} {m m' : Reloading}

/-- Changes are never taken back. -/
theorem changes_le_of_step (h : Step p m m') : m.changes ≤ m'.changes := by
  cases h with
  | change files => exact Nat.le_succ m.changes
  | touch | send | close | pass | deadline | event | eventsEnd | beat | stop | beginRead | endRead
  | endLoad | abort => exact Nat.le_refl m.changes

theorem changes_le_of_steps (h : Relation.ReflTransGen (Step p) m m') : m.changes ≤ m'.changes := by
  induction h with
  | refl => exact Nat.le_refl m.changes
  | tail _ hstep ih => exact Nat.le_trans ih (changes_le_of_step hstep)

theorem exists_attempts_of_step (h : Step p m m') : ∃ more, m'.attempts = m.attempts ++ more := by
  cases h with
  | endLoad l answer => exact ⟨[⟨l, m.loop.state, .ofExcept answer⟩], rfl⟩
  | abort l => exact ⟨[⟨l, m.loop.state, .aborted⟩], rfl⟩
  | change | touch | send | close | pass | deadline | event | eventsEnd | beat | stop | beginRead
  | endRead => exact ⟨[], (List.append_nil _).symm⟩

/-- It makes no difference to what may happen whether an event is still to come; only a change and
an event change that. -/
theorem exists_step_owed (h : Step p m m') (hsame : m'.changes = m.changes) (isOwed : Bool) :
    ∃ isOwed', Step p { m with isOwed } { m' with isOwed := isOwed' } ∧
      (isOwed = m.isOwed → isOwed' = m'.isOwed) := by
  cases h with
  | change files => exact absurd hsame (Nat.succ_ne_self m.changes)
  | touch files same => exact ⟨isOwed, .touch files same, id⟩
  | send e =>
    refine ⟨isOwed && !e.callsForReload, .send e, ?_⟩
    rintro rfl
    rfl
  | close => exact ⟨isOwed, .close, id⟩
  | pass now => exact ⟨isOwed, .pass now, id⟩
  | deadline due waits armed passed => exact ⟨isOwed, .deadline due waits armed passed, id⟩
  | event e rest waits listens queued => exact ⟨isOwed, .event e rest waits listens queued, id⟩
  | eventsEnd waits listens empty closed => exact ⟨isOwed, .eventsEnd waits listens empty closed, id⟩
  | beat due written waits armed passed => exact ⟨isOwed, .beat due written waits armed passed, id⟩
  | stop waits => exact ⟨isOwed, .stop waits, id⟩
  | beginRead l loads idle more => exact ⟨isOwed, .beginRead l loads idle more, id⟩
  | endRead l begun seen loads reads asIs =>
    exact ⟨isOwed, .endRead l begun seen loads reads asIs, id⟩
  | endLoad l answer loads idle finished =>
    exact ⟨isOwed, .endLoad l answer loads idle finished, id⟩
  | abort l loads => exact ⟨isOwed, .abort l loads, id⟩

/-- When nothing is pending after a change, the last attempt was begun after it. -/
theorem IsSound.exists_last (h : m.IsSound p) (hchanged : 0 < m.changes) (howed : m.isOwed = false)
    (hqueue : ∀ e ∈ m.queue, e.callsForReload = false) (hdeadline : m.loop.deadline = none)
    (hload : m.load = none) : ∃ a, m.attempts.getLast? = some a ∧ a.load.begun = m.changes := by
  refine (h.covered hchanged).resolve_left ?_
  rintro (hpending | ⟨e, he, hcalls⟩ | hpending | ⟨l, hl, -⟩)
  · rw [howed] at hpending
    contradiction
  · rw [hqueue e he] at hcalls
    contradiction
  · exact hpending hdeadline
  · rw [hload] at hl
    contradiction

/-- An attempt that was begun after the last change has begun its reads after it, and answers what
the files give. -/
theorem IsSound.last_attempt (h : m.IsSound p) {a : Attempt} (ha : m.attempts.getLast? = some a)
    (hbegun : a.load.begun = m.changes) :
    (∀ n ∈ a.load.stamps, n = m.changes) ∧
      (a.result = .aborted ∨ a.result = .ofExcept (Active.ofFiles m.files p)) ∧
      m.loop.state = a.result.state?.getD a.before := by
  obtain ⟨hattempt, hstate⟩ := h.last a ha
  refine ⟨fun n hn => ?_, hattempt.result_eq hbegun, hstate⟩
  obtain ⟨hle, hge⟩ := hattempt.load.stamps n hn
  omega

end Reloading

/-- A webhook that is being started, or the loop of one that runs, with the directories that are
watched and how many changes the files had seen when the last was made that shows. -/
inductive Webhook where
  | starting (s : Startup)
  | running (watched : List String) (lastShown : Nat) (m : Reloading)

namespace Webhook

/-- What may happen next to a webhook. Its loop is run once all directories are watched; changes of
the files show as before, and all else is as for any loop. -/
inductive Step (privilege : Privilege) (p : Parameters) : Webhook → Webhook → Prop where
  | start {s s' : Startup} (h : Startup.Step privilege p s s') :
    Step privilege p (.starting s) (.starting s')
  | spawn (s : Startup) (l : Load) (state : Active) (now : Nat)
      (listens : s.stage = .listening l state) (all : s.watched = Path.directories p.inputFiles) :
    Step privilege p (.starting s) (.running s.watched s.lastShown (s.spawn p l state now))
  | change (watched : List String) (lastShown : Nat) (m : Reloading) (path : String)
      (input : path ∈ p.inputFiles) (files : FileStore) :
    Step privilege p (.running watched lastShown m)
      (.running watched (if isWatched watched path then m.changes + 1 else lastShown)
        { m with
          files
          changes := m.changes + 1
          isOwed := m.isOwed || isWatched watched path })
  | run (watched : List String) (lastShown : Nat) {m m' : Reloading} (h : Reloading.Step p m m')
      (unchanged : m'.changes = m.changes) :
    Step privilege p (.running watched lastShown m) (.running watched lastShown m')

/-- What holds of a webhook. Once its loop runs, all directories are watched. If a change has shown
the loop is sound; otherwise it is as if an event might be to come. -/
def IsSound (p : Parameters) : Webhook → Prop
  | .starting s => s.IsSound p
  | .running watched lastShown m =>
    watched = Path.directories p.inputFiles ∧ m.attempts ≠ [] ∧
      ∃ isOwed, Reloading.IsSound p { m with isOwed } ∧ (0 < lastShown → isOwed = m.isOwed)

variable {privilege : Privilege} {p : Parameters} {w w' : Webhook}

/-- The first load counts as an attempt, and what has shown before is pending. -/
theorem isSound_spawn {s : Startup} (h : s.IsSound p) {l : Load} {state : Active} (now : Nat)
    (hlistens : s.stage = .listening l state) {isOwed : Bool}
    (howed : isOwed = true ∨ ∃ e ∈ s.queue, e.callsForReload = true) :
    Reloading.IsSound p { s.spawn p l state now with isOwed } where
  load := by
    intro l hl
    contradiction
  order := by
    intro l a hl
    contradiction
  last := by
    obtain ⟨hload, hstate, -⟩ := h
    rw [hlistens] at hload hstate
    rintro a ⟨⟩
    exact ⟨⟨hload, .inr ⟨.ok state, hstate state rfl, rfl⟩⟩, rfl⟩
  covered := fun _ => .inl (howed.imp_right .inl)

/-- One step keeps everything sound. -/
theorem IsSound.step (h : w.IsSound p) (hstep : Step privilege p w w') : w'.IsSound p := by
  cases hstep with
  | start hstep => exact Startup.IsSound.step h hstep
  | spawn s l state now listens all =>
    refine ⟨all, List.cons_ne_nil _ _, ?_⟩
    have hsound : s.IsSound p := h
    rcases Nat.eq_zero_or_pos s.lastShown with hnone | hshown
    · exact ⟨true, isSound_spawn hsound now listens (.inl rfl), fun hpos => by omega⟩
    · exact ⟨s.isOwed, isSound_spawn hsound now listens (hsound.shown hshown), fun _ => rfl⟩
  | change watched lastShown m path input files =>
    obtain ⟨rfl, hattempts, isOwed, hsound, -⟩ := h
    refine ⟨rfl, hattempts, true, hsound.change files, fun _ => ?_⟩
    rw [isWatched_directories input, Bool.or_true]
  | run watched lastShown hstep unchanged =>
    obtain ⟨hwatched, hattempts, isOwed, hsound, howed⟩ := h
    obtain ⟨more, hmore⟩ := Reloading.exists_attempts_of_step hstep
    obtain ⟨isOwed', hstep', howed'⟩ := Reloading.exists_step_owed hstep unchanged isOwed
    refine ⟨hwatched, ?_, isOwed', hsound.step hstep', fun hshown => howed' (howed hshown)⟩
    rw [hmore]
    exact List.append_ne_nil_of_left_ne_nil hattempts more

theorem IsSound.steps (h : w.IsSound p) (hsteps : Relation.ReflTransGen (Step privilege p) w w') :
    w'.IsSound p := by
  induction hsteps with
  | refl => exact h
  | tail _ hstep ih => exact ih.step hstep

/-! ### Starts that nothing comes into -/

/-- The first load of files that give a state goes on to its end. -/
theorem steps_load {files : FileStore} {state : Active} (h : Active.ofFiles files p = .ok state) :
    ∃ l, l.begun = 0 ∧
      Relation.ReflTransGen (Step privilege p) (.starting (.begin files))
        (.starting { Startup.begin files with stage := .loaded l state }) := by
  obtain ⟨l, hreads, hidle, hbegun, hfinished⟩ :=
    @Load.exists_finished p 0 files ⟨0, [], none, .nothing⟩ 0 rfl rfl (Nat.zero_le 3)
  rw [h] at hfinished
  have hload : Relation.ReflTransGen (Step privilege p) (.starting (.begin files))
      (.starting { Startup.begin files with stage := .loading l }) := by
    refine hreads.lift' (fun l => starting { Startup.begin files with stage := .loading l }) ?_
    rintro a _ ⟨idle, more⟩
    let reading : Load := { a with reading := some 0 }
    have hbegin : Step privilege p (.starting { Startup.begin files with stage := .loading a })
        (.starting { Startup.begin files with stage := .loading reading }) :=
      .start (.beginRead a rfl idle more)
    have hend : Step privilege p (.starting { Startup.begin files with stage := .loading reading })
        (.starting { Startup.begin files with stage := .loading (a.endRead p 0 files) }) :=
      .start (.endRead reading 0 files rfl rfl fun _ => .refl)
    exact (Relation.ReflTransGen.single hbegin).tail hend
  exact ⟨l, hbegun, hload.tail (.start (.loaded l state rfl hidle hfinished))⟩

/-- The directories that are there are watched one after the other. -/
theorem steps_watch {s : Startup} {l : Load} {state : Active} {directories rest : List String}
    (hlistens : s.stage = .listening l state)
    (hdirectories : Path.directories p.inputFiles = directories)
    (hnext : directories = s.watched ++ rest) (hthere : ∀ d ∈ rest, s.files.exists? d = true) :
    Relation.ReflTransGen (Step privilege p) (.starting s)
      (.starting { s with watched := directories }) := by
  induction rest generalizing s with
  | nil =>
    rw [List.append_nil] at hnext
    rw [hnext]
  | cons d rest ih =>
    have hwatch : Step privilege p (.starting s)
        (.starting { s with watched := s.watched ++ [d] }) :=
      .start (.watch l state d rest hlistens (hdirectories.trans hnext)
        (hthere d List.mem_cons_self))
    refine Relation.ReflTransGen.head hwatch (ih hlistens ?_ ?_)
    · rw [hnext, List.append_assoc, List.singleton_append]
    · intro d' hd'
      exact hthere d' (List.mem_cons_of_mem d hd')

/-- A webhook that has a state to serve listens, watches and runs its loop. -/
theorem steps_spawn {s : Startup} {l : Load} {state : Active} {directories : List String}
    (hloaded : s.stage = .loaded l state) (hfree : p.address.listenFailure? privilege = none)
    (hunwatched : s.watched = []) (hdirectories : Path.directories p.inputFiles = directories)
    (hthere : ∀ d ∈ directories, s.files.exists? d = true) :
    Relation.ReflTransGen (Step privilege p) (.starting s)
      (.running directories s.lastShown (s.spawn p l state 0)) := by
  let listening : Startup := { s with stage := .listening l state }
  have hlisten : Step privilege p (.starting s) (.starting listening) :=
    .start (.listen l state hloaded hfree)
  have hwatch : Relation.ReflTransGen (Step privilege p) (.starting listening)
      (.starting { listening with watched := directories }) := by
    refine steps_watch rfl hdirectories ?_ hthere
    show directories = s.watched ++ directories
    rw [hunwatched, List.nil_append]
  exact (hwatch.head hlisten).tail (.spawn _ l state 0 rfl hdirectories.symm)

/-- A launch is a start that nothing comes into. -/
theorem steps_launch {files : FileStore} {launched : Launch}
    (h : launch files p privilege = .ok launched) :
    ∃ l, l.begun = 0 ∧
      Relation.ReflTransGen (Step privilege p) (.starting (.begin files))
        (.running launched.directories 0
          ((Startup.begin files).spawn p l launched.world.loop.state 0)) := by
  obtain ⟨state, hstate, hcovers, hthere, hlaunched⟩ := launch_eq_ok_iff.mp h
  obtain ⟨l, hbegun, hload⟩ := steps_load hstate
  have hfree := listenFailure?_address_eq_none_iff.mpr hcovers
  have hdirectories : launched.directories = Path.directories p.inputFiles := by rw [hlaunched]
  have hserved : launched.world.loop.state = state := by
    rw [hlaunched]
    rfl
  rw [hdirectories, hserved]
  exact ⟨l, hbegun, hload.trans (steps_spawn rfl hfree rfl rfl hthere)⟩

/-- The steps of a loop are steps of its webhook as long as its files do not change. -/
theorem steps_run {watched : List String} {lastShown : Nat} {m m' : Reloading}
    (h : Relation.ReflTransGen (Reloading.Step p) m m') (hsame : m'.changes = m.changes) :
    Relation.ReflTransGen (Step privilege p) (.running watched lastShown m)
      (.running watched lastShown m') := by
  induction h with
  | refl => exact .refl
  | tail hbefore hstep ih =>
    have hfirst := Reloading.changes_le_of_steps hbefore
    have hlast := Reloading.changes_le_of_step hstep
    exact (ih (by omega)).tail (.run watched lastShown hstep (by omega))

open Reloading (nearby usableFiles)

/-- The usable files after a change of the configuration. -/
def renewedFiles : FileStore := usableFiles.put "config" (.file (Text.octets "containers: []"))

theorem directories_nearby : Path.directories nearby.inputFiles = ["."] := by decide +kernel

theorem exists_launched_usableFiles :
    ∃ launched, launch usableFiles nearby = .ok launched ∧ launched.directories = ["."] := by
  obtain ⟨state, hstate⟩ := Reloading.exists_active_usableFiles
  have hthere : ∀ d ∈ Path.directories nearby.inputFiles, usableFiles.exists? d = true := by
    rw [directories_nearby]
    decide +kernel
  exact ⟨_, launch_eq_ok_iff.mpr ⟨state, hstate, rfl, hthere, rfl⟩, directories_nearby⟩

/-- No change is lost once a change shows. If the files have not changed since the first load began,
or if at least one change was made while the directory of its file was watched, then whenever
nothing is left to be done the last attempt to load, the first or a later one, was begun after the
last change, and so were all its reads; it answers what the files give, unless it broke off. -/
theorem last_attempt_after_startup {files : FileStore} {watched : List String} {lastShown : Nat}
    {m : Reloading}
    (hsteps : Relation.ReflTransGen (Step privilege p) (.starting (.begin files))
      (.running watched lastShown m))
    (hshown : 0 < m.changes → 0 < lastShown) (howed : m.isOwed = false)
    (hqueue : ∀ e ∈ m.queue, e.callsForReload = false) (hdeadline : m.loop.deadline = none)
    (hload : m.load = none) :
    ∃ a, m.attempts.getLast? = some a ∧ a.load.begun = m.changes ∧
      (∀ n ∈ a.load.stamps, n = m.changes) ∧
      (a.result = .aborted ∨ a.result = .ofExcept (Active.ofFiles m.files p)) ∧
      m.loop.state = a.result.state?.getD a.before := by
  have hbegin : IsSound p (.starting (.begin files)) := Startup.isSound_begin p files
  obtain ⟨-, hattempts, isOwed, hsound, hsame⟩ := hbegin.steps hsteps
  obtain ⟨a, ha, hbegun⟩ : ∃ a, m.attempts.getLast? = some a ∧ a.load.begun = m.changes := by
    rcases Nat.eq_zero_or_pos m.changes with hnone | hchanged
    · have hlast := List.getLast?_eq_some_getLast hattempts
      have hle := (hsound.last _ hlast).1.load.begun_le
      refine ⟨_, hlast, ?_⟩
      rw [hnone]
      exact Nat.le_zero.mp (hnone ▸ hle)
    · obtain rfl : isOwed = m.isOwed := hsame (hshown hchanged)
      exact hsound.exists_last hchanged howed hqueue hdeadline hload
  exact ⟨a, ha, hbegun, hsound.last_attempt ha hbegun⟩

/-- The configuration changes while the loop runs, and is loaded. -/
theorem last_attempt_after_startup_renewedFiles :
    ∃ m a,
      Relation.ReflTransGen (Step .ordinary nearby) (.starting (.begin usableFiles))
          (.running ["."] 1 m) ∧
        m.files = renewedFiles ∧ m.changes = 1 ∧ m.attempts.getLast? = some a ∧
        a.load.begun = 1 ∧ a.result = .ofExcept (Active.ofFiles renewedFiles nearby) := by
  generalize renewedFiles = files
  obtain ⟨launched, hlaunch, hdirectories⟩ := exists_launched_usableFiles
  obtain ⟨l, -, hlaunched⟩ := steps_launch hlaunch
  rw [hdirectories] at hlaunched
  let m := (Startup.begin usableFiles).spawn nearby l launched.world.loop.state 0
  let renewed : Reloading := { m with files := files, changes := 1, isOwed := true }
  have hchange : Step .ordinary nearby (.running ["."] 0 m) (.running ["."] 1 renewed) := by
    have hwatched : isWatched ["."] "config" = true := by decide +kernel
    have hstep : Step .ordinary nearby _ _ := .change ["."] 0 m "config" List.mem_cons_self files
    rw [hwatched] at hstep
    exact hstep
  let told : Reloading :=
    { ({ renewed with isOwed := false } : Reloading).wake (.event (.modified ["./config"])) with
      now := 200 }
  have htold : Relation.ReflTransGen (Reloading.Step nearby) renewed told :=
    Relation.ReflTransGen.refl
      |>.tail (.send (.modified ["./config"]))
      |>.tail (.event (.modified ["./config"]) [] ⟨rfl, rfl⟩ rfl rfl)
      |>.tail (.pass 200)
  obtain ⟨last, hload⟩ :=
    Reloading.steps_deadline (p := nearby) (m := told) ⟨rfl, rfl⟩ rfl (Nat.le_refl 200)
  let loaded := told.beginLoad.endLoad last (.ofExcept (Active.ofFiles files nearby))
  have hsteps : Relation.ReflTransGen (Step .ordinary nearby) (.starting (.begin usableFiles))
      (.running ["."] 1 loaded) :=
    (hlaunched.tail hchange).trans (steps_run (htold.trans hload) rfl)
  have hdeadline : loaded.loop.deadline = none := ReloadLoop.deadline_step rfl 200 _
  have hqueue : ∀ e ∈ loaded.queue, e.callsForReload = false := by
    intro e he
    exact absurd he List.not_mem_nil
  obtain ⟨a, ha, hbegun, -, -, -⟩ :=
    last_attempt_after_startup hsteps (fun _ => Nat.one_pos) rfl hqueue hdeadline rfl
  have hlast : some (⟨last, told.loop.state, .ofExcept (Active.ofFiles files nearby)⟩ : Attempt) =
      some a := ha
  refine ⟨loaded, a, hsteps, rfl, rfl, ha, hbegun, ?_⟩
  rw [← Option.some.inj hlast]

/-- The configuration changes between its load and the watch. Nothing is left to be done, and the
last load is the first, which has read what was there before. -/
theorem change_before_watch_unnoticed :
    ∃ l state,
      let loaded := { Startup.begin usableFiles with stage := .loaded l state }
      let changed := loaded.change "config" renewedFiles
      let m := changed.spawn nearby l state 0
      Relation.ReflTransGen (Step .ordinary nearby) (.starting (.begin usableFiles))
          (.starting loaded) ∧
        Step .ordinary nearby (.starting loaded) (.starting changed) ∧
        Relation.ReflTransGen (Step .ordinary nearby) (.starting changed) (.running ["."] 0 m) ∧
        usableFiles.read "config" = .ok [] ∧
        m.files.read "config" = .ok (Text.octets "containers: []") ∧ m.changes = 1 ∧
        m.isOwed = false ∧ m.queue = [] ∧ m.loop.deadline = none ∧ m.load = none ∧
        m.loop.isStopped = false ∧ m.attempts = [⟨l, state, .loaded state⟩] ∧ l.begun = 0 := by
  obtain ⟨state, hstate⟩ := Reloading.exists_active_usableFiles
  obtain ⟨l, hbegun, hload⟩ := steps_load hstate
  have hthere : ∀ d ∈ ["."], renewedFiles.exists? d = true := by decide +kernel
  refine ⟨l, state, hload, .start (.change "config" List.mem_cons_self renewedFiles), ?_, rfl, rfl,
    rfl, rfl, rfl, rfl, rfl, rfl, rfl, hbegun⟩
  exact steps_spawn rfl rfl rfl directories_nearby hthere

end Webhook

end SidecarAdmission.Lifecycle
