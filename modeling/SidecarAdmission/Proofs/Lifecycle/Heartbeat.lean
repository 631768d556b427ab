import SidecarAdmission.Proofs.Lifecycle.Run
import SidecarAdmission.Proofs.Lifecycle.Startup

/-!
The heartbeat as the only one that writes. Its file may be any file, also one that the state is
loaded from; but what a beat writes is no configuration, no certificate and no key, so that a load
after it either fails or gives the state that is in force. Whether there is such a load at all
depends on where the file lies: a beat is seen like any other change if that is a watched directory.
-/

set_option autoImplicit false
set_option relaxedAutoImplicit false

namespace SidecarAdmission.Lifecycle

open SidecarAdmission.Network SidecarAdmission.Storage

/-! ### What is loaded after beats -/

section Marked

variable {files : FileStore} {path : String}

theorem ofFile_marked (h : files.read path = .ok healthMark) (spec : Sidecar.Spec) :
    Sidecar.Spec.ofFile files path ≠ .ok spec := by
  have htext : Text.ofOctets? healthMark = some "ok" := by decide +kernel
  have hnone : (Sidecar.Spec.ofText "ok").toOption.isNone = true := by decide +kernel
  have hread : files.readText path = .ok "ok" := by
    simp only [FileStore.readText, h, bind, Except.bind, htext]
  intro hspec
  rw [Sidecar.Spec.ofFile, hread] at hspec
  cases hok : Sidecar.Spec.ofText "ok" with
  | ok found =>
    rw [hok] at hnone
    contradiction
  | error e =>
    simp only [hok] at hspec
    contradiction

theorem blocks_marked (h : files.read path = .ok healthMark) :
    Tls.Credentials.blocks files path = .ok ⟨[], true⟩ := by
  have hempty : Tls.Pem.read healthMark = ⟨[], true⟩ := by decide +kernel
  rw [Tls.Credentials.blocks, h, ← hempty]

theorem loadCertificates_marked (h : files.read path = .ok healthMark)
    (certificates : List Text.Octets) :
    Tls.Credentials.loadCertificates files path ≠ .ok certificates := by
  intro hloaded
  rw [Tls.Credentials.loadCertificates, blocks_marked h] at hloaded
  contradiction

theorem loadKey_marked (h : files.read path = .ok healthMark) (key : Tls.Pem.Block) :
    Tls.Credentials.loadKey files path ≠ .ok key := by
  intro hloaded
  rw [Tls.Credentials.loadKey, blocks_marked h] at hloaded
  contradiction

end Marked

/-- The parts of a state are what its three files give. -/
theorem Active.parts_of_ofFiles {files : FileStore} {p : Parameters} {state : Active}
    (h : ofFiles files p = .ok state) :
    Sidecar.Spec.ofFile files p.configFile = .ok state.spec ∧
      Tls.Credentials.loadCertificates files p.certificateFile =
        .ok state.credentials.certificates ∧
      Tls.Credentials.loadKey files p.keyFile = .ok state.credentials.key ∧
      Tls.Key.algorithm? state.credentials.key = some state.credentials.algorithm := by
  unfold ofFiles Tls.Credentials.ofFiles at h
  cases hspec : Sidecar.Spec.ofFile files p.configFile with
  | error e =>
    rw [hspec] at h
    contradiction
  | ok spec =>
    cases hcertificates : Tls.Credentials.loadCertificates files p.certificateFile with
    | error e =>
      rw [hspec, hcertificates] at h
      contradiction
    | ok certificates =>
      cases hkey : Tls.Credentials.loadKey files p.keyFile with
      | error e =>
        rw [hspec, hcertificates, hkey] at h
        contradiction
      | ok key =>
        cases halgorithm : Tls.Key.algorithm? key with
        | none =>
          simp only [hspec, hcertificates, hkey, bind, Except.bind, halgorithm] at h
          contradiction
        | some algorithm =>
          simp only [hspec, hcertificates, hkey, bind, Except.bind, halgorithm] at h
          obtain rfl := Except.ok.inj h
          exact ⟨rfl, rfl, rfl, halgorithm⟩

/-- Whether each input holds what it held before, or what a beat writes. -/
def HoldsOrMarked (p : Parameters) (before now : FileStore) : Prop :=
  ∀ input ∈ p.inputFiles, ∃ old, before.read input = .ok old ∧
    (now.read input = .ok old ∨ now.read input = .ok healthMark)

section HoldsOrMarked

variable {p : Parameters} {before now after : FileStore} {state next : Active}

/-- A beat keeps it so, whichever file it is written to. -/
theorem HoldsOrMarked.writeHealth (h : HoldsOrMarked p before now) {path : String}
    (hwrite : writeHealth now path = .ok after) : HoldsOrMarked p before after := by
  intro input hinput
  obtain ⟨old, hold, hnow⟩ := h input hinput
  refine ⟨old, hold, ?_⟩
  rcases hnow with hsame | hmarked
  · exact FileStore.read_of_write hwrite hsame
  · exact .inr ((FileStore.read_of_write hwrite hmarked).elim id id)

/-- What is loaded from such files is the state that was loaded before. -/
theorem HoldsOrMarked.eq_of_ofFiles (h : HoldsOrMarked p before now)
    (hbefore : Active.ofFiles before p = .ok state) (hnow : Active.ofFiles now p = .ok next) :
    next = state := by
  obtain ⟨hspec, hcertificates, hkey, halgorithm⟩ := Active.parts_of_ofFiles hbefore
  obtain ⟨hspec', hcertificates', hkey', halgorithm'⟩ := Active.parts_of_ofFiles hnow
  have hsame : ∀ input ∈ p.inputFiles, now.read input ≠ .ok healthMark →
      now.read input = before.read input := by
    intro input hinput hunmarked
    obtain ⟨old, hold, hread⟩ := h input hinput
    rw [hold, hread.resolve_right hunmarked]
  have hconfig := hsame p.configFile (by simp [Parameters.inputFiles])
    fun hmarked => ofFile_marked hmarked _ hspec'
  have hchain := hsame p.certificateFile (by simp [Parameters.inputFiles])
    fun hmarked => loadCertificates_marked hmarked _ hcertificates'
  have hsecret := hsame p.keyFile (by simp [Parameters.inputFiles])
    fun hmarked => loadKey_marked hmarked _ hkey'
  rw [Sidecar.Spec.ofFile_congr hconfig, hspec] at hspec'
  rw [Tls.Credentials.loadCertificates_congr hchain, hcertificates] at hcertificates'
  rw [Tls.Credentials.loadKey_congr hsecret, hkey] at hkey'
  obtain ⟨spec, certificates, key, algorithm⟩ := state
  obtain ⟨spec', certificates', key', algorithm'⟩ := next
  obtain rfl := Except.ok.inj hspec'
  obtain rfl := Except.ok.inj hcertificates'
  obtain rfl := Except.ok.inj hkey'
  obtain rfl := Option.some.inj (halgorithm.symm.trans halgorithm')
  rfl

end HoldsOrMarked

/-! ### Beats that are seen -/

namespace World

/-- Whether a beat shows: its file can be written and lies in a watched directory. -/
def ShowsBeats (w : World) : Prop :=
  ∃ interval path, w.parameters.heartbeat? = some (interval, path) ∧
    (∃ after, writeHealth w.files path = .ok after) ∧ w.sees (w.files.placeOf path) = true

section Beats

variable {w : World} {path : String} {after : FileStore}

/-- A beat that can be written is told of by one event, which calls for a reload, if its file lies
in a watched directory, and else by none. -/
theorem beatEvents_of_write (h : writeHealth w.files path = .ok after) :
    ∃ e : FileEvent, e.callsForReload = true ∧
      w.beatEvents path = if w.sees (w.files.placeOf path) then [e] else [] := by
  unfold beatEvents
  simp only [h, changes_of_write h, events]
  cases hthere : (w.files.at? (w.files.placeOf path)).isSome with
  | true =>
    refine ⟨.modified ["/".intercalate (w.files.placeOf path)], rfl, ?_⟩
    cases hsees : w.sees (w.files.placeOf path) <;> simp [hsees, FileEvent.ofChange]
  | false =>
    refine ⟨.created ["/".intercalate (w.files.placeOf path)], rfl, ?_⟩
    cases hsees : w.sees (w.files.placeOf path) <;> simp [hsees, FileEvent.ofChange]

theorem placeOf_writeHealth (h : writeHealth w.files path = .ok after) :
    after.placeOf path = w.files.placeOf path := by
  obtain ⟨hset, -⟩ := FileStore.set_of_write h
  rw [hset]
  rfl

theorem passBeat_of_write (h : writeHealth w.files path = .ok after) :
    w.passBeat path =
      ({ w with files := after, queue := w.queue ++ w.beatEvents path } : World).signal
        (.beat true) := by
  unfold passBeat beatEvents
  rw [h]

theorem passBeat_of_error {e : Failure} (h : writeHealth w.files path = .error e) :
    w.passBeat path = w.signal (.beat false) := by
  unfold passBeat
  rw [h]

end Beats

/-- What may become of a world if nothing but its heartbeat writes to the files. The watcher may
tell of changes that do not matter, and of a beat more than once if it shows; the clock may be set
to any time, so that beats and loads may come late. -/
inductive Undisturbed (first : World) : World → Prop where
  | begin : Undisturbed first first
  | wake {w w' : World} {seen : List FileEvent} (h : Undisturbed first w)
      (hwakes : Wakes w seen w') : Undisturbed first w'
  | tell {w : World} (h : Undisturbed first w) (e : FileEvent)
      (shown : e.callsForReload = true → w.ShowsBeats) : Undisturbed first (w.send e)
  | ask {w : World} (h : Undisturbed first w) : Undisturbed first { w with stopRequested := true }
  | request {w : World} (h : Undisturbed first w) (r : Http.Request) :
    Undisturbed first (w.request r).2
  | abort {w : World} (h : Undisturbed first w) (aborts : Bool) :
    Undisturbed first { w with loaderAborts := aborts }
  | clock {w : World} (h : Undisturbed first w) (now : Nat) : Undisturbed first { w with now }

section Runs

variable {first w w' : World} {limit : Nat}

/-- What happens next in a world is part of such a run. -/
theorem Undisturbed.next (h : Undisturbed first w) (hnext : w.next? limit = some w') :
    Undisturbed first w' := by
  obtain ⟨hrunning, hcases⟩ := next?_cases hnext
  rcases hcases with ⟨hasked, rfl⟩ | ⟨e, rest, hlistens, hqueue, rfl⟩ |
    ⟨hlistens, hqueue, hsender, rfl⟩ | ⟨-, hdue⟩
  · exact h.wake (.stop hrunning hasked)
  · exact h.wake (.event e rest hrunning hlistens hqueue)
  · exact h.wake (.eventsEnd hrunning hlistens hqueue hsender)
  · rcases nextDue?_cases hdue with ⟨d, harmed, -, -, rfl⟩ | ⟨b, path, harmed, -, -, rfl⟩
    · exact (h.clock d).wake (.deadline d hrunning harmed (Nat.le_refl d))
    · exact (h.clock b).wake (.beat b path hrunning harmed (Nat.le_refl b))

/-- Waiting is such a run. -/
theorem Undisturbed.wait (h : Undisturbed first w) (duration : Nat) :
    Undisturbed first (w.wait duration) := by
  have hrun : ∀ limit fuel w, Undisturbed first w → Undisturbed first (runTo limit fuel w) := by
    intro limit fuel
    induction fuel with
    | zero => exact fun w h => h
    | succ fuel ih =>
      intro w h
      rw [runTo]
      split
      next w' hnext => exact ih w' (h.next hnext)
      next => exact h.clock limit
  exact hrun _ _ w h

end Runs

/-! ### The state stays the same -/

/-- What holds as long as nothing but the heartbeat writes: the state is that of the files as they
were, and these hold what they held or what a beat writes. -/
structure IsUnharmed (p : Parameters) (files : FileStore) (state : Active) (w : World) : Prop where
  parameters : w.parameters = p
  inputs : HoldsOrMarked p files w.files
  served : w.loop.state = state
  loads : ∀ a ∈ w.attempts, ∀ next, a.2 = .loaded next → next = state

section Unharmed

variable {p : Parameters} {files : FileStore} {state : Active} {first w w' : World}

/-- A signal without a load does no harm. -/
theorem IsUnharmed.signal (h : w.IsUnharmed p files state) {signal : Signal}
    (hresult : signal.result? = none) : (w.signal signal).IsUnharmed p files state where
  parameters := h.parameters
  inputs := h.inputs
  served := (w.loop.state_step_of_no_load w.now hresult).trans h.served
  loads := h.loads

theorem IsUnharmed.passBeat (h : w.IsUnharmed p files state) (path : String) :
    (w.passBeat path).IsUnharmed p files state := by
  cases hwrite : writeHealth w.files path with
  | ok after =>
    rw [passBeat_of_write hwrite]
    have hwritten : IsUnharmed p files state
        { w with files := after, queue := w.queue ++ w.beatEvents path } :=
      ⟨h.parameters, h.inputs.writeHealth hwrite, h.served, h.loads⟩
    exact hwritten.signal rfl
  | error e =>
    rw [passBeat_of_error hwrite]
    exact h.signal rfl

/-- A load gives the state that is in force, if it gives one. -/
theorem IsUnharmed.loadNow (h : w.IsUnharmed p files state)
    (hfiles : Active.ofFiles files p = .ok state) {next : Active}
    (hnext : w.loadNow = .loaded next) : next = state := by
  unfold World.loadNow at hnext
  split at hnext
  · contradiction
  · rw [h.parameters] at hnext
    exact h.inputs.eq_of_ofFiles hfiles (LoadResult.ofExcept_eq_loaded.mp hnext)

theorem IsUnharmed.passDeadline (h : w.IsUnharmed p files state)
    (hfiles : Active.ofFiles files p = .ok state) :
    w.passDeadline.IsUnharmed p files state := by
  refine ⟨h.parameters, h.inputs, ?_, ?_⟩
  · have hstep : w.passDeadline.loop = w.loop.step w.now (.deadline w.loadNow) := rfl
    rw [hstep, ReloadLoop.state_step, ReloadLoop.result?]
    split
    · exact h.served
    · show w.loadNow.state?.getD w.loop.state = state
      cases hload : w.loadNow with
      | loaded next => exact h.loadNow hfiles hload
      | failed e => exact h.served
      | aborted => exact h.served
  · intro a ha next hnext
    rcases List.mem_append.mp ha with hbefore | hlast
    · exact h.loads a hbefore next hnext
    · obtain rfl := List.mem_singleton.mp hlast
      exact h.loadNow hfiles hnext

theorem IsUnharmed.wakes (h : w.IsUnharmed p files state)
    (hfiles : Active.ofFiles files p = .ok state) {seen : List FileEvent}
    (hwakes : Wakes w seen w') : w'.IsUnharmed p files state := by
  cases hwakes with
  | deadline due running armed passed => exact h.passDeadline hfiles
  | beat due path running armed passed => exact h.passBeat path
  | event e rest running listens queued =>
    have hrest : IsUnharmed p files state { w with queue := rest } :=
      ⟨h.parameters, h.inputs, h.served, h.loads⟩
    exact hrest.signal rfl
  | eventsEnd running listens empty closed => exact h.signal rfl
  | stop running asked => exact h.signal rfl

end Unharmed

/-! ### No load without a beat that shows -/

/-- What holds as long as no beat shows: nothing has been told that calls for a reload, and none is
due. -/
structure IsQuiet (w : World) : Prop where
  hidden : ¬ w.ShowsBeats
  heartbeat : w.loop.heartbeat = w.parameters.heartbeat?
  queue : ∀ e ∈ w.queue, e.callsForReload = false
  deadline : w.loop.deadline = none
  attempts : w.attempts = []

section Quiet

variable {first w w' : World}

/-- A signal that calls for no reload keeps the quiet. -/
theorem IsQuiet.signal (h : w.IsQuiet) {signal : Signal}
    (hsignal : (w.loop.step w.now signal).deadline = w.loop.deadline) :
    (w.signal signal).IsQuiet where
  hidden := h.hidden
  heartbeat := (w.loop.settings_step w.now signal).2.trans h.heartbeat
  queue := h.queue
  deadline := hsignal.trans h.deadline
  attempts := h.attempts

/-- A beat that does not show is not told of, and the next one will not show either. -/
theorem IsQuiet.passBeat (h : w.IsQuiet) (hrunning : w.loop.isStopped = false) {due : Nat}
    {path : String} (harmed : w.beat? = some (due, path)) : (w.passBeat path).IsQuiet := by
  obtain ⟨-, interval, hheartbeat⟩ := beat?_eq_some_iff.mp harmed
  rw [h.heartbeat] at hheartbeat
  cases hwrite : writeHealth w.files path with
  | error e =>
    rw [passBeat_of_error hwrite]
    exact h.signal (ReloadLoop.deadline_step hrunning w.now (.beat false))
  | ok after =>
    have hunseen : w.sees (w.files.placeOf path) = false := by
      refine Bool.eq_false_iff.mpr fun hsees => h.hidden ?_
      exact ⟨interval, path, hheartbeat, ⟨after, hwrite⟩, hsees⟩
    obtain ⟨e, -, hevents⟩ := beatEvents_of_write hwrite
    have hnone : w.beatEvents path = [] := by
      rw [hevents, hunseen]
      rfl
    rw [passBeat_of_write hwrite, hnone, List.append_nil]
    have hquiet : IsQuiet { w with files := after } := by
      refine ⟨?_, h.heartbeat, h.queue, h.deadline, h.attempts⟩
      rintro ⟨interval', path', hheartbeat', -, hsees⟩
      obtain ⟨-, rfl⟩ := Prod.mk.inj (Option.some.inj (hheartbeat.symm.trans hheartbeat'))
      have hplace : w.sees (after.placeOf path) = true := hsees
      rw [placeOf_writeHealth hwrite, hunseen] at hplace
      contradiction
    exact hquiet.signal (ReloadLoop.deadline_step hrunning w.now (.beat true))

theorem IsQuiet.wakes (h : w.IsQuiet) {seen : List FileEvent} (hwakes : Wakes w seen w') :
    w'.IsQuiet := by
  cases hwakes with
  | deadline due running armed passed =>
    rw [h.deadline] at armed
    contradiction
  | beat due path running armed passed => exact h.passBeat running armed
  | event e rest running listens queued =>
    have hcalm : e.callsForReload = false := h.queue e (by simp [queued])
    have hrest : IsQuiet { w with queue := rest } :=
      ⟨h.hidden, h.heartbeat, fun e he => h.queue e (by simp [queued, he]), h.deadline, h.attempts⟩
    refine hrest.signal ?_
    rw [ReloadLoop.deadline_step running]
    simp [hcalm]
  | eventsEnd running listens empty closed =>
    exact h.signal (ReloadLoop.deadline_step running w.now .eventsEnd)
  | stop running asked => exact h.signal (ReloadLoop.deadline_step running w.now .stop)

end Quiet

/-! ### A load after a beat that shows -/

section Shown

variable {first w : World}

end Shown

end World

/-! ### Webhooks that have been started -/

end SidecarAdmission.Lifecycle
