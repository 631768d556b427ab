import SidecarAdmission.Proofs.Lifecycle.Reloading
import SidecarAdmission.Proofs.Lifecycle.Serving

/-!
The schedule of a world as one of the orders in which things may happen. A world lets its loop load
at once, with nothing between the reads, and takes what is due in a fixed order; so whatever it does
is done by steps of the loop among changes, and what holds after all such steps holds of the world.
-/

set_option autoImplicit false
set_option relaxedAutoImplicit false

namespace SidecarAdmission.Lifecycle

open SidecarAdmission.Storage

namespace Reloading

/-- Whether a loop among changes is the loop of a world, with the same files and events. -/
structure Shows (m : Reloading) (w : World) : Prop where
  files : m.files = w.files
  queue : m.queue = w.queue
  hasSender : m.hasSender = w.hasSender
  now : m.now = w.now
  loop : m.loop = w.loop
  load : m.load = none
  results : m.attempts.map (·.result) = w.loads

/-- Whether steps lead to the loop of a world. -/
def LeadsTo (p : Parameters) (m : Reloading) (w : World) : Prop :=
  ∃ m', Relation.ReflTransGen (Step p) m m' ∧ m'.Shows w

variable {p : Parameters} {m m' : Reloading} {w w' : World}

theorem shows_start (files : FileStore) (state : Active) (watched : List Place) (listens : Bool) :
    (start files state p listens 0).Shows (.start files p watched state listens) :=
  ⟨rfl, rfl, rfl, rfl, rfl, rfl, rfl⟩

theorem Shows.leadsTo (h : m.Shows w) : m.LeadsTo p w := ⟨m, .refl, h⟩

theorem LeadsTo.head (hsteps : Relation.ReflTransGen (Step p) m m') (h : m'.LeadsTo p w) :
    m.LeadsTo p w := by
  obtain ⟨last, hlast, hshows⟩ := h
  exact ⟨last, hsteps.trans hlast, hshows⟩

theorem LeadsTo.trans (h : m.LeadsTo p w) (hmore : ∀ m' : Reloading, m'.Shows w → m'.LeadsTo p w') :
    m.LeadsTo p w' := by
  obtain ⟨m', hsteps, hshows⟩ := h
  exact (hmore m' hshows).head hsteps

/-- Files are replaced, by others with the same inputs or by a change of the inputs. -/
theorem steps_files (files : FileStore) :
    ∃ changes isOwed,
      Relation.ReflTransGen (Step p) m { m with files, changes, isOwed } := by
  by_cases hsame : SameInputs p m.files files
  · exact ⟨m.changes, m.isOwed, .single (.touch files hsame)⟩
  · exact ⟨m.changes + 1, true, .single (.change files)⟩

theorem steps_send (events : List FileEvent) :
    ∃ isOwed, Relation.ReflTransGen (Step p) m { m with queue := m.queue ++ events, isOwed } := by
  induction events generalizing m with
  | nil => exact ⟨m.isOwed, by rw [List.append_nil]⟩
  | cons e rest ih =>
    obtain ⟨isOwed, hrest⟩ :=
      ih (m := { m with queue := m.queue ++ [e], isOwed := m.isOwed && !e.callsForReload })
    rw [List.append_assoc, List.singleton_append] at hrest
    exact ⟨isOwed, .head (.send e) hrest⟩

/-- Something is done to the files, and events are sent of it. -/
theorem Shows.act (h : m.Shows w) (files : FileStore) (events : List FileEvent) :
    m.LeadsTo p { w with files, queue := w.queue ++ events } := by
  obtain ⟨changes, owed, hfiles⟩ := steps_files (p := p) (m := m) files
  obtain ⟨isOwed, hsend⟩ :=
    steps_send (p := p) (m := { m with files, changes, isOwed := owed }) events
  refine ⟨_, hfiles.trans hsend, rfl, ?_, h.hasSender, h.now, h.loop, h.load, h.results⟩
  rw [← h.queue]

theorem Shows.clock (h : m.Shows w) (now : Nat) : m.LeadsTo p { w with now } :=
  ⟨_, .single (.pass now), h.files, h.queue, h.hasSender, rfl, h.loop, h.load, h.results⟩

theorem Shows.signal (h : m.Shows w) {signal : Signal} (hstep : Step p m (m.wake signal)) :
    m.LeadsTo p (w.signal signal) := by
  refine ⟨_, .single hstep, h.files, h.queue, h.hasSender, h.now, ?_, h.load, h.results⟩
  rw [wake, World.signal, h.loop, h.now]

theorem Shows.waits (h : m.Shows w) (hrunning : w.loop.isStopped = false) : m.Waits := by
  refine ⟨h.load, ?_⟩
  rw [h.loop]
  exact hrunning

/-- A world loads at once, or its load breaks off. -/
theorem Shows.passDeadline (h : m.Shows w) (hrunning : w.loop.isStopped = false) {due : Nat}
    (harmed : w.loop.deadline = some due) (hpassed : due ≤ w.now) :
    m.LeadsTo w.parameters w.passDeadline := by
  have hwaits := h.waits hrunning
  have harmed' : m.loop.deadline = some due := by rw [h.loop, harmed]
  have hpassed' : due ≤ m.now := by rwa [h.now]
  -- Whatever comes out of the load, the loop and the attempts are those of the world.
  have hshows : ∀ l, (m.beginLoad.endLoad l w.loadNow).Shows w.passDeadline := by
    intro l
    refine ⟨h.files, h.queue, h.hasSender, h.now, ?_, rfl, ?_⟩
    · show ReloadLoop.step { m.loop with deadline := none } m.now (.deadline w.loadNow) =
        w.loop.step w.now (.deadline w.loadNow)
      rw [h.loop, h.now, ReloadLoop.step_deadline_of_cleared hrunning]
    · show (m.attempts ++ [(⟨l, m.loop.state, w.loadNow⟩ : Attempt)]).map (·.result) =
        (w.attempts ++ [(w.now, w.loadNow)]).map (·.2)
      have hresults : m.attempts.map (·.result) = w.attempts.map (·.2) := h.results
      rw [List.map_append, List.map_append, hresults]
      rfl
  cases habort : w.loaderAborts with
  | true =>
    have hload : w.loadNow = .aborted := if_pos habort
    have hbegin : Step w.parameters m m.beginLoad := .deadline due hwaits harmed' hpassed'
    have hend : Step w.parameters m.beginLoad (m.beginLoad.endLoad _ .aborted) := .abort _ rfl
    refine ⟨_, (Relation.ReflTransGen.single hbegin).tail hend, ?_⟩
    rw [← hload]
    exact hshows _
  | false =>
    have hload : w.loadNow = .ofExcept (Active.ofFiles m.files w.parameters) := by
      rw [World.loadNow, habort, h.files]
      rfl
    obtain ⟨l, hsteps⟩ := steps_deadline (p := w.parameters) hwaits harmed' hpassed'
    refine ⟨_, hsteps, ?_⟩
    rw [← hload]
    exact hshows l

theorem Shows.passBeat (h : m.Shows w) (hrunning : w.loop.isStopped = false) {due : Nat}
    (harmed : w.loop.nextBeat = some due) (hpassed : due ≤ w.now) (path : String) :
    m.LeadsTo p (w.passBeat path) := by
  have hbeat : ∀ {m : Reloading} {w : World} (written : Bool), m.Shows w →
      w.loop.isStopped = false → w.loop.nextBeat = some due → due ≤ w.now →
      m.LeadsTo p (w.signal (.beat written)) := by
    intro m w written h hrunning harmed hpassed
    refine h.signal (.beat due written (h.waits hrunning) ?_ ?_)
    · rw [h.loop, harmed]
    · rwa [h.now]
  unfold World.passBeat
  split
  next files _ =>
    exact (h.act files _).trans fun m' h' => hbeat true h' hrunning harmed hpassed
  next => exact hbeat false h hrunning harmed hpassed

/-- What is due in a world is done by steps. -/
theorem Shows.nextDue (h : m.Shows w) (hrunning : w.loop.isStopped = false) {limit : Nat}
    (hnext : w.nextDue? limit = some w') : m.LeadsTo w.parameters w' := by
  have hdeadline : ∀ d, w.loop.deadline = some d →
      m.LeadsTo w.parameters ({ w with now := d } : World).passDeadline := by
    intro d harmed
    exact (h.clock d).trans fun m' h' => h'.passDeadline hrunning harmed (Nat.le_refl d)
  have hbeat : ∀ b path, w.loop.nextBeat = some b →
      m.LeadsTo w.parameters (({ w with now := b } : World).passBeat path) := by
    intro b path harmed
    exact (h.clock b).trans fun m' h' => h'.passBeat hrunning harmed (Nat.le_refl b) path
  rcases World.nextDue?_cases hnext with
    ⟨d, harmed, -, -, rfl⟩ | ⟨b, path, hdue, -, -, rfl⟩
  · exact hdeadline d harmed
  · exact hbeat b path (World.nextBeat_of_beat? hdue)

/-- What happens next in a world is done by steps. -/
theorem Shows.next (h : m.Shows w) {limit : Nat} (hnext : w.next? limit = some w') :
    m.LeadsTo w.parameters w' := by
  obtain ⟨hrunning, hcases⟩ := World.next?_cases hnext
  have hwaits := h.waits hrunning
  rcases hcases with
    ⟨-, rfl⟩ | ⟨e, rest, hlistens, hqueue, rfl⟩ | ⟨hlistens, hqueue, hsender, rfl⟩ | ⟨-, hdue⟩
  · exact h.signal (.stop hwaits)
  · have hstep : Step w.parameters m ({ m with queue := rest }.wake (.event e)) :=
      .event e rest hwaits (by rw [h.loop, hlistens]) (by rw [h.queue, hqueue])
    refine ⟨_, .single hstep, h.files, rfl, h.hasSender, h.now, ?_, h.load, h.results⟩
    rw [wake, World.signal, h.loop, h.now]
  · refine h.signal (.eventsEnd hwaits ?_ ?_ ?_)
    · rw [h.loop, hlistens]
    · rw [h.queue, hqueue]
    · rw [h.hasSender, hsender]
  · exact h.nextDue hrunning hdue

/-- Whatever becomes of a world while things are done to its files is done by steps. -/
theorem leadsTo_live (files : FileStore) (state : Active) (watched : List Place) (listens : Bool)
    (rounds : List (FileAction × Nat)) :
    (start files state p listens 0).LeadsTo p
      ((World.start files p watched state listens).live rounds) := by
  let first := start files state p listens 0
  have hlive := World.live_induction (P := fun w => w.parameters = p ∧ first.LeadsTo p w)
    (fun w a ⟨hp, h⟩ => ⟨hp, h.trans fun m' h' => h'.act _ _⟩)
    (fun w limit w' ⟨hp, h⟩ hnext => by
      refine ⟨(World.parameters_next? hnext).trans hp, h.trans fun m' h' => ?_⟩
      rw [← hp]
      exact h'.next hnext)
    (fun w now ⟨hp, h⟩ => ⟨hp, h.trans fun m' h' => h'.clock now⟩)
    ⟨rfl, (shows_start files state watched listens).leadsTo⟩ rounds
  exact hlive.2

end Reloading

end SidecarAdmission.Lifecycle
