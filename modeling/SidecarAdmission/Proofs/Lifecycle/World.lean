import SidecarAdmission.Lifecycle.World

/-!
What happens next in a world. A running loop takes the request to stop before events and events
before what is due; of a deadline and a beat it takes the earlier, and the deadline if both are due
at once.
-/

set_option autoImplicit false
set_option relaxedAutoImplicit false

namespace SidecarAdmission.Lifecycle.World

/-- The time at which the next beat is due, and the file that it is written to. -/
def beat? (w : World) : Option (Nat × String) :=
  match w.loop.nextBeat, w.loop.heartbeat with
  | some due, some (_, path) => some (due, path)
  | _, _ => none

variable {w w' : World} {limit : Nat}

theorem nextBeat_of_beat? {b : Nat} {path : String} (h : w.beat? = some (b, path)) :
    w.loop.nextBeat = some b := by
  unfold beat? at h
  split at h
  next due interval path' hdue _ =>
    obtain ⟨rfl, -⟩ := Prod.mk.inj (Option.some.inj h)
    exact hdue
  next => contradiction

/-- What is due next is the deadline or the beat, whichever is earlier. -/
theorem nextDue?_cases (h : w.nextDue? limit = some w') :
    (∃ d, w.loop.deadline = some d ∧ d ≤ limit ∧ (∀ b path, w.beat? = some (b, path) → d ≤ b) ∧
        w' = ({ w with now := d } : World).passDeadline) ∨
      ∃ b path, w.beat? = some (b, path) ∧ b ≤ limit ∧ (∀ d, w.loop.deadline = some d → b < d) ∧
        w' = ({ w with now := b } : World).passBeat path := by
  unfold nextDue? at h
  simp only at h
  split at h
  next d b path hdeadline hdue =>
    have hbeat : w.beat? = some (b, path) := hdue
    split at h
    · contradiction
    next hlimit =>
      split at h
      next hfirst =>
        obtain rfl := Option.some.inj h
        refine .inl ⟨d, hdeadline, by omega, ?_, rfl⟩
        intro b' path' hb
        obtain ⟨rfl, -⟩ := Prod.mk.inj (Option.some.inj (hbeat.symm.trans hb))
        exact hfirst
      next hlater =>
        obtain rfl := Option.some.inj h
        refine .inr ⟨b, path, hbeat, by omega, ?_, rfl⟩
        intro d' hd
        obtain rfl := Option.some.inj (hdeadline.symm.trans hd)
        omega
  next d hdeadline hdue =>
    have hbeat : w.beat? = none := hdue
    split at h
    · contradiction
    next hlimit =>
      obtain rfl := Option.some.inj h
      exact .inl ⟨d, hdeadline, by omega, by simp [hbeat], rfl⟩
  next b path hdeadline hdue =>
    have hbeat : w.beat? = some (b, path) := hdue
    split at h
    · contradiction
    next hlimit =>
      obtain rfl := Option.some.inj h
      exact .inr ⟨b, path, hbeat, by omega, by simp [hdeadline], rfl⟩
  next => contradiction

/-- What happens next in a world whose loop is running. -/
theorem next?_cases (h : w.next? limit = some w') :
    w.loop.isStopped = false ∧
      ((w.stopRequested = true ∧ w' = w.signal .stop) ∨
        (∃ e rest, w.loop.listens = true ∧ w.queue = e :: rest ∧
          w' = ({ w with queue := rest } : World).signal (.event e)) ∨
        (w.loop.listens = true ∧ w.queue = [] ∧ w.hasSender = false ∧ w' = w.signal .eventsEnd) ∨
        (w.loop.listens = true → w.queue = [] ∧ w.hasSender = true) ∧
          w.nextDue? limit = some w') := by
  unfold next? at h
  split at h
  · contradiction
  next hrunning =>
    refine ⟨by simpa using hrunning, ?_⟩
    split at h
    next hstop =>
      obtain rfl := Option.some.inj h
      exact .inl ⟨hstop, rfl⟩
    next =>
      split at h
      next hlistens =>
        split at h
        next e rest hqueue =>
          obtain rfl := Option.some.inj h
          exact .inr (.inl ⟨e, rest, hlistens, hqueue, rfl⟩)
        next hqueue =>
          split at h
          next hsender => exact .inr (.inr (.inr ⟨fun _ => ⟨hqueue, hsender⟩, h⟩))
          next hsender =>
            obtain rfl := Option.some.inj h
            exact .inr (.inr (.inl ⟨hlistens, hqueue, by simpa using hsender, rfl⟩))
      next hlistens => exact .inr (.inr (.inr ⟨fun hl => absurd hl hlistens, h⟩))

/-- The parameters are those that the webhook was started with. -/
theorem parameters_next? (h : w.next? limit = some w') : w'.parameters = w.parameters := by
  obtain ⟨-, ⟨-, rfl⟩ | ⟨_, _, -, -, rfl⟩ | ⟨-, -, -, rfl⟩ | ⟨-, hdue⟩⟩ := next?_cases h
  · rfl
  · rfl
  · rfl
  · rcases nextDue?_cases hdue with ⟨d, -, -, -, rfl⟩ | ⟨b, path, -, -, -, rfl⟩
    · rfl
    · unfold passBeat
      split <;> rfl

/-- A world after rounds in which something is done to the files and some time passes. -/
def live (w : World) (rounds : List (FileAction × Nat)) : World :=
  rounds.foldl (fun w round => (w.act round.1).wait round.2) w

/-- What holds at the beginning holds after all rounds if everything that may happen keeps it. -/
theorem live_induction {P : World → Prop} (hact : ∀ w a, P w → P (w.act a))
    (hnext : ∀ w limit w', P w → w.next? limit = some w' → P w')
    (hclock : ∀ (w : World) now, P w → P { w with now }) (h : P w)
    (rounds : List (FileAction × Nat)) : P (w.live rounds) := by
  have hrun : ∀ limit fuel w, P w → P (runTo limit fuel w) := by
    intro limit fuel
    induction fuel with
    | zero => exact fun w h => h
    | succ fuel ih =>
      intro w h
      rw [runTo]
      split
      next w' hw => exact ih w' (hnext w limit w' h hw)
      next => exact hclock w limit h
  induction rounds generalizing w with
  | nil => exact h
  | cons round rest ih => exact ih (hrun _ _ _ (hact w round.1 h))

end SidecarAdmission.Lifecycle.World
