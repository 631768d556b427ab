import SidecarAdmission.Proofs.Lifecycle.ReloadLoop
import SidecarAdmission.Proofs.Lifecycle.World

/-!
Readers of the served state. Handshakes and requests take the state that is in force at the moment
and answer from it later, while the loop goes on. The states that have been in force are the first
one and those that loads gave, in order; the newest is in force, whatever else the loop has woken up
for, and a reader answers from a single one of them.
-/

set_option autoImplicit false
set_option relaxedAutoImplicit false

namespace SidecarAdmission.Lifecycle

open SidecarAdmission.Telemetry

/-! ### The states that have been in force -/

/-- The states that have been in force after some loads, the oldest first. -/
def generations (first : Active) (loads : List LoadResult) : List Active :=
  first :: loads.filterMap LoadResult.state?

/-- The number of the generation that is in force after some loads. -/
def generation (loads : List LoadResult) : Nat := (loads.filterMap LoadResult.state?).length

/-- Whether a state is the newest of those that loads gave, or the first if they gave none. -/
def IsNewest (first : Active) (loads : List LoadResult) (state : Active) : Prop :=
  (generations first loads)[generation loads]? = some state

section Generations

variable {first : Active} {loads : List LoadResult}

theorem generations_concat (result : LoadResult) :
    generations first (loads ++ [result]) = generations first loads ++ result.state?.toList := by
  cases hstate : result.state? <;> simp [generations, hstate]

theorem length_generations : (generations first loads).length = generation loads + 1 := by
  simp [generations, generation]

theorem isNewest_nil : IsNewest first [] first := rfl

/-- What a load gives is the newest state; a load that gives none leaves the newest as it was. -/
theorem IsNewest.concat {state : Active} (h : IsNewest first loads state) (result : LoadResult) :
    IsNewest first (loads ++ [result]) (result.state?.getD state) := by
  unfold IsNewest
  rw [generations_concat]
  cases hstate : result.state? with
  | none =>
    have hsame : generation (loads ++ [result]) = generation loads := by
      simp [generation, hstate]
    rw [hsame, Option.toList_none, List.append_nil]
    exact h
  | some next =>
    have hmore : generation (loads ++ [result]) = (generations first loads).length := by
      simp [length_generations, generation, hstate]
    rw [hmore]
    simp

end Generations

namespace ReloadLoop

/-- The state is the newest one after a signal if it was before. -/
theorem isNewest_step {first : Active} {loads : List LoadResult} {c : ReloadLoop}
    (h : IsNewest first loads c.state) (now : Nat) (signal : Signal) :
    IsNewest first (loads ++ (c.result? signal).toList) (c.step now signal).state := by
  rw [state_step]
  cases c.result? signal with
  | none =>
    rw [Option.toList_none, List.append_nil]
    exact h
  | some result => exact h.concat result

end ReloadLoop

/-! ### Readers -/

/-- Who reads the state: a handshake, for the credentials, or a request, for the specification. -/
inductive Reader where
  | handshake
  | request (r : Http.Request)
deriving Repr, Inhabited

/-- What a reader answers with. -/
inductive Answer where
  | certificate (credentials : Tls.Credentials)
  | reply (reply : Http.Reply) (outcome : Option Outcome)
deriving Repr, Inhabited

/-- The answer of a reader that has taken a state. -/
def Reader.answer : Reader → Active → Answer
  | .handshake, state => .certificate state.credentials
  | .request r, state =>
    let (reply, outcome) := Http.Webhook.answer .standard state.spec r
    .reply reply outcome

/-- A state that a reader has taken, and the number of its generation. -/
structure Snapshot where
  reader : Reader
  state : Active
  generation : Nat
deriving Repr, Inhabited

/-- A loop with its readers: the loads so far, the states that have been taken, in order, and the
answers that have been given. -/
structure Serving where
  loop : ReloadLoop
  loads : List LoadResult
  snapshots : List Snapshot
  answers : List (Snapshot × Answer)
deriving Repr, Inhabited

/-- What may happen: the loop wakes up at some time, a reader takes the state, or a reader answers
from the state that it has taken. -/
inductive Happening where
  | wake (now : Nat) (signal : Signal)
  | take (reader : Reader)
  | answer (i : Nat)
deriving Repr, Inhabited

namespace Serving

/-- A loop that nothing has happened to. -/
def start (loop : ReloadLoop) : Serving := ⟨loop, [], [], []⟩

/-- What is there after something has happened. -/
def step (s : Serving) : Happening → Serving
  | .wake now signal =>
    { s with
      loop := s.loop.step now signal
      loads := s.loads ++ (s.loop.result? signal).toList }
  | .take reader =>
    { s with snapshots := s.snapshots ++ [⟨reader, s.loop.state, generation s.loads⟩] }
  | .answer i =>
    match s.snapshots[i]? with
    | some taken => { s with answers := s.answers ++ [(taken, taken.reader.answer taken.state)] }
    | none => s

/-- What is there after several things have happened. -/
def run (s : Serving) (hs : List Happening) : Serving := hs.foldl step s

/-- The newest state is in force, the states that have been taken are generations that did not go
back, and answers were made from them. -/
structure IsSound (first : Active) (s : Serving) : Prop where
  newest : IsNewest first s.loads s.loop.state
  taken : ∀ t ∈ s.snapshots, (generations first s.loads)[t.generation]? = some t.state
  ordered : (s.snapshots.map (·.generation)).Pairwise (· ≤ ·)
  answered : ∀ a ∈ s.answers, a.1 ∈ s.snapshots ∧ a.2 = a.1.reader.answer a.1.state

variable {first : Active} {s : Serving}

theorem isSound_start (loop : ReloadLoop) : (start loop).IsSound loop.state where
  newest := isNewest_nil
  taken := by simp [start]
  ordered := List.Pairwise.nil
  answered := by simp [start]

theorem IsSound.wake (h : s.IsSound first) (now : Nat) (signal : Signal) :
    (s.step (.wake now signal)).IsSound first where
  newest := ReloadLoop.isNewest_step h.newest now signal
  taken := by
    -- A state that has been installed keeps its number when more are.
    intro t ht
    have htaken := h.taken t ht
    simp only [step]
    cases s.loop.result? signal with
    | none => simpa using htaken
    | some result =>
      rw [Option.toList_some, generations_concat]
      have hbound := (List.getElem?_eq_some_iff.mp htaken).1
      rwa [List.getElem?_append_left hbound]
  ordered := h.ordered
  answered := h.answered

theorem IsSound.take (h : s.IsSound first) (reader : Reader) :
    (s.step (.take reader)).IsSound first where
  newest := h.newest
  taken := by
    intro t ht
    rcases List.mem_append.mp ht with ht | ht
    · exact h.taken t ht
    · obtain rfl := List.mem_singleton.mp ht
      exact h.newest
  ordered := by
    have hlast : ∀ t ∈ s.snapshots, t.generation ≤ generation s.loads := by
      intro t ht
      have hbound := (List.getElem?_eq_some_iff.mp (h.taken t ht)).1
      rw [length_generations] at hbound
      omega
    simp only [step, List.map_append, List.map_cons, List.map_nil]
    refine List.pairwise_append.mpr ⟨h.ordered, List.pairwise_singleton _ _, ?_⟩
    simpa using hlast
  answered := by
    intro a ha
    obtain ⟨hmem, hanswer⟩ := h.answered a ha
    exact ⟨List.mem_append_left _ hmem, hanswer⟩

theorem IsSound.answer (h : s.IsSound first) (i : Nat) : (s.step (.answer i)).IsSound first := by
  simp only [step]
  split
  next t ht =>
    have hmem : t ∈ s.snapshots := List.mem_of_getElem? ht
    refine ⟨h.newest, h.taken, h.ordered, ?_⟩
    intro a ha
    rcases List.mem_append.mp ha with ha | ha
    · exact h.answered a ha
    · obtain rfl := List.mem_singleton.mp ha
      exact ⟨hmem, rfl⟩
  next => exact h

theorem IsSound.run (h : s.IsSound first) (hs : List Happening) : (s.run hs).IsSound first := by
  induction hs generalizing s with
  | nil => exact h
  | cons happening rest ih =>
    cases happening with
    | wake now signal => exact ih (h.wake now signal)
    | take reader => exact ih (h.take reader)
    | answer i => exact ih (h.answer i)

/-- However wake-ups, readers and answers follow each other, the state in force is the one that the
last successful load gave, or the first if there was none, and a load that gives none leaves it as
it is. What readers take is a state that was installed as a whole, and never one older than what
was taken before; every answer is made from one such state. -/
theorem isSound_run (state : Active) (p : Parameters) (listens : Bool) (begin : Nat)
    (hs : List Happening) :
    ((start (.start state p listens begin)).run hs).IsSound state ∧
      ∀ now result, result.state? = none →
        (((start (.start state p listens begin)).run hs).loop.step now (.deadline result)).state =
          ((start (.start state p listens begin)).run hs).loop.state := by
  have hstart : (start (.start state p listens begin)).IsSound state :=
    isSound_start (.start state p listens begin)
  refine ⟨hstart.run hs, ?_⟩
  intro now result hresult
  rw [ReloadLoop.state_step]
  unfold ReloadLoop.result?
  split
  · rfl
  · simp [Signal.result?, hresult]

/-- A second state, which injects what the first does not. -/
def secondState : Active := { (default : Active) with spec := ⟨[.record []], [], []⟩ }

/-- A handshake begins, a load succeeds, a request comes, a load fails, and both are answered. -/
def reloadedWhileRead : List Happening :=
  [.take .handshake, .wake 1 (.deadline (.loaded secondState)), .take (.request default),
    .wake 2 (.deadline .aborted), .answer 1, .answer 0]

theorem isSound_reloadedWhileRead :
    ((start (.start default .standard true 0)).run reloadedWhileRead).loop.state = secondState ∧
      (((start (.start default .standard true 0)).run reloadedWhileRead).snapshots.map
        (·.generation)) = [0, 1] ∧
      ((start (.start default .standard true 0)).run reloadedWhileRead).IsSound default ∧
      (((start (.start default .standard true 0)).run reloadedWhileRead).loop.step 3
        (.deadline (.failed (.credentials .unusableKey)))).state = secondState := by
  obtain ⟨hsound, hfailed⟩ := isSound_run default .standard true 0 reloadedWhileRead
  have hstate : ((start (.start default .standard true 0)).run reloadedWhileRead).loop.state =
      secondState := rfl
  exact ⟨hstate, rfl, hsound, (hfailed 3 (.failed (.credentials .unusableKey)) rfl).trans hstate⟩

end Serving

/-! ### A webhook among its files -/

namespace World

/-- The results of the loads of a world. -/
def loads (w : World) : List LoadResult := w.attempts.map (·.2)

/-- Whether the state in force is the newest one. -/
def ServesNewest (first : Active) (w : World) : Prop := IsNewest first w.loads w.loop.state

variable {first : Active} {w : World}

theorem servesNewest_start (files : Storage.FileStore) (p : Parameters)
    (watched : List Storage.Place) (listens : Bool) :
    (start files p watched first listens).ServesNewest first := isNewest_nil

theorem ServesNewest.signal (h : w.ServesNewest first) {signal : Signal}
    (hsignal : signal.result? = none) : (w.signal signal).ServesNewest first := by
  have hnone : w.loop.result? signal = none := by simp [ReloadLoop.result?, hsignal]
  have hstep := ReloadLoop.isNewest_step h w.now signal
  rw [hnone, Option.toList_none, List.append_nil] at hstep
  exact hstep

theorem ServesNewest.passDeadline (h : w.ServesNewest first) (hrunning : w.loop.isStopped = false) :
    w.passDeadline.ServesNewest first := by
  have hstep := ReloadLoop.isNewest_step h w.now (.deadline w.loadNow)
  rw [ReloadLoop.result?_of_running hrunning] at hstep
  have hloads : w.passDeadline.loads = w.loads ++ [w.loadNow] := by
    simp [loads, World.passDeadline, World.signal]
  unfold ServesNewest
  rw [hloads]
  exact hstep

theorem ServesNewest.passBeat (h : w.ServesNewest first) (path : String) :
    (w.passBeat path).ServesNewest first := by
  unfold World.passBeat
  split
  next files _ =>
    have hwritten : World.ServesNewest first { w with
        files
        queue := w.queue ++ w.events ((FileAction.write path healthMark).changes w.files) } := h
    exact hwritten.signal rfl
  next => exact h.signal rfl

theorem ServesNewest.nextDue (h : w.ServesNewest first) (hrunning : w.loop.isStopped = false)
    {limit : Nat} {w' : World} (hnext : w.nextDue? limit = some w') : w'.ServesNewest first := by
  rcases nextDue?_cases hnext with ⟨d, -, -, -, rfl⟩ | ⟨b, path, -, -, -, rfl⟩
  · exact ServesNewest.passDeadline (w := { w with now := d }) h hrunning
  · exact ServesNewest.passBeat (w := { w with now := b }) h path

theorem ServesNewest.next (h : w.ServesNewest first) {limit : Nat} {w' : World}
    (hnext : w.next? limit = some w') : w'.ServesNewest first := by
  obtain ⟨hrunning, hcases⟩ := next?_cases hnext
  rcases hcases with ⟨-, rfl⟩ | ⟨e, rest, -, -, rfl⟩ | ⟨-, -, -, rfl⟩ | ⟨-, hdue⟩
  · exact h.signal rfl
  · exact ServesNewest.signal (w := { w with queue := rest }) h rfl
  · exact h.signal rfl
  · exact h.nextDue hrunning hdue

/-- The newest state is in force whatever has been done to the files and however long ago. -/
theorem servesNewest_live (files : Storage.FileStore) (p : Parameters)
    (watched : List Storage.Place) (listens : Bool) (rounds : List (FileAction × Nat)) :
    ((start files p watched first listens).live rounds).ServesNewest first :=
  live_induction (fun _ _ h => h) (fun _ _ _ h hnext => h.next hnext) (fun _ _ h => h)
    (servesNewest_start files p watched listens) rounds

end World

end SidecarAdmission.Lifecycle
