import Mathlib.Data.Set.Card
import SidecarAdmission.Proofs.Lifecycle.Operation

/-!
A request to stop is never lost. The channel keeps only the newest request, but it counts all of
them, and so does every listener: one that has not received since it joined finds something exactly
if there has been a request since, or if the sender is gone. The loop takes whatever it finds for
a request to stop.
-/

set_option autoImplicit false
set_option relaxedAutoImplicit false

namespace SidecarAdmission.Lifecycle

/-! ### What is done to a channel -/

namespace StopChannel

inductive Action where
  | join (name : String)
  | request
  | receive (name : String)
  | leave (name : String)
  | close
deriving DecidableEq, Repr

/-- The listener that an action is one of. -/
def Action.listener? : Action → Option String
  | .join name | .receive name | .leave name => some name
  | .request | .close => none

/-- Whether an action needs the sender. -/
def Action.needsSender : Action → Bool
  | .join _ | .request | .close => true
  | .receive _ | .leave _ => false

/-- The channel after an action; there is nothing to receive for who does not listen. -/
def after (s : StopChannel) : Action → StopChannel
  | .join name => s.join name
  | .request => s.request
  | .receive name => ((s.receive? name).map Prod.snd).getD s
  | .leave name => s.leave name
  | .close => s.close

/-- The channel after actions, the oldest first. -/
def run (s : StopChannel) (actions : List Action) : StopChannel := actions.foldl after s

/-- Whether an action is possible. -/
def Allows (s : StopChannel) (a : Action) : Prop := a.needsSender = true → s.isOpen = true

/-- Whether actions are possible one after the other. -/
def AllowsAll (s : StopChannel) : List Action → Prop
  | [] => True
  | a :: rest => s.Allows a ∧ (s.after a).AllowsAll rest

instance (s : StopChannel) (a : Action) : Decidable (s.Allows a) := by
  unfold Allows
  infer_instance

def decideAllowsAll (s : StopChannel) : (actions : List Action) → Decidable (s.AllowsAll actions)
  | [] => inferInstanceAs (Decidable True)
  | a :: rest =>
    have := decideAllowsAll (s.after a) rest
    inferInstanceAs (Decidable (_ ∧ _))

instance (s : StopChannel) (actions : List Action) : Decidable (s.AllowsAll actions) :=
  s.decideAllowsAll actions

/-- Whether none of the actions is one of a listener. -/
def IsLeftAlone (name : String) (actions : List Action) : Prop :=
  ∀ a ∈ actions, a.listener? ≠ some name

/-- Whether a listener has joined in the course of actions and not left since. -/
def IsLive (actions : List Action) (name : String) : Prop :=
  ∃ earlier since, actions = earlier ++ .join name :: since ∧ .leave name ∉ since

variable {s : StopChannel} {a : Action} {actions more : List Action} {name : String}

@[simp] theorem run_append : s.run (actions ++ more) = (s.run actions).run more :=
  List.foldl_append

@[simp] theorem run_cons : s.run (a :: actions) = (s.after a).run actions := rfl

theorem allowsAll_append :
    s.AllowsAll (actions ++ more) ↔ s.AllowsAll actions ∧ (s.run actions).AllowsAll more := by
  induction actions generalizing s with
  | nil => simp [AllowsAll, run]
  | cons a rest ih =>
    rw [List.cons_append, AllowsAll, AllowsAll, ih, run_cons, and_assoc]

/-! ### Senders and listeners -/

/-- The sender stays until it goes. -/
theorem isOpen_run : (s.run actions).isOpen = true ↔ s.isOpen = true ∧ .close ∉ actions := by
  induction actions generalizing s with
  | nil => simp [run]
  | cons a rest ih =>
    rw [run_cons, ih]
    have hstep : (s.after a).isOpen = true ↔ s.isOpen = true ∧ a ≠ .close := by
      cases a with
      | join | leave | close => simp [after, join, leave, close]
      | request =>
        rw [after, request]
        split <;> simp
      | receive name =>
        rw [after, receive?]
        cases s.listeners.lookup name <;> simp
    rw [hstep, List.mem_cons, not_or, and_assoc, ne_comm]

private theorem lookup_leave (s : StopChannel) {name other : String} (h : other ≠ name) :
    (s.leave other).listeners.lookup name = s.listeners.lookup name := by
  unfold leave
  induction s.listeners with
  | nil => rfl
  | cons l rest ih =>
    obtain ⟨n, passed⟩ := l
    by_cases hn : n = other
    · subst n
      have hname : (name == other) = false := by simp [h.symm]
      simp [List.lookup_cons, hname, ih]
    · cases hname : name == n <;> simp [hn, List.lookup_cons, hname, ih]

private theorem lookup_map_passed (listeners : List (String × Nat)) {name other : String}
    (passed : Nat) (h : other ≠ name) :
    (listeners.map fun l => if l.1 = other then (other, passed) else l).lookup name =
      listeners.lookup name := by
  induction listeners with
  | nil => rfl
  | cons l rest ih =>
    obtain ⟨n, p⟩ := l
    by_cases hn : n = other
    · have hname : (name == n) = false := by simp [hn, h.symm]
      have hother : (name == other) = false := by simp [h.symm]
      simp [hn, List.lookup_cons, hother, ih]
    · cases hname : name == n <;> simp [hn, List.lookup_cons, hname, ih]

/-- What others do leaves a listener where it is. -/
theorem lookup_after (h : a.listener? ≠ some name) :
    (s.after a).listeners.lookup name = s.listeners.lookup name := by
  cases a with
  | join other =>
    have hother : other ≠ name := fun hsame => h (congrArg some hsame)
    have hskip : (name == other) = false := by simp [hother.symm]
    rw [after, join, List.lookup_cons, hskip]
    exact lookup_leave s hother
  | request =>
    rw [after, request]
    split <;> rfl
  | receive other =>
    have hother : other ≠ name := fun hsame => h (congrArg some hsame)
    rw [after, receive?]
    cases s.listeners.lookup other with
    | none => rfl
    | some passed => exact lookup_map_passed s.listeners _ hother
  | leave other => exact lookup_leave s fun hsame => h (congrArg some hsame)
  | close => rfl

/-- Every request counts as long as someone listens. -/
theorem sent_after {passed : Nat} (h : s.listeners.lookup name = some passed) :
    (s.after a).sent = s.sent + if a = .request then 1 else 0 := by
  cases a with
  | join | leave | close => rfl
  | request =>
    have hlisteners : s.listeners.isEmpty = false := by
      cases hs : s.listeners with
      | nil => simp [hs] at h
      | cons => rfl
    simp [after, request, hlisteners]
  | receive other =>
    rw [after, receive?]
    cases s.listeners.lookup other <;> rfl

theorem lookup_run (h : IsLeftAlone name actions) :
    (s.run actions).listeners.lookup name = s.listeners.lookup name := by
  induction actions generalizing s with
  | nil => rfl
  | cons a rest ih =>
    obtain ⟨ha, hrest⟩ := List.forall_mem_cons.mp h
    rw [run_cons, ih hrest, lookup_after ha]

theorem sent_run {passed : Nat} (h : IsLeftAlone name actions)
    (hlistens : s.listeners.lookup name = some passed) :
    (s.run actions).sent = s.sent + actions.count .request := by
  induction actions generalizing s with
  | nil => rfl
  | cons a rest ih =>
    obtain ⟨ha, hrest⟩ := List.forall_mem_cons.mp h
    have hstill : (s.after a).listeners.lookup name = some passed :=
      (lookup_after ha).trans hlistens
    rw [run_cons, ih hrest hstill, sent_after hlistens, List.count_cons]
    simp only [beq_iff_eq]
    omega

/-! ### What a listener finds -/

/-- What a listener finds after so many requests. -/
def told (requests : Nat) (isOpen : Bool) : Reception :=
  if requests = 0 then if isOpen then .empty else .closed
  else if requests = 1 then .stop
  else .lagged (requests - 1)

theorem told_ne_empty_iff {requests : Nat} {isOpen : Bool} :
    told requests isOpen ≠ .empty ↔ 0 < requests ∨ isOpen = false := by
  unfold told
  split
  · cases isOpen <;> simp_all
  · split
    · simp_all
    · simp only [ne_eq, reduceCtorEq, not_false_eq_true, true_iff]
      omega

theorem receiveAt_of_sent {passed requests : Nat} (h : s.sent = passed + requests) :
    (s.receiveAt passed).1 = told requests s.isOpen := by
  unfold receiveAt told
  rcases requests with _ | _ | more
  · simp [h]
  · simp [h]
  · have hmany : ¬ s.sent ≤ passed := by omega
    have hlagged : s.sent ≠ passed + 1 := by omega
    have hmissed : s.sent - 1 - passed = more + 1 + 1 - 1 := by omega
    simp [hmany, hlagged, hmissed]

/-- What a listener finds that has joined and been left alone since. -/
theorem exists_receive?_of_join (h : IsLeftAlone name actions) :
    ∃ channel, ((s.join name).run actions).receive? name =
      some (told (actions.count .request) ((s.join name).run actions).isOpen, channel) := by
  have hjoined : (s.join name).listeners.lookup name = some s.sent := by simp [join]
  have hlistens := (lookup_run h).trans hjoined
  have hsent : ((s.join name).run actions).sent = s.sent + actions.count .request :=
    sent_run h hjoined
  have hfound := receiveAt_of_sent hsent
  rw [receive?, hlistens, Option.map_some, ← hfound]
  exact ⟨_, rfl⟩

/-- A listener is woken up exactly if there has been a request since it joined, or if the sender is
gone. -/
theorem exists_receive?_iff (hopen : s.isOpen = true) (h : IsLeftAlone name actions) :
    ∃ found channel, ((s.join name).run actions).receive? name = some (found, channel) ∧
      (found ≠ .empty ↔ .request ∈ actions ∨ .close ∈ actions) := by
  obtain ⟨channel, hreceive⟩ := exists_receive?_of_join (s := s) h
  refine ⟨_, channel, hreceive, ?_⟩
  have hclosed : ((s.join name).run actions).isOpen = false ↔ .close ∈ actions := by
    have hstays : ((s.join name).run actions).isOpen = true ↔
        (s.join name).isOpen = true ∧ .close ∉ actions := isOpen_run
    rw [← Bool.not_eq_true, hstays]
    simp [join, hopen]
  rw [told_ne_empty_iff, List.count_pos_iff, hclosed]

/-! ### Who listens -/

def names (s : StopChannel) : List String := s.listeners.map Prod.fst

theorem names_leave : (s.leave name).names = s.names.filter (· != name) := by
  rw [names, names, List.filter_map]
  rfl

theorem names_after : (s.after a).names =
    match a with
    | .join name => name :: s.names.filter (· != name)
    | .leave name => s.names.filter (· != name)
    | .request | .receive _ | .close => s.names := by
  cases a with
  | join name => exact congrArg (name :: ·) names_leave
  | leave name => exact names_leave
  | request =>
    rw [after, request]
    split <;> rfl
  | close => rfl
  | receive name =>
    rw [after, receive?]
    cases s.listeners.lookup name with
    | none => rfl
    | some passed =>
      simp only [names, Option.map_some, Option.getD_some, List.map_map]
      refine List.map_congr_left fun l _ => ?_
      simp only [Function.comp_apply]
      split
      next hsame => exact hsame.symm
      next => rfl

theorem nodup_names_after (h : s.names.Nodup) : (s.after a).names.Nodup := by
  rw [names_after]
  cases a with
  | join name => exact List.nodup_cons.mpr ⟨by simp, h.filter _⟩
  | leave name => exact h.filter _
  | request | receive | close => exact h

theorem mem_names_after : name ∈ (s.after a).names ↔
    a = .join name ∨ name ∈ s.names ∧ a ≠ .leave name := by
  rw [names_after]
  cases a with
  | join other =>
    by_cases hsame : name = other
    · simp [hsame]
    · simp [hsame, Ne.symm hsame]
  | leave other => simp [ne_comm]
  | request | receive | close => simp

theorem isLive_concat : IsLive (actions ++ [a]) name ↔
    a = .join name ∨ IsLive actions name ∧ a ≠ .leave name := by
  constructor
  · rintro ⟨earlier, since, hsplit, hstays⟩
    rcases List.eq_nil_or_concat since with rfl | ⟨since, last, rfl⟩
    · exact .inl (List.append_inj_right' hsplit rfl |> List.singleton_inj.mp)
    · have hsame : actions ++ [a] = (earlier ++ .join name :: since) ++ [last] := by simpa using hsplit
      obtain ⟨rfl, hlast⟩ := List.append_inj' hsame rfl
      obtain rfl := List.singleton_inj.mp hlast
      rw [List.concat_eq_append, List.mem_append, not_or, List.mem_singleton] at hstays
      exact .inr ⟨⟨earlier, since, rfl, hstays.1⟩, fun hleave => hstays.2 hleave.symm⟩
  · rintro (rfl | ⟨⟨earlier, since, rfl, hstays⟩, hleave⟩)
    · exact ⟨actions, [], rfl, List.not_mem_nil⟩
    · refine ⟨earlier, since ++ [a], by simp, ?_⟩
      simp [hstays, hleave.symm]

/-- The listeners are those that have joined and not left, each once. -/
theorem nodup_and_mem_names_run (actions : List Action) :
    (empty.run actions).names.Nodup ∧
      ∀ name, name ∈ (empty.run actions).names ↔ IsLive actions name := by
  induction actions using List.reverseRecOn with
  | nil =>
    refine ⟨List.nodup_nil, fun name => iff_of_false List.not_mem_nil ?_⟩
    rintro ⟨earlier, since, hsplit, -⟩
    simp at hsplit
  | append_singleton actions a ih =>
    rw [run_append]
    refine ⟨nodup_names_after ih.1, fun name => ?_⟩
    rw [isLive_concat, ← ih.2 name]
    exact mem_names_after

theorem listenerCount_run (actions : List Action) :
    (empty.run actions).listenerCount = {name | IsLive actions name}.ncard := by
  obtain ⟨hnodup, hmem⟩ := nodup_and_mem_names_run actions
  have hset : {name | IsLive actions name} = ↑(empty.run actions).names.toFinset := by
    ext name
    simp [hmem]
  rw [hset, Set.ncard_coe_finset, List.toFinset_card_of_nodup hnodup, names, List.length_map]
  rfl

/-- A request that no one listens to is as good as none. -/
theorem request_of_unheard (h : s.listenerCount = 0) : s.request = s := by
  have hnone : s.listeners = [] := List.length_eq_zero_iff.mp h
  simp [request, hnone]

end StopChannel

/-! ### The loop as a listener -/

/-- A loop and the channel in which it listens. -/
structure Stoppable where
  channel : StopChannel
  operation : Operation

namespace Stoppable

open StopChannel (Action IsLeftAlone IsLive)

/-- What may happen next, with what is done to the channel. The loop receives by its own name, and
takes whatever it finds for a request to stop; it leaves when it has stopped. -/
inductive Step (own : String) (mayPass : Operation → Nat → Prop) (s : Stoppable) :
    List Action → Stoppable → Prop where
  | act (a : Action) (may : s.channel.Allows a) (others : a.listener? ≠ some own) :
    Step own mayPass s [a] ⟨s.channel.after a, s.operation⟩
  | operate (deeds : List Deed) (o : Operation) (step : Operation.Step mayPass s.operation deeds o)
      (works : ∀ deed ∈ deeds, deed.stops = false) : Step own mayPass s [] ⟨s.channel, o⟩
  | stop (found : Reception) (channel : StopChannel) (waits : s.operation.Waits)
      (finds : s.channel.receive? own = some (found, channel)) (ready : found ≠ .empty) :
    Step own mayPass s [.receive own] ⟨channel, s.operation.wake .stop⟩
  | leave (stopped : s.operation.loop.isStopped = true) :
    Step own mayPass s [.leave own] ⟨s.channel.leave own, s.operation⟩

/-- What may become of a loop and its channel, with all that has been done to the channel. -/
inductive Runs (own : String) (mayPass : Operation → Nat → Prop) (first : Stoppable) :
    List Action → Stoppable → Prop where
  | begin : Runs own mayPass first [] first
  | step {done actions : List Action} {s s' : Stoppable} (h : Runs own mayPass first done s)
      (hstep : Step own mayPass s actions s') : Runs own mayPass first (done ++ actions) s'

variable {own : String} {mayPass : Operation → Nat → Prop} {first s : Stoppable}
  {done : List Action}

/-- Only its stop ends a loop. -/
theorem isStopped_of_works {o o' : Operation} {deeds : List Deed}
    (h : Operation.Step mayPass o deeds o') (hworks : ∀ deed ∈ deeds, deed.stops = false) :
    o'.loop.isStopped = o.loop.isStopped := by
  cases h with
  | around | request | pass | beginLoad => rfl
  | event e waits => exact (ReloadLoop.isStopped_step waits.2 o.now _).trans waits.2.symm
  | eventsEnd waits => exact (ReloadLoop.isStopped_step waits.2 o.now _).trans waits.2.symm
  | beat _ _ _ _ waits => exact (ReloadLoop.isStopped_step waits.2 o.now _).trans waits.2.symm
  | endLoad result loads =>
    cases hstopped : o.loop.isStopped with
    | false => exact ReloadLoop.isStopped_step hstopped o.now _
    | true =>
      have hsame : (o.endLoad result).loop = o.loop :=
        ReloadLoop.step_of_stopped hstopped o.now (.deadline result)
      rw [hsame, hstopped]
  | stop found =>
    have hstops := hworks _ (List.mem_singleton_self _)
    contradiction

/-- Until it stops, a loop leaves its channel to the others. -/
theorem Runs.listens (h : Runs own mayPass first done s)
    (hrunning : s.operation.loop.isStopped = false) :
    s.channel = first.channel.run done ∧ IsLeftAlone own done := by
  induction h with
  | begin => exact ⟨rfl, List.forall_mem_nil _⟩
  | @step done actions s s' _ hstep ih =>
    cases hstep with
    | act a may others =>
      obtain ⟨hchannel, halone⟩ := ih hrunning
      refine ⟨?_, List.forall_mem_append.mpr ⟨halone, List.forall_mem_singleton.mpr others⟩⟩
      rw [StopChannel.run_append, ← hchannel]
      rfl
    | operate deeds o step works =>
      rw [List.append_nil]
      exact ih ((isStopped_of_works step works).symm.trans hrunning)
    | stop found channel waits =>
      have hstopped := ReloadLoop.isStopped_step waits.2 s.operation.now .stop
      exact absurd (hstopped.symm.trans hrunning) (by decide)
    | leave stopped => exact absurd (stopped.symm.trans hrunning) (by decide)

variable {channel : StopChannel} {o : Operation}

/-- A loop that has not stopped is woken up exactly if there has been a request since it joined, or
if the sender is gone. -/
theorem Runs.exists_receive?_iff (h : Runs own mayPass ⟨channel.join own, o⟩ done s)
    (hopen : channel.isOpen = true) (hrunning : s.operation.loop.isStopped = false) :
    ∃ found after, s.channel.receive? own = some (found, after) ∧
      (found ≠ .empty ↔ .request ∈ done ∨ .close ∈ done) := by
  obtain ⟨hchannel, halone⟩ := h.listens hrunning
  rw [hchannel]
  exact StopChannel.exists_receive?_iff hopen halone

/-- Where a loop that waits has been asked to stop, it may stop. -/
theorem Runs.exists_stop (h : Runs own mayPass ⟨channel.join own, o⟩ done s)
    (hopen : channel.isOpen = true) (hasked : .request ∈ done ∨ .close ∈ done)
    (hwaits : s.operation.Waits) :
    ∃ s', Step own mayPass s [.receive own] s' ∧ s'.operation.loop.isStopped = true := by
  obtain ⟨found, after, hfinds, hready⟩ := h.exists_receive?_iff hopen hwaits.2
  exact ⟨⟨after, s.operation.wake .stop⟩, .stop found after hwaits hfinds (hready.mpr hasked),
    ReloadLoop.isStopped_step hwaits.2 s.operation.now .stop⟩

/-- A loop stops only if it has been asked to. -/
theorem Runs.asked_of_stopped (h : Runs own mayPass ⟨channel.join own, o⟩ done s)
    (hopen : channel.isOpen = true) (hrunning : o.loop.isStopped = false)
    (hstopped : s.operation.loop.isStopped = true) : .request ∈ done ∨ .close ∈ done := by
  induction h with
  | begin => exact absurd (hrunning.symm.trans hstopped) (by decide)
  | @step done actions s s' hruns hstep ih =>
    have hbefore : .request ∈ done ∨ .close ∈ done := by
      cases hstep with
      | act => exact ih hstopped
      | operate deeds o step works => exact ih ((isStopped_of_works step works).symm.trans hstopped)
      | stop found channel waits finds ready =>
        obtain ⟨_, _, hfinds, hready⟩ := hruns.exists_receive?_iff hopen waits.2
        obtain ⟨rfl, rfl⟩ := Prod.mk.inj (Option.some.inj (finds.symm.trans hfinds))
        exact hready.mp ready
      | leave stopped => exact ih stopped
    exact hbefore.imp (List.mem_append_left actions) (List.mem_append_left actions)

end Stoppable

namespace StopChannel

/-- No request to stop is lost, whatever is done to a channel. A listener that has joined and not
received since is woken up exactly if there has been a request since, or if the sender is gone; the
listeners are counted; a request that no one listens to changes nothing for whoever comes later; and
a loop that has joined can stop, whenever it waits, from the first request on or from when the
sender is gone, and not before. -/
theorem stop_never_lost {actions : List Action} (h : empty.AllowsAll actions) :
    (∀ earlier name since, actions = earlier ++ .join name :: since → IsLeftAlone name since →
      ∃ found channel, (empty.run actions).receive? name = some (found, channel) ∧
        (found ≠ .empty ↔ .request ∈ since ∨ .close ∈ since)) ∧
    (empty.run actions).listenerCount = {name | IsLive actions name}.ncard ∧
    ((∀ name, ¬ IsLive actions name) →
      ∀ more, empty.run (actions ++ .request :: more) = empty.run (actions ++ more)) ∧
    ∀ own mayPass o done s, (empty.run actions).Allows (.join own) → o.loop.isStopped = false →
      Stoppable.Runs own mayPass ⟨(empty.run actions).join own, o⟩ done s →
        (.request ∈ done ∨ .close ∈ done → s.operation.Waits →
          ∃ s', Stoppable.Step own mayPass s [.receive own] s' ∧
            s'.operation.loop.isStopped = true) ∧
        (s.operation.loop.isStopped = true → .request ∈ done ∨ .close ∈ done) := by
  refine ⟨fun earlier name since hsplit halone => ?_, listenerCount_run actions,
    fun hnone more => ?_, fun own mayPass o done s hmay hrunning hruns => ?_⟩
  · subst hsplit
    have hopen : (empty.run earlier).isOpen = true := (allowsAll_append.mp h).2.1 rfl
    rw [run_append]
    exact exists_receive?_iff hopen halone
  · have hempty : {name | IsLive actions name} = ∅ := Set.eq_empty_iff_forall_notMem.mpr hnone
    have hcount : (empty.run actions).listenerCount = 0 := by
      rw [listenerCount_run, hempty, Set.ncard_empty]
    rw [run_append, run_append, run_cons, after, request_of_unheard hcount]
  · have hopen := hmay rfl
    exact ⟨hruns.exists_stop hopen, hruns.asked_of_stopped hopen hrunning⟩

/-- A request that no one listens to, and two that the first listener misses or finds. -/
def overwritten : List Action :=
  [.request, .join "first", .join "second", .request, .receive "second", .request, .leave "second"]

/-- The first listener is told, and so is a loop that joins later, of two more requests, before the
sender is gone. -/
theorem stop_never_lost_overwritten :
    empty.AllowsAll overwritten ∧
    (∃ found channel, (empty.run overwritten).receive? "first" = some (found, channel) ∧
      found ≠ .empty) ∧
    {name | IsLive overwritten name}.ncard = 1 ∧
    empty.run ([.join "a", .leave "a"] ++ [.request, .join "b"]) =
      empty.run ([.join "a", .leave "a"] ++ [.join "b"]) ∧
    ∃ s s', Stoppable.Runs "loop" (fun _ _ => True)
        ⟨(empty.run overwritten).join "loop", .begin (.empty []) 0 default 10 true 5 "/health"⟩
        [.request, .request, .close] s ∧
      Stoppable.Step "loop" (fun _ _ => True) s [.receive "loop"] s' ∧
      s'.operation.loop.isStopped = true := by
  have hallows : empty.AllowsAll overwritten := by decide
  obtain ⟨hlisteners, hcount, -, hloops⟩ := stop_never_lost hallows
  obtain ⟨found, channel, hfound, hready⟩ := hlisteners [.request] "first" _ rfl (by
    unfold IsLeftAlone
    decide)
  have hleft : empty.AllowsAll [.join "a", .leave "a"] := by decide
  obtain ⟨-, -, hunheard, -⟩ := stop_never_lost hleft
  have hnone : ∀ name, ¬ IsLive [.join "a", .leave "a"] name := by
    intro name hlive
    exact List.not_mem_nil ((nodup_and_mem_names_run [.join "a", .leave "a"]).2 name |>.mpr hlive)
  have hfirst : Stoppable.Runs "loop" (fun _ _ => True)
      ⟨(empty.run overwritten).join "loop", .begin (.empty []) 0 default 10 true 5 "/health"⟩ _ _ :=
    .step .begin (.act .request (fun _ => by decide) (by decide))
  have hsecond := hfirst.step (.act .request (fun _ => by decide) (by decide))
  have hclosed := hsecond.step (.act .close (fun _ => by decide) (by decide))
  obtain ⟨hstops, -⟩ := hloops "loop" _ _ _ _ (fun _ => by decide) rfl hclosed
  obtain ⟨s', hstep, hstopped⟩ := hstops (.inl (by decide)) ⟨rfl, rfl⟩
  exact ⟨hallows, ⟨found, channel, hfound, hready.mpr (.inl (by decide))⟩, hcount.symm,
    hunheard hnone [.join "b"], _, s', hclosed, hstep, hstopped⟩

end StopChannel

end SidecarAdmission.Lifecycle
