import SidecarAdmission.Proofs.Lifecycle.Run

/-!
Which loads a run leads to, told from its events and requests to stop alone: a load comes when for a
full delay no other event has called for one, unless the loop has been told to stop by then. Nothing
else that happens in a run causes a load, keeps one from happening or moves it.
-/

set_option autoImplicit false
set_option relaxedAutoImplicit false

namespace SidecarAdmission.Lifecycle

open SidecarAdmission.Storage

namespace Notice

/-- The time of a notice if it is an event that calls for a reload. -/
def callTime? : Nat × Notice → Option Nat
  | (t, .event e) => if e.callsForReload then some t else none
  | (_, .stop) => none

/-- The time of a notice if it is a request to stop. -/
def stopTime? : Nat × Notice → Option Nat
  | (_, .event _) => none
  | (t, .stop) => some t

/-- The times of the events that call for a reload. -/
def calls (past : List (Nat × Notice)) : List Nat := past.filterMap callTime?

/-- The times of the requests to stop. -/
def stops (past : List (Nat × Notice)) : List Nat := past.filterMap stopTime?

variable {past more : List (Nat × Notice)} {now : Nat}

theorem calls_append : calls (past ++ more) = calls past ++ calls more := List.filterMap_append

theorem stops_append : stops (past ++ more) = stops past ++ stops more := List.filterMap_append

theorem exists_of_mem_calls {t : Nat} (h : t ∈ calls past) : ∃ n ∈ past, n.1 = t := by
  obtain ⟨⟨t', notice⟩, hn, htime⟩ := List.mem_filterMap.mp h
  refine ⟨_, hn, ?_⟩
  cases notice with
  | event e =>
    simp only [callTime?] at htime
    split at htime
    · exact Option.some.inj htime
    · contradiction
  | stop => contradiction

theorem exists_of_mem_stops {t : Nat} (h : t ∈ stops past) : ∃ n ∈ past, n.1 = t := by
  obtain ⟨⟨t', notice⟩, hn, htime⟩ := List.mem_filterMap.mp h
  refine ⟨_, hn, ?_⟩
  cases notice with
  | event e => contradiction
  | stop => exact Option.some.inj htime

/-- The calls among events that come at one time. -/
theorem calls_noticesOf (now : Nat) (events : List FileEvent) :
    calls (World.noticesOf now events) =
      (events.filter (·.callsForReload)).map fun _ => now := by
  induction events with
  | nil => rfl
  | cons e rest ih =>
    have hcons : calls (World.noticesOf now (e :: rest)) =
        (callTime? (now, .event e)).toList ++ calls (World.noticesOf now rest) := by
      simp only [calls, World.noticesOf, List.map_cons, List.filterMap_cons]
      cases callTime? (now, .event e) <;> rfl
    rw [hcons, ih]
    cases hcall : e.callsForReload <;> simp [callTime?, hcall]

theorem stops_noticesOf (now : Nat) (events : List FileEvent) :
    stops (World.noticesOf now events) = [] := by
  rw [stops, List.filterMap_eq_nil_iff]
  intro n hn
  obtain ⟨e, -, rfl⟩ := List.mem_map.mp hn
  rfl

end Notice

namespace Debounce

variable {d t : Nat} {ts more stopped : List Nat}

/-- When a delay of `d` has passed after a call and none has followed within it. -/
def ends (d : Nat) : List Nat → List Nat
  | [] => []
  | t :: later => if ∀ t' ∈ later, t + d < t' then (t + d) :: ends d later else ends d later

theorem mem_ends_iff {x : Nat} :
    x ∈ ends d ts ↔
      ∃ before t later, ts = before ++ t :: later ∧ (∀ t' ∈ later, t + d < t') ∧ x = t + d := by
  induction ts with
  | nil => simp [ends]
  | cons a rest ih =>
    have hcons : x ∈ ends d (a :: rest) ↔
        ((∀ t' ∈ rest, a + d < t') ∧ x = a + d) ∨ x ∈ ends d rest := by
      rw [ends]
      split
      next hlast => rw [List.mem_cons, and_iff_right hlast]
      next hlast => simp [hlast]
    rw [hcons, ih]
    constructor
    · rintro (⟨hlast, rfl⟩ | ⟨before, t, later, rfl, hlast, rfl⟩)
      · exact ⟨[], a, rest, rfl, hlast, rfl⟩
      · exact ⟨a :: before, t, later, rfl, hlast, rfl⟩
    · rintro ⟨before, t, later, hsplit, hlast, rfl⟩
      cases before with
      | nil =>
        obtain ⟨rfl, rfl⟩ := List.cons.inj hsplit
        exact .inl ⟨hlast, rfl⟩
      | cons b before =>
        obtain ⟨rfl, rfl⟩ := List.cons.inj hsplit
        exact .inr ⟨before, t, later, rfl, hlast, rfl⟩

/-- A call undoes what would have ended at its time or later. -/
theorem ends_concat (d : Nat) (ts : List Nat) (t : Nat) :
    ends d (ts ++ [t]) = (ends d ts).filter (· < t) ++ [t + d] := by
  induction ts with
  | nil => simp [ends]
  | cons a rest ih =>
    rw [List.cons_append, ends, ends, ih]
    by_cases hlast : ∀ t' ∈ rest, a + d < t'
    · by_cases ht : a + d < t
      · have hboth : ∀ t' ∈ rest ++ [t], a + d < t' := by
          intro t' ht'
          rcases List.mem_append.mp ht' with hrest | hlast'
          · exact hlast t' hrest
          · rwa [List.mem_singleton.mp hlast']
        rw [if_pos hlast, if_pos hboth, List.filter_cons_of_pos (by simpa using ht)]
        rfl
      · have hnot : ¬ ∀ t' ∈ rest ++ [t], a + d < t' := fun hboth =>
          ht (hboth t (List.mem_append_right rest (List.mem_singleton.mpr rfl)))
        rw [if_pos hlast, if_neg hnot, List.filter_cons_of_neg (by simpa using ht)]
    · have hnot : ¬ ∀ t' ∈ rest ++ [t], a + d < t' := fun hboth =>
        hlast fun t' ht' => hboth t' (List.mem_append_left [t] ht')
      rw [if_neg hlast, if_neg hnot]

/-- What ends before a time does not depend on the calls from that time on. -/
theorem filter_ends_append {s : Nat} (h : ∀ t ∈ more, s ≤ t) :
    (ends d (ts ++ more)).filter (· < s) = (ends d ts).filter (· < s) := by
  induction more generalizing ts with
  | nil => rw [List.append_nil]
  | cons t rest ih =>
    have hle : s ≤ t := h t List.mem_cons_self
    have hsingle : ts ++ t :: rest = (ts ++ [t]) ++ rest := by
      rw [List.append_assoc, List.singleton_append]
    have hout : [t + d].filter (· < s) = [] := by
      have hnot : ¬ t + d < s := by omega
      simp [hnot]
    rw [hsingle, ih fun t' ht' => h t' (List.mem_cons_of_mem t ht'), ends_concat,
      List.filter_append, hout, List.append_nil, List.filter_filter]
    refine List.filter_congr fun x _ => ?_
    by_cases hx : x < s
    · have hxt : x < t := Nat.lt_of_lt_of_le hx hle
      simp [hx, hxt]
    · simp [hx]

/-- Whether no call and no request to stop comes at the very end of a delay that is running then:
one that no call has cut short and no request to stop. -/
def IsClear (d : Nat) (calls stops : List Nat) : Prop :=
  ∀ before t later, calls = before ++ t :: later → (∀ t' ∈ later, t + d ≤ t') →
    (∀ s ∈ stops, t + d ≤ s) → t + d ∉ later ∧ t + d ∉ stops

/-- What comes later does not matter to what is clear now. -/
theorem IsClear.of_append {now : Nat} {moreStops : List Nat}
    (h : IsClear d (ts ++ more) (stopped ++ moreStops)) (hts : ∀ t ∈ ts, t ≤ now)
    (hstopped : ∀ s ∈ stopped, s ≤ now) (hmore : ∀ t ∈ more, now ≤ t)
    (hmoreStops : ∀ s ∈ moreStops, now ≤ s) : IsClear d ts stopped := by
  intro before t later hsplit hlater hstops
  -- At the end of a delay that lies in the past, what comes later cannot have cut it short.
  have hfull : t + d ≤ now → t + d ∉ later ++ more ∧ t + d ∉ stopped ++ moreStops := by
    intro hpast
    refine h before t (later ++ more) ?_ ?_ ?_
    · rw [hsplit, List.append_assoc, List.cons_append]
    · intro t' ht'
      rcases List.mem_append.mp ht' with hin | hin
      · exact hlater t' hin
      · exact Nat.le_trans hpast (hmore t' hin)
    · intro s hs
      rcases List.mem_append.mp hs with hin | hin
      · exact hstops s hin
      · exact Nat.le_trans hpast (hmoreStops s hin)
  constructor
  · intro hin
    have hts' : t + d ∈ ts := by
      rw [hsplit]
      exact List.mem_append_right before (List.mem_cons_of_mem t hin)
    exact (hfull (hts _ hts')).1 (List.mem_append_left more hin)
  · intro hin
    exact (hfull (hstopped _ hin)).2 (List.mem_append_left moreStops hin)

end Debounce

namespace World

open Debounce Notice

/-- When loads have been attempted. -/
def attemptTimes (w : World) : List Nat := w.attempts.map (·.1)

/-- The calls that wait in the queue; they have all come now. -/
def queuedCalls (w : World) : List Nat :=
  (w.queue.filter (·.callsForReload)).map fun _ => w.now

/-- What holds of a world after what it has been told. While its loop runs, the attempts and the
deadline are the ends of what has been taken from the queue; once it has stopped, the attempts are
the ends before the first request to stop. -/
structure IsDebounced (d : Nat) (past : List (Nat × Notice)) (w : World) : Prop where
  attempted : ∀ x ∈ w.attemptTimes, x ≤ w.now
  unheard : w.loop.listens = false → w.queue = [] ∧ w.hasSender = false
  unwatched : w.hasSender = false → w.watched = []
  asked : w.loop.isStopped = false → (stops past = [] ↔ w.stopRequested = false)
  atOnce : w.loop.isStopped = false → ∀ s ∈ stops past, s = w.now
  running : w.loop.isStopped = false →
    ∃ taken, calls past = taken ++ w.queuedCalls ∧
      ends d taken = w.attemptTimes ++ w.loop.deadline.toList
  stopped : w.loop.isStopped = true →
    ∃ s ∈ stops past, s ≤ w.now ∧ (∀ s' ∈ stops past, s ≤ s') ∧
      w.attemptTimes = (ends d (calls past)).filter (· < s)

variable {first w w' : World} {past : List (Nat × Notice)} {d : Nat} {p : Parameters}

theorem Runs.notices_le (h : Runs first past w) : ∀ n ∈ past, n.1 ≤ w.now := by
  have hnotices : ∀ {past : List (Nat × Notice)} {now : Nat} (events : List FileEvent),
      (∀ n ∈ past, n.1 ≤ now) → ∀ n ∈ past ++ noticesOf now events, n.1 ≤ now := by
    intro past now events hpast n hn
    rcases List.mem_append.mp hn with hin | hin
    · exact hpast n hin
    · obtain ⟨e, -, rfl⟩ := List.mem_map.mp hin
      exact Nat.le_refl now
  induction h with
  | begin => simp
  | send _ e _ ih => exact hnotices [e] ih
  | act _ a ih => exact hnotices _ ih
  | ask _ ih =>
    intro n hn
    rcases List.mem_append.mp hn with hin | hin
    · exact ih n hin
    · obtain rfl := List.mem_singleton.mp hin
      exact Nat.le_refl _
  | close _ _ ih => exact ih
  | request _ r ih => exact ih
  | abort _ aborts ih => exact ih
  | wake _ hwakes ih =>
    obtain ⟨-, hsame, -⟩ := hwakes.exists_signal
    rw [hsame]
    exact hnotices _ ih
  | pass _ instant later _ ih =>
    intro n hn
    exact Nat.le_trans (ih n hn) later

theorem isDebounced_start (files : FileStore) (p : Parameters) (watched : List Place)
    (state : Active) : IsDebounced d [] (start files p watched state true) where
  attempted := by simp [attemptTimes, start]
  unheard := by
    intro h
    contradiction
  unwatched := by
    intro h
    contradiction
  asked := by
    intro _
    exact ⟨fun _ => rfl, fun _ => rfl⟩
  atOnce := by simp [stops]
  running := by
    intro _
    exact ⟨[], rfl, rfl⟩
  stopped := by
    intro h
    contradiction

/-- Events come into the queue now. -/
theorem IsDebounced.hear (h : IsDebounced d past w) (files : FileStore) (events : List FileEvent)
    (hunheard : w.hasSender = false → events = []) :
    IsDebounced d (past ++ noticesOf w.now events) { w with files, queue := w.queue ++ events } := by
  have hstops : stops (past ++ noticesOf w.now events) = stops past := by
    rw [stops_append, stops_noticesOf, List.append_nil]
  refine ⟨h.attempted, ?_, h.unwatched, ?_, ?_, ?_, ?_⟩
  · intro hlistens
    obtain ⟨hqueue, hsender⟩ := h.unheard hlistens
    refine ⟨?_, hsender⟩
    show w.queue ++ events = []
    rw [hqueue, hunheard hsender, List.append_nil]
  · rw [hstops]
    exact h.asked
  · rw [hstops]
    exact h.atOnce
  · intro hrunning
    obtain ⟨taken, htaken, hends⟩ := h.running hrunning
    refine ⟨taken, ?_, hends⟩
    rw [calls_append, calls_noticesOf, htaken, List.append_assoc]
    simp only [queuedCalls, List.filter_append, List.map_append]
  · intro hstopped
    obtain ⟨s, hs, hnow, hfirst, hattempts⟩ := h.stopped hstopped
    rw [hstops]
    refine ⟨s, hs, hnow, hfirst, ?_⟩
    rw [calls_append, filter_ends_append]
    · exact hattempts
    · intro t ht
      rw [calls_noticesOf] at ht
      obtain ⟨e, -, rfl⟩ := List.mem_map.mp ht
      exact hnow

/-- The world is told to stop now. -/
theorem IsDebounced.ask (h : IsDebounced d past w) :
    IsDebounced d (past ++ [(w.now, .stop)]) { w with stopRequested := true } := by
  have hstops : stops (past ++ [(w.now, .stop)]) = stops past ++ [w.now] := by
    rw [stops_append]
    rfl
  have hcalls : calls (past ++ [(w.now, .stop)]) = calls past := by
    rw [calls_append]
    exact List.append_nil _
  refine ⟨h.attempted, h.unheard, h.unwatched, ?_, ?_, ?_, ?_⟩
  · intro _
    rw [hstops]
    simp
  · intro hrunning s hs
    rw [hstops] at hs
    rcases List.mem_append.mp hs with hin | hin
    · exact h.atOnce hrunning s hin
    · exact List.mem_singleton.mp hin
  · rw [hcalls]
    exact h.running
  · intro hstopped
    obtain ⟨s, hs, hnow, hfirst, hattempts⟩ := h.stopped hstopped
    rw [hstops, hcalls]
    refine ⟨s, List.mem_append_left _ hs, hnow, ?_, hattempts⟩
    intro s' hs'
    rcases List.mem_append.mp hs' with hin | hin
    · exact hfirst s' hin
    · rwa [List.mem_singleton.mp hin]

/-- Time passes in quiet. -/
theorem IsDebounced.pass (h : IsDebounced d past w) {instant : Nat} (hlater : w.now ≤ instant)
    (hquiet : ∀ t < instant, w.next? t = none) : IsDebounced d past { w with now := instant } := by
  rcases Nat.eq_or_lt_of_le hlater with rfl | hlt
  · exact h
  · have hcases := next?_eq_none_iff.mp (hquiet w.now hlt)
    have hattempted : ∀ x ∈ w.attemptTimes, x ≤ instant := fun x hx =>
      Nat.le_trans (h.attempted x hx) hlater
    cases hstopped : w.loop.isStopped with
    | true =>
      have hnot : w.loop.isStopped ≠ false := by simp [hstopped]
      refine ⟨hattempted, h.unheard, h.unwatched, fun hrun => absurd hrun hnot,
        fun hrun => absurd hrun hnot, fun hrun => absurd hrun hnot, ?_⟩
      intro _
      obtain ⟨s, hs, hnow, hrest⟩ := h.stopped hstopped
      exact ⟨s, hs, Nat.le_trans hnow hlater, hrest⟩
    | false =>
      have hnot : w.loop.isStopped ≠ true := by simp [hstopped]
      obtain ⟨hstop, hqueue, -, -⟩ := hcases.resolve_left hnot
      have hstops : stops past = [] := (h.asked hstopped).mpr hstop
      have hempty : w.queue = [] := by
        cases hlistens : w.loop.listens with
        | true => exact (hqueue hlistens).1
        | false => exact (h.unheard hlistens).1
      refine ⟨hattempted, h.unheard, h.unwatched, h.asked, ?_, ?_, fun hstop => absurd hstop hnot⟩
      · simp [hstops]
      · intro _
        obtain ⟨taken, htaken, hends⟩ := h.running hstopped
        refine ⟨taken, ?_, hends⟩
        simp only [queuedCalls, hempty] at htaken ⊢
        exact htaken

/-- Nothing has been attempted at the very time at which a call waits or a stop. -/
theorem IsDebounced.attempts_lt (h : IsDebounced d past w) (hrunning : w.loop.isStopped = false)
    (hclear : IsClear d (calls past) (stops past))
    (hready : w.now ∈ w.queuedCalls ∨ w.now ∈ stops past) : ∀ x ∈ w.attemptTimes, x < w.now := by
  intro x hx
  refine Nat.lt_of_le_of_ne (h.attempted x hx) ?_
  rintro rfl
  obtain ⟨taken, htaken, hends⟩ := h.running hrunning
  have hin : w.now ∈ ends d taken := by
    rw [hends]
    exact List.mem_append_left _ hx
  obtain ⟨before, t, later, rfl, hlast, hnow⟩ := mem_ends_iff.mp hin
  have hsplit : calls past = before ++ t :: (later ++ w.queuedCalls) := by
    rw [htaken, List.append_assoc, List.cons_append]
  obtain ⟨hcall, hstop⟩ := hclear before t _ hsplit (by
      intro t' ht'
      rcases List.mem_append.mp ht' with hin | hin
      · exact Nat.le_of_lt (hlast t' hin)
      · obtain ⟨e, -, rfl⟩ := List.mem_map.mp hin
        exact Nat.le_of_eq hnow.symm) (by
      intro s hs
      rw [h.atOnce hrunning s hs]
      exact Nat.le_of_eq hnow.symm)
  rw [← hnow] at hcall hstop
  rcases hready with hqueued | hasked
  · exact hcall (List.mem_append_right later hqueued)
  · exact hstop hasked

/-- What a call or a stop that is ready now leaves of what has ended or will: the attempts. -/
theorem IsDebounced.filter_ends (h : IsDebounced d past w) (hpaced : w.IsPaced p)
    (hclear : IsClear d (calls past) (stops past)) (hrunning : w.loop.isStopped = false)
    (hready : w.now ∈ w.queuedCalls ∨ w.now ∈ stops past) {taken : List Nat}
    (hends : ends d taken = w.attemptTimes ++ w.loop.deadline.toList) :
    (ends d taken).filter (· < w.now) = w.attemptTimes := by
  have hattempts : w.attemptTimes.filter (· < w.now) = w.attemptTimes := by
    have hlt := h.attempts_lt hrunning hclear hready
    exact List.filter_eq_self.mpr fun x hx => decide_eq_true (hlt x hx)
  have hput : w.loop.deadline.toList.filter (· < w.now) = [] := by
    rw [List.filter_eq_nil_iff]
    intro due hdue
    have hle := hpaced.deadline hrunning due (Option.mem_toList.mp hdue)
    simpa using hle
  rw [hends, List.filter_append, hattempts, hput, List.append_nil]

/-- A signal that is no call, no deadline and no stop. -/
theorem IsDebounced.signal (h : IsDebounced d past w) (hrunning : w.loop.isStopped = false)
    {s : Signal} (hdeadline : (w.loop.step w.now s).deadline = w.loop.deadline)
    (hstill : (w.loop.step w.now s).isStopped = false)
    (hunheard : (w.loop.step w.now s).listens = false → w.queue = [] ∧ w.hasSender = false) :
    IsDebounced d past (w.signal s) := by
  refine ⟨h.attempted, hunheard, h.unwatched, fun _ => h.asked hrunning,
    fun _ => h.atOnce hrunning, ?_, ?_⟩
  · intro _
    obtain ⟨taken, htaken, hends⟩ := h.running hrunning
    rw [← hdeadline] at hends
    exact ⟨taken, htaken, hends⟩
  · intro hstopped
    have hstopped : (w.loop.step w.now s).isStopped = true := hstopped
    rw [hstill] at hstopped
    contradiction

theorem IsDebounced.passDeadline (h : IsDebounced d past w) (hrunning : w.loop.isStopped = false)
    (harmed : w.loop.deadline = some w.now) : IsDebounced d past w.passDeadline := by
  have hstill : (w.loop.step w.now (.deadline w.loadNow)).isStopped = false :=
    ReloadLoop.isStopped_step hrunning w.now _
  have hlistens : (w.loop.step w.now (.deadline w.loadNow)).listens = w.loop.listens :=
    ReloadLoop.listens_step hrunning w.now _
  have hdeadline : (w.loop.step w.now (.deadline w.loadNow)).deadline = none :=
    ReloadLoop.deadline_step hrunning w.now _
  have htimes : w.passDeadline.attemptTimes = w.attemptTimes ++ [w.now] := List.map_append
  refine ⟨?_, ?_, h.unwatched, fun _ => h.asked hrunning, fun _ => h.atOnce hrunning, ?_, ?_⟩
  · intro x hx
    rw [htimes] at hx
    rcases List.mem_append.mp hx with hin | hin
    · exact h.attempted x hin
    · exact Nat.le_of_eq (List.mem_singleton.mp hin)
  · show (w.loop.step w.now (.deadline w.loadNow)).listens = false → _
    rw [hlistens]
    exact h.unheard
  · intro _
    obtain ⟨taken, htaken, hends⟩ := h.running hrunning
    refine ⟨taken, htaken, ?_⟩
    show ends d taken = w.passDeadline.attemptTimes
      ++ (w.loop.step w.now (.deadline w.loadNow)).deadline.toList
    rw [hends, harmed, htimes, hdeadline]
    exact (List.append_nil _).symm
  · intro hstopped
    have hstopped : (w.loop.step w.now (.deadline w.loadNow)).isStopped = true := hstopped
    rw [hstill] at hstopped
    contradiction

/-- A call is taken from the queue: it puts off the deadline, and has nothing to say about what has
been attempted before now. -/
theorem IsDebounced.take (h : IsDebounced p.debounce past w) (hpaced : w.IsPaced p)
    (hclear : IsClear p.debounce (calls past) (stops past)) (hrunning : w.loop.isStopped = false)
    (hlistens : w.loop.listens = true) {e : FileEvent} {rest : List FileEvent}
    (hqueue : w.queue = e :: rest) :
    IsDebounced p.debounce past (({ w with queue := rest } : World).signal (.event e)) := by
  have hstill : (w.loop.step w.now (.event e)).isStopped = false :=
    ReloadLoop.isStopped_step hrunning w.now _
  have hlistens' : (w.loop.step w.now (.event e)).listens = w.loop.listens :=
    ReloadLoop.listens_step hrunning w.now _
  have hdeadline : (w.loop.step w.now (.event e)).deadline =
      if e.callsForReload then some (w.now + w.loop.debounce) else w.loop.deadline :=
    ReloadLoop.deadline_step hrunning w.now _
  refine ⟨h.attempted, ?_, h.unwatched, fun _ => h.asked hrunning, fun _ => h.atOnce hrunning,
    ?_, ?_⟩
  · intro hunheard
    have hunheard : (w.loop.step w.now (.event e)).listens = false := hunheard
    rw [hlistens', hlistens] at hunheard
    contradiction
  · intro _
    show ∃ taken, calls past = taken ++ (rest.filter (·.callsForReload)).map (fun _ => w.now) ∧
      ends p.debounce taken = w.attemptTimes ++ (w.loop.step w.now (.event e)).deadline.toList
    obtain ⟨taken, htaken, hends⟩ := h.running hrunning
    rw [hdeadline]
    cases hcall : e.callsForReload with
    | false =>
      refine ⟨taken, ?_, hends⟩
      rw [htaken, queuedCalls, hqueue, List.filter_cons_of_neg (by simp [hcall])]
    | true =>
      have hqueued : w.queuedCalls =
          w.now :: (rest.filter (·.callsForReload)).map fun _ => w.now := by
        rw [queuedCalls, hqueue, List.filter_cons_of_pos hcall, List.map_cons]
      have hready : w.now ∈ w.queuedCalls := by
        rw [hqueued]
        exact List.mem_cons_self
      refine ⟨taken ++ [w.now], ?_, ?_⟩
      · rw [htaken, hqueued, List.append_assoc, List.singleton_append]
      · rw [ends_concat, h.filter_ends hpaced hclear hrunning (.inl hready) hends, hpaced.debounce]
        rfl
  · intro hstopped
    have hstopped : (w.loop.step w.now (.event e)).isStopped = true := hstopped
    rw [hstill] at hstopped
    contradiction

/-- The loop stops, and leaves what would have ended now or later. -/
theorem IsDebounced.stop (h : IsDebounced d past w) (hpaced : w.IsPaced p)
    (hclear : IsClear d (calls past) (stops past)) (hrunning : w.loop.isStopped = false)
    (hasked : w.stopRequested = true) : IsDebounced d past (w.signal .stop) := by
  have hended : (w.loop.step w.now .stop).isStopped = true :=
    ReloadLoop.isStopped_step hrunning w.now _
  have hlistens : (w.loop.step w.now .stop).listens = w.loop.listens :=
    ReloadLoop.listens_step hrunning w.now _
  have hnot : (w.signal .stop).loop.isStopped ≠ false := by
    show (w.loop.step w.now .stop).isStopped ≠ false
    simp [hended]
  refine ⟨h.attempted, ?_, h.unwatched, fun hrun => absurd hrun hnot,
    fun hrun => absurd hrun hnot, fun hrun => absurd hrun hnot, ?_⟩
  · show (w.loop.step w.now .stop).listens = false → _
    rw [hlistens]
    exact h.unheard
  · intro _
    show ∃ s ∈ stops past, s ≤ w.now ∧ (∀ s' ∈ stops past, s ≤ s') ∧
      w.attemptTimes = (ends d (calls past)).filter (· < s)
    have hsome : stops past ≠ [] := by
      intro hnone
      have hnotAsked := (h.asked hrunning).mp hnone
      rw [hasked] at hnotAsked
      contradiction
    obtain ⟨s, hs⟩ := List.exists_mem_of_ne_nil _ hsome
    obtain rfl := h.atOnce hrunning s hs
    refine ⟨w.now, hs, Nat.le_refl _, ?_, ?_⟩
    · intro s' hs'
      exact Nat.le_of_eq (h.atOnce hrunning s' hs').symm
    · obtain ⟨taken, htaken, hends⟩ := h.running hrunning
      have hqueued : ∀ t ∈ w.queuedCalls, w.now ≤ t := by
        intro t ht
        obtain ⟨e, -, rfl⟩ := List.mem_map.mp ht
        exact Nat.le_refl _
      rw [htaken, filter_ends_append hqueued,
        h.filter_ends hpaced hclear hrunning (.inr hs) hends]

/-- Nothing is seen where nothing is watched. -/
theorem events_of_unwatched (h : w.watched = []) (changes : List (ChangeKind × Place)) :
    w.events changes = [] := by
  have hsees : ∀ c ∈ changes, ¬ w.sees c.2 = true := by
    intro c _
    simp [sees, h]
  rw [events, List.filter_eq_nil_iff.mpr hsees, List.map_nil]

theorem IsDebounced.passBeat (h : IsDebounced d past w) (hrunning : w.loop.isStopped = false)
    (path : String) :
    IsDebounced d (past ++ noticesOf w.now (w.beatEvents path)) (w.passBeat path) := by
  have hbeat : ∀ {past : List (Nat × Notice)} {w : World} (written : Bool),
      IsDebounced d past w → w.loop.isStopped = false →
      IsDebounced d past (w.signal (.beat written)) := by
    intro past w written h hrunning
    refine h.signal hrunning (ReloadLoop.deadline_step hrunning w.now (.beat written))
      (ReloadLoop.isStopped_step hrunning w.now (.beat written)) ?_
    rw [ReloadLoop.listens_step hrunning]
    exact h.unheard
  unfold World.passBeat beatEvents
  cases writeHealth w.files path with
  | ok files =>
    have hheard := h.hear files (w.events ((FileAction.write path healthMark).changes w.files))
      fun hsender => events_of_unwatched (h.unwatched hsender) _
    exact hbeat true hheard hrunning
  | error e =>
    rw [show past ++ noticesOf w.now [] = past from List.append_nil past]
    exact hbeat false h hrunning

theorem IsDebounced.wakes {seen : List FileEvent} (h : IsDebounced p.debounce past w)
    (hpaced : w.IsPaced p) (hclear : IsClear p.debounce (calls past) (stops past))
    (hwakes : Wakes w seen w') :
    IsDebounced p.debounce (past ++ noticesOf w.now seen) w' := by
  have hnothing : past ++ noticesOf w.now [] = past := List.append_nil past
  cases hwakes with
  | deadline due running armed passed =>
    obtain rfl := Nat.le_antisymm passed (hpaced.deadline running due armed)
    rw [hnothing]
    exact h.passDeadline running armed
  | event e rest running listens queued =>
    rw [hnothing]
    exact h.take hpaced hclear running listens queued
  | eventsEnd running listens empty closed =>
    rw [hnothing]
    exact h.signal running (ReloadLoop.deadline_step running w.now .eventsEnd)
      (ReloadLoop.isStopped_step running w.now .eventsEnd) fun _ => ⟨empty, closed⟩
  | beat due path running armed passed => exact h.passBeat running path
  | stop running asked =>
    rw [hnothing]
    exact h.stop hpaced hclear running asked

/-- What comes now does not matter to what is clear. -/
theorem Runs.isClear_of_append (h : Runs first past w) {more : List (Nat × Notice)}
    (hmore : ∀ n ∈ more, n.1 = w.now)
    (hclear : IsClear d (calls (past ++ more)) (stops (past ++ more))) :
    IsClear d (calls past) (stops past) := by
  rw [calls_append, stops_append] at hclear
  have hpast : ∀ t ∈ calls past, t ≤ w.now := by
    intro t ht
    obtain ⟨n, hn, rfl⟩ := exists_of_mem_calls ht
    exact h.notices_le n hn
  have hstops : ∀ s ∈ stops past, s ≤ w.now := by
    intro s hs
    obtain ⟨n, hn, rfl⟩ := exists_of_mem_stops hs
    exact h.notices_le n hn
  refine hclear.of_append hpast hstops ?_ ?_
  · intro t ht
    obtain ⟨n, hn, rfl⟩ := exists_of_mem_calls ht
    exact Nat.le_of_eq (hmore n hn).symm
  · intro s hs
    obtain ⟨n, hn, rfl⟩ := exists_of_mem_stops hs
    exact Nat.le_of_eq (hmore n hn).symm

theorem Runs.isDebounced {files : FileStore} {watched : List Place} {state : Active}
    (h : Runs (start files p watched state true) past w)
    (hclear : IsClear p.debounce (calls past) (stops past)) : IsDebounced p.debounce past w := by
  have hnow : ∀ {now : Nat} {events : List FileEvent}, ∀ n ∈ noticesOf now events, n.1 = now := by
    intro now events n hn
    obtain ⟨e, -, rfl⟩ := List.mem_map.mp hn
    rfl
  induction h with
  | begin => exact isDebounced_start files p watched state
  | @send past w h e isOpen ih =>
    have hbefore := ih (h.isClear_of_append hnow hclear)
    refine hbefore.hear w.files [e] fun hsender => ?_
    rw [isOpen] at hsender
    contradiction
  | @act past w h a ih =>
    have hbefore := ih (h.isClear_of_append hnow hclear)
    exact hbefore.hear (a.apply w.files) (w.events (a.changes w.files)) fun hsender =>
      events_of_unwatched (hbefore.unwatched hsender) _
  | @ask past w h ih =>
    have hbefore := ih (h.isClear_of_append (by simp) hclear)
    exact hbefore.ask
  | close h unwatched ih =>
    have hbefore := ih hclear
    exact { hbefore with
      unheard := fun hlistens => ⟨(hbefore.unheard hlistens).1, rfl⟩
      unwatched := fun _ => unwatched }
  | request h r ih => exact { ih hclear with }
  | abort h aborts ih => exact { ih hclear with }
  | wake h hwakes ih =>
    have hbefore := h.isClear_of_append hnow hclear
    exact (ih hbefore).wakes (h.isPaced (isPaced_start files p watched state true)) hbefore hwakes
  | pass h instant later quiet ih => exact (ih hclear).pass later quiet

/-- A loop that has stopped has attempted what ended before the first request to stop. -/
theorem IsDebounced.attemptTimes_of_stopped (h : IsDebounced d past w)
    (hclear : IsClear d (calls past) (stops past)) (hstopped : w.loop.isStopped = true) :
    w.attemptTimes =
      (ends d (calls past)).filter fun x => x ≤ w.now ∧ ∀ s ∈ stops past, x ≤ s := by
  obtain ⟨s, hs, hnow, hfirst, hattempts⟩ := h.stopped hstopped
  rw [hattempts]
  refine List.filter_congr fun x hx => decide_eq_decide.mpr ⟨?_, ?_⟩
  · intro hlt
    refine ⟨Nat.le_trans (Nat.le_of_lt hlt) hnow, fun s' hs' => ?_⟩
    exact Nat.le_trans (Nat.le_of_lt hlt) (hfirst s' hs')
  · rintro ⟨-, hbefore⟩
    refine Nat.lt_of_le_of_ne (hbefore s hs) ?_
    obtain ⟨before, t, later, hsplit, hlast, rfl⟩ := mem_ends_iff.mp hx
    rintro rfl
    exact (hclear before t later hsplit (fun t' ht' => Nat.le_of_lt (hlast t' ht')) hbefore).2 hs

/-- A running loop with nothing left to do now has attempted what has ended by now. -/
theorem IsDebounced.attemptTimes_of_running (h : IsDebounced d past w)
    (hrunning : w.loop.isStopped = false) (hsettled : w.IsSettled) :
    w.attemptTimes =
      (ends d (calls past)).filter fun x => x ≤ w.now ∧ ∀ s ∈ stops past, x ≤ s := by
  have hnot : w.loop.isStopped ≠ true := by simp [hrunning]
  obtain ⟨hstop, hqueue, hdeadline, -⟩ := (next?_eq_none_iff.mp hsettled).resolve_left hnot
  have hstops : stops past = [] := (h.asked hrunning).mpr hstop
  have hempty : w.queue = [] := by
    cases hlistens : w.loop.listens with
    | true => exact (hqueue hlistens).1
    | false => exact (h.unheard hlistens).1
  obtain ⟨taken, htaken, hends⟩ := h.running hrunning
  have hcalls : calls past = taken := by
    rw [htaken, queuedCalls, hempty]
    exact List.append_nil taken
  have hpast : w.attemptTimes.filter (· ≤ w.now) = w.attemptTimes :=
    List.filter_eq_self.mpr fun x hx => decide_eq_true (h.attempted x hx)
  have hahead : w.loop.deadline.toList.filter (· ≤ w.now) = [] := by
    rw [List.filter_eq_nil_iff]
    intro due hdue
    have hlt := hdeadline due (Option.mem_toList.mp hdue)
    simpa using hlt
  have hall : ∀ x, (x ≤ w.now ∧ ∀ s ∈ stops past, x ≤ s) ↔ x ≤ w.now := by
    simp [hstops]
  simp only [hall]
  rw [hcalls, hends, List.filter_append, hpast, hahead, List.append_nil]

/-- Loads are attempted exactly when a delay ends: a full delay after an event that calls for a
reload, if no other has come by then and no request to stop before. Time can always pass, and when
it has passed all loads have been attempted that were due. -/
theorem attemptTimes_eq_ends {files : FileStore} {watched : List Place} {state : Active}
    (h : Runs (start files p watched state true) past w)
    (hclear : IsClear p.debounce (calls past) (stops past)) :
    (w.IsSettled →
      w.attemptTimes =
        (ends p.debounce (calls past)).filter fun x => x ≤ w.now ∧ ∀ s ∈ stops past, x ≤ s) ∧
    ∀ duration, ∃ more,
      Runs (start files p watched state true) (past ++ more) (w.wait duration) ∧
        (w.wait duration).now = w.now + duration ∧ (w.wait duration).IsSettled := by
  have hdebounced := h.isDebounced hclear
  have hpaced := h.isPaced (isPaced_start files p watched state true)
  refine ⟨fun hsettled => ?_, h.wait hpaced⟩
  cases hstopped : w.loop.isStopped with
  | true => exact hdebounced.attemptTimes_of_stopped hclear hstopped
  | false => exact hdebounced.attemptTimes_of_running hstopped hsettled

theorem isClear_burst : IsClear 200 [0, 120] [400] := by
  intro before t later hsplit hlater _
  rcases before with _ | ⟨a, _ | ⟨b, rest⟩⟩
  · obtain ⟨rfl, rfl⟩ := List.cons.inj hsplit
    exact absurd (hlater 120 List.mem_cons_self) (by decide)
  · obtain ⟨-, hsplit⟩ := List.cons.inj hsplit
    obtain ⟨rfl, rfl⟩ := List.cons.inj hsplit
    decide
  · simp at hsplit

/-- Two calls within one delay and an event that is no call, after which the events end; the load
breaks off, and later the loop is told to stop. -/
theorem attemptTimes_eq_ends_burst :
    ∃ past w, Runs (start (.empty ["home"]) .standard [] default true) past w ∧
      IsClear 200 (calls past) (stops past) ∧ w.IsSettled ∧ calls past = [0, 120] ∧
      stops past = [400] ∧ w.attemptTimes = [320] := by
  let first := start (.empty ["home"]) .standard [] default true
  have hfirst : Runs first [] first := .begin
  have hsent := ((hfirst.abort true).send (.modified ["/home/config"]) rfl).wake
    (.event _ [] rfl rfl rfl)
  have hlater := hsent.pass 120 (Nat.zero_le _)
    (next?_eq_none_of_lt rfl (fun _ => ⟨rfl, rfl⟩) (by rintro _ ⟨⟩; decide) (by rintro _ _ ⟨⟩))
  have hboth := (((hlater.send (.created ["/home/cert"]) rfl).send (.removed ["/home/key"]) rfl).wake
    (.event _ [_] rfl rfl rfl)).wake (.event _ [] rfl rfl rfl)
  have hclosed := (hboth.close rfl).wake (.eventsEnd rfl rfl rfl rfl)
  have hdue := hclosed.pass 320 (by decide)
    (next?_eq_none_of_lt rfl (by rintro ⟨⟩) (by rintro _ ⟨⟩; decide) (by rintro _ _ ⟨⟩))
  have hloaded := hdue.wake (.deadline 320 rfl rfl (Nat.le_refl _))
  have hquiet := hloaded.pass 400 (by decide)
    (next?_eq_none_of_lt rfl (by rintro ⟨⟩) (by rintro _ ⟨⟩) (by rintro _ _ ⟨⟩))
  have hstopped := hquiet.ask.wake (.stop rfl rfl)
  have hattempts := (attemptTimes_eq_ends hstopped isClear_burst).1 rfl
  refine ⟨_, _, hstopped, isClear_burst, rfl, rfl, rfl, ?_⟩
  rw [hattempts]
  rfl

end World

end SidecarAdmission.Lifecycle
