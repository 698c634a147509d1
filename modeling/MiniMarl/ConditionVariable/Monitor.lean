import Mathlib.Data.Fintype.Basic
import MiniMarl.Data.Counting
import MiniMarl.Transition
import MiniMarl.Worker.State

namespace MiniMarl

/-! The condition variable at the granularity of its calls, for users that hold
their lock around every call: `wait` up to where it suspends, `notify_one`,
`notify_all`, and what the party does once it is awake and has the lock again. -/

/-- Where a party is. A wait leaves `suspended` and `asleep` only by a
notification, by its deadline, or, on a thread, spuriously. -/
inductive Monitor.Place where
  | outside
  | suspended (timed : Bool)
  | resumed (timed : Bool)
  | asleep (timed : Bool)
  | woken (timed timedOut : Bool)
deriving DecidableEq, Repr

structure Monitor (π : Type) where
  waiting : List π := []
  numWaiting : Int := 0
  numWaitingOnCondition : Int := 0
  fiber : π → Fiber.State := fun _ => .running
  place : π → Monitor.Place := fun _ => .outside

inductive Monitor.Label (π : Type) where
  /-- The predicate is false. -/
  | wait (party : π) (timed : Bool)
  /-- `sleeper` is the thread that `condition_.notify_one()` would choose. -/
  | notifyOne (sleeper : π)
  | notifyAll
  | resume (party : π)
  | timeout (party : π)
  | wake (party : π) (timedOut : Bool)
  | recheck (party : π) (holds expired : Bool)

namespace Monitor

open Transition

/-- What the wait returns when its party has the lock again, unless it goes on
waiting. The fiber path looks at the clock first, `std::condition_variable` at
the predicate. -/
def Place.answer (holds expired : Bool) : Place → Option Bool
  | .resumed timed => if timed && expired then some false else if holds then some true else none
  | .woken _ timedOut => if holds then some true else if timedOut then some false else none
  | _ => none

def Place.timed : Place → Bool
  | .outside => false
  | .suspended timed | .resumed timed | .asleep timed | .woken timed _ => timed

def Place.isAsleep : Place → Bool
  | .asleep _ => true
  | _ => false

def Place.isAwake : Place → Bool
  | .resumed _ | .woken _ _ => true
  | _ => false

/-- Woken by a notification. -/
def Place.roused : Place → Place
  | .asleep timed => .woken timed false
  | place => place

variable {π : Type} [DecidableEq π]

def park (isFiber : π → Bool) (monitor : Monitor π) (party : π) (timed : Bool) : Monitor π :=
  if isFiber party then
    { monitor with
      fiber := Function.update monitor.fiber party (.parked timed)
      place := Function.update monitor.place party (.suspended timed) }
  else { monitor with place := Function.update monitor.place party (.asleep timed) }

def enter (isFiber : π → Bool) (monitor : Monitor π) (party : π) : Monitor π :=
  if isFiber party then { monitor with waiting := party :: monitor.waiting, numWaiting := monitor.numWaiting + 1 }
  else
    { monitor with
      numWaiting := monitor.numWaiting + 1
      numWaitingOnCondition := monitor.numWaitingOnCondition + 1 }

def leave (isFiber : π → Bool) (monitor : Monitor π) (party : π) : Monitor π :=
  if isFiber party then
    { monitor with
      waiting := monitor.waiting.erase party
      numWaiting := monitor.numWaiting - 1
      place := Function.update monitor.place party .outside }
  else
    { monitor with
      numWaiting := monitor.numWaiting - 1
      numWaitingOnCondition := monitor.numWaitingOnCondition - 1
      place := Function.update monitor.place party .outside }

def notify (monitor : Monitor π) (fiber : π) : Monitor π :=
  { monitor with fiber := Function.update monitor.fiber fiber (monitor.fiber fiber).notified }

/-- `condition_` wakes a thread. -/
def rouse (monitor : Monitor π) (sleeper : π) : Monitor π :=
  { monitor with place := Function.update monitor.place sleeper (monitor.place sleeper).roused }

def notifyOne (monitor : Monitor π) (sleeper : π) : Monitor π :=
  if monitor.numWaiting = 0 then monitor
  else
    match monitor.waiting with
    | fiber :: _ => monitor.notify fiber
    | [] => if monitor.numWaitingOnCondition > 0 then monitor.rouse sleeper else monitor

def notifyAll (monitor : Monitor π) : Monitor π :=
  if monitor.numWaiting = 0 then monitor
  else
    let notified := monitor.waiting.foldl notify monitor
    if monitor.numWaitingOnCondition > 0 then
      { notified with place := fun party => (notified.place party).roused }
    else notified

/-- `condition_.notify_one()` wakes a sleeping thread if there is one. -/
def chooses [Fintype π] (monitor : Monitor π) (sleeper : π) : Bool :=
  (monitor.place sleeper).isAsleep || decide (∀ party, (monitor.place party).isAsleep = false)

def step [Fintype π] (isFiber : π → Bool) (monitor : Monitor π) : Label π → Option (Monitor π)
  | .wait party timed =>
      if monitor.place party = .outside then some ((monitor.enter isFiber party).park isFiber party timed) else none
  | .notifyOne sleeper => if monitor.chooses sleeper then some (monitor.notifyOne sleeper) else none
  | .notifyAll => some monitor.notifyAll
  | .resume party =>
      match monitor.place party with
      | .suspended timed =>
          if monitor.fiber party = .queued then
            some { monitor with
              fiber := Function.update monitor.fiber party .running
              place := Function.update monitor.place party (.resumed timed) }
          else none
      | _ => none
  | .timeout party =>
      if monitor.fiber party = .waiting then
        some { monitor with fiber := Function.update monitor.fiber party .queued }
      else none
  | .wake party timedOut =>
      match monitor.place party with
      | .asleep timed =>
          if timedOut = true → timed = true then
            some { monitor with place := Function.update monitor.place party (.woken timed timedOut) }
          else none
      | _ => none
  | .recheck party holds expired =>
      if (monitor.place party).isAwake then
        match (monitor.place party).answer holds expired with
        | some _ => some (monitor.leave isFiber party)
        | none => some (monitor.park isFiber party (monitor.place party).timed)
      else none

def system [Fintype π] (isFiber : π → Bool) : System (Monitor π) (Label π) :=
  .ofStep (· = {}) (step isFiber)

namespace Place

/-- Counted in `num_waiting_`. -/
def counted : Place → Bool
  | .outside => false
  | _ => true

def onFiber : Place → Bool
  | .suspended _ | .resumed _ => true
  | _ => false

def onThread : Place → Bool
  | .asleep _ | .woken _ _ => true
  | _ => false

def isSuspended : Place → Bool
  | .suspended _ => true
  | _ => false

end Place

/-- What the place of a party says about the condition variable. -/
structure Local (isFiber : π → Bool) (monitor : Monitor π) (party : π) : Prop where
  registered : monitor.waiting.count party = (monitor.place party).onFiber.toNat
  onFiber : (monitor.place party).onFiber = true → isFiber party = true
  onThread : (monitor.place party).onThread = true → isFiber party = false
  suspended : monitor.fiber party ≠ .running ↔ (monitor.place party).isSuspended = true
  busy : monitor.fiber party ≠ .idle

/-- What a step leaves alone of a party that does not take it. -/
structure Frame (monitor after : Monitor π) (other : π) : Prop where
  waiting : after.waiting.count other = monitor.waiting.count other
  place : after.place other = monitor.place other ∨ after.place other = (monitor.place other).roused
  fiber : after.fiber other = monitor.fiber other ∨ after.fiber other = (monitor.fiber other).notified

variable {isFiber : π → Bool} {monitor after : Monitor π} {party other : π} {label : Label π}

theorem Frame.refl (monitor : Monitor π) (other : π) : Frame monitor monitor other := ⟨rfl, .inl rfl, .inl rfl⟩

/-- The acting party of a step. -/
def Label.party? : Label π → Option π
  | .wait party _ | .resume party | .timeout party | .wake party _ | .recheck party _ _ => some party
  | .notifyOne _ | .notifyAll => none

theorem Frame.profile (frame : Frame monitor after other) :
    (after.place other).counted = (monitor.place other).counted ∧
      (after.place other).onFiber = (monitor.place other).onFiber ∧
      (after.place other).onThread = (monitor.place other).onThread ∧
      (after.place other).isSuspended = (monitor.place other).isSuspended := by
  rcases frame.place with same | roused
  · simp [same]
  · rw [roused]
    cases monitor.place other <;> exact ⟨rfl, rfl, rfl, rfl⟩

theorem Frame.keeps (frame : Frame monitor after other) (old : Local isFiber monitor other) :
    Local isFiber after other := by
  obtain ⟨_, onFiber, onThread, suspended⟩ := frame.profile
  refine ⟨?_, ?_, ?_, ?_, ?_⟩
  · rw [frame.waiting, onFiber]
    exact old.registered
  · rw [onFiber]
    exact old.onFiber
  · rw [onThread]
    exact old.onThread
  · rw [suspended, ← old.suspended]
    rcases frame.fiber with same | same <;> simp [same]
  · have busy := old.busy
    rcases frame.fiber with same | same
    · rw [same]
      exact busy
    · rw [same]
      cases monitor.fiber other <;> simp [Fiber.State.notified]

theorem notify_frame (fiber : π) : Frame monitor (monitor.notify fiber) other := by
  refine ⟨rfl, .inl rfl, ?_⟩
  by_cases here : other = fiber
  · exact .inr (by simp [notify, here])
  · exact .inl (by simp [notify, here])

theorem rouse_frame (sleeper : π) : Frame monitor (monitor.rouse sleeper) other := by
  refine ⟨rfl, ?_, .inl rfl⟩
  by_cases here : other = sleeper
  · exact .inr (by simp [rouse, here])
  · exact .inl (by simp [rouse, here])

theorem notifyOne_frame (sleeper : π) : Frame monitor (monitor.notifyOne sleeper) other := by
  unfold notifyOne
  split
  · exact .refl monitor other
  · split
    · exact notify_frame _
    · split
      · exact rouse_frame sleeper
      · exact .refl monitor other

theorem foldl_notify (fibers : List π) (monitor : Monitor π) :
    (fibers.foldl notify monitor).waiting = monitor.waiting ∧
      (fibers.foldl notify monitor).place = monitor.place ∧
      (fibers.foldl notify monitor).numWaiting = monitor.numWaiting ∧
      (fibers.foldl notify monitor).numWaitingOnCondition = monitor.numWaitingOnCondition ∧
      ∀ other, (fibers.foldl notify monitor).fiber other = monitor.fiber other ∨
        (fibers.foldl notify monitor).fiber other = (monitor.fiber other).notified := by
  induction fibers generalizing monitor with
  | nil => exact ⟨rfl, rfl, rfl, rfl, fun _ => .inl rfl⟩
  | cons fiber rest ih =>
      obtain ⟨waiting, place, numWaiting, onCondition, fibers⟩ := ih (monitor.notify fiber)
      refine ⟨waiting, place, numWaiting, onCondition, fun other => ?_⟩
      have twice : (monitor.fiber other).notified.notified = (monitor.fiber other).notified := by
        cases monitor.fiber other <;> rfl
      rw [List.foldl_cons]
      by_cases here : other = fiber
      · have now : (monitor.notify fiber).fiber other = (monitor.fiber other).notified := by simp [notify, here]
        rcases fibers other with same | same
        · exact .inr (same.trans now)
        · exact .inr (by rw [same, now, twice])
      · have now : (monitor.notify fiber).fiber other = monitor.fiber other := by simp [notify, here]
        rcases fibers other with same | same
        · exact .inl (same.trans now)
        · exact .inr (by rw [same, now])

theorem notifyAll_frame : Frame monitor monitor.notifyAll other := by
  obtain ⟨waiting, place, _, _, fibers⟩ := foldl_notify monitor.waiting monitor
  unfold notifyAll
  split
  · exact .refl monitor other
  · simp only
    split
    · exact ⟨by rw [waiting], .inr (by rw [place]), fibers other⟩
    · exact ⟨by rw [waiting], .inl (by rw [place]), fibers other⟩

variable [Fintype π]

section Steps

variable {timed timedOut holds expired : Bool}

theorem step_wait (stepped : monitor.step isFiber (.wait party timed) = some after) :
    monitor.place party = .outside ∧ after = (monitor.enter isFiber party).park isFiber party timed := by
  simp only [step, Option.ite_none_right_eq_some, Option.some.injEq] at stepped
  exact ⟨stepped.1, stepped.2.symm⟩

theorem step_resume (stepped : monitor.step isFiber (.resume party) = some after) :
    ∃ timed, monitor.place party = .suspended timed ∧ monitor.fiber party = .queued ∧
      after = { monitor with
        fiber := Function.update monitor.fiber party .running
        place := Function.update monitor.place party (.resumed timed) } := by
  simp only [step] at stepped
  split at stepped
  · rename_i timed suspended
    simp only [Option.ite_none_right_eq_some, Option.some.injEq] at stepped
    exact ⟨timed, suspended, stepped.1, stepped.2.symm⟩
  · cases stepped

theorem step_timeout (stepped : monitor.step isFiber (.timeout party) = some after) :
    monitor.fiber party = .waiting ∧ after = { monitor with fiber := Function.update monitor.fiber party .queued } := by
  simp only [step, Option.ite_none_right_eq_some, Option.some.injEq] at stepped
  exact ⟨stepped.1, stepped.2.symm⟩

theorem step_wake (stepped : monitor.step isFiber (.wake party timedOut) = some after) :
    ∃ timed, monitor.place party = .asleep timed ∧ (timedOut = true → timed = true) ∧
      after = { monitor with place := Function.update monitor.place party (.woken timed timedOut) } := by
  simp only [step] at stepped
  split at stepped
  · rename_i timed asleep
    simp only [Option.ite_none_right_eq_some, Option.some.injEq] at stepped
    exact ⟨timed, asleep, stepped.1, stepped.2.symm⟩
  · cases stepped

theorem step_recheck (stepped : monitor.step isFiber (.recheck party holds expired) = some after) :
    (monitor.place party).isAwake = true ∧
      (after = monitor.leave isFiber party ∨
        after = monitor.park isFiber party (monitor.place party).timed) := by
  simp only [step, Option.ite_none_right_eq_some] at stepped
  obtain ⟨awake, decided⟩ := stepped
  refine ⟨awake, ?_⟩
  split at decided
  · exact .inl (Option.some.inj decided).symm
  · exact .inr (Option.some.inj decided).symm

end Steps

theorem step_frame (stepped : monitor.step isFiber label = some after) (away : label.party? ≠ some other) :
    Frame monitor after other := by
  cases label with
  | wait party timed =>
      obtain ⟨_, rfl⟩ := step_wait stepped
      simp only [Label.party?, ne_eq, Option.some.injEq] at away
      unfold enter park
      split <;> constructor <;> simp [away, Ne.symm away]
  | notifyOne sleeper =>
      simp only [step, Option.ite_none_right_eq_some, Option.some.injEq] at stepped
      exact stepped.2 ▸ notifyOne_frame sleeper
  | notifyAll =>
      simp only [step, Option.some.injEq] at stepped
      exact stepped ▸ notifyAll_frame
  | resume party =>
      obtain ⟨timed, _, _, rfl⟩ := step_resume stepped
      simp only [Label.party?, ne_eq, Option.some.injEq] at away
      constructor <;> simp [Ne.symm away]
  | timeout party =>
      obtain ⟨_, rfl⟩ := step_timeout stepped
      simp only [Label.party?, ne_eq, Option.some.injEq] at away
      constructor <;> simp [Ne.symm away]
  | wake party timedOut =>
      obtain ⟨timed, _, _, rfl⟩ := step_wake stepped
      simp only [Label.party?, ne_eq, Option.some.injEq] at away
      constructor <;> simp [Ne.symm away]
  | recheck party holds expired =>
      simp only [Label.party?, ne_eq, Option.some.injEq] at away
      rcases (step_recheck stepped).2 with rfl | rfl
      · unfold leave
        split <;> constructor <;> simp [Ne.symm away]
      · unfold park
        split <;> constructor <;> simp [Ne.symm away]

attribute [local simp] Place.counted Place.onFiber Place.onThread Place.isSuspended Place.isAwake Place.timed
  Label.party?

omit [Fintype π] in
theorem Local.parks {timed : Bool} (registered : monitor.waiting.count party = (isFiber party).toNat)
    (running : monitor.fiber party = .running) : Local isFiber (monitor.park isFiber party timed) party := by
  unfold park
  cases kind : isFiber party with
  | true =>
      rw [kind] at registered
      have busy : Fiber.State.parked timed ≠ .running ∧ Fiber.State.parked timed ≠ .idle := by cases timed <;> decide
      exact ⟨by simp [registered], by simp [kind], by simp, by simp [busy.1], by simp [busy.2]⟩
  | false =>
      rw [kind] at registered
      exact ⟨by simp [registered], by simp, by simp [kind], by simp [running], by simp [running]⟩

omit [Fintype π] in
theorem Local.leaves (registered : monitor.waiting.count party = (isFiber party).toNat)
    (running : monitor.fiber party = .running) : Local isFiber (monitor.leave isFiber party) party := by
  unfold leave
  cases kind : isFiber party with
  | true =>
      rw [kind] at registered
      exact ⟨by simp [registered], by simp, by simp, by simp [running], by simp [running]⟩
  | false =>
      rw [kind] at registered
      exact ⟨by simp [registered], by simp, by simp, by simp [running], by simp [running]⟩

omit [Fintype π] in
theorem Local.running (old : Local isFiber monitor party) (up : (monitor.place party).isSuspended = false) :
    monitor.fiber party = .running := by
  by_contra parked
  rw [old.suspended.mp parked] at up
  cases up

omit [Fintype π] in
theorem Local.registered_of_awake (old : Local isFiber monitor party) (awake : (monitor.place party).isAwake = true) :
    monitor.waiting.count party = (isFiber party).toNat := by
  rw [old.registered]
  cases place : monitor.place party with
  | resumed timed =>
      rw [old.onFiber (by rw [place]; rfl)]
      rfl
  | woken timed timedOut =>
      rw [old.onThread (by rw [place]; rfl)]
      rfl
  | outside | suspended timed | asleep timed => simp [place] at awake

theorem step_local (each : ∀ party, Local isFiber monitor party)
    (stepped : monitor.step isFiber label = some after) (named : label.party? = some party) :
    Local isFiber after party := by
  have old := each party
  cases label with
  | wait party timed =>
      cases named
      obtain ⟨outside, rfl⟩ := step_wait stepped
      have unlisted : monitor.waiting.count party = 0 := by simp [old.registered, outside]
      have running := old.running (by simp [outside])
      refine Local.parks ?_ ?_
      · unfold enter
        cases kind : isFiber party <;> simp [unlisted]
      · unfold enter
        split <;> exact running
  | notifyOne sleeper | notifyAll => cases named
  | resume party =>
      cases named
      obtain ⟨timed, place, _, rfl⟩ := step_resume stepped
      have registered := old.registered
      have onFiber := old.onFiber
      rw [place] at registered onFiber
      exact ⟨by simpa using registered, by simpa using onFiber, by simp, by simp, by simp⟩
  | timeout party =>
      cases named
      obtain ⟨waiting, rfl⟩ := step_timeout stepped
      have parked : (monitor.place party).isSuspended = true := old.suspended.mp (by simp [waiting])
      exact ⟨old.registered, old.onFiber, old.onThread, iff_of_true (by simp) parked, by simp⟩
  | wake party timedOut =>
      cases named
      obtain ⟨timed, asleep, _, rfl⟩ := step_wake stepped
      have registered := old.registered
      have onThread := old.onThread
      have running := old.running (by simp [asleep])
      rw [asleep] at registered onThread
      exact ⟨by simpa using registered, by simp, by simpa using onThread, by simp [running], by simp [running]⟩
  | recheck party holds expired =>
      cases named
      obtain ⟨awake, rfl | rfl⟩ := step_recheck stepped
      all_goals
        have registered := old.registered_of_awake awake
        have running := old.running (by cases place : monitor.place party <;> simp [place] at awake ⊢)
      · exact .leaves registered running
      · exact .parks registered running

omit [Fintype π] in
theorem notifyOne_counts (sleeper : π) : (monitor.notifyOne sleeper).numWaiting = monitor.numWaiting ∧
    (monitor.notifyOne sleeper).numWaitingOnCondition = monitor.numWaitingOnCondition := by
  unfold notifyOne
  split
  · exact ⟨rfl, rfl⟩
  · split
    · exact ⟨rfl, rfl⟩
    · split <;> exact ⟨rfl, rfl⟩

omit [Fintype π] in
theorem notifyAll_counts : monitor.notifyAll.numWaiting = monitor.numWaiting ∧
    monitor.notifyAll.numWaitingOnCondition = monitor.numWaitingOnCondition := by
  obtain ⟨_, _, numWaiting, onCondition, _⟩ := foldl_notify monitor.waiting monitor
  unfold notifyAll
  split
  · exact ⟨rfl, rfl⟩
  · simp only
    split <;> exact ⟨numWaiting, onCondition⟩

theorem step_counts (each : ∀ party, Local isFiber monitor party)
    (stepped : monitor.step isFiber label = some after) :
    after.numWaiting + label.party?.elim 0 (fun party => ((monitor.place party).counted.toNat : Int)) =
        monitor.numWaiting + label.party?.elim 0 (fun party => ((after.place party).counted.toNat : Int)) ∧
      after.numWaitingOnCondition + label.party?.elim 0 (fun party => ((monitor.place party).onThread.toNat : Int)) =
        monitor.numWaitingOnCondition +
          label.party?.elim 0 (fun party => ((after.place party).onThread.toNat : Int)) := by
  cases label with
  | wait party timed =>
      obtain ⟨outside, rfl⟩ := step_wait stepped
      cases kind : isFiber party <;> simp [enter, park, kind, outside]
  | notifyOne sleeper =>
      simp only [step, Option.ite_none_right_eq_some, Option.some.injEq] at stepped
      simpa [← stepped.2] using notifyOne_counts sleeper
  | notifyAll =>
      simp only [step, Option.some.injEq] at stepped
      simpa [← stepped] using notifyAll_counts
  | resume party =>
      obtain ⟨timed, suspended, _, rfl⟩ := step_resume stepped
      simp [suspended]
  | timeout party =>
      obtain ⟨_, rfl⟩ := step_timeout stepped
      exact ⟨rfl, rfl⟩
  | wake party timedOut =>
      obtain ⟨timed, asleep, _, rfl⟩ := step_wake stepped
      simp [asleep]
  | recheck party holds expired =>
      have onFiber := (each party).onFiber
      have onThread := (each party).onThread
      obtain ⟨awake, rfl | rfl⟩ := step_recheck stepped
      · cases kind : isFiber party <;> cases place : monitor.place party <;> simp_all [leave]
      · cases kind : isFiber party <;> cases place : monitor.place party <;> simp_all [park]

structure Inv (isFiber : π → Bool) (monitor : Monitor π) : Prop where
  each : ∀ party, Local isFiber monitor party
  numWaiting : monitor.numWaiting = ∑ party, ((monitor.place party).counted.toNat : Int)
  numWaitingOnCondition : monitor.numWaitingOnCondition = ∑ party, ((monitor.place party).onThread.toNat : Int)

theorem Inv.initial : Inv isFiber ({} : Monitor π) := by
  refine ⟨fun party => ?_, by simp, by simp⟩
  constructor <;> simp

theorem sum_step (value : Place → Bool) (roused : ∀ place : Place, value place.roused = value place)
    (stepped : monitor.step isFiber label = some after) :
    ∑ other, ((value (after.place other)).toNat : Int) +
        label.party?.elim 0 (fun party => ((value (monitor.place party)).toNat : Int)) =
      ∑ other, ((value (monitor.place other)).toNat : Int) +
        label.party?.elim 0 (fun party => ((value (after.place party)).toNat : Int)) := by
  apply Data.sum_acting
  intro other away
  rcases (step_frame stepped away).place with equal | equal
  · rw [equal]
  · rw [equal, roused]

theorem Inv.step (inv : Inv isFiber monitor) (stepped : monitor.step isFiber label = some after) :
    Inv isFiber after := by
  obtain ⟨waiting, onCondition⟩ := step_counts inv.each stepped
  have sum := sum_step Place.counted (fun place => by cases place <;> rfl) stepped
  have sumOnCondition := sum_step Place.onThread (fun place => by cases place <;> rfl) stepped
  have before := inv.numWaiting
  have beforeOnCondition := inv.numWaitingOnCondition
  refine ⟨fun party => ?_, by omega, by omega⟩
  by_cases named : label.party? = some party
  · exact step_local inv.each stepped named
  · exact (step_frame stepped named).keeps (inv.each party)

theorem inv_of_reachable (reachable : (system isFiber).Reachable monitor) : Inv isFiber monitor := by
  refine reachable.invariant ?_ ?_
  · intro monitor start
    exact start ▸ .initial
  · intro monitor label after _ inv stepped
    exact inv.step stepped

end Monitor

end MiniMarl
