import MiniMarl.Event.Step

namespace MiniMarl

open Transition

variable {π : Type} [DecidableEq π] [Fintype π]
variable {isFiber : π → Bool} {monitor : Monitor π} {party sleeper : π}

namespace Monitor

/-- A fiber Yielded or Waiting, or a thread asleep. -/
def sleeps (monitor : Monitor π) (party : π) : Bool := monitor.suspends party || (monitor.place party).isAsleep

/-- Inside a wait, and about to look at the predicate. -/
def stirs (monitor : Monitor π) (party : π) : Bool :=
  decide (monitor.fiber party = .queued) || (monitor.place party).isAwake

omit [Fintype π] in
theorem Frame.sleeps {after : Monitor π} (frame : Frame monitor after party) (sleeping : after.sleeps party = true) :
    monitor.sleeps party = true := by
  simp only [Monitor.sleeps, suspends, Bool.or_eq_true, decide_eq_true_eq] at sleeping ⊢
  rcases sleeping with suspended | asleep
  · left
    rcases frame.fiber with same | notified
    · rw [← same]
      exact suspended
    · rw [notified] at suspended
      cases state : monitor.fiber party <;> simp [state, Fiber.State.notified] at suspended
  · right
    rcases frame.place with same | roused
    · rw [← same]
      exact asleep
    · rw [roused] at asleep
      cases found : monitor.place party <;> simp [found, Place.roused, Place.isAsleep] at asleep

theorem Inv.numWaitingOnCondition_pos (inv : Inv isFiber monitor) (onThread : (monitor.place party).onThread = true) :
    0 < monitor.numWaitingOnCondition := by
  have part := Finset.single_le_sum (fun party _ => Int.natCast_nonneg (monitor.place party).onThread.toNat)
    (Finset.mem_univ party)
  rw [← inv.numWaitingOnCondition, onThread] at part
  exact part

theorem Inv.place_of_sleeps (inv : Inv isFiber monitor) (sleeping : monitor.sleeps party = true) :
    (monitor.place party).isSuspended = true ∨ (monitor.place party).isAsleep = true := by
  simp only [sleeps, Bool.or_eq_true] at sleeping
  rcases sleeping with suspended | asleep
  · refine .inl ((inv.each party).suspended.mp ?_)
    intro running
    simp [suspends, running] at suspended
  · exact .inr asleep

/-- The fiber at the front of `waiting_` is either suspended, and becomes
Queued, or has been resumed already. -/
theorem Inv.stirs_notify (inv : Inv isFiber monitor) (member : party ∈ monitor.waiting) :
    (monitor.notify party).stirs party = true := by
  have onFiber := inv.onFiber_of_mem member
  have suspended := (inv.each party).suspended
  have busy := (inv.each party).busy
  cases found : monitor.place party with
  | suspended timed =>
      have queued : (monitor.fiber party).notified = .queued := by
        simp only [found, Place.isSuspended, iff_true] at suspended
        cases state : monitor.fiber party <;> simp_all [Fiber.State.notified]
      simp [stirs, notify, queued]
  | resumed timed => simp [stirs, notify, found, Place.isAwake]
  | outside | asleep timed | woken timed timedOut => simp [found, Place.onFiber] at onFiber

theorem Inv.stirs_notifyOne (inv : Inv isFiber monitor) (chosen : monitor.chooses sleeper = true)
    (sleeping : monitor.sleeps party = true) : ∃ other, (monitor.notifyOne sleeper).stirs other = true := by
  have place := inv.place_of_sleeps sleeping
  have counted : (monitor.place party).counted = true := by
    cases found : monitor.place party <;> simp [found, Place.isSuspended, Place.isAsleep] at place <;> rfl
  have positive := inv.numWaiting_pos counted
  have some : monitor.numWaiting ≠ 0 := by omega
  cases entries : monitor.waiting with
  | cons fiber rest =>
      refine ⟨fiber, ?_⟩
      simp only [notifyOne, some, if_false, entries]
      exact inv.stirs_notify (by simp [entries])
  | nil =>
      -- No fiber is registered, so that the sleeping party is a thread.
      have registered := (inv.each party).registered
      have asleep : (monitor.place party).isAsleep = true := by
        cases found : monitor.place party <;> simp_all [Place.isSuspended, Place.isAsleep, Place.onFiber]
      have onThread : (monitor.place party).onThread = true := by
        cases found : monitor.place party <;> first | rfl | simp [found, Place.isAsleep] at asleep
      have onCondition := inv.numWaitingOnCondition_pos onThread
      have target : (monitor.place sleeper).isAsleep = true := by
        simp only [chooses, Bool.or_eq_true, decide_eq_true_eq] at chosen
        rcases chosen with target | nobody
        · exact target
        · simp [nobody party] at asleep
      refine ⟨sleeper, ?_⟩
      simp only [notifyOne, some, if_false, entries, onCondition, if_true]
      cases found : monitor.place sleeper <;> simp [found, Place.isAsleep] at target
      simp [stirs, rouse, found, Place.roused, Place.isAwake]

theorem step_untimed {after : Monitor π} {label : Label π} (untimed : ∀ party, (monitor.place party).timed = false)
    (stepped : monitor.step isFiber label = some after) (allowed : ∀ party, label ≠ .wait party true) :
    ∀ party, (after.place party).timed = false := by
  intro party
  have before := untimed party
  by_cases named : label.party? = some party
  · cases label with
    | wait caller timed =>
        cases named
        cases timed with
        | true => exact absurd rfl (allowed party)
        | false =>
            rw [(step_wait stepped).2]
            cases kind : isFiber party <;> simp [enter, park, kind, Place.timed]
    | notifyOne sleeper | notifyAll => cases named
    | resume caller =>
        cases named
        obtain ⟨timed, suspended, _, rfl⟩ := step_resume stepped
        simpa [Place.timed, suspended] using before
    | timeout caller =>
        cases named
        rw [(step_timeout stepped).2]
        exact before
    | wake caller timedOut =>
        cases named
        obtain ⟨timed, asleep, _, rfl⟩ := step_wake stepped
        simpa [Place.timed, asleep] using before
    | recheck caller holds expired =>
        cases named
        rcases (step_recheck stepped).2 with rfl | rfl
        · cases kind : isFiber party <;> simp [leave, kind, Place.timed]
        · cases kind : isFiber party <;> simp [park, kind, Place.timed] <;> exact before
  · rcases (step_frame stepped named).place with same | roused
    · rw [same]
      exact before
    · rw [roused, ← before]
      cases monitor.place party <;> rfl

/-- A fiber that runs again, and a thread that wakes, look at the predicate next. -/
theorem stirs_of_step {after : Monitor π} {label : Label π} (stepped : monitor.step isFiber label = some after)
    (wakes : label = .resume party ∨ label = .timeout party ∨ ∃ timedOut, label = .wake party timedOut) :
    after.stirs party = true := by
  rcases wakes with rfl | rfl | ⟨timedOut, rfl⟩
  · obtain ⟨timed, _, _, rfl⟩ := step_resume stepped
    simp [stirs, Place.isAwake]
  · rw [(step_timeout stepped).2]
    simp [stirs]
  · obtain ⟨timed, _, _, rfl⟩ := step_wake stepped
    simp [stirs, Place.isAwake]

end Monitor

namespace Event

section

variable {π : Type} {event : Event π} {party : π}

/-- A signal that is not consumed has woken somebody. -/
def Alert (event : Event π) : Prop :=
  event.signalled = true → ∀ party, event.cv.sleeps party = true → ∃ other, event.cv.stirs other = true

theorem Alert.of_unset (unset : event.signalled = false) : event.Alert := by
  intro signalled
  rw [unset] at signalled
  cases signalled

theorem Alert.of_stirs (stirring : event.cv.stirs party = true) : event.Alert :=
  fun _ _ _ => ⟨party, stirring⟩

theorem consume_unset (auto : event.mode = .auto) : event.consume.signalled = false := by
  simp [consume, auto]

end

variable {event after : Event π} {label : Label π} {initial : Bool}

/-- Only a wait that looks at the signal and leaves it there can lose it. -/
theorem Alert.step (alert : event.Alert) (auto : event.mode = .auto) (inv : Monitor.Inv isFiber event.cv)
    (stepped : event.step isFiber label = some after)
    (answers : ∀ party expired, label = .recheck party expired → (event.cv.place party).isAwake = true →
      event.signalled = true → (event.cv.place party).answer true expired = some true) : after.Alert := by
  cases label with
  | signal sleeper =>
      simp only [Event.step] at stepped
      split at stepped
      · cases stepped
        exact alert
      · simp only [auto] at stepped
        obtain ⟨cv, called, rfl⟩ := Option.map_eq_some_iff.mp stepped
        intro _ party sleeping
        simp only [Monitor.step, Option.ite_none_right_eq_some, Option.some.injEq] at called
        obtain ⟨chosen, rfl⟩ := called
        exact inv.stirs_notifyOne chosen ((Monitor.notifyOne_frame sleeper).sleeps sleeping)
  | clear =>
      cases stepped
      exact .of_unset rfl
  | test =>
      simp only [Event.step, Option.some.injEq] at stepped
      subst stepped
      split
      · exact .of_unset (consume_unset auto)
      · exact alert
  | wait party timed =>
      simp only [Event.step] at stepped
      split at stepped
      · simp only [Option.ite_none_right_eq_some, Option.some.injEq] at stepped
        obtain ⟨_, rfl⟩ := stepped
        exact .of_unset (consume_unset auto)
      · rename_i unset
        obtain ⟨cv, called, rfl⟩ := Option.map_eq_some_iff.mp stepped
        exact .of_unset (by simpa using unset)
  | recheck party expired =>
      obtain ⟨cv, called, rfl⟩ := Option.map_eq_some_iff.mp stepped
      have awake := (Monitor.step_recheck called).1
      split
      · exact .of_unset (consume_unset auto)
      · rename_i unanswered
        refine .of_unset ?_
        cases signalled : event.signalled with
        | false => rfl
        | true =>
            rw [signalled] at unanswered
            exact absurd (answers party expired rfl awake signalled) unanswered
  | resume party =>
      obtain ⟨cv, called, rfl⟩ := Option.map_eq_some_iff.mp stepped
      exact .of_stirs (Monitor.stirs_of_step called (.inl rfl))
  | timeout party =>
      obtain ⟨cv, called, rfl⟩ := Option.map_eq_some_iff.mp stepped
      exact .of_stirs (Monitor.stirs_of_step called (.inr (.inl rfl)))
  | wake party timedOut =>
      obtain ⟨cv, called, rfl⟩ := Option.map_eq_some_iff.mp stepped
      exact .of_stirs (Monitor.stirs_of_step called (.inr (.inr ⟨timedOut, rfl⟩)))

/-- Only untimed waits, and a signal that is not consumed wakes somebody. -/
structure Serves (event : Event π) : Prop where
  untimed : ∀ party, (event.cv.place party).timed = false
  awake : event.Alert

theorem step_untimed (untimed : ∀ party, (event.cv.place party).timed = false)
    (stepped : event.step isFiber label = some after) (allowed : label.isUntimed = true) :
    ∀ party, (after.cv.place party).timed = false := by
  rcases step_call stepped with same | ⟨call, called, named⟩
  · rw [same]
    exact untimed
  · refine Monitor.step_untimed untimed called ?_
    intro party timed
    rw [named party true timed] at allowed
    cases allowed

theorem Serves.step (serves : Serves event) (auto : event.mode = .auto) (inv : Monitor.Inv isFiber event.cv)
    (stepped : event.step isFiber label = some after) (allowed : label.isUntimed = true) : Serves after :=
  ⟨step_untimed serves.untimed stepped allowed, serves.awake.step auto inv stepped
    fun party _ _ awake _ => answer_untimed awake (serves.untimed party)⟩

theorem accounts_of_reachable (reachable : (system isFiber .auto initial).Reachable event) :
    Accounts initial event := by
  induction reachable with
  | initial start =>
      subst start
      exact ⟨rfl, by simp⟩
  | step _ move ih => exact ih.step move

theorem serves_of_reachable
    (reachable : ((system isFiber .auto initial).restrict fun _ label => label.isUntimed = true).Reachable event) :
    Serves event := by
  induction reachable with
  | initial start =>
      subst start
      refine ⟨fun _ => rfl, fun _ party sleeping => ?_⟩
      simp [Monitor.sleeps, Monitor.suspends, Monitor.Place.isAsleep] at sleeping
  | step before move ih =>
      have reached := before.unrestrict
      exact ih.step (accounts_of_reachable reached).mode (Monitor.inv_of_reachable (cv_reachable reached)) move.2 move.1

/-- No signal of an `Auto` event is consumed twice, and none strands a waiter
while all waits are untimed. -/
theorem auto_reset (isFiber : π → Bool) (initial : Bool) :
    (∀ event : Event π, (system isFiber .auto initial).Reachable event →
      event.signalled.toNat + event.consumed + event.cleared = initial.toNat + event.signals ∧
        event.consumed ≤ initial.toNat + event.signals) ∧
    (∀ event : Event π,
      ((system isFiber .auto initial).restrict fun _ label => label.isUntimed = true).Reachable event →
      event.signalled = true → ∀ party, event.cv.sleeps party = true →
      ∃ other, event.cv.stirs other = true) := by
  refine ⟨fun event reachable => ?_, fun event reachable => (serves_of_reachable reachable).awake⟩
  have balance := (accounts_of_reachable reachable).balance
  exact ⟨balance, by omega⟩

/-- A fiber and a thread wait, and a signal has reached the fiber. -/
theorem auto_reset_once : ∃ event : Event Bool, event.signalled = true ∧ event.cv.sleeps false = true ∧
    (∃ other, event.cv.stirs other = true) ∧
    event.signalled.toNat + event.consumed + event.cleared = false.toNat + event.signals := by
  obtain ⟨event, reachable, seen⟩ := System.reachable_of_guarded_replay
    (· = ({ mode := .auto, signalled := false } : Event Bool)) (step id) (fun _ label => label.isUntimed) rfl
    [.wait true false, .wait false false, .signal false] (fun event => event.signalled && event.cv.sleeps false)
    (by decide)
  simp only [Bool.and_eq_true] at seen
  obtain ⟨accounting, serving⟩ := auto_reset (id : Bool → Bool) false
  exact ⟨event, seen.1, seen.2, serving event reachable seen.1 false seen.2,
    (accounting event reachable.unrestrict).1⟩

end Event

end MiniMarl
