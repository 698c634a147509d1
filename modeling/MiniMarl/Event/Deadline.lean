import MiniMarl.Event.AutoReset

namespace MiniMarl.Event

open Transition

section

variable {π : Type}

/-- The event is signalled, a fiber is suspended in a wait on it, and nobody
has been notified: every later `signal` returns early. -/
def Stranded (event : Event π) : Prop :=
  event.signalled = true ∧ (∃ party, event.cv.suspends party = true) ∧ ∀ other, event.cv.stirs other = false

instance [Fintype π] {event : Event π} : Decidable event.Stranded :=
  inferInstanceAs (Decidable (_ ∧ (∃ party, event.cv.suspends party = true) ∧ ∀ other, event.cv.stirs other = false))

/-- A `wait_for` or `wait_until` returns false. -/
def returnsFalse (event : Event π) : Label π → Bool
  | .recheck party expired => (event.cv.place party).answer event.signalled expired == some false
  | _ => false

/-- A fiber in a timed wait has the mutex again after its deadline, and the
event is signalled. -/
def overlooks (event : Event π) : Label π → Bool
  | .recheck party expired =>
      match event.cv.place party with
      | .resumed timed => timed && expired && event.signalled
      | _ => false
  | _ => false

theorem Alert.not_stranded {event : Event π} (alert : event.Alert) : ¬event.Stranded := by
  intro stranded
  obtain ⟨signalled, ⟨party, suspended⟩, quiet⟩ := stranded
  have sleeping : event.cv.sleeps party = true := by simp [Monitor.sleeps, suspended]
  obtain ⟨other, stirring⟩ := alert signalled party sleeping
  rw [quiet other] at stirring
  cases stirring

/-- A party that is awake takes the signal, unless its deadline comes first. -/
theorem answer_of_awake {event : Event π} {party : π} {expired : Bool}
    (awake : (event.cv.place party).isAwake = true) (signalled : event.signalled = true)
    (kept : event.overlooks (.recheck party expired) = false) :
    (event.cv.place party).answer true expired = some true := by
  cases place : event.cv.place party with
  | resumed timed =>
      have early : (timed && expired) = false := by simpa only [overlooks, place, signalled, Bool.and_true] using kept
      simp [Monitor.Place.answer, early]
  | woken timed timedOut => rfl
  | outside | suspended timed | asleep timed => simp [place, Monitor.Place.isAwake] at awake

end

variable {π : Type} [DecidableEq π] [Fintype π] {event : Event π}

theorem alert_of_reachable {isFiber : π → Bool} {initial : Bool}
    (reachable : ((system isFiber .auto initial).restrict fun event label =>
      event.overlooks label = false).Reachable event) : event.Alert := by
  induction reachable with
  | initial start =>
      subst start
      intro _ party sleeping
      simp [Monitor.sleeps, Monitor.suspends, Monitor.Place.isAsleep] at sleeping
  | step before move ih =>
      have reached := before.unrestrict
      refine ih.step (accounts_of_reachable reached).mode (Monitor.inv_of_reachable (cv_reachable reached)) move.2 ?_
      intro party expired named awake signalled
      exact answer_of_awake awake signalled (named ▸ move.1)

/-- As long as no fiber in a timed wait gets the mutex again after its deadline
with the event signalled, no fiber is left behind with the signal. -/
theorem timeout_strands_nobody (isFiber : π → Bool) (initial : Bool) :
    ∀ event : Event π, ((system isFiber .auto initial).restrict fun event label =>
      event.overlooks label = false).Reachable event → ¬event.Stranded :=
  fun _ reachable => (alert_of_reachable reachable).not_stranded

/-- A timed wait ends before the signal, and the other fiber is notified. -/
theorem timeout_strands_nobody_early : ∃ event : Event Bool, event.signalled = true ∧
    event.cv.place true = .outside ∧ ¬event.Stranded := by
  obtain ⟨event, reachable, seen⟩ := System.reachable_of_guarded_replay
    (· = ({ mode := .auto, signalled := false } : Event Bool)) (step fun _ => true)
    (fun event label => !event.overlooks label) rfl
    [.wait false false, .wait true true, .timeout true, .resume true, .recheck true true, .signal true]
    (fun event => event.signalled && decide (event.cv.place true = .outside)) (by decide)
  simp only [Bool.and_eq_true, decide_eq_true_eq, Bool.not_eq_true'] at seen reachable
  exact ⟨event, seen.1, seen.2, timeout_strands_nobody (fun _ => true) false event reachable⟩

/-- The newest waiter has a deadline and is notified, and runs only after the
deadline. -/
theorem timeout_strands_fiber : ¬∀ event after : Event Bool, ∀ label : Label Bool,
    (system (fun _ => true) .auto false).Reachable event → event.step (fun _ => true) label = some after →
    event.returnsFalse label = true → ¬after.Stranded := by
  intro claimed
  obtain ⟨event, reachable, seen⟩ := System.reachable_of_replay
    (· = ({ mode := .auto, signalled := false } : Event Bool)) (step fun _ => true) rfl
    [.wait false false, .wait true true, .signal true, .resume true]
    (fun event => event.returnsFalse (.recheck true true) &&
      (event.step (fun _ => true) (.recheck true true)).elim false fun after => decide after.Stranded) (by decide)
  rw [Bool.and_eq_true] at seen
  cases stepped : event.step (fun _ => true) (.recheck true true) with
  | none => simp [stepped] at seen
  | some after =>
      rw [stepped] at seen
      exact claimed event after _ reachable stepped seen.1 (by simpa using seen.2)

end MiniMarl.Event
