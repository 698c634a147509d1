import MiniMarl.ConditionVariable.NotifyOne

namespace MiniMarl

open Transition

inductive Event.Mode where
  | auto
  | manual
deriving DecidableEq, Repr

/-- `Event::Shared`. Every call holds its mutex except where a wait is
suspended. The last three fields count what the calls have found. -/
structure Event (π : Type) where
  mode : Event.Mode
  signalled : Bool
  cv : Monitor π := {}
  /-- Calls of `signal` that found the event not signalled. -/
  signals : Nat := 0
  /-- Waits that have returned, and calls that have returned true. -/
  consumed : Nat := 0
  /-- Calls of `clear` that found the event signalled. -/
  cleared : Nat := 0

/-- A `wait_for` is a `wait_until`, a timed wait. -/
inductive Event.Label (π : Type) where
  | signal (sleeper : π)
  | clear
  | test
  | wait (party : π) (timed : Bool)
  | recheck (party : π) (expired : Bool)
  | resume (party : π)
  | timeout (party : π)
  | wake (party : π) (timedOut : Bool)

namespace Event

variable {π : Type} [DecidableEq π] [Fintype π]

/-- A wait or a `test` returns true. -/
def consume (event : Event π) : Event π :=
  { event with
    signalled := if event.mode = .auto then false else event.signalled
    consumed := event.consumed + 1 }

def step (isFiber : π → Bool) (event : Event π) : Label π → Option (Event π)
  | .signal sleeper =>
      if event.signalled then some event
      else
        let call := match event.mode with
          | .auto => Monitor.Label.notifyOne sleeper
          | .manual => .notifyAll
        (event.cv.step isFiber call).map fun cv =>
          { event with signalled := true, cv := cv, signals := event.signals + 1 }
  | .clear => some { event with signalled := false, cleared := event.cleared + event.signalled.toNat }
  | .test => some (if event.signalled then event.consume else event)
  | .wait party timed =>
      if event.signalled then if event.cv.place party = .outside then some event.consume else none
      else (event.cv.step isFiber (.wait party timed)).map fun cv => { event with cv := cv }
  | .recheck party expired =>
      (event.cv.step isFiber (.recheck party event.signalled expired)).map fun cv =>
        if (event.cv.place party).answer event.signalled expired = some true then
          { event with cv := cv }.consume
        else { event with cv := cv }
  | .resume party => (event.cv.step isFiber (.resume party)).map fun cv => { event with cv := cv }
  | .timeout party => (event.cv.step isFiber (.timeout party)).map fun cv => { event with cv := cv }
  | .wake party timedOut => (event.cv.step isFiber (.wake party timedOut)).map fun cv => { event with cv := cv }

def system (isFiber : π → Bool) (mode : Mode) (initial : Bool) : System (Event π) (Label π) :=
  .ofStep (· = { mode := mode, signalled := initial }) (step isFiber)

def Label.isUntimed : Label π → Bool
  | .wait _ timed => !timed
  | _ => true

variable {isFiber : π → Bool} {event after : Event π} {label : Label π} {initial : Bool}

/-- Each signal is still there, or has been consumed or cleared, once. -/
structure Accounts (initial : Bool) (event : Event π) : Prop where
  mode : event.mode = .auto
  balance : event.signalled.toNat + event.consumed + event.cleared = initial.toNat + event.signals

omit [DecidableEq π] [Fintype π] in
theorem Accounts.consume (accounts : Accounts initial event) (signalled : event.signalled = true) :
    Accounts initial event.consume := by
  have balance := accounts.balance
  rw [signalled, Bool.toNat_true] at balance
  refine ⟨accounts.mode, ?_⟩
  simp only [Event.consume, accounts.mode, if_true, Bool.toNat_false]
  omega

theorem answer_true {place : Monitor.Place} {holds expired : Bool} (answered : place.answer holds expired = some true) :
    holds = true := by
  cases holds with
  | true => rfl
  | false => cases place <;> simp [Monitor.Place.answer] at answered

theorem answer_untimed {place : Monitor.Place} {expired : Bool} (awake : place.isAwake = true)
    (untimed : place.timed = false) : place.answer true expired = some true := by
  cases place <;> simp_all [Monitor.Place.answer, Monitor.Place.isAwake, Monitor.Place.timed]

theorem Accounts.step (accounts : Accounts initial event) (stepped : event.step isFiber label = some after) :
    Accounts initial after := by
  have mode := accounts.mode
  have balance := accounts.balance
  cases label with
  | signal sleeper =>
      simp only [Event.step] at stepped
      split at stepped
      · cases stepped
        exact accounts
      · rename_i unset
        obtain ⟨cv, _, rfl⟩ := Option.map_eq_some_iff.mp stepped
        simp only [unset, Bool.toNat_false] at balance
        exact ⟨mode, by simp only [Bool.toNat_true]; omega⟩
  | clear =>
      cases stepped
      exact ⟨mode, by simp only [Bool.toNat_false]; omega⟩
  | test =>
      simp only [Event.step, Option.some.injEq] at stepped
      subst stepped
      split
      · rename_i signalled
        exact accounts.consume signalled
      · exact accounts
  | wait party timed =>
      simp only [Event.step] at stepped
      split at stepped
      · rename_i signalled
        simp only [Option.ite_none_right_eq_some, Option.some.injEq] at stepped
        exact stepped.2 ▸ accounts.consume signalled
      · obtain ⟨cv, _, rfl⟩ := Option.map_eq_some_iff.mp stepped
        exact ⟨mode, balance⟩
  | recheck party expired =>
      obtain ⟨cv, _, rfl⟩ := Option.map_eq_some_iff.mp stepped
      have moved : Accounts initial { event with cv := cv } := ⟨mode, balance⟩
      split
      · rename_i answered
        exact moved.consume (answer_true answered)
      · exact moved
  | resume party | timeout party | wake party timedOut =>
      obtain ⟨cv, _, rfl⟩ := Option.map_eq_some_iff.mp stepped
      exact ⟨mode, balance⟩

/-- A step makes at most one call of the condition variable, and calls `wait`
there only for a `wait` of its own. -/
theorem step_call (stepped : event.step isFiber label = some after) :
    after.cv = event.cv ∨ ∃ call, event.cv.step isFiber call = some after.cv ∧
      ∀ party timed, call = .wait party timed → label = .wait party timed := by
  cases label with
  | signal sleeper =>
      simp only [Event.step] at stepped
      split at stepped
      · cases stepped
        exact .inl rfl
      · obtain ⟨cv, called, rfl⟩ := Option.map_eq_some_iff.mp stepped
        refine .inr ⟨_, called, ?_⟩
        intro party timed same
        split at same <;> cases same
  | clear =>
      cases stepped
      exact .inl rfl
  | test =>
      simp only [Event.step, Option.some.injEq] at stepped
      subst stepped
      split <;> exact .inl rfl
  | wait party timed =>
      simp only [Event.step] at stepped
      split at stepped
      · simp only [Option.ite_none_right_eq_some, Option.some.injEq] at stepped
        exact .inl (stepped.2 ▸ rfl)
      · obtain ⟨cv, called, rfl⟩ := Option.map_eq_some_iff.mp stepped
        refine .inr ⟨_, called, ?_⟩
        intro caller deadline same
        cases same
        rfl
  | recheck party expired =>
      obtain ⟨cv, called, rfl⟩ := Option.map_eq_some_iff.mp stepped
      refine .inr ⟨_, called.trans ?_, nofun⟩
      split <;> rfl
  | resume party | timeout party | wake party timedOut =>
      obtain ⟨cv, called, rfl⟩ := Option.map_eq_some_iff.mp stepped
      exact .inr ⟨_, called, nofun⟩

theorem cv_reachable {mode : Mode} (reachable : (system isFiber mode initial).Reachable event) :
    (Monitor.system isFiber).Reachable event.cv := by
  induction reachable with
  | initial start =>
      subst start
      exact .initial rfl
  | step _ move ih =>
      rcases step_call move with same | ⟨call, called, _⟩
      · exact same ▸ ih
      · exact ih.step called

end Event

end MiniMarl
