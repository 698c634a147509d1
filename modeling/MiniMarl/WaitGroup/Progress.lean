import MiniMarl.ConditionVariable.Progress
import MiniMarl.WaitGroup

namespace MiniMarl.WaitGroup

open Transition ConditionVariable

variable {π κ : Type} [DecidableEq π] [DecidableEq κ]
variable {home : π → Option κ} {group after : WaitGroup π κ} {party other : π} {label : Label π κ}

/-- The operation of the condition variable that a call takes next, and where
the call is then. Only the assertion of `done` takes none. -/
inductive Operation (group : WaitGroup π κ) (party : π) : ConditionVariable.Label π κ Nat → Call → Prop where
  | reach (found : group.call party = .decrement) (zero : decremented group.count = 0) :
      Operation group party (.change party (decremented group.count)) .lock
  | decrement (found : group.call party = .decrement) (positive : decremented group.count ≠ 0) :
      Operation group party (.adjust party (decremented group.count)) .idle
  | lock (found : group.call party = .lock) : Operation group party (.lock party) .notify
  | notify (found : group.call party = .notify) : Operation group party (.notifyAll party) .unlock
  | lockWait (found : group.call party = .lockWait) : Operation group party (.lock party) .callWait
  | callWait (found : group.call party = .callWait) : Operation group party (.wait party isZero) .unlockWait
  | unlock (found : group.call party = .unlock ∨ group.call party = .unlockWait)
      (free : (group.cv.pc party).isFree = true) : Operation group party (.unlock party) .idle
  | advance (found : group.call party = .unlock ∨ group.call party = .unlockWait)
      (busy : (group.cv.pc party).isFree = false) : Operation group party (.advance party false) (group.call party)

theorem perform_eq {next : Call} {cv : ConditionVariable.Label π κ Nat}
    (performed : group.perform home party cv next = some after) :
    group.cv.step home cv = some after.cv ∧ after.call = Function.update group.call party next := by
  obtain ⟨moved, stepped, rfl⟩ := Option.map_eq_some_iff.mp performed
  exact ⟨stepped, rfl⟩

theorem operate_cases (operated : group.operate home party = some after) :
    group.call party = .assert ∧ 0 < group.count ∧ after = group.enter party .decrement ∨
      ∃ label next, Operation group party label next ∧ group.cv.step home label = some after.cv ∧
        after.call = Function.update group.call party next := by
  cases found : group.call party with
  | idle => simp [operate, found] at operated
  | assert =>
      simp only [operate, found, Option.ite_none_right_eq_some, Option.some.injEq] at operated
      exact .inl ⟨rfl, operated.1, operated.2.symm⟩
  | decrement =>
      simp only [operate, found] at operated
      split at operated
      · rename_i zero
        exact .inr ⟨_, _, .reach found zero, perform_eq operated⟩
      · rename_i positive
        exact .inr ⟨_, _, .decrement found positive, perform_eq operated⟩
  | lock =>
      simp only [operate, found] at operated
      exact .inr ⟨_, _, .lock found, perform_eq operated⟩
  | notify =>
      simp only [operate, found] at operated
      exact .inr ⟨_, _, .notify found, perform_eq operated⟩
  | lockWait =>
      simp only [operate, found] at operated
      exact .inr ⟨_, _, .lockWait found, perform_eq operated⟩
  | callWait =>
      simp only [operate, found] at operated
      have performed := perform_eq operated
      exact .inr ⟨_, _, .callWait found, performed⟩
  | unlock =>
      simp only [operate, found] at operated
      split at operated
      · rename_i free
        exact .inr ⟨_, _, .unlock (.inl found) free, perform_eq operated⟩
      · rename_i busy
        refine .inr ⟨_, _, .advance (.inl found) (by simpa using busy), ?_⟩
        rw [found]
        exact perform_eq operated
  | unlockWait =>
      simp only [operate, found] at operated
      split at operated
      · rename_i free
        exact .inr ⟨_, _, .unlock (.inr found) free, perform_eq operated⟩
      · rename_i busy
        refine .inr ⟨_, _, .advance (.inr found) (by simpa using busy), ?_⟩
        rw [found]
        split at operated
        · have performed := perform_eq operated
          exact performed
        · exact perform_eq operated

/-- A call takes its operation when the condition variable allows it. -/
theorem operate_of {step : ConditionVariable.Label π κ Nat} {next : Call}
    {cv : ConditionVariable π κ Nat} (operation : Operation group party step next)
    (stepped : group.cv.step home step = some cv) : ∃ after, group.operate home party = some after := by
  cases operation with
  | reach found zero =>
      simp only [operate, found, if_pos zero, perform, stepped, Option.map_some]
      exact ⟨_, rfl⟩
  | decrement found positive => simp [operate, found, positive, perform, stepped]
  | lock found | notify found | lockWait found => simp [operate, found, perform, stepped]
  | callWait found => simp [operate, found, perform, observe, stepped]
  | unlock found free => rcases found with found | found <;> simp [operate, found, free, perform, stepped]
  | advance found busy =>
      rcases found with found | found <;> simp [operate, found, busy, perform, stepped]
      split <;> simp [observe, stepped]

namespace Call

/-- In `done`. -/
def signals : Call → Bool
  | .assert | .decrement | .lock | .notify | .unlock => true
  | _ => false

/-- In `wait`. -/
def waits : Call → Bool
  | .lockWait | .callWait | .unlockWait => true
  | _ => false

/-- In `done`, before its decrement. -/
def undone : Call → Bool
  | .assert | .decrement => true
  | _ => false

end Call

omit [DecidableEq π] [DecidableEq κ] in
theorem decremented_succ (fits : group.count < 2 ^ 32) (positive : 0 < group.count) :
    decremented group.count + 1 = group.count := by
  rw [decremented]
  omega

/-- What an operation does to the call that takes it, and to the count. -/
structure Effect (group after : WaitGroup π κ) (party : π) (next : Call) : Prop where
  call : after.call = Function.update group.call party next
  signals : (group.call party).signals = true → next.signals = true ∨ next = .idle
  waits : (group.call party).waits = true →
    next.waits = true ∨ next = .idle ∧ group.call party = .unlockWait ∧ (group.cv.pc party).isFree = true
  count : after.count + (group.call party).undone.toNat = group.count + next.undone.toNat
  onward : next.undone = true → (group.call party).undone = true

theorem operate_effect (operated : group.operate home party = some after) (fits : group.count < 2 ^ 32)
    (sound : (group.call party).undone = true → 0 < group.count) : ∃ next, Effect group after party next := by
  rcases operate_cases operated with ⟨found, _, rfl⟩ | ⟨step, next, operation, moved, call⟩
  · exact ⟨.decrement, rfl, by simp [Call.signals], by simp [found, Call.waits], by simp [found, Call.undone]; rfl,
      fun _ => by rw [found]; rfl⟩
  · refine ⟨next, call, ?_, ?_, ?_, ?_⟩
    · cases operation with
      | advance found busy => exact fun signals => .inl signals
      | unlock => exact fun _ => .inr rfl
      | _ => simp_all [Call.signals]
    · cases operation with
      | advance found busy => exact fun waits => .inl waits
      | unlock found free =>
          intro waits
          rcases found with found | found
          · simp [found, Call.waits] at waits
          · exact .inr ⟨rfl, found, free⟩
      | _ => simp_all [Call.waits]
    · cases operation with
      | reach found zero | decrement found positive =>
          have less := decremented_succ fits (sound (by rw [found]; rfl))
          simp only [ConditionVariable.step, Option.ite_none_right_eq_some, Option.some.injEq] at moved
          have same : after.count = decremented group.count := by rw [WaitGroup.count, ← moved.2]
          simp only [found, Call.undone, Bool.toNat_true, Bool.toNat_false]
          omega
      | lock found | lockWait found | notify found | callWait found =>
          simp only [ConditionVariable.step, Option.ite_none_right_eq_some, Option.some.injEq] at moved
          have same : after.count = group.count := by rw [WaitGroup.count, ← moved.2]; rfl
          simp [found, same, Call.undone]
      | unlock found free =>
          simp only [ConditionVariable.step, Option.ite_none_right_eq_some, Option.some.injEq] at moved
          have same : after.count = group.count := by rw [WaitGroup.count, ← moved.2]; rfl
          rcases found with found | found <;> simp [found, same, Call.undone]
      | advance found busy =>
          have same : after.count = group.count := (advance_debt moved).1
          simp [same]
    · cases operation with
      | advance found busy => exact id
      | _ => simp [Call.undone]

omit [DecidableEq κ] in
theorem Effect.zero {next : Call} (effect : Effect group after party next)
    (sound : (group.call party).undone = true → 0 < group.count) (zero : group.count = 0) : after.count = 0 := by
  have count := effect.count
  have onward := effect.onward
  cases undone : (group.call party).undone with
  | true => exact absurd (sound undone) (by omega)
  | false =>
      have still : next.undone = false := by simpa [undone] using onward
      simpa [undone, still, zero] using count

theorem perform_observed {next : Call} {cv : ConditionVariable.Label π κ Nat}
    (performed : group.perform home party cv next = some after) : after.observed = group.observed := by
  obtain ⟨moved, _, rfl⟩ := Option.map_eq_some_iff.mp performed
  rfl

/-- Only the evaluations of its predicate change what a wait has found. -/
theorem operate_observed (operated : group.operate home party = some after) :
    ∃ found, after.observed = Function.update group.observed party found ∧
      (found = true → group.observed party = true ∨ group.count = 0) := by
  have kept : after.observed = group.observed → ∃ found, after.observed = Function.update group.observed party found ∧
      (found = true → group.observed party = true ∨ group.count = 0) := by
    intro same
    exact ⟨group.observed party, by rw [same, Function.update_eq_self], .inl⟩
  cases found : group.call party with
  | idle => simp [operate, found] at operated
  | assert =>
      simp only [operate, found, Option.ite_none_right_eq_some, Option.some.injEq] at operated
      exact kept (by rw [← operated.2]; rfl)
  | decrement | unlock =>
      simp only [operate, found] at operated
      split at operated
      all_goals exact kept (perform_observed operated)
  | lock | notify | lockWait =>
      simp only [operate, found] at operated
      exact kept (perform_observed operated)
  | callWait =>
      simp only [operate, found] at operated
      exact ⟨false, perform_observed operated, by simp⟩
  | unlockWait =>
      simp only [operate, found] at operated
      split at operated
      · exact kept (perform_observed operated)
      · split at operated
        · refine ⟨_, perform_observed operated, ?_⟩
          intro zero
          exact .inr (of_decide_eq_true zero).1
        · exact kept (perform_observed operated)

section Lock

variable {state next : ConditionVariable π κ Nat} {expired : Bool}

/-- A wait that goes on outside of the user's lock comes back with it. -/
theorem advance_locked (moved : state.advance home party expired = some next)
    (locked : (state.pc party).outside = false → state.user = some party)
    (inside : (next.pc party).outside = false) : next.user = some party := by
  cases position : state.pc party <;> simp [position, Pc.outside] at locked
  case free | suspended | asleep => simp [ConditionVariable.advance, position] at moved
  case evaluate | count | check | readWaiting | readCondition =>
      simp only [ConditionVariable.advance, position, Option.some.injEq] at moved
      subst moved
      split <;> exact locked
  case unlockList | unlockErase | countCondition | last | uncountCondition | uncount | notifyCondition | unlockWork =>
      simp only [ConditionVariable.advance, position, Option.some.injEq] at moved
      subst moved
      exact locked
  case release =>
      simp only [ConditionVariable.advance, position, Option.some.injEq] at moved
      subst moved
      simp [goto, Pc.outside] at inside
  case test =>
      simp only [ConditionVariable.advance, position, Option.some.injEq] at moved
      subst moved
      split at inside
      · rename_i holds
        simpa [holds, goto] using locked
      · simp [goto, Pc.outside] at inside
  case lockList | lockErase | lockNotify =>
      simp only [ConditionVariable.advance, position, Option.ite_none_right_eq_some, Option.some.injEq] at moved
      obtain ⟨_, rfl⟩ := moved
      exact locked
  case relock | woken =>
      simp only [ConditionVariable.advance, position, Option.ite_none_right_eq_some, Option.some.injEq] at moved
      obtain ⟨_, rfl⟩ := moved
      rfl
  case lockWork =>
      obtain ⟨worker, _, _, rfl⟩ := advance_lockWork position moved
      exact locked
  case suspend | resumed =>
      simp only [ConditionVariable.advance, position, Option.bind_eq_some_iff, Option.some.injEq] at moved
      obtain ⟨worker, _, rfl⟩ := moved
      simp [goto, Pc.outside] at inside
  case notify rest =>
      cases rest with
      | nil =>
          simp only [ConditionVariable.advance, position, Option.some.injEq] at moved
          subst moved
          exact locked
      | cons fiber rest =>
          obtain ⟨worker, _, _, rfl⟩ := advance_notify_cons position moved
          exact locked

theorem data_of_external {label : ConditionVariable.Label π κ Nat} (external : label.external = true)
    (stepped : state.step home label = some next) : next.data = state.data := by
  cases label with
  | lockWorker worker | unlockWorker worker =>
      simp only [ConditionVariable.step, Option.ite_none_right_eq_some, Option.some.injEq] at stepped
      obtain ⟨_, rfl⟩ := stepped
      rfl
  | resume party =>
      obtain ⟨_, _, _, _, _, _, rfl⟩ := step_resume stepped
      rfl
  | timeout party =>
      obtain ⟨_, rfl⟩ := step_timeout stepped
      rfl
  | wake party timedOut =>
      obtain ⟨_, _, _, rfl⟩ := step_wake stepped
      rfl
  | _ => cases external

end Lock

/-- A call that has taken `data_->mutex` has it, but while its wait has given it up. -/
def Locked (group : WaitGroup π κ) : Prop :=
  ∀ party, (group.call party).holding = true → (group.cv.pc party).outside = false → group.cv.user = some party

omit [DecidableEq κ] in
theorem Locked.frame (locked : Locked group) (frame : Frame group.cv after.cv other)
    (call : after.call other = group.call other) (holding : (after.call other).holding = true)
    (inside : (after.cv.pc other).outside = false) : after.cv.user = some other := by
  rw [frame.user]
  refine locked other (call ▸ holding) ?_
  rcases frame.pc with same | roused
  · exact same ▸ inside
  · simpa [roused] using inside

theorem Operation.locked {step : ConditionVariable.Label π κ Nat} {next : Call}
    (operation : Operation group party step next) (locked : Locked group) (here : Local group party)
    (stepped : group.cv.step home step = some after.cv) (holding : next.holding = true)
    (inside : (after.cv.pc party).outside = false) : after.cv.user = some party := by
  have released : (group.cv.pc party).isFree = true → (group.cv.pc party).outside = false := by
    cases position : group.cv.pc party <;> simp [Pc.isFree, Pc.outside]
  cases operation with
  | reach | decrement | unlock => cases holding
  | lock found | lockWait found =>
      simp only [ConditionVariable.step, Option.ite_none_right_eq_some, Option.some.injEq] at stepped
      rw [← stepped.2]
  | notify found | callWait found =>
      simp only [ConditionVariable.step, Option.ite_none_right_eq_some, Option.some.injEq] at stepped
      rw [← stepped.2]
      refine locked party (by rw [found]; rfl) (released (here.free ?_ ?_)) <;> simp [found]
  | advance found busy => exact advance_locked stepped (fun outside => locked party holding outside) inside

variable [Fintype π]

theorem Locked.move (locked : Locked group) (inv : Inv home group) {step : ConditionVariable.Label π κ Nat}
    (stepped : group.cv.step home step = some after.cv) (named : step.party? = some party)
    (call : ∀ other, other ≠ party → after.call other = group.call other)
    (here : (after.call party).holding = true → (after.cv.pc party).outside = false → after.cv.user = some party) :
    Locked after := by
  intro other holding inside
  by_cases same : other = party
  · exact same ▸ here (same ▸ holding) (same ▸ inside)
  · have away : step.party? ≠ some other := by
      rw [named]
      simpa using Ne.symm same
    exact locked.frame (step_frame inv.cv.each stepped away) (call other same) holding inside

omit [DecidableEq κ] [Fintype π] in
theorem Locked.enter (locked : Locked group) {call : Call} (free : call.holding = false) :
    Locked (group.enter party call) := by
  intro other holding inside
  by_cases same : other = party
  · simp [WaitGroup.enter, same, free] at holding
  · exact locked other (by simpa [WaitGroup.enter, same] using holding) inside

theorem Locked.step (locked : Locked group) (inv : Inv home group) (stepped : group.step home label = some after) :
    Locked after := by
  cases label with
  | add party count =>
      simp only [WaitGroup.step, Option.ite_none_right_eq_some] at stepped
      obtain ⟨moved, call⟩ := perform_eq stepped.2
      refine locked.move inv moved rfl (fun other away => by simp [call, away]) ?_
      rw [call, Function.update_self]
      intro holding
      cases holding
  | done party | wait party =>
      simp only [WaitGroup.step, Option.ite_none_right_eq_some, Option.some.injEq] at stepped
      obtain ⟨_, rfl⟩ := stepped
      exact locked.enter rfl
  | operate party =>
      rcases operate_cases stepped with ⟨_, _, rfl⟩ | ⟨step, next, operation, moved, call⟩
      · exact locked.enter rfl
      · have named : step.party? = some party := by cases operation <;> rfl
        refine locked.move inv moved named (fun other away => by simp [call, away]) ?_
        rw [call, Function.update_self]
        exact operation.locked locked (inv.each party) moved
  | external label =>
      simp only [WaitGroup.step, Option.ite_none_right_eq_some] at stepped
      obtain ⟨external, mapped⟩ := stepped
      obtain ⟨cv, moved, rfl⟩ := Option.map_eq_some_iff.mp mapped
      intro other holding inside
      by_cases named : label.party? = some other
      · cases label with
        | resume party =>
            cases named
            obtain ⟨worker, call, _, _, _, _, rfl⟩ := step_resume moved
            simp [goto, Pc.outside] at inside
        | timeout party =>
            obtain ⟨_, rfl⟩ := step_timeout moved
            exact locked other holding inside
        | wake party timedOut =>
            cases named
            obtain ⟨call, _, _, rfl⟩ := step_wake moved
            simp [goto, Pc.outside] at inside
        | lockWorker | unlockWorker => cases named
        | _ => cases external
      · exact locked.frame (step_frame inv.cv.each moved named) rfl holding inside

/-- The call's own part of the operations that are left. -/
def Call.weight (parties : Nat) : Call → Nat
  | .idle => 0
  | .unlock | .unlockWait => 1
  | .callWait => 10
  | .lockWait => 11
  | .notify => 13 * parties + 8
  | .lock => 13 * parties + 9
  | .decrement => 13 * parties + 10
  | .assert => 13 * parties + 11

def budget (group : WaitGroup π κ) : Nat := group.cv.budget + ∑ party, (group.call party).weight (Fintype.card π)

/-- The steps of the calls under way. -/
def Label.inner : Label π κ → Bool
  | .operate _ => true
  | .external (.resume _) => true
  | _ => false

/-- Those, and the workers' own use of their mutexes. -/
def Label.closing : Label π κ → Bool
  | .operate _ => true
  | .external label => label.proceeds || label.ofWorker
  | _ => false

omit [DecidableEq κ] in
theorem sum_weight {next : Call} (call : after.call = Function.update group.call party next) :
    ∑ other, (after.call other).weight (Fintype.card π) + (group.call party).weight (Fintype.card π) =
      ∑ other, (group.call other).weight (Fintype.card π) + next.weight (Fintype.card π) := by
  have changed := Data.sum_change (fun other => (group.call other).weight (Fintype.card π))
    (fun other => (after.call other).weight (Fintype.card π)) party (fun other away => by simp [call, away])
  simpa [call] using changed

omit [DecidableEq κ] in
theorem enter_budget (group : WaitGroup π κ) (party : π) (call : Call) :
    (group.enter party call).budget + (group.call party).weight (Fintype.card π) =
      group.budget + call.weight (Fintype.card π) := by
  have sum : ∑ other, ((group.enter party call).call other).weight (Fintype.card π) +
      (group.call party).weight (Fintype.card π) =
      ∑ other, (group.call other).weight (Fintype.card π) + call.weight (Fintype.card π) := sum_weight rfl
  have same : (group.enter party call).cv.budget = group.cv.budget := rfl
  simp only [budget]
  omega

/-- What a call adds to the budget of the condition variable, and takes from its own. -/
theorem Operation.pays {step : ConditionVariable.Label π κ Nat} {next : Call}
    (operation : Operation group party step next) (inv : group.cv.Inv home)
    (stepped : group.cv.step home step = some after.cv) :
    after.cv.budget + next.weight (Fintype.card π) <
      group.cv.budget + (group.call party).weight (Fintype.card π) := by
  cases operation with
  | advance found busy =>
      have paid := advance_budget inv stepped
      omega
  | reach found | decrement found | lock found | lockWait found =>
      simp only [ConditionVariable.step, Option.ite_none_right_eq_some, Option.some.injEq] at stepped
      have same : after.cv.budget = group.cv.budget := budget_same (by rw [← stepped.2]) (by rw [← stepped.2])
      simp [found, same, Call.weight]
  | unlock found free =>
      simp only [ConditionVariable.step, Option.ite_none_right_eq_some, Option.some.injEq] at stepped
      have same : after.cv.budget = group.cv.budget := budget_same (by rw [← stepped.2]) (by rw [← stepped.2])
      rcases found with found | found <;> simp [found, same, Call.weight]
  | notify found =>
      simp only [ConditionVariable.step, Option.ite_none_right_eq_some, Option.some.injEq] at stepped
      obtain ⟨free, moved⟩ := stepped
      obtain ⟨result, position⟩ := Pc.eq_free free
      have entered : after.cv.budget + _ = group.cv.budget + _ :=
        budget_goto (by rw [← moved]; rfl) (by rw [← moved]; rfl)
      simp only [position, Pc.weight] at entered
      simp only [found, Call.weight]
      omega
  | callWait found =>
      simp only [ConditionVariable.step, Option.ite_none_right_eq_some, Option.some.injEq] at stepped
      obtain ⟨⟨free, _⟩, moved⟩ := stepped
      obtain ⟨result, position⟩ := Pc.eq_free free
      have entered : after.cv.budget + _ = group.cv.budget + _ :=
        budget_goto (by rw [← moved]; rfl) (by rw [← moved]; rfl)
      simp only [position, Pc.weight] at entered
      simp only [found, Call.weight]
      omega

omit [DecidableEq π] [DecidableEq κ] [Fintype π] in
theorem closes_external {label : ConditionVariable.Label π κ Nat} (external : label.external = true)
    (closing : (Label.external label).closing = true) :
    label.closing = true ∧ label.inner = (Label.external label).inner := by
  cases label <;> simp [ConditionVariable.Label.external, Label.closing, ConditionVariable.Label.proceeds,
    ConditionVariable.Label.ofWorker] at external closing <;> exact ⟨rfl, rfl⟩

theorem step_budget (inv : group.cv.Inv home) (closing : label.closing = true)
    (stepped : group.step home label = some after) : after.budget + label.inner.toNat ≤ group.budget := by
  cases label with
  | add | done | wait => cases closing
  | operate party =>
      change after.budget < group.budget
      rcases operate_cases stepped with ⟨found, _, rfl⟩ | ⟨step, next, operation, moved, call⟩
      · have entered := enter_budget group party .decrement
        have less : Call.weight (Fintype.card π) .decrement < Call.weight (Fintype.card π) .assert := Nat.lt_succ_self _
        rw [found] at entered
        omega
      · have sum := sum_weight call
        have paid := operation.pays inv moved
        simp only [budget]
        omega
  | external label =>
      simp only [WaitGroup.step, Option.ite_none_right_eq_some] at stepped
      obtain ⟨external, mapped⟩ := stepped
      obtain ⟨cv, moved, rfl⟩ := Option.map_eq_some_iff.mp mapped
      have closes := closes_external external closing
      have paid := ConditionVariable.step_budget inv closes.1 moved
      rw [closes.2] at paid
      simp only [budget]
      omega

omit [Fintype π] in
theorem step_cv (stepped : group.step home label = some after) :
    after.cv = group.cv ∨ ∃ move, group.cv.step home move = some after.cv := by
  cases label with
  | add party count =>
      simp only [WaitGroup.step, Option.ite_none_right_eq_some] at stepped
      exact .inr ⟨_, (perform_eq stepped.2).1⟩
  | done party | wait party =>
      simp only [WaitGroup.step, Option.ite_none_right_eq_some, Option.some.injEq] at stepped
      obtain ⟨_, rfl⟩ := stepped
      exact .inl rfl
  | operate party =>
      rcases operate_cases stepped with ⟨_, _, rfl⟩ | ⟨move, next, _, moved, _⟩
      · exact .inl rfl
      · exact .inr ⟨move, moved⟩
  | external label =>
      simp only [WaitGroup.step, Option.ite_none_right_eq_some] at stepped
      obtain ⟨cv, moved, rfl⟩ := Option.map_eq_some_iff.mp stepped.2
      exact .inr ⟨label, moved⟩

omit [Fintype π] in
theorem cv_reachable
    (reachable : ((system home).restrict fun group label => group.permitted label = true).Reachable group) :
    (ConditionVariable.system home).Reachable group.cv := by
  induction reachable with
  | initial start =>
      obtain ⟨count, _, rfl⟩ := start
      exact .initial ⟨count, rfl⟩
  | step _ move before =>
      rcases step_cv move.2 with same | ⟨_, moved⟩
      · exact same ▸ before
      · exact before.step moved

theorem locked_of_reachable
    (reachable : ((system home).restrict fun group label => group.permitted label = true).Reachable group) :
    Locked group := by
  refine reachable.invariant ?_ ?_
  · intro group start party holding
    obtain ⟨count, _, rfl⟩ := start
    cases holding
  · intro group label after before locked move
    exact locked.step (inv_of_reachable before) move.2

/-- The steps that close the calls under way. -/
def closing (home : π → Option κ) : System (WaitGroup π κ) (Label π κ) :=
  (system home).restrict fun _ label => label.closing = true

/-- The party has an operation to do. The assertion of a surplus `done` stops it. -/
def Unfinished (group : WaitGroup π κ) (party : π) : Prop :=
  group.cv.Unfinished party ∨ (group.cv.pc party).isFree = true ∧ group.call party ≠ .idle ∧
    (group.call party = .assert → 0 < group.count)

section Spending

/-- Some of the budget can be spent. -/
def Spends (home : π → Option κ) (group : WaitGroup π κ) : Prop :=
  ∃ labels after, (closing home).Run group labels after ∧ after.budget < group.budget

theorem spends_of_step (inv : group.cv.Inv home) (label : Label π κ) (closes : label.closing = true) (inner : label.inner = true)
    (stepped : group.step home label = some after) : Spends home group := by
  have paid := step_budget inv closes stepped
  rw [inner] at paid
  exact ⟨[label], after, .snoc .nil ⟨closes, stepped⟩, paid⟩

theorem Operation.spends (inv : group.cv.Inv home) {step : ConditionVariable.Label π κ Nat} {next : Call}
    {cv : ConditionVariable π κ Nat} (operation : Operation group party step next)
    (stepped : group.cv.step home step = some cv) : Spends home group := by
  obtain ⟨after, operated⟩ := operate_of operation stepped
  exact spends_of_step inv (.operate party) rfl rfl operated

/-- A call outside of the condition variable that has `data_->mutex` goes on. -/
theorem spends_of_free (inv : Inv home group) (locked : Locked group) (free : (group.cv.pc party).isFree = true)
    (holding : (group.call party).holding = true) : Spends home group := by
  have mine : group.cv.user = some party := by
    refine locked party holding ?_
    obtain ⟨result, position⟩ := Pc.eq_free free
    rw [position]
    rfl
  cases found : group.call party with
  | idle | assert | decrement | lock | lockWait => simp [found, Call.holding] at holding
  | notify => exact (Operation.notify found).spends inv.cv (by simp [ConditionVariable.step, free]; rfl)
  | callWait => exact (Operation.callWait found).spends inv.cv (by simp [ConditionVariable.step, free, mine]; rfl)
  | unlock => exact (Operation.unlock (.inl found) free).spends inv.cv (by simp [ConditionVariable.step, free, mine]; rfl)
  | unlockWait =>
      exact (Operation.unlock (.inr found) free).spends inv.cv (by simp [ConditionVariable.step, free, mine]; rfl)

theorem spends_of_proceeds (inv : Inv home group) {step : ConditionVariable.Label π κ Nat}
    {cv : ConditionVariable π κ Nat} (proceeds : step.proceeds = true) (stepped : group.cv.step home step = some cv) :
    Spends home group := by
  cases step with
  | advance party expired =>
      have prompt : expired = false := by simpa [ConditionVariable.Label.proceeds] using proceeds
      subst prompt
      have busy : (group.cv.pc party).isFree = false := by
        rw [← Bool.not_eq_true]
        intro free
        obtain ⟨result, position⟩ := Pc.eq_free free
        simp [ConditionVariable.step, ConditionVariable.advance, position] at stepped
      have found : group.call party = .unlock ∨ group.call party = .unlockWait := by
        by_contra other
        rw [not_or] at other
        simpa [busy] using (inv.each party).free other.1 other.2
      exact (Operation.advance found busy).spends inv.cv stepped
  | resume party =>
      have moved : group.step home (.external (.resume party)) = some { group with cv := cv } := by
        simp [WaitGroup.step, ConditionVariable.Label.external, stepped]
      exact spends_of_step inv.cv (.external (.resume party)) rfl rfl moved
  | _ => cases proceeds

theorem Spends.prepend (spends : Spends home after) (closes : label.closing = true)
    (stepped : group.step home label = some after) (same : after.budget = group.budget) : Spends home group := by
  obtain ⟨labels, last, run, less⟩ := spends
  exact ⟨label :: labels, last, run.cons ⟨closes, stepped⟩, same ▸ less⟩

theorem spends_of_unfinished
    (reachable : ((system home).restrict fun group label => group.permitted label = true).Reachable group)
    (party : π) (unfinished : group.cv.Unfinished party) : Spends home group := by
  have inv := inv_of_reachable reachable
  cases onward inv.cv (owned_of_reachable (cv_reachable reachable)) unfinished with
  | proceed label proceeds moved => exact spends_of_proceeds inv proceeds moved
  | @handOver first label middle after worker handed proceeds moved =>
      have external : first.external = true ∧ (Label.external first : Label π κ).closing = true := by
        cases first <;> first | exact ⟨rfl, rfl⟩ | cases worker
      have stepped : group.step home (.external first) = some { group with cv := middle } := by
        simp [WaitGroup.step, external.1, handed]
      have between := reachable.step ⟨by rfl, stepped⟩
      have spends := spends_of_proceeds (inv_of_reachable between) proceeds moved
      refine spends.prepend external.2 stepped ?_
      have same := budget_of_worker worker handed
      simp only [budget, same]
  | @unlock holder held free =>
      exact spends_of_free inv (locked_of_reachable reachable) free ((inv.each holder).holds held)

theorem exists_spending
    (reachable : ((system home).restrict fun group label => group.permitted label = true).Reachable group)
    (unfinished : group.Unfinished party) : Spends home group := by
  have inv := inv_of_reachable reachable
  rcases unfinished with inner | ⟨free, busy, sound⟩
  · exact spends_of_unfinished reachable party inner
  · have unlocked : group.cv.user = none → (group.call party = .lock ∨ group.call party = .lockWait) →
        Spends home group := by
      intro unlocked waits
      rcases waits with found | found
      · exact (Operation.lock found).spends inv.cv (by simp [ConditionVariable.step, free, unlocked]; rfl)
      · exact (Operation.lockWait found).spends inv.cv (by simp [ConditionVariable.step, free, unlocked]; rfl)
    by_cases waits : group.call party = .lock ∨ group.call party = .lockWait
    · cases held : group.cv.user with
      | none => exact unlocked held waits
      | some holder =>
          have outside := (inv.cv.each holder).outside
          by_cases outer : (group.cv.pc holder).isFree = true
          · exact spends_of_free inv (locked_of_reachable reachable) outer ((inv.each holder).holds held)
          · refine spends_of_unfinished reachable holder (.inl ?_)
            cases position : group.cv.pc holder <;>
              simp [position, Pc.isFree, Pc.outside] at outer outside <;> first | rfl | exact absurd held outside
    · by_cases holding : (group.call party).holding = true
      · exact spends_of_free inv (locked_of_reachable reachable) free holding
      · cases found : group.call party <;> simp [found, Call.holding] at busy sound waits holding
        case assert =>
          have asserted : group.step home (.operate party) = some (group.enter party .decrement) := by
            simp [WaitGroup.step, operate, found, sound]
          exact spends_of_step inv.cv (.operate party) rfl rfl asserted
        case decrement =>
          by_cases zero : decremented group.count = 0
          · exact (Operation.reach found zero).spends inv.cv (by simp [ConditionVariable.step, free]; rfl)
          · exact (Operation.decrement found zero).spends inv.cv (by simp [ConditionVariable.step, free]; rfl)

end Spending

omit [Fintype π] in
theorem closing_reachable (group : WaitGroup π κ) (label : Label π κ) (after : WaitGroup π κ)
    (reachable : ((system home).restrict fun group label => group.permitted label = true).Reachable group)
    (move : (closing home).next group label after) :
    ((system home).restrict fun group label => group.permitted label = true).Reachable after := by
  refine reachable.step ⟨?_, move.2⟩
  have closes := move.1
  cases label <;> first | rfl | cases closes

/-- Every `done` under way has decremented a count that is zero now. -/
def Drained (group : WaitGroup π κ) : Prop :=
  group.count = 0 ∧ ∀ party, group.call party ≠ .assert ∧ group.call party ≠ .decrement

omit [Fintype π] in
/-- Only `done` changes the count. -/
theorem Operation.keeps {step : ConditionVariable.Label π κ Nat} {next : Call}
    (operation : Operation group party step next) (undone : group.call party ≠ .decrement)
    (stepped : group.cv.step home step = some after.cv) :
    after.count = group.count ∧ (next = .assert → group.call party = .assert) ∧ next ≠ .decrement := by
  cases operation with
  | reach found | decrement found => exact absurd found undone
  | lock found | lockWait found | notify found | callWait found | unlock found =>
      simp only [ConditionVariable.step, Option.ite_none_right_eq_some, Option.some.injEq] at stepped
      exact ⟨by rw [count, ← stepped.2]; rfl, by simp, by simp⟩
  | advance found busy => exact ⟨(advance_debt stepped).1, id, undone⟩

theorem Drained.step (drained : Drained group) (inv : group.cv.Inv home) (closing : label.closing = true)
    (stepped : group.step home label = some after) : Drained after := by
  obtain ⟨zero, undone⟩ := drained
  cases label with
  | add | done | wait => cases closing
  | operate party =>
      rcases operate_cases stepped with ⟨found, _, _⟩ | ⟨step, next, operation, moved, call⟩
      · exact absurd found (undone party).1
      · obtain ⟨same, asserts, decrements⟩ := operation.keeps (undone party).2 moved
        refine ⟨same.trans zero, fun other => ?_⟩
        rw [call]
        by_cases here : other = party
        · rw [here, Function.update_self]
          exact ⟨fun assert => (undone party).1 (asserts assert), decrements⟩
        · rw [Function.update_of_ne here]
          exact undone other
  | external label =>
      simp only [WaitGroup.step, Option.ite_none_right_eq_some] at stepped
      obtain ⟨external, mapped⟩ := stepped
      obtain ⟨cv, moved, rfl⟩ := Option.map_eq_some_iff.mp mapped
      exact ⟨(step_closing inv (closes_external external closing).1 moved).1.trans zero, undone⟩

theorem drained_of_closing
    (reachable : ((system home).restrict fun group label => group.permitted label = true).Reachable group)
    (drained : Drained group) {labels : List (Label π κ)} (run : (closing home).Run group labels after) :
    Drained after := by
  induction run with
  | nil => exact drained
  | snoc before move ih =>
      have reached := before.keeps reachable closing_reachable
      exact ih.step (inv_of_reachable reached).cv move.1 move.2

theorem exists_finished
    (reachable : ((system home).restrict fun group label => group.permitted label = true).Reachable group) :
    ∃ later after, (closing home).Run group later after ∧ ∀ party, ¬ after.Unfinished party := by
  refine System.exists_settled reachable closing_reachable budget (fun group => ∀ party, ¬ group.Unfinished party) ?_
  intro group reachable unsettled
  simp only [not_forall, not_not] at unsettled
  obtain ⟨party, unfinished⟩ := unsettled
  exact exists_spending reachable unfinished

omit [DecidableEq κ] in
/-- Where the parties are when nobody has an operation left. -/
theorem Inv.settled (inv : Inv home group) (finished : ∀ party, ¬ group.Unfinished party) (party : π) :
    group.call party = .idle ∨
      group.call party = .unlockWait ∧ (group.cv.pc party).isFree = false ∧ group.count ≠ 0 ∨
      group.call party = .assert ∧ group.count = 0 := by
  have quit : group.cv.Quit := by
    intro party
    have here := inv.each party
    have stays : (group.cv.pc party).isFree = true → group.call party = .lock ∨ group.call party = .notify → False := by
      intro free busy
      exact finished party (.inr ⟨free, by rcases busy with found | found <;> simp [found],
        by rcases busy with found | found <;> simp [found]⟩)
    cases owed : group.cv.debt party with
    | none => exact .inl rfl
    | paying => exact .inr rfl
    | unlocked =>
        have found := here.unlocked owed
        exact (stays (here.free (by simp [found]) (by simp [found])) (.inl found)).elim
    | ready =>
        have found := here.ready owed
        exact (stays (here.free (by simp [found]) (by simp [found])) (.inr found)).elim
  rcases inv.heard.settled inv.cv quit (fun party inner => finished party (.inl inner)) party with
    free | ⟨call, place, _, refused⟩
  · have outer : ¬ (group.call party ≠ .idle ∧ (group.call party = .assert → 0 < group.count)) :=
      fun busy => finished party (.inr ⟨free, busy.1, busy.2⟩)
    by_cases idle : group.call party = .idle
    · exact .inl idle
    · simp only [ne_eq, idle, not_false_eq_true, true_and, Classical.not_imp, Nat.not_lt, Nat.le_zero] at outer
      exact .inr (.inr outer)
  · have exposed : (group.cv.pc party).exposed? = some call := by
      rcases place with position | position <;> rw [position] <;> rfl
    have zero : call = isZero := (inv.each party).isZero call (Pc.call_of_exposed exposed)
    refine .inr (.inl ⟨(inv.each party).waiting exposed, ?_, ?_⟩)
    · rcases place with position | position <;> rw [position] <;> rfl
    · subst zero
      simpa [isZero, count] using refused

omit [DecidableEq κ] in
theorem budget_le (inv : group.cv.Inv home) (owned : Owned home group.cv) :
    group.budget ≤ Fintype.card π * (26 * Fintype.card π + 17) := by
  have inner := ConditionVariable.budget_le inv owned
  have calls : ∑ party, (group.call party).weight (Fintype.card π) ≤ Fintype.card π * (13 * Fintype.card π + 11) := by
    rw [← smul_eq_mul, ← Finset.card_univ]
    apply Finset.sum_le_card_nsmul
    intro party _
    cases group.call party <;> simp [Call.weight]
  rw [budget]
  have total : Fintype.card π * (26 * Fintype.card π + 17) =
      Fintype.card π * (13 * Fintype.card π + 6) + Fintype.card π * (13 * Fintype.card π + 11) := by
    rw [← Nat.mul_add]
    congr 1
    omega
  omega

/-- The calls are never stuck: from any reachable state on they take a bounded
number of operations, and they can be finished, whatever they have done so far.
What is left then are the waiters for a count that is not zero, and a `done`
that fails its assertion; nothing, if the count has reached zero. -/
theorem calls_return {home : π → Option κ} {group : WaitGroup π κ}
    (reachable : ((system home).restrict fun group label => group.permitted label = true).Reachable group)
    {labels : List (Label π κ)} {middle : WaitGroup π κ} (run : (closing home).Run group labels middle) :
    labels.countP Label.inner ≤ Fintype.card π * (26 * Fintype.card π + 17) ∧
      ∃ later after, (closing home).Run middle later after ∧ (∀ party, after.call party = .idle ∨
        after.call party = .unlockWait ∧ (after.cv.pc party).isFree = false ∧ after.count ≠ 0 ∨
        after.call party = .assert ∧ after.count = 0) ∧
        (group.Drained → ∀ party, after.call party = .idle) := by
  have spent := run.spends reachable closing_reachable budget Label.inner
    fun group label after reachable move => step_budget (inv_of_reachable reachable).cv move.1 move.2
  have bound := budget_le (inv_of_reachable reachable).cv (owned_of_reachable (cv_reachable reachable))
  refine ⟨by omega, ?_⟩
  obtain ⟨later, after, rest, finished⟩ := exists_finished (run.keeps reachable closing_reachable)
  have settled := (inv_of_reachable ((run.append rest).keeps reachable closing_reachable)).settled finished
  refine ⟨later, after, rest, settled, fun drained party => ?_⟩
  obtain ⟨zero, undone⟩ := drained_of_closing reachable drained (run.append rest)
  rcases settled party with idle | ⟨_, _, positive⟩ | ⟨assert, _⟩
  · exact idle
  · exact absurd zero positive
  · exact absurd assert (undone party).1

/-- A thread has decremented the count that a suspended fiber waits for. -/
theorem calls_return_of_zero :
    ∃ group : WaitGroup Bool Unit, group.cv.fiber true = .yielded ∧
      ∃ later after, (closing fun party => if party then some () else none).Run group later after ∧
        after.call true = .idle := by
  obtain ⟨group, reachable, seen⟩ := System.reachable_of_guarded_replay
    (fun group : WaitGroup Bool Unit => ∃ count < 2 ^ 32, group = { cv := { data := count } })
    (step fun party => if party then some () else none) permitted ⟨1, by decide, rfl⟩
    ([.wait true] ++ List.replicate 10 (.operate true) ++ [.done false, .operate false, .operate false])
    (fun group => decide (group.cv.fiber true = .yielded ∧ group.count = 0 ∧ group.call true = .unlockWait ∧
      group.call false = .lock)) (by decide +kernel)
  obtain ⟨yielded, zero, waiter, notifier⟩ := of_decide_eq_true seen
  have drained : group.Drained := by
    refine ⟨zero, fun party => ?_⟩
    cases party with
    | false => simp [notifier]
    | true => simp [waiter]
  obtain ⟨later, after, run, _, returned⟩ := (calls_return reachable .nil).2
  exact ⟨group, yielded, later, after, run, returned drained true⟩

end MiniMarl.WaitGroup
