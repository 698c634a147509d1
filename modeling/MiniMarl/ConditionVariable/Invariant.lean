import Mathlib.Algebra.BigOperators.Group.Finset.Basic
import Mathlib.Algebra.Order.BigOperators.Group.Finset
import MiniMarl.ConditionVariable.Step
import MiniMarl.Data.Counting

namespace MiniMarl

namespace Pc

variable {π κ δ : Type}

/-- In a wait, with the user's lock. -/
def inside : Pc π κ δ → Bool
  | .evaluate _ | .count _ | .lockList _ | .unlockList _ | .check _ | .lockWork _ | .release _
  | .lockErase _ | .unlockErase _ | .countCondition _ | .test _ | .last _ | .uncountCondition _
  | .uncount _ => true
  | _ => false

/-- In a wait that has released the user's lock. -/
def outside : Pc π κ δ → Bool
  | .suspend _ | .suspended _ | .resumed _ | .relock _ | .asleep _ | .woken _ _ => true
  | _ => false

/-- The fiber has an entry in `waiting_`. -/
def registered : Pc π κ δ → Bool
  | .unlockList _ | .check _ | .lockWork _ | .release _ | .suspend _ | .suspended _ | .resumed _
  | .relock _ | .lockErase _ => true
  | _ => false

def onFiber : Pc π κ δ → Bool
  | .lockList _ | .unlockErase _ => true
  | pc => pc.registered

def onThread : Pc π κ δ → Bool
  | .countCondition _ | .test _ | .asleep _ | .woken _ _ | .last _ | .uncountCondition _ => true
  | _ => false

/-- Counted in `num_waiting_`. -/
def counted : Pc π κ δ → Bool
  | .uncount _ => true
  | pc => pc.onFiber || pc.onThread

/-- Counted in `num_waiting_on_condition`. -/
def countedOnCondition : Pc π κ δ → Bool
  | .test _ | .asleep _ | .woken _ _ | .last _ | .uncountCondition _ => true
  | _ => false

def isSuspended : Pc π κ δ → Bool
  | .suspended _ => true
  | _ => false

/-- Only a wait with a deadline times out. -/
def timely : Pc π κ δ → Bool
  | .woken call timedOut => !timedOut || call.timed
  | .last call => call.timed
  | _ => true

def notifying : Pc π κ δ → Bool
  | .readWaiting | .lockNotify | .notify _ | .unlockWork _ _ | .readCondition | .notifyCondition => true
  | _ => false

/-- The `work_.mutex` that a party holds there. -/
def holdsWork (home : Option κ) : Pc π κ δ → Option κ
  | .release _ | .suspend _ | .resumed _ => home
  | .unlockWork worker _ => some worker
  | _ => none

variable (pc : Pc π κ δ)

@[simp] theorem roused_inside : pc.roused.inside = pc.inside := by cases pc <;> rfl

@[simp] theorem roused_outside : pc.roused.outside = pc.outside := by cases pc <;> rfl

@[simp] theorem roused_registered : pc.roused.registered = pc.registered := by cases pc <;> rfl

@[simp] theorem roused_onFiber : pc.roused.onFiber = pc.onFiber := by cases pc <;> rfl

@[simp] theorem roused_onThread : pc.roused.onThread = pc.onThread := by cases pc <;> rfl

@[simp] theorem roused_counted : pc.roused.counted = pc.counted := by cases pc <;> rfl

@[simp] theorem roused_countedOnCondition : pc.roused.countedOnCondition = pc.countedOnCondition := by
  cases pc <;> rfl

@[simp] theorem roused_notifying : pc.roused.notifying = pc.notifying := by cases pc <;> rfl

@[simp] theorem roused_holdsWork (home : Option κ) : pc.roused.holdsWork home = pc.holdsWork home := by
  cases pc <;> rfl

theorem roused_timely (timely : pc.timely = true) : pc.roused.timely = true := by
  cases pc <;> exact timely

@[simp] theorem roused_isSuspended : pc.roused.isSuspended = pc.isSuspended := by cases pc <;> rfl

end Pc

@[simp] theorem Debt.paid_ne_paying (debt : Debt) : debt.paid ≠ .paying := by cases debt <;> simp [Debt.paid]

@[simp] theorem Debt.locked_eq_paying (debt : Debt) : debt.locked = .paying ↔ debt = .paying := by
  cases debt <;> simp [Debt.locked]

namespace ConditionVariable

open Transition

variable {π κ δ : Type} [DecidableEq π]
variable {home : π → Option κ} {state after : ConditionVariable π κ δ} {party other : π} {expired : Bool}

/-- What the position of a party says about the shared state. -/
structure Local (home : π → Option κ) (state : ConditionVariable π κ δ) (party : π) : Prop where
  inside : (state.pc party).inside = true → state.user = some party
  outside : (state.pc party).outside = true → state.user ≠ some party
  work : ∀ worker, (state.pc party).holdsWork (home party) = some worker →
    state.work worker = some (.party party)
  registered : state.waiting.count party = (state.pc party).registered.toNat
  onFiber : (state.pc party).onFiber = true → (home party).isSome = true
  onThread : (state.pc party).onThread = true → home party = none
  fiber : state.fiber party ≠ .running ↔ (state.pc party).isSuspended = true
  paying : state.debt party = .paying → (state.pc party).notifying = true
  timely : (state.pc party).timely = true

/-- What a step leaves alone of a party that does not take it. -/
structure Frame (state after : ConditionVariable π κ δ) (other : π) : Prop where
  user : after.user = some other ↔ state.user = some other
  work : ∀ worker, state.work worker = some (.party other) → after.work worker = some (.party other)
  waiting : after.waiting.count other = state.waiting.count other
  pc : after.pc other = state.pc other ∨ after.pc other = (state.pc other).roused
  fiber : after.fiber other = state.fiber other ∨ after.fiber other = (state.fiber other).notified
  debt : after.debt other = state.debt other

theorem Frame.keeps (frame : Frame state after other) (old : Local home state other) : Local home after other := by
  constructor
  · intro held
    rw [frame.user]
    exact old.inside (by rcases frame.pc with same | same <;> simpa [same] using held)
  · intro released
    rw [ne_eq, frame.user]
    exact old.outside (by rcases frame.pc with same | same <;> simpa [same] using released)
  · intro worker holds
    exact frame.work worker (old.work worker (by rcases frame.pc with same | same <;> simpa [same] using holds))
  · rw [frame.waiting, old.registered]
    rcases frame.pc with same | same <;> simp [same]
  · intro fiber
    exact old.onFiber (by rcases frame.pc with same | same <;> simpa [same] using fiber)
  · intro thread
    exact old.onThread (by rcases frame.pc with same | same <;> simpa [same] using thread)
  · have moved : after.fiber other ≠ .running ↔ state.fiber other ≠ .running := by
      rcases frame.fiber with same | same <;> simp [same]
    rw [moved, old.fiber]
    rcases frame.pc with same | same <;> simp [same]
  · intro paying
    have notifying := old.paying (frame.debt ▸ paying)
    rcases frame.pc with same | same <;> simpa [same] using notifying
  · rcases frame.pc with same | same
    · exact same ▸ old.timely
    · exact same ▸ Pc.roused_timely _ old.timely

omit [DecidableEq π] in
theorem work_of_update [DecidableEq κ] {work : κ → Option (Holder π)} {worker place : κ} {holder : Option (Holder π)}
    (free : work worker ≠ some (.party other)) (held : work place = some (.party other)) :
    Function.update work worker holder place = some (.party other) := by
  rw [Function.update_of_ne, held]
  intro same
  exact free (same ▸ held)

variable [DecidableEq κ] {label : Label π κ δ}

theorem advance_frame (here : Local home state party) (moved : state.advance home party expired = some after)
    (away : other ≠ party) : Frame state after other := by
  have user := here.inside
  have work := here.work
  cases position : state.pc party with
  | free _ | suspended _ | asleep _ => simp [advance, position] at moved
  | evaluate _ | count _ | unlockList _ | check _ | unlockErase _ | countCondition _ | last _
  | uncountCondition _ | uncount _ =>
      simp only [advance, position, Option.some.injEq] at moved
      subst moved
      constructor <;> simp [goto, away]
  | release _ =>
      simp only [advance, position, Option.some.injEq] at moved
      subst moved
      constructor <;> simp [goto, away, Ne.symm away, user (by simp [position, Pc.inside])]
  | test call =>
      simp only [advance, position, Option.some.injEq] at moved
      subst moved
      split <;> constructor <;> simp [goto, away, Ne.symm away, user (by simp [position, Pc.inside])]
  | lockList _ | lockErase _ | lockNotify =>
      simp only [advance, position, Option.ite_none_right_eq_some, Option.some.injEq] at moved
      obtain ⟨_, rfl⟩ := moved
      constructor <;> simp [goto, away, List.count_cons_of_ne (Ne.symm away)]
  | relock _ | woken _ _ =>
      simp only [advance, position, Option.ite_none_right_eq_some, Option.some.injEq] at moved
      obtain ⟨unlocked, rfl⟩ := moved
      constructor <;> simp [goto, away, Ne.symm away, unlocked]
  | lockWork _ =>
      obtain ⟨worker, lives, unlocked, rfl⟩ := advance_lockWork position moved
      constructor <;> simp [goto, away]
      exact fun _ => work_of_update (by simp [unlocked])
  | suspend _ | resumed _ =>
      simp only [advance, position] at moved
      obtain ⟨worker, lives, moved⟩ := Option.bind_eq_some_iff.mp moved
      simp only [Option.some.injEq] at moved
      subst moved
      have mine := work worker (by simp [position, Pc.holdsWork, lives])
      constructor <;> simp [goto, away]
      exact fun _ => work_of_update (by simp [mine, Ne.symm away])
  | unlockWork worker rest =>
      simp only [advance, position, Option.some.injEq] at moved
      subst moved
      have mine := work worker (by simp [position, Pc.holdsWork])
      constructor <;> simp [goto, away]
      exact fun _ => work_of_update (by simp [mine, Ne.symm away])
  | notify rest =>
      cases rest with
      | nil =>
          simp only [advance, position, Option.some.injEq] at moved
          subst moved
          constructor <;> simp [goto, away]
      | cons fiber rest =>
          obtain ⟨worker, lives, unlocked, rfl⟩ := advance_notify_cons position moved
          refine ⟨Iff.rfl, fun _ => work_of_update (by simp [unlocked]), rfl, by simp [goto, away], ?_, rfl⟩
          by_cases reached : other = fiber
          · exact .inr (by simp [goto, reached])
          · exact .inl (by simp [goto, reached])
  | readWaiting | readCondition =>
      simp only [advance, position, Option.some.injEq] at moved
      subst moved
      split <;> constructor <;> simp [goto, finish, away]
  | notifyCondition =>
      simp only [advance, position, Option.some.injEq] at moved
      subst moved
      constructor <;> simp [finish, away]

attribute [local simp] Pc.inside Pc.outside Pc.registered Pc.onFiber Pc.onThread Pc.notifying Pc.isSuspended Pc.timely Pc.holdsWork
  Pc.counted Pc.countedOnCondition

theorem advance_local (here : Local home state party)
    (moved : state.advance home party expired = some after) : Local home after party := by
  obtain ⟨inside, outside, work, registered, onFiber, onThread, fiber, paying, timely⟩ := here
  -- what is known at each position, before the step is looked at
  cases position : state.pc party <;> simp [position] at inside outside work registered onFiber onThread fiber paying timely
  case free | suspended | asleep => simp [advance, position] at moved
  case evaluate | check | count | test =>
      simp only [advance, position, Option.some.injEq] at moved
      subst moved
      split <;> constructor <;> simp_all [goto]
  case unlockList | release | unlockErase | countCondition | last | uncountCondition | uncount =>
      simp only [advance, position, Option.some.injEq] at moved
      subst moved
      constructor <;> simp_all [goto]
  case lockList | lockNotify =>
      simp only [advance, position, Option.ite_none_right_eq_some, Option.some.injEq] at moved
      obtain ⟨_, rfl⟩ := moved
      constructor <;> simp [goto, *]
  case lockErase =>
      simp only [advance, position, Option.ite_none_right_eq_some, Option.some.injEq] at moved
      obtain ⟨_, rfl⟩ := moved
      constructor <;> simp [goto, *]
  case relock =>
      simp only [advance, position, Option.ite_none_right_eq_some, Option.some.injEq] at moved
      obtain ⟨_, rfl⟩ := moved
      split <;> constructor <;> simp [goto, *]
  case woken =>
      simp only [advance, position, Option.ite_none_right_eq_some, Option.some.injEq] at moved
      obtain ⟨_, rfl⟩ := moved
      split <;> constructor <;> simp_all [goto]
  case lockWork =>
      obtain ⟨worker, lives, _, rfl⟩ := advance_lockWork position moved
      constructor <;> simp [goto, *]
  case suspend | resumed =>
      simp only [advance, position] at moved
      obtain ⟨worker, lives, moved⟩ := Option.bind_eq_some_iff.mp moved
      simp only [Option.some.injEq] at moved
      subst moved
      constructor <;> simp [goto, *]
  case unlockWork worker rest =>
      simp only [advance, position, Option.some.injEq] at moved
      subst moved
      constructor <;> simp [goto, *]
  case notify rest =>
      cases rest with
      | nil =>
          simp only [advance, position, Option.some.injEq] at moved
          subst moved
          constructor <;> simp [goto, *]
      | cons next rest =>
          obtain ⟨worker, lives, _, rfl⟩ := advance_notify_cons position moved
          have running : state.fiber party = .running := by simpa [position] using fiber
          have still : Function.update state.fiber next (state.fiber next).notified party = .running := by
            by_cases same : party = next
            · simp [← same, running, Fiber.State.notified]
            · simp [same, running]
          constructor <;> simp [goto, *]
  case readWaiting | readCondition =>
      simp only [advance, position, Option.some.injEq] at moved
      subst moved
      split <;> constructor <;> simp [goto, finish, *]
  case notifyCondition =>
      simp only [advance, position, Option.some.injEq] at moved
      subst moved
      constructor <;> simp [finish, *]

theorem advance_counts (moved : state.advance home party expired = some after) :
    after.numWaiting + (state.pc party).counted.toNat = state.numWaiting + (after.pc party).counted.toNat ∧
      after.numWaitingOnCondition + (state.pc party).countedOnCondition.toNat =
        state.numWaitingOnCondition + (after.pc party).countedOnCondition.toNat := by
  cases position : state.pc party with
  | free _ | suspended _ | asleep _ => simp [advance, position] at moved
  | evaluate _ | check _ | count _ | test _ | readWaiting | readCondition =>
      simp only [advance, position, Option.some.injEq] at moved
      subst moved
      split <;> simp [goto, finish]
  | unlockList _ | release _ | unlockErase _ | countCondition _ | last _ | uncountCondition _ | uncount _
  | notifyCondition | unlockWork _ _ =>
      simp only [advance, position, Option.some.injEq] at moved
      subst moved
      simp [goto, finish]
  | lockList _ | lockErase _ | lockNotify =>
      simp only [advance, position, Option.ite_none_right_eq_some, Option.some.injEq] at moved
      obtain ⟨_, rfl⟩ := moved
      simp [goto]
  | relock _ | woken _ _ =>
      simp only [advance, position, Option.ite_none_right_eq_some, Option.some.injEq] at moved
      obtain ⟨_, rfl⟩ := moved
      split <;> simp [goto]
  | lockWork _ =>
      obtain ⟨worker, lives, _, rfl⟩ := advance_lockWork position moved
      simp [goto]
  | suspend _ | resumed _ =>
      simp only [advance, position] at moved
      obtain ⟨worker, lives, moved⟩ := Option.bind_eq_some_iff.mp moved
      simp only [Option.some.injEq] at moved
      subst moved
      simp [goto]
  | notify rest =>
      cases rest with
      | nil =>
          simp only [advance, position, Option.some.injEq] at moved
          subst moved
          simp [goto]
      | cons next rest =>
          obtain ⟨worker, lives, _, rfl⟩ := advance_notify_cons position moved
          simp [goto]

theorem step_frame (each : ∀ party, Local home state party) (stepped : state.step home label = some after)
    (away : label.party? ≠ some other) : Frame state after other := by
  cases label with
  | advance party expired =>
      simp only [Label.party?, ne_eq, Option.some.injEq] at away
      exact advance_frame (each party) stepped (Ne.symm away)
  | lock party | unlock party | wait party call =>
      simp only [step, Label.party?, ne_eq, Option.ite_none_right_eq_some, Option.some.injEq] at stepped away
      obtain ⟨⟨_, owner⟩, rfl⟩ := stepped
      constructor <;> simp [goto, owner, away, Ne.symm away]
  | change party data | adjust party data | notifyAll party =>
      simp only [step, Label.party?, ne_eq, Option.ite_none_right_eq_some, Option.some.injEq] at stepped away
      obtain ⟨_, rfl⟩ := stepped
      constructor <;> simp [goto, Ne.symm away]
  | lockWorker worker | unlockWorker worker =>
      simp only [step, Option.ite_none_right_eq_some, Option.some.injEq] at stepped
      obtain ⟨holder, rfl⟩ := stepped
      constructor <;> simp
      exact fun _ => work_of_update (by simp [holder])
  | resume party =>
      obtain ⟨worker, call, _, _, _, holder, rfl⟩ := step_resume stepped
      simp only [Label.party?, ne_eq, Option.some.injEq] at away
      constructor <;> simp [goto, Ne.symm away]
      exact fun _ => work_of_update (by simp [holder])
  | timeout party =>
      obtain ⟨_, rfl⟩ := step_timeout stepped
      simp only [Label.party?, ne_eq, Option.some.injEq] at away
      constructor <;> simp [Ne.symm away]
  | wake party timedOut =>
      obtain ⟨call, _, _, rfl⟩ := step_wake stepped
      simp only [Label.party?, ne_eq, Option.some.injEq] at away
      constructor <;> simp [goto, Ne.symm away]

theorem step_local (each : ∀ party, Local home state party)
    (stepped : state.step home label = some after) (named : label.party? = some party) :
    Local home after party := by
  obtain ⟨inside, outside, work, registered, onFiber, onThread, fiber, paying, timely⟩ := each party
  cases label with
  | advance party expired =>
      cases named
      exact advance_local (each _) stepped
  | lock party | unlock party | wait party call =>
      cases named
      simp only [step, Option.ite_none_right_eq_some, Option.some.injEq] at stepped
      obtain ⟨⟨free, owner⟩, rfl⟩ := stepped
      obtain ⟨result, position⟩ := Pc.eq_free free
      simp [position] at outside work registered fiber paying
      constructor <;> simp [goto, *]
  | change party data =>
      cases named
      simp only [step, Option.ite_none_right_eq_some, Option.some.injEq] at stepped
      obtain ⟨free, rfl⟩ := stepped
      obtain ⟨result, position⟩ := Pc.eq_free free
      simp [position] at outside work registered fiber paying
      constructor <;> simp [*]
      split <;> simp
  | adjust party data | notifyAll party =>
      cases named
      simp only [step, Option.ite_none_right_eq_some, Option.some.injEq] at stepped
      obtain ⟨free, rfl⟩ := stepped
      obtain ⟨result, position⟩ := Pc.eq_free free
      simp [position] at outside work registered fiber paying
      constructor <;> simp [goto, *]
  | lockWorker worker | unlockWorker worker => cases named
  | resume party =>
      cases named
      obtain ⟨worker, call, lives, position, _, holder, rfl⟩ := step_resume stepped
      simp [position] at outside work registered onFiber fiber paying
      constructor <;> simp [goto, *]
  | timeout party =>
      cases named
      obtain ⟨waits, rfl⟩ := step_timeout stepped
      have asleep : (state.pc party).isSuspended = true := by
        refine fiber.mp ?_
        rw [waits]
        simp
      exact ⟨inside, outside, work, registered, onFiber, onThread, iff_of_true (by simp) asleep, paying, timely⟩
  | wake party timedOut =>
      cases named
      obtain ⟨call, position, allowed, rfl⟩ := step_wake stepped
      have due : timedOut = false ∨ call.timed = true := by
        cases timedOut with
        | false => exact .inl rfl
        | true => exact .inr (allowed rfl)
      simp [position] at outside work registered onThread fiber paying
      constructor <;> simp [goto, *]

theorem step_counts (stepped : state.step home label = some after) :
    after.numWaiting + label.party?.elim 0 (fun party => ((state.pc party).counted.toNat : Int)) =
        state.numWaiting + label.party?.elim 0 (fun party => ((after.pc party).counted.toNat : Int)) ∧
      after.numWaitingOnCondition +
          label.party?.elim 0 (fun party => ((state.pc party).countedOnCondition.toNat : Int)) =
        state.numWaitingOnCondition +
          label.party?.elim 0 (fun party => ((after.pc party).countedOnCondition.toNat : Int)) := by
  cases label with
  | advance party expired => exact advance_counts stepped
  | lock party | unlock party | wait party call =>
      simp only [step, Option.ite_none_right_eq_some, Option.some.injEq] at stepped
      obtain ⟨⟨free, owner⟩, rfl⟩ := stepped
      obtain ⟨result, position⟩ := Pc.eq_free free
      simp [Label.party?, goto, position]
  | change party data | adjust party data | notifyAll party =>
      simp only [step, Option.ite_none_right_eq_some, Option.some.injEq] at stepped
      obtain ⟨free, rfl⟩ := stepped
      obtain ⟨result, position⟩ := Pc.eq_free free
      simp [Label.party?, goto, position]
  | lockWorker worker | unlockWorker worker =>
      simp only [step, Option.ite_none_right_eq_some, Option.some.injEq] at stepped
      obtain ⟨_, rfl⟩ := stepped
      exact ⟨rfl, rfl⟩
  | resume party =>
      obtain ⟨worker, call, _, position, _, _, rfl⟩ := step_resume stepped
      simp [Label.party?, goto, position]
  | timeout party =>
      obtain ⟨_, rfl⟩ := step_timeout stepped
      exact ⟨rfl, rfl⟩
  | wake party timedOut =>
      obtain ⟨call, position, _, rfl⟩ := step_wake stepped
      simp [Label.party?, goto, position]

variable [Fintype π]

structure Inv (home : π → Option κ) (state : ConditionVariable π κ δ) : Prop where
  each : ∀ party, Local home state party
  numWaiting : state.numWaiting = ∑ party, ((state.pc party).counted.toNat : Int)
  numWaitingOnCondition :
    state.numWaitingOnCondition = ∑ party, ((state.pc party).countedOnCondition.toNat : Int)

omit [DecidableEq κ] in
theorem Inv.initial (data : δ) : Inv home ({ data := data } : ConditionVariable π κ δ) := by
  refine ⟨fun party => ?_, ?_, ?_⟩
  · constructor <;> simp
  · simp
  · simp

/-- A position changes with the party that takes the step, or by being roused. -/
theorem sum_step (value : Pc π κ δ → Bool) (roused : ∀ pc : Pc π κ δ, value pc.roused = value pc)
    (each : ∀ party, Local home state party) (stepped : state.step home label = some after) :
    ∑ other, ((value (after.pc other)).toNat : Int) +
        label.party?.elim 0 (fun party => ((value (state.pc party)).toNat : Int)) =
      ∑ other, ((value (state.pc other)).toNat : Int) +
        label.party?.elim 0 (fun party => ((value (after.pc party)).toNat : Int)) := by
  apply Data.sum_acting
  intro other away
  rcases (step_frame each stepped away).pc with equal | equal
  · rw [equal]
  · rw [equal, roused]

theorem Inv.step (inv : Inv home state) (stepped : state.step home label = some after) : Inv home after := by
  obtain ⟨waiting, onCondition⟩ := step_counts stepped
  have sum := sum_step Pc.counted Pc.roused_counted inv.each stepped
  have sumOnCondition := sum_step Pc.countedOnCondition Pc.roused_countedOnCondition inv.each stepped
  have before := inv.numWaiting
  have beforeOnCondition := inv.numWaitingOnCondition
  refine ⟨fun party => ?_, by omega, by omega⟩
  by_cases named : label.party? = some party
  · exact step_local inv.each stepped named
  · exact (step_frame inv.each stepped named).keeps (inv.each party)

theorem inv_of_reachable (reachable : (system home).Reachable state) : Inv home state := by
  refine reachable.invariant ?_ ?_
  · intro state start
    obtain ⟨data, rfl⟩ := start
    exact .initial data
  · intro state label after _ inv stepped
    exact inv.step stepped

end ConditionVariable

end MiniMarl
