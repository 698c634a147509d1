import Mathlib.Data.Fintype.Option
import MiniMarl.WaitGroup.Progress

namespace MiniMarl

open Transition

/-! `parallelize`: the caller schedules every function but the first one, calls
the first one itself and waits on the `WaitGroup` that the others signal.

The parties of the wait group are the caller, `none`, and the tasks of the
scheduled functions. A scheduled task is executed by some worker at some time,
and a function that has been called returns at some time. -/

namespace Parallelize

/-- Where the caller is. -/
inductive Caller where
  /-- About to schedule the function `next`, or to call `f0` after the last one. -/
  | schedule (next : Nat)
  | call
  | wait
  | returned
deriving DecidableEq, Repr

/-- Where the task of a function is. -/
inductive Stage where
  | unscheduled
  | scheduled
  | running
  /-- The function has returned: `wg.done()`. -/
  | done
  | finished
deriving DecidableEq, Repr

end Parallelize

/-- A call of `parallelize` with `count` functions after the first one. `ran`
records the functions that have returned. -/
structure Parallelize (count : Nat) (κ : Type) where
  group : WaitGroup (Option (Fin count)) κ
  caller : Parallelize.Caller := .schedule 0
  stage : Fin count → Parallelize.Stage := fun _ => .unscheduled
  ran : List (Option (Fin count)) := []

namespace Parallelize

inductive Label (count : Nat) (κ : Type) where
  /-- `schedule_f`, or the call of `f0`. -/
  | schedule
  /-- `f0` returns. -/
  | first
  /-- A worker starts a task. -/
  | start (task : Fin count)
  /-- The function of a task returns. -/
  | finish (task : Fin count)
  | operate (party : Option (Fin count))
  | external (label : ConditionVariable.Label (Option (Fin count)) κ Nat)

variable {count : Nat} {κ : Type} [DecidableEq κ]

/-- `WaitGroup wg(sizeof...(FN))`. -/
def initial (count : Nat) : Parallelize count κ where
  group := { cv := { data := count } }

/-- The code after a call of the wait group that has returned. -/
def proceed (state : Parallelize count κ) (party : Option (Fin count)) : Parallelize count κ :=
  if state.group.call party = .idle then
    match party with
    | none => { state with caller := .returned }
    | some task => { state with stage := Function.update state.stage task .finished }
  else state

def step (home : Option (Fin count) → Option κ) (state : Parallelize count κ) :
    Label count κ → Option (Parallelize count κ)
  | .schedule =>
      match state.caller with
      | .schedule next =>
          if inside : next < count then
            some { state with
              caller := .schedule (next + 1)
              stage := Function.update state.stage ⟨next, inside⟩ .scheduled }
          else some { state with caller := .call }
      | _ => none
  | .first =>
      if state.caller = .call then
        (state.group.step home (.wait none)).map fun group =>
          { state with group, caller := .wait, ran := state.ran ++ [none] }
      else none
  | .start task =>
      if state.stage task = .scheduled then
        some { state with stage := Function.update state.stage task .running }
      else none
  | .finish task =>
      if state.stage task = .running then
        (state.group.step home (.done (some task))).map fun group =>
          { state with
            group
            stage := Function.update state.stage task .done
            ran := state.ran ++ [some task] }
      else none
  | .operate party =>
      (state.group.step home (.operate party)).map fun group => { state with group }.proceed party
  | .external label =>
      (state.group.step home (.external label)).map fun group => { state with group }

/-- The count is an `unsigned int`, and the functions are the arguments of one call. -/
def system (home : Option (Fin count) → Option κ) : System (Parallelize count κ) (Label count κ) :=
  .ofStep (fun state => count < 2 ^ 32 ∧ state = initial count) (step home)

namespace Caller

/-- The functions before this one have been scheduled. -/
def bound (count : Nat) : Caller → Nat
  | .schedule next => next
  | _ => count

/-- `f0` has been called and has returned. -/
def late : Caller → Bool
  | .wait | .returned => true
  | _ => false

end Caller

namespace Stage

def early : Stage → Bool
  | .unscheduled | .scheduled | .running => true
  | _ => false

end Stage

/-- The function has not returned, or its `done` has not decremented the count. -/
def undone (state : Parallelize count κ) (task : Fin count) : Bool :=
  (state.stage task).early || (state.group.call (some task)).undone

variable {home : Option (Fin count) → Option κ} {state after : Parallelize count κ} {task : Fin count}

structure CallerOk (state : Parallelize count κ) : Prop where
  before : state.caller.late = false → state.group.call none = .idle
  wait : state.caller = .wait → (state.group.call none).waits = true
  returned : state.caller = .returned → state.group.call none = .idle ∧ state.group.count = 0
  ran : none ∈ state.ran ↔ state.caller.late = true

structure TaskOk (state : Parallelize count κ) (task : Fin count) : Prop where
  idle : state.stage task ≠ .done → state.group.call (some task) = .idle
  done : state.stage task = .done → (state.group.call (some task)).signals = true
  ran : some task ∈ state.ran ↔ (state.stage task).early = false
  scheduled : state.stage task = .unscheduled ↔ state.caller.bound count ≤ task

structure Inv (home : Option (Fin count) → Option κ) (state : Parallelize count κ) : Prop where
  fits : count < 2 ^ 32
  group : ((WaitGroup.system home).restrict fun group label => group.permitted label = true).Reachable state.group
  accounts : state.group.count = ∑ task, (state.undone task).toNat
  caller : CallerOk state
  task : ∀ task, TaskOk state task
  observed : state.group.observed none = true → state.group.count = 0
  once : state.ran.Nodup

theorem Inv.small (inv : Inv home state) : state.group.count < 2 ^ 32 := by
  have each : ∑ task, (state.undone task).toNat ≤ Fintype.card (Fin count) * 1 := by
    rw [← smul_eq_mul, ← Finset.card_univ]
    exact Finset.sum_le_card_nsmul _ _ _ fun task _ => Bool.toNat_le _
  have fits := inv.fits
  rw [inv.accounts]
  simp only [Fintype.card_fin, Nat.mul_one] at each
  omega

/-- A decrement under way has something to decrement. -/
theorem Inv.positive (inv : Inv home state) {task : Fin count} (undone : state.undone task = true) :
    0 < state.group.count := by
  rw [inv.accounts]
  apply Finset.sum_pos'
  · exact fun _ _ => Nat.zero_le _
  · exact ⟨task, Finset.mem_univ task, by simp [undone]⟩

theorem initial_inv (fits : count < 2 ^ 32) : Inv home (initial count : Parallelize count κ) where
  fits := fits
  group := .initial ⟨count, fits, rfl⟩
  accounts := by simp [initial, undone, Stage.early, WaitGroup.count]
  caller := ⟨fun _ => rfl, by simp [initial], by simp [initial], by simp [initial, Caller.late]⟩
  task := fun _ =>
    ⟨fun _ => rfl, by simp [initial], by simp [initial, Stage.early], by simp [initial, Caller.bound]⟩
  observed := by simp [initial]
  once := List.nodup_nil

omit [DecidableEq κ] in
theorem TaskOk.keep (old : TaskOk state task) (stage : after.stage task = state.stage task)
    (call : after.group.call (some task) = state.group.call (some task))
    (ran : some task ∈ after.ran ↔ some task ∈ state.ran)
    (bound : after.caller.bound count ≤ task ↔ state.caller.bound count ≤ task) : TaskOk after task := by
  refine ⟨?_, ?_, ?_, ?_⟩
  · rw [stage, call]
    exact old.idle
  · rw [stage, call]
    exact old.done
  · rw [ran, stage]
    exact old.ran
  · rw [stage, bound]
    exact old.scheduled

omit [DecidableEq κ] in
theorem undone_same (stage : (after.stage task).early = (state.stage task).early)
    (call : after.group.call (some task) = state.group.call (some task)) : after.undone task = state.undone task := by
  simp only [undone, stage, call]

/-- A change that keeps the count, and for each function whether it is counted. -/
theorem Inv.quiet (inv : Inv home state)
    (group : ((WaitGroup.system home).restrict fun group label => group.permitted label = true).Reachable after.group)
    (count : after.group.count = state.group.count) (undone : ∀ task, after.undone task = state.undone task)
    (observed : after.group.observed none = true → after.group.count = 0) (once : after.ran.Nodup)
    (caller : CallerOk after) (task : ∀ task, TaskOk after task) : Inv home after where
  fits := inv.fits
  group := group
  accounts := by
    rw [count, inv.accounts]
    exact Finset.sum_congr rfl fun task _ => by rw [undone task]
  caller := caller
  task := task
  observed := observed
  once := once

theorem Inv.schedule (inv : Inv home state) (stepped : state.step home .schedule = some after) : Inv home after := by
  obtain ⟨before, _, _, ran⟩ := inv.caller
  cases found : state.caller with
  | call | wait | returned => simp [step, found] at stepped
  | schedule next =>
      simp only [found, Caller.late] at before ran
      simp only [step, found] at stepped
      split at stepped
      · rename_i inside
        cases stepped
        have old := inv.task ⟨next, inside⟩
        have unscheduled : state.stage ⟨next, inside⟩ = .unscheduled :=
          old.scheduled.mpr (by rw [found]; exact Nat.le_refl next)
        refine inv.quiet inv.group rfl (fun task => undone_same ?_ rfl) inv.observed inv.once
          ⟨fun _ => before trivial, by simp, by simp, ran⟩ fun task => ?_
        · by_cases here : task = ⟨next, inside⟩
          · simp [here, unscheduled, Stage.early]
          · simp [here]
        · by_cases here : task = ⟨next, inside⟩
          · subst here
            have absent := old.ran
            have idle := old.idle (by simp [unscheduled])
            refine ⟨fun _ => idle, by simp, by simpa [unscheduled, Stage.early] using absent, ?_⟩
            simp [Caller.bound]
          · refine (inv.task task).keep (by simp [here]) rfl Iff.rfl ?_
            have apart : (task : Nat) ≠ next := fun same => here (Fin.ext same)
            simp only [found, Caller.bound]
            omega
      · rename_i outside
        cases stepped
        refine inv.quiet inv.group rfl (fun task => rfl) inv.observed inv.once
          ⟨fun _ => before trivial, by simp, by simp, ran⟩ fun task => ?_
        refine (inv.task task).keep rfl rfl Iff.rfl ?_
        have inside := task.isLt
        simp only [found, Caller.bound]
        omega

theorem Inv.start (inv : Inv home state) (stepped : state.step home (.start task) = some after) : Inv home after := by
  simp only [step, Option.ite_none_right_eq_some, Option.some.injEq] at stepped
  obtain ⟨scheduled, rfl⟩ := stepped
  obtain ⟨before, wait, returned, ran⟩ := inv.caller
  refine inv.quiet inv.group rfl (fun other => undone_same ?_ rfl) inv.observed inv.once ⟨before, wait, returned, ran⟩
    fun other => ?_
  · by_cases here : other = task
    · simp [here, scheduled, Stage.early]
    · simp [here]
  · by_cases here : other = task
    · subst here
      obtain ⟨idle, _, absent, bound⟩ := inv.task other
      simp only [scheduled] at idle absent bound
      refine ⟨fun _ => idle (by simp), by simp, by simpa [Stage.early] using absent, by simpa using bound⟩
    · exact (inv.task other).keep (by simp [here]) rfl Iff.rfl Iff.rfl

theorem Inv.first (inv : Inv home state) (stepped : state.step home .first = some after) : Inv home after := by
  simp only [step, Option.ite_none_right_eq_some, Option.map_eq_some_iff] at stepped
  obtain ⟨calls, group, entered, rfl⟩ := stepped
  have reached := inv.group.step ⟨by rfl, entered⟩
  simp only [WaitGroup.step, Option.ite_none_right_eq_some, Option.some.injEq] at entered
  obtain ⟨idle, rfl⟩ := entered
  have absent : none ∉ state.ran := by
    rw [inv.caller.ran, calls]
    simp [Caller.late]
  refine inv.quiet reached rfl (fun task => undone_same rfl ?_) inv.observed ?_
    ⟨by simp [Caller.late], ?_, by simp, ?_⟩ fun task => ?_
  · simp [WaitGroup.enter]
  · rw [List.nodup_append]
    refine ⟨inv.once, List.nodup_singleton _, ?_⟩
    intro ran member last inside same
    rw [List.mem_singleton] at inside
    exact absent (inside ▸ same ▸ member)
  · simp [WaitGroup.enter, WaitGroup.Call.waits]
  · simp [Caller.late]
  · refine (inv.task task).keep rfl (by simp [WaitGroup.enter]) (by simp) ?_
    rw [calls]
    rfl

theorem Inv.finish (inv : Inv home state) (stepped : state.step home (.finish task) = some after) :
    Inv home after := by
  simp only [step, Option.ite_none_right_eq_some, Option.map_eq_some_iff] at stepped
  obtain ⟨runs, group, entered, rfl⟩ := stepped
  have reached := inv.group.step ⟨by rfl, entered⟩
  simp only [WaitGroup.step, Option.ite_none_right_eq_some, Option.some.injEq] at entered
  obtain ⟨idle, rfl⟩ := entered
  obtain ⟨_, _, ran, bound⟩ := inv.task task
  obtain ⟨before, wait, returned, first⟩ := inv.caller
  have absent : some task ∉ state.ran := by
    rw [ran, runs]
    simp [Stage.early]
  refine inv.quiet reached rfl (fun other => ?_) inv.observed ?_ ⟨?_, ?_, ?_, ?_⟩ fun other => ?_
  · by_cases here : other = task
    · simp [undone, here, runs, WaitGroup.enter, Stage.early, WaitGroup.Call.undone]
    · exact undone_same (by simp [here]) (by simp [WaitGroup.enter, here])
  · rw [List.nodup_append]
    refine ⟨inv.once, List.nodup_singleton _, ?_⟩
    intro ran member last inside same
    rw [List.mem_singleton] at inside
    exact absent (inside ▸ same ▸ member)
  · simpa [WaitGroup.enter] using before
  · simpa [WaitGroup.enter] using wait
  · intro called
    exact ⟨by simpa [WaitGroup.enter] using (returned called).1, (returned called).2⟩
  · simpa using first
  · by_cases here : other = task
    · subst here
      simp only [runs] at bound
      exact ⟨by simp, by simp [WaitGroup.enter, WaitGroup.Call.signals], by simp [Stage.early], by simpa using bound⟩
    · exact (inv.task other).keep (by simp [here]) (by simp [WaitGroup.enter, here]) (by simp [here]) Iff.rfl

theorem Inv.external (inv : Inv home state)
    {label : ConditionVariable.Label (Option (Fin count)) κ Nat}
    (stepped : state.step home (.external label) = some after) : Inv home after := by
  obtain ⟨group, moved, rfl⟩ := Option.map_eq_some_iff.mp stepped
  have reached := inv.group.step ⟨by rfl, moved⟩
  simp only [WaitGroup.step, Option.ite_none_right_eq_some] at moved
  obtain ⟨external, mapped⟩ := moved
  obtain ⟨cv, moved, rfl⟩ := Option.map_eq_some_iff.mp mapped
  have data := WaitGroup.data_of_external external moved
  refine inv.quiet reached data (fun _ => rfl) (fun seen => data.trans (inv.observed seen)) inv.once
    ⟨inv.caller.before, inv.caller.wait, ?_, inv.caller.ran⟩ fun task => (inv.task task).keep rfl rfl Iff.rfl Iff.rfl
  intro called
  exact ⟨(inv.caller.returned called).1, data.trans (inv.caller.returned called).2⟩

/-- A call that has returned from `wait` has seen the count at zero. -/
theorem Inv.zero_of_free (inv : Inv home state) (found : state.group.call none = .unlockWait)
    (free : (state.group.cv.pc none).isFree = true) : state.group.count = 0 := by
  obtain ⟨result, position⟩ := Pc.eq_free free
  exact inv.observed (((WaitGroup.inv_of_reachable inv.group).each none).observed found result (by rw [position]; rfl))

/-- An operation of a call of the caller: it is in `wait`. -/
theorem Inv.operateCaller (inv : Inv home state) (stepped : state.step home (.operate none) = some after) :
    Inv home after := by
  obtain ⟨group, moved, rfl⟩ := Option.map_eq_some_iff.mp stepped
  have reached := inv.group.step ⟨by rfl, moved⟩
  have busy : state.group.call none ≠ .idle := by
    intro idle
    simp [WaitGroup.step, WaitGroup.operate, idle] at moved
  obtain ⟨before, wait, returned, ran⟩ := inv.caller
  have waiting : state.caller = .wait := by
    cases found : state.caller with
    | schedule | call => exact absurd (before (by rw [found]; rfl)) busy
    | wait => rfl
    | returned => exact absurd (returned found).1 busy
  have waits := wait waiting
  have decremented : (state.group.call none).undone = false := by
    cases found : state.group.call none <;> simp [found, WaitGroup.Call.waits] at waits <;> rfl
  obtain ⟨next, effect⟩ := WaitGroup.operate_effect moved inv.small (by simp [decremented])
  obtain ⟨found, observed, seen⟩ := WaitGroup.operate_observed moved
  have here : group.call none = next := by rw [effect.call, Function.update_self]
  have others : ∀ task, group.call (some task) = state.group.call (some task) := fun task => by simp [effect.call]
  have fine : group.observed none = true → group.count = 0 := by
    rw [observed, Function.update_self]
    intro true
    exact effect.zero (by simp [decremented]) ((seen true).elim inv.observed id)
  have undone : next.undone = false := by
    cases later : next.undone with
    | true => simpa [decremented] using effect.onward later
    | false => rfl
  have count : group.count = state.group.count := by simpa [decremented, undone] using effect.count
  rcases effect.waits waits with further | ⟨idle, last, free⟩
  · have goes : ({ state with group } : Parallelize _ κ).proceed none = { state with group } := by
      have on : group.call none ≠ .idle := by
        rw [here]
        intro idle
        simp [idle, WaitGroup.Call.waits] at further
      simp [proceed, on]
    rw [goes]
    refine inv.quiet reached count (fun task => undone_same rfl (others task)) fine inv.once ⟨?_, ?_, ?_, ran⟩
      fun task => (inv.task task).keep rfl (others task) Iff.rfl Iff.rfl
    · simp [waiting, Caller.late]
    · simp [here, further]
    · simp [waiting]
  · have goes : ({ state with group } : Parallelize _ κ).proceed none =
        { state with group, caller := .returned } := by
      simp [proceed, here, idle]
    rw [goes]
    refine inv.quiet reached count (fun task => undone_same rfl (others task)) fine inv.once
      ⟨by simp [Caller.late], by simp, ?_, ?_⟩ fun task => (inv.task task).keep rfl (others task) Iff.rfl ?_
    · exact fun _ => ⟨here.trans idle, count.trans (inv.zero_of_free last free)⟩
    · rw [ran, waiting]
      rfl
    · rw [waiting]
      rfl

theorem Inv.operateTask (inv : Inv home state) (stepped : state.step home (.operate (some task)) = some after) :
    Inv home after := by
  obtain ⟨group, moved, rfl⟩ := Option.map_eq_some_iff.mp stepped
  have reached := inv.group.step ⟨by rfl, moved⟩
  have busy : state.group.call (some task) ≠ .idle := by
    intro idle
    simp [WaitGroup.step, WaitGroup.operate, idle] at moved
  obtain ⟨idle, done, ran, bound⟩ := inv.task task
  obtain ⟨before, wait, returned, first⟩ := inv.caller
  have doing : state.stage task = .done := by
    by_contra other
    exact busy (idle other)
  have sound : (state.group.call (some task)).undone = true → 0 < state.group.count :=
    fun undone => inv.positive (show state.undone task = true by simp [Parallelize.undone, undone])
  obtain ⟨next, effect⟩ := WaitGroup.operate_effect moved inv.small sound
  obtain ⟨found, observed, seen⟩ := WaitGroup.operate_observed moved
  have here : group.call (some task) = next := by rw [effect.call, Function.update_self]
  have caller : group.call none = state.group.call none := by simp [effect.call]
  have others : ∀ other, other ≠ task → group.call (some other) = state.group.call (some other) :=
    fun other away => by simp [effect.call, away]
  have fine : group.observed none = true → group.count = 0 := by
    intro true
    rw [observed, Function.update_of_ne (by simp)] at true
    exact effect.zero sound (inv.observed true)
  have zero : state.caller = .returned → group.call none = .idle ∧ group.count = 0 := fun called =>
    ⟨caller.trans (returned called).1, effect.zero sound (returned called).2⟩
  have goes : ∃ later, ({ state with group } : Parallelize _ κ).proceed (some task) =
        { state with group, stage := Function.update state.stage task later } ∧
      later.early = false ∧ later ≠ .unscheduled ∧ (later ≠ .done → next = .idle) ∧
      (later = .done → next.signals = true) := by
    rcases effect.signals (done doing) with further | last
    · have on : next ≠ .idle := by
        intro idle
        simp [idle, WaitGroup.Call.signals] at further
      refine ⟨.done, ?_, rfl, by simp, by simp, fun _ => further⟩
      rw [← doing, Function.update_eq_self]
      simp [proceed, here, on]
    · exact ⟨.finished, by simp [proceed, here, last], rfl, by simp, fun _ => last, by simp⟩
  obtain ⟨later, shape, late, started, finished, signals⟩ := goes
  rw [shape]
  refine ⟨inv.fits, reached, ?_, ⟨?_, ?_, zero, first⟩, fun other => ?_, fine, inv.once⟩
  · have changed := Data.sum_change (fun other => (state.undone other).toNat)
      (fun other => (({ state with group, stage := Function.update state.stage task later } :
        Parallelize count κ).undone other).toNat) task fun other away => by
          rw [undone_same (by simp [away]) (others other away)]
    have old : state.undone task = (state.group.call (some task)).undone := by
      simp [undone, doing, Stage.early]
    have new : ({ state with group, stage := Function.update state.stage task later } :
        Parallelize count κ).undone task = next.undone := by
      simp [undone, late, here]
    have counted := effect.count
    have accounts := inv.accounts
    simp only [old, new] at changed
    simp only
    omega
  · intro early
    exact caller.trans (before early)
  · intro waiting
    simpa [caller] using wait waiting
  · by_cases same : other = task
    · subst same
      rw [doing] at ran bound
      refine ⟨?_, ?_, ?_, ?_⟩
      · simpa [here] using finished
      · simpa [here] using signals
      · exact iff_of_true (ran.mpr rfl) (by simpa using late)
      · simpa [started] using bound
    · exact (inv.task other).keep (by simp [same]) (others other same) Iff.rfl Iff.rfl

theorem Inv.step {label : Label count κ} (inv : Inv home state) (stepped : state.step home label = some after) :
    Inv home after := by
  cases label with
  | schedule => exact inv.schedule stepped
  | first => exact inv.first stepped
  | start task => exact inv.start stepped
  | finish task => exact inv.finish stepped
  | operate party =>
      cases party with
      | none => exact inv.operateCaller stepped
      | some task => exact inv.operateTask stepped
  | external label => exact inv.external stepped

theorem inv_of_reachable (reachable : (system home).Reachable state) : Inv home state := by
  refine reachable.invariant ?_ ?_
  · intro state start
    obtain ⟨fits, rfl⟩ := start
    exact initial_inv fits
  · intro state label after _ inv stepped
    exact inv.step stepped

/-- `parallelize` returns only after every function has returned, and each has
been called exactly once. No `done` is one too many. -/
theorem returns_after_all {home : Option (Fin count) → Option κ} {state : Parallelize count κ}
    (reachable : (system home).Reachable state) :
    state.ran.Nodup ∧ (state.caller = .returned → ∀ function, function ∈ state.ran) ∧
      ∀ task, (state.group.call (some task)).undone = true → 0 < state.group.count := by
  have inv := inv_of_reachable reachable
  refine ⟨inv.once, fun returned function => ?_, fun task undone => ?_⟩
  · have zero := (inv.caller.returned returned).2
    cases function with
    | none => exact inv.caller.ran.mpr (by rw [returned]; rfl)
    | some task =>
        refine (inv.task task).ran.mpr ?_
        cases early : (state.stage task).early with
        | false => rfl
        | true =>
            have positive := inv.positive (show state.undone task = true by simp [Parallelize.undone, early])
            omega
  · exact inv.positive (show state.undone task = true by simp [Parallelize.undone, undone])

/-- The caller has been suspended in its wait, and the task has resumed it. -/
theorem returns_after_all_of_suspended :
    ∃ state : Parallelize 1 Bool, state.caller = .returned ∧ ∀ function, function ∈ state.ran := by
  obtain ⟨state, reachable, seen⟩ := System.reachable_of_replay
    (fun state : Parallelize 1 Bool => 1 < 2 ^ 32 ∧ state = initial 1) (step fun party => some party.isSome)
    ⟨by decide, rfl⟩
    ([.schedule, .schedule, .first, .start 0] ++ List.replicate 10 (.operate none) ++ [.finish 0] ++
      List.replicate 6 (.operate (some 0)) ++ [.external (.unlockWorker false)] ++
      List.replicate 5 (.operate (some 0)) ++ [.external (.lockWorker false), .external (.resume none)] ++
      List.replicate 7 (.operate none))
    (fun state => decide (state.caller = .returned)) (by decide +kernel)
  have returned := of_decide_eq_true seen
  exact ⟨state, returned, (returns_after_all reachable).2.1 returned⟩

/-- What a function still takes until its `done` begins, and the begun `done`. -/
def Stage.weight (parties : Nat) : Stage → Nat
  | .unscheduled => 13 * parties + 14
  | .scheduled => 13 * parties + 13
  | .running => 13 * parties + 12
  | .done | .finished => 0

def Caller.weight : Caller → Nat
  | .schedule _ => 13
  | .call => 12
  | .wait | .returned => 0

/-- What is left outside of the calls of the wait group. -/
def rest (state : Parallelize count κ) : Nat :=
  state.caller.weight + ∑ task, (state.stage task).weight (count + 1)

def budget (state : Parallelize count κ) : Nat := state.group.budget + state.rest

/-- The steps of the call and of its tasks, but for the workers' own use of their mutexes. -/
def Label.inner : Label count κ → Bool
  | .external label => (WaitGroup.Label.external label).inner
  | _ => true

def Label.closing : Label count κ → Bool
  | .external label => (WaitGroup.Label.external label).closing
  | _ => true

omit [DecidableEq κ] in
theorem sum_stage (stage : Fin count → Stage) (task : Fin count) (next : Stage) :
    ∑ other, (Function.update stage task next other).weight (count + 1) + (stage task).weight (count + 1) =
      ∑ other, (stage other).weight (count + 1) + next.weight (count + 1) := by
  have changed := Data.sum_change (fun other => (stage other).weight (count + 1))
    (fun other => (Function.update stage task next other).weight (count + 1)) task (fun other away => by simp [away])
  simpa using changed

omit [DecidableEq κ] in
theorem proceed_rest (state : Parallelize count κ) (party : Option (Fin count)) :
    (state.proceed party).group = state.group ∧ (state.proceed party).rest ≤ state.rest := by
  cases party with
  | none =>
      simp only [proceed]
      split <;> simp [rest, Caller.weight]
  | some task =>
      have sum := sum_stage state.stage task .finished
      have none : Stage.finished.weight (count + 1) = 0 := rfl
      simp only [proceed]
      split
      · simp only [rest, true_and]
        omega
      · exact ⟨rfl, Nat.le_refl _⟩

theorem step_budget {label : Label count κ} (inv : Inv home state) (closing : label.closing = true)
    (stepped : state.step home label = some after) : after.budget + label.inner.toNat ≤ state.budget := by
  have groups := (WaitGroup.inv_of_reachable inv.group).cv
  have parties : Fintype.card (Option (Fin count)) = count + 1 := by simp
  cases label with
  | schedule =>
      cases found : state.caller with
      | call | wait | returned => simp [step, found] at stepped
      | schedule next =>
          simp only [step, found] at stepped
          split at stepped
          · rename_i inside
            cases stepped
            have unscheduled : state.stage ⟨next, inside⟩ = .unscheduled :=
              (inv.task ⟨next, inside⟩).scheduled.mpr (by rw [found]; exact Nat.le_refl next)
            have sum := sum_stage state.stage ⟨next, inside⟩ .scheduled
            have less : Stage.scheduled.weight (count + 1) + 1 = Stage.unscheduled.weight (count + 1) := rfl
            rw [unscheduled] at sum
            simp only [budget, rest, found, Caller.weight, Label.inner, Bool.toNat_true]
            omega
          · cases stepped
            simp only [budget, rest, found, Caller.weight, Label.inner, Bool.toNat_true]
            omega
  | first =>
      simp only [step, Option.ite_none_right_eq_some, Option.map_eq_some_iff] at stepped
      obtain ⟨calls, group, entered, rfl⟩ := stepped
      simp only [WaitGroup.step, Option.ite_none_right_eq_some, Option.some.injEq] at entered
      obtain ⟨idle, rfl⟩ := entered
      have grown := state.group.enter_budget none .lockWait
      simp only [idle, WaitGroup.Call.weight] at grown
      simp only [budget, rest, calls, Caller.weight, Label.inner, Bool.toNat_true]
      omega
  | start task =>
      simp only [step, Option.ite_none_right_eq_some, Option.some.injEq] at stepped
      obtain ⟨scheduled, rfl⟩ := stepped
      have sum := sum_stage state.stage task .running
      have less : Stage.running.weight (count + 1) + 1 = Stage.scheduled.weight (count + 1) := rfl
      rw [scheduled] at sum
      simp only [budget, rest, Label.inner, Bool.toNat_true]
      omega
  | finish task =>
      simp only [step, Option.ite_none_right_eq_some, Option.map_eq_some_iff] at stepped
      obtain ⟨runs, group, entered, rfl⟩ := stepped
      simp only [WaitGroup.step, Option.ite_none_right_eq_some, Option.some.injEq] at entered
      obtain ⟨idle, rfl⟩ := entered
      have grown := state.group.enter_budget (some task) .assert
      have sum := sum_stage state.stage task .done
      have less : Stage.running.weight (count + 1) = WaitGroup.Call.assert.weight (count + 1) + 1 := rfl
      have none : Stage.done.weight (count + 1) = 0 ∧ WaitGroup.Call.idle.weight (count + 1) = 0 := ⟨rfl, rfl⟩
      rw [idle, parties] at grown
      rw [runs] at sum
      simp only [budget, rest, Label.inner, Bool.toNat_true]
      omega
  | operate party =>
      obtain ⟨group, moved, rfl⟩ := Option.map_eq_some_iff.mp stepped
      have paid : group.budget + 1 ≤ state.group.budget := WaitGroup.step_budget groups rfl moved
      obtain ⟨same, kept⟩ := ({ state with group } : Parallelize count κ).proceed_rest party
      have still : ({ state with group } : Parallelize count κ).rest = state.rest := rfl
      simp only [budget, same, Label.inner, Bool.toNat_true]
      omega
  | external label =>
      have closes : (WaitGroup.Label.external label).closing = true := closing
      obtain ⟨group, moved, rfl⟩ := Option.map_eq_some_iff.mp stepped
      have paid := WaitGroup.step_budget groups closes moved
      have still : ({ state with group } : Parallelize count κ).rest = state.rest := rfl
      simp only [budget, Label.inner] at paid ⊢
      omega

/-- The steps that finish the call and its tasks. -/
def closing (home : Option (Fin count) → Option κ) : System (Parallelize count κ) (Label count κ) :=
  (system home).restrict fun _ label => label.closing = true

/-- The calls of the wait group go on inside of the whole. -/
theorem run_lifts {labels : List (WaitGroup.Label (Option (Fin count)) κ)} {group : WaitGroup (Option (Fin count)) κ}
    (run : (WaitGroup.closing home).Run state.group labels group) :
    ∃ labels after, (closing home).Run state labels after ∧ after.group = group ∧ after.rest ≤ state.rest := by
  generalize first : state.group = start at run
  induction run with
  | nil => exact ⟨[], state, .nil, first, Nat.le_refl _⟩
  | @snoc _ _ label group _ move ih =>
      obtain ⟨labels, middle, run, rfl, less⟩ := ih
      obtain ⟨closes, moved⟩ := move
      cases label with
      | add | done | wait => cases closes
      | operate party =>
          obtain ⟨same, kept⟩ := ({ middle with group } : Parallelize count κ).proceed_rest party
          have stepped : middle.step home (.operate party) =
              some (({ middle with group } : Parallelize count κ).proceed party) :=
            Option.map_eq_some_iff.mpr ⟨group, moved, rfl⟩
          exact ⟨_, _, run.snoc ⟨rfl, stepped⟩, same, kept.trans less⟩
      | external label =>
          have closes' : (Label.external label : Label count κ).closing = true := closes
          have stepped : middle.step home (.external label) = some { middle with group } :=
            Option.map_eq_some_iff.mpr ⟨group, moved, rfl⟩
          exact ⟨_, _, run.snoc ⟨closes', stepped⟩, rfl, less⟩

/-- Nothing is left to do. -/
def Finished (state : Parallelize count κ) : Prop :=
  state.caller = .returned ∧ ∀ task, state.stage task = .finished

/-- The steps below spend some of the budget. -/
def Spends (home : Option (Fin count) → Option κ) (state : Parallelize count κ) : Prop :=
  ∃ labels after, (closing home).Run state labels after ∧ after.budget < state.budget

theorem spends_of_step (inv : Inv home state) (label : Label count κ) (closing : label.closing = true)
    (inner : label.inner = true) (stepped : state.step home label = some after) : state.Spends home := by
  have paid := step_budget inv closing stepped
  rw [inner, Bool.toNat_true] at paid
  exact ⟨_, after, System.Run.nil.snoc ⟨closing, stepped⟩, by omega⟩

theorem spends_of_group (unfinished : WaitGroup.Spends home state.group) : state.Spends home := by
  obtain ⟨_, group, inner, less⟩ := unfinished
  obtain ⟨labels, after, run, rfl, rest⟩ := run_lifts inner
  refine ⟨labels, after, run, ?_⟩
  rw [budget, budget]
  omega

theorem Inv.spends_of_early (inv : Inv home state) (late : state.caller.late = true)
    (early : (state.stage task).early = true) : state.Spends home := by
  obtain ⟨idle, _, _, scheduled⟩ := inv.task task
  cases stage : state.stage task with
  | unscheduled =>
      have bound := scheduled.mp stage
      have inside := task.isLt
      have all : state.caller.bound count = count := by
        cases found : state.caller <;> simp [found, Caller.late] at late <;> rfl
      omega
  | scheduled =>
      exact spends_of_step inv (.start task) rfl rfl (by simp [Parallelize.step, stage]; rfl)
  | running =>
      have free := idle (by simp [stage])
      exact spends_of_step inv (.finish task) rfl rfl
        (by simp [Parallelize.step, WaitGroup.step, stage, free]; rfl)
  | done | finished => simp [stage, Stage.early] at early

/-- When no call of the wait group has an operation left, and every function
has returned, the count is zero and the calls have returned. -/
theorem Inv.finished (inv : Inv home state) (late : state.caller.late = true)
    (called : ∀ task, (state.stage task).early = false) (quiet : ∀ party, ¬ state.group.Unfinished party) :
    state.Finished := by
  have settled := (WaitGroup.inv_of_reachable inv.group).settled quiet
  have none : ∀ task, state.undone task = false := by
    intro task
    cases undone : state.undone task with
    | false => rfl
    | true =>
        have positive := inv.positive undone
        simp only [Parallelize.undone, called task, Bool.false_or] at undone
        rcases settled (some task) with found | ⟨found, _⟩ | ⟨_, zero⟩
        · simp [found, WaitGroup.Call.undone] at undone
        · simp [found, WaitGroup.Call.undone] at undone
        · omega
  have zero : state.group.count = 0 := by
    rw [inv.accounts]
    exact Finset.sum_eq_zero fun task _ => by rw [none task]; rfl
  have idle : ∀ party, state.group.call party = .idle := by
    intro party
    rcases settled party with idle | ⟨_, _, positive⟩ | ⟨found, _⟩
    · exact idle
    · exact absurd zero positive
    · cases party with
      | none =>
          have waits := inv.caller.wait
          have free := inv.caller.returned
          cases caller : state.caller with
          | schedule | call => simp [caller, Caller.late] at late
          | wait => simp [found, caller, WaitGroup.Call.waits] at waits
          | returned => simp [found, caller] at free
      | some task =>
          have undone := none task
          simp [Parallelize.undone, found, WaitGroup.Call.undone] at undone
  refine ⟨?_, fun task => ?_⟩
  · have waits := inv.caller.wait
    cases caller : state.caller with
    | schedule | call => simp [caller, Caller.late] at late
    | wait => simp [idle, caller, WaitGroup.Call.waits] at waits
    | returned => rfl
  · have early := called task
    have done := (inv.task task).done
    cases stage : state.stage task with
    | unscheduled | scheduled | running => simp [stage, Stage.early] at early
    | done => simp [idle, stage, WaitGroup.Call.signals] at done
    | finished => rfl

theorem exists_spending (inv : Inv home state) (unfinished : ¬ state.Finished) : state.Spends home := by
  cases caller : state.caller with
  | schedule next =>
      by_cases inside : next < count
      · exact spends_of_step inv .schedule rfl rfl (by simp [Parallelize.step, caller, inside]; rfl)
      · exact spends_of_step inv .schedule rfl rfl (by simp [Parallelize.step, caller, inside]; rfl)
  | call =>
      have idle := inv.caller.before (by rw [caller]; rfl)
      exact spends_of_step inv .first rfl rfl
        (by simp [Parallelize.step, WaitGroup.step, caller, idle]; rfl)
  | wait | returned =>
      have late : state.caller.late = true := by rw [caller]; rfl
      by_cases called : ∀ task, (state.stage task).early = false
      · by_cases quiet : ∀ party, ¬ state.group.Unfinished party
        · exact absurd (inv.finished late called quiet) unfinished
        · simp only [not_forall, not_not] at quiet
          obtain ⟨party, busy⟩ := quiet
          exact spends_of_group (WaitGroup.exists_spending inv.group busy)
      · simp only [not_forall, Bool.not_eq_false] at called
        obtain ⟨task, early⟩ := called
        exact inv.spends_of_early late early

theorem closing_inv (state : Parallelize count κ) (label : Label count κ) (after : Parallelize count κ)
    (inv : Inv home state) (move : (closing home).next state label after) : Inv home after :=
  inv.step move.2

theorem budget_le (inv : Inv home state) :
    state.budget ≤ (count + 1) * (26 * (count + 1) + 17) + count * (13 * (count + 1) + 14) + 13 := by
  have group := WaitGroup.budget_le (WaitGroup.inv_of_reachable inv.group).cv
    (ConditionVariable.owned_of_reachable (WaitGroup.cv_reachable inv.group))
  have tasks : ∑ task, (state.stage task).weight (count + 1) ≤ Fintype.card (Fin count) * (13 * (count + 1) + 14) := by
    rw [← smul_eq_mul, ← Finset.card_univ]
    apply Finset.sum_le_card_nsmul
    intro task _
    cases state.stage task <;> simp [Stage.weight]
  have caller : state.caller.weight ≤ 13 := by
    cases state.caller <;> simp [Caller.weight]
  simp only [Fintype.card_option, Fintype.card_fin] at group tasks
  rw [budget, rest]
  omega

/-- A call of `parallelize` takes a bounded number of operations, its tasks
included, and whatever it has done so far it can still finish: then it has
returned, and so has every function. -/
theorem all_return {home : Option (Fin count) → Option κ} {state : Parallelize count κ}
    (reachable : (system home).Reachable state) {labels : List (Label count κ)} {middle : Parallelize count κ}
    (run : (closing home).Run state labels middle) :
    labels.countP Label.inner ≤ (count + 1) * (26 * (count + 1) + 17) + count * (13 * (count + 1) + 14) + 13 ∧
      ∃ later after, (closing home).Run middle later after ∧ after.Finished ∧ ∀ function, function ∈ after.ran := by
  have inv := inv_of_reachable reachable
  have spent := run.spends inv closing_inv budget Label.inner
    fun state label after inv move => step_budget inv move.1 move.2
  have bound := budget_le inv
  refine ⟨by omega, ?_⟩
  have kept := run.keeps inv closing_inv
  obtain ⟨later, after, rest, finished⟩ := System.exists_settled kept closing_inv budget Finished
    fun state inv unfinished => exists_spending inv unfinished
  refine ⟨later, after, rest, finished, fun function => ?_⟩
  have last := rest.keeps kept closing_inv
  cases function with
  | none => exact last.caller.ran.mpr (by rw [finished.1]; rfl)
  | some task => exact (last.task task).ran.mpr (by rw [finished.2 task]; rfl)

/-- The caller is suspended in its wait, and the function of the task has just returned. -/
theorem all_return_of_suspended :
    ∃ state : Parallelize 1 Bool, state.group.cv.fiber none = .yielded ∧
      ∃ later after, (closing fun party => some party.isSome).Run state later after ∧ after.Finished := by
  obtain ⟨state, reachable, seen⟩ := System.reachable_of_replay
    (fun state : Parallelize 1 Bool => 1 < 2 ^ 32 ∧ state = initial 1) (step fun party => some party.isSome)
    ⟨by decide, rfl⟩
    ([.schedule, .schedule, .first, .start 0] ++ List.replicate 10 (.operate none) ++ [.finish 0])
    (fun state => decide (state.group.cv.fiber none = .yielded)) (by decide +kernel)
  obtain ⟨later, after, run, finished, _⟩ := (all_return reachable .nil).2
  exact ⟨state, of_decide_eq_true seen, later, after, run, finished⟩

end Parallelize

end MiniMarl
