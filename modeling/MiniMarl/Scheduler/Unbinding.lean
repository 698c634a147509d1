import Mathlib.Algebra.BigOperators.Group.Finset.Piecewise
import Mathlib.Algebra.Group.Action.Defs
import MiniMarl.Data.Counting
import MiniMarl.Scheduler.Binding

namespace MiniMarl.Bindings

open Transition

/-! The destructors return. Where nobody binds or begins to destroy any more, every
thread comes to the end of its calls, and no notification of `unbind` is lost. -/

/-- What a thread still does until it is unbound, but for being woken. -/
def Pc.weight {σ : Type} (bound : Bool) : Pc σ → Nat
  | .bindLock _ => 13
  | .emplace _ => 12
  | .unlockBind _ => 11
  | .free | .asleep _ => 10 * bound.toNat
  | .stop _ => 9
  | .unbindLock _ => 8
  | .erase _ => 7
  | .notify => 6
  | .unlockUnbind => 2
  | .reset => 1
  | .destroyLock _ | .woken _ => 3 + 10 * bound.toNat
  | .test _ => 2 + 10 * bound.toNat
  | .unlockDestroy _ => 1 + 10 * bound.toNat

/-- Neither a `bind` nor a destructor begins. -/
def Label.closing {τ σ : Type} : Label τ σ → Bool
  | .bind _ _ | .destroy _ _ => false
  | .unbind _ | .operate _ | .wake _ => true

/-- A step of the threads themselves. -/
def Label.inner {τ σ : Type} : Label τ σ → Bool
  | .unbind _ | .operate _ => true
  | .bind _ _ | .destroy _ _ | .wake _ => false

def Label.wakes {τ σ : Type} : Label τ σ → Bool
  | .wake _ => true
  | _ => false

variable {τ σ : Type} [DecidableEq τ] [Fintype τ] [DecidableEq σ]

def budget (state : Bindings τ σ) : Nat := ∑ thread, (state.pc thread).weight (state.bound thread).isSome

/-- Every call has returned, and nobody is bound. -/
def Settled (state : Bindings τ σ) : Prop := ∀ thread, state.pc thread = .free ∧ state.bound thread = none

/-- A thread that waits in a destructor is not bound itself. -/
def Apart (state : Bindings τ σ) : Prop :=
  ∀ thread, (state.pc thread).destroys?.isSome = true → state.bound thread = none

variable {state after : Bindings τ σ} {thread : τ} {scheduler : σ} {label : Label τ σ}

attribute [local simp] Pc.weight

theorem Pc.weight_le {σ : Type} (pc : Pc σ) (bound : Bool) : pc.weight bound ≤ 13 := by
  have unit := bound.toNat_le
  cases pc <;> simp only [weight] <;> omega

omit [DecidableEq τ] [DecidableEq σ] in
theorem budget_le (state : Bindings τ σ) : state.budget ≤ 13 * Fintype.card τ := by
  have each : state.budget ≤ Fintype.card τ * 13 := by
    rw [← smul_eq_mul, ← Finset.card_univ]
    exact Finset.sum_le_card_nsmul _ _ _ fun thread _ => Pc.weight_le _ _
  omega

/-- The thread pays for its own operation; it leaves out what `notify` gives to others. -/
theorem operate_weight (here : Local state thread) (moved : state.operate thread = some after) :
    (after.pc thread).weight (after.bound thread).isSome + 1 ≤ (state.pc thread).weight (state.bound thread).isSome ∧
      (state.pc thread = .notify → after.pc thread = .unlockUnbind) := by
  have binding := here.binding
  cases position : state.pc thread <;> simp only [operate, position] at moved <;> rw [position] at binding
  case free | asleep => cases moved
  case bindLock | destroyLock | woken =>
    simp only [lock, Option.ite_none_right_eq_some, Option.some.injEq] at moved
    obtain ⟨_, rfl⟩ := moved
    simp [goto]
    try omega
  case unbindLock =>
    obtain ⟨scheduler, bound, moved⟩ := Option.bind_eq_some_iff.mp moved
    simp only [lock, Option.ite_none_right_eq_some, Option.some.injEq] at moved
    obtain ⟨_, rfl⟩ := moved
    simp [goto]
  case unlockBind scheduler =>
    cases moved
    simp [goto, unlock, (binding scheduler rfl).1]
  case emplace | stop | reset =>
    cases moved
    simp [goto]
  case unlockDestroy =>
    cases moved
    refine ⟨?_, by simp⟩
    simp only [goto, unlock, Function.update_self, Pc.weight]
    omega
  case unlockUnbind =>
    obtain ⟨scheduler, bound, rfl⟩ := Option.map_eq_some_iff.mp moved
    simp [goto, unlock]
  case test =>
    cases moved
    refine ⟨?_, by simp⟩
    split <;> simp only [goto, unlock, Function.update_self, Pc.weight] <;> omega
  case erase =>
    obtain ⟨scheduler, bound, moved⟩ := Option.bind_eq_some_iff.mp moved
    simp only [Option.ite_none_right_eq_some, Option.some.injEq] at moved
    obtain ⟨_, rfl⟩ := moved
    split <;> simp [goto]
  case notify =>
    obtain ⟨scheduler, bound, rfl⟩ := Option.map_eq_some_iff.mp moved
    simp [goto]

omit [DecidableEq τ] in
/-- At most one thread sleeps in the destructor of a scheduler. -/
theorem Inv.sum_asleep (inv : Inv state) (scheduler : σ) :
    ∑ thread, (if state.pc thread = .asleep scheduler then 3 else 0) ≤ 3 := by
  rw [← Finset.sum_filter, Finset.sum_const, smul_eq_mul]
  have one : (Finset.univ.filter fun thread => state.pc thread = .asleep scheduler).card ≤ 1 := by
    rw [Finset.card_le_one]
    intro first here second there
    rw [Finset.mem_filter] at here there
    exact inv.unique first second scheduler (by rw [here.2]; rfl) (by rw [there.2]; rfl)
  omega

omit [DecidableEq τ] [Fintype τ] in
theorem Pc.roused_weight (pc : Pc σ) (scheduler : σ) (bound : Bool) :
    (pc.roused scheduler).weight bound ≤ pc.weight bound + if pc = .asleep scheduler then 3 else 0 := by
  cases pc with
  | asleep other =>
      simp only [roused]
      split
      · simp_all
        omega
      · simp_all
  | _ => simp [roused]

theorem Inv.operate_budget (inv : Inv state) (moved : state.operate thread = some after) :
    after.budget < state.budget := by
  obtain ⟨pays, unlocks⟩ := operate_weight (inv.each thread) moved
  have own := operate_own (inv.each thread) moved
  by_cases notifies : state.pc thread = .notify
  · have moved' := moved
    simp only [operate, notifies] at moved'
    obtain ⟨scheduler, bound, rfl⟩ := Option.map_eq_some_iff.mp moved'
    refine Data.sum_lt_of_gain _ _ (fun other => if state.pc other = .asleep scheduler then 3 else 0) thread
      (fun other away => ?_) ?_
    · simpa [goto, away] using Pc.roused_weight (state.pc other) scheduler (state.bound other).isSome
    · have gains := inv.sum_asleep scheduler
      simp [goto, notifies]
      omega
  · refine Data.sum_lt_of_gain _ _ (fun _ => 0) thread (fun other away => ?_) ?_
    · have frame := operate_frame (inv.each thread) moved away
      rw [own.quiet notifies other away, frame.bound, Nat.add_zero]
    · simp only [Finset.sum_const_zero]
      omega

omit [DecidableEq σ] in
theorem goto_budget (state : Bindings τ σ) (thread : τ) (pc : Pc σ) :
    (state.goto thread pc).budget + (state.pc thread).weight (state.bound thread).isSome =
      state.budget + pc.weight (state.bound thread).isSome := by
  have changed := Data.sum_change (fun other => (state.pc other).weight (state.bound other).isSome)
    (fun other => ((state.goto thread pc).pc other).weight (state.bound other).isSome) thread
    fun other away => by simp [goto, away]
  rw [show (state.goto thread pc).pc thread = pc by simp [goto]] at changed
  exact changed

/-- Every step of a thread is paid for, but what it does after it has woken up by itself. -/
theorem Inv.step_budget (inv : Inv state) (closing : label.closing = true) (moved : state.step label = some after) :
    after.budget + label.inner.toNat ≤ state.budget + 3 * label.wakes.toNat := by
  cases label with
  | bind | destroy => cases closing
  | operate thread =>
      have less := inv.operate_budget moved
      simp only [Label.inner, Label.wakes, Bool.toNat_true, Bool.toNat_false]
      omega
  | unbind thread =>
      simp only [Bindings.step, Option.ite_none_right_eq_some, Option.map_eq_some_iff] at moved
      obtain ⟨⟨free, bound⟩, worker, _, rfl⟩ := moved
      have changed := state.goto_budget thread (.stop worker)
      simp only [free, bound, Pc.weight, Bool.toNat_true] at changed
      simp only [Label.inner, Label.wakes, Bool.toNat_true, Bool.toNat_false]
      omega
  | wake thread =>
      cases position : state.pc thread <;> simp [Bindings.step, position] at moved
      subst moved
      rename_i scheduler
      have changed := state.goto_budget thread (.woken scheduler)
      simp only [position, Pc.weight] at changed
      simp only [Label.inner, Label.wakes, Bool.toNat_true, Bool.toNat_false]
      omega

/-- Whoever holds a mutex has an operation that blocks on nothing. -/
theorem operate_of_holds (here : Local state thread)
    (holds : (state.pc thread).holds (state.bound thread) = some scheduler) : ∃ after, state.operate thread = some after := by
  have entry := here.entry scheduler
  cases position : state.pc thread <;> simp [position, Pc.holds] at holds
  case emplace | unlockBind | test | unlockDestroy => exact ⟨_, by simp only [operate, position]; rfl⟩
  case notify | unlockUnbind => exact ⟨_, by simp only [operate, position, holds, Option.map_some]; rfl⟩
  case erase worker =>
    simp [position, holds, Pc.registered, Pc.worker?] at entry
    exact ⟨_, by simp only [operate, position, holds, Option.bind_some, entry, if_true]; rfl⟩

/-- Where every mutex is free, only a thread between two calls, or asleep, has no operation. -/
theorem operate_of_unlocked (here : Local state thread) (unlocked : ∀ scheduler, state.mutex scheduler = none) :
    (∃ after, state.operate thread = some after) ∨ state.pc thread = .free ∨
      ∃ scheduler, state.pc thread = .asleep scheduler := by
  have unbinding := here.unbinding
  have mutex := here.mutex
  cases position : state.pc thread with
  | free => exact .inr (.inl rfl)
  | asleep scheduler => exact .inr (.inr ⟨scheduler, rfl⟩)
  | bindLock scheduler | destroyLock scheduler | woken scheduler =>
      exact .inl ⟨_, by simp only [operate, position, lock, unlocked, if_true]; rfl⟩
  | stop | reset => exact .inl ⟨_, by simp only [operate, position]; rfl⟩
  | unbindLock worker =>
      obtain ⟨scheduler, bound⟩ := Option.isSome_iff_exists.mp (unbinding (by rw [position]; rfl))
      exact .inl ⟨_, by simp only [operate, position, bound, Option.bind_some, lock, unlocked, if_true]; rfl⟩
  | emplace scheduler | unlockBind scheduler | test scheduler | unlockDestroy scheduler =>
      exact .inl (operate_of_holds here (by rw [position]; rfl))
  | erase | notify | unlockUnbind =>
      obtain ⟨scheduler, bound⟩ := Option.isSome_iff_exists.mp (unbinding (by rw [position]; rfl))
      exact .inl (operate_of_holds here (by rw [position]; exact bound))

/-- A thread can go on, until all calls have returned and everybody is unbound. -/
theorem Inv.onward (inv : Inv state) (apart : Apart state) (busy : ¬ Settled state) :
    ∃ label after, label.inner = true ∧ state.step label = some after := by
  by_contra stuck
  have stops : ∀ thread after, state.operate thread ≠ some after := fun thread after moved =>
    stuck ⟨.operate thread, after, rfl, moved⟩
  have unlocked : ∀ scheduler, state.mutex scheduler = none := by
    intro scheduler
    cases held : state.mutex scheduler with
    | none => rfl
    | some holder =>
        obtain ⟨after, moved⟩ := operate_of_holds (inv.each holder) (((inv.each holder).mutex scheduler).mp held)
        exact absurd moved (stops holder after)
  have unbound : ∀ thread, state.bound thread = none ∧
      (state.pc thread = .free ∨ ∃ scheduler, state.pc thread = .asleep scheduler) := by
    intro thread
    have idle := (operate_of_unlocked (inv.each thread) unlocked).resolve_left fun moved =>
      stops thread moved.choose moved.choose_spec
    refine ⟨?_, idle⟩
    rcases idle with free | ⟨scheduler, sleeps⟩
    · cases bound : state.bound thread with
      | none => rfl
      | some scheduler =>
          have current := (inv.each thread).current
          simp only [bound, free, Pc.working, Option.isSome_some, Bool.and_true] at current
          obtain ⟨worker, working⟩ := Option.isSome_iff_exists.mp current
          exact absurd ⟨.unbind thread, _, rfl, by simp [Bindings.step, free, bound, working]; rfl⟩ stuck
    · exact apart thread (by rw [sleeps]; rfl)
  refine busy fun thread => ⟨?_, (unbound thread).1⟩
  rcases (unbound thread).2 with free | ⟨scheduler, sleeps⟩
  · exact free
  · have clear : empty state.byTid scheduler = true :=
      empty_iff.mpr fun other => by simp [(inv.each other).entry, (unbound other).1]
    obtain ⟨other, notifies, bound⟩ := inv.asleep thread scheduler sleeps clear
    simp [(unbound other).1] at bound

/-- No scheduler begins to be destroyed, and no thread is bound. -/
theorem operate_begins_nothing (moved : state.operate thread = some after) :
    after.destroying = state.destroying ∧ ∀ scheduler, after.bound thread = some scheduler →
      state.bound thread = some scheduler := by
  cases position : state.pc thread <;> simp only [operate, position] at moved
  case free | asleep => cases moved
  case bindLock | destroyLock | woken =>
    simp only [lock, Option.ite_none_right_eq_some, Option.some.injEq] at moved
    obtain ⟨_, rfl⟩ := moved
    exact ⟨rfl, fun _ => id⟩
  case unbindLock =>
    obtain ⟨scheduler, _, moved⟩ := Option.bind_eq_some_iff.mp moved
    simp only [lock, Option.ite_none_right_eq_some, Option.some.injEq] at moved
    obtain ⟨_, rfl⟩ := moved
    exact ⟨rfl, fun _ => id⟩
  case emplace | unlockBind | unlockDestroy | stop =>
    cases moved
    exact ⟨rfl, fun _ => id⟩
  case reset =>
    cases moved
    exact ⟨rfl, by simp [goto]⟩
  case test =>
    cases moved
    split <;> exact ⟨rfl, fun _ => id⟩
  case erase =>
    obtain ⟨scheduler, _, moved⟩ := Option.bind_eq_some_iff.mp moved
    simp only [Option.ite_none_right_eq_some, Option.some.injEq] at moved
    obtain ⟨_, rfl⟩ := moved
    exact ⟨rfl, fun _ => id⟩
  case notify | unlockUnbind =>
    obtain ⟨scheduler, _, rfl⟩ := Option.map_eq_some_iff.mp moved
    exact ⟨rfl, fun _ => id⟩

theorem step_begins_nothing (closing : label.closing = true) (moved : state.step label = some after) :
    after.destroying = state.destroying ∧ ∀ scheduler, after.bound label.actor = some scheduler →
      state.bound label.actor = some scheduler := by
  cases label with
  | bind | destroy => cases closing
  | operate thread => exact operate_begins_nothing moved
  | unbind thread =>
      simp only [step, Option.ite_none_right_eq_some, Option.map_eq_some_iff] at moved
      obtain ⟨_, worker, _, rfl⟩ := moved
      exact ⟨rfl, fun _ => id⟩
  | wake thread =>
      cases position : state.pc thread <;> simp [step, position] at moved
      subst moved
      exact ⟨rfl, fun _ => id⟩

omit [DecidableEq τ] in
theorem permitted_of_closing (closing : label.closing = true) : state.permitted label = true := by
  cases label with
  | bind | destroy => cases closing
  | unbind | operate | wake => rfl

theorem Inv.step_apart (inv : Inv state) (apart : Apart state) (closing : label.closing = true)
    (moved : state.step label = some after) : Apart after := by
  have permitted : state.permitted label = true := permitted_of_closing closing
  obtain ⟨destroying, bounds⟩ := step_begins_nothing closing moved
  intro thread destroys
  by_cases here : thread = label.actor
  · subst here
    obtain ⟨scheduler, found⟩ := Option.isSome_iff_exists.mp destroys
    have was : (state.pc label.actor).destroys? = some scheduler := by
      refine ((step_own inv.each permitted moved).begins scheduler found).resolve_right fun alive => ?_
      have begun := (step_local inv.each permitted moved).destroys scheduler found
      simp [destroying, alive] at begun
    have unbound := apart label.actor (by rw [was]; rfl)
    cases bound : after.bound label.actor with
    | none => rfl
    | some place =>
        have before := bounds place bound
        simp [unbound] at before
  · have frame := step_frame inv.each permitted moved here
    rw [frame.pc_same.2.2.2.2.2.1] at destroys
    exact frame.bound.trans (apart thread destroys)

omit [DecidableEq τ] [Fintype τ] [DecidableEq σ] in
theorem closing_of_inner (inner : label.inner = true) : label.closing = true ∧ label.wakes = false := by
  cases label with
  | bind | destroy | wake => cases inner
  | unbind | operate => exact ⟨rfl, rfl⟩

/-- Only the threads go on. -/
def closingSystem : System (Bindings τ σ) (Label τ σ) := system.restrict fun _ label => label.inner = true

structure Closing (state : Bindings τ σ) : Prop where
  inv : Inv state
  apart : Apart state

theorem exists_settled (good : Closing state) : ∃ labels after, closingSystem.Run state labels after ∧ Settled after := by
  refine System.exists_settled good ?_ budget Settled ?_
  · intro state label after good move
    exact ⟨good.inv.step move.2.1 move.2.2, good.inv.step_apart good.apart (closing_of_inner move.1).1 move.2.2⟩
  · intro state good busy
    obtain ⟨label, after, inner, moved⟩ := good.inv.onward good.apart busy
    obtain ⟨closing, paid⟩ := closing_of_inner inner
    have less := good.inv.step_budget closing moved
    simp only [inner, paid, Bool.toNat_true, Bool.toNat_false] at less
    exact ⟨[label], after, .snoc .nil ⟨inner, permitted_of_closing closing, moved⟩, by omega⟩

theorem destroying_of_run {labels : List (Label τ σ)} (run : closingSystem.Run state labels after) :
    after.destroying = state.destroying := by
  induction run with
  | nil => rfl
  | snoc _ move ih => exact (step_begins_nothing (closing_of_inner move.1).1 move.2.2).1.trans ih

/-- From every reachable state, where nobody binds or begins to destroy any more,
the threads take a bounded number of steps, but for waking up by themselves. Where
no thread that waits in a destructor is bound, they can go on until every call has
returned and nobody is bound, and then every destructor is past its wait. -/
theorem destructors_return (reachable : system.Reachable state) :
    (∀ labels after, (system.restrict fun _ label => label.closing = true).Run state labels after →
      labels.countP Label.inner ≤ 13 * Fintype.card τ + 3 * labels.countP Label.wakes) ∧
    ((∀ thread, (state.pc thread).destroys?.isSome = true → state.bound thread = none) →
      ∃ labels after, closingSystem.Run state labels after ∧
        (∀ thread, after.pc thread = .free ∧ after.bound thread = none) ∧
        ∀ scheduler, state.destroying scheduler = true → after.gone scheduler = true) := by
  have inv := inv_of_reachable reachable
  refine ⟨fun labels after run => ?_, fun apart => ?_⟩
  · have spent := run.balances inv (fun _ _ _ inv move => inv.step move.2.1 move.2.2) budget Label.inner Label.wakes 3
      fun _ _ _ inv move => inv.step_budget move.1 move.2.2
    have small := state.budget_le
    omega
  · obtain ⟨labels, after, run, settled⟩ := exists_settled ⟨inv, apart⟩
    refine ⟨labels, after, run, settled, fun scheduler destroying => ?_⟩
    have last := inv_of_reachable (run.unrestrict.reachable reachable)
    rw [← destroying_of_run run] at destroying
    refine (last.ends scheduler destroying).resolve_right fun inside => ?_
    obtain ⟨thread, destroys⟩ := inside
    simp [(settled thread).1, Pc.destroys?] at destroys

/-- The destructor sleeps, and two threads are still bound. -/
theorem destructors_return_of_asleep :
    ∃ state : Bindings (Fin 3) Unit, state.pc 0 = .asleep () ∧ state.bound 1 = some () ∧ state.bound 2 = some () ∧
      ∃ labels after, closingSystem.Run state labels after ∧ after.gone () = true := by
  obtain ⟨state, reachable, seen⟩ := System.reachable_of_guarded_replay
    (fun state : Bindings (Fin 3) Unit => state = {}) step permitted rfl
    ([.bind 1 (), .bind 2 ()] ++ List.replicate 3 (.operate 1) ++ List.replicate 3 (.operate 2) ++
      [.destroy 0 (), .operate 0, .operate 0])
    (fun state => decide ((state.pc 0 = .asleep () ∧ state.bound 1 = some () ∧ state.bound 2 = some () ∧
      state.destroying () = true) ∧ ∀ thread, (state.pc thread).destroys?.isSome = true → state.bound thread = none))
    (by decide +kernel)
  obtain ⟨⟨sleeps, first, second, destroying⟩, apart⟩ := of_decide_eq_true seen
  obtain ⟨labels, after, run, _, gone⟩ := (destructors_return reachable).2 apart
  exact ⟨state, sleeps, first, second, labels, after, run, gone () destroying⟩

end MiniMarl.Bindings
