import MiniMarl.ConditionVariable.Invariant

namespace MiniMarl

namespace Pc

variable {π κ δ : Type}

/-- Between `mutex_.lock()` and `mutex_.unlock()`. -/
def holdsMutex : Pc π κ δ → Bool
  | .unlockList _ | .unlockErase _ | .notify _ | .unlockWork _ _ => true
  | _ => false

/-- What the loop of `notify_all` has left to notify. -/
def ahead : Pc π κ δ → List π
  | .notify rest | .unlockWork _ rest => rest
  | _ => []

@[simp] theorem roused_holdsMutex (pc : Pc π κ δ) : pc.roused.holdsMutex = pc.holdsMutex := by cases pc <;> rfl

@[simp] theorem roused_ahead (pc : Pc π κ δ) : pc.roused.ahead = pc.ahead := by cases pc <;> rfl

theorem holdsMutex_of_ahead {pc : Pc π κ δ} (more : pc.ahead ≠ []) : pc.holdsMutex = true := by
  cases pc <;> first | rfl | exact absurd rfl more

end Pc

namespace ConditionVariable

open Transition

variable {π κ δ : Type} [DecidableEq π]
variable {home : π → Option κ} {state after : ConditionVariable π κ δ} {party other : π} {expired : Bool}

/-- What the locks say about the position of a party. The loop of `notify_all`
runs through `waiting_` itself, so what is ahead of it is an end of the list. -/
structure Owns (home : π → Option κ) (state : ConditionVariable π κ δ) (party : π) : Prop where
  mutex : state.mutex = some party ↔ (state.pc party).holdsMutex = true
  work : ∀ worker, state.work worker = some (.party party) → (state.pc party).holdsWork (home party) = some worker
  ahead : (state.pc party).ahead <:+ state.waiting

def Owned (home : π → Option κ) (state : ConditionVariable π κ δ) : Prop := ∀ party, Owns home state party

/-- What a step leaves alone of the locks of a party that does not take it. -/
structure Aside (state after : ConditionVariable π κ δ) (other : π) : Prop where
  mutex : after.mutex = some other ↔ state.mutex = some other
  work : ∀ worker, after.work worker = some (.party other) → state.work worker = some (.party other)
  waiting : state.mutex = some other → after.waiting = state.waiting

omit [DecidableEq π] in
theorem Owns.keep (old : Owns home state other) (aside : Aside state after other)
    (pc : after.pc other = state.pc other ∨ after.pc other = (state.pc other).roused) : Owns home after other := by
  have same : (after.pc other).holdsMutex = (state.pc other).holdsMutex ∧
      (after.pc other).holdsWork (home other) = (state.pc other).holdsWork (home other) ∧
      (after.pc other).ahead = (state.pc other).ahead := by
    rcases pc with same | roused
    · simp [same]
    · simp [roused]
  refine ⟨?_, ?_, ?_⟩
  · rw [aside.mutex, same.1]
    exact old.mutex
  · intro worker held
    rw [same.2.1]
    exact old.work worker (aside.work worker held)
  · rw [same.2.2]
    by_cases none : (state.pc other).ahead = []
    · rw [none]
      exact List.nil_suffix
    · rw [aside.waiting (old.mutex.mpr (Pc.holdsMutex_of_ahead none))]
      exact old.ahead

omit [DecidableEq π] in
theorem held_of_update [DecidableEq κ] {work : κ → Option (Holder π)} {worker place : κ} {holder : Option (Holder π)}
    (away : holder ≠ some (.party other)) (held : Function.update work worker holder place = some (.party other)) :
    work place = some (.party other) := by
  by_cases here : place = worker
  · subst here
    rw [Function.update_self] at held
    exact absurd held away
  · rwa [Function.update_of_ne here] at held

variable [DecidableEq κ] {label : Label π κ δ}

theorem advance_aside (owns : Owns home state party) (moved : state.advance home party expired = some after)
    (away : other ≠ party) : Aside state after other := by
  have mutex := owns.mutex
  cases position : state.pc party with
  | free _ | suspended _ | asleep _ => simp [advance, position] at moved
  | evaluate _ | count _ | check _ | release _ | countCondition _ | last _ | uncountCondition _ | uncount _
  | test _ | readWaiting | readCondition | notifyCondition =>
      simp only [advance, position, Option.some.injEq] at moved
      subst moved
      try split
      all_goals constructor <;> simp [goto, finish]
  | unlockList _ | unlockErase _ =>
      simp only [advance, position, Option.some.injEq] at moved
      subst moved
      have mine : state.mutex = some party := mutex.mpr (by simp [position, Pc.holdsMutex])
      constructor <;> simp [goto, mine, Ne.symm away]
  | lockList _ | lockErase _ | lockNotify =>
      simp only [advance, position, Option.ite_none_right_eq_some, Option.some.injEq] at moved
      obtain ⟨unlocked, rfl⟩ := moved
      constructor <;> simp [goto, unlocked, Ne.symm away]
  | relock _ | woken _ _ =>
      simp only [advance, position, Option.ite_none_right_eq_some, Option.some.injEq] at moved
      obtain ⟨_, rfl⟩ := moved
      constructor <;> simp [goto]
  | lockWork _ =>
      obtain ⟨worker, _, _, rfl⟩ := advance_lockWork position moved
      constructor <;> simp [goto]
      exact fun _ => held_of_update (by simp [Ne.symm away])
  | suspend _ | resumed _ =>
      simp only [advance, position, Option.bind_eq_some_iff, Option.some.injEq] at moved
      obtain ⟨worker, _, rfl⟩ := moved
      constructor <;> simp [goto]
      exact fun _ => held_of_update (by simp)
  | unlockWork worker rest =>
      simp only [advance, position, Option.some.injEq] at moved
      subst moved
      constructor <;> simp [goto]
      exact fun _ => held_of_update (by simp)
  | notify rest =>
      have mine : state.mutex = some party := mutex.mpr (by simp [position, Pc.holdsMutex])
      cases rest with
      | nil =>
          simp only [advance, position, Option.some.injEq] at moved
          subst moved
          constructor <;> simp [goto, mine, Ne.symm away]
      | cons next rest =>
          obtain ⟨worker, _, _, rfl⟩ := advance_notify_cons position moved
          constructor <;> simp [goto]
          exact fun _ => held_of_update (by simp [Ne.symm away])

attribute [local simp] Pc.holdsMutex Pc.holdsWork Pc.ahead

omit [DecidableEq π] in
theorem held_of_update_self {work : κ → Option (Holder π)} {worker place : κ}
    (none : ∀ place, work place ≠ some (.party party))
    (holds : Function.update work worker (some (.party party)) place = some (.party party)) : worker = place := by
  by_contra apart
  rw [Function.update_of_ne (Ne.symm apart)] at holds
  exact none place holds

omit [DecidableEq π] in
/-- A party that holds only the mutex of `worker` gives it up. -/
theorem released_of_update {work : κ → Option (Holder π)} {worker place : κ} {holder : Option (Holder π)}
    (only : ∀ place, work place = some (.party party) → worker = place) (other : holder ≠ some (.party party)) :
    Function.update work worker holder place ≠ some (.party party) := by
  intro holds
  by_cases here : place = worker
  · rw [here, Function.update_self] at holds
    exact other holds
  · rw [Function.update_of_ne here] at holds
    exact here (only place holds).symm

theorem advance_owns (owns : Owns home state party) (moved : state.advance home party expired = some after) :
    Owns home after party := by
  obtain ⟨mutex, work, ahead⟩ := owns
  cases position : state.pc party <;> simp [position] at mutex work ahead
  case free | suspended | asleep => simp [advance, position] at moved
  case evaluate | check | count | test =>
      simp only [advance, position, Option.some.injEq] at moved
      subst moved
      split <;> constructor <;> simp [goto, *]
  case readWaiting | readCondition =>
      simp only [advance, position, Option.some.injEq] at moved
      subst moved
      split <;> constructor <;> simp [goto, finish, *]
  case countCondition | last | uncountCondition | uncount | unlockList | unlockErase | notifyCondition =>
      simp only [advance, position, Option.some.injEq] at moved
      subst moved
      constructor <;> simp [goto, finish, *]
  case release =>
      simp only [advance, position, Option.some.injEq] at moved
      subst moved
      constructor <;> simp [goto, mutex]
      exact work
  case lockList | lockErase | lockNotify =>
      simp only [advance, position, Option.ite_none_right_eq_some, Option.some.injEq] at moved
      obtain ⟨_, rfl⟩ := moved
      constructor <;> simp [goto, *]
  case relock | woken =>
      simp only [advance, position, Option.ite_none_right_eq_some, Option.some.injEq] at moved
      obtain ⟨_, rfl⟩ := moved
      split <;> constructor <;> simp [goto, *]
  case lockWork =>
      obtain ⟨worker, lives, _, rfl⟩ := advance_lockWork position moved
      constructor <;> simp [goto, lives, mutex]
      exact fun _ => held_of_update_self work
  case suspend | resumed =>
      simp only [advance, position, Option.bind_eq_some_iff, Option.some.injEq] at moved
      obtain ⟨worker, lives, rfl⟩ := moved
      simp only [lives, Option.some.injEq] at work
      constructor <;> simp [goto, mutex]
      exact fun place => released_of_update work (by simp)
  case unlockWork worker rest =>
      simp only [advance, position, Option.some.injEq] at moved
      subst moved
      constructor <;> simp [goto, mutex, ahead]
      exact fun place => released_of_update work (by simp)
  case notify rest =>
      cases rest with
      | nil =>
          simp only [advance, position, Option.some.injEq] at moved
          subst moved
          constructor <;> simp [goto, *]
      | cons next rest =>
          obtain ⟨worker, lives, _, rfl⟩ := advance_notify_cons position moved
          constructor <;> simp [goto, mutex]
          · exact fun _ => held_of_update_self work
          · exact (List.suffix_cons next rest).trans ahead

theorem step_aside (owned : Owned home state) (stepped : state.step home label = some after)
    (away : label.party? ≠ some other) : Aside state after other := by
  cases label with
  | advance party expired =>
      simp only [Label.party?, ne_eq, Option.some.injEq] at away
      exact advance_aside (owned party) stepped (Ne.symm away)
  | lock party | unlock party | wait party call | change party data | adjust party data | notifyAll party =>
      simp only [step, Option.ite_none_right_eq_some, Option.some.injEq] at stepped
      obtain ⟨_, rfl⟩ := stepped
      constructor <;> simp [goto]
  | lockWorker worker | unlockWorker worker =>
      simp only [step, Option.ite_none_right_eq_some, Option.some.injEq] at stepped
      obtain ⟨_, rfl⟩ := stepped
      constructor <;> simp
      exact fun _ => held_of_update (by simp)
  | resume party =>
      obtain ⟨worker, call, _, _, _, _, rfl⟩ := step_resume stepped
      simp only [Label.party?, ne_eq, Option.some.injEq] at away
      constructor <;> simp [goto]
      exact fun _ => held_of_update (by simp [away])
  | timeout party =>
      obtain ⟨_, rfl⟩ := step_timeout stepped
      constructor <;> simp
  | wake party timedOut =>
      obtain ⟨call, _, _, rfl⟩ := step_wake stepped
      constructor <;> simp [goto]

theorem step_owns (owned : Owned home state) (stepped : state.step home label = some after)
    (named : label.party? = some party) : Owns home after party := by
  obtain ⟨mutex, work, ahead⟩ := owned party
  cases label with
  | advance party expired =>
      cases named
      exact advance_owns (owned _) stepped
  | lock party | unlock party | wait party call | change party data | adjust party data | notifyAll party =>
      cases named
      simp only [step, Option.ite_none_right_eq_some, Option.some.injEq] at stepped
      obtain ⟨free, rfl⟩ := stepped
      have position : ∃ result, state.pc party = .free result := Pc.eq_free (by simp_all)
      obtain ⟨result, position⟩ := position
      simp [position] at mutex work ahead
      constructor <;> simp [goto, *]
  | lockWorker worker | unlockWorker worker => cases named
  | resume party =>
      cases named
      obtain ⟨worker, call, lives, position, _, _, rfl⟩ := step_resume stepped
      simp [position] at mutex work ahead
      constructor <;> simp [goto, lives, mutex]
      exact fun _ => held_of_update_self work
  | timeout party =>
      cases named
      obtain ⟨_, rfl⟩ := step_timeout stepped
      exact ⟨mutex, work, ahead⟩
  | wake party timedOut =>
      cases named
      obtain ⟨call, position, _, rfl⟩ := step_wake stepped
      simp [position] at mutex work ahead
      constructor <;> simp [goto, *]

variable [Fintype π]

theorem owned_of_reachable (reachable : (system home).Reachable state) : Owned home state := by
  refine reachable.invariant ?_ ?_
  · intro state start party
    obtain ⟨data, rfl⟩ := start
    constructor <;> simp
  · intro state label after before owned stepped other
    by_cases named : label.party? = some other
    · exact step_owns owned stepped named
    · exact (owned other).keep (step_aside owned stepped named)
        (step_frame (inv_of_reachable before).each stepped named).pc

omit [DecidableEq κ] in
theorem Inv.waiting_nodup (inv : Inv home state) : state.waiting.Nodup := by
  rw [List.nodup_iff_count_le_one]
  intro party
  rw [(inv.each party).registered]
  exact Bool.toNat_le _

omit [DecidableEq κ] in
theorem Inv.mem_waiting (inv : Inv home state) (party : π) :
    party ∈ state.waiting ↔ (state.pc party).registered = true := by
  rw [← List.count_pos_iff, (inv.each party).registered]
  cases (state.pc party).registered <;> simp

omit [DecidableEq κ] in
theorem Inv.ahead_lives (inv : Inv home state) (owned : Owned home state) {notifier fiber : π}
    (inside : fiber ∈ (state.pc notifier).ahead) : (home fiber).isSome = true := by
  have registered := (inv.mem_waiting fiber).mp ((owned notifier).ahead.subset inside)
  apply (inv.each fiber).onFiber
  cases position : state.pc fiber <;> simp [position, Pc.registered] at registered <;> rfl

/-- `mutex_` and the workers' mutexes are held exactly by the parties at the
matching positions. `waiting_` holds every registered fiber once, and a
`notify_all` under way has an end of that very list left to notify, fibers of
workers that are still registered. -/
theorem walks_waiting {home : π → Option κ} {state : ConditionVariable π κ δ}
    (reachable : (system home).Reachable state) :
    (∀ party, state.mutex = some party ↔ (state.pc party).holdsMutex = true) ∧
      (∀ party worker, state.work worker = some (.party party) ↔
        (state.pc party).holdsWork (home party) = some worker) ∧
      state.waiting.Nodup ∧ (∀ party, party ∈ state.waiting ↔ (state.pc party).registered = true) ∧
      ∀ notifier, (state.pc notifier).ahead <:+ state.waiting ∧ ∀ fiber ∈ (state.pc notifier).ahead,
        fiber ≠ notifier ∧ (state.pc fiber).registered = true ∧ (home fiber).isSome = true := by
  have owned := owned_of_reachable reachable
  have inv := inv_of_reachable reachable
  refine ⟨fun party => (owned party).mutex,
    fun party worker => ⟨(owned party).work worker, (inv.each party).work worker⟩,
    inv.waiting_nodup, inv.mem_waiting, fun notifier => ⟨(owned notifier).ahead, ?_⟩⟩
  intro fiber inside
  have registered := (inv.mem_waiting fiber).mp ((owned notifier).ahead.subset inside)
  refine ⟨?_, registered, inv.ahead_lives owned inside⟩
  intro same
  subst same
  cases position : state.pc fiber <;> simp [position, Pc.registered] at registered inside

/-- A thread has notified one of two fibers. -/
theorem walks_waiting_of_two :
    ∃ state : ConditionVariable (Fin 3) Unit Bool, (state.pc 2).ahead = [0] ∧ [0] <:+ state.waiting ∧
      (state.pc 0).registered = true := by
  obtain ⟨state, reachable, seen⟩ := System.reachable_of_replay
    (fun state : ConditionVariable (Fin 3) Unit Bool => ∃ data, state = { data := data })
    (step fun party => if party = 2 then none else some ()) ⟨false, rfl⟩
    ([.lock 0, .wait 0 ⟨id, false⟩] ++ List.replicate 8 (.advance 0 false) ++
      [.unlockWorker (), .lock 1, .wait 1 ⟨id, false⟩] ++ List.replicate 8 (.advance 1 false) ++
      [.unlockWorker (), .notifyAll 2] ++ List.replicate 3 (.advance 2 false))
    (fun state => decide ((state.pc 2).ahead = [0])) (by decide +kernel)
  have ahead := of_decide_eq_true seen
  obtain ⟨suffix, fibers⟩ := (walks_waiting reachable).2.2.2.2 2
  rw [ahead] at suffix fibers
  exact ⟨state, ahead, suffix, (fibers 0 (by simp)).2.1⟩

end ConditionVariable

end MiniMarl
