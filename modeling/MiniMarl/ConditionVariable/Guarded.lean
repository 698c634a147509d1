import MiniMarl.ConditionVariable.Locks
import MiniMarl.ConditionVariable.Outcome

namespace MiniMarl

open Transition

/-! The condition variable for users that hold their lock around every call, as
`Event` does. Besides the calls of before there is `notify_one`, and
`notify_all` only starts with the user's lock. -/

/-- The next operation of a `notify_one`. -/
inductive Guarded.Signal where
  | idle
  | readWaiting
  | notifyFiber
  | readCondition
  | notifyCondition
deriving DecidableEq, Repr

structure Guarded (π κ δ : Type) where
  cv : ConditionVariable π κ δ
  signal : π → Guarded.Signal := fun _ => .idle

/-- `notify_one` has found no fiber. -/
def Guarded.Signal.past : Guarded.Signal → Bool
  | .readCondition | .notifyCondition => true
  | _ => false

inductive Guarded.Label (π κ δ : Type) where
  | call (label : ConditionVariable.Label π κ δ)
  | notifyOne (party : π)
  /-- `sleeper` is the thread that `condition_.notify_one()` would choose. -/
  | signal (party sleeper : π)

namespace Pc

variable {π κ δ : Type}

def isAsleep : Pc π κ δ → Bool
  | .asleep _ => true
  | _ => false

end Pc

namespace Guarded

variable {π κ δ : Type} [DecidableEq π] [DecidableEq κ]

def goto (state : Guarded π κ δ) (party : π) (signal : Signal) : Guarded π κ δ :=
  { state with signal := Function.update state.signal party signal }

/-- One operation of a party inside `notify_one`. -/
def advance (home : π → Option κ) (state : Guarded π κ δ) (party sleeper : π) : Option (Guarded π κ δ) :=
  match state.signal party with
  | .idle => none
  | .readWaiting => some (state.goto party (if state.cv.numWaiting = 0 then .idle else .notifyFiber))
  | .notifyFiber =>
      if state.cv.mutex = none then
        match state.cv.waiting with
        | fiber :: _ =>
            -- `enqueue(Fiber *)` is over when it has unlocked the worker
            (home fiber).bind fun worker =>
              if state.cv.work worker = none then
                some ({ state with
                  cv.fiber := Function.update state.cv.fiber fiber (state.cv.fiber fiber).notified }.goto party .idle)
              else none
        | [] => some (state.goto party .readCondition)
      else none
  | .readCondition =>
      some (state.goto party (if state.cv.numWaitingOnCondition > 0 then .notifyCondition else .idle))
  | .notifyCondition =>
      some ({ state with
        cv.pc := Function.update state.cv.pc sleeper (state.cv.pc sleeper).roused }.goto party .idle)

/-- The user's lock is taken around the calls, and a party is in one at a time. -/
def permits (state : Guarded π κ δ) : ConditionVariable.Label π κ δ → Bool
  | .notifyAll party => decide (state.signal party = .idle ∧ state.cv.user = some party)
  | label => label.party?.all fun party => decide (state.signal party = .idle)

/-- `condition_.notify_one()` wakes a sleeping thread if there is one. -/
def chooses [Fintype π] (state : Guarded π κ δ) (sleeper : π) : Bool :=
  (state.cv.pc sleeper).isAsleep || decide (∀ party, (state.cv.pc party).isAsleep = false)

def step [Fintype π] (home : π → Option κ) (state : Guarded π κ δ) : Label π κ δ → Option (Guarded π κ δ)
  | .call label =>
      if state.permits label then (state.cv.step home label).map fun cv => { state with cv } else none
  | .notifyOne party =>
      if (state.cv.pc party).isFree ∧ state.cv.user = some party ∧ state.signal party = .idle then
        some (state.goto party .readWaiting)
      else none
  | .signal party sleeper => if state.chooses sleeper then state.advance home party sleeper else none

def system [Fintype π] (home : π → Option κ) : System (Guarded π κ δ) (Label π κ δ) :=
  .ofStep (fun state => ∃ data, state = { cv := { data := data } }) (step home)

variable {home : π → Option κ} {state after : Guarded π κ δ} {party sleeper fiber : π}

omit [DecidableEq κ] in
theorem permits_idle {label : ConditionVariable.Label π κ δ} (permitted : state.permits label = true)
    (named : label.party? = some party) : state.signal party = .idle := by
  cases label <;> simp_all [permits, ConditionVariable.Label.party?]

omit [DecidableEq κ] in
/-- What an operation of `notify_one` does to the condition variable. -/
theorem advance_cases (moved : state.advance home party sleeper = some after) :
    state.signal party ≠ .idle ∧ (∀ other, other ≠ party → after.signal other = state.signal other) ∧
      (after.cv = state.cv ∨
        (∃ fiber rest worker, state.cv.waiting = fiber :: rest ∧ home fiber = some worker ∧
          state.cv.work worker = none ∧ after.cv = { state.cv with
            fiber := Function.update state.cv.fiber fiber (state.cv.fiber fiber).notified }) ∨
        after.cv = { state.cv with pc := Function.update state.cv.pc sleeper (state.cv.pc sleeper).roused }) := by
  have others : ∀ (state : Guarded π κ δ) signal other, other ≠ party →
      (state.goto party signal).signal other = state.signal other := by
    intro state signal other away
    simp [goto, away]
  cases found : state.signal party with
  | idle => simp [advance, found] at moved
  | readWaiting | readCondition =>
      simp only [advance, found, Option.some.injEq] at moved
      subst moved
      exact ⟨by simp, others _ _, .inl rfl⟩
  | notifyFiber =>
      simp only [advance, found, Option.ite_none_right_eq_some] at moved
      obtain ⟨_, moved⟩ := moved
      cases waiting : state.cv.waiting with
      | nil =>
          simp only [waiting, Option.some.injEq] at moved
          subst moved
          exact ⟨by simp, others _ _, .inl rfl⟩
      | cons fiber rest =>
          simp only [waiting, Option.bind_eq_some_iff, Option.ite_none_right_eq_some, Option.some.injEq] at moved
          obtain ⟨worker, lives, unlocked, rfl⟩ := moved
          exact ⟨by simp, others _ _,
            .inr (.inl ⟨fiber, rest, worker, rfl, lives, unlocked, by rw [← waiting]; rfl⟩)⟩
  | notifyCondition =>
      simp only [advance, found, Option.some.injEq] at moved
      subst moved
      exact ⟨by simp, others _ _, .inr (.inr rfl)⟩

omit [DecidableEq κ] in
theorem past_of_advance (moved : state.advance home party sleeper = some after)
    (past : (after.signal party).past = true) : (state.signal party).past = true ∨ state.cv.waiting = [] := by
  cases found : state.signal party with
  | idle => simp [advance, found] at moved
  | readWaiting =>
      simp only [advance, found, Option.some.injEq] at moved
      subst moved
      split at past <;> simp [goto, Signal.past] at past
  | notifyFiber =>
      simp only [advance, found, Option.ite_none_right_eq_some] at moved
      obtain ⟨_, moved⟩ := moved
      cases waiting : state.cv.waiting with
      | nil => exact .inr rfl
      | cons fiber rest =>
          simp only [waiting, Option.bind_eq_some_iff, Option.ite_none_right_eq_some, Option.some.injEq] at moved
          obtain ⟨worker, _, _, rfl⟩ := moved
          simp [goto, Signal.past] at past
  | readCondition | notifyCondition => exact .inl rfl

end Guarded

namespace ConditionVariable

variable {π κ δ : Type} [DecidableEq π]
variable {home : π → Option κ} {state : ConditionVariable π κ δ}

theorem notified_frame (state : ConditionVariable π κ δ) (fiber other : π) :
    Frame state { state with fiber := Function.update state.fiber fiber (state.fiber fiber).notified } other := by
  constructor <;> simp
  by_cases here : other = fiber
  · exact .inr (by simp [here])
  · exact .inl (by simp [here])

theorem roused_frame (state : ConditionVariable π κ δ) (sleeper other : π) :
    Frame state { state with pc := Function.update state.pc sleeper (state.pc sleeper).roused } other := by
  constructor <;> simp
  by_cases here : other = sleeper
  · exact .inr (by simp [here])
  · exact .inl (by simp [here])

variable [DecidableEq κ] {after : ConditionVariable π κ δ} {party : π} {expired : Bool}

/-- A `notify_all` goes on with the locks that it has. -/
theorem notifying_of_advance (timely : (state.pc party).timely = true)
    (moved : state.advance home party expired = some after) (notifying : (after.pc party).notifying = true) :
    (state.pc party).notifying = true ∧ after.user = state.user := by
  cases quiet : (state.pc party).notifying with
  | false =>
      have silent := (advance_path quiet timely moved).quiet
      rw [notifying] at silent
      cases silent
  | true =>
      refine ⟨rfl, ?_⟩
      cases found : state.pc party with
      | readWaiting | readCondition =>
          simp only [advance, found, Option.some.injEq] at moved
          subst moved
          split <;> rfl
      | lockNotify =>
          simp only [advance, found, Option.ite_none_right_eq_some, Option.some.injEq] at moved
          obtain ⟨_, rfl⟩ := moved
          rfl
      | unlockWork _ _ | notifyCondition =>
          simp only [advance, found, Option.some.injEq] at moved
          subst moved
          rfl
      | notify rest =>
          cases rest with
          | nil =>
              simp only [advance, found, Option.some.injEq] at moved
              subst moved
              rfl
          | cons next rest =>
              obtain ⟨worker, _, _, rfl⟩ := advance_notify_cons found moved
              rfl
      | _ => simp [found, Pc.notifying] at quiet

/-- The list and its counts are only changed under the user's lock. -/
theorem step_frozen {label : Label π κ δ} {holder : π} (each : ∀ party, Local home state party)
    (notifies : ∀ party, (state.pc party).notifying = true → state.user = some party)
    (held : state.user = some holder) (away : label.party? ≠ some holder)
    (stepped : state.step home label = some after) : after.waiting = state.waiting := by
  cases label with
  | advance party expired =>
      have apart : party ≠ holder := by
        intro same
        exact away (by rw [← same]; rfl)
      have inside := (each party).inside
      have notifying := notifies party
      rw [held, Option.some.injEq] at inside notifying
      cases position : state.pc party <;> simp [position, Pc.inside, Pc.notifying] at inside notifying
      case free | suspended | asleep => simp [step, advance, position] at stepped
      case suspend | resumed =>
        simp only [step, advance, position, Option.bind_eq_some_iff, Option.some.injEq] at stepped
        obtain ⟨worker, _, rfl⟩ := stepped
        rfl
      case relock | woken =>
        simp only [step, advance, position, held, Option.ite_none_right_eq_some] at stepped
        exact absurd stepped.1 (by simp)
      all_goals first | exact absurd inside.symm apart | exact absurd notifying.symm apart
  | lock party | unlock party | change party data | adjust party data | wait party call | notifyAll party
  | lockWorker worker | unlockWorker worker =>
      simp only [step, Option.ite_none_right_eq_some, Option.some.injEq] at stepped
      obtain ⟨_, rfl⟩ := stepped
      rfl
  | resume party =>
      obtain ⟨worker, call, _, _, _, _, rfl⟩ := step_resume stepped
      rfl
  | timeout party =>
      obtain ⟨_, rfl⟩ := step_timeout stepped
      rfl
  | wake party timedOut =>
      obtain ⟨call, _, _, rfl⟩ := step_wake stepped
      rfl

end ConditionVariable

namespace Guarded

variable {π κ δ : Type} [DecidableEq π] [DecidableEq κ] [Fintype π]
variable {home : π → Option κ} {state after : Guarded π κ δ} {party other sleeper : π}

structure Inv (home : π → Option κ) (state : Guarded π κ δ) : Prop where
  cv : state.cv.Inv home
  owned : ConditionVariable.Owned home state.cv
  /-- A `notify_one` under way has the user's lock. -/
  signals : ∀ party, state.signal party ≠ .idle →
    (state.cv.pc party).isFree = true ∧ state.cv.user = some party
  /-- So has a `notify_all`. -/
  notifies : ∀ party, (state.cv.pc party).notifying = true → state.cv.user = some party
  emptied : ∀ party, (state.signal party).past = true → state.cv.waiting = []

omit [DecidableEq κ] in
/-- A change that every party only sees from the outside. -/
theorem Inv.framed (inv : Inv home state)
    (frame : ∀ other, ConditionVariable.Frame state.cv after.cv other)
    (aside : ∀ other, ConditionVariable.Aside state.cv after.cv other)
    (counts : after.cv.numWaiting = state.cv.numWaiting ∧
      after.cv.numWaitingOnCondition = state.cv.numWaitingOnCondition)
    (waiting : after.cv.waiting = state.cv.waiting)
    (signals : ∀ other, after.signal other ≠ .idle → state.signal other ≠ .idle)
    (past : ∀ other, (after.signal other).past = true → (state.signal other).past = true ∨ state.cv.waiting = []) :
    Inv home after := by
  have same : ∀ (value : Pc π κ δ → Bool), (∀ pc : Pc π κ δ, value pc.roused = value pc) →
      ∀ other, value (after.cv.pc other) = value (state.cv.pc other) := by
    intro value roused other
    rcases (frame other).pc with same | same <;> simp [same, roused]
  refine ⟨⟨fun other => (frame other).keeps (inv.cv.each other), ?_, ?_⟩,
    fun other => (inv.owned other).keep (aside other) (frame other).pc, fun other busy => ?_, fun other notifying => ?_,
    fun other beyond => ?_⟩
  · rw [counts.1, inv.cv.numWaiting]
    exact Finset.sum_congr rfl fun other _ => by rw [same Pc.counted Pc.roused_counted]
  · rw [counts.2, inv.cv.numWaitingOnCondition]
    exact Finset.sum_congr rfl fun other _ => by rw [same Pc.countedOnCondition Pc.roused_countedOnCondition]
  · obtain ⟨free, held⟩ := inv.signals other (signals other busy)
    refine ⟨?_, (frame other).user.mpr held⟩
    rw [same Pc.isFree fun pc => by cases pc <;> rfl]
    exact free
  · rw [same Pc.notifying Pc.roused_notifying] at notifying
    exact (frame other).user.mpr (inv.notifies other notifying)
  · rw [waiting]
    exact (past other beyond).elim (inv.emptied other) id

theorem Inv.call {label : ConditionVariable.Label π κ δ} {cv : ConditionVariable π κ δ} (inv : Inv home state)
    (permitted : state.permits label = true) (moved : state.cv.step home label = some cv) :
    Inv home { state with cv } := by
  refine ⟨inv.cv.step moved, fun other => ?_, fun other busy => ?_, fun other notifying => ?_, fun other beyond => ?_⟩
  · by_cases named : label.party? = some other
    · exact ConditionVariable.step_owns inv.owned moved named
    · exact (inv.owned other).keep (ConditionVariable.step_aside inv.owned moved named)
        (ConditionVariable.step_frame inv.cv.each moved named).pc
  · obtain ⟨free, held⟩ := inv.signals other busy
    have away : label.party? ≠ some other := by
      intro named
      have idle := permits_idle permitted named
      exact busy idle
    have frame := ConditionVariable.step_frame inv.cv.each moved away
    refine ⟨?_, frame.user.mpr held⟩
    rcases frame.pc with same | roused
    · exact same ▸ free
    · obtain ⟨result, position⟩ := Pc.eq_free free
      simp [roused, position, Pc.roused, Pc.isFree]
  · by_cases named : label.party? = some other
    · cases label with
      | notifyAll party =>
          cases named
          simp only [permits, decide_eq_true_eq] at permitted
          simp only [ConditionVariable.step, Option.ite_none_right_eq_some, Option.some.injEq] at moved
          obtain ⟨_, rfl⟩ := moved
          exact permitted.2
      | advance party expired =>
          cases named
          obtain ⟨before, same⟩ := ConditionVariable.notifying_of_advance (inv.cv.each other).timely moved notifying
          exact same.trans (inv.notifies other before)
      | lockWorker | unlockWorker => cases named
      | lock party | unlock party | change party data | adjust party data | wait party call =>
          cases named
          simp only [ConditionVariable.step, Option.ite_none_right_eq_some, Option.some.injEq] at moved
          obtain ⟨free, rfl⟩ := moved
          have position : ∃ result, state.cv.pc other = .free result := Pc.eq_free (by simp_all)
          obtain ⟨result, position⟩ := position
          simp [ConditionVariable.goto, position, Pc.notifying] at notifying
      | resume party =>
          cases named
          obtain ⟨worker, call, _, _, _, _, rfl⟩ := ConditionVariable.step_resume moved
          simp [ConditionVariable.goto, Pc.notifying] at notifying
      | timeout party =>
          cases named
          obtain ⟨_, rfl⟩ := ConditionVariable.step_timeout moved
          exact inv.notifies other notifying
      | wake party timedOut =>
          cases named
          obtain ⟨call, _, _, rfl⟩ := ConditionVariable.step_wake moved
          simp [ConditionVariable.goto, Pc.notifying] at notifying
    · have frame := ConditionVariable.step_frame inv.cv.each moved named
      refine frame.user.mpr (inv.notifies other ?_)
      rcases frame.pc with same | roused
      · exact same ▸ notifying
      · simpa [roused] using notifying

  · have past : (state.signal other).past = true := beyond
    have busy : state.signal other ≠ .idle := by
      intro idle
      simp [idle, Signal.past] at past
    have away : label.party? ≠ some other := by
      intro named
      exact busy (permits_idle permitted named)
    have frozen := ConditionVariable.step_frozen inv.cv.each inv.notifies (inv.signals other busy).2 away moved
    exact frozen.trans (inv.emptied other past)

omit [DecidableEq κ] in
theorem Inv.advance (inv : Inv home state) (moved : state.advance home party sleeper = some after) :
    Inv home after := by
  obtain ⟨busy, others, same | ⟨fiber, _, _, _, _, _, notified⟩ | roused⟩ := advance_cases moved
  all_goals
    have signals : ∀ other, after.signal other ≠ .idle → state.signal other ≠ .idle := by
      intro other still
      by_cases here : other = party
      · exact here ▸ busy
      · exact others other here ▸ still
    have past : ∀ other, (after.signal other).past = true →
        (state.signal other).past = true ∨ state.cv.waiting = [] := by
      intro other beyond
      by_cases here : other = party
      · subst here
        exact past_of_advance moved beyond
      · exact .inl (others other here ▸ beyond)
  · exact inv.framed (fun other => by rw [same]; constructor <;> simp) (fun other => by rw [same]; constructor <;> simp)
      (by simp [same]) (by rw [same]) signals past
  · exact inv.framed (fun other => notified ▸ ConditionVariable.notified_frame state.cv fiber other)
      (fun other => by rw [notified]; constructor <;> simp) (by simp [notified]) (by rw [notified]) signals past
  · exact inv.framed (fun other => roused ▸ ConditionVariable.roused_frame state.cv sleeper other)
      (fun other => by rw [roused]; constructor <;> simp) (by simp [roused]) (by rw [roused]) signals past

theorem Inv.step {label : Label π κ δ} (inv : Inv home state) (stepped : state.step home label = some after) :
    Inv home after := by
  cases label with
  | call label =>
      simp only [Guarded.step, Option.ite_none_right_eq_some] at stepped
      obtain ⟨permitted, mapped⟩ := stepped
      obtain ⟨cv, moved, rfl⟩ := Option.map_eq_some_iff.mp mapped
      exact inv.call permitted moved
  | notifyOne party =>
      simp only [Guarded.step, Option.ite_none_right_eq_some, Option.some.injEq] at stepped
      obtain ⟨⟨free, held, _⟩, rfl⟩ := stepped
      refine ⟨inv.cv, inv.owned, fun other busy => ?_, inv.notifies, fun other beyond => ?_⟩
      · by_cases here : other = party
        · subst here
          exact ⟨free, held⟩
        · exact inv.signals other (by simpa [goto, here] using busy)
      · by_cases here : other = party
        · simp [goto, here, Signal.past] at beyond
        · exact inv.emptied other (by simpa [goto, here] using beyond)
  | signal party sleeper =>
      simp only [Guarded.step, Option.ite_none_right_eq_some] at stepped
      exact inv.advance stepped.2

theorem inv_of_reachable (reachable : (system home).Reachable state) : Inv home state := by
  refine reachable.invariant ?_ ?_
  · intro state start
    obtain ⟨data, rfl⟩ := start
    refine ⟨.initial data, fun party => ?_, by simp, by simp [Pc.notifying], by simp⟩
    constructor <;> simp [Pc.holdsMutex, Pc.ahead]
  · intro state label after _ inv stepped
    exact inv.step stepped

end Guarded

end MiniMarl
