import MiniMarl.ConditionVariable.Simulation

namespace MiniMarl

open Transition ConditionVariable

namespace Pc

variable {π κ δ : Type}

/-- Outside of the user's lock, the position tells the place. -/
theorem counts_of_shows {pc : Pc π κ δ} {place : Monitor.Place} (shows : pc.shows place) (quiet : pc.inside = false) :
    place.counted = pc.counted ∧ place.onThread = pc.countedOnCondition ∧
      (pc.registered = true → place ≠ .outside) := by
  cases pc <;> simp [inside] at quiet <;> simp only [Pc.shows] at shows <;> subst shows <;>
    simp [Monitor.Place.counted, Monitor.Place.onThread, counted, countedOnCondition, registered, onFiber, onThread]

end Pc

namespace Monitor

variable {π : Type} [DecidableEq π] [Fintype π] {isFiber : π → Bool} {monitor : Monitor π}

omit [Fintype π] in
theorem rouse_of_awake {sleeper : π} (awake : (monitor.place sleeper).isAsleep = false) :
    monitor.rouse sleeper = monitor := by
  have same : (monitor.place sleeper).roused = monitor.place sleeper := by
    cases found : monitor.place sleeper <;> first | rfl | simp [found, Place.isAsleep] at awake
  rw [rouse, same, Function.update_eq_self]

/-- Without a registered fiber, `notify_one` wakes the thread that is chosen. -/
theorem Inv.notifyOne_of_nil (inv : Inv isFiber monitor) (nil : monitor.waiting = []) (sleeper : π) :
    monitor.notifyOne sleeper = monitor.rouse sleeper := by
  unfold notifyOne
  split
  · rename_i zero
    rw [rouse_of_awake (by rw [inv.outside_of_zero zero]; rfl)]
  · rw [nil]
    simp only
    split
    · rfl
    · rename_i none
      have thread := Data.false_of_sum_nonpos (fun party => (monitor.place party).onThread)
        (by rw [← inv.numWaitingOnCondition]; omega) sleeper
      rw [rouse_of_awake]
      cases found : monitor.place sleeper <;> first | rfl | simp [found, Place.onThread] at thread

end Monitor

namespace ConditionVariable

variable {π κ δ : Type} [DecidableEq π] [DecidableEq κ] [Fintype π]
variable {home : π → Option κ} {state : ConditionVariable π κ δ} {monitor : Monitor π} {party sleeper : π}

omit [DecidableEq κ] in
/-- With nobody inside of the user's lock the list and the counts are the same. -/
theorem Refines.counts (inv : state.Inv home) (known : monitor.Inv (fibers home)) (refines : state.Refines monitor)
    (quiet : ∀ party, (state.pc party).inside = false) :
    monitor.waiting = state.waiting ∧ monitor.numWaiting = state.numWaiting ∧
      monitor.numWaitingOnCondition = state.numWaitingOnCondition := by
  have each := fun party => Pc.counts_of_shows (refines.each party).shows (quiet party)
  refine ⟨?_, ?_, ?_⟩
  · rw [refines.waiting]
    refine List.filter_eq_self.mpr fun party member => ?_
    simpa using (each party).2.2 ((inv.mem_waiting party).mp member)
  · rw [known.numWaiting, inv.numWaiting]
    exact Finset.sum_congr rfl fun party _ => by rw [(each party).1]
  · rw [known.numWaitingOnCondition, inv.numWaitingOnCondition]
    exact Finset.sum_congr rfl fun party _ => by rw [(each party).2.1]

omit [DecidableEq κ] [Fintype π] in
/-- The fiber that `notify_one` has chosen. -/
theorem Refines.notify {fiber : π} (refines : state.Refines monitor)
    (awaited : (state.pc fiber).isSuspended = true ∨ (state.pc fiber).isUp = true)
    (blocked : (state.pc fiber).isSuspended = true → state.fiber fiber ≠ .running)
    (above : (monitor.place fiber).isSuspended = true → monitor.fiber fiber ≠ .running) :
    ({ state with fiber := Function.update state.fiber fiber (state.fiber fiber).notified }).Refines
      (monitor.notify fiber) := by
  obtain ⟨shows, heads, _, _, _⟩ := refines.each fiber
  refine refines.move fiber (fun other away => by simp [away]) (fun other away => by simp [Monitor.notify, away])
    refines.waiting rfl (fun _ _ _ => rfl) (fun _ => ⟨rfl, ?_⟩) ⟨shows, heads, ?_, ?_, ?_⟩
  · intro stirs
    rcases stirs with queued | up
    · exact .inl (by simp [queued, Fiber.State.notified])
    · exact .inr up
  · intro call suspends
    have position : state.pc fiber = .suspend call := suspends
    rcases awaited with suspended | up
    · simp [position, Pc.isSuspended] at suspended
    · simp [position, Pc.isUp] at up
  · intro suspended
    exact .inl (by simp [notified_of_busy (blocked suspended)])
  · intro _ suspended
    exact .inl (by simp [Monitor.notify, notified_of_busy (above suspended)])

omit [DecidableEq κ] [Fintype π] in
/-- The thread that `condition_.notify_one()` has chosen. -/
theorem Refines.rouse (refines : state.Refines monitor) :
    ({ state with pc := Function.update state.pc sleeper (state.pc sleeper).roused }).Refines
      (monitor.rouse sleeper) := by
  obtain ⟨shows, heads, parks, sleeps, stirs⟩ := refines.each sleeper
  have place : ∀ other, (monitor.rouse sleeper).place other =
      if other = sleeper then (monitor.place sleeper).roused else monitor.place other := by
    intro other
    by_cases here : other = sleeper
    · simp [Monitor.rouse, here]
    · simp [Monitor.rouse, here]
  have up : (state.pc sleeper).roused.isUp = (state.pc sleeper).isUp := by cases state.pc sleeper <;> rfl
  have sweep : (state.pc sleeper).roused.sweep? = (state.pc sleeper).sweep? := by cases state.pc sleeper <;> rfl
  have sweeping : ({ state with pc := Function.update state.pc sleeper (state.pc sleeper).roused }).sweeping =
      state.sweeping := sweeping_keep sleeper rfl (fun other away => by simp [away]) (by simp [sweep])
  have outside : (monitor.place sleeper).roused = .outside ↔ monitor.place sleeper = .outside := by
    cases monitor.place sleeper <;> simp [Monitor.Place.roused]
  refine refines.move sleeper (fun other away => by simp [away]) ?_ ?_ sweeping (fun _ _ _ => rfl) (fun _ => ⟨rfl, ?_⟩)
    ⟨?_, ?_, ?_, ?_, ?_⟩
  · intro other away
    exact ⟨by rw [place, if_neg away], rfl⟩
  · refine refines.waiting.trans (List.filter_congr fun other _ => ?_)
    rw [place]
    split
    · rename_i here
      rw [here, decide_eq_decide, ne_eq, ne_eq, outside]
    · rfl
  · intro stirring
    rcases stirring with queued | high
    · exact .inl queued
    · exact .inr (by simpa [up] using high)
  · simpa [Monitor.rouse] using Pc.shows_roused shows
  · rw [place, if_pos rfl, outside]
    intro away front
    refine heads away ?_
    cases position : state.pc sleeper <;> simp [position, Pc.roused, Pc.heads] at front <;> rfl
  · intro call suspends
    refine parks call ?_
    cases position : state.pc sleeper <;> simp [position, Pc.roused] at suspends
    rw [suspends]
  · simpa [Monitor.rouse] using sleeps
  · rw [place, if_pos rfl, sweeping]
    intro stirring suspended
    refine stirs ?_ ?_
    · simpa [Stirring, up] using stirring
    · cases found : monitor.place sleeper <;> simp [found, Monitor.Place.roused, Monitor.Place.isSuspended] at suspended
      rfl

end ConditionVariable

namespace Guarded

variable {π κ δ : Type} [DecidableEq π] [DecidableEq κ] [Fintype π]
variable {home : π → Option κ} {state after : Guarded π κ δ} {monitor : Monitor π} {party sleeper : π}

/-- The next operation of a `notify_one` is its last. -/
def returns (state : Guarded π κ δ) (party : π) : Bool :=
  match state.signal party with
  | .idle => false
  | .readWaiting => decide (state.cv.numWaiting = 0)
  | .notifyFiber => !state.cv.waiting.isEmpty
  | .readCondition => decide (state.cv.numWaitingOnCondition ≤ 0)
  | .notifyCondition => true

/-- The calls that a step makes of the condition variable of whole calls. -/
def calls (state : Guarded π κ δ) (monitor : Monitor π) : Label π κ δ → List (Monitor.Label π)
  | .call label => state.cv.allCalls monitor label
  | .notifyOne _ => []
  | .signal party sleeper => if state.returns party then [.notifyOne sleeper] else []

omit [DecidableEq π] [DecidableEq κ] in
theorem chooses_eq (refines : state.cv.Refines monitor) (sleeper : π) :
    monitor.chooses sleeper = state.chooses sleeper := by
  have asleep := fun party => Pc.asleep_of_shows (refines.each party).shows
  simp only [Monitor.chooses, chooses, asleep]

omit [DecidableEq κ] in
theorem advance_follows (inv : Inv home state) (known : monitor.Inv (fibers home)) (refines : state.cv.Refines monitor)
    (chosen : state.chooses sleeper = true) (moved : state.advance home party sleeper = some after) :
    Follows home after.cv monitor (state.calls monitor (.signal party sleeper)) := by
  have called : monitor.step (fibers home) (.notifyOne sleeper) = some (monitor.notifyOne sleeper) := by
    simp [Monitor.step, chooses_eq refines, chosen]
  obtain ⟨free, held⟩ := inv.signals party (advance_cases moved).1
  have quiet : ∀ other, (state.cv.pc other).inside = false := by
    intro other
    cases inside : (state.cv.pc other).inside with
    | false => rfl
    | true =>
        have holder := (inv.cv.each other).inside inside
        rw [held, Option.some.injEq] at holder
        obtain ⟨result, position⟩ := Pc.eq_free free
        simp [← holder, position, Pc.inside] at inside
  obtain ⟨waiting, numWaiting, onCondition⟩ := refines.counts inv.cv known quiet
  cases found : state.signal party with
  | idle => simp [advance, found] at moved
  | readWaiting =>
      simp only [advance, found, Option.some.injEq] at moved
      subst moved
      by_cases zero : state.cv.numWaiting = 0
      · simp only [calls, returns, found, zero, decide_true, if_true]
        have none : monitor.notifyOne sleeper = monitor := by simp [Monitor.notifyOne, numWaiting, zero]
        exact .one _ called (by rw [none]; exact refines)
      · simp only [calls, returns, found, zero, decide_false]
        exact .none refines
  | notifyFiber =>
      simp only [advance, found, Option.ite_none_right_eq_some] at moved
      obtain ⟨_, moved⟩ := moved
      cases entries : state.cv.waiting with
      | nil =>
          simp only [entries, Option.some.injEq] at moved
          subst moved
          simp only [calls, returns, found, entries, List.isEmpty_nil, Bool.not_true]
          exact .none refines
      | cons fiber rest =>
          rw [entries] at waiting
          have member : fiber ∈ state.cv.waiting := by simp [entries]
          have apart : fiber ≠ party := by
            intro same
            obtain ⟨result, position⟩ := Pc.eq_free free
            have registered := (inv.cv.mem_waiting fiber).mp member
            simp [same, position, Pc.registered] at registered
          simp only [entries, Option.bind_eq_some_iff, Option.ite_none_right_eq_some, Option.some.injEq] at moved
          obtain ⟨worker, lives, unlocked, rfl⟩ := moved
          have awaited : (state.cv.pc fiber).isSuspended = true ∨ (state.cv.pc fiber).isUp = true := by
            rcases inv.cv.suspended_of_mem held apart member with ⟨call, suspends⟩ | awaited
            · have mine := (inv.cv.each fiber).work worker (by rw [suspends]; exact lives)
              rw [unlocked] at mine
              cases mine
            · exact awaited
          simp only [calls, returns, found, entries, List.isEmpty_cons, Bool.not_false, if_true]
          refine .one _ called ?_
          rw [known.notifyOne_of_cons waiting]
          have notified := refines.notify awaited (inv.cv.each fiber).fiber.mpr (known.each fiber).suspended.mpr
          rw [entries] at notified
          exact notified
  | readCondition =>
      simp only [advance, found, Option.some.injEq] at moved
      subst moved
      have nil := inv.emptied party (by rw [found]; rfl)
      by_cases some : state.cv.numWaitingOnCondition > 0
      · have more : ¬ state.cv.numWaitingOnCondition ≤ 0 := by omega
        simp only [calls, returns, found, more, decide_false]
        exact .none refines
      · have none : monitor.notifyOne sleeper = monitor := by
          simp [Monitor.notifyOne, waiting, nil, onCondition, some]
        have less : state.cv.numWaitingOnCondition ≤ 0 := by omega
        simp only [calls, returns, found, less, decide_true, if_true]
        exact .one _ called (by rw [none]; exact refines)
  | notifyCondition =>
      simp only [advance, found, Option.some.injEq] at moved
      subst moved
      have nil := waiting.trans (inv.emptied party (by rw [found]; rfl))
      simp only [calls, returns, found, if_true]
      refine .one _ called ?_
      rw [known.notifyOne_of_nil nil]
      exact refines.rouse

theorem step_follows {label : Label π κ δ} (inv : Inv home state) (known : monitor.Inv (fibers home))
    (refines : state.cv.Refines monitor) (stepped : state.step home label = some after) :
    Follows home after.cv monitor (state.calls monitor label) := by
  cases label with
  | call label =>
      simp only [step, Option.ite_none_right_eq_some] at stepped
      obtain ⟨cv, moved, rfl⟩ := Option.map_eq_some_iff.mp stepped.2
      exact ConditionVariable.step_follows inv.cv inv.owned known refines inv.notifies moved
  | notifyOne party =>
      simp only [step, Option.ite_none_right_eq_some, Option.some.injEq] at stepped
      obtain ⟨_, rfl⟩ := stepped
      exact .none refines
  | signal party sleeper =>
      simp only [step, Option.ite_none_right_eq_some] at stepped
      exact advance_follows inv known refines stepped.1 stepped.2

omit [DecidableEq π] [DecidableEq κ] [Fintype π] in
theorem initial_refines (data : δ) :
    ({ data := data } : ConditionVariable π κ δ).Refines ({} : Monitor π) := by
  refine ⟨rfl, by simp [sweeping], fun party => .awake rfl (by simp [Pc.heads]) rfl⟩

theorem exists_refined (reachable : (system home).Reachable state) :
    ∃ monitor, (Monitor.system (fibers home)).Reachable monitor ∧ state.cv.Refines monitor := by
  induction reachable with
  | initial start =>
      obtain ⟨data, rfl⟩ := start
      exact ⟨{}, .initial rfl, initial_refines data⟩
  | step before move ih =>
      obtain ⟨monitor, known, refines⟩ := ih
      obtain ⟨later, run, refines⟩ :=
        step_follows (inv_of_reachable before) (Monitor.inv_of_reachable known) refines move
      exact ⟨later, run.reachable known, refines⟩

/-- With the user's lock free, the two condition variables have the same list
and counts, and every party at the same place. -/
structure Agrees (state : ConditionVariable π κ δ) (monitor : Monitor π) : Prop where
  waiting : monitor.waiting = state.waiting
  numWaiting : monitor.numWaiting = state.numWaiting
  numWaitingOnCondition : monitor.numWaitingOnCondition = state.numWaitingOnCondition
  place : ∀ party, (state.pc party).shows (monitor.place party)
  fiber : ∀ party, (state.pc party).isSuspended = true → monitor.fiber party = state.fiber party

omit [DecidableEq κ] in
theorem agrees_of_free (inv : state.cv.Inv home) (known : monitor.Inv (fibers home))
    (refines : state.cv.Refines monitor) (free : state.cv.user = none) : Agrees state.cv monitor := by
  have quiet : ∀ party, (state.cv.pc party).inside = false := by
    intro party
    cases inside : (state.cv.pc party).inside with
    | false => rfl
    | true =>
        have held := (inv.each party).inside inside
        rw [free] at held
        cases held
  obtain ⟨waiting, numWaiting, onCondition⟩ := refines.counts inv known quiet
  refine ⟨waiting, numWaiting, onCondition, fun party => (refines.each party).shows, fun party suspended => ?_⟩
  obtain ⟨shows, _, _, sleeps, stirs⟩ := refines.each party
  rcases sleeps suspended with queued | same
  · have above : (monitor.place party).isSuspended = true := by
      cases position : state.cv.pc party <;> simp [position, Pc.isSuspended] at suspended
      simp only [position, Pc.shows] at shows
      rw [shows]
      rfl
    rcases stirs (.inl queued) above with notified | ⟨rest, sweeps, _⟩
    · rw [notified, queued]
    · rw [sweeping_of_free free] at sweeps
      cases sweeps
  · exact same.symm

/-- The condition variable refines the one of whole calls: its steps are made of
the calls that `calls` names, and whenever the user's lock is free the two agree. -/
theorem refines_whole_calls {home : π → Option κ} {state : Guarded π κ δ}
    (reachable : (system home).Reachable state) :
    (∃ monitor, (Monitor.system (fibers home)).Reachable monitor ∧ state.cv.Refines monitor) ∧
      ∀ monitor, (Monitor.system (fibers home)).Reachable monitor → state.cv.Refines monitor →
        (state.cv.user = none → Agrees state.cv monitor) ∧
          ∀ label after, state.step home label = some after → ∃ later,
            (Monitor.system (fibers home)).Run monitor (state.calls monitor label) later ∧ after.cv.Refines later := by
  have inv := inv_of_reachable reachable
  refine ⟨exists_refined reachable, fun monitor known refines => ⟨fun free => ?_, fun label after stepped => ?_⟩⟩
  · exact agrees_of_free inv.cv (Monitor.inv_of_reachable known) refines free
  · exact step_follows inv (Monitor.inv_of_reachable known) refines stepped

/-- A fiber has been suspended, and a thread has notified it with `notify_one`. -/
theorem refines_whole_calls_of_notified : ∃ (state : Guarded Bool Unit Bool) (monitor : Monitor Bool),
    state.cv.fiber true = .queued ∧ (Monitor.system (fibers fun party => if party then some () else none)).Reachable
      monitor ∧ state.cv.Refines monitor := by
  obtain ⟨state, reachable, seen⟩ := System.reachable_of_replay
    (fun state : Guarded Bool Unit Bool => ∃ data, state = { cv := { data := data } })
    (step fun party => if party then some () else none) ⟨false, rfl⟩
    ([.call (.lock true), .call (.wait true ⟨id, false⟩)] ++ List.replicate 8 (.call (.advance true false)) ++
      [.call (.unlockWorker ()), .call (.lock false), .notifyOne false, .signal false false, .signal false false])
    (fun state => decide (state.cv.fiber true = .queued)) (by decide +kernel)
  obtain ⟨monitor, known, refines⟩ := (refines_whole_calls reachable).1
  exact ⟨state, monitor, of_decide_eq_true seen, known, refines⟩

end Guarded

end MiniMarl
