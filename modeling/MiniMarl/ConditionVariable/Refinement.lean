import MiniMarl.ConditionVariable.Guarded
import MiniMarl.ConditionVariable.NotifyOne

namespace MiniMarl

open Transition

/-! The condition variable at the granularity of single lock and atomic
operations refines the one at the granularity of its calls.

A wait is entered where it releases the user's lock for the first time. It is
resumed where it takes the lock again, since what it does before that is seen by
nobody, and a notification is made where its call returns: the list and the
counts that it goes through are only changed under the user's lock. -/

namespace Pc

variable {π κ δ : Type}

/-- Where the condition variable of whole calls has the party. -/
def shows (pc : Pc π κ δ) (place : Monitor.Place) : Prop :=
  match pc with
  | .check call | .lockWork call | .release call => place = .outside ∨ place = .resumed call.timed
  | .suspend call | .suspended call | .resumed call | .relock call => place = .suspended call.timed
  | .test call => place = .outside ∨ place = .woken call.timed false
  | .last call => place = .woken call.timed true
  | .asleep call => place = .asleep call.timed
  | .woken call timedOut => place = .woken call.timed timedOut
  | _ => place = .outside

/-- The fiber has run since it was suspended. -/
def isUp : Pc π κ δ → Bool
  | .resumed _ | .relock _ => true
  | _ => false

/-- The fiber is the first of `waiting_`, unless it has waited before. -/
def heads : Pc π κ δ → Bool
  | .unlockList _ | .check _ | .lockWork _ | .release _ => true
  | _ => false

/-- What a `notify_all` that has locked `mutex_` has left to notify. -/
def sweep? : Pc π κ δ → Option (List π)
  | .notify rest | .unlockWork _ rest => some rest
  | .readCondition | .notifyCondition => some []
  | _ => none

theorem inside_of_heads {pc : Pc π κ δ} (heads : pc.heads = true) : pc.inside = true := by
  cases pc <;> first | rfl | cases heads

theorem shows_roused {pc : Pc π κ δ} {place : Monitor.Place} (shows : pc.shows place) :
    pc.roused.shows place.roused := by
  cases pc <;> simp only [Pc.shows, roused] at shows ⊢
  case check | lockWork | release | test =>
    rcases shows with rfl | rfl
    · exact .inl rfl
    · exact .inr rfl
  all_goals
    subst shows
    rfl

theorem asleep_of_shows {pc : Pc π κ δ} {place : Monitor.Place} (shows : pc.shows place) :
    place.isAsleep = pc.isAsleep := by
  cases pc <;> simp only [Pc.shows] at shows
  case check | lockWork | release | test =>
    rcases shows with rfl | rfl <;> rfl
  all_goals
    subst shows
    rfl

end Pc

namespace ConditionVariable

variable {π κ δ : Type} [DecidableEq π]

def sweeping (state : ConditionVariable π κ δ) : Option (List π) :=
  state.user.bind fun holder => (state.pc holder).sweep?

/-- A suspended fiber that has been notified, or has even run since. -/
def Stirring (state : ConditionVariable π κ δ) (party : π) : Prop :=
  state.fiber party = .queued ∨ (state.pc party).isUp = true

/-- The registered fibers that the calls have suspended. -/
def listed (place : π → Monitor.Place) (waiting : List π) : List π :=
  waiting.filter fun party => place party ≠ .outside

/-- How the two condition variables have one party. -/
structure Seen (state : ConditionVariable π κ δ) (monitor : Monitor π) (party : π) : Prop where
  shows : (state.pc party).shows (monitor.place party)
  heads : monitor.place party = .outside → (state.pc party).heads = true → state.waiting.head? = some party
  parks : ∀ call, state.pc party = .suspend call → monitor.fiber party = .parked call.timed
  sleeps : (state.pc party).isSuspended = true →
    state.fiber party = .queued ∨ state.fiber party = monitor.fiber party
  /-- A notification is made for all fibers at once, when the last of them has been notified. -/
  stirs : state.Stirring party → (monitor.place party).isSuspended = true →
    monitor.fiber party = .queued ∨ ∃ rest, state.sweeping = some rest ∧ party ∉ rest

structure Refines (state : ConditionVariable π κ δ) (monitor : Monitor π) : Prop where
  waiting : monitor.waiting = listed monitor.place state.waiting
  swept : ∀ rest, state.sweeping = some rest → ∀ party ∈ state.waiting, party ∉ rest → state.Stirring party
  each : ∀ party, Seen state monitor party

variable {state after : ConditionVariable π κ δ} {monitor : Monitor π} {party other : π} {place : π → Monitor.Place}
  {waiting : List π} {next : Monitor.Place}

section Listed

theorem listed_update (absent : party ∉ waiting) :
    listed (Function.update place party next) waiting = listed place waiting := by
  refine List.filter_congr ?_
  intro other member
  have apart : other ≠ party := fun same => absent (same ▸ member)
  rw [Function.update_of_ne apart]

theorem listed_keep (before : place party ≠ .outside) (now : next ≠ .outside) :
    listed (Function.update place party next) waiting = listed place waiting := by
  refine List.filter_congr ?_
  intro other member
  by_cases here : other = party
  · subst here
    simp [before, now]
  · rw [Function.update_of_ne here]

theorem listed_leave (nodup : waiting.Nodup) :
    listed (Function.update place party .outside) waiting = (listed place waiting).erase party := by
  have part : (listed place waiting).Nodup := nodup.filter _
  rw [part.erase_eq_filter, listed, listed, List.filter_filter]
  refine List.filter_congr ?_
  intro other member
  by_cases here : other = party
  · simp [here]
  · simp [here]

theorem listed_erase (outside : place party = .outside) (nodup : waiting.Nodup) :
    listed place (waiting.erase party) = listed place waiting := by
  rw [nodup.erase_eq_filter, listed, listed, List.filter_filter]
  refine List.filter_congr ?_
  intro other member
  by_cases here : other = party
  · simp [here, outside]
  · simp [here]

omit [DecidableEq π] in
theorem listed_cons (outside : place party = .outside) : listed place (party :: waiting) = listed place waiting := by
  simp [listed, outside]

theorem listed_enter (nodup : waiting.Nodup) (head : waiting.head? = some party) (outside : place party = .outside)
    (now : next ≠ .outside) : listed (Function.update place party next) waiting = party :: listed place waiting := by
  cases waiting with
  | nil => cases head
  | cons first rest =>
      cases head
      have absent : party ∉ rest := (List.nodup_cons.mp nodup).1
      have same : listed (Function.update place party next) rest = listed place rest := listed_update absent
      rw [listed_cons outside, ← same]
      simp [listed, now]

end Listed

section Sweeping

omit [DecidableEq π]

theorem sweeping_of_holder (held : state.user = some party) : state.sweeping = (state.pc party).sweep? := by
  simp [sweeping, held]

theorem sweeping_of_free (free : state.user = none) : state.sweeping = none := by simp [sweeping, free]

/-- Only the holder of the user's lock sweeps. -/
theorem sweeping_keep (party : π) (user : after.user = state.user)
    (others : ∀ other, other ≠ party → after.pc other = state.pc other)
    (here : (after.pc party).sweep? = (state.pc party).sweep?) : after.sweeping = state.sweeping := by
  rw [sweeping, sweeping, user]
  congr 1
  funext holder
  by_cases same : holder = party
  · rw [same, here]
  · rw [others holder same]

end Sweeping

omit [DecidableEq π] in
/-- A party that neither is suspended nor, with the user's lock, stands at the
front of the list. -/
theorem Seen.awake (shows : (after.pc party).shows (monitor.place party))
    (heads : monitor.place party = .outside → (after.pc party).heads = true → after.waiting.head? = some party)
    (awake : (monitor.place party).isSuspended = false) : Seen after monitor party := by
  refine ⟨shows, heads, ?_, ?_, ?_⟩
  · intro call position
    rw [position] at shows
    simp only [Pc.shows] at shows
    simp [shows, Monitor.Place.isSuspended] at awake
  · intro suspended
    obtain ⟨call, position⟩ : ∃ call, after.pc party = .suspended call := by
      cases position : after.pc party <;> simp [position, Pc.isSuspended] at suspended
      exact ⟨_, rfl⟩
    rw [position] at shows
    simp only [Pc.shows] at shows
    simp [shows, Monitor.Place.isSuspended] at awake
  · intro _ suspended
    rw [awake] at suspended
    cases suspended

variable {later : Monitor π}

omit [DecidableEq π] in
/-- A step of one party here, and of the same party there. -/
theorem Refines.move (refines : Refines state monitor) (party : π)
    (others : ∀ other, other ≠ party → after.pc other = state.pc other ∧ after.fiber other = state.fiber other)
    (above : ∀ other, other ≠ party → later.place other = monitor.place other ∧ later.fiber other = monitor.fiber other)
    (waiting : later.waiting = listed later.place after.waiting) (sweeping : after.sweeping = state.sweeping)
    (heads : ∀ other, other ≠ party → (state.pc other).heads = true → after.waiting = state.waiting)
    (swept : after.sweeping ≠ none → after.waiting = state.waiting ∧ (state.Stirring party → after.Stirring party))
    (here : Seen after later party) : Refines after later := by
  refine ⟨waiting, ?_, ?_⟩
  · intro rest sweeps fiber member outside
    obtain ⟨same, stirs⟩ := swept (by simp [sweeps])
    have before := refines.swept rest (sweeping ▸ sweeps) fiber (same ▸ member) outside
    by_cases here : fiber = party
    · exact here ▸ stirs (here ▸ before)
    · simpa [Stirring, others fiber here] using before
  · intro other
    by_cases same : other = party
    · exact same ▸ here
    · obtain ⟨shows, front, parks, sleeps, stirs⟩ := refines.each other
      obtain ⟨pc, fiber⟩ := others other same
      obtain ⟨place, queued⟩ := above other same
      refine ⟨?_, ?_, ?_, ?_, ?_⟩
      · rw [pc, place]
        exact shows
      · rw [pc, place]
        intro outside first
        rw [heads other same first]
        exact front outside first
      · rw [pc, queued]
        exact parks
      · rw [pc, fiber, queued]
        exact sleeps
      · rw [Stirring, pc, fiber, place, queued, sweeping]
        exact stirs

omit [DecidableEq π] in
/-- A step of a party that the condition variable of whole calls does not see. -/
theorem Refines.quiet (refines : Refines state monitor) (party : π)
    (others : ∀ other, other ≠ party → after.pc other = state.pc other ∧ after.fiber other = state.fiber other)
    (waiting : after.waiting = state.waiting) (sweeping : after.sweeping = state.sweeping)
    (stirs : state.Stirring party → after.Stirring party) (here : Seen after monitor party) :
    Refines after monitor :=
  refines.move party others (fun _ _ => ⟨rfl, rfl⟩) (by rw [waiting]; exact refines.waiting) sweeping
    (fun _ _ _ => waiting) (fun _ => ⟨waiting, stirs⟩) here

/-- The acting party only goes on. -/
theorem Refines.goes (refines : Refines state monitor) {next : Pc π κ δ}
    (pc : after.pc = Function.update state.pc party next) (fiber : after.fiber = state.fiber)
    (user : after.user = state.user) (waiting : after.waiting = state.waiting)
    (sweep : next.sweep? = (state.pc party).sweep?) (still : ¬ state.Stirring party)
    (shows : next.shows (monitor.place party))
    (heads : monitor.place party = .outside → next.heads = true → state.waiting.head? = some party)
    (awake : (monitor.place party).isSuspended = false) : Refines after monitor := by
  have others : ∀ other, other ≠ party → after.pc other = state.pc other ∧ after.fiber other = state.fiber other := by
    intro other away
    rw [pc, fiber, Function.update_of_ne away]
    exact ⟨rfl, rfl⟩
  have here : after.pc party = next := by rw [pc, Function.update_self]
  refine refines.quiet party others waiting ?_ (fun stirs => absurd stirs still) (.awake ?_ ?_ awake)
  · exact sweeping_keep party user (fun other away => (others other away).1) (by rw [here, sweep])
  · rw [here]
    exact shows
  · rw [here, waiting]
    exact heads

section Calls

variable {isFiber : π → Bool} {timed : Bool}

/-- The result of a wait is known. -/
theorem Refines.leave (refines : Refines state monitor) (nodup : state.waiting.Nodup)
    (thread : isFiber party = false → party ∉ state.waiting)
    (others : ∀ other, other ≠ party → after.pc other = state.pc other ∧ after.fiber other = state.fiber other)
    (waiting : after.waiting = state.waiting) (sweeping : after.sweeping = state.sweeping)
    (still : ¬ state.Stirring party) (shows : (after.pc party).shows .outside)
    (heads : (after.pc party).heads = false) : Refines after (monitor.leave isFiber party) := by
  have place : (monitor.leave isFiber party).place = Function.update monitor.place party .outside := by
    unfold Monitor.leave
    split <;> rfl
  refine refines.move party others ?_ ?_ sweeping (fun _ _ _ => waiting)
    (fun _ => ⟨waiting, fun stirs => absurd stirs still⟩) ?_
  · intro other away
    refine ⟨by rw [place, Function.update_of_ne away], ?_⟩
    unfold Monitor.leave
    split <;> rfl
  · rw [place, waiting]
    cases kind : isFiber party with
    | true =>
        rw [listed_leave nodup, ← refines.waiting]
        simp [Monitor.leave, kind]
    | false =>
        rw [listed_update (thread kind), ← refines.waiting]
        simp [Monitor.leave, kind]
  · have here : (monitor.leave isFiber party).place party = .outside := by rw [place, Function.update_self]
    exact .awake (by rw [here]; exact shows) (by simp [heads]) (by rw [here]; rfl)

/-- A fiber waits on. -/
theorem Refines.park (refines : Refines state monitor) (fiber : isFiber party = true) {call : WaitCall δ}
    (inside : monitor.place party ≠ .outside)
    (others : ∀ other, other ≠ party → after.pc other = state.pc other ∧ after.fiber other = state.fiber other)
    (waiting : after.waiting = state.waiting) (sweeping : after.sweeping = state.sweeping)
    (still : ¬ state.Stirring party) (running : after.fiber party ≠ .queued)
    (position : after.pc party = .suspend call) : Refines after (monitor.park isFiber party call.timed) := by
  refine refines.move party others ?_ ?_ sweeping (fun _ _ _ => waiting)
    (fun _ => ⟨waiting, fun stirs => absurd stirs still⟩) ?_
  · intro other away
    simp [Monitor.park, fiber, away]
  · have now : Monitor.Place.suspended call.timed ≠ .outside := by simp
    simp only [Monitor.park, fiber, if_true, waiting, listed_keep inside now]
    exact refines.waiting
  · refine ⟨?_, ?_, ?_, ?_, ?_⟩
    · simp [position, Pc.shows, Monitor.park, fiber]
    · simp [position, Pc.heads]
    · intro other same
      rw [position] at same
      cases same
      simp [Monitor.park, fiber]
    · simp [position, Pc.isSuspended]
    · simp [Stirring, position, Pc.isUp, running]

/-- A thread falls asleep. -/
theorem Refines.sleep (refines : Refines state monitor) (thread : isFiber party = false) {call : WaitCall δ}
    (absent : party ∉ state.waiting)
    (others : ∀ other, other ≠ party → after.pc other = state.pc other ∧ after.fiber other = state.fiber other)
    (waiting : after.waiting = state.waiting) (sweeping : after.sweeping = state.sweeping)
    (still : ¬ state.Stirring party) (position : after.pc party = .asleep call) :
    Refines after (monitor.park isFiber party call.timed) := by
  refine refines.move party others ?_ ?_ sweeping (fun _ _ _ => waiting)
    (fun _ => ⟨waiting, fun stirs => absurd stirs still⟩) ?_
  · intro other away
    simp [Monitor.park, thread, away]
  · have same : listed (Function.update monitor.place party (.asleep call.timed)) state.waiting =
        listed monitor.place state.waiting := listed_update absent
    simp only [Monitor.park, thread, Bool.false_eq_true, if_false, waiting, same]
    exact refines.waiting
  · refine .awake ?_ (by simp [position, Pc.heads]) ?_
    · simp [position, Pc.shows, Monitor.park, thread]
    · simp [Monitor.park, thread, Monitor.Place.isSuspended]

/-- A fiber has the user's lock again. -/
theorem Refines.resume (refines : Refines state monitor) {call : WaitCall δ}
    (place : monitor.place party = .suspended call.timed)
    (others : ∀ other, other ≠ party → after.pc other = state.pc other ∧ after.fiber other = state.fiber other)
    (waiting : after.waiting = state.waiting) (free : state.user = none) (held : after.user = some party)
    (position : after.pc party = .check call) :
    Refines after { monitor with
      fiber := Function.update monitor.fiber party .running
      place := Function.update monitor.place party (.resumed call.timed) } := by
  have none : after.sweeping = .none := by
    rw [sweeping_of_holder held, position]
    rfl
  refine refines.move party others (fun other away => by simp [away]) ?_ ?_ (fun _ _ _ => waiting)
    (fun some => absurd none some) (.awake ?_ ?_ ?_)
  · have inside : monitor.place party ≠ .outside := by simp [place]
    have now : Monitor.Place.resumed call.timed ≠ .outside := by simp
    rw [waiting]
    exact refines.waiting.trans (listed_keep inside now).symm
  · rw [none, sweeping_of_free free]
  · simp [position, Pc.shows]
  · simp
  · simp [Monitor.Place.isSuspended]

/-- A fiber is suspended for the first time. -/
theorem Refines.enter (refines : Refines state monitor) (fiber : isFiber party = true) {call : WaitCall δ}
    (outside : monitor.place party = .outside) (nodup : state.waiting.Nodup)
    (head : state.waiting.head? = some party)
    (others : ∀ other, other ≠ party → after.pc other = state.pc other ∧ after.fiber other = state.fiber other)
    (waiting : after.waiting = state.waiting) (sweeping : after.sweeping = state.sweeping)
    (still : ¬ state.Stirring party) (running : after.fiber party ≠ .queued)
    (position : after.pc party = .suspend call) :
    Refines after ((monitor.enter isFiber party).park isFiber party call.timed) := by
  refine refines.move party others ?_ ?_ sweeping (fun _ _ _ => waiting)
    (fun _ => ⟨waiting, fun stirs => absurd stirs still⟩) ?_
  · intro other away
    simp [Monitor.enter, Monitor.park, fiber, away]
  · have now : Monitor.Place.suspended call.timed ≠ .outside := by simp
    simp only [Monitor.enter, Monitor.park, fiber, if_true, waiting, listed_enter nodup head outside now]
    rw [refines.waiting]
  · refine ⟨?_, ?_, ?_, ?_, ?_⟩
    · simp [position, Pc.shows, Monitor.enter, Monitor.park, fiber]
    · simp [position, Pc.heads]
    · intro other same
      rw [position] at same
      cases same
      simp [Monitor.enter, Monitor.park, fiber]
    · simp [position, Pc.isSuspended]
    · simp [Stirring, position, Pc.isUp, running]

omit [DecidableEq π] in
/-- A thread falls asleep for the first time. -/
theorem Refines.enterThread (refines : Refines state monitor) (thread : isFiber party = false) :
    Refines state (monitor.enter isFiber party) := by
  have same : monitor.enter isFiber party = { monitor with
      numWaiting := monitor.numWaiting + 1
      numWaitingOnCondition := monitor.numWaitingOnCondition + 1 } := by
    simp [Monitor.enter, thread]
  rw [same]
  refine ⟨refines.waiting, refines.swept, fun other => ?_⟩
  obtain ⟨shows, heads, parks, sleeps, stirs⟩ := refines.each other
  exact ⟨shows, heads, parks, sleeps, stirs⟩

end Calls

variable {home : π → Option κ}

theorem Local.still (here : Local home state party) (awake : (state.pc party).isSuspended = false)
    (down : (state.pc party).isUp = false) : ¬ state.Stirring party := by
  intro stirs
  rcases stirs with queued | up
  · have suspended := here.fiber.mp (by rw [queued]; simp)
    rw [awake] at suspended
    cases suspended
  · rw [down] at up
    cases up

end ConditionVariable

end MiniMarl
