import MiniMarl.ConditionVariable.Refinement

namespace MiniMarl

open Transition

namespace Pc

variable {π κ δ : Type}

/-- The operations of a wait that only its own party sees. -/
def hidden : Pc π κ δ → Bool
  | .evaluate _ | .count _ | .unlockList _ | .lockWork _ | .unlockErase _ | .countCondition _
  | .uncountCondition _ | .uncount _ => true
  | _ => false

end Pc

namespace Monitor

variable {π : Type} [DecidableEq π]

theorem foldl_notify_fiber (fibers : List π) (monitor : Monitor π) (party : π) :
    (fibers.foldl notify monitor).fiber party =
      if party ∈ fibers then (monitor.fiber party).notified else monitor.fiber party := by
  induction fibers generalizing monitor with
  | nil => simp
  | cons first rest ih =>
      rw [List.foldl_cons, ih]
      by_cases here : party = first
      · have twice : (monitor.fiber first).notified.notified = (monitor.fiber first).notified := by
          cases monitor.fiber first <;> rfl
        subst here
        split <;> simp [notify, twice]
      · simp [notify, here]

variable [Fintype π] {isFiber : π → Bool} {monitor : Monitor π}

theorem Inv.outside_of_zero (inv : Inv isFiber monitor) (zero : monitor.numWaiting = 0) (party : π) :
    monitor.place party = .outside := by
  have none := Data.false_of_sum_nonpos (fun party => (monitor.place party).counted) (by rw [← inv.numWaiting, zero])
    party
  cases place : monitor.place party with
  | outside => rfl
  | suspended | resumed | asleep | woken => simp [place, Place.counted] at none

/-- `notify_all` without its look at the counts. -/
theorem Inv.notifyAll_eq (inv : Inv isFiber monitor) :
    monitor.notifyAll.waiting = monitor.waiting ∧
      (∀ party, monitor.notifyAll.place party = (monitor.place party).roused) ∧
      ∀ party, monitor.notifyAll.fiber party =
        if party ∈ monitor.waiting then (monitor.fiber party).notified else monitor.fiber party := by
  unfold notifyAll
  split
  · rename_i zero
    have outside := inv.outside_of_zero zero
    refine ⟨rfl, fun party => by rw [outside party]; rfl, fun party => ?_⟩
    have registered := (inv.each party).registered
    rw [outside party] at registered
    rw [if_neg (List.count_eq_zero.mp registered)]
  · obtain ⟨waiting, place, _, onCondition, _⟩ := foldl_notify monitor.waiting monitor
    simp only
    split
    · exact ⟨waiting, fun party => by simp [place], foldl_notify_fiber monitor.waiting monitor⟩
    · rename_i none
      refine ⟨waiting, fun party => ?_, foldl_notify_fiber monitor.waiting monitor⟩
      have thread := Data.false_of_sum_nonpos (fun party => (monitor.place party).onThread)
        (by rw [← inv.numWaitingOnCondition, ← onCondition]; omega) party
      rw [place]
      cases found : monitor.place party <;> first | rfl | simp [found, Place.onThread] at thread

end Monitor

namespace ConditionVariable

variable {π κ δ : Type} [DecidableEq π] [DecidableEq κ] [Fintype π]

def fibers (home : π → Option κ) (party : π) : Bool := (home party).isSome

/-- The calls that an operation makes of the condition variable of whole calls. -/
def calls (state : ConditionVariable π κ δ) (monitor : Monitor π) (party : π) (expired : Bool) :
    List (Monitor.Label π) :=
  match state.pc party with
  | .check call =>
      if call.pred state.data ∧ monitor.place party ≠ .outside then [.recheck party true false] else []
  | .release call =>
      if monitor.place party = .outside then [.wait party call.timed] else [.recheck party false false]
  | .relock call =>
      .resume party :: if call.timed && expired then [.recheck party (call.pred state.data) true] else []
  | .test call =>
      if monitor.place party = .outside then if call.pred state.data then [] else [.wait party call.timed]
      else [.recheck party (call.pred state.data) false]
  | .last call => [.recheck party (call.pred state.data) true]
  | .readWaiting => if state.numWaiting = 0 then [.notifyAll] else []
  | .readCondition => if state.numWaitingOnCondition > 0 then [] else [.notifyAll]
  | .notifyCondition => [.notifyAll]
  | _ => []

/-- The condition variable of whole calls makes the calls, and has the parties
where they are afterwards. -/
def Follows (home : π → Option κ) (after : ConditionVariable π κ δ) (monitor : Monitor π)
    (calls : List (Monitor.Label π)) : Prop :=
  ∃ later, (Monitor.system (fibers home)).Run monitor calls later ∧ after.Refines later

variable {home : π → Option κ} {state after : ConditionVariable π κ δ} {monitor later : Monitor π} {party other : π}
  {expired : Bool}

omit [DecidableEq κ] in
theorem Follows.none (refines : after.Refines monitor) : Follows home after monitor [] := ⟨monitor, .nil, refines⟩

omit [DecidableEq κ] in
theorem Follows.one (later : Monitor π) {call : Monitor.Label π} (called : monitor.step (fibers home) call = some later)
    (refines : after.Refines later) : Follows home after monitor [call] := ⟨later, .snoc .nil called, refines⟩

omit [DecidableEq κ] in
theorem Follows.cons {middle : Monitor π} {call : Monitor.Label π} {calls : List (Monitor.Label π)}
    (called : monitor.step (fibers home) call = some middle) (follows : Follows home after middle calls) :
    Follows home after monitor (call :: calls) := by
  obtain ⟨later, run, refines⟩ := follows
  exact ⟨later, run.cons called, refines⟩

omit [DecidableEq κ] in
theorem Inv.absent (inv : state.Inv home) (out : (state.pc party).registered = false) : party ∉ state.waiting := by
  rw [inv.mem_waiting, out]
  simp

theorem advance_hidden (inv : state.Inv home) (refines : state.Refines monitor)
    (hidden : (state.pc party).hidden = true) (moved : state.advance home party expired = some after) :
    Follows home after monitor (state.calls monitor party expired) := by
  have here := refines.each party
  have shows := here.shows
  cases position : state.pc party <;> simp [position, Pc.hidden] at hidden <;> simp only [position, Pc.shows] at shows
  all_goals
    have still : ¬ state.Stirring party := (inv.each party).still (by simp [position, Pc.isSuspended])
      (by simp [position, Pc.isUp])
    have none : state.calls monitor party expired = [] := by simp [calls, position]
    rw [none]
  case evaluate | count =>
    simp only [advance, position, Option.some.injEq] at moved
    subst moved
    refine .none (refines.goes rfl rfl rfl rfl ?_ still ?_ ?_ (by simp [shows, Monitor.Place.isSuspended]))
    · split <;> simp [position, Pc.sweep?]
    · split <;> exact shows
    · split <;> simp [Pc.heads]
  case unlockList =>
    simp only [advance, position, Option.some.injEq] at moved
    subst moved
    refine .none (refines.goes rfl rfl rfl rfl (by simp [position, Pc.sweep?]) still (.inl shows) ?_
      (by simp [shows, Monitor.Place.isSuspended]))
    exact fun outside _ => here.heads outside (by simp [position, Pc.heads])
  case lockWork =>
    obtain ⟨worker, _, _, rfl⟩ := advance_lockWork position moved
    refine .none (refines.goes rfl rfl rfl rfl (by simp [position, Pc.sweep?]) still shows ?_ ?_)
    · exact fun outside _ => here.heads outside (by simp [position, Pc.heads])
    · rcases shows with place | place <;> simp [place, Monitor.Place.isSuspended]
  case unlockErase | uncountCondition | uncount =>
    simp only [advance, position, Option.some.injEq] at moved
    subst moved
    exact .none (refines.goes rfl rfl rfl rfl (by simp [position, Pc.sweep?]) still shows (by simp [Pc.heads])
      (by simp [shows, Monitor.Place.isSuspended]))
  case countCondition =>
    simp only [advance, position, Option.some.injEq] at moved
    subst moved
    exact .none (refines.goes rfl rfl rfl rfl (by simp [position, Pc.sweep?]) still (.inl shows) (by simp [Pc.heads])
      (by simp [shows, Monitor.Place.isSuspended]))

/-- The predicate is read under the lock before a fiber is suspended. -/
theorem advance_check (inv : state.Inv home) (refines : state.Refines monitor) {call : WaitCall δ}
    (position : state.pc party = .check call) (moved : state.advance home party expired = some after) :
    Follows home after monitor (state.calls monitor party expired) := by
  have here := refines.each party
  have shows := here.shows
  have fiber : fibers home party = true := (inv.each party).onFiber (by rw [position]; rfl)
  have still : ¬ state.Stirring party :=
    (inv.each party).still (by simp [position, Pc.isSuspended]) (by simp [position, Pc.isUp])
  simp only [position, Pc.shows] at shows
  simp only [advance, position, Option.some.injEq] at moved
  subst moved
  rcases shows with place | place
  · have none : state.calls monitor party expired = [] := by simp [calls, position, place]
    rw [none]
    refine .none (refines.goes rfl rfl rfl rfl ?_ still ?_ ?_ (by simp [place, Monitor.Place.isSuspended]))
    · split <;> simp [position, Pc.sweep?]
    · split <;> simp [Pc.shows, place]
    · exact fun outside _ => here.heads outside (by simp [position, Pc.heads])
  · cases holds : call.pred state.data with
    | true =>
        have one : state.calls monitor party expired = [.recheck party true false] := by
          simp [calls, position, place, holds]
        rw [one]
        refine .one (monitor.leave (fibers home) party) ?_ ?_
        · simp [Monitor.step, place, Monitor.Place.isAwake, Monitor.Place.answer]
        · refine refines.leave inv.waiting_nodup (by simp [fiber]) (fun other away => by simp [goto, away]) rfl ?_
            still (by simp [goto, Pc.shows]) (by simp [goto, Pc.heads])
          exact sweeping_keep party rfl (fun other away => by simp [goto, away])
            (by simp [goto, position, Pc.sweep?])
    | false =>
        have none : state.calls monitor party expired = [] := by simp [calls, position, holds]
        rw [none]
        exact .none (refines.goes rfl rfl rfl rfl (by simp [position, Pc.sweep?]) still (by simp [Pc.shows, place])
          (by simp [place]) (by simp [place, Monitor.Place.isSuspended]))

/-- The user's lock is released: the wait is entered, or goes on. -/
theorem advance_release (inv : state.Inv home) (refines : state.Refines monitor) {call : WaitCall δ}
    (position : state.pc party = .release call) (moved : state.advance home party expired = some after) :
    Follows home after monitor (state.calls monitor party expired) := by
  have here := refines.each party
  have shows := here.shows
  have fiber : fibers home party = true := (inv.each party).onFiber (by rw [position]; rfl)
  have still : ¬ state.Stirring party :=
    (inv.each party).still (by simp [position, Pc.isSuspended]) (by simp [position, Pc.isUp])
  have running : state.fiber party ≠ .queued := fun queued => still (.inl queued)
  have held := (inv.each party).inside (by rw [position]; rfl)
  simp only [position, Pc.shows] at shows
  simp only [advance, position, Option.some.injEq] at moved
  subst moved
  have sweeping : ({ state with user := none }.goto party (.suspend call)).sweeping = state.sweeping := by
    rw [sweeping_of_free rfl, sweeping_of_holder held, position]
    rfl
  rcases shows with place | place
  · have one : state.calls monitor party expired = [.wait party call.timed] := by simp [calls, position, place]
    rw [one]
    refine .one ((monitor.enter (fibers home) party).park (fibers home) party call.timed) ?_ ?_
    · simp [Monitor.step, place]
    · exact refines.enter fiber place inv.waiting_nodup (here.heads place (by simp [position, Pc.heads]))
        (fun other away => by simp [goto, away]) rfl sweeping still running (by simp [goto])
  · have one : state.calls monitor party expired = [.recheck party false false] := by simp [calls, position, place]
    rw [one]
    refine .one (monitor.park (fibers home) party call.timed) ?_ ?_
    · simp [Monitor.step, place, Monitor.Place.isAwake, Monitor.Place.answer, Monitor.Place.timed]
    · exact refines.park fiber (by simp [place]) (fun other away => by simp [goto, away]) rfl sweeping still running
        (by simp [goto])

/-- The worker goes on without the fiber. -/
theorem advance_suspend (inv : state.Inv home) (refines : state.Refines monitor) {call : WaitCall δ}
    (position : state.pc party = .suspend call) (moved : state.advance home party expired = some after) :
    Follows home after monitor (state.calls monitor party expired) := by
  have here := refines.each party
  have shows := here.shows
  have still : ¬ state.Stirring party :=
    (inv.each party).still (by simp [position, Pc.isSuspended]) (by simp [position, Pc.isUp])
  have none : state.calls monitor party expired = [] := by simp [calls, position]
  rw [none]
  rw [position] at shows
  simp only [advance, position, Option.bind_eq_some_iff, Option.some.injEq] at moved
  obtain ⟨worker, _, rfl⟩ := moved
  refine .none (refines.quiet party (fun other away => by simp [goto, away]) rfl ?_
    (fun stirs => absurd stirs still) ⟨?_, ?_, ?_, ?_, ?_⟩)
  · exact sweeping_keep party rfl (fun other away => by simp [goto, away])
      (by simp [goto, position, Pc.sweep?])
  · simp only [goto, Function.update_self]
    exact shows
  · simp [goto, Pc.heads]
  · simp [goto]
  · simp [goto, here.parks call position]
  · simp [Stirring, goto, Pc.isUp]

/-- The fiber gives the mutex of its worker back. -/
theorem advance_resumed (refines : state.Refines monitor) {call : WaitCall δ}
    (position : state.pc party = .resumed call) (moved : state.advance home party expired = some after) :
    Follows home after monitor (state.calls monitor party expired) := by
  have here := refines.each party
  have shows := here.shows
  have up : state.Stirring party := .inr (by rw [position]; rfl)
  have none : state.calls monitor party expired = [] := by simp [calls, position]
  rw [none]
  rw [position] at shows
  simp only [advance, position, Option.bind_eq_some_iff, Option.some.injEq] at moved
  obtain ⟨worker, _, rfl⟩ := moved
  have sweeping : ({ state with work := Function.update state.work worker .none }.goto party
      (.relock call)).sweeping = state.sweeping :=
    sweeping_keep party rfl (fun other away => by simp [goto, away]) (by simp [goto, position, Pc.sweep?])
  refine .none (refines.quiet party (fun other away => by simp [goto, away]) rfl sweeping
    (fun _ => .inr (by simp [goto, Pc.isUp])) ⟨?_, ?_, ?_, ?_, ?_⟩)
  · simp only [goto, Function.update_self]
    exact shows
  · simp [goto, Pc.heads]
  · simp [goto]
  · simp [goto, Pc.isSuspended]
  · rw [sweeping]
    exact fun _ => here.stirs up

/-- The fiber has the user's lock again. Nobody notifies now, so the
notification that it has had is made. -/
theorem advance_relock (inv : state.Inv home) (refines : state.Refines monitor) {call : WaitCall δ}
    (position : state.pc party = .relock call) (moved : state.advance home party expired = some after) :
    Follows home after monitor (state.calls monitor party expired) := by
  have here := refines.each party
  have shows := here.shows
  have fiber : fibers home party = true := (inv.each party).onFiber (by rw [position]; rfl)
  have running : state.fiber party = .running := by
    by_contra other
    have suspended := (inv.each party).fiber.mp other
    simp [position, Pc.isSuspended] at suspended
  simp only [position, Pc.shows] at shows
  simp only [advance, position, Option.ite_none_right_eq_some, Option.some.injEq] at moved
  obtain ⟨free, rfl⟩ := moved
  have queued : monitor.fiber party = .queued := by
    rcases here.stirs (.inr (by rw [position]; rfl)) (by rw [shows]; rfl) with queued | ⟨rest, sweeps, _⟩
    · exact queued
    · rw [sweeping_of_free free] at sweeps
      cases sweeps
  have others : ∀ other, other ≠ party →
      ({ state with user := some party }.goto party (.check call)).pc other = state.pc other ∧
        ({ state with user := some party }.goto party (.check call)).fiber other = state.fiber other :=
    fun other away => by simp [goto, away]
  have half := refines.resume shows others rfl free rfl (by simp [goto])
  have resumed : monitor.step (fibers home) (.resume party) = some { monitor with
      fiber := Function.update monitor.fiber party .running
      place := Function.update monitor.place party (.resumed call.timed) } := by
    simp [Monitor.step, shows, queued]
  cases late : call.timed && expired with
  | false =>
      have one : state.calls monitor party expired = [.resume party] := by simp [calls, position, late]
      rw [one]
      exact .one _ resumed half
  | true =>
      have two : state.calls monitor party expired =
          [.resume party, .recheck party (call.pred state.data) true] := by simp [calls, position, late]
      have timed : call.timed = true := by
        rw [Bool.and_eq_true] at late
        exact late.1
      have awake : ¬ ({ state with user := some party }.goto party (.check call)).Stirring party := by
        simp [Stirring, goto, running, Pc.isUp]
      rw [two]
      refine .cons resumed (.one (Monitor.leave (fibers home) { monitor with
        fiber := Function.update monitor.fiber party .running
        place := Function.update monitor.place party (.resumed call.timed) } party) ?_ ?_)
      · simp [Monitor.step, Monitor.Place.isAwake, Monitor.Place.answer, timed]
      · refine half.leave inv.waiting_nodup (by simp [fiber]) (fun other away => by simp [goto, away]) rfl ?_ awake
          (by simp [goto, Pc.shows]) (by simp [goto, Pc.heads])
        exact sweeping_keep party rfl (fun other away => by simp [goto, away]) (by simp [goto, Pc.sweep?])

omit [DecidableEq κ] in
/-- Nobody else is inside of the lock while the list changes. -/
theorem Refines.change (inv : state.Inv home) (refines : state.Refines monitor) (held : state.user = some party)
    (quiet : (state.pc party).sweep? = none) {next : Pc π κ δ} (pc : after.pc = Function.update state.pc party next)
    (fiber : after.fiber = state.fiber) (user : after.user = state.user) (still : next.sweep? = none)
    (waiting : listed monitor.place after.waiting = listed monitor.place state.waiting)
    (outside : monitor.place party = .outside) (shows : next.shows .outside)
    (heads : next.heads = true → after.waiting.head? = some party) : after.Refines monitor := by
  have others : ∀ other, other ≠ party → after.pc other = state.pc other ∧ after.fiber other = state.fiber other := by
    intro other away
    rw [pc, fiber, Function.update_of_ne away]
    exact ⟨rfl, rfl⟩
  have here : after.pc party = next := by rw [pc, Function.update_self]
  have now : after.sweeping = none := by rw [sweeping_of_holder (user.trans held), here, still]
  refine refines.move party others (fun _ _ => ⟨rfl, rfl⟩) (by rw [waiting]; exact refines.waiting) ?_ ?_
    (fun some => absurd now some) (.awake ?_ ?_ ?_)
  · rw [now, sweeping_of_holder held, quiet]
  · intro other away front
    have inside := (inv.each other).inside (Pc.inside_of_heads front)
    rw [held, Option.some.injEq] at inside
    exact absurd inside.symm away
  · rw [here, outside]
    exact shows
  · rw [here]
    exact fun _ => heads
  · rw [outside]
    rfl

theorem advance_list (inv : state.Inv home) (refines : state.Refines monitor)
    (position : (∃ call, state.pc party = .lockList call) ∨ ∃ result, state.pc party = .lockErase result)
    (moved : state.advance home party expired = some after) :
    Follows home after monitor (state.calls monitor party expired) := by
  have shows := (refines.each party).shows
  have inside := (inv.each party).inside
  rcases position with ⟨call, position⟩ | ⟨result, position⟩
  · have none : state.calls monitor party expired = [] := by simp [calls, position]
    rw [none]
    simp only [position, Pc.shows] at shows
    simp only [advance, position, Option.ite_none_right_eq_some, Option.some.injEq] at moved
    obtain ⟨_, rfl⟩ := moved
    refine .none (refines.change inv (inside (by rw [position]; rfl)) (by rw [position]; rfl) rfl rfl rfl rfl
      (listed_cons shows) shows rfl fun _ => rfl)
  · have none : state.calls monitor party expired = [] := by simp [calls, position]
    rw [none]
    simp only [position, Pc.shows] at shows
    simp only [advance, position, Option.ite_none_right_eq_some, Option.some.injEq] at moved
    obtain ⟨_, rfl⟩ := moved
    exact .none (refines.change inv (inside (by rw [position]; rfl)) (by rw [position]; rfl) rfl rfl rfl rfl
      (listed_erase shows inv.waiting_nodup) shows rfl (by simp [Pc.heads]))

/-- The predicate of a thread is read: by `condition_.wait` before and after it sleeps. -/
theorem advance_test (inv : state.Inv home) (refines : state.Refines monitor) {call : WaitCall δ}
    (position : state.pc party = .test call) (moved : state.advance home party expired = some after) :
    Follows home after monitor (state.calls monitor party expired) := by
  have shows := (refines.each party).shows
  have held := (inv.each party).inside (by rw [position]; rfl)
  have lives := (inv.each party).onThread (by rw [position]; rfl)
  have thread : fibers home party = false := by rw [fibers, lives]; rfl
  have absent : party ∉ state.waiting := inv.absent (by rw [position]; rfl)
  have still : ¬ state.Stirring party :=
    (inv.each party).still (by simp [position, Pc.isSuspended]) (by simp [position, Pc.isUp])
  simp only [position, Pc.shows] at shows
  simp only [advance, position, Option.some.injEq] at moved
  subst moved
  cases holds : call.pred state.data with
  | true =>
      rcases shows with place | place
      · have none : state.calls monitor party expired = [] := by simp [calls, position, place, holds]
        rw [none]
        exact .none (refines.goes rfl rfl rfl rfl (by simp [position, Pc.sweep?]) still place (by simp [Pc.heads])
          (by simp [place, Monitor.Place.isSuspended]))
      · have one : state.calls monitor party expired = [.recheck party true false] := by
          simp [calls, position, place, holds]
        rw [one]
        refine .one (monitor.leave (fibers home) party) ?_ ?_
        · simp [Monitor.step, place, Monitor.Place.isAwake, Monitor.Place.answer]
        · refine refines.leave inv.waiting_nodup (fun _ => absent) (fun other away => by simp [goto, away]) rfl ?_
            still (by simp [goto, Pc.shows]) (by simp [goto, Pc.heads])
          exact sweeping_keep party rfl (fun other away => by simp [goto, away]) (by simp [goto, position, Pc.sweep?])
  | false =>
      have sweeping : ({ state with user := none }.goto party (.asleep call)).sweeping = state.sweeping := by
        rw [sweeping_of_free rfl, sweeping_of_holder held, position]
        rfl
      rcases shows with place | place
      · have one : state.calls monitor party expired = [.wait party call.timed] := by
          simp [calls, position, place, holds]
        rw [one]
        refine .one ((monitor.enter (fibers home) party).park (fibers home) party call.timed) ?_ ?_
        · simp [Monitor.step, place]
        · exact (refines.enterThread thread).sleep thread absent (fun other away => by simp [goto, away]) rfl sweeping
            still (by simp [goto])
      · have one : state.calls monitor party expired = [.recheck party false false] := by
          simp [calls, position, place, holds]
        rw [one]
        refine .one (monitor.park (fibers home) party call.timed) ?_ ?_
        · simp [Monitor.step, place, Monitor.Place.isAwake, Monitor.Place.answer, Monitor.Place.timed]
        · exact refines.sleep thread absent (fun other away => by simp [goto, away]) rfl sweeping still
            (by simp [goto])

/-- The predicate of a thread is read once more at its deadline. -/
theorem advance_last (inv : state.Inv home) (refines : state.Refines monitor) {call : WaitCall δ}
    (position : state.pc party = .last call) (moved : state.advance home party expired = some after) :
    Follows home after monitor (state.calls monitor party expired) := by
  have shows := (refines.each party).shows
  have absent : party ∉ state.waiting := inv.absent (by rw [position]; rfl)
  have still : ¬ state.Stirring party :=
    (inv.each party).still (by simp [position, Pc.isSuspended]) (by simp [position, Pc.isUp])
  have one : state.calls monitor party expired = [.recheck party (call.pred state.data) true] := by
    simp [calls, position]
  rw [one]
  simp only [position, Pc.shows] at shows
  simp only [advance, position, Option.some.injEq] at moved
  subst moved
  refine .one (monitor.leave (fibers home) party) ?_ ?_
  · cases holds : call.pred state.data <;> simp [Monitor.step, shows, Monitor.Place.isAwake, Monitor.Place.answer]
  · refine refines.leave inv.waiting_nodup (fun _ => absent) (fun other away => by simp [goto, away]) rfl ?_
      still (by simp [goto, Pc.shows]) (by simp [goto, Pc.heads])
    exact sweeping_keep party rfl (fun other away => by simp [goto, away]) (by simp [goto, position, Pc.sweep?])

/-- A thread that wakes has the user's lock again. -/
theorem advance_woken (refines : state.Refines monitor) {call : WaitCall δ} {timedOut : Bool}
    (position : state.pc party = .woken call timedOut) (moved : state.advance home party expired = some after) :
    Follows home after monitor (state.calls monitor party expired) := by
  have shows := (refines.each party).shows
  have none : state.calls monitor party expired = [] := by simp [calls, position]
  rw [none]
  simp only [position, Pc.shows] at shows
  simp only [advance, position, Option.ite_none_right_eq_some, Option.some.injEq] at moved
  obtain ⟨free, rfl⟩ := moved
  refine .none (refines.quiet party (fun other away => by simp [goto, away]) rfl ?_ ?_ (.awake ?_ ?_ ?_))
  · rw [sweeping_of_free free, sweeping]
    cases timedOut <;> simp [goto, Pc.sweep?]
  · intro stirs
    rcases stirs with queued | up
    · exact .inl queued
    · simp [position, Pc.isUp] at up
  · cases timedOut <;> simp [goto, Pc.shows, shows]
  · cases timedOut <;> simp [goto, Pc.heads]
  · simp [shows, Monitor.Place.isSuspended]

section Notify

omit [DecidableEq π] [DecidableEq κ] [Fintype π] in
theorem notified_of_busy {fiber : Fiber.State} (busy : fiber ≠ .running) : fiber.notified = .queued := by
  cases fiber <;> first | rfl | exact absurd rfl busy

omit [DecidableEq κ] in
/-- A `notify_all` goes on, with less to notify. -/
theorem Refines.sweep (inv : state.Inv home) (refines : state.Refines monitor) (rest : List π)
    (outside : monitor.place party = .outside) (down : (state.pc party).isUp = false)
    (held : after.user = some party) (pc : ∀ other, other ≠ party → after.pc other = state.pc other)
    (waiting : after.waiting = state.waiting) (sweeps : (after.pc party).sweep? = some rest)
    (shows : (after.pc party).shows .outside) (front : (after.pc party).heads = false)
    (fiber : ∀ other, after.fiber other = state.fiber other ∨
      after.fiber other = (state.fiber other).notified ∧ other ∉ rest)
    (less : ∀ before, state.sweeping = some before → ∀ other, other ∉ before → other ∉ rest)
    (swept : ∀ other ∈ state.waiting, other ∉ rest → state.Stirring other ∨ after.fiber other = .queued) :
    after.Refines monitor := by
  have now : after.sweeping = some rest := (sweeping_of_holder held).trans sweeps
  refine ⟨by rw [waiting]; exact refines.waiting, ?_, fun other => ?_⟩
  · intro left sweeping other member done
    rw [now, Option.some.injEq] at sweeping
    rcases swept other (waiting ▸ member) (sweeping ▸ done) with (queued | up) | notified
    · rcases fiber other with same | ⟨same, _⟩
      · exact .inl (same.trans queued)
      · exact .inl (by rw [same, queued]; rfl)
    · refine .inr ?_
      rw [pc other]
      · exact up
      · intro here
        rw [here, down] at up
        cases up
    · exact .inl notified
  · by_cases here : other = party
    · subst here
      exact .awake (by rw [outside]; exact shows) (by simp [front]) (by rw [outside]; rfl)
    · obtain ⟨shows, heads, parks, sleeps, stirs⟩ := refines.each other
      have same := pc other here
      refine ⟨by rw [same]; exact shows, by rw [same, waiting]; exact heads, by rw [same]; exact parks, ?_, ?_⟩
      · rw [same]
        intro suspended
        rcases fiber other with equal | ⟨notified, _⟩
        · rw [equal]
          exact sleeps suspended
        · have blocked := (inv.each other).fiber.mpr suspended
          exact .inl (by rw [notified, notified_of_busy blocked])
      · intro stirring suspended
        rcases fiber other with equal | ⟨_, done⟩
        · have before : state.Stirring other := by simpa [Stirring, equal, same] using stirring
          rcases stirs before suspended with queued | ⟨left, sweeping, done⟩
          · exact .inl queued
          · exact .inr ⟨rest, now, less left sweeping other done⟩
        · exact .inr ⟨rest, now, done⟩

omit [DecidableEq κ] in
/-- With the user's lock taken by another party, a registered fiber has released it. -/
theorem Inv.suspended_of_mem (inv : state.Inv home) (held : state.user = some party) (apart : other ≠ party)
    (member : other ∈ state.waiting) : (∃ call, state.pc other = .suspend call) ∨
      (state.pc other).isSuspended = true ∨ (state.pc other).isUp = true := by
  have registered := (inv.mem_waiting other).mp member
  have inside := (inv.each other).inside
  cases position : state.pc other <;> simp [position, Pc.registered, Pc.inside] at registered inside
  case suspend call => exact .inl ⟨call, rfl⟩
  case suspended => exact .inr (.inl rfl)
  case resumed | relock => exact .inr (.inr rfl)
  all_goals
    rw [held, Option.some.injEq] at inside
    exact absurd inside.symm apart

/-- The loop of `notify_all`. -/
theorem advance_sweep (inv : state.Inv home) (owned : Owned home state) (refines : state.Refines monitor)
    (held : state.user = some party)
    (sweeps : state.pc party = .lockNotify ∨ (state.pc party).holdsMutex = true ∧ (state.pc party).notifying = true)
    (moved : state.advance home party expired = some after) :
    Follows home after monitor (state.calls monitor party expired) := by
  have shows := (refines.each party).shows
  have now := sweeping_of_holder held
  have ahead := (owned party).ahead
  have nodup := inv.waiting_nodup
  cases position : state.pc party <;> simp [position, Pc.holdsMutex, Pc.notifying] at sweeps
  all_goals
    have none : state.calls monitor party expired = [] := by simp [calls, position]
    have down : (state.pc party).isUp = false := by rw [position]; rfl
    rw [none]
    simp only [position, Pc.shows] at shows
    rw [position] at now ahead
  case lockNotify =>
    simp only [advance, position, Option.ite_none_right_eq_some, Option.some.injEq] at moved
    obtain ⟨_, rfl⟩ := moved
    refine .none (refines.sweep inv state.waiting shows down held (fun other away => by simp [goto, away]) rfl
      (by simp [goto, Pc.sweep?]) (by simp [goto, Pc.shows]) (by simp [goto, Pc.heads]) (fun other => .inl rfl) ?_
      (fun other member outside => absurd member outside))
    intro before sweeping
    rw [now] at sweeping
    cases sweeping
  case unlockWork worker rest =>
    simp only [advance, position, Option.some.injEq] at moved
    subst moved
    refine .none (refines.sweep inv rest shows down held (fun other away => by simp [goto, away]) rfl
      (by simp [goto, Pc.sweep?]) (by simp [goto, Pc.shows]) (by simp [goto, Pc.heads]) (fun other => .inl rfl) ?_
      (fun other member done => .inl (refines.swept rest now other member done)))
    intro before sweeping other done
    rw [now] at sweeping
    cases sweeping
    exact done
  case notify rest =>
    cases rest with
    | nil =>
        simp only [advance, position, Option.some.injEq] at moved
        subst moved
        exact .none (refines.sweep inv [] shows down held (fun other away => by simp [goto, away]) rfl
          (by simp [goto, Pc.sweep?]) (by simp [goto, Pc.shows]) (by simp [goto, Pc.heads]) (fun other => .inl rfl)
          (fun _ _ _ _ => List.not_mem_nil) (fun other member done => .inl (refines.swept [] now other member done)))
    | cons next rest =>
        have suffix : next :: rest <:+ state.waiting := ahead
        have fresh : next ∉ rest := (List.nodup_cons.mp (suffix.nodup nodup)).1
        have member : next ∈ state.waiting := suffix.subset (by simp)
        have apart : next ≠ party := by
          intro same
          have registered := (inv.mem_waiting next).mp member
          simp [same, position, Pc.registered] at registered
        obtain ⟨worker, lives, unlocked, rfl⟩ := advance_notify_cons position moved
        refine .none (refines.sweep inv rest shows down held (fun other away => by simp [goto, away]) rfl
          (by simp [goto, Pc.sweep?]) (by simp [goto, Pc.shows]) (by simp [goto, Pc.heads]) ?_ ?_ ?_)
        · intro other
          by_cases here : other = next
          · exact .inr (by simp [goto, here, fresh])
          · exact .inl (by simp [goto, here])
        · intro before sweeping other done
          rw [now] at sweeping
          cases sweeping
          exact fun inside => done (by simp [inside])
        · intro other inside done
          by_cases here : other = next
          · subst here
            rcases inv.suspended_of_mem held apart inside with ⟨call, suspends⟩ | suspended | up
            · have mine := (inv.each other).work worker (by rw [suspends]; exact lives)
              rw [unlocked] at mine
              cases mine
            · have blocked := (inv.each other).fiber.mpr suspended
              exact .inr (by simp [goto, notified_of_busy blocked])
            · exact .inl (.inr up)
          · exact .inl (refines.swept _ now other inside (by simp [here, done]))

omit [DecidableEq κ] in
/-- A `notify_all` returns. -/
theorem Refines.notified (inv : state.Inv home) (known : monitor.Inv (fibers home)) (refines : state.Refines monitor)
    (outside : monitor.place party = .outside) (held : after.user = some party)
    (others : ∀ other, other ≠ party → after.pc other = (state.pc other).roused) {result : Bool}
    (here : after.pc party = .free result) (waiting : after.waiting = state.waiting) (fiber : after.fiber = state.fiber)
    (swept : ∀ other ∈ state.waiting, state.Stirring other) : after.Refines monitor.notifyAll := by
  obtain ⟨same, place, queued⟩ := known.notifyAll_eq
  have none : after.sweeping = none := by rw [sweeping_of_holder held, here]; rfl
  have listing : listed monitor.notifyAll.place state.waiting = listed monitor.place state.waiting := by
    refine List.filter_congr fun other _ => ?_
    rw [place]
    cases monitor.place other <;> rfl
  refine ⟨?_, ?_, fun other => ?_⟩
  · rw [same, waiting, listing]
    exact refines.waiting
  · intro rest sweeping
    rw [none] at sweeping
    cases sweeping
  · by_cases named : other = party
    · subst named
      refine .awake ?_ (by simp [here, Pc.heads]) ?_
      · rw [place, outside, here]
        rfl
      · rw [place, outside]
        rfl
    · obtain ⟨shows, heads, _, _, _⟩ := refines.each other
      have pc := others other named
      refine ⟨?_, ?_, ?_, ?_, ?_⟩
      · rw [pc, place]
        exact Pc.shows_roused shows
      · rw [pc, place, waiting]
        intro away front
        refine heads ?_ ?_
        · cases found : monitor.place other <;> simp [found, Monitor.Place.roused] at away
          rfl
        · cases position : state.pc other <;> simp [position, Pc.roused, Pc.heads] at front <;> rfl
      · intro call suspends
        have position : state.pc other = .suspend call := by
          rw [pc] at suspends
          cases position : state.pc other <;> simp [position, Pc.roused] at suspends
          rw [suspends]
        have member := (inv.mem_waiting other).mpr (by rw [position]; rfl)
        have still := (inv.each other).still (by simp [position, Pc.isSuspended]) (by simp [position, Pc.isUp])
        exact absurd (swept other member) still
      · rw [pc, fiber, Pc.roused_isSuspended]
        intro suspended
        have member := (inv.mem_waiting other).mpr (by
          cases position : state.pc other <;> simp [position, Pc.isSuspended] at suspended
          rfl)
        rcases swept other member with notified | up
        · exact .inl notified
        · cases position : state.pc other <;> simp [position, Pc.isSuspended, Pc.isUp] at suspended up
      · rw [place]
        intro _ suspended
        have here : (monitor.place other).isSuspended = true := by
          cases found : monitor.place other <;> simp [found, Monitor.Place.roused, Monitor.Place.isSuspended] at suspended
          rfl
        have blocked := (known.each other).suspended.mpr here
        have registered := (known.each other).registered
        have member : other ∈ monitor.waiting := by
          rw [← List.count_pos_iff, registered]
          cases found : monitor.place other <;> simp [found, Monitor.Place.isSuspended] at here
          exact Nat.zero_lt_one
        exact .inl (by rw [queued, if_pos member, notified_of_busy blocked])

/-- The end of a `notify_all`, and its looks at the counts. -/
theorem advance_notifies (inv : state.Inv home) (known : monitor.Inv (fibers home)) (refines : state.Refines monitor)
    (held : state.user = some party)
    (notifies : state.pc party = .readWaiting ∨ state.pc party = .readCondition ∨ state.pc party = .notifyCondition)
    (moved : state.advance home party expired = some after) :
    Follows home after monitor (state.calls monitor party expired) := by
  have shows := (refines.each party).shows
  have now := sweeping_of_holder held
  have still : (state.pc party).isSuspended = false ∧ (state.pc party).isUp = false := by
    rcases notifies with position | position | position <;> rw [position] <;> exact ⟨rfl, rfl⟩
  have awake := (inv.each party).still still.1 still.2
  rcases notifies with position | position | position
  all_goals
    simp only [position, Pc.shows] at shows
    simp only [advance, position, Option.some.injEq] at moved
    rw [position] at now
    have made : monitor.step (fibers home) .notifyAll = some monitor.notifyAll := rfl
  · by_cases zero : state.numWaiting = 0
    · have one : state.calls monitor party expired = [.notifyAll] := by simp [calls, position, zero]
      rw [if_pos zero] at moved
      subst moved
      rw [one]
      have none : ∀ other, (state.pc other).counted = false := Data.false_of_sum_nonpos
        (fun other => (state.pc other).counted) (by rw [← inv.numWaiting, zero])
      refine .one _ made (refines.notified inv known shows held ?_ (by simp [finish]; rfl) rfl rfl ?_)
      · intro other away
        have uncounted := none other
        cases found : state.pc other <;> simp [finish, away, found, Pc.roused]
        simp [found, Pc.counted, Pc.onFiber, Pc.onThread] at uncounted
      · intro other member
        have registered := (inv.mem_waiting other).mp member
        have uncounted := none other
        cases found : state.pc other <;>
          simp [found, Pc.registered, Pc.counted, Pc.onFiber] at registered uncounted
    · have none : state.calls monitor party expired = [] := by simp [calls, position, zero]
      rw [if_neg zero] at moved
      subst moved
      rw [none]
      exact .none (refines.goes rfl rfl rfl rfl (by simp [position, Pc.sweep?]) awake shows (by simp [Pc.heads])
        (by simp [shows, Monitor.Place.isSuspended]))
  · by_cases some : state.numWaitingOnCondition > 0
    · have none : state.calls monitor party expired = [] := by simp [calls, position, some]
      rw [if_pos some] at moved
      subst moved
      rw [none]
      exact .none (refines.goes rfl rfl rfl rfl (by simp [position, Pc.sweep?]) awake shows (by simp [Pc.heads])
        (by simp [shows, Monitor.Place.isSuspended]))
    · have one : state.calls monitor party expired = [.notifyAll] := by simp [calls, position, some]
      rw [if_neg some] at moved
      subst moved
      rw [one]
      have none : ∀ other, (state.pc other).countedOnCondition = false := Data.false_of_sum_nonpos
        (fun other => (state.pc other).countedOnCondition) (by rw [← inv.numWaitingOnCondition]; omega)
      refine .one _ made (refines.notified inv known shows held ?_ (by simp [finish]; rfl) rfl rfl ?_)
      · intro other away
        have uncounted := none other
        cases found : state.pc other <;> simp [finish, away, found, Pc.roused]
        simp [found, Pc.countedOnCondition] at uncounted
      · exact fun other member => refines.swept [] now other member List.not_mem_nil
  · have one : state.calls monitor party expired = [.notifyAll] := by simp [calls, position]
    subst moved
    rw [one]
    refine .one _ made (refines.notified inv known shows held ?_ (by simp [finish]; rfl) rfl rfl ?_)
    · intro other away
      simp [finish, away]
    · exact fun other member => refines.swept [] now other member List.not_mem_nil

end Notify

/-- An operation inside of a call. -/
theorem advance_follows (inv : state.Inv home) (owned : Owned home state) (known : monitor.Inv (fibers home))
    (refines : state.Refines monitor)
    (notifies : ∀ party, (state.pc party).notifying = true → state.user = some party)
    (moved : state.advance home party expired = some after) :
    Follows home after monitor (state.calls monitor party expired) := by
  cases position : state.pc party with
  | free _ | suspended _ | asleep _ => simp [advance, position] at moved
  | evaluate _ | count _ | unlockList _ | lockWork _ | unlockErase _ | countCondition _ | uncountCondition _
  | uncount _ => exact advance_hidden inv refines (by rw [position]; rfl) moved
  | check call => exact advance_check inv refines position moved
  | release call => exact advance_release inv refines position moved
  | suspend call => exact advance_suspend inv refines position moved
  | resumed call => exact advance_resumed refines position moved
  | relock call => exact advance_relock inv refines position moved
  | lockList call => exact advance_list inv refines (.inl ⟨call, position⟩) moved
  | lockErase result => exact advance_list inv refines (.inr ⟨result, position⟩) moved
  | test call => exact advance_test inv refines position moved
  | last call => exact advance_last inv refines position moved
  | woken call timedOut => exact advance_woken refines position moved
  | readWaiting =>
      exact advance_notifies inv known refines (notifies party (by rw [position]; rfl)) (.inl position) moved
  | readCondition =>
      exact advance_notifies inv known refines (notifies party (by rw [position]; rfl)) (.inr (.inl position)) moved
  | notifyCondition =>
      exact advance_notifies inv known refines (notifies party (by rw [position]; rfl)) (.inr (.inr position)) moved
  | lockNotify =>
      exact advance_sweep inv owned refines (notifies party (by rw [position]; rfl)) (.inl position) moved
  | notify _ | unlockWork _ _ =>
      exact advance_sweep inv owned refines (notifies party (by rw [position]; rfl))
        (.inr (by rw [position]; exact ⟨rfl, rfl⟩)) moved

omit [DecidableEq π] [DecidableEq κ] [Fintype π] in
/-- A step that changes neither a position nor the list. -/
theorem Refines.same (refines : state.Refines monitor) (pc : after.pc = state.pc) (fiber : after.fiber = state.fiber)
    (waiting : after.waiting = state.waiting) (sweeping : after.sweeping = state.sweeping) : after.Refines monitor := by
  refine ⟨by rw [waiting]; exact refines.waiting, ?_, fun other => ?_⟩
  · intro rest sweeps other member done
    rw [Stirring, fiber, pc]
    exact refines.swept rest (sweeping ▸ sweeps) other (waiting ▸ member) done
  · obtain ⟨shows, heads, parks, sleeps, stirs⟩ := refines.each other
    refine ⟨by rw [pc]; exact shows, by rw [pc, waiting]; exact heads, by rw [pc]; exact parks,
      by rw [pc, fiber]; exact sleeps, ?_⟩
    rw [Stirring, fiber, pc, sweeping]
    exact stirs

/-- The calls that a step makes of the condition variable of whole calls. -/
def allCalls (state : ConditionVariable π κ δ) (monitor : Monitor π) : Label π κ δ → List (Monitor.Label π)
  | .advance party expired => state.calls monitor party expired
  | .timeout party => [.timeout party]
  | .wake party timedOut => [.wake party timedOut]
  | _ => []

theorem resume_follows (refines : state.Refines monitor) (stepped : state.step home (.resume party) = some after) :
    Follows home after monitor [] := by
  obtain ⟨shows, _, _, _, stirs⟩ := refines.each party
  obtain ⟨worker, call, _, position, queued, _, rfl⟩ := step_resume stepped
  have sweeping : ({ state with
      work := Function.update state.work worker (some (.party party))
      fiber := Function.update state.fiber party .running }.goto party (.resumed call)).sweeping = state.sweeping :=
    sweeping_keep party rfl (fun other away => by simp [goto, away]) (by simp [goto, position, Pc.sweep?])
  rw [position] at shows
  refine .none (refines.quiet party (fun other away => by simp [goto, away]) rfl sweeping
    (fun _ => .inr (by simp [goto, Pc.isUp])) ⟨?_, ?_, ?_, ?_, ?_⟩)
  · simp only [goto, Function.update_self]
    exact shows
  · simp [goto, Pc.heads]
  · simp [goto]
  · simp [goto, Pc.isSuspended]
  · rw [sweeping]
    exact fun _ => stirs (.inl queued)

theorem timeout_follows (inv : state.Inv home) (refines : state.Refines monitor)
    (stepped : state.step home (.timeout party) = some after) : Follows home after monitor [.timeout party] := by
  obtain ⟨shows, heads, _, sleeps, _⟩ := refines.each party
  obtain ⟨waits, rfl⟩ := step_timeout stepped
  have suspended := (inv.each party).fiber.mp (by rw [waits]; simp)
  have waiting : monitor.fiber party = .waiting := by
    rcases sleeps suspended with queued | same
    · rw [waits] at queued
      cases queued
    · rw [← same, waits]
  refine .one { monitor with fiber := Function.update monitor.fiber party .queued } ?_ ?_
  · simp [Monitor.step, waiting]
  · refine refines.move party (fun other away => by simp [away]) (fun other away => by simp [away]) refines.waiting rfl
      (fun _ _ _ => rfl) (fun _ => ⟨rfl, fun _ => .inl (by simp)⟩) ⟨shows, heads, ?_, ?_, ?_⟩
    · intro call suspends
      have position : state.pc party = .suspend call := suspends
      simp [position, Pc.isSuspended] at suspended
    · exact fun _ => .inl (by simp)
    · exact fun _ _ => .inl (by simp)

theorem wake_follows (refines : state.Refines monitor) {timedOut : Bool}
    (stepped : state.step home (.wake party timedOut) = some after) :
    Follows home after monitor [.wake party timedOut] := by
  have shows := (refines.each party).shows
  obtain ⟨call, position, allowed, rfl⟩ := step_wake stepped
  simp only [position, Pc.shows] at shows
  refine .one { monitor with place := Function.update monitor.place party (.woken call.timed timedOut) } ?_ ?_
  · simp only [Monitor.step, shows]
    exact if_pos allowed
  · refine refines.move party (fun other away => by simp [goto, away]) (fun other away => by simp [away]) ?_ ?_
      (fun _ _ _ => rfl) (fun _ => ⟨rfl, ?_⟩) (.awake ?_ ?_ ?_)
    · have inside : monitor.place party ≠ .outside := by simp [shows]
      have now : Monitor.Place.woken call.timed timedOut ≠ .outside := by simp
      exact refines.waiting.trans (listed_keep inside now).symm
    · exact sweeping_keep party rfl (fun other away => by simp [goto, away]) (by simp [goto, position, Pc.sweep?])
    · intro stirs
      rcases stirs with queued | up
      · exact .inl queued
      · simp [position, Pc.isUp] at up
    · simp [goto, Pc.shows]
    · simp
    · simp [Monitor.Place.isSuspended]

theorem step_follows (inv : state.Inv home) (owned : Owned home state) (known : monitor.Inv (fibers home))
    (refines : state.Refines monitor)
    (notifies : ∀ party, (state.pc party).notifying = true → state.user = some party)
    {label : Label π κ δ} (stepped : state.step home label = some after) :
    Follows home after monitor (state.allCalls monitor label) := by
  cases label with
  | advance party expired => exact advance_follows inv owned known refines notifies stepped
  | resume party => exact resume_follows refines stepped
  | timeout party => exact timeout_follows inv refines stepped
  | wake party timedOut => exact wake_follows refines stepped
  | lock party =>
      simp only [step, Option.ite_none_right_eq_some, Option.some.injEq] at stepped
      obtain ⟨⟨free, unlocked⟩, rfl⟩ := stepped
      obtain ⟨result, position⟩ := Pc.eq_free free
      exact .none (refines.same rfl rfl rfl (by simp [sweeping, unlocked, position, Pc.sweep?]))
  | unlock party =>
      simp only [step, Option.ite_none_right_eq_some, Option.some.injEq] at stepped
      obtain ⟨⟨free, held⟩, rfl⟩ := stepped
      obtain ⟨result, position⟩ := Pc.eq_free free
      exact .none (refines.same rfl rfl rfl (by simp [sweeping, held, position, Pc.sweep?]))
  | change party data | adjust party data | lockWorker worker | unlockWorker worker =>
      simp only [step, Option.ite_none_right_eq_some, Option.some.injEq] at stepped
      obtain ⟨_, rfl⟩ := stepped
      exact .none (refines.same rfl rfl rfl rfl)
  | wait party call | notifyAll party =>
      simp only [step, Option.ite_none_right_eq_some, Option.some.injEq] at stepped
      obtain ⟨free, rfl⟩ := stepped
      have position : ∃ result, state.pc party = .free result := Pc.eq_free (by simp_all)
      obtain ⟨result, position⟩ := position
      have shows := (refines.each party).shows
      have awake := (inv.each party).still (by simp [position, Pc.isSuspended]) (by simp [position, Pc.isUp])
      simp only [position, Pc.shows] at shows
      exact .none (refines.goes rfl rfl rfl rfl (by simp [position, Pc.sweep?]) awake shows (by simp [Pc.heads])
        (by simp [shows, Monitor.Place.isSuspended]))

end ConditionVariable

end MiniMarl
