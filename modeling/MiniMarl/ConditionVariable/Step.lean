import MiniMarl.Transition
import MiniMarl.Worker.State

namespace MiniMarl

/-! `ConditionVariable::wait`, `wait_until` and `notify_all`, with
`Worker::wait`, `suspend` and `enqueue(Fiber *)` under them.

One step is one lock, unlock or atomic operation together with the plain code
up to the next one. The parties are fibers, each with the worker it lives on,
and plain threads. -/

/-- The arguments of a wait: a deadline makes it a `wait_until`. -/
structure WaitCall (δ : Type) where
  pred : δ → Bool
  timed : Bool := false

/-- What a party still has to do about a change that it has made to the data of
the predicates. -/
inductive Debt where
  | none
  /-- It has to take the user's lock, and then to notify. -/
  | unlocked
  | ready
  /-- Its `notify_all` has started. -/
  | paying
deriving DecidableEq, Repr

namespace Debt

/-- The user's lock has been taken. -/
def locked : Debt → Debt
  | .unlocked => .ready
  | debt => debt

/-- A `notify_all` starts. -/
def started : Debt → Debt
  | .ready => .paying
  | debt => debt

/-- A `notify_all` returns. -/
def paid : Debt → Debt
  | .paying => .none
  | debt => debt

end Debt

inductive Holder (π : Type) where
  | party (party : π)
  /-- The thread of the worker itself, outside of the fibers of the model. -/
  | worker
deriving DecidableEq, Repr

/-- The next operation of a party. -/
inductive Pc (π κ δ : Type) where
  /-- In the user's code; `result` is what the last wait returned. -/
  | free (result : Bool)
  | evaluate (call : WaitCall δ)
  | count (call : WaitCall δ)
  | lockList (call : WaitCall δ)
  | unlockList (call : WaitCall δ)
  | check (call : WaitCall δ)
  | lockWork (call : WaitCall δ)
  | release (call : WaitCall δ)
  | suspend (call : WaitCall δ)
  | suspended (call : WaitCall δ)
  | resumed (call : WaitCall δ)
  | relock (call : WaitCall δ)
  | lockErase (result : Bool)
  | unlockErase (result : Bool)
  | countCondition (call : WaitCall δ)
  | test (call : WaitCall δ)
  | asleep (call : WaitCall δ)
  | woken (call : WaitCall δ) (timedOut : Bool)
  | last (call : WaitCall δ)
  | uncountCondition (result : Bool)
  | uncount (result : Bool)
  | readWaiting
  | lockNotify
  | notify (rest : List π)
  | unlockWork (worker : κ) (rest : List π)
  | readCondition
  | notifyCondition

namespace Pc

variable {π κ δ : Type}

def isFree : Pc π κ δ → Bool
  | .free _ => true
  | _ => false

def suspended? : Pc π κ δ → Option (WaitCall δ)
  | .suspended call => some call
  | _ => none

def asleep? : Pc π κ δ → Option (WaitCall δ)
  | .asleep call => some call
  | _ => none

theorem eq_free {pc : Pc π κ δ} (free : pc.isFree = true) : ∃ result, pc = .free result := by
  cases pc with
  | free result => exact ⟨result, rfl⟩
  | _ => cases free

theorem eq_suspended {pc : Pc π κ δ} {call : WaitCall δ} (suspended : pc.suspended? = some call) :
    pc = .suspended call := by
  cases pc with
  | suspended other =>
      cases suspended
      rfl
  | _ => cases suspended

theorem eq_asleep {pc : Pc π κ δ} {call : WaitCall δ} (asleep : pc.asleep? = some call) : pc = .asleep call := by
  cases pc with
  | asleep other =>
      cases asleep
      rfl
  | _ => cases asleep

/-- What `condition_.notify_all()` does to a party. -/
def roused : Pc π κ δ → Pc π κ δ
  | .asleep call => .woken call false
  | pc => pc

end Pc

structure ConditionVariable (π κ δ : Type) where
  /-- What the predicates read. -/
  data : δ
  /-- The lock that the user passes to `wait`. -/
  user : Option π := none
  mutex : Option π := none
  work : κ → Option (Holder π) := fun _ => none
  waiting : List π := []
  numWaiting : Int := 0
  numWaitingOnCondition : Int := 0
  fiber : π → Fiber.State := fun _ => .running
  pc : π → Pc π κ δ := fun _ => .free true
  debt : π → Debt := fun _ => .none

/-- `wake` is how `std::condition_variable` may always return: spuriously, or at
the deadline. -/
inductive ConditionVariable.Label (π κ δ : Type) where
  | lock (party : π)
  | unlock (party : π)
  /-- A change that a `notify_all` of the same party is to follow. -/
  | change (party : π) (data : δ)
  /-- A change without one. -/
  | adjust (party : π) (data : δ)
  | wait (party : π) (call : WaitCall δ)
  | notifyAll (party : π)
  | advance (party : π) (expired : Bool)
  | lockWorker (worker : κ)
  | unlockWorker (worker : κ)
  | resume (party : π)
  | timeout (party : π)
  | wake (party : π) (timedOut : Bool)

/-- The party that takes the step. -/
def ConditionVariable.Label.party? {π κ δ : Type} : Label π κ δ → Option π
  | .lock party | .unlock party | .change party _ | .adjust party _ | .wait party _ | .notifyAll party
  | .advance party _ | .resume party | .timeout party | .wake party _ => some party
  | .lockWorker _ | .unlockWorker _ => none

namespace ConditionVariable

open Transition

variable {π κ δ : Type} [DecidableEq π] [DecidableEq κ]

def goto (state : ConditionVariable π κ δ) (party : π) (pc : Pc π κ δ) : ConditionVariable π κ δ :=
  { state with pc := Function.update state.pc party pc }

/-- `notify_all` returns. -/
def finish (state : ConditionVariable π κ δ) (party : π) : ConditionVariable π κ δ :=
  { state with
    pc := Function.update state.pc party (.free true)
    debt := Function.update state.debt party (state.debt party).paid }

/-- One operation of a party inside `wait`, `wait_until` or `notify_all`.
`expired` is whether the clock has passed the deadline. -/
def advance (home : π → Option κ) (state : ConditionVariable π κ δ) (party : π) (expired : Bool) :
    Option (ConditionVariable π κ δ) :=
  match state.pc party with
  | .free _ => none
  | .evaluate call => some (state.goto party (if call.pred state.data then .free true else .count call))
  | .count call =>
      some ({ state with numWaiting := state.numWaiting + 1 }.goto party
        (if (home party).isSome then .lockList call else .countCondition call))
  | .lockList call =>
      if state.mutex = none then
        some ({ state with mutex := some party, waiting := party :: state.waiting }.goto party (.unlockList call))
      else none
  | .unlockList call => some ({ state with mutex := none }.goto party (.check call))
  | .check call => some (state.goto party (if call.pred state.data then .lockErase true else .lockWork call))
  | .lockWork call =>
      (home party).bind fun worker =>
        if state.work worker = none then
          some ({ state with work := Function.update state.work worker (some (.party party)) }.goto party
            (.release call))
        else none
  | .release call => some ({ state with user := none }.goto party (.suspend call))
  | .suspend call =>
      -- the worker goes on with `waitForWork` and other fibers, and holds its mutex
      (home party).bind fun worker =>
        some ({ state with
          work := Function.update state.work worker (some .worker)
          fiber := Function.update state.fiber party (.parked call.timed) }.goto party (.suspended call))
  | .suspended _ => none
  | .resumed call =>
      (home party).bind fun worker =>
        some ({ state with work := Function.update state.work worker none }.goto party (.relock call))
  | .relock call =>
      if state.user = none then
        some ({ state with user := some party }.goto party
          (if call.timed && expired then .lockErase false else .check call))
      else none
  | .lockErase result =>
      if state.mutex = none then
        some ({ state with mutex := some party, waiting := state.waiting.erase party }.goto party
          (.unlockErase result))
      else none
  | .unlockErase result => some ({ state with mutex := none }.goto party (.uncount result))
  | .countCondition call =>
      some ({ state with numWaitingOnCondition := state.numWaitingOnCondition + 1 }.goto party (.test call))
  | .test call =>
      -- `condition_.wait` releases the lock and falls asleep at once
      some (if call.pred state.data then state.goto party (.uncountCondition true)
        else { state with user := none }.goto party (.asleep call))
  | .asleep _ => none
  | .woken call timedOut =>
      if state.user = none then
        some ({ state with user := some party }.goto party (if timedOut then .last call else .test call))
      else none
  | .last call => some (state.goto party (.uncountCondition (call.pred state.data)))
  | .uncountCondition result =>
      some ({ state with numWaitingOnCondition := state.numWaitingOnCondition - 1 }.goto party (.uncount result))
  | .uncount result => some ({ state with numWaiting := state.numWaiting - 1 }.goto party (.free result))
  | .readWaiting => some (if state.numWaiting = 0 then state.finish party else state.goto party .lockNotify)
  | .lockNotify =>
      if state.mutex = none then
        some ({ state with mutex := some party }.goto party (.notify state.waiting))
      else none
  | .notify (fiber :: rest) =>
      (home fiber).bind fun worker =>
        if state.work worker = none then
          some ({ state with
            work := Function.update state.work worker (some (.party party))
            fiber := Function.update state.fiber fiber (state.fiber fiber).notified }.goto party
              (.unlockWork worker rest))
        else none
  | .unlockWork worker rest =>
      some ({ state with work := Function.update state.work worker none }.goto party (.notify rest))
  | .notify [] => some ({ state with mutex := none }.goto party .readCondition)
  | .readCondition =>
      some (if state.numWaitingOnCondition > 0 then state.goto party .notifyCondition else state.finish party)
  | .notifyCondition => some ({ state with pc := fun party => (state.pc party).roused }.finish party)

def step (home : π → Option κ) (state : ConditionVariable π κ δ) :
    Label π κ δ → Option (ConditionVariable π κ δ)
  | .lock party =>
      if (state.pc party).isFree ∧ state.user = none then
        some { state with
          user := some party
          debt := Function.update state.debt party (state.debt party).locked }
      else none
  | .unlock party =>
      if (state.pc party).isFree ∧ state.user = some party then some { state with user := none } else none
  | .change party data =>
      if (state.pc party).isFree then
        some { state with
          data := data
          debt := Function.update state.debt party (if state.user = some party then .ready else .unlocked) }
      else none
  | .adjust party data =>
      if (state.pc party).isFree then some { state with data := data } else none
  | .wait party call =>
      if (state.pc party).isFree ∧ state.user = some party then some (state.goto party (.evaluate call)) else none
  | .notifyAll party =>
      if (state.pc party).isFree then
        some { state.goto party .readWaiting with
          debt := Function.update state.debt party (state.debt party).started }
      else none
  | .advance party expired => state.advance home party expired
  | .lockWorker worker =>
      if state.work worker = none then
        some { state with work := Function.update state.work worker (some .worker) }
      else none
  | .unlockWorker worker =>
      if state.work worker = some .worker then
        some { state with work := Function.update state.work worker none }
      else none
  | .resume party =>
      (home party).bind fun worker => (state.pc party).suspended?.bind fun call =>
        if state.fiber party = .queued ∧ state.work worker = some .worker then
          some ({ state with
            work := Function.update state.work worker (some (.party party))
            fiber := Function.update state.fiber party .running }.goto party (.resumed call))
        else none
  | .timeout party =>
      -- `enqueueFiberTimeouts`
      (home party).bind fun worker =>
        if state.fiber party = .waiting ∧ state.work worker = some .worker then
          some { state with fiber := Function.update state.fiber party .queued }
        else none
  | .wake party timedOut =>
      (state.pc party).asleep?.bind fun call =>
        if timedOut = true → call.timed = true then some (state.goto party (.woken call timedOut)) else none

section Steps

variable {home : π → Option κ} {state after : ConditionVariable π κ δ} {party next : π} {rest : List π}
  {call : WaitCall δ} {expired timedOut : Bool}

theorem advance_lockWork (position : state.pc party = .lockWork call)
    (moved : state.advance home party expired = some after) :
    ∃ worker, home party = some worker ∧ state.work worker = none ∧
      after = { state with work := Function.update state.work worker (some (.party party)) }.goto party
        (.release call) := by
  simp only [advance, position, Option.bind_eq_some_iff, Option.ite_none_right_eq_some, Option.some.injEq] at moved
  obtain ⟨worker, lives, unlocked, rfl⟩ := moved
  exact ⟨worker, lives, unlocked, rfl⟩

theorem advance_notify_cons (position : state.pc party = .notify (next :: rest))
    (moved : state.advance home party expired = some after) :
    ∃ worker, home next = some worker ∧ state.work worker = none ∧
      after = { state with
        work := Function.update state.work worker (some (.party party))
        fiber := Function.update state.fiber next (state.fiber next).notified }.goto party
          (.unlockWork worker rest) := by
  simp only [advance, position, Option.bind_eq_some_iff, Option.ite_none_right_eq_some, Option.some.injEq] at moved
  obtain ⟨worker, lives, unlocked, rfl⟩ := moved
  exact ⟨worker, lives, unlocked, rfl⟩

theorem step_resume (stepped : state.step home (.resume party) = some after) :
    ∃ worker call, home party = some worker ∧ state.pc party = .suspended call ∧ state.fiber party = .queued ∧
      state.work worker = some .worker ∧
      after = { state with
        work := Function.update state.work worker (some (.party party))
        fiber := Function.update state.fiber party .running }.goto party (.resumed call) := by
  simp only [step, Option.bind_eq_some_iff, Option.ite_none_right_eq_some, Option.some.injEq] at stepped
  obtain ⟨worker, lives, call, suspended, ⟨queued, holder⟩, rfl⟩ := stepped
  exact ⟨worker, call, lives, Pc.eq_suspended suspended, queued, holder, rfl⟩

theorem step_timeout (stepped : state.step home (.timeout party) = some after) :
    state.fiber party = .waiting ∧ after = { state with fiber := Function.update state.fiber party .queued } := by
  simp only [step, Option.bind_eq_some_iff, Option.ite_none_right_eq_some, Option.some.injEq] at stepped
  obtain ⟨worker, _, ⟨waits, _⟩, rfl⟩ := stepped
  exact ⟨waits, rfl⟩

theorem step_wake (stepped : state.step home (.wake party timedOut) = some after) :
    ∃ call, state.pc party = .asleep call ∧ (timedOut = true → call.timed = true) ∧
      after = state.goto party (.woken call timedOut) := by
  simp only [step, Option.bind_eq_some_iff, Option.ite_none_right_eq_some, Option.some.injEq] at stepped
  obtain ⟨call, asleep, allowed, rfl⟩ := stepped
  exact ⟨call, Pc.eq_asleep asleep, allowed, rfl⟩

end Steps

def system (home : π → Option κ) : System (ConditionVariable π κ δ) (Label π κ δ) :=
  .ofStep (fun state => ∃ data, state = { data := data }) (step home)

end ConditionVariable

end MiniMarl
