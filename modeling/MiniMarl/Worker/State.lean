import Mathlib.Data.Nat.Pairing
import MiniMarl.WaitingFibers

namespace MiniMarl

inductive Task.Flags where
  | none
  | sameThread
deriving DecidableEq, Repr

namespace Task.Flags

def toNat : Flags → Nat
  | .none => 0
  | .sameThread => 1

end Task.Flags

/-- `marl::Task`: a closure and the flags given at its construction. -/
structure Task (φ : Type) where
  function : φ
  flags : Task.Flags := .none
deriving DecidableEq, Repr

/-- `Task::is`: all bits of `flag` are set. -/
def Task.is (task : Task φ) (flag : Task.Flags) : Bool :=
  (task.flags.toNat &&& flag.toNat) == flag.toNat

@[simp] theorem Task.is_sameThread (task : Task φ) :
    task.is .sameThread = true ↔ task.flags = .sameThread := by
  cases flags : task.flags <;> simp [Task.is, flags, Task.Flags.toNat]

/-- The workers of one scheduler: the entries of `worker_threads_` and the
single threaded workers, one for each call of `bind`. -/
inductive WorkerId where
  | thread (index : Nat)
  | bound (index : Nat)
deriving DecidableEq, Repr

/-- `Scheduler::Fiber` by identity: the worker stored in `worker_` and the
number of the fiber on that worker, 0 for the main fiber. -/
structure Fiber where
  worker : WorkerId
  id : Nat
deriving DecidableEq, Repr

namespace Fiber

/-- One way to place the fibers in memory. -/
def address : Fiber ↪ Nat where
  toFun fiber :=
    match fiber.worker with
    | .thread index => Nat.pair (2 * index) fiber.id
    | .bound index => Nat.pair (2 * index + 1) fiber.id
  inj' := by
    rintro ⟨left, leftId⟩ ⟨right, rightId⟩ same
    cases left <;> cases right <;> simp [Nat.pair_eq_pair] at same ⊢ <;> omega

inductive State where
  | idle
  | yielded
  | waiting
  | queued
  | running
deriving DecidableEq, Repr

def State.toString : State → String
  | .idle => "Idle"
  | .yielded => "Yielded"
  | .waiting => "Waiting"
  | .queued => "Queued"
  | .running => "Running"

/-- A fiber inside a call of `suspend`, whether or not it has been notified. -/
def State.blocked : State → Bool
  | .yielded | .waiting | .queued => true
  | .idle | .running => false

/-- The state `Worker::enqueue(Fiber *)` leaves a fiber in. -/
def State.notified : State → State
  | .running => .running
  | .queued | .idle | .yielded | .waiting => .queued

/-- The state `suspend` leaves a fiber in. -/
def State.parked (timed : Bool) : State := if timed then .waiting else .yielded

@[simp] theorem State.parked_ne (timed : Bool) :
    parked timed ≠ .running ∧ parked timed ≠ .queued ∧ parked timed ≠ .idle := by
  cases timed <;> simp [parked]

@[simp] theorem State.notified_eq_running (state : State) : state.notified = .running ↔ state = .running := by
  cases state <;> simp [notified]

end Fiber

/-- The user code under a call of `Worker::wait`: a task, or the code of a
bound thread, which runs on the main fiber of its single threaded worker. -/
inductive Body (φ : Type) where
  | thread
  | task (task : Task φ)
deriving DecidableEq

/-- The two callers of `waitForWork`. -/
inductive Caller (φ : Type) where
  | runUntilShutdown
  | suspend (body : Body φ)
deriving DecidableEq

/-- The two callers of `Work::wait`. -/
inductive WaitSite (φ : Type) where
  | run
  | waitForWork (caller : Caller φ)
deriving DecidableEq

/-- Where the stack of a fiber stands. The code of a worker is cut at the
points where `work_.mutex` changes hands, where the thread sleeps, and where
`switchToFiber` leaves a stack. -/
inductive Position (φ : Type) where
  | start
  | run
  | runUntilShutdown
  | waitForWork (caller : Caller φ)
  | spinForWork (caller : Caller φ)
  | stolen (caller : Caller φ) (task : Task φ)
  | spun (caller : Caller φ)
  | workWait (site : WaitSite φ)
  | asleep (site : WaitSite φ) (deadline : Option TimePoint)
  | awoken (site : WaitSite φ) (deadline : Option TimePoint) (timedOut : Bool)
  | workFound (caller : Caller φ)
  | runUntilIdle
  | idle
  | body (body : Body φ)
  | suspended (body : Body φ)
  | left
  | exited
deriving DecidableEq

namespace Position

/-- The positions at which the current fiber owns `work_.mutex`. -/
def holdsMutex : Position φ → Bool
  | .run | .runUntilShutdown | .waitForWork _ | .workWait _ | .workFound _ | .runUntilIdle
  | .left => true
  | _ => false

/-- The positions inside `spinForWork`. -/
def spins : Position φ → Bool
  | .spinForWork _ | .stolen _ _ | .spun _ => true
  | _ => false

/-- The positions at which a stack goes on after a switch. -/
def entered : Position φ → Bool
  | .run | .runUntilIdle | .body _ => true
  | _ => false

/-- The positions in the middle of some code, neither asleep nor at its end. -/
def busy : Position φ → Bool
  | .asleep _ _ | .exited => false
  | _ => true

/-- The thread has returned from `run` or from `stop`. -/
def gone : Position φ → Bool
  | .exited => true
  | _ => false

@[simp] theorem gone_iff {position : Position φ} : position.gone = true ↔ position = .exited := by
  cases position <;> simp [gone]

/-- The two positions at which a stack waits for `switchToFiber` to come back. -/
def parked : Position φ → Bool
  | .idle | .suspended _ => true
  | _ => false

/-- The positions inside the worker's own loops and waits. -/
def loops : Position φ → Bool
  | .idle | .body _ | .suspended _ | .left | .exited => false
  | _ => true

end Position

def Caller.body? : Caller φ → Option (Body φ)
  | .runUntilShutdown => none
  | .suspend code => some code

def WaitSite.body? : WaitSite φ → Option (Body φ)
  | .run => none
  | .waitForWork caller => caller.body?

namespace Position

/-- The user code that a stack has suspended inside `Worker::wait`. -/
def suspends? : Position φ → Option (Body φ)
  | .waitForWork caller | .spinForWork caller | .stolen caller _ | .spun caller
  | .workFound caller => caller.body?
  | .workWait site | .asleep site _ | .awoken site _ _ => site.body?
  | .suspended code => some code
  | _ => none

/-- The user code on a stack, running or suspended. -/
def body? : Position φ → Option (Body φ)
  | .body code => some code
  | position => position.suspends?

/-- The task on a stack. -/
def task? (position : Position φ) : Option (Task φ) :=
  match position.body? with
  | some (.task task) => some task
  | _ => none

/-- The task a thief holds between `steal` and its push-back. -/
def held? : Position φ → Option (Task φ)
  | .stolen _ task => some task
  | _ => none

/-- A fiber that some `ConditionVariable` may have registered: one that runs
user code, which may be inside `ConditionVariable::wait`, or one that has
suspended it. -/
def insideWait (position : Position φ) : Bool := position.body?.isSome

/-- The state that belongs to a position, up to what the notifications of the
fiber have done to it: idle, blocked, or running. -/
def admits (position : Position φ) (state : Fiber.State) : Bool :=
  match position with
  | .idle => state = .idle
  | _ => if position.suspends?.isSome then state.blocked else state = .running

end Position

/-- What happened to the tasks of one worker, in order. -/
inductive TaskEvent (φ : Type) where
  | pushed (task : Task φ)
  | adopted (task : Task φ)
  | robbed (task : Task φ)
  | started (task : Task φ)
  | finished (task : Task φ)
deriving DecidableEq

namespace TaskEvent

def pushed? : TaskEvent φ → Option (Task φ)
  | .pushed task => some task
  | _ => none

def adopted? : TaskEvent φ → Option (Task φ)
  | .adopted task => some task
  | _ => none

def robbed? : TaskEvent φ → Option (Task φ)
  | .robbed task => some task
  | _ => none

def started? : TaskEvent φ → Option (Task φ)
  | .started task => some task
  | _ => none

def finished? : TaskEvent φ → Option (Task φ)
  | .finished task => some task
  | _ => none

end TaskEvent

inductive Mode where
  | multiThreaded
  | singleThreaded
deriving DecidableEq, Repr

/-- `Scheduler::Worker` with its `Work`. `position` stands for the stacks of
the fibers, `pendingNotifies` for the enqueuers that have released
`work_.mutex` with their saved `notify` set and have not yet called
`work_.added.notify_one()`, and `history` is a record for the proofs. -/
structure Worker (φ : Type) (address : Fiber ↪ Nat) where
  id : WorkerId
  mode : Mode
  currentFiber : Fiber
  workerFibers : List Fiber := []
  idleFibers : List Fiber := []
  shutdown : Bool := false
  num : Nat := 0
  numBlockedFibers : Nat := 0
  tasks : List (Task φ) := []
  fibers : List Fiber := []
  waiting : WaitingFibers address := .empty
  notifyAdded : Bool := true
  pendingNotifies : Nat := 0
  state : Fiber → Fiber.State
  position : Fiber → Position φ
  history : List (TaskEvent φ) := []

namespace Worker

variable {φ : Type} {address : Fiber ↪ Nat}

def mainFiber (worker : Worker φ address) : Fiber := ⟨worker.id, 0⟩

/-- Every fiber the worker has created. -/
def allFibers (worker : Worker φ address) : List Fiber := worker.mainFiber :: worker.workerFibers

/-- Where the thread of the worker stands. -/
def current (worker : Worker φ address) : Position φ := worker.position worker.currentFiber

def mutexFree (worker : Worker φ address) : Bool := !worker.current.holdsMutex

/-- The tasks on the stacks of the worker. -/
def executing (worker : Worker φ address) : List (Task φ) :=
  worker.allFibers.filterMap fun fiber => (worker.position fiber).task?

/-- The worker after `start`: a worker thread is about to take `work_.mutex`,
and a bound thread goes on with its own code. -/
def initial (id : WorkerId) (mode : Mode) : Worker φ address where
  id
  mode
  currentFiber := ⟨id, 0⟩
  state _ := .running
  position _ :=
    match mode with
    | .multiThreaded => .start
    | .singleThreaded => .body .thread

def setState (worker : Worker φ address) (fiber : Fiber) (state : Fiber.State) : Worker φ address :=
  { worker with state := Function.update worker.state fiber state }

def setPosition (worker : Worker φ address) (fiber : Fiber) (position : Position φ) :
    Worker φ address :=
  { worker with position := Function.update worker.position fiber position }

/-- The current fiber's stack moves on. -/
def moveTo (worker : Worker φ address) (position : Position φ) : Worker φ address :=
  worker.setPosition worker.currentFiber position

def record (worker : Worker φ address) (event : TaskEvent φ) : Worker φ address :=
  { worker with history := worker.history ++ [event] }

end Worker

end MiniMarl
