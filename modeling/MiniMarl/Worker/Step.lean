import MiniMarl.Transition
import MiniMarl.Worker.State

namespace MiniMarl

/-- A step is not possible in a state, or runs into a `MARL_ASSERT`, which
aborts the program with its text. -/
inductive Refusal where
  | disabled
  | assertion (message : String)
deriving DecidableEq, Repr

/-- `MARL_ASSERT`. -/
def marlAssert (condition : Bool) (message : String) : Except Refusal Unit :=
  if condition then .ok () else .error (.assertion message)

/-- The assertions inside `WaitingFibers` abort the worker that runs into them. -/
def aborting : Except String α → Except Refusal α
  | .ok value => .ok value
  | .error message => .error (.assertion message)

namespace Worker

variable {φ : Type} {address : Fiber ↪ Nat}

/-- `ASSERT_FIBER_STATE`. -/
def assertFiberState (worker : Worker φ address) (fiber : Fiber) (expected : Fiber.State) :
    Except Refusal Unit :=
  marlAssert (worker.state fiber = expected)
    ("fiber " ++ toString fiber.id ++ " was in state " ++ (worker.state fiber).toString ++
      ", but expected " ++ expected.toString)

def changeFiberState (worker : Worker φ address) (fiber : Fiber) (source target : Fiber.State) :
    Except Refusal (Worker φ address) := do
  worker.assertFiberState fiber source
  return worker.setState fiber target

/-- What the stack of the new current fiber does when `switchTo` comes back on
it: the end of the inner loop of `runUntilIdle`, or the end of `suspend` and
the `work_.mutex.unlock()` of `Worker::wait`. A fresh stack begins `run`. -/
def resumed (worker : Worker φ address) : Except Refusal (Worker φ address) :=
  match worker.current with
  | .idle => do
      let worker ← worker.changeFiberState worker.currentFiber .idle .running
      return worker.moveTo .runUntilIdle
  | .suspended body =>
      let worker := { worker with numBlockedFibers := worker.numBlockedFibers - 1 }
      .ok ((worker.setState worker.currentFiber .running).moveTo (.body body))
  | _ => .ok worker

def switchToFiber (worker : Worker φ address) (target : Fiber) : Except Refusal (Worker φ address) := do
  marlAssert (target = worker.mainFiber ∨ target ∉ worker.idleFibers) "switching to idle fiber"
  { worker with currentFiber := target }.resumed

def createWorkerFiber (worker : Worker φ address) : Fiber × Worker φ address :=
  let fiber : Fiber := ⟨worker.id, worker.workerFibers.length + 1⟩
  let worker := { worker with workerFibers := worker.workerFibers ++ [fiber] }
  (fiber, (worker.setState fiber .running).setPosition fiber .run)

/-- The part of `suspend` before `waitForWork`, on the stack of `body`. -/
def suspend (worker : Worker φ address) (timeout : Option TimePoint) (body : Body φ) :
    Except Refusal (Worker φ address) :=
  match timeout with
  | some timeout => do
      let worker ← worker.changeFiberState worker.currentFiber .running .waiting
      let waiting ← aborting (worker.waiting.add timeout worker.currentFiber)
      return { worker with waiting }.moveTo (.waitForWork (.suspend body))
  | none => do
      let worker ← worker.changeFiberState worker.currentFiber .running .yielded
      return worker.moveTo (.waitForWork (.suspend body))

/-- The part of `suspend` after `waitForWork`, up to the switch. `pick` is the
element that `begin()` of the unordered set `idle_fibers_` happens to be. -/
def suspendSwitch (worker : Worker φ address) (body : Body φ) (pick : Fiber) :
    Except Refusal (Worker φ address) :=
  let worker := { worker with numBlockedFibers := worker.numBlockedFibers + 1 }.moveTo (.suspended body)
  match worker.fibers with
  | target :: rest => do
      let worker := { worker with num := worker.num - 1, fibers := rest }
      worker.assertFiberState target .queued
      worker.switchToFiber target
  | [] =>
      if worker.idleFibers ≠ [] then
        if pick ∈ worker.idleFibers then do
          let worker := { worker with idleFibers := worker.idleFibers.erase pick }
          worker.assertFiberState pick .idle
          worker.switchToFiber pick
        else .error .disabled
      else
        let (fiber, worker) := worker.createWorkerFiber
        worker.switchToFiber fiber

/-- One turn of the loops of `runUntilIdle`. -/
def runUntilIdle (worker : Worker φ address) : Except Refusal (Worker φ address) :=
  match worker.fibers, worker.tasks with
  | fiber :: rest, _ => do
      let worker := { worker with num := worker.num - 1, fibers := rest }
      marlAssert (fiber ∉ worker.idleFibers) "dequeued fiber is idle"
      marlAssert (fiber ≠ worker.currentFiber) "dequeued fiber is currently running"
      worker.assertFiberState fiber .queued
      let worker ← worker.changeFiberState worker.currentFiber .running .idle
      marlAssert (worker.currentFiber ∉ worker.idleFibers) "fiber already idle"
      let worker := { worker with idleFibers := worker.currentFiber :: worker.idleFibers }
      (worker.moveTo .idle).switchToFiber fiber
  | [], task :: rest =>
      let worker := { worker with num := worker.num - 1, tasks := rest }
      .ok ((worker.record (.started task)).moveTo (.body (.task task)))
  | [], [] => .ok (worker.moveTo .runUntilShutdown)

/-- The assertion that opens `waitForWork` and `runUntilIdle`. -/
def assertNum (worker : Worker φ address) : Except Refusal Unit :=
  marlAssert (worker.num = worker.fibers.length + worker.tasks.length) "work.num out of sync"

/-- `waitForWork` up to the release of `work_.mutex` or the call of `Work::wait`. -/
def waitForWork (worker : Worker φ address) (caller : Caller φ) : Except Refusal (Worker φ address) := do
  worker.assertNum
  if worker.num > 0 then return worker.moveTo (.workFound caller)
  match worker.mode with
  | .multiThreaded => return worker.moveTo (.spinForWork caller)
  | .singleThreaded => return worker.moveTo (.workWait (.waitForWork caller))

/-- `enqueueFiberTimeouts` with one clock reading; every turn of the loop
removes an entry of `timeouts`, so their number bounds the turns. -/
def enqueueFiberTimeoutsLoop (now : TimePoint) : Nat → Worker φ address →
    Except Refusal (Worker φ address)
  | 0, worker => .ok worker
  | turns + 1, worker => do
      match ← aborting (worker.waiting.take now) with
      | (none, _) => return worker
      | (some fiber, waiting) =>
          let worker := { worker with waiting }
          let worker ← worker.changeFiberState fiber .waiting .queued
          enqueueFiberTimeoutsLoop now turns
            { worker with fibers := worker.fibers ++ [fiber], num := worker.num + 1 }

def enqueueFiberTimeouts (worker : Worker φ address) (now : TimePoint) :
    Except Refusal (Worker φ address) :=
  enqueueFiberTimeoutsLoop now (worker.waiting.timeouts.elements.length + 1) worker

/-- The end of `waitForWork`. -/
def expireWaiting (worker : Worker φ address) (now : TimePoint) : Except Refusal (Worker φ address) :=
  if worker.waiting.nonempty then worker.enqueueFiberTimeouts now else .ok worker

/-- The predicates given to `Work::wait` by `run` and by `waitForWork`. -/
def predicate (worker : Worker φ address) : WaitSite φ → Bool
  | .run => worker.num > 0 || worker.waiting.nonempty || worker.shutdown
  | .waitForWork _ => worker.num > 0 || (worker.shutdown && worker.numBlockedFibers == 0)

/-- `Work::wait` returns, and with it what its caller does next. -/
def workWaitDone (worker : Worker φ address) (site : WaitSite φ) (now : TimePoint) :
    Except Refusal (Worker φ address) :=
  let worker := { worker with notifyAdded := false }
  match site with
  | .run => do
      worker.assertFiberState worker.currentFiber .running
      return worker.moveTo .runUntilShutdown
  | .waitForWork caller => do
      let worker ← worker.expireWaiting now
      return worker.moveTo (.workFound caller)

/-- The deadline that `Work::wait` sleeps with, if any. -/
def deadline (worker : Worker φ address) : Except Refusal (Option TimePoint) :=
  if worker.waiting.nonempty then some <$> aborting worker.waiting.next else .ok none

/-- `Work::wait` up to the first evaluation of its predicate; the deadline of
`wait_until_locked` is read here once. -/
def workWait (worker : Worker φ address) (site : WaitSite φ) (now : TimePoint) :
    Except Refusal (Worker φ address) := do
  let worker := { worker with notifyAdded := true }
  let deadline ← worker.deadline
  if worker.predicate site then worker.workWaitDone site now
  else return worker.moveTo (.asleep site deadline)

/-- The thread has `work_.mutex` again inside the standard condition variable:
it leaves when the predicate holds or its deadline has passed. -/
def reacquire (worker : Worker φ address) (site : WaitSite φ) (deadline : Option TimePoint)
    (timedOut : Bool) (now : TimePoint) : Except Refusal (Worker φ address) :=
  if worker.predicate site || timedOut then worker.workWaitDone site now
  else .ok (worker.moveTo (.asleep site deadline))

/-- `run` up to `runUntilShutdown`. -/
def run (worker : Worker φ address) : Except Refusal (Worker φ address) :=
  match worker.mode with
  | .multiThreaded => .ok (worker.moveTo (.workWait .run))
  | .singleThreaded => do
      worker.assertFiberState worker.currentFiber .running
      return worker.moveTo .runUntilShutdown

/-- The test of the loop in `runUntilShutdown`. -/
def runUntilShutdown (worker : Worker φ address) : Worker φ address :=
  if !worker.shutdown || worker.num > 0 || worker.numBlockedFibers > 0 then
    worker.moveTo (.waitForWork .runUntilShutdown)
  else worker.moveTo .left

/-- What follows `runUntilShutdown`: `run` switches to the main fiber, and on
the main fiber itself `run` or `stop` returns. -/
def leave (worker : Worker φ address) : Except Refusal (Worker φ address) :=
  if worker.currentFiber = worker.mainFiber then .ok (worker.moveTo .exited)
  else worker.switchToFiber worker.mainFiber

/-- The next piece of code on the worker's thread, taking `work_.mutex` first
where the thread does not own it. -/
def proceed (worker : Worker φ address) (now : TimePoint) (pick : Fiber) :
    Except Refusal (Worker φ address) :=
  match worker.current with
  | .start => .ok (worker.moveTo .run)
  | .run => worker.run
  | .runUntilShutdown => .ok worker.runUntilShutdown
  | .waitForWork caller => worker.waitForWork caller
  | .spinForWork caller => .ok (worker.moveTo (.spun caller))
  | .stolen caller task =>
      let worker := { worker with tasks := worker.tasks ++ [task], num := worker.num + 1 }
      .ok ((worker.record (.adopted task)).moveTo (.spun caller))
  | .spun caller => .ok (worker.moveTo (.workWait (.waitForWork caller)))
  | .workWait site => worker.workWait site now
  | .awoken site deadline timedOut => worker.reacquire site deadline timedOut now
  | .workFound .runUntilShutdown => do
      worker.assertFiberState worker.currentFiber .running
      worker.assertNum
      return worker.moveTo .runUntilIdle
  | .workFound (.suspend body) => worker.suspendSwitch body pick
  | .runUntilIdle => worker.runUntilIdle
  | .left => worker.leave
  | .asleep _ _ | .idle | .body _ | .suspended _ | .exited => .error .disabled

/-- `enqueueAndUnlock`, after `lock` or a successful `tryLock`. -/
def enqueueTask (worker : Worker φ address) (task : Task φ) : Worker φ address :=
  { worker with
    tasks := worker.tasks ++ [task]
    num := worker.num + 1
    pendingNotifies := worker.pendingNotifies + if worker.notifyAdded then 1 else 0
  }.record (.pushed task)

/-- The `switch` of `Worker::enqueue(Fiber *)` for a fiber that will be queued. -/
def stopWaiting (worker : Worker φ address) (fiber : Fiber) : Except Refusal (WaitingFibers address) :=
  match worker.state fiber with
  | .waiting => aborting (worker.waiting.erase fiber)
  | _ => .ok worker.waiting

/-- `Worker::enqueue(Fiber *)`. -/
def enqueueFiber (worker : Worker φ address) (fiber : Fiber) : Except Refusal (Worker φ address) :=
  match worker.state fiber with
  | .running | .queued => .ok worker
  | .waiting | .idle | .yielded => do
      let waiting ← worker.stopWaiting fiber
      marlAssert (!waiting.contains fiber) "fiber is unexpectedly in the waiting list"
      let worker := { worker with
        waiting
        fibers := worker.fibers ++ [fiber]
        num := worker.num + 1
        pendingNotifies := worker.pendingNotifies + if worker.notifyAdded then 1 else 0 }
      return worker.setState fiber .queued

/-- `Worker::steal` on the victim, when it finds a task to give away. -/
def steal (worker : Worker φ address) : Except Refusal (Task φ × Worker φ address) :=
  match worker.tasks with
  | task :: rest =>
      if worker.num = 0 || task.is .sameThread then .error .disabled
      else .ok (task, { worker with num := worker.num - 1, tasks := rest }.record (.robbed task))
  | [] => .error .disabled

/-- A postponed `work_.added.notify_one()` reaches the condition variable. -/
def notifyAddedOne (worker : Worker φ address) : Worker φ address :=
  let worker := { worker with pendingNotifies := worker.pendingNotifies - 1 }
  match worker.current with
  | .asleep site deadline => worker.moveTo (.awoken site deadline false)
  | _ => worker

/-- The steps of a worker. The first group is taken by any thread, the second
by the worker's own thread; each clock reading is part of its step. -/
inductive Action (φ : Type) where
  | enqueue (task : Task φ)
  | steal
  | notify (fiber : Fiber)
  | notifyAdded
  | setShutdown
  | proceed (now : TimePoint) (pick : Fiber)
  | adopt (task : Task φ)
  | wake
  | expire (now : TimePoint)
  | suspend (timeout : Option TimePoint)
  | finish
  | stop

/-- One step. A step that needs `work_.mutex` is disabled while the worker's
thread owns it. -/
def step (worker : Worker φ address) : Action φ → Except Refusal (Worker φ address)
  | .enqueue task => if worker.mutexFree then .ok (worker.enqueueTask task) else .error .disabled
  | .steal =>
      if worker.mutexFree ∧ worker.mode = .multiThreaded then Prod.snd <$> worker.steal
      else .error .disabled
  | .notify fiber =>
      if worker.mutexFree ∧ fiber ∈ worker.allFibers then worker.enqueueFiber fiber
      else .error .disabled
  | .notifyAdded =>
      if worker.pendingNotifies > 0 then .ok worker.notifyAddedOne else .error .disabled
  | .setShutdown =>
      if worker.mode = .multiThreaded then .ok { worker with shutdown := true } else .error .disabled
  | .proceed now pick => worker.proceed now pick
  | .adopt task =>
      match worker.current with
      | .spinForWork caller => .ok (worker.moveTo (.stolen caller task))
      | _ => .error .disabled
  | .wake =>
      match worker.current with
      | .asleep site deadline => .ok (worker.moveTo (.awoken site deadline false))
      | _ => .error .disabled
  | .expire now =>
      match worker.current with
      | .asleep site (some deadline) =>
          if deadline ≤ now then .ok (worker.moveTo (.awoken site (some deadline) true))
          else .error .disabled
      | _ => .error .disabled
  | .suspend timeout =>
      match worker.current with
      | .body body => worker.suspend timeout body
      | _ => .error .disabled
  | .finish =>
      match worker.current with
      | .body (.task task) => .ok ((worker.record (.finished task)).moveTo .runUntilIdle)
      | _ => .error .disabled
  | .stop =>
      match worker.mode, worker.current with
      | .singleThreaded, .body .thread => .ok ({ worker with shutdown := true }.moveTo .runUntilShutdown)
      | _, _ => .error .disabled

end Worker

end MiniMarl
