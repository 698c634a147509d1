import MiniMarl.Worker.Ledger

namespace MiniMarl

/-- The closures that reach a worker: those of the users, and the one that
`Worker::stop` hands to worker thread `index` to set its `shutdown`. -/
inductive Closure (φ : Type) where
  | user (function : φ)
  | stop (index : Nat)
deriving DecidableEq

/-- A thread that calls `Scheduler::enqueue`: one that runs the fibers of a
worker, or one that no worker is bound to. -/
inductive Party where
  | worker (id : WorkerId)
  | thread (id : Nat)
deriving DecidableEq, Repr

/-- `Worker::getCurrent()`. -/
def Party.current? : Party → Option WorkerId
  | .worker id => some id
  | .thread _ => none

/-- Where a call of `Scheduler::enqueue` stands, between two atomic operations. -/
inductive Stage where
  | entered
  | exchange (slot : Fin 8)
  | roundRobin
  | tryLock (index : Nat)
  | lock (worker : WorkerId)
deriving DecidableEq, Repr

/-- A call of `Scheduler::enqueue` that has not pushed its task yet. -/
structure Call (φ : Type) where
  party : Party
  task : Task (Closure φ)
  stage : Stage := .entered

/-- Where `~Scheduler` stands. -/
inductive Destructor where
  | idle
  | waiting
  | stopping (remaining : Nat)
  | joining (index : Nat)
  | destroyed
deriving DecidableEq, Repr

/-- A task that has been pushed, with the worker that was current on the
thread that pushed it. -/
structure Handed (φ : Type) where
  task : Task (Closure φ)
  current? : Option WorkerId

/-- `Scheduler`. `spinSlot` holds the slot that a worker has drawn in
`onBeginSpinning` and not written yet; `called` and `handed` are records for
the proofs. -/
structure Scheduler (φ : Type) (address : Fiber ↪ Nat) where
  count : Nat
  worker : WorkerId → Worker (Closure φ) address
  binds : Nat := 0
  byTid : List Nat := []
  spinningWorkers : Fin 8 → Int := fun _ => -1
  nextSpinningWorkerIndex : UInt32 := 0x8000000
  nextEnqueueIndex : UInt32 := 0
  spinSlot : WorkerId → Option (Fin 8) := fun _ => none
  calls : List (Call φ) := []
  destructor : Destructor := .idle
  called : List (Task (Closure φ)) := []
  handed : List (Handed φ) := []

namespace Scheduler

open Transition

variable {φ : Type} {address : Fiber ↪ Nat}

/-- The scheduler after its constructor, with every worker thread started. -/
def initial (count : Nat) : Scheduler φ address where
  count
  worker
    | .thread index => .initial (.thread index) .multiThreaded
    | .bound index => .initial (.bound index) .singleThreaded

/-- The workers that have been created. -/
def present (scheduler : Scheduler φ address) : WorkerId → Bool
  | .thread index => index < scheduler.count
  | .bound index => index < scheduler.binds

/-- One step of one worker. -/
def act (scheduler : Scheduler φ address) (id : WorkerId) (action : Worker.Action (Closure φ)) :
    Option (Scheduler φ address) :=
  if scheduler.present id then
    ((scheduler.worker id).admissibleStep action).map fun after =>
      { scheduler with worker := Function.update scheduler.worker id after }
  else none

/-- The thread of a worker is inside a call of `Scheduler::enqueue`. -/
def calling (scheduler : Scheduler φ address) (party : Party) : Bool :=
  scheduler.calls.any fun call => call.party = party

/-- The current fiber runs code that is not the scheduler's own. -/
def runsUserCode (worker : Worker (Closure φ) address) : Bool :=
  match worker.current with
  | .body .thread | .body (.task ⟨.user _, _⟩) => true
  | _ => false

/-- A worker thread that found no work in `waitForWork` and is about to spin. -/
def aboutToSpin (worker : Worker (Closure φ) address) : Bool :=
  match worker.current with
  | .waitForWork _ => worker.num = 0 && worker.mode = .multiThreaded
  | _ => false

/-- `onBeginSpinning`, the draw of a slot. -/
def onBeginSpinning (scheduler : Scheduler φ address) (id : WorkerId) : Option (Scheduler φ address) :=
  if scheduler.present id && aboutToSpin (scheduler.worker id) && (scheduler.spinSlot id).isNone then
    let slot := Fin.ofNat 8 scheduler.nextSpinningWorkerIndex.toNat
    some { scheduler with
      nextSpinningWorkerIndex := scheduler.nextSpinningWorkerIndex + 1
      spinSlot := Function.update scheduler.spinSlot id (some slot) }
  else none

/-- The next piece of a worker's own code. A worker that is about to spin
writes its id into the slot it has drawn before it releases the mutex. -/
def proceed (scheduler : Scheduler φ address) (id : WorkerId) (now : TimePoint) (pick : Fiber) :
    Option (Scheduler φ address) :=
  if aboutToSpin (scheduler.worker id) then
    match id, scheduler.spinSlot id with
    | .thread index, some slot =>
        { scheduler with
          spinningWorkers := Function.update scheduler.spinningWorkers slot index
          spinSlot := Function.update scheduler.spinSlot id none }.act id (.proceed now pick)
    | _, _ => none
  else scheduler.act id (.proceed now pick)

/-- `task()` returns: the assignment of a stop closure has been made, and a
user's closure is inside no call. -/
def returns (scheduler : Scheduler φ address) (id : WorkerId) : Bool :=
  match (scheduler.worker id).current with
  | .body (.task ⟨.stop index, _⟩) => (scheduler.worker (.thread index)).shutdown
  | _ => !scheduler.calling (.worker id)

/-- The steps of a worker that need nothing from another one. -/
def own (scheduler : Scheduler φ address) (id : WorkerId) (action : Worker.Action (Closure φ)) :
    Option (Scheduler φ address) :=
  match action with
  | .proceed now pick => scheduler.proceed id now pick
  | .notify _ | .notifyAdded | .wake | .expire _ => scheduler.act id action
  | .suspend _ | .stop =>
      if runsUserCode (scheduler.worker id) && !scheduler.calling (.worker id) then
        scheduler.act id action
      else none
  | .finish => if scheduler.returns id then scheduler.act id action else none
  | .enqueue _ | .steal | .adopt _ | .setShutdown => none

/-- `stealWork` as `spinForWork` calls it, when it gets a task. -/
def stealWork (scheduler : Scheduler φ address) (thief : WorkerId) (source : Nat) :
    Option (Scheduler φ address) :=
  if scheduler.count > 0 then
    let victim := WorkerId.thread (source % scheduler.count)
    if victim ≠ thief then
      match (scheduler.worker victim).steal with
      | .ok (task, _) => do
          let scheduler ← scheduler.act victim .steal
          scheduler.act thief (.adopt task)
      | .error _ => none
    else none
  else none

/-- The assignment in the closure of `Worker::stop`, on the thread of `id`. -/
def assignShutdown (scheduler : Scheduler φ address) (id : WorkerId) : Option (Scheduler φ address) :=
  match (scheduler.worker id).current with
  | .body (.task ⟨.stop index, _⟩) =>
      if scheduler.present id then scheduler.act (.thread index) .setShutdown else none
  | _ => none

/-- A thread calls `Scheduler::enqueue`. -/
def enqueue (scheduler : Scheduler φ address) (party : Party) (function : φ) (flags : Task.Flags) :
    Option (Scheduler φ address) :=
  let ready := match party with
    | .worker id => scheduler.present id && runsUserCode (scheduler.worker id)
    | .thread _ => true
  if ready && !scheduler.calling party then
    some { scheduler with
      calls := ⟨party, ⟨.user function, flags⟩, .entered⟩ :: scheduler.calls
      called := ⟨.user function, flags⟩ :: scheduler.called }
  else none

/-- The call of `party` goes on at another stage. -/
def restage (scheduler : Scheduler φ address) (call : Call φ) (stage : Stage) : Scheduler φ address :=
  { scheduler with
    calls := { call with stage } :: scheduler.calls.eraseP fun other => other.party = call.party }

/-- The worker `id` takes the task, and the call is over. -/
def push (scheduler : Scheduler φ address) (call : Call φ) (id : WorkerId) : Option (Scheduler φ address) :=
  { scheduler with
    calls := scheduler.calls.eraseP fun other => other.party = call.party
    handed := ⟨call.task, call.party.current?⟩ :: scheduler.handed }.act id (.enqueue call.task)

/-- The next atomic operation of a call of `Scheduler::enqueue`. A null
worker and `MARL_FATAL` end the program. -/
def enqueueNext (scheduler : Scheduler φ address) (call : Call φ) : Option (Scheduler φ address) :=
  match call.stage with
  | .entered =>
      if call.task.is .sameThread then
        call.party.current?.map fun id => scheduler.restage call (.lock id)
      else if scheduler.count > 0 then
        let next := scheduler.nextSpinningWorkerIndex - 1
        some ({ scheduler with nextSpinningWorkerIndex := next }.restage call
          (.exchange (Fin.ofNat 8 next.toNat)))
      else call.party.current?.map fun id => scheduler.restage call (.lock id)
  | .exchange slot =>
      let index := scheduler.spinningWorkers slot
      some ({ scheduler with spinningWorkers := Function.update scheduler.spinningWorkers slot (-1) }.restage
        call (if index < 0 then .roundRobin else .tryLock index.toNat))
  | .roundRobin =>
      let index := scheduler.nextEnqueueIndex.toNat % scheduler.count
      some ({ scheduler with nextEnqueueIndex := scheduler.nextEnqueueIndex + 1 }.restage call
        (.tryLock index))
  | .tryLock index =>
      if (scheduler.worker (.thread index)).mutexFree then scheduler.push call (.thread index)
      else some (scheduler.restage call .entered)
  | .lock id => scheduler.push call id

/-- `bind`, on a thread that is not bound. -/
def bind (scheduler : Scheduler φ address) : Option (Scheduler φ address) :=
  if scheduler.destructor = .idle ∨ scheduler.destructor = .waiting then
    some { scheduler with
      worker := Function.update scheduler.worker (.bound scheduler.binds)
        (.initial (.bound scheduler.binds) .singleThreaded)
      binds := scheduler.binds + 1
      byTid := scheduler.byTid ++ [scheduler.binds] }
  else none

/-- `unbind` after `stop` has returned. -/
def unbind (scheduler : Scheduler φ address) (index : Nat) : Option (Scheduler φ address) :=
  if index ∈ scheduler.byTid ∧ (scheduler.worker (.bound index)).current.gone then
    some { scheduler with byTid := scheduler.byTid.erase index }
  else none

/-- The task that `Worker::stop` enqueues, with the default flags. -/
def stopTask (index : Nat) : Task (Closure φ) := ⟨.stop index, .none⟩

/-- The next piece of `~Scheduler`; `joining` is `thread_.join()` in `Worker::stop`. -/
def destroy (scheduler : Scheduler φ address) : Option (Scheduler φ address) :=
  match scheduler.destructor with
  | .idle => some { scheduler with destructor := .waiting }
  | .waiting =>
      if scheduler.byTid = [] then some { scheduler with destructor := .stopping scheduler.count } else none
  | .stopping 0 => some { scheduler with destructor := .destroyed }
  | .stopping (index + 1) =>
      { scheduler with
        called := stopTask index :: scheduler.called
        handed := ⟨stopTask index, none⟩ :: scheduler.handed
        destructor := .joining index }.act (.thread index) (.enqueue (stopTask index))
  | .joining index =>
      if (scheduler.worker (.thread index)).current.gone then
        some { scheduler with destructor := .stopping index }
      else none
  | .destroyed => none

inductive Action (φ : Type) where
  | own (id : WorkerId) (action : Worker.Action (Closure φ))
  | onBeginSpinning (id : WorkerId)
  | stealWork (thief : WorkerId) (source : Nat)
  | assignShutdown (id : WorkerId)
  | enqueue (party : Party) (function : φ) (flags : Task.Flags)
  | enqueueNext (party : Party)
  | bind
  | unbind (index : Nat)
  | destroy

def step (scheduler : Scheduler φ address) (action : Action φ) : Option (Scheduler φ address) :=
  if scheduler.destructor = .destroyed then none
  else
    match action with
    | .own id action => scheduler.own id action
    | .onBeginSpinning id => scheduler.onBeginSpinning id
    | .stealWork thief source => scheduler.stealWork thief source
    | .assignShutdown id => scheduler.assignShutdown id
    | .enqueue party function flags => scheduler.enqueue party function flags
    | .enqueueNext party =>
        (scheduler.calls.find? fun call => call.party = party).bind scheduler.enqueueNext
    | .bind => scheduler.bind
    | .unbind index => scheduler.unbind index
    | .destroy => scheduler.destroy

/-- All runs of a scheduler with `count` worker threads. -/
def system (count : Nat) : System (Scheduler φ address) (Action φ) :=
  .ofStep (· = initial count) step

end Scheduler

end MiniMarl
