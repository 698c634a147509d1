import MiniMarl.Worker.Effect

namespace MiniMarl.Worker

open Data Transition

variable {φ : Type} {address : Fiber ↪ Nat} {worker : Worker φ address}

/-- What `ConditionVariable` guarantees: it notifies only the fibers it has
registered, which are inside a call of `Worker::wait`. -/
def admissible (worker : Worker φ address) : Action φ → Bool
  | .notify fiber => (worker.position fiber).insideWait
  | _ => true

def admissibleStep (worker : Worker φ address) (action : Action φ) : Option (Worker φ address) :=
  if worker.admissible action then (worker.step action).toOption else none

/-- All runs of one worker. -/
def system (id : WorkerId) (mode : Mode) : System (Worker φ address) (Action φ) :=
  .ofStep (· = initial id mode) admissibleStep

/-- The two stages of a worker's life, before and after the main fiber has been
taken out of `runUntilIdle` by a fiber that is done. -/
def Valid (worker : Worker φ address) : Prop := worker.Inv ∨ worker.Drained

/-- A step is disabled, or it succeeds, stays valid, moves tasks as `Effect`
says, and ends or sleeps only as `Arrives` says. -/
def Progresses (worker : Worker φ address) (action : Action φ) : Prop :=
  worker.step action = .error .disabled ∨
    ∃ after, worker.step action = .ok after ∧ after.Valid ∧ Effect worker action after ∧
      Arrives worker action after

/-- A step that keeps the invariant. -/
def Advances (worker : Worker φ address) (action : Action φ) : Prop :=
  worker.step action = .error .disabled ∨
    ∃ after, worker.step action = .ok after ∧ after.Inv ∧ Effect worker action after ∧ Arrives worker action after

theorem Advances.progresses {action : Action φ} (advances : worker.Advances action) : worker.Progresses action :=
  advances.imp_right fun ⟨after, done, inv, rest⟩ => ⟨after, done, .inl inv, rest⟩

/-- A step of a drained worker, which no longer touches its fibers. -/
def Lingers (worker : Worker φ address) (action : Action φ) : Prop :=
  worker.step action = .error .disabled ∨
    ∃ after, worker.step action = .ok after ∧ (after.Drained ∧ after.state = worker.state ∧
      after.idleFibers = worker.idleFibers ∧ after.allFibers = worker.allFibers) ∧
      Effect worker action after ∧ Arrives worker action after

theorem Lingers.progresses {action : Action φ} (lingers : worker.Lingers action) : worker.Progresses action :=
  lingers.imp_right fun ⟨after, done, drained, rest⟩ => ⟨after, done, .inr drained.1, rest⟩

theorem enqueueTask_effect (worker : Worker φ address) (task : Task φ) :
    Effect worker (.enqueue task) (worker.enqueueTask task) :=
  .pushed rfl rfl rfl rfl rfl rfl

/-- A steal that succeeds takes the oldest task, which is not bound to its thread. -/
theorem steal_cases (worker : Worker φ address) :
    worker.steal = .error .disabled ∨ ∃ task rest, worker.tasks = task :: rest ∧ task.flags = .none ∧
      worker.steal = .ok (task,
        { worker with num := worker.num - 1, tasks := rest }.record (.robbed task)) := by
  unfold steal
  cases shape : worker.tasks with
  | nil => exact .inl rfl
  | cons task rest =>
      dsimp only
      split
      · exact .inl rfl
      · rename_i passes
        refine .inr ⟨task, rest, rfl, ?_, rfl⟩
        simp only [Bool.or_eq_true, decide_eq_true_eq, Task.is_sameThread, not_or] at passes
        cases flags : task.flags with
        | none => rfl
        | sameThread => exact absurd flags passes.2

theorem mutexFree_not_left (free : worker.mutexFree = true) : worker.current ≠ .left := by
  intro left
  simp [mutexFree, left, Position.holdsMutex] at free

theorem Inv.stepEnqueue (inv : worker.Inv) (task : Task φ) : worker.Advances (.enqueue task) := by
  by_cases free : worker.mutexFree = true
  · refine .inr ⟨_, by simp only [step, free, if_true], ?_, enqueueTask_effect worker task,
      .stays rfl rfl (.inl rfl)⟩
    have pushed := inv.withTasks (worker.tasks ++ [task]) (worker.num + 1) (by
      rw [inv.numSynced, List.length_append, List.length_singleton, Nat.add_assoc])
      (mutexFree_not_left free)
    exact pushed.unread _ _ _
  · exact .inl (by simp [step, free])

theorem Inv.stepSteal (inv : worker.Inv) : worker.Advances .steal := by
  by_cases free : worker.mutexFree = true ∧ worker.mode = .multiThreaded
  · rcases steal_cases worker with nothing | ⟨task, rest, shape, foreign, taken⟩
    · exact .inl (by simp [step, free, nothing])
    · refine .inr ⟨{ worker with num := worker.num - 1, tasks := rest }.record (.robbed task), ?_,
        ?_, .robbed rfl rfl free.2 foreign shape rfl rfl rfl, .stays rfl rfl (.inl rfl)⟩
      · rw [step, if_pos free, taken]
        rfl
      · have synced := inv.numSynced
        rw [shape, List.length_cons] at synced
        have robbed := inv.withTasks rest (worker.num - 1) (by omega) (mutexFree_not_left free.1)
        exact robbed.unread _ _ _
  · exact .inl (by simp [step, free])

theorem state_of_insideWait (inv : worker.Inv) (member : fiber ∈ worker.allFibers)
    (inside : (worker.position fiber).insideWait = true) :
    worker.state fiber = .running ∨ (worker.state fiber).blocked = true := by
  have admitted := inv.admits fiber member
  cases position : worker.position fiber <;>
    simp_all [Position.admits, Position.insideWait, Position.body?, Position.suspends?]

/-- The `switch` of `enqueue(Fiber *)` takes a blocked fiber out of `work_.waiting`. -/
theorem Inv.stopWaiting (inv : worker.Inv) (isBlocked : (worker.state fiber).blocked = true) :
    ∃ waiting, worker.stopWaiting fiber = .ok waiting ∧ waiting.Synced ∧
      ∀ other, waiting.contains other = true ↔ other ≠ fiber ∧ worker.waiting.contains other = true := by
  have absent (unlike : worker.state fiber ≠ .waiting) (other : Fiber) :
      worker.waiting.contains other = true ↔ other ≠ fiber ∧ worker.waiting.contains other = true := by
    refine ⟨fun listed => ⟨?_, listed⟩, And.right⟩
    rintro rfl
    exact unlike ((inv.waiting other).mp listed).2
  cases found : worker.state fiber with
  | waiting =>
      obtain ⟨waiting, erased, synced, lookups⟩ := inv.waitingSynced.erase_ok fiber
      refine ⟨waiting, by simp [Worker.stopWaiting, found, erased, aborting], synced, ?_⟩
      intro other
      rw [WaitingFibers.contains_iff, WaitingFibers.contains_iff, lookups]
      by_cases here : other = fiber <;> simp [here]
  | yielded => exact ⟨_, by simp [Worker.stopWaiting, found], inv.waitingSynced, absent (by simp [found])⟩
  | queued => exact ⟨_, by simp [Worker.stopWaiting, found], inv.waitingSynced, absent (by simp [found])⟩
  | idle => exact absurd isBlocked (by simp [found, Fiber.State.blocked])
  | running => exact absurd isBlocked (by simp [found, Fiber.State.blocked])

/-- A notification of a fiber that is not idle queues it once, or finds it
running or queued and leaves it there. -/
theorem Inv.enqueueFiber (inv : worker.Inv) (member : fiber ∈ worker.allFibers)
    (busy : worker.state fiber ≠ .idle) (staying : worker.current ≠ .left) :
    ∃ after, worker.enqueueFiber fiber = .ok after ∧ after.Inv ∧ Quiet worker after ∧
      Arrives worker (.notify fiber) after := by
  by_cases running : worker.state fiber = .running
  · exact ⟨worker, by simp [Worker.enqueueFiber, running], inv, .refl worker,
      .stays rfl rfl (.inl rfl)⟩
  · have isBlocked : (worker.state fiber).blocked = true := by
      cases found : worker.state fiber <;> simp_all [Fiber.State.blocked]
    by_cases already : worker.state fiber = .queued
    · exact ⟨worker, by simp [Worker.enqueueFiber, already], inv, .refl worker,
        .stays rfl rfl (.inl rfl)⟩
    · obtain ⟨waiting, stopped, synced, lists⟩ := inv.stopWaiting isBlocked
      have unlisted : waiting.contains fiber = false := by
        rw [← Bool.not_eq_true, lists]
        simp
      have queuedInv := (inv.queueFiber member isBlocked already synced lists staying).unread
        worker.notifyAdded (worker.pendingNotifies + if worker.notifyAdded then 1 else 0) worker.history
      refine ⟨_, ?_, queuedInv, ⟨⟨rfl, rfl, rfl, rfl, rfl⟩, rfl⟩, .stays rfl rfl (.inl rfl)⟩
      cases found : worker.state fiber with
      | queued => exact absurd found already
      | running => simp [found, Fiber.State.blocked] at isBlocked
      | idle => simp [found, Fiber.State.blocked] at isBlocked
      | yielded =>
          simp only [Worker.enqueueFiber, found, stopped, Except.ok_bind, unlisted, Bool.not_false,
            marlAssert_true]
          rfl
      | waiting =>
          simp only [Worker.enqueueFiber, found, stopped, Except.ok_bind, unlisted, Bool.not_false,
            marlAssert_true]
          rfl

theorem Inv.stepNotify (inv : worker.Inv) (busy : worker.state fiber ≠ .idle) :
    worker.Advances (.notify fiber) := by
  by_cases free : worker.mutexFree = true ∧ fiber ∈ worker.allFibers
  · obtain ⟨after, notified, afterInv, quiet, arrives⟩ :=
      inv.enqueueFiber free.2 busy (mutexFree_not_left free.1)
    exact .inr ⟨after, by rw [step, if_pos free, notified], afterInv, .quiet quiet rfl, arrives⟩
  · exact .inl (by rw [step, if_neg free])

theorem Inv.stepNotifyAdded (inv : worker.Inv) : worker.Advances .notifyAdded := by
  by_cases owed : worker.pendingNotifies > 0
  · right
    refine ⟨worker.notifyAddedOne, by simp only [step, owed, if_true], ?_⟩
    let paid : Worker φ address := { worker with pendingNotifies := worker.pendingNotifies - 1 }
    have paidInv : paid.Inv := inv.unread _ _ _
    have quiet : Quiet worker paid := ⟨⟨rfl, rfl, rfl, rfl, rfl⟩, rfl⟩
    unfold notifyAddedOne
    dsimp only
    split
    · rename_i site deadline asleep
      have woken : Quiet paid (paid.moveTo (.awoken site deadline false)) :=
        .advance asleep rfl rfl rfl rfl
      exact ⟨paidInv.advance asleep rfl rfl rfl (by simp [Position.spins]),
        .quiet (quiet.trans woken) rfl, .moveTo rfl⟩
    · exact ⟨paidInv, .quiet quiet rfl, .stays rfl rfl (.inl rfl)⟩
  · exact .inl (by simp only [step, owed, if_false])

theorem Inv.stepSetShutdown (inv : worker.Inv) : worker.Advances .setShutdown := by
  by_cases threaded : worker.mode = .multiThreaded
  · exact .inr ⟨_, by rw [step, if_pos threaded], inv.shutDown,
      .quiet ⟨⟨rfl, rfl, rfl, rfl, rfl⟩, rfl⟩ rfl, .stays rfl rfl (.inr rfl)⟩
  · exact .inl (by rw [step, if_neg threaded])

theorem Inv.stepAdopt (inv : worker.Inv) (task : Task φ) : worker.Advances (.adopt task) := by
  unfold Advances
  cases found : worker.current with
  | spinForWork caller =>
      refine .inr ⟨worker.moveTo (.stolen caller task), by simp only [step, found],
        inv.advance found rfl rfl rfl (by simp [Position.spins]),
        .took (.moveTo (by rw [found]; rfl)) ?_ ?_ ?_, .moveTo rfl⟩
      · exact inv.spinning (by rw [found]; rfl)
      · rw [found]
        rfl
      · simp [Position.held?]
  | _ => exact .inl (by simp only [step, found])

theorem Inv.stepWake (inv : worker.Inv) : worker.Advances .wake := by
  unfold Advances
  cases found : worker.current with
  | asleep site deadline =>
      exact .inr ⟨worker.moveTo (.awoken site deadline false), by simp only [step, found],
        inv.advance found rfl rfl rfl (by simp [Position.spins]),
        .quiet (.advance found rfl rfl rfl rfl) rfl, .moveTo rfl⟩
  | _ => exact .inl (by simp only [step, found])

theorem Inv.stepExpire (inv : worker.Inv) (now : TimePoint) : worker.Advances (.expire now) := by
  unfold Advances
  cases found : worker.current with
  | asleep site deadline =>
      cases deadline with
      | none => exact .inl (by simp only [step, found])
      | some deadline =>
          by_cases passed : deadline ≤ now
          · exact .inr ⟨worker.moveTo (.awoken site (some deadline) true),
              by simp only [step, found, passed, if_true],
              inv.advance found rfl rfl rfl (by simp [Position.spins]),
              .quiet (.advance found rfl rfl rfl rfl) rfl, .moveTo rfl⟩
          · exact .inl (by simp only [step, found, passed, if_false])
  | _ => exact .inl (by simp only [step, found])

/-- `suspend` passes its state check, and with a timeout the fiber was not
among the waiting ones. -/
theorem Inv.stepSuspend (inv : worker.Inv) (timeout : Option TimePoint) :
    worker.Advances (.suspend timeout) := by
  unfold Advances
  cases found : worker.current with
  | body code =>
      right
      have runningHere := inv.current_running found (by simp) rfl
      have unlisted : worker.waiting.contains worker.currentFiber = false := by
        rw [← Bool.not_eq_true, inv.waiting, runningHere]
        simp
      have sameTask {after : Worker φ address} (id : after.id = worker.id) (mode : after.mode = worker.mode)
          (tasks : after.tasks = worker.tasks) (history : after.history = worker.history)
          (fibers : after.workerFibers = worker.workerFibers)
          (position : after.position = Function.update worker.position worker.currentFiber
            (.waitForWork (.suspend code)))
          (here : after.currentFiber = worker.currentFiber) : Quiet worker after := by
        have parked : Quiet worker (worker.moveTo (.waitForWork (.suspend code))) := .moveTo found rfl rfl
        refine ⟨⟨id, mode, tasks, history, ?_⟩, ?_⟩
        · rw [← parked.executing]
          simp only [executing, allFibers, mainFiber, id, fibers, position]
          rfl
        · rw [← parked.held]
          simp only [current, here, position]
          rfl
      cases timeout with
      | none =>
          refine ⟨_, ?_, inv.suspendCurrent found (.inl rfl) inv.waitingSynced (by simp),
            .quiet (sameTask rfl rfl rfl rfl rfl rfl rfl) rfl, .moveTo rfl⟩
          simp only [step, found, suspend, changeFiberState_ok runningHere, Except.ok_bind]
          rfl
      | some timeout =>
          obtain ⟨waiting, added, synced, lookups⟩ := inv.waitingSynced.add_ok unlisted timeout
          have lists : ∀ other, waiting.contains other = true ↔
              other = worker.currentFiber ∧ Fiber.State.waiting = .waiting ∨
                worker.waiting.contains other = true := by
            intro other
            rw [WaitingFibers.contains_iff, WaitingFibers.contains_iff, lookups]
            by_cases here : other = worker.currentFiber <;> simp [here]
          refine ⟨_, ?_, inv.suspendCurrent found (.inr rfl) synced lists,
            .quiet (sameTask rfl rfl rfl rfl rfl rfl rfl) rfl, .moveTo rfl⟩
          have added' : (worker.setState worker.currentFiber .waiting).waiting.add timeout
              (worker.setState worker.currentFiber .waiting).currentFiber = .ok waiting := added
          simp only [step, found, suspend, changeFiberState_ok runningHere, Except.ok_bind, added',
            aborting]
          rfl
  | _ => exact .inl (by simp only [step, found])

theorem Inv.stepFinish (inv : worker.Inv) : worker.Advances .finish := by
  unfold Advances
  cases found : worker.current with
  | body code =>
      cases code with
      | thread => exact .inl (by simp only [step, found])
      | task task =>
          have runningHere := inv.current_running found (by simp) rfl
          let recorded : Worker φ address := worker.record (.finished task)
          have recordedInv : recorded.Inv := inv.unread _ _ _
          refine .inr ⟨recorded.moveTo .runUntilIdle, by simp only [step, found, recorded],
            recordedInv.moveTo .runUntilIdle rfl ?_ (by simp) (by simp) (by simp [Position.spins]),
            .finished rfl rfl rfl rfl ?_ found (by simp [Position.held?]), .moveTo rfl⟩
          · have running : recorded.state recorded.currentFiber = .running := runningHere
            simp [running, Position.admits, Position.suspends?]
          · have moved := executing_moveTo recordedInv.nodup recordedInv.member .runUntilIdle
            have onStack : recorded.current.task? = some task := by
              change worker.current.task? = _
              rw [found]
              rfl
            rw [onStack] at moved
            exact moved
  | _ => exact .inl (by simp only [step, found])

theorem Inv.stepStop (inv : worker.Inv) : worker.Advances .stop := by
  unfold Advances
  cases mode : worker.mode with
  | multiThreaded => exact .inl (by simp only [step, mode])
  | singleThreaded =>
      cases found : worker.current with
      | body code =>
          cases code with
          | task task => exact .inl (by simp only [step, mode, found])
          | thread =>
              have runningHere := inv.current_running found (by simp) rfl
              let stopped : Worker φ address := { worker with shutdown := true }
              have quiet : Quiet worker stopped := ⟨⟨rfl, rfl, rfl, rfl, rfl⟩, rfl⟩
              have here : stopped.current = .body .thread := found
              have moved : Quiet stopped (stopped.moveTo .runUntilShutdown) := .moveTo here rfl rfl
              refine .inr ⟨stopped.moveTo .runUntilShutdown, by simp only [step, mode, found, stopped],
                inv.shutDown.moveTo .runUntilShutdown rfl ?_ (by simp) (by simp) (by simp [Position.spins]),
                .quiet (quiet.trans moved) rfl, .moveTo rfl⟩
              simpa [Position.admits, Position.suspends?] using runningHere
      | _ => exact .inl (by simp only [step, mode, found])

/-- Up to the end of `runUntilShutdown`, a step keeps the invariant as long as
no idle fiber is notified. -/
theorem Inv.advances (inv : worker.Inv) {action : Action φ} (staying : worker.current ≠ .left)
    (spares : ∀ fiber, action = .notify fiber → worker.state fiber ≠ .idle) : worker.Advances action := by
  cases action with
  | enqueue task => exact inv.stepEnqueue task
  | steal => exact inv.stepSteal
  | notify fiber => exact inv.stepNotify (spares fiber rfl)
  | notifyAdded => exact inv.stepNotifyAdded
  | setShutdown => exact inv.stepSetShutdown
  | proceed now pick => exact inv.proceed staying now pick
  | adopt task => exact inv.stepAdopt task
  | wake => exact inv.stepWake
  | expire now => exact inv.stepExpire now
  | suspend timeout => exact inv.stepSuspend timeout
  | finish => exact inv.stepFinish
  | stop => exact inv.stepStop

/-- At the end of `runUntilShutdown` the mutex is held, and the thread goes on
to `leave`. -/
theorem step_of_left (left : worker.current = .left) (action : Action φ) :
    worker.step action = .error .disabled ∨ action = .notifyAdded ∨ action = .setShutdown ∨
      ∃ now pick, action = .proceed now pick ∧ worker.step action = worker.leave := by
  have held : worker.mutexFree = false := by simp [mutexFree, left, Position.holdsMutex]
  cases action with
  | proceed now pick => exact .inr (.inr (.inr ⟨now, pick, rfl, by rw [step, Worker.proceed, left]⟩))
  | notifyAdded => exact .inr (.inl rfl)
  | setShutdown => exact .inr (.inr (.inl rfl))
  | enqueue task | steal | notify fiber => exact .inl (by simp [step, held])
  | adopt task | wake | expire now | suspend timeout | finish => exact .inl (by simp only [step, left])
  | stop =>
      refine .inl ?_
      cases mode : worker.mode <;> simp only [step, mode, left]

theorem Inv.step (inv : worker.Inv) {action : Action φ} (allowed : worker.admissible action = true) :
    worker.Progresses action := by
  by_cases left : worker.current = .left
  · rcases step_of_left left action with disabled | rfl | rfl | ⟨now, pick, rfl, leaves⟩
    · exact .inl disabled
    · exact inv.stepNotifyAdded.progresses
    · exact inv.stepSetShutdown.progresses
    · obtain ⟨after, done, valid, quiet, arrives⟩ := inv.leave left
      exact .inr ⟨after, leaves.trans done, valid, .quiet quiet rfl, arrives⟩
  · by_cases stranger : ∃ fiber, action = .notify fiber ∧ fiber ∉ worker.allFibers
    · obtain ⟨fiber, rfl, absent⟩ := stranger
      exact .inl (by simp [Worker.step, absent])
    · refine (inv.advances left fun fiber same => ?_).progresses
      subst same
      have member : fiber ∈ worker.allFibers := by
        by_contra absent
        exact stranger ⟨fiber, rfl, absent⟩
      rcases state_of_insideWait inv member allowed with running | isBlocked
      · simp [running]
      · intro idle
        simp [idle, Fiber.State.blocked] at isBlocked

theorem Drained.unread (drained : worker.Drained) (pendingNotifies : Nat) :
    ({ worker with pendingNotifies } : Worker φ address).Drained :=
  { drained with }

theorem Drained.shutDown (drained : worker.Drained) :
    ({ worker with shutdown := true } : Worker φ address).Drained :=
  { drained with
    place := drained.place.imp_left fun place => ⟨place.1, rfl, place.2.2⟩ }

theorem Drained.withTasks (drained : worker.Drained) (gone : worker.current = .exited)
    (tasks : List (Task φ)) (pendingNotifies : Nat) (history : List (TaskEvent φ)) :
    ({ worker with tasks, num := tasks.length, pendingNotifies, history } : Worker φ address).Drained :=
  { drained with
    numSynced := rfl
    place := .inr gone }

theorem Drained.exited_of_free (drained : worker.Drained) (free : worker.mutexFree = true) :
    worker.current = .exited := by
  rcases drained.place with ⟨place, _⟩ | gone
  · rcases place with found | found | found <;> simp [mutexFree, found, Position.holdsMutex] at free
  · exact gone

theorem Drained.stepEnqueue (drained : worker.Drained) (task : Task φ) :
    worker.Lingers (.enqueue task) := by
  by_cases free : worker.mutexFree = true
  · refine .inr ⟨worker.enqueueTask task, by simp only [Worker.step, free, if_true], ⟨?_, rfl, rfl, rfl⟩,
      enqueueTask_effect worker task, .stays rfl rfl (.inl rfl)⟩
    have pushed := drained.withTasks (drained.exited_of_free free) (worker.tasks ++ [task])
      (worker.pendingNotifies + if worker.notifyAdded then 1 else 0)
      (worker.history ++ [.pushed task])
    rw [List.length_append, List.length_singleton, ← drained.numSynced] at pushed
    exact pushed
  · exact .inl (by simp [Worker.step, free])

theorem Drained.stepSteal (drained : worker.Drained) : worker.Lingers .steal := by
  by_cases free : worker.mutexFree = true ∧ worker.mode = .multiThreaded
  · rcases steal_cases worker with nothing | ⟨task, rest, shape, foreign, taken⟩
    · exact .inl (by simp [Worker.step, free, nothing])
    · refine .inr ⟨{ worker with num := worker.num - 1, tasks := rest }.record (.robbed task), ?_,
        ⟨?_, rfl, rfl, rfl⟩, .robbed rfl rfl free.2 foreign shape rfl rfl rfl, .stays rfl rfl (.inl rfl)⟩
      · rw [Worker.step, if_pos free, taken]
        rfl
      · have robbed := drained.withTasks (drained.exited_of_free free.1) rest worker.pendingNotifies
          (worker.history ++ [.robbed task])
        have remaining : rest.length = worker.num - 1 := by
          rw [drained.numSynced, shape, List.length_cons, Nat.add_sub_cancel]
        rw [remaining] at robbed
        exact robbed
  · exact .inl (by simp [Worker.step, free])

theorem Drained.not_insideWait (drained : worker.Drained) (member : fiber ∈ worker.allFibers) :
    (worker.position fiber).insideWait = false := by
  rcases List.mem_cons.mp member with rfl | member
  · have place : worker.position worker.mainFiber = worker.current := by
      rw [current, drained.onMain]
    rw [place]
    rcases drained.place with ⟨found | found | found, _⟩ | found <;> rw [found] <;> rfl
  · rcases drained.others fiber member with found | found <;> rw [found] <;> rfl

theorem Drained.executing_nil (drained : worker.Drained) : worker.executing = [] := by
  refine List.filterMap_eq_nil_iff.mpr ?_
  intro fiber member
  have outside := drained.not_insideWait member
  unfold Position.insideWait at outside
  unfold Position.task?
  rw [Option.isSome_eq_false_iff, Option.isNone_iff_eq_none] at outside
  rw [outside]

theorem Drained.stepNotifyAdded (drained : worker.Drained) : worker.Lingers .notifyAdded := by
  by_cases owed : worker.pendingNotifies > 0
  · right
    refine ⟨worker.notifyAddedOne, by simp only [Worker.step, owed, if_true], ?_⟩
    have unchanged : worker.notifyAddedOne =
        { worker with pendingNotifies := worker.pendingNotifies - 1 } := by
      unfold notifyAddedOne
      dsimp only
      split
      · rename_i site deadline asleep
        have asleep' : worker.current = .asleep site deadline := asleep
        rcases drained.place with ⟨found | found | found, _⟩ | found <;>
          simp [found] at asleep'
      · rfl
    rw [unchanged]
    exact ⟨⟨drained.unread _, rfl, rfl, rfl⟩, .quiet ⟨⟨rfl, rfl, rfl, rfl, rfl⟩, rfl⟩ rfl, .stays rfl rfl (.inl rfl)⟩
  · exact .inl (by simp only [Worker.step, owed, if_false])

theorem Drained.stepProceed (drained : worker.Drained) (now : TimePoint) (pick : Fiber) :
    worker.Lingers (.proceed now pick) := by
  rcases drained.place with ⟨found | found | found, shutDown, noTasks⟩ | found
  · exact .inr ⟨worker.moveTo .runUntilShutdown,
      by simp only [Worker.step, Worker.proceed, found, Worker.runUntilIdle, drained.noFibers, noTasks],
      ⟨drained.moveTo (.inl ⟨by simp, shutDown, noTasks⟩), rfl, rfl, rfl⟩, .quiet (.moveTo found rfl rfl) rfl,
      .moveTo rfl⟩
  · have noWork : worker.num = 0 := by rw [drained.numSynced, noTasks, List.length_nil]
    exact .inr ⟨worker.moveTo .left,
      by simp [Worker.step, Worker.proceed, found, Worker.runUntilShutdown, shutDown, noWork,
        drained.noBlocked],
      ⟨drained.moveTo (.inl ⟨by simp, shutDown, noTasks⟩), rfl, rfl, rfl⟩, .quiet (.moveTo found rfl rfl) rfl,
      .moveTo rfl⟩
  · exact .inr ⟨worker.moveTo .exited,
      by simp [Worker.step, Worker.proceed, found, Worker.leave, drained.onMain],
      ⟨drained.moveTo (.inr rfl), rfl, rfl, rfl⟩, .quiet (.moveTo found rfl rfl) rfl, fun _ => .inr found, by simp⟩
  · exact .inl (by simp only [Worker.step, Worker.proceed, found])

theorem Drained.stay (drained : worker.Drained) {action : Action φ} (quiet : ∀ fiber, action ≠ .notify fiber) :
    worker.Lingers action := by
  cases action with
  | enqueue task => exact drained.stepEnqueue task
  | steal => exact drained.stepSteal
  | notify fiber => exact absurd rfl (quiet fiber)
  | notifyAdded => exact drained.stepNotifyAdded
  | setShutdown =>
      by_cases threaded : worker.mode = .multiThreaded
      · exact .inr ⟨{ worker with shutdown := true }, by rw [Worker.step, if_pos threaded],
          ⟨drained.shutDown, rfl, rfl, rfl⟩,
          .quiet ⟨⟨rfl, rfl, rfl, rfl, rfl⟩, rfl⟩ rfl, .stays rfl rfl (.inr rfl)⟩
      · exact .inl (by rw [Worker.step, if_neg threaded])
  | proceed now pick => exact drained.stepProceed now pick
  | adopt _ | wake | expire _ | suspend _ | finish =>
      refine .inl ?_
      rcases drained.place with ⟨found | found | found, _⟩ | found <;> simp only [Worker.step, found]
  | stop =>
      refine .inl ?_
      rcases drained.place with ⟨found | found | found, _⟩ | found <;>
        cases mode : worker.mode <;> simp only [Worker.step, found, mode]

theorem Drained.step (drained : worker.Drained) {action : Action φ}
    (allowed : worker.admissible action = true) : worker.Progresses action := by
  by_cases notifies : ∃ fiber, action = .notify fiber
  · obtain ⟨fiber, rfl⟩ := notifies
    have stranger : fiber ∉ worker.allFibers := fun member => by
      simp [admissible, drained.not_insideWait member] at allowed
    exact .inl (by simp [Worker.step, stranger])
  · exact (drained.stay fun fiber same => notifies ⟨fiber, same⟩).progresses

theorem Valid.step (valid : worker.Valid) {action : Action φ}
    (allowed : worker.admissible action = true) : worker.Progresses action := by
  rcases valid with inv | drained
  · exact inv.step allowed
  · exact drained.step allowed

theorem Valid.next (valid : worker.Valid) {action : Action φ} {after : Worker φ address}
    (moved : worker.admissibleStep action = some after) :
    after.Valid ∧ Effect worker action after ∧ Arrives worker action after := by
  unfold admissibleStep at moved
  split at moved
  · rename_i allowed
    have stepped := Except.toOption_eq_some.mp moved
    rcases valid.step allowed with disabled | ⟨next, done, moves⟩
    · rw [disabled] at stepped
      cases stepped
    · rw [done] at stepped
      cases stepped
      exact moves
  · cases moved

theorem valid_of_reachable {id : WorkerId} {mode : Mode}
    (reachable : (system id mode).Reachable worker) : worker.Valid := by
  refine reachable.invariant ?_ ?_
  · rintro _ rfl
    exact .inl (initial_inv id mode)
  · intro _ _ _ _ valid moved
    exact (valid.next moved).1

theorem enqueueFiber_current {after : Worker φ address} (moved : worker.enqueueFiber fiber = .ok after) :
    after.current = worker.current := by
  have queued {waiting : Except Refusal (WaitingFibers address)}
      (moved : (do
        let waiting ← waiting
        marlAssert (!waiting.contains fiber) "fiber is unexpectedly in the waiting list"
        return { worker with
          waiting
          fibers := worker.fibers ++ [fiber]
          num := worker.num + 1
          pendingNotifies := worker.pendingNotifies + if worker.notifyAdded then 1 else 0
          : Worker φ address }.setState fiber .queued) = Except.ok after) :
      after.current = worker.current := by
    cases waiting with
    | error => cases moved
    | ok waiting =>
        simp only [Except.ok_bind, marlAssert] at moved
        split at moved
        · cases moved
          rfl
        · cases moved
  unfold Worker.enqueueFiber at moved
  split at moved
  · cases moved
    rfl
  · cases moved
    rfl
  · exact queued moved
  · exact queued moved
  · exact queued moved

/-- The steps that user code takes out of its stack. -/
def Action.leavesBody : Action φ → Bool
  | .suspend _ | .finish | .stop => true
  | _ => false

/-- User code goes on where it is until it leaves by itself, and a thread that
has exited stays there. -/
theorem step_current {action : Action φ} {after : Worker φ address}
    (rests : (∃ code, worker.current = .body code) ∧ action.leavesBody = false ∨ worker.current = .exited)
    (moved : worker.step action = .ok after) : after.current = worker.current := by
  have awake : ∀ site deadline, worker.current ≠ .asleep site deadline := by
    rcases rests with ⟨⟨code, found⟩, _⟩ | found <;> simp [found]
  have still : ∀ caller, worker.current ≠ .spinForWork caller := by
    rcases rests with ⟨⟨code, found⟩, _⟩ | found <;> simp [found]
  cases action with
  | enqueue task =>
      simp only [Worker.step] at moved
      split at moved <;> cases moved
      rfl
  | steal =>
      simp only [Worker.step] at moved
      split at moved
      · rcases steal_cases worker with nothing | ⟨task, rest, _, _, taken⟩
        · rw [nothing] at moved
          cases moved
        · rw [taken] at moved
          cases moved
          rfl
      · cases moved
  | notify fiber =>
      simp only [Worker.step] at moved
      split at moved
      · exact enqueueFiber_current moved
      · cases moved
  | notifyAdded =>
      simp only [Worker.step, notifyAddedOne] at moved
      split at moved
      · cases moved
        split
        · rename_i asleep
          exact absurd asleep (awake _ _)
        · rfl
      · cases moved
  | setShutdown =>
      simp only [Worker.step] at moved
      split at moved <;> cases moved
      rfl
  | proceed now pick =>
      simp only [Worker.step, Worker.proceed] at moved
      rcases rests with ⟨⟨code, found⟩, _⟩ | found <;> rw [found] at moved <;> cases moved
  | adopt task =>
      simp only [Worker.step] at moved
      cases moved
  | wake =>
      simp only [Worker.step] at moved
      cases moved
  | expire now =>
      simp only [Worker.step] at moved
      split at moved
      · rename_i asleep
        exact absurd asleep (awake _ _)
      · cases moved
  | suspend timeout =>
      rcases rests with ⟨_, stays⟩ | found
      · cases stays
      · simp [Worker.step, found] at moved
  | finish =>
      rcases rests with ⟨_, stays⟩ | found
      · cases stays
      · simp [Worker.step, found] at moved
  | stop =>
      rcases rests with ⟨_, stays⟩ | found
      · cases stays
      · simp [Worker.step, found] at moved

theorem step_of_admissibleStep {action : Action φ} {after : Worker φ address}
    (moved : worker.admissibleStep action = some after) : worker.step action = .ok after := by
  unfold admissibleStep at moved
  rw [Option.ite_none_right_eq_some] at moved
  exact Except.toOption_eq_some.mp moved.2

instance [DecidableEq φ] : Decidable worker.NotReturned :=
  inferInstanceAs (Decidable (∀ fiber ∈ worker.allFibers, _ ∧ _))

/-- What a thread finds that takes `work_.mutex`. -/
structure Representation (worker : Worker φ address) : Prop where
  num : worker.num = worker.fibers.length + worker.tasks.length
  queued : ∀ fiber ∈ worker.allFibers, worker.state fiber = .queued ↔ fiber ∈ worker.fibers
  queuedOnce : ∀ fiber ∈ worker.fibers, fiber ∈ worker.allFibers ∧ worker.fibers.count fiber = 1
  waiting : ∀ fiber ∈ worker.allFibers, worker.state fiber = .waiting ↔ worker.waiting.contains fiber = true
  idle : ∀ fiber ∈ worker.allFibers, worker.state fiber = .idle ↔ fiber ∈ worker.idleFibers
  running : ∀ fiber ∈ worker.allFibers, worker.state fiber = .running → fiber = worker.currentFiber
  blocked : worker.numBlockedFibers = worker.allFibers.countP fun fiber =>
    fiber ≠ worker.currentFiber ∧ (worker.state fiber = .yielded ∨ worker.state fiber = .waiting ∨
      worker.state fiber = .queued)

theorem Inv.representation (inv : worker.Inv) : worker.Representation where
  num := inv.numSynced
  queued fiber member := by simp [inv.queued, member]
  queuedOnce fiber listed :=
    ⟨((inv.queued fiber).mp listed).1, List.count_eq_one_of_mem inv.queuedOnce listed⟩
  waiting fiber member := by simp [inv.waiting, member]
  idle fiber member := by simp [inv.idle, member]
  running fiber member running := by
    by_contra other
    have parked := (inv.parked fiber member).mpr other
    have admitted := inv.admits fiber member
    rw [running] at admitted
    cases position : worker.position fiber <;>
      simp_all [Position.parked, Position.admits, Position.suspends?, Fiber.State.blocked]
  blocked := by
    rw [inv.blocked]
    apply List.countP_congr
    intro fiber _
    cases found : worker.state fiber <;> simp [countsBlocked, found, Fiber.State.blocked]

theorem Drained.returned_of_notReturned (drained : worker.Drained) : ¬worker.NotReturned := by
  obtain ⟨fiber, member, left⟩ := drained.returned
  intro notReturned
  exact (notReturned fiber (List.mem_cons_of_mem _ member)).1 left

/-- The representation invariant of a worker over all runs, and what it is
for: no assertion of the worker's code can fail. -/
theorem representation_of_reachable {id : WorkerId} {mode : Mode}
    (reachable : (system id mode).Reachable worker) :
    (worker.NotReturned → worker.mutexFree = true → worker.Representation) ∧
      ∀ action, worker.admissible action = true → ∀ message,
        worker.step action ≠ .error (.assertion message) := by
  have valid := valid_of_reachable reachable
  constructor
  · intro notReturned _
    rcases valid with inv | drained
    · exact inv.representation
    · exact absurd notReturned drained.returned_of_notReturned
  · intro action allowed message failed
    rcases valid.step allowed with disabled | ⟨after, done, _⟩
    · rw [disabled] at failed
      cases failed
    · rw [done] at failed
      cases failed

/-- A bound thread asleep in a timed wait that was notified at once. -/
theorem representation_of_notified_wait : ∃ worker : Worker Nat Fiber.address,
    worker.state ⟨.bound 0, 0⟩ = .queued ∧ worker.mutexFree = true ∧ worker.Representation := by
  obtain ⟨worker, reachable, observed⟩ := System.reachable_of_replay
    (· = initial (.bound 0) .singleThreaded) admissibleStep rfl
    [.suspend (some 5), .proceed 0 ⟨.bound 0, 0⟩, .proceed 0 ⟨.bound 0, 0⟩, .notify ⟨.bound 0, 0⟩]
    (fun worker : Worker Nat Fiber.address => worker.state ⟨.bound 0, 0⟩ = .queued &&
      worker.mutexFree && decide worker.NotReturned) (by decide)
  simp only [Bool.and_eq_true, decide_eq_true_eq] at observed
  exact ⟨worker, observed.1.1, observed.1.2,
    (representation_of_reachable reachable).1 observed.2 observed.1.2⟩

end MiniMarl.Worker
