import MiniMarl.Data.Counting
import MiniMarl.Data.Fallible
import MiniMarl.Worker.Step

namespace MiniMarl

open Data

@[simp] theorem marlAssert_true (message : String) : marlAssert true message = .ok () := rfl

theorem aborting_eq_ok {α : Type} {value : Except String α} {result : α} :
    aborting value = .ok result ↔ value = .ok result := by
  cases value <;> simp [aborting]

namespace Worker

variable {φ : Type} {address : Fiber ↪ Nat} {worker : Worker φ address}

theorem assertFiberState_ok {fiber : Fiber} {expected : Fiber.State}
    (found : worker.state fiber = expected) : worker.assertFiberState fiber expected = .ok () := by
  simp [assertFiberState, found]

theorem changeFiberState_ok {fiber : Fiber} {source target : Fiber.State}
    (found : worker.state fiber = source) :
    worker.changeFiberState fiber source target = .ok (worker.setState fiber target) := by
  simp [changeFiberState, assertFiberState_ok found, pure, Except.pure]

theorem changeFiberState_eq {fiber : Fiber} {source target : Fiber.State} {after : Worker φ address}
    (changed : worker.changeFiberState fiber source target = .ok after) : after = worker.setState fiber target := by
  obtain ⟨_, _, same⟩ := Except.bind_eq_ok.mp changed
  exact (Except.ok.inj same).symm

/-- `enqueue(Fiber *)` leaves a running or queued fiber alone, and queues any other. -/
theorem enqueueFiber_cases {fiber : Fiber} {after : Worker φ address} (done : worker.enqueueFiber fiber = .ok after) :
    after = worker ∧ (worker.state fiber = .running ∨ worker.state fiber = .queued) ∨
      (worker.state fiber ≠ .running ∧ worker.state fiber ≠ .queued) ∧ ∃ waiting,
        worker.stopWaiting fiber = .ok waiting ∧ waiting.contains fiber = false ∧
        after = ({ worker with
          waiting
          fibers := worker.fibers ++ [fiber]
          num := worker.num + 1
          pendingNotifies := worker.pendingNotifies + if worker.notifyAdded then 1 else 0 }).setState fiber .queued := by
  cases state : worker.state fiber with
  | running | queued =>
      simp only [enqueueFiber, state, Except.ok.injEq] at done
      exact .inl ⟨done.symm, by simp⟩
  | waiting | idle | yielded =>
      simp only [enqueueFiber, state] at done
      obtain ⟨waiting, stopped, done⟩ := Except.bind_eq_ok.mp done
      obtain ⟨_, absent, queued⟩ := Except.bind_eq_ok.mp done
      refine .inr ⟨by simp, waiting, stopped, ?_, (Except.ok.inj queued).symm⟩
      simpa [marlAssert] using absent

/-- The fibers that `num_blocked_fibers` counts. -/
def countsBlocked (worker : Worker φ address) (fiber : Fiber) : Bool :=
  fiber ≠ worker.currentFiber ∧ (worker.state fiber).blocked

/-- The representation invariant of a worker, up to the first return of
`runUntilShutdown`. It also holds while the worker's thread owns the mutex,
at the points where the model cuts the code. -/
structure Inv (worker : Worker φ address) : Prop where
  created : worker.workerFibers =
    (List.range worker.workerFibers.length).map fun index => ⟨worker.id, index + 1⟩
  member : worker.currentFiber ∈ worker.allFibers
  parked : ∀ fiber ∈ worker.allFibers,
    ((worker.position fiber).parked = true ↔ fiber ≠ worker.currentFiber)
  admits : ∀ fiber ∈ worker.allFibers, (worker.position fiber).admits (worker.state fiber) = true
  numSynced : worker.num = worker.fibers.length + worker.tasks.length
  queued : ∀ fiber, fiber ∈ worker.fibers ↔ fiber ∈ worker.allFibers ∧ worker.state fiber = .queued
  queuedOnce : worker.fibers.Nodup
  waitingSynced : worker.waiting.Synced
  waiting : ∀ fiber, worker.waiting.contains fiber = true ↔
    fiber ∈ worker.allFibers ∧ worker.state fiber = .waiting
  idle : ∀ fiber, fiber ∈ worker.idleFibers ↔ fiber ∈ worker.allFibers ∧ worker.state fiber = .idle
  idleOnce : worker.idleFibers.Nodup
  blocked : worker.numBlockedFibers = worker.allFibers.countP worker.countsBlocked
  leaving : worker.current = .left → worker.shutdown = true ∧ worker.num = 0 ∧
    worker.numBlockedFibers = 0
  exiting : worker.current = .exited → worker.currentFiber = worker.mainFiber ∧
    worker.numBlockedFibers = 0
  spinning : worker.current.spins = true → worker.mode = .multiThreaded

/-- No fiber of the worker has come back from `runUntilShutdown`. -/
def NotReturned (worker : Worker φ address) : Prop :=
  ∀ fiber ∈ worker.allFibers, worker.position fiber ≠ .left ∧ worker.position fiber ≠ .exited

theorem allFibers_nodup_of_created (created : worker.workerFibers =
    (List.range worker.workerFibers.length).map fun index => ⟨worker.id, index + 1⟩) :
    worker.allFibers.Nodup := by
  rw [allFibers, created, List.nodup_cons]
  refine ⟨by simp [mainFiber], List.Nodup.map ?_ List.nodup_range⟩
  intro left right same
  simpa using same

theorem Inv.nodup (inv : worker.Inv) : worker.allFibers.Nodup :=
  allFibers_nodup_of_created inv.created

theorem initial_inv (id : WorkerId) (mode : Mode) : (initial id mode : Worker φ address).Inv where
  created := by simp [initial]
  member := by simp [initial, allFibers, mainFiber]
  parked := by
    intro fiber member
    have main : fiber = ⟨id, 0⟩ := by simpa [initial, allFibers, mainFiber] using member
    cases mode <;> simp [initial, Position.parked, main]
  admits := by
    intro fiber _
    cases mode <;> simp [initial, Position.admits, Position.suspends?]
  numSynced := by simp [initial]
  queued := by simp [initial]
  queuedOnce := by simp [initial]
  waitingSynced := WaitingFibers.synced_empty
  waiting := by simp [initial]
  idle := by simp [initial]
  idleOnce := by simp [initial]
  blocked := by simp [initial, allFibers, mainFiber, countsBlocked]
  leaving := by cases mode <;> simp [initial, current]
  exiting := by cases mode <;> simp [initial, current]
  spinning := by cases mode <;> simp [initial, current, Position.spins]

/-- The state of the current fiber follows from where its stack stands. -/
theorem Inv.currentAdmits (inv : worker.Inv) :
    worker.current.admits (worker.state worker.currentFiber) = true :=
  inv.admits _ inv.member

theorem Inv.current_running (inv : worker.Inv) (position : worker.current = p)
    (other : p ≠ .idle) (awake : p.suspends? = none) :
    worker.state worker.currentFiber = .running := by
  have admitted := inv.currentAdmits
  rw [position] at admitted
  cases p <;> simp_all [Position.admits]

theorem Inv.current_blocked (inv : worker.Inv) (position : worker.current = p)
    (other : p ≠ .idle) (suspends : p.suspends? = some code) :
    (worker.state worker.currentFiber).blocked = true := by
  have admitted := inv.currentAdmits
  rw [position] at admitted
  cases p <;> simp_all [Position.admits]

/-- The current stack moves inside the same class of positions. -/
theorem Inv.moveTo (inv : worker.Inv) (target : Position φ) (awake : target.parked = false)
    (admitted : target.admits (worker.state worker.currentFiber) = true)
    (leaving : target = .left → worker.shutdown = true ∧ worker.num = 0 ∧ worker.numBlockedFibers = 0)
    (exiting : target = .exited → worker.currentFiber = worker.mainFiber ∧ worker.numBlockedFibers = 0)
    (spinning : target.spins = true → worker.mode = .multiThreaded) : (worker.moveTo target).Inv where
  created := inv.created
  member := inv.member
  parked := by
    intro fiber member
    by_cases here : fiber = worker.currentFiber
    · subst fiber
      simp [Worker.moveTo, setPosition, awake]
    · simpa [Worker.moveTo, setPosition, here] using inv.parked fiber member
  admits := by
    intro fiber member
    by_cases here : fiber = worker.currentFiber
    · subst fiber
      simpa [Worker.moveTo, setPosition] using admitted
    · simpa [Worker.moveTo, setPosition, here] using inv.admits fiber member
  numSynced := inv.numSynced
  queued := inv.queued
  queuedOnce := inv.queuedOnce
  waitingSynced := inv.waitingSynced
  waiting := inv.waiting
  idle := inv.idle
  idleOnce := inv.idleOnce
  blocked := inv.blocked
  leaving := by simpa [Worker.moveTo, setPosition, current] using leaving
  exiting := by simpa [Worker.moveTo, setPosition, current, mainFiber] using exiting
  spinning := by simpa [Worker.moveTo, setPosition, current] using spinning

theorem Inv.withTasks (inv : worker.Inv) (tasks : List (Task φ)) (num : Nat)
    (synced : num = worker.fibers.length + tasks.length) (staying : worker.current ≠ .left) :
    ({ worker with tasks, num } : Worker φ address).Inv :=
  { inv with
    numSynced := synced
    leaving := fun left => absurd left staying }

end Worker

end MiniMarl
