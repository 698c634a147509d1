import MiniMarl.Worker.Switching

namespace MiniMarl.Worker

open Data

variable {φ : Type} {address : Fiber ↪ Nat} {worker : Worker φ address}

theorem admits_eq {position : Position φ} (runs : position ≠ .idle) (state : Fiber.State) :
    position.admits state = if position.suspends?.isSome then state.blocked else decide (state = .running) := by
  cases position with
  | idle => exact absurd rfl runs
  | _ => rfl

theorem admits_congr {source target : Position φ} {state : Fiber.State} (sourceRuns : source ≠ .idle)
    (targetRuns : target ≠ .idle) (same : target.suspends? = source.suspends?)
    (admitted : source.admits state = true) : target.admits state = true := by
  rw [admits_eq targetRuns, same, ← admits_eq sourceRuns]
  exact admitted

theorem admits_blocked {position : Position φ} {before after : Fiber.State}
    (admitted : position.admits before = true) (beforeBlocked : before.blocked = true)
    (afterBlocked : after.blocked = true) : position.admits after = true := by
  have unlike : before ≠ .idle ∧ before ≠ .running := by
    cases before <;> simp_all [Fiber.State.blocked]
  cases position <;> simp_all [Position.admits]

/-- The current stack moves on inside the worker's own code, without entering
or leaving a suspension. -/
theorem Inv.advance (inv : worker.Inv) (found : worker.current = source) {target : Position φ}
    (sourceLoops : source.loops = true) (targetLoops : target.loops = true)
    (same : target.suspends? = source.suspends?)
    (entering : target.spins = true → source.spins = true ∨ worker.mode = .multiThreaded := by
      simp [Position.spins]) : (worker.moveTo target).Inv := by
  have admitted : target.admits (worker.state worker.currentFiber) = true := by
    refine admits_congr ?_ ?_ same (found ▸ inv.currentAdmits)
    · rintro rfl
      cases sourceLoops
    · rintro rfl
      cases targetLoops
  have awake : target.parked = false := by cases target <;> first | rfl | cases targetLoops
  refine inv.moveTo target awake admitted ?_ ?_ ?_
  · rintro rfl
    cases targetLoops
  · rintro rfl
    cases targetLoops
  · intro spins
    rcases entering spins with spun | threaded
    · exact inv.spinning (found ▸ spun)
    · exact threaded

theorem task?_of_loops {position : Position φ} (loops : position.loops = true) :
    position.task? = match position.suspends? with
      | some (.task task) => some task
      | _ => none := by
  cases position <;> first | rfl | cases loops

/-- What a step that moves no task leaves alone. -/
structure Quiet (before after : Worker φ address) : Prop extends Frame before after where
  held : after.current.held? = before.current.held?

theorem Quiet.refl (worker : Worker φ address) : Quiet worker worker :=
  ⟨.refl worker, rfl⟩

theorem Quiet.trans {before middle after : Worker φ address} (first : Quiet before middle)
    (second : Quiet middle after) : Quiet before after :=
  ⟨first.toFrame.trans second.toFrame, second.held.trans first.held⟩

@[simp] theorem current_moveTo (target : Position φ) : (worker.moveTo target).current = target := by
  simp [current, Worker.moveTo, setPosition]

theorem Quiet.moveTo (found : worker.current = source) {target : Position φ}
    (same : target.task? = source.task?) (held : target.held? = source.held?) :
    Quiet worker (worker.moveTo target) :=
  ⟨Frame.moveTo (by rw [same, found]), by simp [held, found]⟩

theorem Quiet.advance (found : worker.current = source) {target : Position φ}
    (sourceLoops : source.loops = true) (targetLoops : target.loops = true)
    (same : target.suspends? = source.suspends?) (held : target.held? = source.held?) :
    Quiet worker (worker.moveTo target) :=
  .moveTo found (by rw [task?_of_loops targetLoops, task?_of_loops sourceLoops, same]) held

theorem Inv.unread (inv : worker.Inv) (notifyAdded : Bool) (pendingNotifies : Nat)
    (history : List (TaskEvent φ)) :
    ({ worker with notifyAdded, pendingNotifies, history } : Worker φ address).Inv :=
  { inv with }

theorem Inv.shutDown (inv : worker.Inv) : ({ worker with shutdown := true } : Worker φ address).Inv :=
  { inv with leaving := fun left => ⟨rfl, (inv.leaving left).2⟩ }

/-- A blocked fiber that is not queued yet joins the queue, leaving the set of
waiting fibers if it is there. -/
theorem Inv.queueFiber (inv : worker.Inv) (member : fiber ∈ worker.allFibers)
    (isBlocked : (worker.state fiber).blocked = true) (unqueued : worker.state fiber ≠ .queued)
    {waiting : WaitingFibers address} (synced : waiting.Synced)
    (lists : ∀ other, waiting.contains other = true ↔
      other ≠ fiber ∧ worker.waiting.contains other = true)
    (staying : worker.current ≠ .left) :
    ({ worker with
      waiting
      fibers := worker.fibers ++ [fiber]
      num := worker.num + 1 : Worker φ address }.setState fiber .queued).Inv := by
  have absent : fiber ∉ worker.fibers := fun listed => unqueued ((inv.queued fiber).mp listed).2
  refine
    { created := inv.created
      member := inv.member
      parked := inv.parked
      admits := ?_
      numSynced := ?_
      queued := ?_
      queuedOnce := ?_
      waitingSynced := synced
      waiting := ?_
      idle := ?_
      idleOnce := inv.idleOnce
      blocked := ?_
      leaving := fun left => absurd left staying
      exiting := inv.exiting
      spinning := inv.spinning }
  · intro other inside
    have admitted := inv.admits other inside
    by_cases here : other = fiber
    · subst other
      simpa only [setState, Function.update_self] using admits_blocked admitted isBlocked rfl
    · simpa [setState, here] using admitted
  · have counted := inv.numSynced
    simp only [setState, List.length_append, List.length_cons, List.length_nil]
    omega
  · intro other
    by_cases here : other = fiber
    · simpa [setState, here, allFibers, mainFiber] using member
    · simpa [setState, here, allFibers, mainFiber] using inv.queued other
  · exact List.nodup_append.mpr ⟨inv.queuedOnce, by simp, by
      rintro other listed same (alone : same ∈ [fiber]) rfl
      exact absent (List.mem_singleton.mp alone ▸ listed)⟩
  · intro other
    by_cases here : other = fiber
    · simp [setState, here, lists]
    · simpa [setState, here, lists, allFibers, mainFiber] using inv.waiting other
  · intro other
    by_cases here : other = fiber
    · have unlisted : fiber ∉ worker.idleFibers := by
        rw [inv.idle]
        rintro ⟨_, isIdle⟩
        simp [isIdle, Fiber.State.blocked] at isBlocked
      simp [setState, here, unlisted]
    · simpa [setState, here, allFibers, mainFiber] using inv.idle other
  · change worker.numBlockedFibers = _
    rw [inv.blocked]
    apply List.countP_congr
    intro other _
    by_cases here : other = fiber
    · have queuedBlocked : Fiber.State.queued.blocked = true := rfl
      simp [countsBlocked, setState, here, isBlocked, queuedBlocked]
    · simp [countsBlocked, setState, here]

theorem Inv.suspendCurrent (inv : worker.Inv) (found : worker.current = .body code)
    {state : Fiber.State} (chosen : state = .yielded ∨ state = .waiting)
    {waiting : WaitingFibers address} (synced : waiting.Synced)
    (lists : ∀ other, waiting.contains other = true ↔
      other = worker.currentFiber ∧ state = .waiting ∨ worker.waiting.contains other = true) :
    (({ worker with waiting : Worker φ address }.setState worker.currentFiber state).moveTo
      (.waitForWork (.suspend code))).Inv := by
  have runningHere := inv.current_running found (by simp) rfl
  have isBlocked : state.blocked = true := by rcases chosen with rfl | rfl <;> rfl
  refine
    { created := inv.created
      member := inv.member
      parked := ?_
      admits := ?_
      numSynced := inv.numSynced
      queued := ?_
      queuedOnce := inv.queuedOnce
      waitingSynced := synced
      waiting := ?_
      idle := ?_
      idleOnce := inv.idleOnce
      blocked := ?_
      leaving := by simp [current, Worker.moveTo, setPosition, setState]
      exiting := by simp [current, Worker.moveTo, setPosition, setState]
      spinning := by simp [current, Worker.moveTo, setPosition, setState, Position.spins] }
  · intro fiber member
    by_cases here : fiber = worker.currentFiber
    · simp [Worker.moveTo, setPosition, setState, here, Position.parked]
    · simpa [Worker.moveTo, setPosition, setState, here] using inv.parked fiber member
  · intro fiber member
    by_cases here : fiber = worker.currentFiber
    · simpa [Worker.moveTo, setPosition, setState, here, Position.admits, Position.suspends?,
        Caller.body?] using isBlocked
    · simpa [Worker.moveTo, setPosition, setState, here] using inv.admits fiber member
  · intro fiber
    have listed := inv.queued fiber
    by_cases here : fiber = worker.currentFiber
    · rw [here, runningHere] at listed
      have unqueued : state ≠ .queued := by rcases chosen with rfl | rfl <;> simp
      simpa [Worker.moveTo, setPosition, setState, here, unqueued] using listed
    · simpa [Worker.moveTo, setPosition, setState, here, allFibers, mainFiber] using listed
  · intro fiber
    have listed := inv.waiting fiber
    by_cases here : fiber = worker.currentFiber
    · rw [here, runningHere] at listed
      have member := inv.member
      rcases chosen with rfl | rfl <;>
        simp_all [Worker.moveTo, setPosition, setState, allFibers, mainFiber]
    · simpa [Worker.moveTo, setPosition, setState, here, lists, allFibers, mainFiber] using listed
  · intro fiber
    have listed := inv.idle fiber
    by_cases here : fiber = worker.currentFiber
    · rw [here, runningHere] at listed
      have busy : state ≠ .idle := by rcases chosen with rfl | rfl <;> simp
      simpa [Worker.moveTo, setPosition, setState, here, busy] using listed
    · simpa [Worker.moveTo, setPosition, setState, here, allFibers, mainFiber] using listed
  · change worker.numBlockedFibers = _
    rw [inv.blocked]
    apply List.countP_congr
    intro fiber _
    by_cases here : fiber = worker.currentFiber <;>
      simp [countsBlocked, Worker.moveTo, setPosition, setState, here]

/-- The fibers whose deadline has passed join the queue one after the other,
and nothing but their states changes. -/
theorem Inv.enqueueFiberTimeoutsLoop (inv : worker.Inv) (staying : worker.current ≠ .left)
    (now : TimePoint) (turns : Nat) :
    ∃ after, enqueueFiberTimeoutsLoop now turns worker = .ok after ∧ after.Inv ∧
      Frame worker after ∧ after.currentFiber = worker.currentFiber ∧ after.current = worker.current := by
  induction turns generalizing worker with
  | zero => exact ⟨worker, rfl, inv, .refl worker, rfl, rfl⟩
  | succ turns ih =>
      rcases inv.waitingSynced.take_ok now with ⟨future, _⟩ |
        ⟨first, rest, waiting, _, _, taken, synced, found, _, lookups⟩
      · exact ⟨worker, by simp [Worker.enqueueFiberTimeoutsLoop, future, aborting, pure, Except.pure],
          inv, .refl worker, rfl, rfl⟩
      · obtain ⟨member, isWaiting⟩ :=
          (inv.waiting first.fiber).mp (WaitingFibers.contains_iff.mpr ⟨_, found⟩)
        have lists : ∀ other, waiting.contains other = true ↔
            other ≠ first.fiber ∧ worker.waiting.contains other = true := by
          intro other
          rw [WaitingFibers.contains_iff, WaitingFibers.contains_iff, lookups]
          by_cases here : other = first.fiber <;> simp [here]
        have queuedInv := inv.queueFiber member (by simp [isWaiting, Fiber.State.blocked])
          (by simp [isWaiting]) synced lists staying
        obtain ⟨after, looped, afterInv, frame, sameFiber, sameCurrent⟩ := ih queuedInv staying
        refine ⟨after, ?_, afterInv,
          ⟨frame.id, frame.mode, frame.tasks, frame.history, frame.executing⟩, sameFiber, sameCurrent⟩
        simpa [Worker.enqueueFiberTimeoutsLoop, taken, aborting, changeFiberState, assertFiberState,
          isWaiting, pure, Except.pure, setState] using looped

/-- `Work::wait` returns to `run` or to `waitForWork`, whose assertions hold. -/
theorem Inv.workWaitDone (inv : worker.Inv) {source : Position φ} (found : worker.current = source)
    (sourceLoops : source.loops = true) (same : source.suspends? = site.body?)
    (free : source.held? = none) (now : TimePoint) :
    ∃ after, worker.workWaitDone site now = .ok after ∧ after.Inv ∧ Quiet worker after ∧
      after.current.busy = true := by
  have unread := inv.unread false worker.pendingNotifies worker.history
  have staying : worker.current ≠ .left := by
    rw [found]
    rintro rfl
    cases sourceLoops
  have quiet : Quiet worker { worker with notifyAdded := false } := ⟨⟨rfl, rfl, rfl, rfl, rfl⟩, rfl⟩
  cases site with
  | run =>
      have runningHere : worker.state worker.currentFiber = .running := by
        refine inv.current_running found ?_ same
        rintro rfl
        cases sourceLoops
      let unnotified : Worker φ address := { worker with notifyAdded := false }
      have returns : Quiet unnotified (unnotified.moveTo .runUntilShutdown) :=
        .advance (by exact found) sourceLoops rfl (by rw [same]; rfl) (by rw [free]; rfl)
      refine ⟨unnotified.moveTo .runUntilShutdown, ?_, unread.advance (by exact found) sourceLoops rfl ?_,
        quiet.trans returns, by simp [Position.busy]⟩
      · simp [Worker.workWaitDone, assertFiberState, runningHere, pure, Except.pure, unnotified]
      · rw [same]
        rfl
  | waitForWork caller =>
      obtain ⟨after, timeouts, afterInv, frame, sameFiber, sameCurrent⟩ :
          ∃ after, ({ worker with notifyAdded := false } : Worker φ address).expireWaiting now = .ok after ∧
            after.Inv ∧ Frame worker after ∧ after.currentFiber = worker.currentFiber ∧
            after.current = worker.current := by
        unfold expireWaiting
        split
        · obtain ⟨after, looped, afterInv, frame, rest⟩ :=
            unread.enqueueFiberTimeoutsLoop staying now (worker.waiting.timeouts.elements.length + 1)
          exact ⟨after, looped, afterInv, quiet.toFrame.trans frame, rest⟩
        · exact ⟨_, rfl, unread, quiet.toFrame, rfl, rfl⟩
      have afterFound : after.current = source := sameCurrent.trans found
      refine ⟨after.moveTo (.workFound caller), ?_,
        afterInv.advance afterFound sourceLoops rfl (by rw [same]; rfl), ?_, by simp [Position.busy]⟩
      · simp only [Worker.workWaitDone, timeouts]
        rfl
      · refine Quiet.trans ⟨frame, by rw [sameCurrent]⟩ (.advance afterFound sourceLoops rfl ?_ ?_)
        · rw [same]
          rfl
        · rw [free]
          rfl

end MiniMarl.Worker
