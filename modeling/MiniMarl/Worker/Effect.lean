import MiniMarl.Worker.Preservation

namespace MiniMarl.Worker

open Data

variable {φ : Type} {address : Fiber ↪ Nat} {worker : Worker φ address}

/-- The steps that bring a task to a worker or take one away. -/
def Action.transfers : Action φ → Bool
  | .enqueue _ | .steal | .adopt _ => true
  | _ => false

/-- What one step does to the tasks of a worker. -/
inductive Effect (before : Worker φ address) : Action φ → Worker φ address → Prop where
  | quiet (quiet : Quiet before after) (own : action.transfers = false := by rfl) :
      Effect before action after
  | pushed (id : after.id = before.id) (mode : after.mode = before.mode)
      (tasks : after.tasks = before.tasks ++ [task])
      (history : after.history = before.history ++ [.pushed task])
      (executing : after.executing = before.executing)
      (held : after.current.held? = before.current.held?) : Effect before (.enqueue task) after
  | robbed (id : after.id = before.id) (mode : after.mode = before.mode)
      (stealable : before.mode = .multiThreaded) (foreign : task.flags = .none)
      (tasks : before.tasks = task :: after.tasks)
      (history : after.history = before.history ++ [.robbed task])
      (executing : after.executing = before.executing)
      (held : after.current.held? = before.current.held?) : Effect before .steal after
  | took (frame : Frame before after) (threaded : before.mode = .multiThreaded)
      (free : before.current.held? = none)
      (held : after.current.held? = some task) : Effect before (.adopt task) after
  | adopted (id : after.id = before.id) (mode : after.mode = before.mode)
      (threaded : before.mode = .multiThreaded)
      (tasks : after.tasks = before.tasks ++ [task])
      (history : after.history = before.history ++ [.adopted task])
      (executing : after.executing = before.executing)
      (held : before.current.held? = some task) (free : after.current.held? = none) :
      Effect before (.proceed now pick) after
  | started (id : after.id = before.id) (mode : after.mode = before.mode)
      (tasks : before.tasks = task :: after.tasks)
      (history : after.history = before.history ++ [.started task])
      (executing : after.executing.Perm (task :: before.executing))
      (free : before.current.held? = none) (stillFree : after.current.held? = none) :
      Effect before (.proceed now pick) after
  | finished (id : after.id = before.id) (mode : after.mode = before.mode)
      (tasks : after.tasks = before.tasks)
      (history : after.history = before.history ++ [.finished task])
      (executing : before.executing.Perm (task :: after.executing))
      (found : before.current = .body (.task task)) (free : after.current.held? = none) :
      Effect before .finish after

/-- How a step can end the worker's code, or leave its thread asleep. -/
structure Arrives (before : Worker φ address) (action : Action φ) (after : Worker φ address) : Prop where
  exited : after.current = .exited → before.current = .exited ∨ before.current = .left
  asleep : ∀ site deadline, after.current = .asleep site deadline → after.predicate site = false ∨
    before.current = .asleep site deadline ∧ after.numBlockedFibers = before.numBlockedFibers ∧
      (after.shutdown = before.shutdown ∨ action = .setShutdown)

theorem Arrives.busy {before after : Worker φ address} (busy : after.current.busy = true) :
    Arrives before action after := by
  constructor
  · intro gone
    rw [gone] at busy
    cases busy
  · intro site deadline asleep
    rw [asleep] at busy
    cases busy

theorem Arrives.moveTo {before middle : Worker φ address} {target : Position φ}
    (busy : target.busy = true) : Arrives before action (middle.moveTo target) :=
  .busy (by rw [current_moveTo, busy])

theorem Arrives.stays {before after : Worker φ address} (current : after.current = before.current)
    (blocked : after.numBlockedFibers = before.numBlockedFibers)
    (shutdown : after.shutdown = before.shutdown ∨ action = .setShutdown) :
    Arrives before action after :=
  ⟨fun gone => .inl (current ▸ gone), fun _ _ asleep => .inr ⟨current ▸ asleep, blocked, shutdown⟩⟩

/-- The thread goes to sleep with a predicate that it has just found false. -/
theorem Arrives.sleeps {before middle : Worker φ address} {deadline : Option TimePoint}
    (unmet : ¬middle.predicate site = true) :
    Arrives before action (middle.moveTo (.asleep site deadline)) := by
  constructor
  · simp
  · intro other _ asleep
    simp only [current_moveTo, Position.asleep.injEq] at asleep
    obtain ⟨rfl, _⟩ := asleep
    have same : (middle.moveTo (.asleep site deadline)).predicate site = middle.predicate site := by
      cases site <;> rfl
    exact .inl (same.trans (Bool.not_eq_true _ ▸ unmet))

theorem executing_moveTo (nodup : worker.allFibers.Nodup) (member : worker.currentFiber ∈ worker.allFibers)
    (target : Position φ) :
    (target.task?.toList ++ worker.executing).Perm
      (worker.current.task?.toList ++ (worker.moveTo target).executing) := by
  have changed := filterMap_change (fun fiber => (worker.position fiber).task?)
    (fun fiber => ((worker.moveTo target).position fiber).task?) nodup member
    (fun fiber _ other => by simp [Worker.moveTo, setPosition, other])
  simpa [executing, current, Worker.moveTo, setPosition, allFibers, mainFiber] using changed

/-- Once no fiber is blocked, every fiber but the current one is parked in
`runUntilIdle`. -/
theorem Inv.others_idle (inv : worker.Inv) (clear : worker.numBlockedFibers = 0)
    (member : fiber ∈ worker.allFibers) (other : fiber ≠ worker.currentFiber) :
    worker.state fiber = .idle ∧ worker.position fiber = .idle := by
  have parked := (inv.parked fiber member).mpr other
  have admitted := inv.admits fiber member
  have uncounted : (worker.state fiber).blocked = false := by
    have none := inv.blocked.symm.trans clear
    rw [List.countP_eq_zero] at none
    simpa [countsBlocked, other] using none fiber member
  cases position : worker.position fiber <;>
    simp_all [Position.parked, Position.admits, Position.suspends?]

/-- A worker after the switch of `run` back to the main fiber. Nothing is left
to do until `run` or `stop` has returned; a worker thread that is gone may
still be given tasks. -/
structure Drained (worker : Worker φ address) : Prop where
  created : worker.workerFibers =
    (List.range worker.workerFibers.length).map fun index => ⟨worker.id, index + 1⟩
  onMain : worker.currentFiber = worker.mainFiber
  returned : ∃ fiber ∈ worker.workerFibers, worker.position fiber = .left
  others : ∀ fiber ∈ worker.workerFibers, worker.position fiber = .idle ∨ worker.position fiber = .left
  noFibers : worker.fibers = []
  noBlocked : worker.numBlockedFibers = 0
  numSynced : worker.num = worker.tasks.length
  place : (worker.current = .runUntilIdle ∨ worker.current = .runUntilShutdown ∨
      worker.current = .left) ∧ worker.shutdown = true ∧ worker.tasks = [] ∨
    worker.current = .exited

/-- The switch home finds the main fiber in the idle set. -/
theorem leave_home (away : worker.currentFiber ≠ worker.mainFiber)
    (isIdle : worker.state worker.mainFiber = .idle)
    (parkedIdle : worker.position worker.mainFiber = .idle) :
    worker.leave = .ok (({ worker with currentFiber := worker.mainFiber }.setState
      worker.mainFiber .running).moveTo .runUntilIdle) := by
  simp [Worker.leave, away, Worker.switchToFiber, resumed, current, parkedIdle, changeFiberState,
    assertFiberState, isIdle, pure, Except.pure]

theorem Inv.leave (inv : worker.Inv) (found : worker.current = .left) :
    ∃ after, worker.leave = .ok after ∧ (after.Inv ∨ after.Drained) ∧ Quiet worker after ∧
      Arrives worker action after := by
  obtain ⟨shutDown, numZero, clear⟩ := inv.leaving found
  have empty := inv.numSynced
  rw [numZero] at empty
  have noFibers : worker.fibers = [] := List.length_eq_zero_iff.mp (by omega)
  have noTasks : worker.tasks = [] := List.length_eq_zero_iff.mp (by omega)
  by_cases onMain : worker.currentFiber = worker.mainFiber
  · refine ⟨worker.moveTo .exited, by simp [Worker.leave, onMain], .inl ?_, .moveTo found rfl rfl,
      fun _ => .inr found, by simp⟩
    have running := inv.current_running found (by simp) rfl
    exact inv.moveTo .exited rfl (by simp [running, Position.admits, Position.suspends?]) (by simp)
      (fun _ => ⟨onMain, clear⟩) (by simp [Position.spins])
  · obtain ⟨isIdle, parkedIdle⟩ := inv.others_idle clear (List.mem_cons_self : worker.mainFiber ∈ _)
      (Ne.symm onMain)
    let entered : Worker φ address := { worker with currentFiber := worker.mainFiber }
    refine ⟨(entered.setState worker.mainFiber .running).moveTo .runUntilIdle, ?_, .inr ?_, ?_,
      .moveTo rfl⟩
    · exact leave_home onMain isIdle parkedIdle
    · have away {fiber : Fiber} (member : fiber ∈ worker.workerFibers) : fiber ≠ worker.mainFiber := by
        have nodup := inv.nodup
        rw [allFibers, List.nodup_cons] at nodup
        rintro rfl
        exact nodup.1 member
      have currentMember : worker.currentFiber ∈ worker.workerFibers := by
        simpa [allFibers, onMain] using inv.member
      refine
        { created := inv.created
          onMain := rfl
          returned := ⟨worker.currentFiber, currentMember, ?_⟩
          others := ?_
          noFibers := noFibers
          noBlocked := clear
          numSynced := by
            change worker.num = worker.tasks.length
            rw [numZero, noTasks, List.length_nil]
          place := .inl ⟨.inl (by simp), shutDown, noTasks⟩ }
      · have still : worker.position worker.currentFiber = .left := found
        simpa [Worker.moveTo, setPosition, setState, entered, onMain] using still
      · intro fiber member
        have kept : ((entered.setState worker.mainFiber .running).moveTo .runUntilIdle).position fiber =
            worker.position fiber := by
          simp [Worker.moveTo, setPosition, setState, entered, away member]
        rw [kept]
        by_cases here : fiber = worker.currentFiber
        · exact .inr (here ▸ found)
        · exact .inl (inv.others_idle clear (List.mem_cons_of_mem _ member) here).2
    · refine ⟨⟨rfl, rfl, rfl, rfl, executing_setPosition ?_⟩, by simp [found, Position.held?]⟩
      simp [setState, entered, parkedIdle, Position.task?, Position.body?, Position.suspends?]

theorem Drained.nodup (drained : worker.Drained) : worker.allFibers.Nodup :=
  allFibers_nodup_of_created drained.created

theorem Drained.moveTo (drained : worker.Drained) {target : Position φ}
    (place : (target = .runUntilIdle ∨ target = .runUntilShutdown ∨ target = .left) ∧
      worker.shutdown = true ∧ worker.tasks = [] ∨ target = .exited) :
    (worker.moveTo target).Drained := by
  have kept {fiber : Fiber} (member : fiber ∈ worker.workerFibers) :
      (worker.moveTo target).position fiber = worker.position fiber := by
    have nodup := drained.nodup
    rw [allFibers, List.nodup_cons] at nodup
    have away : fiber ≠ worker.currentFiber := by
      rw [drained.onMain]
      rintro rfl
      exact nodup.1 member
    simp [Worker.moveTo, setPosition, away]
  obtain ⟨fiber, member, left⟩ := drained.returned
  exact
    { created := drained.created
      onMain := drained.onMain
      returned := ⟨fiber, member, (kept member).trans left⟩
      others := fun fiber member => by
        rw [kept member]
        exact drained.others fiber member
      noFibers := drained.noFibers
      noBlocked := drained.noBlocked
      numSynced := drained.numSynced
      place := by
        rw [current_moveTo]
        exact place }

theorem held?_of_entered {position : Position φ} (entered : position.entered = true) :
    position.held? = none := by
  cases position <;> first | rfl | cases entered

theorem busy_of_entered {position : Position φ} (entered : position.entered = true) :
    position.busy = true := by
  cases position <;> first | rfl | cases entered

/-- The part of `suspend` that switches away, from a stack that found work. -/
theorem Inv.suspendSwitch (inv : worker.Inv) (found : worker.current = .workFound (.suspend code))
    (pick : Fiber) :
    worker.suspendSwitch code pick = .error .disabled ∨
      ∃ after, worker.suspendSwitch code pick = .ok after ∧ after.Inv ∧ Quiet worker after ∧
        after.current.busy = true := by
  have between := inv.parkSuspended found
  have parkedFrame : Frame worker
      ({ worker with numBlockedFibers := worker.numBlockedFibers + 1 }.moveTo (.suspended code)) :=
    ⟨rfl, rfl, rfl, rfl, executing_setPosition (by
      change _ = worker.current.task?
      rw [found]
      rfl)⟩
  have held : worker.current.held? = none := by rw [found]; rfl
  cases shape : worker.fibers with
  | cons target rest =>
      obtain ⟨member, isQueued⟩ := (inv.queued target).mp (by simp [shape])
      have taken := between.takeQueued shape
      obtain ⟨after, switched, afterInv, frame, free⟩ := taken.switchToFiber member (.inl isQueued)
      refine .inr ⟨after, ?_, afterInv,
        ⟨parkedFrame.trans ?_, (held?_of_entered free).trans held.symm⟩, busy_of_entered free⟩
      · simp only [Worker.suspendSwitch, Worker.moveTo, setPosition, shape]
        rw [assertFiberState_ok (by exact isQueued)]
        exact switched
      · exact ⟨frame.id, frame.mode, frame.tasks, frame.history, frame.executing⟩
  | nil =>
      by_cases noIdle : worker.idleFibers = []
      · obtain ⟨after, switched, afterInv, frame, free⟩ := between.switchToFresh
        refine .inr ⟨after, ?_, afterInv,
          ⟨parkedFrame.trans frame, (held?_of_entered free).trans held.symm⟩, busy_of_entered free⟩
        simp only [Worker.suspendSwitch, Worker.moveTo, setPosition, shape, noIdle, ne_eq,
          not_true_eq_false, ↓reduceIte] at switched ⊢
        exact switched
      · by_cases listed : pick ∈ worker.idleFibers
        · obtain ⟨member, isIdle⟩ := (inv.idle pick).mp listed
          have taken := between.takeIdle listed
          obtain ⟨after, switched, afterInv, frame, free⟩ := taken.switchToFiber member (.inr isIdle)
          refine .inr ⟨after, ?_, afterInv,
        ⟨parkedFrame.trans ?_, (held?_of_entered free).trans held.symm⟩, busy_of_entered free⟩
          · unfold Worker.suspendSwitch
            dsimp only
            split
            · rename_i queue
              exact absurd (queue.symm.trans shape) (by simp)
            · rw [if_pos (by exact noIdle), if_pos (by exact listed),
                assertFiberState_ok (by exact isIdle)]
              exact switched
          · exact ⟨frame.id, frame.mode, frame.tasks, frame.history, frame.executing⟩
        · left
          simp [Worker.suspendSwitch, Worker.moveTo, setPosition, shape, noIdle, listed]

/-- One turn of `runUntilIdle`: its five assertions hold, and it resumes a
fiber, starts a task, or returns. -/
theorem Inv.runUntilIdle (inv : worker.Inv) (found : worker.current = .runUntilIdle)
    (now : TimePoint) (pick : Fiber) :
    ∃ after, worker.runUntilIdle = .ok after ∧ after.Inv ∧ Effect worker (.proceed now pick) after ∧
      after.current.busy = true := by
  have held : worker.current.held? = none := by rw [found]; rfl
  have runningHere := inv.current_running found (by simp) rfl
  have staying : worker.current ≠ .left := by rw [found]; simp
  cases shape : worker.fibers with
  | cons target rest =>
      obtain ⟨member, isQueued⟩ := (inv.queued target).mp (by simp [shape])
      have different : target ≠ worker.currentFiber := by
        rintro rfl
        rw [isQueued] at runningHere
        cases runningHere
      have busy : target ∉ worker.idleFibers := by
        rw [inv.idle, isQueued]
        simp
      have notIdle : worker.currentFiber ∉ worker.idleFibers := by
        rw [inv.idle, runningHere]
        simp
      have parked := inv.parkIdle found shape
      have stillQueued : Function.update worker.state worker.currentFiber Fiber.State.idle target =
          .queued := by
        rw [Function.update_of_ne different, isQueued]
      obtain ⟨after, switched, afterInv, frame, free⟩ := parked.switchToFiber member (.inl stillQueued)
      have parkedFrame : (((({ worker with
          num := worker.num - 1
          fibers := rest
          idleFibers := worker.currentFiber :: worker.idleFibers
          : Worker φ address }.setState worker.currentFiber .idle).moveTo .idle))).executing =
          worker.executing :=
        executing_setPosition (by
          change _ = worker.current.task?
          rw [found]
          rfl)
      refine ⟨after, ?_, afterInv, .quiet ⟨⟨frame.id, frame.mode, frame.tasks, frame.history,
        frame.executing.trans parkedFrame⟩, (held?_of_entered free).trans held.symm⟩,
        busy_of_entered free⟩
      simp only [Worker.runUntilIdle, shape, busy, different, notIdle, not_false_eq_true, ne_eq,
        decide_true, marlAssert_true, Except.ok_bind, assertFiberState, changeFiberState, isQueued,
        runningHere, pure, Except.pure, setState]
      exact switched
  | nil =>
      cases queue : worker.tasks with
      | nil =>
          exact ⟨worker.moveTo .runUntilShutdown, by simp only [Worker.runUntilIdle, shape, queue],
            inv.advance found rfl rfl rfl, .quiet (.advance found rfl rfl rfl rfl),
            by simp [Position.busy]⟩
      | cons task rest =>
          have counted := inv.numSynced
          rw [shape, queue] at counted
          have taskInv := (inv.withTasks rest (worker.num - 1) (by
            rw [shape, counted]
            simp) staying).unread worker.notifyAdded worker.pendingNotifies
              (worker.history ++ [.started task])
          refine ⟨_, by simp only [Worker.runUntilIdle, shape, queue]; rfl,
            taskInv.moveTo (.body (.task task)) rfl ?_ (by simp) (by simp) (by simp [Position.spins]),
            .started rfl rfl queue rfl ?_ held (by simp [Position.held?]), by simp [Position.busy]⟩
          · simpa [Position.admits, Position.suspends?] using runningHere
          · have moved := executing_moveTo taskInv.nodup taskInv.member (.body (.task task))
            have before : (worker.current.task?).toList = [] := by rw [found]; rfl
            change ([task] ++ worker.executing).Perm (worker.current.task?.toList ++ _) at moved
            rw [before] at moved
            exact moved.symm

/-- The worker's own thread, before `runUntilShutdown` has returned on the
current fiber: every assertion it meets holds, and the invariant is kept. -/
theorem Inv.proceed (inv : worker.Inv) (staying : worker.current ≠ .left) (now : TimePoint)
    (pick : Fiber) :
    worker.proceed now pick = .error .disabled ∨ ∃ after, worker.proceed now pick = .ok after ∧
      after.Inv ∧ Effect worker (.proceed now pick) after ∧ Arrives worker (.proceed now pick) after := by
  have synced : worker.assertNum = .ok () := by
    simp only [assertNum, inv.numSynced, decide_true, marlAssert_true]
  unfold Worker.proceed
  cases found : worker.current with
  | start => exact .inr ⟨_, rfl, inv.advance found rfl rfl rfl, .quiet (.advance found rfl rfl rfl rfl), .moveTo rfl⟩
  | run =>
      right
      cases mode : worker.mode with
      | multiThreaded =>
          exact ⟨worker.moveTo (.workWait .run), by simp only [Worker.run, mode], inv.advance found rfl rfl rfl,
            .quiet (.advance found rfl rfl rfl rfl), .moveTo rfl⟩
      | singleThreaded =>
          have runningHere := inv.current_running found (by simp) rfl
          exact ⟨worker.moveTo .runUntilShutdown,
            by simp only [Worker.run, mode, assertFiberState_ok runningHere]; rfl,
            inv.advance found rfl rfl rfl, .quiet (.advance found rfl rfl rfl rfl), .moveTo rfl⟩
  | runUntilShutdown =>
      right
      refine ⟨_, rfl, ?_⟩
      unfold Worker.runUntilShutdown
      split
      · exact ⟨inv.advance found rfl rfl rfl, .quiet (.advance found rfl rfl rfl rfl), .moveTo rfl⟩
      · rename_i finished
        have runningHere := inv.current_running found (by simp) rfl
        simp only [gt_iff_lt, Bool.or_eq_true, Bool.not_eq_eq_eq_not, Bool.not_true, decide_eq_true_eq,
          not_or, Bool.not_eq_false, Nat.not_lt, Nat.le_zero_eq] at finished
        exact ⟨inv.moveTo .left rfl (by simp [runningHere, Position.admits, Position.suspends?])
          (fun _ => ⟨finished.1.1, finished.1.2, finished.2⟩) (by simp) (by simp [Position.spins]),
          .quiet (.moveTo found rfl rfl), .moveTo rfl⟩
  | waitForWork caller =>
      right
      simp only [Worker.waitForWork, synced, Except.ok_bind]
      split
      · exact ⟨_, rfl, inv.advance found rfl rfl rfl, .quiet (.advance found rfl rfl rfl rfl), .moveTo rfl⟩
      · cases mode : worker.mode with
        | multiThreaded =>
            exact ⟨_, rfl, inv.advance found rfl rfl rfl (fun _ => .inr mode), .quiet (.advance found rfl rfl rfl rfl), .moveTo rfl⟩
        | singleThreaded =>
            exact ⟨_, rfl, inv.advance found rfl rfl rfl, .quiet (.advance found rfl rfl rfl rfl), .moveTo rfl⟩
  | spinForWork caller =>
      exact .inr ⟨_, rfl, inv.advance found rfl rfl rfl, .quiet (.advance found rfl rfl rfl rfl), .moveTo rfl⟩
  | stolen caller task =>
      right
      have counted := inv.numSynced
      have taskInv := (inv.withTasks (worker.tasks ++ [task]) (worker.num + 1) (by
        rw [counted, List.length_append]
        simp
        omega) staying).unread worker.notifyAdded worker.pendingNotifies
          (worker.history ++ [.adopted task])
      refine ⟨_, rfl, taskInv.advance found rfl rfl rfl,
        .adopted rfl rfl (inv.spinning (by rw [found]; rfl)) rfl rfl (executing_setPosition ?_) (by rw [found]; rfl)
          (by simp [Position.held?]), .moveTo rfl⟩
      change _ = worker.current.task?
      rw [found]
      rfl
  | spun caller =>
      exact .inr ⟨_, rfl, inv.advance found rfl rfl rfl, .quiet (.advance found rfl rfl rfl rfl), .moveTo rfl⟩
  | workWait site =>
      right
      have unread := inv.unread true worker.pendingNotifies worker.history
      have quiet : Quiet worker { worker with notifyAdded := true } := ⟨⟨rfl, rfl, rfl, rfl, rfl⟩, rfl⟩
      obtain ⟨deadline, read⟩ : ∃ deadline,
          ({ worker with notifyAdded := true } : Worker φ address).deadline = .ok deadline := by
        unfold Worker.deadline
        split
        · rename_i filled
          obtain ⟨first, _, next⟩ := inv.waitingSynced.next_ok filled
          exact ⟨some first.timepoint, by simp [next, aborting]⟩
        · exact ⟨none, rfl⟩
      simp only [Worker.workWait, read, Except.ok_bind]
      split
      · obtain ⟨after, done, afterInv, returned, busy⟩ := unread.workWaitDone found rfl rfl rfl now
        exact ⟨after, done, afterInv, .quiet (quiet.trans returned), .busy busy⟩
      · rename_i unmet
        have here : ({ worker with notifyAdded := true } : Worker φ address).current = .workWait site := found
        have sleeps : Quiet ({ worker with notifyAdded := true } : Worker φ address)
            ({ worker with notifyAdded := true }.moveTo (.asleep site deadline)) :=
          .advance here rfl rfl rfl rfl
        exact ⟨_, rfl, unread.advance found rfl rfl rfl, .quiet (quiet.trans sleeps), .sleeps unmet⟩
  | awoken site deadline timedOut =>
      right
      simp only [Worker.reacquire]
      split
      · obtain ⟨after, done, afterInv, quiet, busy⟩ := inv.workWaitDone found rfl rfl rfl now
        exact ⟨after, done, afterInv, .quiet quiet, .busy busy⟩
      · rename_i unmet
        rw [Bool.or_eq_true, not_or] at unmet
        exact ⟨_, rfl, inv.advance found rfl rfl rfl, .quiet (.advance found rfl rfl rfl rfl),
          .sleeps unmet.1⟩
  | workFound caller =>
      cases caller with
      | runUntilShutdown =>
          right
          have runningHere := inv.current_running found (by simp) rfl
          exact ⟨worker.moveTo .runUntilIdle,
            by simp only [assertFiberState_ok runningHere, synced, Except.ok_bind]; rfl,
            inv.advance found rfl rfl rfl, .quiet (.advance found rfl rfl rfl rfl), .moveTo rfl⟩
      | suspend code =>
          rcases inv.suspendSwitch found pick with disabled | ⟨after, switched, afterInv, quiet, busy⟩
          · exact .inl disabled
          · exact .inr ⟨after, switched, afterInv, .quiet quiet, .busy busy⟩
  | runUntilIdle =>
      obtain ⟨after, done, afterInv, effect, busy⟩ := inv.runUntilIdle found now pick
      exact .inr ⟨after, done, afterInv, effect, .busy busy⟩
  | left => exact absurd found staying
  | asleep site deadline => exact .inl rfl
  | idle => exact .inl rfl
  | body code => exact .inl rfl
  | suspended code => exact .inl rfl
  | exited => exact .inl rfl

end MiniMarl.Worker
