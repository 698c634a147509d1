import MiniMarl.Worker.Invariant

namespace MiniMarl.Worker

open Data

variable {φ : Type} {address : Fiber ↪ Nat} {worker : Worker φ address}

/-- A worker between two stacks: the old current fiber is parked, and `taken`
has left its container without being resumed yet. -/
structure Between (worker : Worker φ address) (taken : Option Fiber) : Prop where
  created : worker.workerFibers =
    (List.range worker.workerFibers.length).map fun index => ⟨worker.id, index + 1⟩
  parked : ∀ fiber ∈ worker.allFibers, (worker.position fiber).parked = true
  admits : ∀ fiber ∈ worker.allFibers, (worker.position fiber).admits (worker.state fiber) = true
  numSynced : worker.num = worker.fibers.length + worker.tasks.length
  queued : ∀ fiber, fiber ∈ worker.fibers ↔
    fiber ∈ worker.allFibers ∧ worker.state fiber = .queued ∧ taken ≠ some fiber
  queuedOnce : worker.fibers.Nodup
  waitingSynced : worker.waiting.Synced
  waiting : ∀ fiber, worker.waiting.contains fiber = true ↔
    fiber ∈ worker.allFibers ∧ worker.state fiber = .waiting
  idle : ∀ fiber, fiber ∈ worker.idleFibers ↔
    fiber ∈ worker.allFibers ∧ worker.state fiber = .idle ∧ taken ≠ some fiber
  idleOnce : worker.idleFibers.Nodup
  blocked : worker.numBlockedFibers =
    worker.allFibers.countP fun fiber => (worker.state fiber).blocked

/-- `suspend` parks the current fiber after counting it as blocked. -/
theorem Inv.parkSuspended (inv : worker.Inv) (found : worker.current = .workFound (.suspend code)) :
    Between ({ worker with numBlockedFibers := worker.numBlockedFibers + 1 }.moveTo (.suspended code))
      none := by
  have blockedHere := inv.current_blocked found (by simp) rfl
  refine
    { created := inv.created
      parked := ?_
      admits := ?_
      numSynced := inv.numSynced
      queued := by simpa [Worker.moveTo, setPosition, allFibers, mainFiber] using inv.queued
      queuedOnce := inv.queuedOnce
      waitingSynced := inv.waitingSynced
      waiting := inv.waiting
      idle := by simpa [Worker.moveTo, setPosition, allFibers, mainFiber] using inv.idle
      idleOnce := inv.idleOnce
      blocked := ?_ }
  · intro fiber member
    by_cases here : fiber = worker.currentFiber
    · simp [Worker.moveTo, setPosition, here, Position.parked]
    · simpa [Worker.moveTo, setPosition, here] using (inv.parked fiber member).mpr here
  · intro fiber member
    by_cases here : fiber = worker.currentFiber
    · simpa [Worker.moveTo, setPosition, here, Position.admits, Position.suspends?] using blockedHere
    · simpa [Worker.moveTo, setPosition, here] using inv.admits fiber member
  · have counted := countP_change worker.countsBlocked
      (fun fiber => (worker.state fiber).blocked) inv.nodup inv.member
      (fun fiber _ other => by simp [countsBlocked, other])
    simp only [blockedHere, Bool.toNat_true, countsBlocked, ne_eq, not_true_eq_false, false_and,
      decide_false, Bool.toNat_false, Nat.add_zero] at counted
    change worker.numBlockedFibers + 1 = _
    rw [inv.blocked]
    exact counted

theorem Between.takeQueued (between : Between worker none) (shape : worker.fibers = target :: rest) :
    Between ({ worker with num := worker.num - 1, fibers := rest } : Worker φ address) (some target) := by
  have once := between.queuedOnce
  rw [shape, List.nodup_cons] at once
  have isQueued := ((between.queued target).mp (by simp [shape])).2.1
  refine
    { between with
      numSynced := ?_
      queued := ?_
      queuedOnce := once.2
      idle := ?_ }
  · have synced := between.numSynced
    rw [shape, List.length_cons] at synced
    change worker.num - 1 = rest.length + worker.tasks.length
    omega
  · intro fiber
    have listed := between.queued fiber
    rw [shape, List.mem_cons] at listed
    by_cases same : fiber = target
    · subst fiber
      simpa using once.1
    · simpa [same, Ne.symm same, allFibers, mainFiber] using listed
  · intro fiber
    rw [between.idle fiber]
    constructor
    · rintro ⟨member, isIdle, _⟩
      refine ⟨member, isIdle, ?_⟩
      rintro ⟨rfl⟩
      rw [isQueued] at isIdle
      cases isIdle
    · rintro ⟨member, isIdle, _⟩
      exact ⟨member, isIdle, by simp⟩

theorem Between.takeIdle (between : Between worker none) (member : pick ∈ worker.idleFibers) :
    Between ({ worker with idleFibers := worker.idleFibers.erase pick } : Worker φ address)
      (some pick) := by
  have isIdle := ((between.idle pick).mp member).2.1
  refine
    { between with
      queued := ?_
      idle := ?_
      idleOnce := between.idleOnce.erase pick }
  · intro fiber
    rw [between.queued fiber]
    constructor
    · rintro ⟨inside, isQueued, _⟩
      refine ⟨inside, isQueued, ?_⟩
      rintro ⟨rfl⟩
      rw [isQueued] at isIdle
      cases isIdle
    · rintro ⟨inside, isQueued, _⟩
      exact ⟨inside, isQueued, by simp⟩
  · intro fiber
    rw [between.idleOnce.mem_erase_iff, between.idle fiber]
    constructor
    · rintro ⟨other, inside, found, _⟩
      exact ⟨inside, found, by simpa using Ne.symm other⟩
    · rintro ⟨inside, found, other⟩
      exact ⟨fun same => other (by rw [same]), inside, found, by simp⟩

/-- `runUntilIdle` takes the next queued fiber and parks the current one in
the idle set. -/
theorem Inv.parkIdle (inv : worker.Inv) (found : worker.current = .runUntilIdle)
    (shape : worker.fibers = target :: rest) :
    Between ((({ worker with
      num := worker.num - 1
      fibers := rest
      idleFibers := worker.currentFiber :: worker.idleFibers
      : Worker φ address }.setState worker.currentFiber .idle).moveTo .idle)) (some target) := by
  have once := inv.queuedOnce
  rw [shape, List.nodup_cons] at once
  have runningHere := inv.current_running found (by simp) rfl
  obtain ⟨targetMember, isQueued⟩ := (inv.queued target).mp (by simp [shape])
  have different : target ≠ worker.currentFiber := by
    rintro rfl
    rw [isQueued] at runningHere
    cases runningHere
  refine
    { created := inv.created
      parked := ?_
      admits := ?_
      numSynced := ?_
      queued := ?_
      queuedOnce := once.2
      waitingSynced := inv.waitingSynced
      waiting := ?_
      idle := ?_
      idleOnce := ?_
      blocked := ?_ }
  · intro fiber member
    by_cases here : fiber = worker.currentFiber
    · simp [Worker.moveTo, setPosition, setState, here, Position.parked]
    · simpa [Worker.moveTo, setPosition, setState, here] using (inv.parked fiber member).mpr here
  · intro fiber member
    by_cases here : fiber = worker.currentFiber
    · simp [Worker.moveTo, setPosition, setState, here, Position.admits]
    · simpa [Worker.moveTo, setPosition, setState, here] using inv.admits fiber member
  · have synced := inv.numSynced
    rw [shape, List.length_cons] at synced
    change worker.num - 1 = rest.length + worker.tasks.length
    omega
  · intro fiber
    have listed := inv.queued fiber
    rw [shape, List.mem_cons] at listed
    by_cases here : fiber = worker.currentFiber
    · have unlisted : fiber ∉ rest := by
        intro inside
        have queuedHere := (listed.mp (.inr inside)).2
        rw [here, runningHere] at queuedHere
        cases queuedHere
      simp [Worker.moveTo, setPosition, setState, here ▸ unlisted, here]
    · by_cases same : fiber = target
      · subst fiber
        simpa [Worker.moveTo, setPosition, setState] using once.1
      · simpa [Worker.moveTo, setPosition, setState, here, same, Ne.symm same, allFibers, mainFiber]
          using listed
  · intro fiber
    by_cases here : fiber = worker.currentFiber
    · have unlisted : worker.waiting.contains fiber = false := by
        rw [← Bool.not_eq_true, inv.waiting, here, runningHere]
        simp
      simp [Worker.moveTo, setPosition, setState, here, here ▸ unlisted]
    · simpa [Worker.moveTo, setPosition, setState, here, allFibers, mainFiber] using inv.waiting fiber
  · intro fiber
    by_cases here : fiber = worker.currentFiber
    · simpa [Worker.moveTo, setPosition, setState, here, different, allFibers, mainFiber] using inv.member
    · have listed := inv.idle fiber
      by_cases same : fiber = target
      · have unlisted : target ∉ worker.idleFibers := by
          rw [inv.idle, isQueued]
          simp
        simp [Worker.moveTo, setPosition, setState, same, different, unlisted]
      · simpa [Worker.moveTo, setPosition, setState, here, Ne.symm same, allFibers, mainFiber] using listed
  · refine List.nodup_cons.mpr ⟨?_, inv.idleOnce⟩
    rw [inv.idle, runningHere]
    simp
  · change worker.numBlockedFibers = _
    rw [inv.blocked]
    apply List.countP_congr
    intro fiber _
    by_cases here : fiber = worker.currentFiber
    · simp [countsBlocked, Worker.moveTo, setPosition, setState, here, Fiber.State.blocked]
    · simp [countsBlocked, Worker.moveTo, setPosition, setState, here]

/-- What a change of stacks leaves alone. -/
structure Frame (before after : Worker φ address) : Prop where
  id : after.id = before.id
  mode : after.mode = before.mode
  tasks : after.tasks = before.tasks
  history : after.history = before.history
  executing : after.executing = before.executing

theorem Frame.refl (worker : Worker φ address) : Frame worker worker := ⟨rfl, rfl, rfl, rfl, rfl⟩

theorem Frame.trans {before middle after : Worker φ address} (first : Frame before middle)
    (second : Frame middle after) : Frame before after :=
  ⟨second.id.trans first.id, second.mode.trans first.mode, second.tasks.trans first.tasks,
    second.history.trans first.history, second.executing.trans first.executing⟩

theorem executing_setPosition {fiber : Fiber} {position : Position φ}
    (same : position.task? = (worker.position fiber).task?) :
    (worker.setPosition fiber position).executing = worker.executing := by
  apply List.filterMap_congr
  intro other _
  by_cases here : other = fiber
  · simp [setPosition, here, same]
  · simp [setPosition, here]

theorem Frame.moveTo {position : Position φ} (same : position.task? = worker.current.task?) :
    Frame worker (worker.moveTo position) :=
  ⟨rfl, rfl, rfl, rfl, executing_setPosition same⟩

theorem Between.nodup {taken : Option Fiber} (between : Between worker taken) :
    worker.allFibers.Nodup :=
  allFibers_nodup_of_created between.created

theorem Between.suspended_of_queued {taken : Option Fiber} (between : Between worker taken)
    (member : fiber ∈ worker.allFibers) (isQueued : worker.state fiber = .queued) :
    ∃ code, worker.position fiber = .suspended code := by
  have parked := between.parked fiber member
  have admitted := between.admits fiber member
  rw [isQueued] at admitted
  cases position : worker.position fiber <;> simp_all [Position.parked, Position.admits]

theorem Between.idle_of_idle {taken : Option Fiber} (between : Between worker taken)
    (member : fiber ∈ worker.allFibers) (isIdle : worker.state fiber = .idle) :
    worker.position fiber = .idle := by
  have parked := between.parked fiber member
  have admitted := between.admits fiber member
  rw [isIdle] at admitted
  cases position : worker.position fiber <;>
    simp_all [Position.parked, Position.admits, Position.suspends?, Fiber.State.blocked]

theorem Between.enter {target : Fiber} (between : Between worker (some target))
    (member : target ∈ worker.allFibers) (position : Position φ) (numBlocked : Nat)
    (awake : position.parked = false) (runs : position.admits .running = true)
    (stays : position ≠ .left ∧ position ≠ .exited) (still : position.spins = false)
    (left : worker.state target = .queued ∨ worker.state target = .idle)
    (counted : numBlocked + (worker.state target).blocked.toNat = worker.numBlockedFibers) :
    ((({ worker with currentFiber := target, numBlockedFibers := numBlocked : Worker φ address
      }.setState target .running).moveTo position)).Inv := by
  refine
    { created := between.created
      member := member
      parked := ?_
      admits := ?_
      numSynced := between.numSynced
      queued := ?_
      queuedOnce := between.queuedOnce
      waitingSynced := between.waitingSynced
      waiting := ?_
      idle := ?_
      idleOnce := between.idleOnce
      blocked := ?_
      leaving := ?_
      exiting := ?_
      spinning := ?_ }
  · intro fiber inside
    by_cases here : fiber = target
    · simp [Worker.moveTo, setPosition, setState, here, awake]
    · simpa [Worker.moveTo, setPosition, setState, here] using between.parked fiber inside
  · intro fiber inside
    by_cases here : fiber = target
    · simpa [Worker.moveTo, setPosition, setState, here] using runs
    · simpa [Worker.moveTo, setPosition, setState, here] using between.admits fiber inside
  · intro fiber
    by_cases here : fiber = target
    · simpa [Worker.moveTo, setPosition, setState, here] using between.queued target
    · simpa [Worker.moveTo, setPosition, setState, here, Ne.symm here, allFibers, mainFiber]
        using between.queued fiber
  · intro fiber
    by_cases here : fiber = target
    · have unlisted : worker.waiting.contains target = false := by
        rw [← Bool.not_eq_true, between.waiting]
        rcases left with found | found <;> simp [found]
      simp [Worker.moveTo, setPosition, setState, here, unlisted]
    · simpa [Worker.moveTo, setPosition, setState, here, allFibers, mainFiber] using between.waiting fiber
  · intro fiber
    by_cases here : fiber = target
    · simpa [Worker.moveTo, setPosition, setState, here] using between.idle target
    · simpa [Worker.moveTo, setPosition, setState, here, Ne.symm here, allFibers, mainFiber]
        using between.idle fiber
  · have changed := countP_change (fun fiber => (worker.state fiber).blocked)
      (fun fiber => !decide (fiber = target) && (worker.state fiber).blocked)
      between.nodup member (fun fiber _ other => by simp [other])
    simp only [decide_true, Bool.not_true, Bool.false_and, Bool.toNat_false,
      Nat.add_zero, ← between.blocked] at changed
    have recounted : worker.allFibers.countP (fun fiber =>
        !decide (fiber = target) && (worker.state fiber).blocked) = numBlocked := by omega
    change numBlocked = _
    rw [← recounted]
    apply List.countP_congr
    intro fiber _
    by_cases here : fiber = target <;>
      simp [countsBlocked, Worker.moveTo, setPosition, setState, here]
  · simp [Worker.moveTo, setPosition, setState, current, stays.1]
  · simp [Worker.moveTo, setPosition, setState, current, stays.2]
  · simp [Worker.moveTo, setPosition, setState, current, still]

/-- The switch to a fiber just taken from the queue or from the idle set
passes its assertion and ends with that fiber running. -/
theorem Between.switchToFiber {target : Fiber} (between : Between worker (some target))
    (member : target ∈ worker.allFibers)
    (left : worker.state target = .queued ∨ worker.state target = .idle) :
    ∃ after, worker.switchToFiber target = .ok after ∧ after.Inv ∧ Frame worker after ∧
      after.current.entered = true := by
  have unlisted : target ∉ worker.idleFibers := by
    rw [between.idle]
    simp
  rcases left with isQueued | isIdle
  · obtain ⟨code, parked⟩ := between.suspended_of_queued member isQueued
    have counted : worker.numBlockedFibers - 1 + (worker.state target).blocked.toNat =
        worker.numBlockedFibers := by
      have positive : 0 < worker.numBlockedFibers := by
        rw [between.blocked, List.countP_pos_iff]
        exact ⟨target, member, by simp [isQueued, Fiber.State.blocked]⟩
      simp only [isQueued, Fiber.State.blocked, Bool.toNat_true]
      omega
    refine ⟨_, by simp [Worker.switchToFiber, unlisted, resumed, current, parked],
      between.enter member (.body code) _ rfl rfl (by simp) rfl (.inl isQueued) counted, ?_, ?_⟩
    · exact ⟨rfl, rfl, rfl, rfl, executing_setPosition (by
        simp [setState, parked, Position.task?, Position.body?, Position.suspends?])⟩
    · simp [current, Worker.moveTo, setPosition, setState, Position.entered]
  · have parked := between.idle_of_idle member isIdle
    refine ⟨_, by
        simp [Worker.switchToFiber, unlisted, resumed, current, parked, changeFiberState,
          assertFiberState, isIdle, pure, Except.pure],
      between.enter member .runUntilIdle worker.numBlockedFibers rfl rfl
        (by simp) rfl (.inr isIdle) (by simp [isIdle, Fiber.State.blocked]), ?_, ?_⟩
    · exact ⟨rfl, rfl, rfl, rfl, executing_setPosition (by
        simp [setState, parked, Position.task?, Position.body?, Position.suspends?])⟩
    · simp [current, Worker.moveTo, setPosition, setState, Position.entered]

theorem mem_allFibers_createWorkerFiber (worker : Worker φ address) {fiber : Fiber} :
    fiber ∈ worker.createWorkerFiber.2.allFibers ↔
      fiber ∈ worker.allFibers ∨ fiber = worker.createWorkerFiber.1 := by
  simp [createWorkerFiber, setState, setPosition, allFibers, mainFiber, or_assoc]

theorem createWorkerFiber_fresh (created : worker.workerFibers =
    (List.range worker.workerFibers.length).map fun index => ⟨worker.id, index + 1⟩) :
    worker.createWorkerFiber.1 ∉ worker.allFibers := by
  rw [allFibers, created]
  simp [createWorkerFiber, mainFiber]

/-- With no fiber to resume, `suspend` goes on with a fresh one. -/
theorem Between.switchToFresh (between : Between worker none) :
    ∃ after, worker.createWorkerFiber.2.switchToFiber worker.createWorkerFiber.1 = .ok after ∧
      after.Inv ∧ Frame worker after ∧ after.current.entered = true := by
  have fresh := createWorkerFiber_fresh between.created
  have different {fiber : Fiber} (member : fiber ∈ worker.allFibers) :
      fiber ≠ worker.createWorkerFiber.1 := fun same => fresh (same ▸ member)
  have unlisted : worker.createWorkerFiber.1 ∉ worker.idleFibers :=
    fun listed => fresh ((between.idle _).mp listed).1
  have runsFresh : worker.createWorkerFiber.2.state worker.createWorkerFiber.1 = .running := by
    simp [createWorkerFiber, setState, setPosition]
  have startsFresh : worker.createWorkerFiber.2.position worker.createWorkerFiber.1 = .run := by
    simp [createWorkerFiber, setState, setPosition]
  have keepsState {fiber : Fiber} (member : fiber ∈ worker.allFibers) :
      worker.createWorkerFiber.2.state fiber = worker.state fiber :=
    Function.update_of_ne (different member) _ _
  have keepsPosition {fiber : Fiber} (member : fiber ∈ worker.allFibers) :
      worker.createWorkerFiber.2.position fiber = worker.position fiber :=
    Function.update_of_ne (different member) _ _
  -- A container of the old worker lists exactly the old fibers in its state.
  have relists {fiber : Fiber} {state : Fiber.State} (other : state ≠ .running) :
      (fiber ∈ worker.allFibers ∧ worker.state fiber = state) ↔
        (fiber ∈ worker.createWorkerFiber.2.allFibers ∧
          worker.createWorkerFiber.2.state fiber = state) := by
    rw [mem_allFibers_createWorkerFiber]
    constructor
    · rintro ⟨member, found⟩
      exact ⟨.inl member, (keepsState member).trans found⟩
    · rintro ⟨member | rfl, found⟩
      · exact ⟨member, (keepsState member).symm.trans found⟩
      · exact absurd (runsFresh.symm.trans found).symm other
  have queuedOld : ∀ fiber, fiber ∈ worker.fibers ↔
      fiber ∈ worker.allFibers ∧ worker.state fiber = .queued := by simpa using between.queued
  have idleOld : ∀ fiber, fiber ∈ worker.idleFibers ↔
      fiber ∈ worker.allFibers ∧ worker.state fiber = .idle := by simpa using between.idle
  refine ⟨{ worker.createWorkerFiber.2 with currentFiber := worker.createWorkerFiber.1 }, ?_, ?_, ?_, ?_⟩
  · have passes : worker.createWorkerFiber.1 ∉ worker.createWorkerFiber.2.idleFibers := unlisted
    simp [Worker.switchToFiber, passes, resumed, current, startsFresh]
  · refine
      { created := ?_
        member := (mem_allFibers_createWorkerFiber worker).mpr (.inr rfl)
        parked := ?_
        admits := ?_
        numSynced := between.numSynced
        queued := fun fiber => (queuedOld fiber).trans (relists (by simp))
        queuedOnce := between.queuedOnce
        waitingSynced := between.waitingSynced
        waiting := fun fiber => (between.waiting fiber).trans (relists (by simp))
        idle := fun fiber => (idleOld fiber).trans (relists (by simp))
        idleOnce := between.idleOnce
        blocked := ?_
        leaving := by simp [current, startsFresh]
        exiting := by simp [current, startsFresh]
        spinning := by simp [current, startsFresh, Position.spins] }
    · have shape := between.created
      simp only [createWorkerFiber, setState, setPosition, List.length_append, List.length_cons,
        List.length_nil, Nat.zero_add, List.range_succ, List.map_append, List.map_cons, List.map_nil]
      rw [← shape]
    · intro fiber member
      rcases (mem_allFibers_createWorkerFiber worker).mp member with old | rfl
      · have stillParked : (worker.createWorkerFiber.2.position fiber).parked = true := by
          rw [keepsPosition old]
          exact between.parked fiber old
        simpa [stillParked] using different old
      · simp [startsFresh, Position.parked]
    · intro fiber member
      rcases (mem_allFibers_createWorkerFiber worker).mp member with old | rfl
      · change (worker.createWorkerFiber.2.position fiber).admits
          (worker.createWorkerFiber.2.state fiber) = true
        rw [keepsPosition old, keepsState old]
        exact between.admits fiber old
      · change (worker.createWorkerFiber.2.position _).admits
          (worker.createWorkerFiber.2.state _) = true
        rw [startsFresh, runsFresh]
        rfl
    · have extended : worker.createWorkerFiber.2.allFibers =
          worker.allFibers ++ [worker.createWorkerFiber.1] := rfl
      change worker.numBlockedFibers = List.countP _ worker.createWorkerFiber.2.allFibers
      rw [extended, List.countP_append, between.blocked]
      have freshUncounted : List.countP (countsBlocked
          { worker.createWorkerFiber.2 with currentFiber := worker.createWorkerFiber.1 })
          [worker.createWorkerFiber.1] = 0 := by simp [countsBlocked]
      rw [freshUncounted, Nat.add_zero]
      apply List.countP_congr
      intro fiber member
      simp [countsBlocked, different member, keepsState member]
  · refine ⟨rfl, rfl, rfl, rfl, ?_⟩
    change List.filterMap (fun fiber => (worker.createWorkerFiber.2.position fiber).task?)
      (worker.allFibers ++ [worker.createWorkerFiber.1]) = worker.executing
    rw [List.filterMap_append]
    have nothing : [worker.createWorkerFiber.1].filterMap
        (fun fiber => (worker.createWorkerFiber.2.position fiber).task?) = [] := by
      simp [startsFresh, Position.task?, Position.body?, Position.suspends?]
    rw [nothing, List.append_nil]
    apply List.filterMap_congr
    intro fiber member
    rw [keepsPosition member]
  · simp [current, startsFresh, Position.entered]

end MiniMarl.Worker
