import MiniMarl.Worker.Invariant

namespace MiniMarl

/-- The deadline of a thread inside `Work::wait`. -/
def Position.deadline? {φ : Type} : Position φ → Option (Option TimePoint)
  | .asleep _ deadline | .awoken _ deadline _ => some deadline
  | _ => none

namespace Worker

open Data Transition

variable {φ : Type} {address : Fiber ↪ Nat} {worker after : Worker φ address}

/-- Only the current stack may be inside of `Work::wait`. -/
structure Apart (worker : Worker φ address) : Prop where
  synced : worker.waiting.Synced
  elsewhere : ∀ fiber, fiber ≠ worker.currentFiber → (worker.position fiber).deadline? = none

/-- No stack is inside of `Work::wait`. -/
structure Awake (worker : Worker φ address) : Prop where
  synced : worker.waiting.Synced
  nowhere : ∀ fiber, (worker.position fiber).deadline? = none

theorem Awake.apart (awake : worker.Awake) : worker.Apart := ⟨awake.synced, fun fiber _ => awake.nowhere fiber⟩

theorem Apart.awake (apart : worker.Apart) (here : worker.current.deadline? = none) : worker.Awake := by
  refine ⟨apart.synced, fun fiber => ?_⟩
  by_cases same : fiber = worker.currentFiber
  · rw [same]
    exact here
  · exact apart.elsewhere fiber same

theorem Apart.moveTo (apart : worker.Apart) (target : Position φ) : (worker.moveTo target).Apart := by
  refine ⟨apart.synced, fun fiber away => ?_⟩
  have other : fiber ≠ worker.currentFiber := away
  simpa [Worker.moveTo, setPosition, other] using apart.elsewhere fiber other

theorem Apart.leaves (apart : worker.Apart) {target : Position φ} (awake : target.deadline? = none) :
    (worker.moveTo target).Awake := by
  refine (apart.moveTo target).awake ?_
  simpa [current, Worker.moveTo, setPosition] using awake

theorem Awake.moveTo (awake : worker.Awake) {target : Position φ} (outside : target.deadline? = none) :
    (worker.moveTo target).Awake :=
  awake.apart.leaves outside

theorem Awake.changeFiberState (awake : worker.Awake) {fiber : Fiber} {source target : Fiber.State}
    (changed : worker.changeFiberState fiber source target = .ok after) : after.Awake := by
  rw [changeFiberState_eq changed]
  exact ⟨awake.synced, awake.nowhere⟩

theorem Awake.resumed (awake : worker.Awake) (done : worker.resumed = .ok after) : after.Awake := by
  unfold Worker.resumed at done
  split at done
  · obtain ⟨changed, change, moved⟩ := Except.bind_eq_ok.mp done
    cases moved
    exact (awake.changeFiberState change).moveTo rfl
  · cases done
    have unblocked : ({ worker with numBlockedFibers := worker.numBlockedFibers - 1 }.setState worker.currentFiber
        .running).Awake := ⟨awake.synced, awake.nowhere⟩
    exact unblocked.moveTo rfl
  · cases done
    exact awake

theorem Awake.switchToFiber (awake : worker.Awake) {target : Fiber} (done : worker.switchToFiber target = .ok after) :
    after.Awake := by
  obtain ⟨_, _, resumed⟩ := Except.bind_eq_ok.mp done
  have switched : ({ worker with currentFiber := target } : Worker φ address).Awake := ⟨awake.synced, awake.nowhere⟩
  exact switched.resumed resumed

theorem Awake.createWorkerFiber (awake : worker.Awake) : worker.createWorkerFiber.2.Awake := by
  refine ⟨awake.synced, fun fiber => ?_⟩
  simp only [Worker.createWorkerFiber, setPosition, setState]
  by_cases fresh : fiber = ⟨worker.id, worker.workerFibers.length + 1⟩
  · rw [fresh, Function.update_self]
    rfl
  · rw [Function.update_of_ne fresh]
    exact awake.nowhere fiber

theorem Awake.suspend (awake : worker.Awake) {timeout : Option TimePoint} {body : Body φ}
    (done : worker.suspend timeout body = .ok after) : after.Awake := by
  cases timeout with
  | none =>
      obtain ⟨changed, change, moved⟩ := Except.bind_eq_ok.mp done
      cases moved
      exact (awake.changeFiberState change).moveTo rfl
  | some timeout =>
      obtain ⟨changed, change, rest⟩ := Except.bind_eq_ok.mp done
      obtain ⟨waiting, added, moved⟩ := Except.bind_eq_ok.mp rest
      cases moved
      have still := awake.changeFiberState change
      have synced : waiting.Synced := by
        rw [aborting_eq_ok] at added
        cases absent : changed.waiting.contains changed.currentFiber with
        | true => simp [WaitingFibers.add, absent] at added
        | false =>
            obtain ⟨entered, same, synced, _⟩ := still.synced.add_ok absent timeout
            rw [same] at added
            cases added
            exact synced
      have waits : ({ changed with waiting } : Worker φ address).Awake := ⟨synced, still.nowhere⟩
      exact waits.moveTo rfl

theorem Awake.suspendSwitch (awake : worker.Awake) {body : Body φ} {pick : Fiber}
    (done : worker.suspendSwitch body pick = .ok after) : after.Awake := by
  have counted : ({ worker with numBlockedFibers := worker.numBlockedFibers + 1 } : Worker φ address).Awake :=
    ⟨awake.synced, awake.nowhere⟩
  have blocked : ({ worker with numBlockedFibers := worker.numBlockedFibers + 1 }.moveTo (.suspended body)).Awake :=
    counted.moveTo rfl
  unfold Worker.suspendSwitch at done
  dsimp only at done
  split at done
  · obtain ⟨_, _, switched⟩ := Except.bind_eq_ok.mp done
    refine Awake.switchToFiber ?_ switched
    exact ⟨blocked.synced, blocked.nowhere⟩
  · split at done
    · split at done
      · obtain ⟨_, _, switched⟩ := Except.bind_eq_ok.mp done
        refine Awake.switchToFiber ?_ switched
        exact ⟨blocked.synced, blocked.nowhere⟩
      · cases done
    · exact blocked.createWorkerFiber.switchToFiber done

theorem Awake.runUntilIdle (awake : worker.Awake) (done : worker.runUntilIdle = .ok after) : after.Awake := by
  unfold Worker.runUntilIdle at done
  split at done
  · obtain ⟨_, _, done⟩ := Except.bind_eq_ok.mp done
    obtain ⟨_, _, done⟩ := Except.bind_eq_ok.mp done
    obtain ⟨_, _, done⟩ := Except.bind_eq_ok.mp done
    obtain ⟨changed, change, done⟩ := Except.bind_eq_ok.mp done
    obtain ⟨_, _, switched⟩ := Except.bind_eq_ok.mp done
    have idle := Awake.changeFiberState (by exact ⟨awake.synced, awake.nowhere⟩) change
    have parked : ({ changed with idleFibers := changed.currentFiber :: changed.idleFibers } : Worker φ address).Awake :=
      ⟨idle.synced, idle.nowhere⟩
    exact (parked.moveTo rfl).switchToFiber switched
  · cases done
    refine Awake.moveTo ?_ rfl
    exact ⟨awake.synced, awake.nowhere⟩
  · cases done
    exact awake.moveTo rfl

theorem Apart.enqueueFiberTimeoutsLoop {now : TimePoint} {turns : Nat} (apart : worker.Apart)
    (done : worker.enqueueFiberTimeoutsLoop now turns = .ok after) : after.Apart := by
  induction turns generalizing worker with
  | zero =>
      cases done
      exact apart
  | succ turns ih =>
      obtain ⟨taken, took, done⟩ := Except.bind_eq_ok.mp done
      rw [aborting_eq_ok] at took
      rcases apart.synced.take_ok now with ⟨nothing, _⟩ | ⟨first, rest, waiting, _, _, found, synced, _⟩
      · rw [nothing] at took
        cases took
        cases done
        exact apart
      · rw [found] at took
        cases took
        obtain ⟨changed, change, done⟩ := Except.bind_eq_ok.mp done
        rw [changeFiberState_eq change] at done
        refine ih ?_ done
        exact ⟨synced, apart.elsewhere⟩

theorem Apart.expireWaiting {now : TimePoint} (apart : worker.Apart) (done : worker.expireWaiting now = .ok after) :
    after.Apart := by
  unfold Worker.expireWaiting at done
  split at done
  · exact apart.enqueueFiberTimeoutsLoop done
  · cases done
    exact apart

theorem Apart.workWaitDone {site : WaitSite φ} {now : TimePoint} (apart : worker.Apart)
    (done : worker.workWaitDone site now = .ok after) : after.Awake := by
  have unnotified : ({ worker with notifyAdded := false } : Worker φ address).Apart := ⟨apart.synced, apart.elsewhere⟩
  cases site with
  | run =>
      obtain ⟨_, _, moved⟩ := Except.bind_eq_ok.mp done
      cases moved
      exact unnotified.leaves rfl
  | waitForWork caller =>
      obtain ⟨expired, expire, moved⟩ := Except.bind_eq_ok.mp done
      cases moved
      exact (unnotified.expireWaiting expire).leaves rfl

/-- While the thread is inside of `Work::wait` it listens to `work_.added`, no
entry of `work_.waiting` is due before its deadline, and while it is asleep
with work to do somebody still owes it a notification. -/
structure Told (worker : Worker φ address) : Prop extends Apart worker where
  listens : ∀ deadline, worker.current.deadline? = some deadline → worker.notifyAdded = true
  early : ∀ deadline, worker.current.deadline? = some deadline → ∀ fiber timepoint,
    worker.waiting.fibers.lookup fiber = some timepoint → ∃ earliest, deadline = some earliest ∧ earliest ≤ timepoint
  owed : ∀ site deadline, worker.current = .asleep site deadline → 0 < worker.num → 0 < worker.pendingNotifies

theorem Awake.told (awake : worker.Awake) : worker.Told := by
  refine ⟨awake.apart, ?_, ?_, ?_⟩
  · intro deadline inside
    rw [current, awake.nowhere] at inside
    cases inside
  · intro deadline inside
    rw [current, awake.nowhere] at inside
    cases inside
  · intro site deadline asleep
    have inside := awake.nowhere worker.currentFiber
    rw [← current, asleep] at inside
    cases inside

theorem Told.awake (told : worker.Told) (outside : worker.current.deadline? = none) : worker.Awake :=
  told.toApart.awake outside

/-- What other threads do to a worker: they add work and owe a notification
when the worker listens, take work away, or erase entries of `work_.waiting`. -/
theorem Told.disturb (told : worker.Told) (fiber : after.currentFiber = worker.currentFiber)
    (position : after.position = worker.position) (notifyAdded : after.notifyAdded = worker.notifyAdded)
    (synced : after.waiting.Synced)
    (fewer : ∀ fiber timepoint, after.waiting.fibers.lookup fiber = some timepoint →
      worker.waiting.fibers.lookup fiber = some timepoint)
    (notified : (after.num ≤ worker.num ∧ after.pendingNotifies = worker.pendingNotifies) ∨
      (worker.notifyAdded = true → 0 < after.pendingNotifies)) : after.Told := by
  have current : after.current = worker.current := by rw [Worker.current, fiber, position]; rfl
  refine ⟨⟨synced, ?_⟩, ?_, ?_, ?_⟩
  · rw [fiber, position]
    exact told.elsewhere
  · rw [current, notifyAdded]
    exact told.listens
  · intro deadline inside other timepoint found
    rw [current] at inside
    exact told.early deadline inside other timepoint (fewer other timepoint found)
  · intro site deadline asleep work
    rw [current] at asleep
    rcases notified with ⟨less, same⟩ | owes
    · rw [same]
      exact told.owed site deadline asleep (Nat.lt_of_lt_of_le work less)
    · exact owes (told.listens deadline (by rw [asleep]; rfl))

theorem Told.enqueueTask (told : worker.Told) (task : Task φ) : (worker.enqueueTask task).Told := by
  refine told.disturb rfl rfl rfl told.synced (fun _ _ found => found) (.inr fun listens => ?_)
  simp [Worker.enqueueTask, record, listens]

theorem Told.enqueueFiber (told : worker.Told) {fiber : Fiber} (done : worker.enqueueFiber fiber = .ok after) :
    after.Told := by
  rcases enqueueFiber_cases done with ⟨rfl, _⟩ | ⟨_, waiting, stopped, _, rfl⟩
  · exact told
  · have erased : waiting.Synced ∧ ∀ other timepoint, waiting.fibers.lookup other = some timepoint →
        worker.waiting.fibers.lookup other = some timepoint := by
      unfold stopWaiting at stopped
      split at stopped
      · obtain ⟨left, erase, synced, lookups⟩ := told.synced.erase_ok fiber
        rw [aborting_eq_ok, erase] at stopped
        cases stopped
        refine ⟨synced, fun other timepoint found => ?_⟩
        rw [lookups] at found
        split at found
        · cases found
        · exact found
      · cases stopped
        exact ⟨told.synced, fun _ _ found => found⟩
    refine told.disturb rfl rfl rfl erased.1 erased.2 (.inr fun listens => ?_)
    simp [setState, listens]

theorem Told.wakes (told : worker.Told) {site : WaitSite φ} {deadline : Option TimePoint}
    (asleep : worker.current = .asleep site deadline) (timedOut : Bool) :
    (worker.moveTo (.awoken site deadline timedOut)).Told := by
  have inside : worker.current.deadline? = some deadline := by rw [asleep]; rfl
  refine ⟨told.toApart.moveTo _, ?_, ?_, ?_⟩
  · intro _ _
    exact told.listens deadline inside
  · intro other same
    have equal : other = deadline := by simpa [current, Worker.moveTo, setPosition, Position.deadline?, eq_comm] using same
    rw [equal]
    exact told.early deadline inside
  · intro _ _ still
    simp [current, Worker.moveTo, setPosition] at still

/-- The deadline read by `Work::wait` is the earliest one. -/
theorem deadline_early {deadline : Option TimePoint} (synced : worker.waiting.Synced)
    (read : worker.deadline = .ok deadline) {fiber : Fiber} {timepoint : TimePoint}
    (found : worker.waiting.fibers.lookup fiber = some timepoint) :
    ∃ earliest, deadline = some earliest ∧ earliest ≤ timepoint := by
  have filled : worker.waiting.nonempty = true :=
    WaitingFibers.nonempty_iff.mpr ⟨fiber, WaitingFibers.contains_iff.mpr ⟨timepoint, found⟩⟩
  obtain ⟨first, begins, next⟩ := synced.next_ok filled
  rw [Worker.deadline, if_pos filled, next] at read
  refine ⟨first.timepoint, (Except.ok.inj read).symm, ?_⟩
  rcases OrderedSet.begin?_least begins ((synced fiber timepoint).mpr found) with same | later
  · rw [← same]
  · rcases (Timeout.lt_iff address).mp later with earlier | ⟨same, _⟩
    · exact Int.le_of_lt earlier
    · exact Int.le_of_eq same

theorem num_of_unmet {site : WaitSite φ} (unmet : worker.predicate site = false) : worker.num = 0 := by
  cases site <;> simp [predicate] at unmet <;> omega

/-- The thread falls asleep after it has found its predicate false. -/
theorem Apart.sleeps (apart : worker.Apart) {site : WaitSite φ} {deadline : Option TimePoint}
    (listens : worker.notifyAdded = true)
    (early : ∀ fiber timepoint, worker.waiting.fibers.lookup fiber = some timepoint →
      ∃ earliest, deadline = some earliest ∧ earliest ≤ timepoint)
    (unmet : worker.predicate site = false) : (worker.moveTo (.asleep site deadline)).Told := by
  refine ⟨apart.moveTo _, fun _ _ => listens, ?_, ?_⟩
  · intro other same
    have equal : other = deadline := by simpa [current, Worker.moveTo, setPosition, Position.deadline?, eq_comm] using same
    rw [equal]
    exact early
  · intro _ _ _ work
    have none : worker.num = 0 := num_of_unmet unmet
    have some : 0 < worker.num := work
    omega

theorem Awake.workWait (awake : worker.Awake) {site : WaitSite φ} {now : TimePoint}
    (done : worker.workWait site now = .ok after) : after.Told := by
  have listening : ({ worker with notifyAdded := true } : Worker φ address).Apart :=
    ⟨awake.synced, awake.apart.elsewhere⟩
  obtain ⟨deadline, read, done⟩ := Except.bind_eq_ok.mp done
  split at done
  · exact (listening.workWaitDone done).told
  · rename_i unmet
    cases done
    refine listening.sleeps rfl (fun fiber timepoint found => ?_) (by simpa using unmet)
    exact deadline_early listening.synced read found

theorem Told.reacquire (told : worker.Told) {site : WaitSite φ} {deadline : Option TimePoint} {timedOut : Bool}
    {now : TimePoint} (awoken : worker.current = .awoken site deadline timedOut)
    (done : worker.reacquire site deadline timedOut now = .ok after) : after.Told := by
  have inside : worker.current.deadline? = some deadline := by rw [awoken]; rfl
  unfold Worker.reacquire at done
  split at done
  · exact (told.toApart.workWaitDone done).told
  · rename_i unmet
    cases done
    simp only [Bool.or_eq_true, not_or, Bool.not_eq_true] at unmet
    exact told.toApart.sleeps (told.listens deadline inside) (told.early deadline inside) unmet.1

theorem Told.proceed (told : worker.Told) {now : TimePoint} {pick : Fiber}
    (done : worker.proceed now pick = .ok after) : after.Told := by
  cases found : worker.current with
  | awoken site deadline timedOut =>
      simp only [Worker.proceed, found] at done
      exact told.reacquire found done
  | workWait site =>
      simp only [Worker.proceed, found] at done
      exact (told.awake (by rw [found]; rfl)).workWait done
  | asleep _ _ | idle | body _ | suspended _ | exited => simp [Worker.proceed, found] at done
  | start | spinForWork _ | spun _ =>
      simp only [Worker.proceed, found, Except.ok.injEq] at done
      rw [← done]
      exact ((told.awake (by rw [found]; rfl)).moveTo rfl).told
  | run =>
      have awake := told.awake (by rw [found]; rfl)
      simp only [Worker.proceed, found, Worker.run] at done
      split at done
      · cases done
        exact (awake.moveTo rfl).told
      · obtain ⟨_, _, moved⟩ := Except.bind_eq_ok.mp done
        cases moved
        exact (awake.moveTo rfl).told
  | runUntilShutdown =>
      have awake := told.awake (by rw [found]; rfl)
      simp only [Worker.proceed, found, Except.ok.injEq] at done
      rw [← done, Worker.runUntilShutdown]
      split <;> exact (awake.moveTo rfl).told
  | waitForWork caller =>
      have awake := told.awake (by rw [found]; rfl)
      simp only [Worker.proceed, found] at done
      obtain ⟨_, _, done⟩ := Except.bind_eq_ok.mp done
      split at done
      · cases done
        exact (awake.moveTo rfl).told
      · split at done <;> cases done <;> exact (awake.moveTo rfl).told
  | stolen caller task =>
      have awake := told.awake (by rw [found]; rfl)
      simp only [Worker.proceed, found, Except.ok.injEq] at done
      rw [← done]
      refine (Awake.moveTo ?_ rfl).told
      exact ⟨awake.synced, awake.nowhere⟩
  | workFound caller =>
      have awake := told.awake (by rw [found]; rfl)
      cases caller with
      | runUntilShutdown =>
          simp only [Worker.proceed, found] at done
          obtain ⟨_, _, done⟩ := Except.bind_eq_ok.mp done
          obtain ⟨_, _, moved⟩ := Except.bind_eq_ok.mp done
          cases moved
          exact (awake.moveTo rfl).told
      | suspend body =>
          simp only [Worker.proceed, found] at done
          exact (awake.suspendSwitch done).told
  | runUntilIdle =>
      simp only [Worker.proceed, found] at done
      exact ((told.awake (by rw [found]; rfl)).runUntilIdle done).told
  | left =>
      have awake := told.awake (by rw [found]; rfl)
      simp only [Worker.proceed, found, Worker.leave] at done
      split at done
      · cases done
        exact (awake.moveTo rfl).told
      · exact (awake.switchToFiber done).told

theorem Told.notifyAddedOne (told : worker.Told) : worker.notifyAddedOne.Told := by
  have paid : ({ worker with pendingNotifies := worker.pendingNotifies - 1 } : Worker φ address).Apart :=
    ⟨told.synced, told.elsewhere⟩
  unfold Worker.notifyAddedOne
  dsimp only
  split
  · rename_i site deadline asleep
    have inside : worker.current.deadline? = some deadline := by rw [show worker.current = _ from asleep]; rfl
    refine ⟨paid.moveTo _, fun _ _ => told.listens deadline inside, ?_, ?_⟩
    · intro other same
      have equal : other = deadline := by
        simpa [current, Worker.moveTo, setPosition, Position.deadline?, eq_comm] using same
      rw [equal]
      exact told.early deadline inside
    · intro _ _ still
      simp [current, Worker.moveTo, setPosition] at still
  · rename_i awake
    refine ⟨paid, told.listens, told.early, ?_⟩
    intro site deadline asleep
    exact absurd asleep (awake site deadline)

theorem Told.step (told : worker.Told) {action : Action φ} (done : worker.step action = .ok after) : after.Told := by
  cases action with
  | enqueue task =>
      simp only [Worker.step] at done
      split at done
      · cases done
        exact told.enqueueTask task
      · cases done
  | steal =>
      simp only [Worker.step] at done
      split at done
      · unfold Worker.steal at done
        split at done
        · split at done
          · cases done
          · cases done
            exact told.disturb rfl rfl rfl told.synced (fun _ _ found => found) (.inl ⟨Nat.sub_le _ _, rfl⟩)
        · cases done
      · cases done
  | notify fiber =>
      simp only [Worker.step] at done
      split at done
      · exact told.enqueueFiber done
      · cases done
  | notifyAdded =>
      simp only [Worker.step] at done
      split at done
      · cases done
        exact told.notifyAddedOne
      · cases done
  | setShutdown =>
      simp only [Worker.step] at done
      split at done
      · cases done
        exact told.disturb rfl rfl rfl told.synced (fun _ _ found => found) (.inl ⟨Nat.le_refl _, rfl⟩)
      · cases done
  | proceed now pick => exact told.proceed done
  | adopt task =>
      simp only [Worker.step] at done
      split at done
      · rename_i caller found
        cases done
        exact ((told.awake (by rw [found]; rfl)).moveTo rfl).told
      · cases done
  | wake =>
      simp only [Worker.step] at done
      split at done
      · rename_i site deadline asleep
        cases done
        exact told.wakes asleep false
      · cases done
  | expire now =>
      simp only [Worker.step] at done
      split at done
      · rename_i site deadline asleep
        split at done
        · cases done
          exact told.wakes asleep true
        · cases done
      · cases done
  | suspend timeout =>
      simp only [Worker.step] at done
      split at done
      · rename_i body found
        exact ((told.awake (by rw [found]; rfl)).suspend done).told
      · cases done
  | finish =>
      simp only [Worker.step] at done
      split at done
      · rename_i task found
        have awake := told.awake (by rw [found]; rfl)
        cases done
        refine (Awake.moveTo ?_ rfl).told
        exact ⟨awake.synced, awake.nowhere⟩
      · cases done
  | stop =>
      simp only [Worker.step] at done
      split at done
      · rename_i mode found
        have awake := told.awake (by rw [found]; rfl)
        cases done
        refine (Awake.moveTo ?_ rfl).told
        exact ⟨awake.synced, awake.nowhere⟩
      · cases done

/-- All interleavings of the worker's own steps with those of other threads,
up to the first `MARL_ASSERT` that fails. -/
def interleavings (id : WorkerId) (mode : Mode) : System (Worker φ address) (Action φ) :=
  .ofStep (· = initial id mode) fun worker action => (worker.step action).toOption

theorem initial_told (id : WorkerId) (mode : Mode) : (initial id mode : Worker φ address).Told := by
  refine Awake.told ⟨WaitingFibers.synced_empty, fun fiber => ?_⟩
  cases mode <;> rfl

theorem told_of_reachable {id : WorkerId} {mode : Mode} (reachable : (interleavings id mode).Reachable worker) :
    worker.Told := by
  induction reachable with
  | initial start => exact start ▸ initial_told id mode
  | step _ move ih => exact ih.step (Except.toOption_eq_some.mp move)

/-- A worker that is asleep with work to do is going to be notified, and it
sleeps no longer than up to the first deadline of its waiting fibers. -/
theorem sleeper_is_told {id : WorkerId} {mode : Mode} {site : WaitSite φ} {deadline : Option TimePoint}
    (reachable : (interleavings id mode).Reachable worker) (asleep : worker.current = .asleep site deadline) :
    (0 < worker.num → 0 < worker.pendingNotifies) ∧
      ∀ fiber timepoint, worker.waiting.fibers.lookup fiber = some timepoint →
        ∃ earliest, deadline = some earliest ∧ earliest ≤ timepoint := by
  have told := told_of_reachable reachable
  exact ⟨told.owed site deadline asleep, told.early deadline (by rw [asleep]; rfl)⟩

/-- The code of a bound thread waits up to the time 5, and a task comes in. -/
theorem sleeper_is_told_of_task : ∃ (worker : Worker Nat Fiber.address) (site : WaitSite Nat),
    worker.current = .asleep site (some 5) ∧ 0 < worker.num ∧ 0 < worker.pendingNotifies := by
  obtain ⟨worker, reachable, seen⟩ := System.reachable_of_replay
    (· = (initial (.bound 0) .singleThreaded : Worker Nat Fiber.address))
    (fun worker action => (worker.step action).toOption) rfl
    [.suspend (some 5), .proceed 0 ⟨.bound 0, 0⟩, .proceed 0 ⟨.bound 0, 0⟩, .enqueue ⟨1, .none⟩]
    (fun worker => decide (worker.current = .asleep (.waitForWork (.suspend .thread)) (some 5) ∧ 0 < worker.num))
    (by decide +kernel)
  simp only [decide_eq_true_eq] at seen
  exact ⟨worker, _, seen.1, seen.2, (sleeper_is_told reachable seen.1).1 seen.2⟩

end Worker

end MiniMarl
