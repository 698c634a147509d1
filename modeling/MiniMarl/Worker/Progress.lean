import MiniMarl.Progress
import MiniMarl.Worker.Reachable
import MiniMarl.Worker.Sleep
import MiniMarl.Worker.Stacks

namespace MiniMarl

/-! The thread of a worker comes to rest only where nothing is left to do.

Between two pieces of user code it goes through a bounded number of the cuts of
its code, and each task and each fiber in its queues is worth as many steps as
it takes to run it. A spin is worth one more, so that a theft pays for itself. -/

def Caller.rank {φ : Type} : Caller φ → Nat
  | .runUntilShutdown => 2
  | .suspend _ => 7

namespace Position

variable {φ : Type}

/-- The cuts up to user code, to sleep or to the next use of the mutex, whatever
other threads do to the queues meanwhile. -/
def rankFree : Position φ → Nat
  | .spun .runUntilShutdown => 9
  | .stolen .runUntilShutdown _ => 10
  | .spinForWork .runUntilShutdown => 11
  | .awoken .run _ _ => 14
  | .body (.task _) => 15
  | .start | .awoken (.waitForWork .runUntilShutdown) _ _ => 16
  | .awoken (.waitForWork (.suspend _)) _ _ => 17
  | .spun (.suspend _) => 18
  | .stolen (.suspend _) _ => 19
  | .spinForWork (.suspend _) => 20
  | _ => 0

/-- The cuts up to user code where the queues are not empty. -/
def rankBusy : Position φ → Nat
  | .runUntilIdle => 1
  | .workFound caller => caller.rank
  | .waitForWork caller | .workWait (.waitForWork caller) => caller.rank + 1
  | .runUntilShutdown => 4
  | .workWait .run => 5
  | .run => 6
  | _ => 0

/-- The cuts up to the end of the code where the worker stops and no fiber is
blocked. A fiber other than the main one first switches to that one. -/
def rankStopping (home : Bool) : Position φ → Nat
  | .left => if home then 1 else 4
  | .runUntilShutdown => if home then 2 else 5
  | .runUntilIdle | .workWait .run => if home then 3 else 6
  | .run | .workFound .runUntilShutdown => if home then 4 else 7
  | .workWait (.waitForWork .runUntilShutdown) => if home then 5 else 8
  | .waitForWork .runUntilShutdown => 12
  | .workFound (.suspend _) => 16
  | .workWait (.waitForWork (.suspend _)) => 17
  | .waitForWork (.suspend _) => 21
  | _ => 0

/-- The cuts until the thread falls asleep. -/
def rankQuiet : Position φ → Nat
  | .workWait (.waitForWork _) => 1
  | .waitForWork .runUntilShutdown => 12
  | .runUntilShutdown => 13
  | .runUntilIdle | .workWait .run => 14
  | .run | .workFound .runUntilShutdown => 15
  | .workFound (.suspend _) => 16
  | .waitForWork (.suspend _) => 21
  | _ => 0

def rank (busy stopping home : Bool) (position : Position φ) : Nat :=
  if position.holdsMutex then
    if busy then position.rankBusy else if stopping then position.rankStopping home else position.rankQuiet
  else position.rankFree

theorem rank_le (busy stopping home : Bool) (position : Position φ) : position.rank busy stopping home ≤ 21 := by
  cases position with
  | body code => cases code <;> simp [rank, holdsMutex, rankFree]
  | spinForWork caller | spun caller | stolen caller => cases caller <;> simp [rank, holdsMutex, rankFree]
  | waitForWork caller | workFound caller =>
      cases caller <;> cases busy <;> cases stopping <;> cases home <;>
        simp [rank, holdsMutex, rankBusy, rankStopping, rankQuiet, Caller.rank]
  | workWait site | awoken site =>
      rcases site with _ | caller | _ <;> cases busy <;> cases stopping <;> cases home <;>
        simp [rank, holdsMutex, rankFree, rankBusy, rankStopping, rankQuiet, Caller.rank]
  | _ =>
      cases busy <;> cases stopping <;> cases home <;>
        simp [rank, holdsMutex, rankFree, rankBusy, rankStopping, rankQuiet]

end Position

/-- Where the caller of `Work::wait` goes on. -/
def WaitSite.next {φ : Type} : WaitSite φ → Position φ
  | .run => .runUntilShutdown
  | .waitForWork caller => .workFound caller

namespace Worker

open Data Transition

variable {φ : Type} {address : Fiber ↪ Nat} {worker after : Worker φ address}

def busy (worker : Worker φ address) : Bool := decide (0 < worker.num)

def stopping (worker : Worker φ address) : Bool := worker.shutdown && worker.numBlockedFibers == 0

def home (worker : Worker φ address) : Bool := decide (worker.currentFiber = worker.mainFiber)

def rank (worker : Worker φ address) (position : Position φ) : Nat :=
  position.rank worker.busy worker.stopping worker.home

/-- The fibers that are queued, or will be when their deadline has passed. -/
def due (worker : Worker φ address) (fiber : Fiber) : Bool :=
  worker.state fiber = .queued || worker.state fiber = .waiting

/-- What the thread still has to run. -/
def backlog (worker : Worker φ address) (position : Position φ) : Nat :=
  worker.tasks.length + position.held?.isSome.toNat + worker.allFibers.countP worker.due

def budget (worker : Worker φ address) : Nat :=
  15 * worker.backlog worker.current + 18 * worker.pendingNotifies + worker.rank worker.current

theorem budget_of {position : Position φ} (found : worker.current = position) : worker.budget =
    15 * worker.backlog position + 18 * worker.pendingNotifies + worker.rank position := by
  rw [budget, found]

theorem budget_moveTo (target : Position φ) : (worker.moveTo target).budget =
    15 * worker.backlog target + 18 * worker.pendingNotifies + worker.rank target := by
  rw [budget, current_moveTo]
  rfl

/-- The stack moves on, and nothing else changes. -/
theorem budget_lt_of_rank {source target : Position φ} (found : worker.current = source)
    (held : target.held? = source.held?) (less : worker.rank target < worker.rank source) :
    (worker.moveTo target).budget < worker.budget := by
  rw [budget_moveTo, budget_of found, backlog, backlog, held]
  omega

attribute [local simp] WaitSite.next Position.rank Position.holdsMutex Position.rankFree Position.rankBusy Position.rankStopping Position.rankQuiet Caller.rank

/-- What the fibers in `work_.waiting` whose deadline has passed become: they
were waiting and are queued. -/
structure TimedOut (before after : Worker φ address) : Prop where
  fibers : after.allFibers = before.allFibers
  home : after.home = before.home
  current : after.current = before.current
  tasks : after.tasks = before.tasks
  pendingNotifies : after.pendingNotifies = before.pendingNotifies
  stopping : after.stopping = before.stopping
  due : after.due = before.due
  busy : before.busy = true → after.busy = true
  shutdown : after.shutdown = before.shutdown

theorem TimedOut.refl (worker : Worker φ address) : TimedOut worker worker :=
  ⟨rfl, rfl, rfl, rfl, rfl, rfl, rfl, fun work => work, rfl⟩

theorem enqueueFiberTimeoutsLoop_timedOut {now : TimePoint} {turns : Nat}
    (done : worker.enqueueFiberTimeoutsLoop now turns = .ok after) : TimedOut worker after := by
  induction turns generalizing worker with
  | zero =>
      cases done
      exact .refl _
  | succ turns ih =>
      obtain ⟨taken, _, done⟩ := Except.bind_eq_ok.mp done
      rcases taken with ⟨none | fiber, waiting⟩
      · cases done
        exact .refl _
      · obtain ⟨changed, change, done⟩ := Except.bind_eq_ok.mp done
        obtain ⟨_, checked, _⟩ := Except.bind_eq_ok.mp change
        have waits : worker.state fiber = .waiting := by
          simpa [assertFiberState, marlAssert] using checked
        rw [changeFiberState_eq change] at done
        obtain ⟨fibers, home, current, tasks, pendingNotifies, stopping, due, busy, shutdown⟩ := ih done
        refine ⟨fibers, home, current, tasks, pendingNotifies, stopping, due.trans ?_, fun _ => busy ?_, shutdown⟩
        · funext other
          by_cases here : other = fiber
          · simp [Worker.due, setState, here, waits]
          · simp [Worker.due, setState, here]
        · simp [Worker.busy, setState]

theorem expireWaiting_timedOut {now : TimePoint} (done : worker.expireWaiting now = .ok after) :
    TimedOut worker after := by
  unfold Worker.expireWaiting at done
  split at done
  · exact enqueueFiberTimeoutsLoop_timedOut done
  · cases done
    exact .refl _

theorem workWaitDone_budget {site : WaitSite φ} {now : TimePoint} (done : worker.workWaitDone site now = .ok after) :
    after.budget ≤
      15 * worker.backlog (.workWait site) + 18 * worker.pendingNotifies + worker.rank site.next := by
  cases site with
  | run =>
      obtain ⟨_, _, moved⟩ := Except.bind_eq_ok.mp done
      cases moved
      rw [budget_moveTo]
      exact Nat.le_refl _
  | waitForWork caller =>
      obtain ⟨expired, expire, moved⟩ := Except.bind_eq_ok.mp done
      cases moved
      obtain ⟨fibers, home, current, tasks, pendingNotifies, stopping, due, busy, _⟩ := expireWaiting_timedOut expire
      have less : expired.rank (.workFound caller) ≤ worker.rank (.workFound caller) := by
        have same : expired.stopping = worker.stopping := stopping
        have place : expired.home = worker.home := home
        have more : worker.busy = true → expired.busy = true := busy
        unfold rank
        rw [same, place]
        revert more
        cases caller <;> cases expired.busy <;> cases worker.busy <;> cases worker.stopping <;>
          cases worker.home <;> simp
      have backlog : expired.backlog (.workFound caller) = worker.backlog (.workWait (.waitForWork caller)) := by
        simp only [Worker.backlog, tasks, fibers, due]
        rfl
      rw [budget_moveTo, backlog, pendingNotifies]
      exact Nat.add_le_add_left less _

theorem workWait_budget {site : WaitSite φ} {now : TimePoint} (found : worker.current = .workWait site)
    (done : worker.workWait site now = .ok after) : after.budget < worker.budget := by
  obtain ⟨deadline, _, done⟩ := Except.bind_eq_ok.mp done
  rw [budget_of found]
  split at done
  · rename_i holds
    refine Nat.lt_of_le_of_lt (workWaitDone_budget done) (Nat.add_lt_add_left ?_ _)
    change worker.rank site.next < worker.rank (.workWait site)
    have holds : worker.predicate site = true := by
      cases site <;> exact holds
    have filled : worker.busy = true ∨ worker.stopping = true ∨ site = .run := by
      cases site with
      | run => exact .inr (.inr rfl)
      | waitForWork caller => simpa [predicate, busy, stopping] using holds
    unfold rank
    rcases filled with work | stops | rfl
    · rw [work]
      cases site <;> simp
    · rw [stops]
      rcases site with _ | caller | _ <;> cases worker.busy <;> cases worker.home <;> simp
    · cases worker.busy <;> cases worker.stopping <;> cases worker.home <;> simp
  · cases done
    rw [budget_moveTo]
    refine Nat.add_lt_add_left ?_ _
    change worker.rank (.asleep site deadline) < worker.rank (.workWait site)
    unfold rank
    rcases site with _ | caller | _ <;> cases worker.busy <;> cases worker.stopping <;> cases worker.home <;> simp

/-- The fiber that goes on is not due any more. -/
theorem count_due_running {target : Fiber} (nodup : worker.allFibers.Nodup) (member : target ∈ worker.allFibers) :
    worker.allFibers.countP (worker.setState target .running).due + (worker.due target).toNat =
      worker.allFibers.countP worker.due := by
  have changed := countP_change (worker.setState target .running).due worker.due nodup member
    fun other _ away => by simp [due, setState, away]
  have none : (worker.setState target .running).due target = false := by simp [due, setState]
  rw [none] at changed
  simpa using changed

/-- A fiber that is resumed was due, which pays for the task that it runs. -/
theorem switchToFiber_suspended {target : Fiber} (nodup : worker.allFibers.Nodup) (member : target ∈ worker.allFibers)
    (isDue : worker.state target = .queued) (parked : ∃ code, worker.position target = .suspended code)
    (done : worker.switchToFiber target = .ok after) :
    after.budget ≤ 15 * (worker.tasks.length + worker.allFibers.countP worker.due) + 18 * worker.pendingNotifies := by
  obtain ⟨code, parked⟩ := parked
  have counted := count_due_running nodup member
  rw [show worker.due target = true by simp [due, isDue], Bool.toNat_true] at counted
  rcases switchToFiber_eq done with ⟨other, _, rfl⟩ | ⟨isIdle, _⟩ | ⟨unparked, _⟩
  · rw [budget_moveTo]
    change 15 * (worker.tasks.length + 0 + worker.allFibers.countP (worker.setState target .running).due) +
      18 * worker.pendingNotifies + _ ≤ _
    have small : ∀ busy stopping home, (Position.body other).rank busy stopping home ≤ 15 := fun busy stopping home => by
      cases other <;> simp
    unfold rank
    refine Nat.le_trans (Nat.add_le_add_left (small _ _ _) _) ?_
    omega
  · simp [parked] at isIdle
  · simp [parked, Position.parked] at unparked

/-- An idle fiber goes on in `runUntilIdle`. -/
theorem switchToFiber_idle {target : Fiber} (nodup : worker.allFibers.Nodup) (member : target ∈ worker.allFibers)
    (isIdle : worker.state target = .idle) (parked : worker.position target = .idle)
    (done : worker.switchToFiber target = .ok after) :
    after.budget = 15 * (worker.tasks.length + worker.allFibers.countP worker.due) + 18 * worker.pendingNotifies +
      Position.rank worker.busy worker.stopping (decide (target = worker.mainFiber)) (.runUntilIdle : Position φ) := by
  have counted := count_due_running nodup member
  rw [show worker.due target = false by simp [due, isIdle], Bool.toNat_false, Nat.add_zero] at counted
  rcases switchToFiber_eq done with ⟨other, suspended, _⟩ | ⟨_, _, rfl⟩ | ⟨unparked, _⟩
  · simp [parked] at suspended
  · rw [budget_moveTo, ← counted]
    rfl
  · simp [parked, Position.parked] at unparked

/-- A fresh fiber is not due, and starts with `run`. -/
theorem switchToFiber_fresh (created : worker.workerFibers =
      (List.range worker.workerFibers.length).map fun index => ⟨worker.id, index + 1⟩)
    (done : worker.createWorkerFiber.2.switchToFiber worker.createWorkerFiber.1 = .ok after) :
    after.budget = 15 * (worker.tasks.length + worker.allFibers.countP worker.due) + 18 * worker.pendingNotifies +
      Position.rank worker.busy worker.stopping false (.run : Position φ) := by
  have fresh := createWorkerFiber_fresh created
  have starts : worker.createWorkerFiber.2.position worker.createWorkerFiber.1 = .run := by
    simp [createWorkerFiber, setState, setPosition]
  have counted : worker.createWorkerFiber.2.allFibers.countP worker.createWorkerFiber.2.due =
      worker.allFibers.countP worker.due := by
    have extended : worker.createWorkerFiber.2.allFibers = worker.allFibers ++ [worker.createWorkerFiber.1] := rfl
    have new : worker.createWorkerFiber.2.due worker.createWorkerFiber.1 = false := by
      simp [createWorkerFiber, setState, setPosition, due]
    rw [extended, List.countP_append, List.countP_singleton, if_neg (by simp [new]), Nat.add_zero]
    refine List.countP_congr fun fiber member => ?_
    have away : fiber ≠ worker.createWorkerFiber.1 := fun same => fresh (same ▸ member)
    have kept : worker.createWorkerFiber.2.state fiber = worker.state fiber := Function.update_of_ne away _ _
    rw [due, due, kept]
  have abroad : decide (worker.createWorkerFiber.1 = worker.createWorkerFiber.2.mainFiber) = false := by
    simp [createWorkerFiber, mainFiber, setState, setPosition]
  rcases switchToFiber_eq done with ⟨other, suspended, _⟩ | ⟨isIdle, _⟩ | ⟨_, rfl⟩
  · simp [starts] at suspended
  · simp [starts] at isIdle
  · have here : ({ worker.createWorkerFiber.2 with currentFiber := worker.createWorkerFiber.1 } :
        Worker φ address).current = .run := starts
    rw [budget_of here, ← counted]
    change 15 * (worker.tasks.length + 0 + _) + 18 * worker.pendingNotifies +
      Position.rank worker.busy worker.stopping
        (decide (worker.createWorkerFiber.1 = worker.createWorkerFiber.2.mainFiber)) .run = _
    rw [abroad]
    rfl

theorem Inv.suspendSwitch_budget (inv : worker.Inv) {code : Body φ} {pick : Fiber}
    (found : worker.current = .workFound (.suspend code)) (done : worker.suspendSwitch code pick = .ok after) :
    after.budget < worker.budget := by
  have between := inv.parkSuspended found
  have nodup := inv.nodup
  rw [budget_of found]
  unfold Worker.suspendSwitch at done
  dsimp only at done
  split at done
  · rename_i target rest shape
    obtain ⟨_, _, switched⟩ := Except.bind_eq_ok.mp done
    obtain ⟨member, isQueued⟩ := (inv.queued target).mp (by rw [show worker.fibers = target :: rest from shape]; simp)
    have taken := between.takeQueued shape
    have low := switchToFiber_suspended (by exact nodup) (by exact member) (by exact isQueued)
      (by exact taken.suspended_of_queued member isQueued) switched
    refine Nat.lt_of_le_of_lt low ?_
    have positive : 0 < worker.rank (.workFound (.suspend code)) := by
      unfold rank
      cases worker.busy <;> cases worker.stopping <;> simp
    change 15 * (worker.tasks.length + worker.allFibers.countP worker.due) + 18 * worker.pendingNotifies <
      15 * (worker.tasks.length + 0 + _) + 18 * worker.pendingNotifies + _
    omega
  · split at done
    · split at done
      · rename_i listed
        obtain ⟨_, _, switched⟩ := Except.bind_eq_ok.mp done
        obtain ⟨member, isIdle⟩ := (inv.idle pick).mp listed
        have taken := between.takeIdle listed
        rw [switchToFiber_idle (by exact nodup) (by exact member) (by exact isIdle)
          (by exact taken.idle_of_idle member isIdle) switched]
        refine Nat.add_lt_add_left ?_ _
        change Position.rank worker.busy (worker.shutdown && worker.numBlockedFibers + 1 == 0) _ .runUntilIdle <
          worker.rank (.workFound (.suspend code))
        unfold rank
        cases worker.busy <;> cases worker.stopping <;> simp
      · cases done
    · rw [switchToFiber_fresh (by exact between.created) done]
      refine Nat.add_lt_add_left ?_ _
      change Position.rank worker.busy (worker.shutdown && worker.numBlockedFibers + 1 == 0) false .run <
        worker.rank (.workFound (.suspend code))
      unfold rank
      cases worker.busy <;> cases worker.stopping <;> simp

theorem Inv.runUntilIdle_budget (inv : worker.Inv) (found : worker.current = .runUntilIdle)
    (done : worker.runUntilIdle = .ok after) : after.budget < worker.budget := by
  have synced := inv.numSynced
  have positive : 0 < worker.rank .runUntilIdle := by
    unfold rank
    cases worker.busy <;> cases worker.stopping <;> cases worker.home <;> simp
  rw [budget_of found]
  unfold Worker.runUntilIdle at done
  split at done
  · rename_i target rest shape
    obtain ⟨_, _, done⟩ := Except.bind_eq_ok.mp done
    obtain ⟨_, _, done⟩ := Except.bind_eq_ok.mp done
    obtain ⟨_, _, done⟩ := Except.bind_eq_ok.mp done
    obtain ⟨changed, change, done⟩ := Except.bind_eq_ok.mp done
    obtain ⟨_, _, switched⟩ := Except.bind_eq_ok.mp done
    rw [changeFiberState_eq change] at switched
    obtain ⟨member, isQueued⟩ := (inv.queued target).mp (by rw [shape]; simp)
    have runs := inv.current_running found (by simp) rfl
    have different : target ≠ worker.currentFiber := by
      rintro rfl
      rw [isQueued] at runs
      cases runs
    have between := inv.parkIdle found shape
    have still : Function.update worker.state worker.currentFiber Fiber.State.idle target = .queued := by
      rw [Function.update_of_ne different, isQueued]
    have low := switchToFiber_suspended (by exact inv.nodup) (by exact member) (by exact still)
      (by exact between.suspended_of_queued member still) switched
    refine Nat.lt_of_le_of_lt low ?_
    have undue : worker.allFibers.countP (worker.setState worker.currentFiber .idle).due =
        worker.allFibers.countP worker.due := by
      refine List.countP_congr fun fiber _ => ?_
      by_cases here : fiber = worker.currentFiber
      · simp [due, setState, here, runs]
      · simp [due, setState, here]
    change 15 * (worker.tasks.length + worker.allFibers.countP (worker.setState worker.currentFiber .idle).due) +
      18 * worker.pendingNotifies < 15 * (worker.tasks.length + 0 + _) + 18 * worker.pendingNotifies + _
    rw [undue]
    omega
  · rename_i task rest none shape
    cases done
    rw [budget_moveTo]
    have paid : ∀ other : Worker φ address, other.rank (.body (.task task)) = 15 := fun other => rfl
    rw [paid]
    change 15 * (rest.length + 0 + worker.allFibers.countP worker.due) + 18 * worker.pendingNotifies + 15 <
      15 * (worker.tasks.length + 0 + _) + 18 * worker.pendingNotifies + _
    rw [shape, List.length_cons]
    omega
  · rename_i noFibers noTasks
    cases done
    rw [noFibers, noTasks] at synced
    rw [budget_moveTo]
    refine Nat.add_lt_add_left ?_ _
    have idle : worker.busy = false := by simp [busy, synced]
    unfold rank
    rw [idle]
    cases worker.stopping <;> cases worker.home <;> simp

theorem Inv.leave_budget (inv : worker.Inv) (found : worker.current = .left) (done : worker.leave = .ok after) :
    after.budget < worker.budget := by
  obtain ⟨stops, numZero, clear⟩ := inv.leaving found
  have idle : worker.busy = false := by simp [busy, numZero]
  have stopping : worker.stopping = true := by simp [Worker.stopping, stops, clear]
  rw [budget_of found]
  unfold Worker.leave at done
  split at done
  · rename_i here
    cases done
    rw [budget_moveTo]
    refine Nat.add_lt_add_left ?_ _
    unfold rank
    rw [idle, stopping, home]
    simp [here]
  · rename_i away
    obtain ⟨isIdle, parkedIdle⟩ := inv.others_idle clear (List.mem_cons_self : worker.mainFiber ∈ _) (Ne.symm away)
    rw [switchToFiber_idle inv.nodup List.mem_cons_self isIdle parkedIdle done]
    refine Nat.add_lt_add_left ?_ _
    unfold rank
    rw [idle, stopping, home]
    simp [away]

/-- A step of the thread pays for itself. -/
theorem Inv.proceed_budget (inv : worker.Inv) {now : TimePoint} {pick : Fiber}
    (done : worker.proceed now pick = .ok after) : after.budget < worker.budget := by
  cases found : worker.current with
  | awoken site deadline timedOut =>
      simp only [Worker.proceed, found, reacquire] at done
      split at done
      · rw [budget_of found]
        refine Nat.lt_of_le_of_lt (workWaitDone_budget done) (Nat.add_lt_add_left ?_ _)
        unfold rank
        rcases site with _ | caller | _ <;> cases worker.busy <;> cases worker.stopping <;> cases worker.home <;> simp
      · cases done
        refine budget_lt_of_rank found rfl ?_
        unfold rank
        rcases site with _ | caller | _ <;> cases worker.busy <;> cases worker.stopping <;> cases worker.home <;> simp
  | workWait site =>
      simp only [Worker.proceed, found] at done
      exact workWait_budget found done
  | asleep _ _ | idle | body _ | suspended _ | exited => simp [Worker.proceed, found] at done
  | start =>
      simp only [Worker.proceed, found, Except.ok.injEq] at done
      rw [← done]
      refine budget_lt_of_rank found rfl ?_
      unfold rank
      cases worker.busy <;> cases worker.stopping <;> cases worker.home <;> simp
  | spinForWork caller | spun caller =>
      simp only [Worker.proceed, found, Except.ok.injEq] at done
      rw [← done]
      refine budget_lt_of_rank found rfl ?_
      unfold rank
      cases caller <;> cases worker.busy <;> cases worker.stopping <;> cases worker.home <;> simp
  | run =>
      simp only [Worker.proceed, found, Worker.run] at done
      split at done
      · cases done
        refine budget_lt_of_rank found rfl ?_
        unfold rank
        cases worker.busy <;> cases worker.stopping <;> cases worker.home <;> simp
      · obtain ⟨_, _, moved⟩ := Except.bind_eq_ok.mp done
        cases moved
        refine budget_lt_of_rank found rfl ?_
        unfold rank
        cases worker.busy <;> cases worker.stopping <;> cases worker.home <;> simp
  | runUntilShutdown =>
      simp only [Worker.proceed, found, Except.ok.injEq] at done
      rw [← done, Worker.runUntilShutdown]
      split
      · rename_i stays
        have going : worker.busy = true ∨ worker.stopping = false := by
          rw [Bool.or_eq_true, Bool.or_eq_true] at stays
          rcases stays with (running | work) | blocked
          · exact .inr (by simpa [stopping] using fun stops => by simp [stops] at running)
          · exact .inl work
          · exact .inr (by simp at blocked; simp [stopping]; omega)
        refine budget_lt_of_rank found rfl ?_
        unfold rank
        rcases going with work | goes
        · rw [work]
          simp
        · rw [goes]
          cases worker.busy <;> simp
      · rename_i finished
        obtain ⟨stops, numZero, clear⟩ : worker.shutdown = true ∧ worker.num = 0 ∧ worker.numBlockedFibers = 0 := by
          simpa [and_assoc] using finished
        refine budget_lt_of_rank found rfl ?_
        unfold rank
        rw [show worker.busy = false by simp [busy, numZero],
          show worker.stopping = true by simp [stopping, stops, clear]]
        cases worker.home <;> simp
  | waitForWork caller =>
      simp only [Worker.proceed, found] at done
      obtain ⟨_, _, done⟩ := Except.bind_eq_ok.mp done
      split at done
      · rename_i work
        cases done
        refine budget_lt_of_rank found rfl ?_
        unfold rank
        rw [show worker.busy = true by simpa [busy] using work]
        cases caller <;> simp
      · rename_i none
        have idle : worker.busy = false := by simpa [busy] using none
        split at done <;> cases done <;> refine budget_lt_of_rank found rfl ?_ <;> unfold rank <;> rw [idle] <;>
          cases caller <;> cases worker.stopping <;> cases worker.home <;> simp
  | stolen caller task =>
      simp only [Worker.proceed, found, Except.ok.injEq] at done
      rw [← done, budget_moveTo, budget_of found]
      change 15 * ((worker.tasks ++ [task]).length + 0 + worker.allFibers.countP worker.due) +
        18 * worker.pendingNotifies + Position.rank (decide (0 < worker.num + 1)) worker.stopping worker.home _ <
          15 * (worker.tasks.length + 1 + _) + 18 * worker.pendingNotifies + _
      rw [List.length_append, List.length_singleton, Nat.add_zero]
      refine Nat.add_lt_add_left ?_ _
      unfold rank
      cases caller <;> cases worker.busy <;> cases worker.stopping <;> cases worker.home <;> simp
  | workFound caller =>
      cases caller with
      | runUntilShutdown =>
          simp only [Worker.proceed, found] at done
          obtain ⟨_, _, done⟩ := Except.bind_eq_ok.mp done
          obtain ⟨_, _, moved⟩ := Except.bind_eq_ok.mp done
          cases moved
          refine budget_lt_of_rank found rfl ?_
          unfold rank
          cases worker.busy <;> cases worker.stopping <;> cases worker.home <;> simp
      | suspend body =>
          simp only [Worker.proceed, found] at done
          exact inv.suspendSwitch_budget found done
  | runUntilIdle =>
      simp only [Worker.proceed, found] at done
      exact inv.runUntilIdle_budget found done
  | left =>
      simp only [Worker.proceed, found] at done
      exact inv.leave_budget found done

theorem Drained.proceed_budget (drained : worker.Drained) {now : TimePoint} {pick : Fiber}
    (done : worker.proceed now pick = .ok after) : after.budget < worker.budget := by
  have home : worker.home = true := by simp [Worker.home, drained.onMain]
  have synced := drained.numSynced
  rcases drained.place with ⟨place, stops, noTasks⟩ | found
  · have idle : worker.busy = false := by simp [busy, synced, noTasks]
    have stopping : worker.stopping = true := by simp [Worker.stopping, stops, drained.noBlocked]
    have noWork : worker.num = 0 := by simp [synced, noTasks]
    rcases place with found | found | found
    · simp only [Worker.proceed, found, Worker.runUntilIdle, drained.noFibers, noTasks, Except.ok.injEq] at done
      rw [← done]
      refine budget_lt_of_rank found rfl ?_
      unfold rank
      rw [idle, stopping, home]
      simp
    · simp only [Worker.proceed, found, Worker.runUntilShutdown, stops, noWork, drained.noBlocked] at done
      cases done
      refine budget_lt_of_rank found rfl ?_
      unfold rank
      rw [idle, stopping, home]
      simp
    · simp only [Worker.proceed, found, Worker.leave, drained.onMain, if_true] at done
      cases done
      refine budget_lt_of_rank found rfl ?_
      unfold rank
      rw [idle, stopping, home]
      simp
  · simp [Worker.proceed, found] at done

/-- A step that the thread, or who owes it a notification, is about to take. -/
def Action.inner : Action φ → Bool
  | .proceed _ _ | .notifyAdded | .finish => true
  | _ => false

/-- What the thread may have to do on account of a step that it does not take by
itself. A theft only takes a task from it, and the flag is set once. -/
def Action.price : Action φ → Nat
  | .stop => 13
  | .adopt _ => 14
  | .wake | .expire _ => 17
  | .enqueue _ | .notify _ => 33
  | .suspend _ => 36
  | .proceed _ _ | .notifyAdded | .finish | .steal | .setShutdown => 0

/-- The budget, and once the way to the end of the code when the flag is set. -/
def worth (worker : Worker φ address) : Nat := worker.budget + 22 * (!worker.shutdown).toNat

/-- A thread that wakes up looks once more for work. -/
theorem awoken_budget {site : WaitSite φ} {deadline : Option TimePoint} (found : worker.current = .asleep site deadline)
    (timedOut : Bool) : (worker.moveTo (.awoken site deadline timedOut)).budget ≤ worker.budget + 17 := by
  rw [budget_moveTo, budget_of found]
  have low : worker.rank (.awoken site deadline timedOut) ≤ 17 := by
    unfold rank
    rcases site with _ | caller | _ <;> simp
  change 15 * (worker.tasks.length + 0 + _) + _ + worker.rank _ ≤
    15 * (worker.tasks.length + 0 + _) + _ + worker.rank (.asleep site deadline) + 17
  omega

/-- Without the mutex, the rank says nothing about the queues. -/
theorem budget_free (free : worker.mutexFree = true) : worker.budget =
    15 * worker.backlog worker.current + 18 * worker.pendingNotifies + worker.current.rankFree := by
  have away : worker.current.holdsMutex = false := by simpa only [mutexFree, Bool.not_eq_true'] using free
  have same : worker.rank worker.current = worker.current.rankFree := by
    rw [rank, Position.rank, away]
    rfl
  rw [budget, same]

theorem countP_due_le (nodup : worker.allFibers.Nodup) {fiber : Fiber} (member : fiber ∈ worker.allFibers)
    (state : Fiber.State) :
    worker.allFibers.countP (worker.setState fiber state).due ≤ worker.allFibers.countP worker.due + 1 := by
  have changed := countP_change (worker.setState fiber state).due worker.due nodup member
    fun other _ away => by simp [due, setState, away]
  have one := Bool.toNat_le ((worker.setState fiber state).due fiber)
  omega

theorem enqueueTask_budget (free : worker.mutexFree = true) (task : Task φ) :
    (worker.enqueueTask task).budget ≤ worker.budget + 33 := by
  have free' : (worker.enqueueTask task).mutexFree = true := free
  rw [budget_free free, budget_free free']
  change 15 * ((worker.tasks ++ [task]).length + worker.current.held?.isSome.toNat +
    worker.allFibers.countP worker.due) + 18 * (worker.pendingNotifies + if worker.notifyAdded then 1 else 0) +
      worker.current.rankFree ≤ 15 * (worker.tasks.length + worker.current.held?.isSome.toNat +
    worker.allFibers.countP worker.due) + 18 * worker.pendingNotifies + worker.current.rankFree + 33
  rw [List.length_append, List.length_singleton]
  split <;> omega

theorem enqueueFiber_budget (nodup : worker.allFibers.Nodup) (free : worker.mutexFree = true) {fiber : Fiber}
    (member : fiber ∈ worker.allFibers) (done : worker.enqueueFiber fiber = .ok after) :
    after.budget ≤ worker.budget + 33 := by
  rcases enqueueFiber_cases done with ⟨rfl, _⟩ | ⟨_, waiting, _, _, rfl⟩
  · omega
  · have counted := countP_due_le nodup member .queued
    let notified : Worker φ address := { worker with
      waiting
      fibers := worker.fibers ++ [fiber]
      num := worker.num + 1
      pendingNotifies := worker.pendingNotifies + if worker.notifyAdded then 1 else 0 }
    have free' : (notified.setState fiber .queued).mutexFree = true := free
    rw [budget_free free, budget_free free']
    change 15 * (worker.tasks.length + worker.current.held?.isSome.toNat +
      worker.allFibers.countP (worker.setState fiber .queued).due) +
        18 * (worker.pendingNotifies + if worker.notifyAdded then 1 else 0) + worker.current.rankFree ≤
      15 * (worker.tasks.length + worker.current.held?.isSome.toNat + worker.allFibers.countP worker.due) +
        18 * worker.pendingNotifies + worker.current.rankFree + 33
    split <;> omega

/-- A theft pays for the task that the thief will run. -/
theorem steal_budget (done : worker.step .steal = .ok after) : after.budget + 15 = worker.budget := by
  simp only [Worker.step] at done
  split at done
  · rename_i guards
    rcases steal_cases worker with nothing | ⟨task, rest, shape, _, taken⟩
    · rw [nothing] at done
      cases done
    · rw [taken] at done
      cases done
      let robbed : Worker φ address := { worker with num := worker.num - 1, tasks := rest }.record (.robbed task)
      have free : robbed.mutexFree = true := guards.1
      rw [budget_free guards.1, budget_free (by exact free)]
      change 15 * (rest.length + worker.current.held?.isSome.toNat + worker.allFibers.countP worker.due) +
        18 * worker.pendingNotifies + worker.current.rankFree + 15 = 15 * (worker.tasks.length + _ + _) + _ + _
      rw [shape, List.length_cons]
      omega
  · cases done

theorem adopt_budget {task : Task φ} (done : worker.step (.adopt task) = .ok after) :
    after.budget ≤ worker.budget + 14 := by
  simp only [Worker.step] at done
  split at done
  · rename_i caller found
    cases done
    rw [budget_moveTo, budget_of found]
    have less : worker.rank (.stolen caller task) + 1 = worker.rank (.spinForWork caller) := by
      unfold rank
      cases caller <;> rfl
    change 15 * (worker.tasks.length + 1 + _) + _ + _ ≤ 15 * (worker.tasks.length + 0 + _) + _ + _ + 14
    omega
  · cases done

theorem suspend_budget (nodup : worker.allFibers.Nodup) (member : worker.currentFiber ∈ worker.allFibers)
    {timeout : Option TimePoint} {code : Body φ} (found : worker.current = .body code)
    (done : worker.suspend timeout code = .ok after) : after.budget ≤ worker.budget + 36 := by
  have waits (state : Fiber.State) (waiting : WaitingFibers address) :
      ({ worker.setState worker.currentFiber state with waiting }.moveTo (.waitForWork (.suspend code))).budget ≤
        worker.budget + 36 := by
    have counted := countP_due_le nodup member state
    rw [budget_moveTo, budget_of found]
    have small := Position.rank_le worker.busy worker.stopping worker.home (Position.waitForWork (.suspend code))
    change 15 * (worker.tasks.length + 0 + worker.allFibers.countP (worker.setState worker.currentFiber state).due) +
      18 * worker.pendingNotifies + Position.rank worker.busy worker.stopping worker.home (.waitForWork (.suspend code)) ≤
        15 * (worker.tasks.length + 0 + worker.allFibers.countP worker.due) + 18 * worker.pendingNotifies +
          worker.rank (.body code) + 36
    omega
  unfold Worker.suspend at done
  split at done
  · obtain ⟨changed, change, done⟩ := Except.bind_eq_ok.mp done
    obtain ⟨waiting, _, moved⟩ := Except.bind_eq_ok.mp done
    rw [changeFiberState_eq change] at moved
    cases moved
    exact waits .waiting waiting
  · obtain ⟨changed, change, moved⟩ := Except.bind_eq_ok.mp done
    rw [changeFiberState_eq change] at moved
    cases moved
    exact waits .yielded worker.waiting

theorem notifyAdded_budget (done : worker.step .notifyAdded = .ok after) : after.budget + 1 ≤ worker.budget := by
  simp only [Worker.step, notifyAddedOne] at done
  split at done
  · rename_i owed
    cases done
    have paid : ({ worker with pendingNotifies := worker.pendingNotifies - 1 } : Worker φ address).budget + 18 =
        worker.budget := by
      have less : 18 * worker.pendingNotifies = 18 * (worker.pendingNotifies - 1) + 18 := by omega
      change 15 * worker.backlog worker.current + 18 * (worker.pendingNotifies - 1) + worker.rank worker.current + 18 =
        15 * worker.backlog worker.current + 18 * worker.pendingNotifies + worker.rank worker.current
      omega
    split
    · rename_i site deadline asleep
      have here : ({ worker with pendingNotifies := worker.pendingNotifies - 1 } : Worker φ address).current =
        .asleep site deadline := asleep
      have low := awoken_budget here false
      omega
    · omega
  · cases done

theorem finish_budget (done : worker.step .finish = .ok after) : after.budget + 1 ≤ worker.budget := by
  simp only [Worker.step] at done
  split at done
  · rename_i task found
    cases done
    rw [budget_moveTo, budget_of found]
    have low : worker.rank .runUntilIdle ≤ 14 := by
      unfold rank
      cases worker.busy <;> cases worker.stopping <;> cases worker.home <;> simp
    change 15 * (worker.tasks.length + 0 + worker.allFibers.countP worker.due) + 18 * worker.pendingNotifies +
      worker.rank .runUntilIdle + 1 ≤ 15 * (worker.tasks.length + 0 + _) + 18 * worker.pendingNotifies + 15
    omega
  · cases done

theorem wake_budget (done : worker.step .wake = .ok after) : after.budget ≤ worker.budget + 17 := by
  simp only [Worker.step] at done
  split at done
  · rename_i site deadline asleep
    cases done
    exact awoken_budget asleep false
  · cases done

theorem expire_budget {now : TimePoint} (done : worker.step (.expire now) = .ok after) :
    after.budget ≤ worker.budget + 17 := by
  simp only [Worker.step] at done
  split at done
  · rename_i site deadline asleep
    split at done
    · cases done
      exact awoken_budget asleep true
    · cases done
  · cases done

theorem Valid.proceed_budget (valid : worker.Valid) {now : TimePoint} {pick : Fiber}
    (done : worker.step (.proceed now pick) = .ok after) : after.budget + 1 ≤ worker.budget := by
  rcases valid with inv | drained
  · exact inv.proceed_budget done
  · exact drained.proceed_budget done

theorem Valid.nodup (valid : worker.Valid) : worker.allFibers.Nodup := valid.elim Inv.nodup Drained.nodup

theorem Valid.member (valid : worker.Valid) : worker.currentFiber ∈ worker.allFibers := by
  rcases valid with inv | drained
  · exact inv.member
  · rw [drained.onMain]
    exact List.mem_cons_self

/-- A step leaves `shutdown` alone, unless it sets it. -/
theorem worth_step {action : Action φ} {paid price : Nat} (done : worker.step action = .ok after)
    (pays : after.budget + paid ≤ worker.budget + price) : after.worth + paid ≤ worker.worth + price := by
  have told : (!after.shutdown).toNat ≤ (!worker.shutdown).toNat := by
    cases stops : worker.shutdown with
    | false => exact Bool.toNat_le _
    | true => rw [step_told stops done]
  unfold worth
  omega

theorem worth_setShutdown (worker : Worker φ address) :
    ({ worker with shutdown := true } : Worker φ address).worth + (!worker.shutdown).toNat ≤ worker.worth := by
  cases told : worker.shutdown with
  | true =>
      rw [show ({ worker with shutdown := true } : Worker φ address) = worker by rw [← told]]
      exact Nat.le_refl _
  | false =>
      have low : ({ worker with shutdown := true } : Worker φ address).budget ≤ worker.budget + 21 := by
        change 15 * worker.backlog worker.current + 18 * worker.pendingNotifies + Position.rank _ _ _ worker.current ≤
          15 * worker.backlog worker.current + 18 * worker.pendingNotifies + worker.rank worker.current + 21
        have small := Position.rank_le worker.busy (true && worker.numBlockedFibers == 0) worker.home worker.current
        change Position.rank worker.busy (true && worker.numBlockedFibers == 0) worker.home worker.current ≤ 21 at small
        exact Nat.le_trans (Nat.add_le_add_left small _) (by omega)
      simp only [worth, told, Bool.not_true, Bool.not_false, Bool.toNat_true, Bool.toNat_false]
      omega

theorem stop_budget (done : worker.step .stop = .ok after) : after.budget ≤ worker.budget + 13 := by
  rw [stop_eq done]
  simp only [Worker.step] at done
  split at done
  · rename_i _ _ _ found
    let told : Worker φ address := { worker with shutdown := true }
    have low : told.rank .runUntilShutdown ≤ 13 := by
      unfold rank
      cases told.busy <;> cases told.stopping <;> cases told.home <;> simp
    change (told.moveTo .runUntilShutdown).budget ≤ _
    rw [budget_moveTo, budget_of found]
    change 15 * (worker.tasks.length + 0 + worker.allFibers.countP worker.due) + 18 * worker.pendingNotifies +
      told.rank .runUntilShutdown ≤ 15 * (worker.tasks.length + 0 + _) + _ + worker.rank (.body .thread) + 13
    omega
  · cases done

/-- Every step of the thread is paid for, and every other step has its price. -/
theorem Valid.step_worth (valid : worker.Valid) {action : Action φ} (done : worker.step action = .ok after) :
    after.worth + action.inner.toNat ≤ worker.worth + action.price := by
  cases action with
  | proceed now pick => exact worth_step done (valid.proceed_budget done)
  | notifyAdded => exact worth_step done (notifyAdded_budget done)
  | finish => exact worth_step done (finish_budget done)
  | wake => exact worth_step done (wake_budget done)
  | expire now => exact worth_step done (expire_budget done)
  | steal => exact worth_step done (Nat.le_of_add_right_le (Nat.le_of_eq (steal_budget done)))
  | adopt => exact worth_step done (adopt_budget done)
  | enqueue task =>
      have moved := done
      simp only [Worker.step] at moved
      split at moved
      · rename_i free
        cases moved
        exact worth_step done (enqueueTask_budget free task)
      · cases moved
  | notify fiber =>
      have moved := done
      simp only [Worker.step] at moved
      split at moved
      · rename_i guards
        exact worth_step done (enqueueFiber_budget valid.nodup guards.1 guards.2 moved)
      · cases moved
  | suspend timeout =>
      have moved := done
      simp only [Worker.step] at moved
      split at moved
      · rename_i code found
        exact worth_step done (suspend_budget valid.nodup valid.member found moved)
      · cases moved
  | setShutdown =>
      rw [setShutdown_eq done]
      exact Nat.le_of_add_right_le (worth_setShutdown worker)
  | stop => exact worth_step done (stop_budget done)

theorem worth_le (worker : Worker φ address) :
    worker.worth ≤ 15 * worker.backlog worker.current + 18 * worker.pendingNotifies + 43 := by
  have small := Position.rank_le worker.busy worker.stopping worker.home worker.current
  have once := Bool.toNat_le (!worker.shutdown)
  unfold worth budget rank
  omega

/-- A computation that is not blocked. Where it fails, an assertion fails. -/
def Enabled {α : Type} (computation : Except Refusal α) : Prop := computation ≠ .error .disabled

theorem Enabled.ok {α : Type} (value : α) : Enabled (.ok value) := by simp [Enabled]

theorem Enabled.bind {α β : Type} {computation : Except Refusal α} {next : α → Except Refusal β}
    (first : Enabled computation) (rest : ∀ value, Enabled (next value)) : Enabled (computation >>= next) := by
  cases computation with
  | ok value => exact rest value
  | error refusal =>
      intro disabled
      cases disabled
      exact first rfl

theorem marlAssert_enabled (condition : Bool) (message : String) : Enabled (marlAssert condition message) := by
  cases condition <;> simp [Enabled, marlAssert]

theorem aborting_enabled {α : Type} (value : Except String α) : Enabled (aborting value) := by
  cases value <;> simp [Enabled, aborting]

theorem changeFiberState_enabled (worker : Worker φ address) (fiber : Fiber) (source target : Fiber.State) :
    Enabled (worker.changeFiberState fiber source target) :=
  .bind (marlAssert_enabled _ _) fun _ => .ok _

theorem switchToFiber_enabled (worker : Worker φ address) (target : Fiber) : Enabled (worker.switchToFiber target) := by
  refine .bind (marlAssert_enabled _ _) fun _ => ?_
  unfold resumed
  split
  · exact .bind (changeFiberState_enabled _ _ _ _) fun _ => .ok _
  · exact .ok _
  · exact .ok _

theorem suspendSwitch_enabled {pick : Fiber} (listed : worker.idleFibers ≠ [] → pick ∈ worker.idleFibers)
    (body : Body φ) : Enabled (worker.suspendSwitch body pick) := by
  unfold Worker.suspendSwitch
  dsimp only
  split
  · exact .bind (marlAssert_enabled _ _) fun _ => switchToFiber_enabled _ _
  · split
    · rename_i filled
      split
      · exact .bind (marlAssert_enabled _ _) fun _ => switchToFiber_enabled _ _
      · rename_i absent
        exact absurd (listed filled) absent
    · exact switchToFiber_enabled _ _

theorem runUntilIdle_enabled (worker : Worker φ address) : Enabled worker.runUntilIdle := by
  unfold Worker.runUntilIdle
  split
  · refine .bind (marlAssert_enabled _ _) fun _ => .bind (marlAssert_enabled _ _) fun _ =>
      .bind (marlAssert_enabled _ _) fun _ => .bind (changeFiberState_enabled _ _ _ _) fun _ =>
      .bind (marlAssert_enabled _ _) fun _ => switchToFiber_enabled _ _
  · exact .ok _
  · exact .ok _

theorem enqueueFiberTimeoutsLoop_enabled (worker : Worker φ address) (now : TimePoint) (turns : Nat) :
    Enabled (worker.enqueueFiberTimeoutsLoop now turns) := by
  induction turns generalizing worker with
  | zero => exact .ok _
  | succ turns ih =>
      refine .bind (aborting_enabled _) fun taken => ?_
      rcases taken with ⟨none | fiber, waiting⟩
      · exact .ok _
      · exact .bind (changeFiberState_enabled _ _ _ _) fun _ => ih _

theorem workWaitDone_enabled (worker : Worker φ address) (site : WaitSite φ) (now : TimePoint) :
    Enabled (worker.workWaitDone site now) := by
  cases site with
  | run => exact .bind (marlAssert_enabled _ _) fun _ => .ok _
  | waitForWork caller =>
      refine .bind ?_ fun _ => .ok _
      unfold expireWaiting
      split
      · exact enqueueFiberTimeoutsLoop_enabled _ _ _
      · exact .ok _

theorem workWait_enabled (worker : Worker φ address) (site : WaitSite φ) (now : TimePoint) :
    Enabled (worker.workWait site now) := by
  refine .bind ?_ fun deadline => ?_
  · unfold deadline
    split
    · cases found : aborting ({ worker with notifyAdded := true } : Worker φ address).waiting.next with
      | ok next => exact .ok _
      | error refusal =>
          have aborts := aborting_enabled ({ worker with notifyAdded := true } : Worker φ address).waiting.next
          rw [found] at aborts
          simpa [Enabled] using aborts
    · exact .ok _
  · split
    · exact workWaitDone_enabled _ _ _
    · exact .ok _

/-- Only the end of the code, user code and sleep stop a thread. -/
theorem proceed_enabled {pick : Fiber} (now : TimePoint)
    (listed : worker.idleFibers ≠ [] → pick ∈ worker.idleFibers) (going : worker.current.parked = false)
    (awake : ∀ site deadline, worker.current ≠ .asleep site deadline) (inside : ∀ code, worker.current ≠ .body code)
    (ending : worker.current ≠ .exited) : Enabled (worker.proceed now pick) := by
  unfold Worker.proceed
  cases found : worker.current with
  | start | runUntilShutdown | spinForWork | stolen | spun => exact .ok _
  | run =>
      dsimp only
      unfold Worker.run
      split
      · exact .ok _
      · exact .bind (marlAssert_enabled _ _) fun _ => .ok _
  | waitForWork caller =>
      refine .bind (marlAssert_enabled _ _) fun _ => ?_
      split
      · exact .ok _
      · split <;> exact .ok _
  | workWait site => exact workWait_enabled _ _ _
  | awoken site deadline timedOut =>
      dsimp only
      unfold reacquire
      split
      · exact workWaitDone_enabled _ _ _
      · exact .ok _
  | workFound caller =>
      cases caller with
      | runUntilShutdown => exact .bind (marlAssert_enabled _ _) fun _ => .bind (marlAssert_enabled _ _) fun _ => .ok _
      | suspend body => exact suspendSwitch_enabled listed body
  | runUntilIdle => exact runUntilIdle_enabled _
  | left =>
      dsimp only
      unfold leave
      split
      · exact .ok _
      · exact switchToFiber_enabled _ _
  | asleep site deadline => exact absurd found (awake site deadline)
  | idle | suspended => simp [found, Position.parked] at going
  | body code => exact absurd found (inside code)
  | exited => exact absurd found ending

theorem Valid.going (valid : worker.Valid) : worker.current.parked = false := by
  rcases valid with inv | drained
  · have parked := inv.parked worker.currentFiber inv.member
    cases found : worker.current.parked with
    | false => rfl
    | true => exact absurd rfl (parked.mp found)
  · rcases drained.place with ⟨found | found | found, _⟩ | found <;> rw [found] <;> rfl

/-- The thread is at the end of its code, in the code of a bound thread, or
asleep with nothing to do. -/
def AtRest (worker : Worker φ address) : Prop :=
  worker.current = .exited ∨ worker.current = .body .thread ∨
    (∃ site deadline, worker.current = .asleep site deadline) ∧ worker.num = 0

structure Sound (worker : Worker φ address) : Prop where
  valid : worker.Valid
  told : worker.Told

theorem Sound.step (sound : worker.Sound) {action : Action φ} (moved : worker.admissibleStep action = some after) :
    after.Sound :=
  ⟨(sound.valid.next moved).1, sound.told.step (step_of_admissibleStep moved)⟩

theorem sound_of_reachable {id : WorkerId} {mode : Mode} (reachable : (system id mode).Reachable worker) :
    worker.Sound := by
  induction reachable with
  | initial start => exact start ▸ ⟨.inl (initial_inv id mode), initial_told id mode⟩
  | step _ move ih => exact ih.step move

/-- The code of the thread is never blocked between two rests. -/
theorem Valid.exists_proceed (valid : worker.Valid) (now : TimePoint)
    (awake : ∀ site deadline, worker.current ≠ .asleep site deadline) (inside : ∀ code, worker.current ≠ .body code)
    (ending : worker.current ≠ .exited) : ∃ pick after, worker.step (.proceed now pick) = .ok after := by
  obtain ⟨pick, listed⟩ : ∃ pick, worker.idleFibers ≠ [] → pick ∈ worker.idleFibers := by
    cases shape : worker.idleFibers with
    | nil => exact ⟨worker.mainFiber, fun filled => absurd rfl filled⟩
    | cons pick rest => exact ⟨pick, fun _ => List.mem_cons_self⟩
  have enabled := proceed_enabled now listed valid.going awake inside ending
  rcases valid.step (show worker.admissible (.proceed now pick) = true from rfl) with disabled | ⟨after, done, _⟩
  · exact absurd disabled enabled
  · exact ⟨pick, after, done⟩

theorem admissibleStep_of_step {action : Action φ} (admitted : worker.admissible action = true)
    (done : worker.step action = .ok after) : worker.admissibleStep action = some after := by
  rw [admissibleStep, if_pos admitted]
  exact Except.toOption_eq_some.mpr done

theorem Sound.onward (sound : worker.Sound) (unsettled : ¬ worker.AtRest) :
    ∃ action after, action.inner = true ∧ worker.admissibleStep action = some after := by
  cases found : worker.current with
  | exited => exact absurd (.inl found) unsettled
  | body code =>
      cases code with
      | thread => exact absurd (.inr (.inl found)) unsettled
      | task task =>
          exact ⟨.finish, (worker.record (.finished task)).moveTo .runUntilIdle, rfl,
            admissibleStep_of_step rfl (by simp only [Worker.step, found])⟩
  | asleep site deadline =>
      have work : 0 < worker.num := by
        by_contra none
        exact unsettled (.inr (.inr ⟨⟨site, deadline, found⟩, by omega⟩))
      have owed := sound.told.owed site deadline found work
      exact ⟨.notifyAdded, worker.notifyAddedOne, rfl,
        admissibleStep_of_step rfl (by simp only [Worker.step, owed, if_true])⟩
  | _ =>
      obtain ⟨pick, after, done⟩ := sound.valid.exists_proceed 0 (by simp [found]) (by simp [found]) (by simp [found])
      exact ⟨.proceed 0 pick, after, rfl, admissibleStep_of_step rfl done⟩

theorem price_of_inner {action : Action φ} (inner : action.inner = true) : action.price = 0 := by
  cases action with
  | proceed | notifyAdded | finish => rfl
  | _ => cases inner

theorem Sound.exists_atRest (sound : worker.Sound) (id : WorkerId) (mode : Mode) :
    ∃ actions after, ((system id mode).restrict fun _ action => action.inner = true).Run worker actions after ∧
      after.AtRest := by
  refine System.exists_settled sound ?_ worth AtRest ?_
  · intro worker action after sound move
    exact sound.step move.2
  · intro worker sound unsettled
    obtain ⟨action, after, inner, moved⟩ := sound.onward unsettled
    have less := sound.valid.step_worth (step_of_admissibleStep moved)
    rw [inner, price_of_inner inner, Bool.toNat_true] at less
    exact ⟨[action], after, .snoc .nil ⟨inner, moved⟩, by omega⟩

theorem Valid.queues_of_atRest (valid : worker.Valid) (settled : worker.AtRest) :
    worker.current = .exited ∨ worker.current = .body .thread ∨
      (∃ site deadline, worker.current = .asleep site deadline) ∧ worker.tasks = [] ∧ worker.fibers = [] := by
  rcases settled with gone | inside | ⟨⟨site, deadline, asleep⟩, none⟩
  · exact .inl gone
  · exact .inr (.inl inside)
  · rcases valid with inv | drained
    · have synced := inv.numSynced
      exact .inr (.inr ⟨⟨site, deadline, asleep⟩, List.length_eq_zero_iff.mp (by omega),
        List.length_eq_zero_iff.mp (by omega)⟩)
    · rcases drained.place with ⟨found | found | found, _⟩ | found <;> simp [found] at asleep

/-- In every run, from any state that it has reached, the thread of a worker takes
no more steps than what is queued, held, due and owed is worth, and the prices of
the steps that others take. It can always go on until it has reached the end of
its code, or is back in the code of a bound thread, or is asleep with nothing
left in its queues. -/
theorem comes_to_rest {id : WorkerId} {mode : Mode} (reachable : (system id mode).Reachable worker) :
    (∀ actions after, (system id mode).Run worker actions after →
      actions.countP Action.inner ≤
        15 * worker.backlog worker.current + 18 * worker.pendingNotifies + 43 + (actions.map Action.price).sum) ∧
    ∃ actions after, ((system id mode).restrict fun _ action => action.inner = true).Run worker actions after ∧
      (after.current = .exited ∨ after.current = .body .thread ∨
        (∃ site deadline, after.current = .asleep site deadline) ∧ after.tasks = [] ∧ after.fibers = []) := by
  have sound := sound_of_reachable reachable
  constructor
  · intro actions after run
    have spent := run.affords sound (fun _ _ _ sound move => sound.step move) worth Action.inner Action.price
      fun _ _ _ sound move => sound.valid.step_worth (step_of_admissibleStep move)
    have start := worth_le worker
    omega
  · obtain ⟨actions, after, run, settled⟩ := sound.exists_atRest id mode
    have valid := (sound_of_reachable (run.unrestrict.reachable reachable)).valid
    exact ⟨actions, after, run, valid.queues_of_atRest settled⟩

/-- The worker is asleep, two tasks have come in, and their notification is owed. -/
theorem comes_to_rest_of_tasks : ∃ worker : Worker Nat Fiber.address,
    worker.tasks.length = 2 ∧ worker.current = .asleep .run none ∧
      (∀ actions after, (system (.thread 0) .multiThreaded).Run worker actions after →
        actions.countP Action.inner ≤ 109 + (actions.map Action.price).sum) ∧
      ∃ actions after, ((system (.thread 0) .multiThreaded).restrict fun _ action => action.inner = true).Run
        worker actions after ∧ (after.current = .exited ∨ after.current = .body .thread ∨
          (∃ site deadline, after.current = .asleep site deadline) ∧ after.tasks = [] ∧ after.fibers = []) := by
  obtain ⟨worker, reachable, seen⟩ := System.reachable_of_replay
    (· = (initial (.thread 0) .multiThreaded : Worker Nat Fiber.address)) admissibleStep rfl
    [.proceed 0 ⟨.thread 0, 0⟩, .proceed 0 ⟨.thread 0, 0⟩, .proceed 0 ⟨.thread 0, 0⟩, .enqueue ⟨1, .none⟩,
      .enqueue ⟨2, .none⟩]
    (fun worker => decide (worker.tasks.length = 2 ∧ worker.current = .asleep .run none ∧
      worker.backlog worker.current = 2 ∧ worker.pendingNotifies = 2)) (by decide +kernel)
  obtain ⟨two, asleep, backlog, pending⟩ := of_decide_eq_true seen
  obtain ⟨bounded, rests⟩ := comes_to_rest reachable
  rw [backlog, pending] at bounded
  exact ⟨worker, two, asleep, bounded, rests⟩

end Worker

end MiniMarl
