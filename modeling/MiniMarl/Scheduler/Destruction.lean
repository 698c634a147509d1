import Mathlib.Tactic.IntervalCases
import MiniMarl.Scheduler.Shutdown
import MiniMarl.Worker.Drain

namespace MiniMarl

open Transition

namespace Worker

variable {φ : Type} {address : Fiber ↪ Nat} {worker after : Worker φ address}

/-- A thread that has exited left no task behind. -/
def Settled (worker : Worker φ address) : Prop := worker.current = .exited → worker.tasks = []

theorem Valid.tasks_ending (valid : worker.Valid) (settled : worker.Settled)
    (ending : worker.current = .exited ∨ worker.current = .left) : worker.tasks = [] := by
  rcases ending with gone | left
  · exact settled gone
  · exact (valid.executing_left left).1

theorem held?_ending (ending : worker.current = .exited ∨ worker.current = .left) :
    worker.current.held? = none := by
  rcases ending with found | found <;> rw [found] <;> rfl

/-- Only a push onto a worker that is gone leaves a task there. -/
theorem Settled.step (settled : worker.Settled) (valid : worker.Valid) {action : Action φ}
    (moved : worker.admissibleStep action = some after)
    (spared : ∀ task, action = .enqueue task → worker.current ≠ .exited) : after.Settled := by
  obtain ⟨_, effect, arrives⟩ := valid.next moved
  intro gone
  have ending := arrives.exited gone
  have noTasks := valid.tasks_ending settled ending
  cases effect with
  | quiet quiet => rw [quiet.tasks, noTasks]
  | pushed =>
      have free : worker.mutexFree = true := by
        have done := step_of_admissibleStep moved
        simp only [Worker.step] at done
        split at done
        · assumption
        · cases done
      rcases ending with found | left
      · exact absurd found (spared _ rfl)
      · exact absurd left (mutexFree_not_left free)
  | robbed id mode stealable foreign tasks => simp [noTasks] at tasks
  | took frame threaded free held =>
      rw [gone] at held
      cases held
  | adopted id mode threaded tasks history executing held free =>
      rw [held?_ending ending] at held
      cases held
  | started id mode tasks => simp [noTasks] at tasks
  | finished id mode tasks history executing found free => rw [tasks, noTasks]

theorem Valid.executing_exited (valid : worker.Valid) (gone : worker.current = .exited) :
    worker.executing = [] := by
  rcases valid with inv | drained
  · refine List.filterMap_eq_nil_iff.mpr ?_
    intro fiber member
    by_cases here : fiber = worker.currentFiber
    · have place : worker.position fiber = .exited := here ▸ gone
      rw [place]
      rfl
    · rw [(inv.others_idle (inv.exiting gone).2 member here).2]
      rfl
  · exact drained.executing_nil

/-- A worker that is gone answers for finished tasks only. -/
theorem Valid.content_exited (valid : worker.Valid) (settled : worker.Settled)
    (gone : worker.current = .exited) : worker.content = worker.finished := by
  simp [content, settled gone, valid.executing_exited gone, gone, Position.held?]

end Worker

/-- The worker threads from this index on have been joined. -/
def Destructor.joinedFrom? : Destructor → Option Nat
  | .idle | .waiting => none
  | .stopping remaining => some remaining
  | .joining index => some (index + 1)
  | .destroyed => some 0

namespace Scheduler

variable {φ : Type} {address : Fiber ↪ Nat} {scheduler after : Scheduler φ address}

/-- A step that pushes no task onto a worker whose thread has exited. -/
def sparesExited (scheduler : Scheduler φ address) (action : Action φ) : Bool :=
  match scheduler.target? action with
  | some id => !(scheduler.worker id).current.gone
  | none => true

theorem Change.settled {action : Action φ} (change : Change scheduler action after)
    (spares : scheduler.sparesExited action = true) (composed : scheduler.Composed)
    (settled : ∀ id, (scheduler.worker id).Settled) (id : WorkerId) : (after.worker id).Settled := by
  refine change.each (fun _ worker => worker.Settled) composed settled ?_ id
  intro id move next permits moved
  refine (settled id).step (composed.valid id) moved ?_
  rintro task rfl
  cases permits with
  | own own => cases own
  | pushed target =>
      simp only [sparesExited, target, Bool.not_eq_true'] at spares
      intro gone
      simp [gone, Position.gone] at spares

theorem Change.exited {action : Action φ} (change : Change scheduler action after)
    (composed : scheduler.Composed) (id : WorkerId) (gone : (scheduler.worker id).current = .exited) :
    (after.worker id).current = .exited := by
  have stays := change.each (fun id worker => (scheduler.worker id).current = .exited →
    worker.current = .exited) composed (fun _ found => found) ?_ id
  · exact stays gone
  · intro id move next _ moved found
    rw [Worker.step_current (.inr found) (Worker.step_of_admissibleStep moved), found]

/-- How a step changes the part of the scheduler that its destructor reads. -/
inductive Control (before after : Scheduler φ address) : Prop where
  | steady (destructor : after.destructor = before.destructor) (byTid : after.byTid = before.byTid)
      (binds : after.binds = before.binds)
      (calls : ∀ call ∈ after.calls, ∃ old ∈ before.calls, old.party = call.party)
  | entered (destructor : after.destructor = before.destructor) (byTid : after.byTid = before.byTid)
      (binds : after.binds = before.binds) (worker : after.worker = before.worker)
      (calls : ∀ call ∈ after.calls, (∃ old ∈ before.calls, old.party = call.party) ∨
        ∀ id, call.party = .worker id →
          before.present id = true ∧ runsUserCode (before.worker id) = true)
  | bound (destructor : after.destructor = before.destructor)
      (early : before.destructor.joinedFrom? = none) (byTid : after.byTid = before.byTid ++ [before.binds])
      (binds : after.binds = before.binds + 1) (calls : after.calls = before.calls)
  | unbound (index : Nat) (destructor : after.destructor = before.destructor)
      (gone : (before.worker (.bound index)).current = .exited)
      (byTid : after.byTid = before.byTid.erase index) (binds : after.binds = before.binds)
      (calls : after.calls = before.calls)
  | destroyed (byTid : after.byTid = before.byTid) (binds : after.binds = before.binds)
      (calls : after.calls = before.calls)
      (joined : ∀ bound, after.destructor.joinedFrom? = some bound →
        before.byTid = [] ∧ bound = before.count ∨ before.destructor.joinedFrom? = some bound ∨
        before.destructor.joinedFrom? = some (bound + 1) ∧
          (before.worker (.thread bound)).current = .exited)

theorem act_control {id : WorkerId} {action : Worker.Action (Closure φ)}
    (moved : scheduler.act id action = some after) : Control scheduler after := by
  obtain ⟨_, _, _, rfl⟩ := act_cases moved
  exact .steady rfl rfl rfl fun call member => ⟨call, member, rfl⟩

theorem own_control {id : WorkerId} {action : Worker.Action (Closure φ)}
    (moved : scheduler.own id action = some after) : Control scheduler after := by
  cases action with
  | proceed now pick =>
      simp only [own, proceed] at moved
      split at moved
      · split at moved
        · obtain ⟨_, _, _, rfl⟩ := act_cases moved
          exact .steady rfl rfl rfl fun call member => ⟨call, member, rfl⟩
        · cases moved
      · exact act_control moved
  | notify fiber => exact act_control moved
  | notifyAdded => exact act_control moved
  | wake => exact act_control moved
  | expire now => exact act_control moved
  | suspend timeout => exact act_control (Option.ite_none_right_eq_some.mp moved).2
  | stop => exact act_control (Option.ite_none_right_eq_some.mp moved).2
  | finish => exact act_control (Option.ite_none_right_eq_some.mp moved).2
  | enqueue task => cases moved
  | steal => cases moved
  | adopt task => cases moved
  | setShutdown => cases moved

theorem stealWork_control {thief : WorkerId} {source : Nat}
    (moved : scheduler.stealWork thief source = some after) : Control scheduler after := by
  unfold stealWork at moved
  dsimp only at moved
  rw [Option.ite_none_right_eq_some, Option.ite_none_right_eq_some] at moved
  obtain ⟨_, _, moved⟩ := moved
  split at moved
  · obtain ⟨middle, robbing, adopting⟩ := Option.bind_eq_some_iff.mp moved
    obtain ⟨_, _, _, rfl⟩ := act_cases robbing
    obtain ⟨_, _, _, rfl⟩ := act_cases adopting
    exact .steady rfl rfl rfl fun call member => ⟨call, member, rfl⟩
  · cases moved

theorem enqueueNext_control {call : Call φ} (member : call ∈ scheduler.calls)
    (moved : scheduler.enqueueNext call = some after) : Control scheduler after := by
  have erased : ∀ other ∈ scheduler.calls.eraseP fun each => each.party = call.party,
      ∃ old ∈ scheduler.calls, old.party = other.party :=
    fun other inside => ⟨other, List.mem_of_mem_eraseP inside, rfl⟩
  have restaged (stage : Stage) : ∀ other ∈ ({ call with stage } : Call φ) ::
      scheduler.calls.eraseP fun each => each.party = call.party,
      ∃ old ∈ scheduler.calls, old.party = other.party :=
    List.forall_mem_cons.mpr ⟨⟨call, member, rfl⟩, erased⟩
  have pushed {id : WorkerId} (moved : scheduler.push call id = some after) : Control scheduler after := by
    obtain ⟨_, _, _, rfl⟩ := act_cases moved
    exact .steady rfl rfl rfl erased
  unfold enqueueNext at moved
  split at moved
  · split at moved
    · obtain ⟨id, _, rfl⟩ := Option.map_eq_some_iff.mp moved
      exact .steady rfl rfl rfl (restaged _)
    · split at moved
      · obtain rfl := Option.some.inj moved
        exact .steady rfl rfl rfl (restaged _)
      · obtain ⟨id, _, rfl⟩ := Option.map_eq_some_iff.mp moved
        exact .steady rfl rfl rfl (restaged _)
  · obtain rfl := Option.some.inj moved
    exact .steady rfl rfl rfl (restaged _)
  · obtain rfl := Option.some.inj moved
    exact .steady rfl rfl rfl (restaged _)
  · split at moved
    · exact pushed moved
    · obtain rfl := Option.some.inj moved
      exact .steady rfl rfl rfl (restaged _)
  · exact pushed moved

theorem destroy_control (moved : scheduler.destroy = some after) : Control scheduler after := by
  unfold destroy at moved
  cases stage : scheduler.destructor with
  | idle =>
      simp only [stage, Option.some.injEq] at moved
      subst moved
      exact .destroyed rfl rfl rfl (by simp [Destructor.joinedFrom?])
  | waiting =>
      simp only [stage, Option.ite_none_right_eq_some, Option.some.injEq] at moved
      obtain ⟨unbound, rfl⟩ := moved
      exact .destroyed rfl rfl rfl (by simp [Destructor.joinedFrom?, unbound])
  | stopping remaining =>
      cases remaining with
      | zero =>
          simp only [stage, Option.some.injEq] at moved
          subst moved
          exact .destroyed rfl rfl rfl (by simp [Destructor.joinedFrom?, stage])
      | succ index =>
          simp only [stage] at moved
          obtain ⟨_, _, _, rfl⟩ := act_cases moved
          exact .destroyed rfl rfl rfl (by simp [Destructor.joinedFrom?, stage])
  | joining index =>
      simp only [stage, Option.ite_none_right_eq_some, Option.some.injEq] at moved
      obtain ⟨gone, rfl⟩ := moved
      refine .destroyed rfl rfl rfl ?_
      rintro _ ⟨rfl⟩
      exact .inr (.inr ⟨by rw [stage]; rfl, Position.gone_iff.mp gone⟩)
  | destroyed => simp [stage] at moved

theorem step_control {action : Action φ} (moved : scheduler.step action = some after) :
    Control scheduler after := by
  unfold step at moved
  split at moved
  · cases moved
  · cases action with
    | own id action => exact own_control moved
    | onBeginSpinning id =>
        simp only [onBeginSpinning, Option.ite_none_right_eq_some, Option.some.injEq] at moved
        obtain ⟨_, rfl⟩ := moved
        exact .steady rfl rfl rfl fun call member => ⟨call, member, rfl⟩
    | stealWork thief source => exact stealWork_control moved
    | assignShutdown id =>
        simp only [assignShutdown] at moved
        split at moved
        · exact act_control (Option.ite_none_right_eq_some.mp moved).2
        · cases moved
    | enqueue party function flags =>
        simp only [enqueue, Option.ite_none_right_eq_some, Option.some.injEq, Bool.and_eq_true] at moved
        obtain ⟨⟨ready, _⟩, rfl⟩ := moved
        refine .entered rfl rfl rfl rfl (List.forall_mem_cons.mpr ⟨.inr ?_, fun call member =>
          .inl ⟨call, member, rfl⟩⟩)
        rintro id rfl
        simpa using ready
    | enqueueNext party =>
        obtain ⟨call, member, moved⟩ := Option.bind_eq_some_iff.mp moved
        exact enqueueNext_control (List.mem_of_find?_eq_some member) moved
    | bind =>
        simp only [bind, Option.ite_none_right_eq_some, Option.some.injEq] at moved
        obtain ⟨early, rfl⟩ := moved
        refine .bound rfl ?_ rfl rfl rfl
        rcases early with found | found <;> rw [found] <;> rfl
    | unbind index =>
        simp only [unbind, Option.ite_none_right_eq_some, Option.some.injEq] at moved
        obtain ⟨⟨_, gone⟩, rfl⟩ := moved
        exact .unbound index rfl (Position.gone_iff.mp gone) rfl rfl rfl
    | destroy => exact destroy_control moved

/-- What the destructor has established so far. -/
structure Joined (scheduler : Scheduler φ address) : Prop where
  unbound : ∀ index < scheduler.binds,
    index ∈ scheduler.byTid ∨ (scheduler.worker (.bound index)).current = .exited
  closed : ∀ bound, scheduler.destructor.joinedFrom? = some bound → scheduler.byTid = []
  threads : ∀ bound, scheduler.destructor.joinedFrom? = some bound →
    ∀ index, bound ≤ index → index < scheduler.count →
      (scheduler.worker (.thread index)).current = .exited

theorem Joined.step (joined : scheduler.Joined) (control : Control scheduler after)
    (count : after.count = scheduler.count)
    (stays : ∀ id, (scheduler.worker id).current = .exited → (after.worker id).current = .exited) :
    after.Joined := by
  obtain ⟨unbound, closed, threads⟩ := joined
  have keeps : ∀ bound, scheduler.destructor.joinedFrom? = some bound → ∀ index, bound ≤ index →
      index < after.count → (after.worker (.thread index)).current = .exited :=
    fun bound from' index low high => stays _ (threads bound from' index low (count ▸ high))
  cases control with
  | steady destructor byTid binds =>
      refine ⟨?_, ?_, ?_⟩
      · rw [binds, byTid]
        exact fun index low => (unbound index low).imp_right (stays _)
      · rw [destructor, byTid]
        exact closed
      · rw [destructor]
        exact keeps
  | entered destructor byTid binds =>
      refine ⟨?_, ?_, ?_⟩
      · rw [binds, byTid]
        exact fun index low => (unbound index low).imp_right (stays _)
      · rw [destructor, byTid]
        exact closed
      · rw [destructor]
        exact keeps
  | bound destructor early byTid binds =>
      refine ⟨?_, ?_, ?_⟩
      · intro index low
        rw [byTid, List.mem_append, List.mem_singleton]
        by_cases newest : index = scheduler.binds
        · exact .inl (.inr newest)
        · rcases unbound index (by omega) with listed | gone
          · exact .inl (.inl listed)
          · exact .inr (stays _ gone)
      · rw [destructor, early]
        simp
      · rw [destructor, early]
        simp
  | unbound leaver destructor gone byTid binds =>
      refine ⟨?_, ?_, ?_⟩
      · intro index low
        by_cases leaves : index = leaver
        · exact .inr (leaves ▸ stays _ gone)
        · rcases unbound index (binds ▸ low) with listed | left
          · exact .inl (byTid ▸ (List.mem_erase_of_ne leaves).mpr listed)
          · exact .inr (stays _ left)
      · intro bound from'
        rw [destructor] at from'
        rw [byTid, closed bound from', List.erase_nil]
      · rw [destructor]
        exact keeps
  | destroyed byTid binds calls joined =>
      refine ⟨?_, ?_, ?_⟩
      · rw [binds, byTid]
        exact fun index low => (unbound index low).imp_right (stays _)
      · intro bound from'
        rw [byTid]
        rcases joined bound from' with ⟨empty, _⟩ | same | ⟨next, _⟩
        · exact empty
        · exact closed bound same
        · exact closed _ next
      · intro bound from' index low high
        rcases joined bound from' with ⟨_, all⟩ | same | ⟨next, gone⟩
        · omega
        · exact keeps bound same index low high
        · by_cases newest : index = bound
          · exact newest ▸ stays _ gone
          · exact keeps _ next index (by omega) high

/-- A worker whose thread is inside `Scheduler::enqueue` runs user code. -/
def Attended (scheduler : Scheduler φ address) : Prop :=
  ∀ call ∈ scheduler.calls, ∀ id, call.party = .worker id →
    scheduler.present id = true ∧ runsUserCode (scheduler.worker id) = true

theorem body_of_runsUserCode {worker : Worker (Closure φ) address} (runs : runsUserCode worker = true) :
    ∃ code, worker.current = .body code := by
  unfold runsUserCode at runs
  split at runs
  · rename_i found
    exact ⟨_, found⟩
  · rename_i found
    exact ⟨_, found⟩
  · cases runs

theorem Change.runsUserCode {action : Action φ} (change : Change scheduler action after)
    (composed : scheduler.Composed) (id : WorkerId) (calling : scheduler.calling (.worker id) = true)
    (runs : runsUserCode (scheduler.worker id) = true) : runsUserCode (after.worker id) = true := by
  have kept := change.each (fun id worker => scheduler.calling (.worker id) = true →
    Scheduler.runsUserCode (scheduler.worker id) = true → Scheduler.runsUserCode worker = true) composed
    (fun _ _ found => found) ?_ id
  · exact kept calling runs
  · intro id move next permits moved calling runs
    have stays : move.leavesBody = false := by
      cases permits with
      | own own assigns leaves =>
          by_contra leaving
          rw [leaves (by simpa using leaving) runs] at calling
          cases calling
      | pushed => rfl
      | robbed => rfl
      | adopted => rfl
    have same := Worker.step_current (.inl ⟨body_of_runsUserCode runs, stays⟩)
      (Worker.step_of_admissibleStep moved)
    unfold Scheduler.runsUserCode at runs ⊢
    rw [same]
    exact runs

theorem Change.present {action : Action φ} (change : Change scheduler action after) (id : WorkerId)
    (present : scheduler.present id = true) : after.present id = true := by
  cases change with
  | still same => rw [present_congr same.count same.binds, present]
  | entered task count binds => rw [present_congr count binds, present]
  | own id action next same => rw [present_congr same.count same.binds, present]
  | pushed id entry next count binds => rw [present_congr count binds, present]
  | stolen victim thief task robbed next same => rw [present_congr same.count same.binds, present]
  | bound count binds =>
      cases id with
      | thread index => simpa [Scheduler.present, count] using present
      | bound index =>
          simp only [Scheduler.present, binds, decide_eq_true_eq] at present ⊢
          omega

theorem Attended.step (attended : scheduler.Attended) {action : Action φ}
    (change : Change scheduler action after) (composed : scheduler.Composed)
    (control : Control scheduler after) : after.Attended := by
  have old {call : Call φ} (member : call ∈ scheduler.calls) {id : WorkerId}
      (party : call.party = .worker id) :
      after.present id = true ∧ Scheduler.runsUserCode (after.worker id) = true := by
    obtain ⟨present, runs⟩ := attended call member id party
    exact ⟨change.present id present, change.runsUserCode composed id
      (List.any_eq_true.mpr ⟨call, member, by simp [party]⟩) runs⟩
  intro call member id party
  cases control with
  | steady destructor byTid binds calls =>
      obtain ⟨other, inside, same⟩ := calls call member
      exact old inside (same.trans party)
  | entered destructor byTid binds worker calls =>
      rcases calls call member with ⟨other, inside, same⟩ | entering
      · exact old inside (same.trans party)
      · obtain ⟨present, runs⟩ := entering id party
        exact ⟨change.present id present, worker ▸ runs⟩
  | bound destructor early byTid binds calls => exact old (calls ▸ member) party
  | unbound leaver destructor gone byTid binds calls => exact old (calls ▸ member) party
  | destroyed byTid binds calls => exact old (calls ▸ member) party

/-- What a run keeps that pushes no task onto an exited worker. -/
structure Finishing (scheduler : Scheduler φ address) : Prop where
  settled : ∀ id, (scheduler.worker id).Settled
  joined : scheduler.Joined
  attended : scheduler.Attended

theorem initial_finishing (count : Nat) : (initial count : Scheduler φ address).Finishing := by
  refine ⟨?_, ⟨?_, ?_, ?_⟩, ?_⟩
  · intro id gone
    cases id <;> simp [initial, Worker.initial, Worker.current] at gone
  · intro index low
    simp [initial] at low
  · simp [initial, Destructor.joinedFrom?]
  · simp [initial, Destructor.joinedFrom?]
  · intro call member
    simp [initial] at member

theorem Change.count {action : Action φ} (change : Change scheduler action after) :
    after.count = scheduler.count := by
  cases change with
  | still same => exact same.count
  | entered task count => exact count
  | own id action next same => exact same.count
  | pushed id entry next count => exact count
  | stolen victim thief task robbed next same => exact same.count
  | bound count => exact count

theorem finishing_of_sparesExited {count : Nat} (reachable : ((system count).restrict
    fun state action => state.sparesExited action = true).Reachable scheduler) : scheduler.Finishing := by
  refine reachable.invariant ?_ ?_
  · rintro _ rfl
    exact initial_finishing count
  · rintro state action next before ⟨settled, joined, attended⟩ ⟨spares, moved⟩
    have composed := (conserved_of_reachable before.unrestrict).composed
    obtain ⟨change, _⟩ := (routed_of_reachable before.unrestrict).step moved
    have control := step_control moved
    exact ⟨change.settled spares composed settled, joined.step control change.count (change.exited composed),
      attended.step change composed control⟩

/-- Every task that was pushed has been executed, and no worker is still about
to push one. -/
structure RanEverything (scheduler : Scheduler φ address) : Prop where
  finished : scheduler.handedTasks = ∑ id ∈ scheduler.workers, ((scheduler.worker id).finished : Multiset _)
  called : ∀ call ∈ scheduler.calls, ∃ thread, call.party = .thread thread

/-- In every run that pushes no task onto an exited worker, the destructor
completes only when everything has been executed. -/
theorem ranEverything_of_sparesExited {count : Nat} (reachable : ((system count).restrict
    fun state action => state.sparesExited action = true).Reachable scheduler)
    (completed : scheduler.destructor = .destroyed) : scheduler.RanEverything := by
  have conserved := conserved_of_reachable reachable.unrestrict
  obtain ⟨settled, ⟨unbound, closed, threads⟩, attended⟩ := finishing_of_sparesExited reachable
  have from' : scheduler.destructor.joinedFrom? = some 0 := by rw [completed]; rfl
  have gone : ∀ id, scheduler.present id = true → (scheduler.worker id).current = .exited := by
    intro id present
    cases id with
    | thread index => exact threads 0 from' index (Nat.zero_le _) (by simpa [Scheduler.present] using present)
    | bound index =>
        rcases unbound index (by simpa [Scheduler.present] using present) with listed | left
        · simp [closed 0 from'] at listed
        · exact left
  constructor
  · rw [← conserved.content]
    exact Finset.sum_congr rfl fun id member =>
      (conserved.composed.valid id).content_exited (settled id) (gone id (mem_workers.mp member))
  · intro call member
    cases party : call.party with
    | thread thread => exact ⟨thread, rfl⟩
    | worker id =>
        obtain ⟨present, runs⟩ := attended call member id party
        obtain ⟨code, found⟩ := body_of_runsUserCode runs
        rw [gone id present] at found
        cases found

/-- Worker thread 1 is stopped and joined while a task still runs on worker
thread 0; what that task enqueues next goes to worker thread 1. -/
def lateEnqueue : List (Action Nat) :=
  [.enqueue (.thread 0) 7 .none] ++ List.replicate 4 (.enqueueNext (.thread 0)) ++ goOn 0 7 ++
    List.replicate 3 .destroy ++ goOn 1 7 ++
    [.assignShutdown (.thread 1), .own (.thread 1) .finish] ++ goOn 1 3 ++ [.destroy] ++
    [.enqueue (.worker (.thread 0)) 8 .none] ++ List.replicate 4 (.enqueueNext (.worker (.thread 0))) ++
    [.destroy, .own (.thread 0) .finish] ++ goOn 0 1 ++
    [.assignShutdown (.thread 0), .own (.thread 0) .finish] ++ goOn 0 3 ++ [.destroy, .destroy]

/-- The destructor completes, and the task pushed last has not been executed. -/
theorem task_lost_lateEnqueue : ∃ scheduler : Scheduler Nat Fiber.address,
    (system 2).Reachable scheduler ∧ scheduler.destructor = .destroyed ∧
      (scheduler.worker (.thread 1)).tasks = [⟨.user 8, .none⟩] ∧ ¬scheduler.RanEverything := by
  obtain ⟨scheduler, reachable, observed⟩ := System.reachable_of_replay (· = initial 2) step rfl lateEnqueue
    (fun scheduler : Scheduler Nat Fiber.address =>
      decide (scheduler.destructor = .destroyed) && decide (scheduler.count = 2) &&
        decide (scheduler.binds = 0) &&
        decide ((scheduler.worker (.thread 1)).tasks = [⟨.user 8, .none⟩]) &&
        decide ((⟨.user 8, .none⟩ : Task (Closure Nat)) ∈ scheduler.handed.map Handed.task) &&
        decide ((⟨.user 8, .none⟩ : Task (Closure Nat)) ∉ (scheduler.worker (.thread 0)).finished) &&
        decide ((⟨.user 8, .none⟩ : Task (Closure Nat)) ∉ (scheduler.worker (.thread 1)).finished))
    (by decide +kernel)
  simp only [Bool.and_eq_true, decide_eq_true_eq] at observed
  obtain ⟨⟨⟨⟨⟨⟨completed, count⟩, binds⟩, left⟩, handed⟩, absentZero⟩, absentOne⟩ := observed
  refine ⟨scheduler, reachable, completed, left, fun ran => ?_⟩
  have executed : (⟨.user 8, .none⟩ : Task (Closure Nat)) ∈ scheduler.handedTasks := handed
  rw [ran.finished, Multiset.mem_sum] at executed
  obtain ⟨id, member, executed⟩ := executed
  rw [mem_workers] at member
  cases id with
  | thread index =>
      simp only [present, count, decide_eq_true_eq] at member
      interval_cases index
      · exact absentZero executed
      · exact absentOne executed
  | bound index => simp [present, binds] at member

/-- A task on worker thread 0 enqueues another one while the destructor joins
worker thread 1, which runs it after its stop task. -/
def joiningEnqueue : List (Action Nat) :=
  [.enqueue (.thread 0) 7 .none] ++ List.replicate 4 (.enqueueNext (.thread 0)) ++ goOn 0 7 ++
    List.replicate 3 .destroy ++ [.enqueue (.worker (.thread 0)) 8 .none] ++
    List.replicate 4 (.enqueueNext (.worker (.thread 0))) ++ goOn 1 7 ++
    [.assignShutdown (.thread 1), .own (.thread 1) .finish] ++ goOn 1 1 ++ [.own (.thread 1) .finish] ++ goOn 1 3 ++
    [.destroy, .destroy, .own (.thread 0) .finish] ++ goOn 0 1 ++
    [.assignShutdown (.thread 0), .own (.thread 0) .finish] ++ goOn 0 3 ++ [.destroy, .destroy]

theorem ranEverything_joiningEnqueue : ∃ scheduler : Scheduler Nat Fiber.address,
    scheduler.destructor = .destroyed ∧
      scheduler.handed.map Handed.task = [stopTask 0, ⟨.user 8, .none⟩, stopTask 1, ⟨.user 7, .none⟩] ∧
      (scheduler.worker (.thread 1)).finished = [stopTask 1, ⟨.user 8, .none⟩] ∧ scheduler.RanEverything := by
  obtain ⟨scheduler, reachable, observed⟩ := System.reachable_of_guarded_replay (· = initial 2) step
    sparesExited rfl joiningEnqueue
    (fun scheduler : Scheduler Nat Fiber.address => decide (scheduler.destructor = .destroyed ∧
      scheduler.handed.map Handed.task = [stopTask 0, ⟨.user 8, .none⟩, stopTask 1, ⟨.user 7, .none⟩] ∧
      (scheduler.worker (.thread 1)).finished = [stopTask 1, ⟨.user 8, .none⟩])) (by decide +kernel)
  obtain ⟨completed, handed, finished⟩ := of_decide_eq_true observed
  exact ⟨scheduler, completed, handed, finished, ranEverything_of_sparesExited reachable completed⟩

end Scheduler

end MiniMarl
