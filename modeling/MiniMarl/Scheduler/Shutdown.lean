import MiniMarl.Scheduler.Conservation

namespace MiniMarl

open Transition

namespace Worker

variable {φ : Type} {address : Fiber ↪ Nat} {worker : Worker φ address}

/-- The thread sleeps in `Work::wait`. -/
def asleep (worker : Worker φ address) : Bool :=
  match worker.current with
  | .asleep _ _ => true
  | _ => false

/-- A worker that was told to shut down sleeps, with nothing to do and no
notification on its way. `thread_.join()` waits for it forever. -/
def stuck (worker : Worker φ address) : Bool :=
  worker.asleep && worker.shutdown && worker.num = 0 && worker.numBlockedFibers = 0 &&
    worker.pendingNotifies = 0

/-- A thread that sleeps has not missed its shutdown. -/
def Alert (worker : Worker φ address) : Prop :=
  ∀ site deadline, worker.current = .asleep site deadline →
    ¬(worker.shutdown = true ∧ worker.numBlockedFibers = 0)

theorem Alert.not_stuck (alert : worker.Alert) : worker.stuck = false := by
  cases found : worker.current with
  | asleep site deadline =>
      have missed := alert site deadline found
      simp only [stuck]
      grind
  | _ => simp [stuck, asleep, found]

theorem alert_of_unmet {site : WaitSite φ} (unmet : worker.predicate site = false) :
    ¬(worker.shutdown = true ∧ worker.numBlockedFibers = 0) := by
  rintro ⟨shutDown, clear⟩
  cases site <;> simp [predicate, shutDown, clear] at unmet

/-- Only a write of `shutdown` by another thread can reach a sleeping worker. -/
theorem Arrives.alert {action : Action φ} {after : Worker φ address}
    (arrives : Arrives worker action after) (alert : worker.Alert)
    (awake : action = .setShutdown → ∀ site deadline, worker.current ≠ .asleep site deadline) :
    after.Alert := by
  intro site deadline asleep
  rcases arrives.asleep site deadline asleep with unmet | ⟨before, blocked, shutdown | writes⟩
  · exact alert_of_unmet unmet
  · rw [blocked, shutdown]
    exact alert site deadline before
  · exact absurd before (awake writes site deadline)

theorem Valid.mem_executing (valid : worker.Valid) (found : worker.current = .body (.task task)) :
    task ∈ worker.executing := by
  have member : worker.currentFiber ∈ worker.allFibers := by
    rcases valid with inv | drained
    · exact inv.member
    · rw [drained.onMain]
      exact List.mem_cons_self
  refine List.mem_filterMap.mpr ⟨worker.currentFiber, member, ?_⟩
  change worker.current.task? = some task
  rw [found]
  rfl

end Worker

namespace Scheduler

variable {φ : Type} {address : Fiber ↪ Nat} {scheduler after : Scheduler φ address}

/-- A step that does not let a thief take the stop task of another worker. -/
def keepsStops (scheduler : Scheduler φ address) : Action φ → Bool
  | .stealWork _ source =>
      match (scheduler.worker (.thread (source % scheduler.count))).tasks with
      | ⟨.stop _, _⟩ :: _ => false
      | _ => true
  | _ => true

/-- Stop tasks are with the workers they are meant for. -/
def Located (scheduler : Scheduler φ address) : Prop :=
  ∀ id, ∀ task ∈ (scheduler.worker id).content, ∀ index, task.function = .stop index → id = .thread index

theorem Located.executor (located : scheduler.Located) (composed : scheduler.Composed)
    {id : WorkerId} (executing : (scheduler.worker id).current = .body (.task ⟨.stop index, flags⟩)) :
    id = .thread index := by
  refine located id ⟨.stop index, flags⟩ ?_ index rfl
  have member := (composed.valid id).mem_executing executing
  simp [Worker.content, member]

theorem Change.located {action : Action φ} (change : Change scheduler action after)
    (keeps : scheduler.keepsStops action = true) (composed : scheduler.Composed) (located : scheduler.Located) :
    after.Located := by
  refine change.each (fun id worker => ∀ task ∈ worker.content, ∀ index,
    task.function = .stop index → id = .thread index) composed located ?_
  intro id move next permits moved task member index stops
  have effect := ((composed.valid id).next moved).2.1
  cases permits with
  | own own => exact located id task (effect.content_own own ▸ member) index stops
  | pushed target meant =>
      rw [effect.content_enqueue, Multiset.mem_add, Multiset.mem_singleton] at member
      rcases member with rfl | member
      · exact meant index stops
      · exact located id task member index stops
  | robbed front =>
      refine located id task ?_ index stops
      rw [effect.content_steal front]
      exact Multiset.mem_add.mpr (.inr member)
  | adopted stealing front =>
      subst stealing
      rw [effect.content_adopt, Multiset.mem_add, Multiset.mem_singleton] at member
      rcases member with rfl | member
      · obtain ⟨function, flags⟩ := task
        obtain rfl : function = .stop index := stops
        simp [keepsStops, front] at keeps
      · exact located id task member index stops

theorem Change.alert {action : Action φ} (change : Change scheduler action after)
    (composed : scheduler.Composed) (located : scheduler.Located)
    (alert : ∀ id, (scheduler.worker id).Alert) (other : WorkerId) : (after.worker other).Alert := by
  refine change.each (fun _ worker => worker.Alert) composed alert ?_ other
  intro id move next permits moved
  refine ((composed.valid id).next moved).2.2.alert (alert id) ?_
  rintro rfl site deadline asleep
  cases permits with
  | own own assigns =>
      obtain ⟨executor, index, flags, _, executing, rfl⟩ := assigns rfl
      rw [located.executor composed executing, asleep] at executing
      cases executing

/-- What `stop` needs of a scheduler: the stop task of a worker is executed by
its own thread, which writes its own `shutdown`, and nobody sleeps through it. -/
structure ShutsDown (scheduler : Scheduler φ address) : Prop where
  executed : ∀ id task index,
    task ∈ (scheduler.worker id).executing ∨ task ∈ (scheduler.worker id).finished →
    task.function = .stop index → id = .thread index
  written : ∀ id next, scheduler.step (.assignShutdown id) = some next →
    next.worker = Function.update scheduler.worker id { scheduler.worker id with shutdown := true }
  awake : ∀ id, (scheduler.worker id).stuck = false

theorem Located.written (located : scheduler.Located) (composed : scheduler.Composed) {id : WorkerId}
    (moved : scheduler.step (.assignShutdown id) = some after) :
    after.worker = Function.update scheduler.worker id { scheduler.worker id with shutdown := true } := by
  unfold step at moved
  split at moved
  · cases moved
  · simp only [assignShutdown] at moved
    split at moved
    · rename_i index flags executing
      rw [Option.ite_none_right_eq_some] at moved
      obtain ⟨next, _, done, rfl⟩ := act_cases moved.2
      obtain rfl := located.executor composed executing
      have threaded : (scheduler.worker (.thread index)).mode = .multiThreaded :=
        Worker.mode_of_reachable (composed.runs (.thread index))
      rw [Worker.admissibleStep, if_pos (by rfl), Worker.step, if_pos threaded] at done
      obtain rfl := Option.some.inj done
      rfl
    · cases moved

/-- What the steps keep that take no stop task away. -/
structure Heeded (scheduler : Scheduler φ address) : Prop where
  located : scheduler.Located
  alert : ∀ id, (scheduler.worker id).Alert

theorem initial_heeded (count : Nat) : (initial count : Scheduler φ address).Heeded := by
  constructor
  · intro id task member
    rw [initial_worker_content] at member
    cases member
  · intro id site deadline asleep
    cases id <;> simp [initial, Worker.initial, Worker.current] at asleep

theorem heeded_of_keepsStops {count : Nat}
    (reachable : ((system count).restrict fun state action => state.keepsStops action = true).Reachable scheduler) : scheduler.Heeded := by
  refine reachable.invariant ?_ ?_
  · rintro _ rfl
    exact initial_heeded count
  · rintro state action next before ⟨located, alert⟩ ⟨keeps, moved⟩
    have composed := (conserved_of_reachable before.unrestrict).composed
    obtain ⟨change, _⟩ := (routed_of_reachable before.unrestrict).step moved
    exact ⟨change.located keeps composed located, change.alert composed located alert⟩

/-- In every run in which no thief takes a stop task, shutting down works. -/
theorem shutsDown_of_keepsStops {count : Nat}
    (reachable : ((system count).restrict fun state action => state.keepsStops action = true).Reachable scheduler) : scheduler.ShutsDown := by
  have composed := (conserved_of_reachable reachable.unrestrict).composed
  obtain ⟨located, alert⟩ := heeded_of_keepsStops reachable
  refine ⟨?_, fun id next moved => located.written composed moved, fun id => (alert id).not_stuck⟩
  intro id task index executed stops
  refine located id task ?_ index stops
  simp only [Worker.content, Multiset.mem_add, Multiset.mem_coe]
  tauto

/-- Worker thread 0 steals a task of a user from worker thread 1. Afterwards each
of them gets its own stop task, and runs it. -/
def userTheft : List (Action Nat) :=
  goOn 1 3 ++ [.enqueue (.thread 0) 7 .none] ++ List.replicate 4 (.enqueueNext (.thread 0)) ++
    [.enqueue (.thread 0) 8 .none] ++ List.replicate 4 (.enqueueNext (.thread 0)) ++ goOn 0 7 ++
    [.own (.thread 0) .finish] ++ goOn 0 2 ++ [.onBeginSpinning (.thread 0)] ++ goOn 0 1 ++ [.stealWork (.thread 0) 1] ++
    goOn 0 5 ++ [.own (.thread 0) .finish] ++ List.replicate 3 .destroy ++ [.own (.thread 1) .notifyAdded] ++ goOn 1 5 ++
    [.assignShutdown (.thread 1), .own (.thread 1) .finish] ++ goOn 1 3 ++ goOn 0 2 ++ [.onBeginSpinning (.thread 0)] ++
    goOn 0 1 ++ [.destroy, .destroy] ++ goOn 0 5 ++ [.assignShutdown (.thread 0), .own (.thread 0) .finish]

theorem shutsDown_userTheft : ∃ scheduler : Scheduler Nat Fiber.address,
    (scheduler.worker (.thread 1)).robbed = [⟨.user 8, .none⟩] ∧
      (scheduler.worker (.thread 1)).finished = [stopTask 1] ∧
      (scheduler.worker (.thread 0)).finished = [⟨.user 7, .none⟩, ⟨.user 8, .none⟩, stopTask 0] ∧
      scheduler.ShutsDown := by
  obtain ⟨scheduler, reachable, observed⟩ := System.reachable_of_guarded_replay (· = initial 2) step
    keepsStops rfl userTheft
    (fun scheduler : Scheduler Nat Fiber.address => decide (
      (scheduler.worker (.thread 1)).robbed = [⟨.user 8, .none⟩] ∧
        (scheduler.worker (.thread 1)).finished = [stopTask 1] ∧
        (scheduler.worker (.thread 0)).finished = [⟨.user 7, .none⟩, ⟨.user 8, .none⟩, stopTask 0]))
    (by decide +kernel)
  obtain ⟨robbed, second, first⟩ := of_decide_eq_true observed
  exact ⟨scheduler, robbed, second, first, shutsDown_of_keepsStops reachable⟩

/-- The stop task of worker thread 1 is stolen and runs on worker thread 0, and
worker thread 1 sleeps forever. -/
theorem shutdown_missed_theft : ∃ scheduler : Scheduler Nat Fiber.address,
    (system 2).Reachable scheduler ∧ stopTask 1 ∈ (scheduler.worker (.thread 0)).executing ∧
      (scheduler.worker (.thread 1)).stuck = true ∧ ¬scheduler.ShutsDown := by
  obtain ⟨scheduler, reachable, observed⟩ := System.reachable_of_replay (· = initial 2) step rfl
    (theft ++ [.own (.thread 1) .notifyAdded] ++ goOn 1 1 ++ goOn 0 5 ++ [.assignShutdown (.thread 0)])
    (fun scheduler : Scheduler Nat Fiber.address =>
      decide (stopTask 1 ∈ (scheduler.worker (.thread 0)).executing) &&
        (scheduler.worker (.thread 1)).stuck) (by decide +kernel)
  simp only [Bool.and_eq_true, decide_eq_true_eq] at observed
  refine ⟨scheduler, reachable, observed.1, observed.2, fun shutsDown => ?_⟩
  have awake := shutsDown.awake (.thread 1)
  rw [observed.2] at awake
  cases awake

end Scheduler

end MiniMarl
