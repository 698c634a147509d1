import Mathlib.Tactic.Abel
import MiniMarl.Scheduler.Change

namespace MiniMarl

open Data Transition

namespace Worker

variable {φ : Type} {address : Fiber ↪ Nat} {worker after : Worker φ address}

/-- The tasks a worker answers for: queued, held by its thread between `steal`
and the push-back, executing, and finished. -/
def content (worker : Worker φ address) : Multiset (Task φ) :=
  worker.tasks + worker.current.held?.toList + worker.executing + worker.finished

theorem content_initial (id : WorkerId) (mode : Mode) : (initial id mode : Worker φ address).content = 0 := by
  cases mode <;> simp [content, initial, current, executing, finished, allFibers, mainFiber,
    Position.held?, Position.task?, Position.body?, Position.suspends?]

theorem finished_record (history : after.history = worker.history ++ [event]) :
    after.finished = worker.finished ++ event.finished?.toList := by
  rw [finished, history, List.filterMap_append]
  cases event <;> rfl

theorem coe_cons_add (task : Task φ) (rest : List (Task φ)) :
    ((task :: rest : List (Task φ)) : Multiset (Task φ)) = {task} + rest := by
  rw [Multiset.singleton_add, Multiset.cons_coe]

/-- The worker's own steps keep what it answers for. -/
theorem Effect.content_own {action : Action φ} (effect : Effect worker action after)
    (own : action.transfers = false) : after.content = worker.content := by
  unfold content
  cases effect with
  | quiet quiet =>
      have finishedSame : after.finished = worker.finished := by
        rw [Worker.finished, quiet.history, Worker.finished]
      rw [quiet.tasks, quiet.held, quiet.executing, finishedSame]
  | adopted id mode threaded tasks history executing held free =>
      rw [finished_record history, tasks, held, free, executing]
      simp only [TaskEvent.finished?, Option.toList_some, Option.toList_none, List.append_nil,
        ← Multiset.coe_add, Multiset.coe_singleton, Multiset.coe_nil]
      abel
  | started id mode tasks history executing free stillFree =>
      rw [finished_record history, tasks, free, stillFree, Multiset.coe_eq_coe.mpr executing]
      simp only [TaskEvent.finished?, Option.toList_none, List.append_nil, coe_cons_add, Multiset.coe_nil]
      abel
  | finished id mode tasks history executing found free =>
      have heldNone : worker.current.held? = none := by rw [found]; rfl
      rw [finished_record history, tasks, free, heldNone, Multiset.coe_eq_coe.mpr executing]
      simp only [TaskEvent.finished?, Option.toList_some, ← Multiset.coe_add, Multiset.coe_singleton,
        Option.toList_none, Multiset.coe_nil, coe_cons_add]
      abel
  | pushed => cases own
  | robbed => cases own
  | took => cases own

theorem Effect.content_enqueue (effect : Effect worker (.enqueue task) after) :
    after.content = {task} + worker.content := by
  cases effect with
  | quiet quiet own => cases own
  | pushed id mode tasks history executing held =>
      unfold content
      rw [finished_record history, tasks, executing, held]
      simp only [TaskEvent.finished?, Option.toList_none, List.append_nil, ← Multiset.coe_add,
        Multiset.coe_singleton]
      abel

theorem Effect.content_steal (effect : Effect worker .steal after) (front : worker.tasks = task :: rest) :
    worker.content = {task} + after.content := by
  cases effect with
  | quiet quiet own => cases own
  | robbed id mode stealable foreign tasks history executing held =>
      rw [front, List.cons.injEq] at tasks
      obtain ⟨rfl, same⟩ := tasks
      unfold content
      rw [finished_record history, front, executing, held, ← same]
      simp only [TaskEvent.finished?, Option.toList_none, List.append_nil, coe_cons_add]
      abel

theorem Effect.content_adopt (effect : Effect worker (.adopt task) after) :
    after.content = {task} + worker.content := by
  cases effect with
  | quiet quiet own => cases own
  | took frame threaded free held =>
      have finishedSame : after.finished = worker.finished := by
        rw [Worker.finished, frame.history, Worker.finished]
      unfold content
      rw [frame.tasks, frame.executing, free, held, finishedSame]
      simp only [Option.toList_some, Option.toList_none, Multiset.coe_singleton, Multiset.coe_nil]
      abel

theorem worker_of_mem_allFibers (created : worker.workerFibers =
    (List.range worker.workerFibers.length).map fun index => ⟨worker.id, index + 1⟩)
    (member : fiber ∈ worker.allFibers) : fiber.worker = worker.id := by
  rw [allFibers, created, List.mem_cons, List.mem_map] at member
  rcases member with rfl | ⟨_, _, rfl⟩ <;> rfl

/-- A worker queues and resumes the fibers that it created. -/
theorem Valid.worker_of_fiber (valid : worker.Valid)
    (used : fiber ∈ worker.fibers ∨ fiber = worker.currentFiber) : fiber.worker = worker.id := by
  rcases valid with inv | drained
  · refine worker_of_mem_allFibers inv.created ?_
    rcases used with queued | rfl
    · exact ((inv.queued fiber).mp queued).1
    · exact inv.member
  · rcases used with queued | rfl
    · simp [drained.noFibers] at queued
    · rw [drained.onMain]
      rfl

theorem id_of_reachable {id : WorkerId} {mode : Mode}
    (reachable : (system id mode).Reachable worker) : worker.id = id := by
  induction reachable with
  | initial start =>
      rw [start]
      rfl
  | step before moved same => exact ((valid_of_reachable before).next moved).2.1.frame.1.trans same

end Worker

/-- Worker threads and bound threads have their own modes. -/
def WorkerId.mode : WorkerId → Mode
  | .thread _ => .multiThreaded
  | .bound _ => .singleThreaded

namespace Scheduler

variable {φ : Type} {address : Fiber ↪ Nat} {scheduler after : Scheduler φ address}

/-- The workers that have been created. -/
def workers (scheduler : Scheduler φ address) : Finset WorkerId :=
  (Finset.range scheduler.count).image .thread ∪ (Finset.range scheduler.binds).image .bound

@[simp] theorem mem_workers {id : WorkerId} : id ∈ scheduler.workers ↔ scheduler.present id = true := by
  cases id <;> simp [workers, present]

/-- Each worker of a scheduler runs as a worker on its own does, from the time
it is created. -/
structure Composed (scheduler : Scheduler φ address) : Prop where
  runs : ∀ id, (Worker.system id id.mode).Reachable (scheduler.worker id)
  fresh : ∀ id, scheduler.present id = false → scheduler.worker id = .initial id id.mode

theorem Composed.valid (composed : scheduler.Composed) (id : WorkerId) : (scheduler.worker id).Valid :=
  Worker.valid_of_reachable (composed.runs id)

theorem present_congr (count : after.count = scheduler.count) (binds : after.binds = scheduler.binds)
    (id : WorkerId) : after.present id = scheduler.present id := by
  cases id <;> simp [present, count, binds]

theorem Composed.update (composed : scheduler.Composed) {id : WorkerId}
    {action : Worker.Action (Closure φ)} {next : Worker (Closure φ) address}
    (present : scheduler.present id = true)
    (moved : (scheduler.worker id).admissibleStep action = some next)
    (count : after.count = scheduler.count) (binds : after.binds = scheduler.binds)
    (worker : after.worker = Function.update scheduler.worker id next) : after.Composed := by
  constructor
  · intro other
    rw [worker]
    by_cases here : other = id
    · subst other
      rw [Function.update_self]
      exact (composed.runs id).step moved
    · rw [Function.update_of_ne here]
      exact composed.runs other
  · intro other absent
    rw [present_congr count binds] at absent
    rw [worker, Function.update_of_ne]
    · exact composed.fresh other absent
    · rintro rfl
      rw [present] at absent
      cases absent

theorem Composed.still (composed : scheduler.Composed)
    (wider : ∀ id, scheduler.present id = true → after.present id = true)
    (worker : after.worker = scheduler.worker) : after.Composed := by
  constructor
  · rw [worker]
    exact composed.runs
  · intro id absent
    rw [worker]
    refine composed.fresh id ?_
    rw [← Bool.not_eq_true] at absent ⊢
    exact fun present => absent (wider id present)

/-- `bind` takes a worker that nobody has used before. -/
theorem Composed.bound_unchanged (composed : scheduler.Composed)
    (worker : after.worker = Function.update scheduler.worker (.bound scheduler.binds)
      (.initial (.bound scheduler.binds) .singleThreaded)) : after.worker = scheduler.worker := by
  have fresh := composed.fresh (.bound scheduler.binds) (by simp [present])
  rw [worker, ← WorkerId.mode, ← fresh, Function.update_eq_self]

theorem Change.composed {action : Action φ} (change : Change scheduler action after)
    (composed : scheduler.Composed) : after.Composed := by
  cases change with
  | still same worker =>
      exact composed.still (fun id => (present_congr same.count same.binds id).symm ▸ fun found => found) worker
  | entered task count binds inFlight called handed worker =>
      exact composed.still (fun id => (present_congr count binds id).symm ▸ fun found => found) worker
  | own id action next same present own assigns leaves moved worker =>
      exact composed.update present moved same.count same.binds worker
  | pushed id entry next count binds present target home stops moved worker =>
      exact composed.update present moved count binds worker
  | stolen victim thief task robbed next same victimIs different present front foreign taken adopted worker =>
      let middle : Scheduler φ address :=
        { scheduler with worker := Function.update scheduler.worker victim robbed }
      have middleComposed : middle.Composed := composed.update present.1 taken rfl rfl rfl
      have thiefSame : middle.worker thief = scheduler.worker thief :=
        Function.update_of_ne (Ne.symm different) _ _
      have thiefPresent : middle.present thief = true := by
        rw [present_congr rfl rfl]
        exact present.2
      exact middleComposed.update thiefPresent (thiefSame ▸ adopted) same.count same.binds worker
  | bound count binds inFlight called handed worker =>
      refine composed.still ?_ (composed.bound_unchanged worker)
      intro id
      cases id with
      | thread index => simp [present, count]
      | bound index =>
          simp only [present, binds, decide_eq_true_eq]
          omega

theorem initial_composed (count : Nat) : (initial count : Scheduler φ address).Composed := by
  constructor
  · intro id
    cases id <;> exact .initial rfl
  · intro id _
    cases id <;> rfl

/-- When a step of the scheduler lets worker `id` take the step `action`. -/
inductive Permits (scheduler : Scheduler φ address) (label : Action φ) (id : WorkerId) :
    Worker.Action (Closure φ) → Prop where
  | own (own : action.transfers = false)
      (assigns : action = .setShutdown → ∃ executor index flags, scheduler.present executor = true ∧
        (scheduler.worker executor).current = .body (.task ⟨.stop index, flags⟩) ∧ id = .thread index)
      (leaves : action.leavesBody = true → runsUserCode (scheduler.worker id) = true →
        scheduler.calling (.worker id) = false) :
      Permits scheduler label id action
  | pushed (target : scheduler.target? label = some id)
      (stops : ∀ index, task.function = .stop index → id = .thread index) :
      Permits scheduler label id (.enqueue task)
  | robbed (front : (scheduler.worker id).tasks = task :: rest) : Permits scheduler label id .steal
  | adopted (stealing : label = .stealWork id source)
      (front : (scheduler.worker (.thread (source % scheduler.count))).tasks = task :: rest) :
      Permits scheduler label id (.adopt task)

/-- A property of single workers is kept when every step keeps it that the
scheduler permits. -/
theorem Change.each {action : Action φ} (change : Change scheduler action after)
    (Holds : WorkerId → Worker (Closure φ) address → Prop) (composed : scheduler.Composed)
    (holds : ∀ id, Holds id (scheduler.worker id))
    (kept : ∀ id move next, Permits scheduler action id move →
      (scheduler.worker id).admissibleStep move = some next → Holds id next) (other : WorkerId) :
    Holds other (after.worker other) := by
  cases change with
  | still same worker => exact worker ▸ holds other
  | entered task count binds inFlight called handed worker => exact worker ▸ holds other
  | own id move next same present own assigns leaves moved worker =>
      rw [worker]
      by_cases here : other = id
      · subst other
        rw [Function.update_self]
        exact kept id move next (.own own assigns leaves) moved
      · rw [Function.update_of_ne here]
        exact holds other
  | pushed id entry next count binds present target home stops moved worker books handed =>
      rw [worker]
      by_cases here : other = id
      · subst other
        rw [Function.update_self]
        exact kept id _ next (.pushed target stops) moved
      · rw [Function.update_of_ne here]
        exact holds other
  | stolen victim thief task robbed next same victimIs different present front foreign taken adopted worker =>
      obtain ⟨rest, front⟩ := front
      rw [worker]
      by_cases here : other = thief
      · subst other
        rw [Function.update_self]
        exact kept thief _ next (.adopted rfl (victimIs ▸ front)) adopted
      · rw [Function.update_of_ne here]
        by_cases there : other = victim
        · subst other
          rw [Function.update_self]
          exact kept victim _ robbed (.robbed front) taken
        · rw [Function.update_of_ne there]
          exact holds other
  | bound count binds inFlight called handed worker =>
      exact composed.bound_unchanged worker ▸ holds other

/-- The tasks all workers answer for. -/
def content (scheduler : Scheduler φ address) : Multiset (Task (Closure φ)) :=
  ∑ id ∈ scheduler.workers, (scheduler.worker id).content

theorem workers_congr (count : after.count = scheduler.count) (binds : after.binds = scheduler.binds) :
    after.workers = scheduler.workers := by
  rw [workers, workers, count, binds]

theorem workers_grown (count : after.count = scheduler.count) (binds : after.binds = scheduler.binds + 1) :
    after.workers = insert (.bound scheduler.binds) scheduler.workers := by
  ext id
  cases id with
  | thread index => simp [present, count]
  | bound index =>
      simp only [mem_workers, present, binds, Finset.mem_insert, decide_eq_true_eq, WorkerId.bound.injEq]
      omega

/-- The tasks that have been pushed onto some worker. -/
def handedTasks (scheduler : Scheduler φ address) : Multiset (Task (Closure φ)) :=
  scheduler.handed.map Handed.task

/-- A step adds to the workers' tasks what it adds to `handed`. -/
theorem Change.content {action : Action φ} (change : Change scheduler action after)
    (composed : scheduler.Composed)
    (conserved : scheduler.content = scheduler.handedTasks) : after.content = after.handedTasks := by
  unfold Scheduler.content handedTasks at conserved ⊢
  cases change with
  | still same worker => rw [workers_congr same.count same.binds, worker, same.handed, conserved]
  | entered task count binds inFlight called handed worker =>
      rw [workers_congr count binds, worker, handed, conserved]
  | own id action next same present own assigns leaves moved worker =>
      have effect := ((composed.valid id).next moved).2.1
      rw [workers_congr same.count same.binds, worker, same.handed, ← conserved,
        sum_update_add Worker.content scheduler.worker (mem_workers.mpr present)
          ((effect.content_own own).trans (zero_add _).symm), zero_add]
  | pushed id entry next count binds present target home stops moved worker books handed =>
      have effect := ((composed.valid id).next moved).2.1
      rw [workers_congr count binds, worker, handed,
        sum_update_add Worker.content scheduler.worker (mem_workers.mpr present) effect.content_enqueue,
        conserved, List.map_cons, Worker.coe_cons_add]
  | stolen victim thief task robbed next same victimIs different present front foreign taken adopted worker =>
      obtain ⟨rest, front⟩ := front
      have lost := ((composed.valid victim).next taken).2.1.content_steal front
      have gained := ((composed.valid thief).next adopted).2.1.content_adopt
      rw [← Function.update_of_ne (Ne.symm different) robbed scheduler.worker] at gained
      rw [workers_congr same.count same.binds, worker, same.handed, ← conserved,
        sum_update_add Worker.content _ (mem_workers.mpr present.2) gained,
        sum_update_sub Worker.content scheduler.worker (mem_workers.mpr present.1) lost]
  | bound count binds inFlight called handed worker =>
      have absent : WorkerId.bound scheduler.binds ∉ scheduler.workers := by simp [present]
      rw [workers_grown count binds, Finset.sum_insert absent, composed.bound_unchanged worker,
        composed.fresh (.bound scheduler.binds) (by simp [present]), Worker.content_initial, zero_add,
        handed, ← conserved]

/-- Every task of a call is still with the call or has been pushed. -/
def Balanced (scheduler : Scheduler φ address) : Prop :=
  (scheduler.called : Multiset (Task (Closure φ))) =
    (scheduler.inFlight : Multiset (Task (Closure φ))) + scheduler.handedTasks

/-- A call leaves the calls under way when its task is pushed, and not before. -/
theorem Change.balanced {action : Action φ} (change : Change scheduler action after)
    (balanced : scheduler.Balanced) : after.Balanced := by
  unfold Balanced handedTasks at balanced ⊢
  cases change with
  | still same worker => rw [same.called, same.handed, Multiset.coe_eq_coe.mpr same.inFlight, balanced]
  | entered task count binds inFlight called handed worker =>
      rw [called, inFlight, handed, Worker.coe_cons_add, Worker.coe_cons_add, balanced, add_assoc]
  | own id action next same =>
      rw [same.called, same.handed, Multiset.coe_eq_coe.mpr same.inFlight, balanced]
  | pushed id entry next count binds present target home stops moved worker books handed =>
      rw [handed, List.map_cons, Worker.coe_cons_add]
      rcases books with ⟨left, called⟩ | ⟨inFlight, called⟩
      · have taken := Multiset.coe_eq_coe.mpr left
        rw [Worker.coe_cons_add] at taken
        rw [called, balanced, ← taken]
        abel
      · rw [called, Worker.coe_cons_add, balanced, inFlight]
        abel
  | stolen victim thief task robbed next same =>
      rw [same.called, same.handed, Multiset.coe_eq_coe.mpr same.inFlight, balanced]
  | bound count binds inFlight called handed worker => rw [called, inFlight, handed, balanced]

/-- The tasks that were pushed for one worker alone. -/
def sameThread (scheduler : Scheduler φ address) (id : WorkerId) : List (Handed φ) :=
  scheduler.handed.filter fun entry => entry.task.flags = .sameThread ∧ entry.current? = some id

/-- Only the worker that was current at the push answers for a task of its own thread. -/
def AtHome (scheduler : Scheduler φ address) : Prop :=
  ∀ id, (scheduler.worker id).content.filter (fun task => task.flags = .sameThread) =
    ((scheduler.sameThread id).map Handed.task : List (Task (Closure φ)))

theorem sameThread_cons {entry : Handed φ} (handed : after.handed = entry :: scheduler.handed)
    (id : WorkerId) : after.sameThread id =
      if entry.task.flags = .sameThread ∧ entry.current? = some id then entry :: scheduler.sameThread id
      else scheduler.sameThread id := by
  simp only [sameThread, handed, List.filter_cons, decide_eq_true_eq]

theorem Change.atHome {action : Action φ} (change : Change scheduler action after)
    (composed : scheduler.Composed) (atHome : scheduler.AtHome) : after.AtHome := by
  intro other
  have before := atHome other
  cases change with
  | still same worker => rw [worker, sameThread, same.handed, before, sameThread]
  | entered task count binds inFlight called handed worker =>
      rw [worker, sameThread, handed, before, sameThread]
  | own id action next same present own assigns leaves moved worker =>
      rw [worker, sameThread, same.handed, ← sameThread, ← before]
      by_cases here : other = id
      · subst other
        rw [Function.update_self, ((composed.valid id).next moved).2.1.content_own own]
      · rw [Function.update_of_ne here]
  | pushed id entry next count binds present target home stops moved worker books handed =>
      rw [worker, sameThread_cons handed]
      by_cases here : other = id
      · subst other
        rw [Function.update_self, ((composed.valid id).next moved).2.1.content_enqueue,
          Multiset.singleton_add]
        by_cases own : entry.task.flags = .sameThread
        · rw [Multiset.filter_cons, if_pos own, if_pos ⟨own, home own⟩, before, List.map_cons,
            Worker.coe_cons_add]
        · rw [Multiset.filter_cons, if_neg own, if_neg (fun both => own both.1), before, zero_add]
      · have elsewhere : ¬(entry.task.flags = .sameThread ∧ entry.current? = some other) := by
          rintro ⟨own, current⟩
          rw [home own, Option.some.injEq] at current
          exact here current.symm
        rw [Function.update_of_ne here, if_neg elsewhere, before]
  | stolen victim thief task robbed next same victimIs different present front foreign taken adopted worker =>
      obtain ⟨rest, front⟩ := front
      have shared : ¬task.flags = .sameThread := by simp [foreign]
      rw [worker, sameThread, same.handed, ← sameThread, ← before]
      by_cases here : other = thief
      · subst other
        rw [Function.update_self, ((composed.valid thief).next adopted).2.1.content_adopt,
          Multiset.singleton_add, Multiset.filter_cons, if_neg shared, zero_add]
      · rw [Function.update_of_ne here]
        by_cases there : other = victim
        · subst other
          rw [Function.update_self, ((composed.valid victim).next taken).2.1.content_steal front,
            Multiset.singleton_add, Multiset.filter_cons, if_neg shared, zero_add]
        · rw [Function.update_of_ne there]
  | bound count binds inFlight called handed worker =>
      rw [composed.bound_unchanged worker, sameThread, handed, before, sameThread]

theorem initial_worker_content (count : Nat) (id : WorkerId) :
    ((initial count : Scheduler φ address).worker id).content = 0 := by
  cases id <;> exact Worker.content_initial _ _

theorem initial_content (count : Nat) :
    (initial count : Scheduler φ address).content = (initial count : Scheduler φ address).handedTasks :=
  Finset.sum_eq_zero fun id _ => initial_worker_content count id

theorem initial_atHome (count : Nat) : (initial count : Scheduler φ address).AtHome := by
  intro id
  rw [initial_worker_content]
  rfl

/-- The books of a scheduler over all of its runs. -/
structure Conserved (scheduler : Scheduler φ address) : Prop where
  composed : scheduler.Composed
  content : scheduler.content = scheduler.handedTasks
  balanced : scheduler.Balanced
  atHome : scheduler.AtHome

theorem conserved_of_reachable {count : Nat} (reachable : (system count).Reachable scheduler) :
    scheduler.Conserved := by
  refine reachable.invariant ?_ ?_
  · rintro _ rfl
    exact ⟨initial_composed count, initial_content count, rfl, initial_atHome count⟩
  · intro _ _ _ before conserved moved
    obtain ⟨change, _⟩ := (routed_of_reachable before).step moved
    exact ⟨change.composed conserved.composed, change.content conserved.composed conserved.content,
      change.balanced conserved.balanced, change.atHome conserved.composed conserved.atHome⟩

/-- No task is lost or run twice, whatever the enqueuers, thieves and workers
do; a task for its own thread stays there, and fibers stay with their worker. -/
theorem tasks_conserved {count : Nat} (reachable : (system count).Reachable scheduler) :
    (scheduler.called : Multiset _) =
        (scheduler.inFlight : Multiset (Task (Closure φ))) + scheduler.handedTasks ∧
      scheduler.handedTasks =
        (∑ id ∈ scheduler.workers, ((scheduler.worker id).tasks : Multiset _)) +
        (∑ id ∈ scheduler.workers, ((scheduler.worker id).current.held?.toList : Multiset _)) +
        (∑ id ∈ scheduler.workers, ((scheduler.worker id).executing : Multiset _)) +
        (∑ id ∈ scheduler.workers, ((scheduler.worker id).finished : Multiset _)) ∧
      (∀ id, (scheduler.worker id).content.filter (fun task => task.flags = .sameThread) =
        ((scheduler.sameThread id).map Handed.task : List (Task (Closure φ)))) ∧
      ∀ id fiber, fiber ∈ (scheduler.worker id).fibers ∨ fiber = (scheduler.worker id).currentFiber →
        fiber.worker = id := by
  have conserved := conserved_of_reachable reachable
  refine ⟨conserved.balanced, ?_, conserved.atHome, ?_⟩
  · rw [← conserved.content, ← Finset.sum_add_distrib, ← Finset.sum_add_distrib, ← Finset.sum_add_distrib]
    rfl
  · intro id fiber used
    rw [(conserved.composed.valid id).worker_of_fiber used,
      Worker.id_of_reachable (conserved.composed.runs id)]

/-- The thread of worker `index` goes on for some steps. -/
def goOn (index times : Nat) : List (Action Nat) :=
  List.replicate times (.own (.thread index) (.proceed 0 ⟨.thread index, 0⟩))

/-- Worker thread 1 falls asleep; worker thread 0 runs a task and spins; the
destructor hands worker thread 1 its stop task, and worker thread 0 steals it. -/
def theft : List (Action Nat) :=
  goOn 1 3 ++ [.enqueue (.thread 0) 7 .none] ++ List.replicate 4 (.enqueueNext (.thread 0)) ++
    goOn 0 7 ++ [.own (.thread 0) .finish] ++ goOn 0 2 ++ [.onBeginSpinning (.thread 0)] ++ goOn 0 1 ++
    [.destroy, .destroy, .destroy, .stealWork (.thread 0) 1]

theorem tasks_conserved_theft : ∃ scheduler : Scheduler Nat Fiber.address,
    (scheduler.worker (.thread 0)).current.held? = some (stopTask 1) ∧
      (scheduler.worker (.thread 0)).finished = [⟨.user 7, .none⟩] ∧
      scheduler.handedTasks =
        (∑ id ∈ scheduler.workers, ((scheduler.worker id).tasks : Multiset _)) +
        (∑ id ∈ scheduler.workers, ((scheduler.worker id).current.held?.toList : Multiset _)) +
        (∑ id ∈ scheduler.workers, ((scheduler.worker id).executing : Multiset _)) +
        (∑ id ∈ scheduler.workers, ((scheduler.worker id).finished : Multiset _)) := by
  obtain ⟨scheduler, reachable, observed⟩ := System.reachable_of_replay (· = initial 2) step rfl theft
    (fun scheduler : Scheduler Nat Fiber.address =>
      decide ((scheduler.worker (.thread 0)).current.held? = some (stopTask 1)) &&
        decide ((scheduler.worker (.thread 0)).finished = [⟨.user 7, .none⟩])) (by decide +kernel)
  simp only [Bool.and_eq_true, decide_eq_true_eq] at observed
  exact ⟨scheduler, observed.1, observed.2, (tasks_conserved reachable).2.1⟩

end Scheduler

end MiniMarl
