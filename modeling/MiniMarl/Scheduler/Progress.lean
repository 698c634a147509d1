import MiniMarl.Scheduler.Destruction
import MiniMarl.Worker.Progress

namespace MiniMarl.Scheduler

open Data Transition

/-! The workers of a scheduler come to rest together. They wait for each other
nowhere: the stop task of a worker is the only code of the scheduler that writes
to a worker from outside of its mutex. -/

variable {φ : Type} {address : Fiber ↪ Nat} {scheduler after : Scheduler φ address}

/-- A step of a worker's code: a theft is one, too. The draw of a slot counts with
the spin that follows, the assignment of a stop task with its return. -/
def Action.works {φ : Type} : Action φ → Bool
  | .own _ action => action.inner
  | .stealWork _ _ => true
  | _ => false

/-- What the threads of the workers may have to do on account of a step that none
of them takes by itself. -/
def Action.price {φ : Type} : Action φ → Nat
  | .own _ action => action.price
  | .bind => 22
  | .enqueueNext _ | .destroy => 33
  | .onBeginSpinning _ | .stealWork _ _ | .assignShutdown _ | .enqueue _ _ _ | .unbind _ => 0

def budget (scheduler : Scheduler φ address) : Nat := ∑ id ∈ scheduler.workers, (scheduler.worker id).worth

variable {middle : Scheduler φ address}

theorem budget_congr (worker : after.worker = scheduler.worker) (count : after.count = scheduler.count := by rfl)
    (binds : after.binds = scheduler.binds := by rfl) : after.budget = scheduler.budget := by
  rw [budget, budget, workers_congr count binds, worker]

/-- The workers together pay for what one of them pays. -/
theorem act_pays {id : WorkerId} {action : Worker.Action (Closure φ)} {paid price : Nat}
    (pays : ∀ next, (scheduler.worker id).step action = .ok next →
      next.worth + paid ≤ (scheduler.worker id).worth + price)
    (moved : scheduler.act id action = some after) : after.budget + paid ≤ scheduler.budget + price := by
  obtain ⟨next, present, done, rfl⟩ := act_cases moved
  exact sum_update_le Worker.worth scheduler.worker (mem_workers.mpr present)
    (pays next (Worker.step_of_admissibleStep done))

theorem act_budget (composed : scheduler.Composed) {id : WorkerId} {action : Worker.Action (Closure φ)}
    (moved : middle.act id action = some after) (worker : middle.worker = scheduler.worker := by rfl)
    (count : middle.count = scheduler.count := by rfl) (binds : middle.binds = scheduler.binds := by rfl) :
    after.budget + action.inner.toNat ≤ scheduler.budget + action.price := by
  rw [← budget_congr worker count binds]
  have valid : (middle.worker id).Valid := worker ▸ composed.valid id
  exact act_pays (fun _ done => valid.step_worth done) moved

theorem own_budget (composed : scheduler.Composed) {id : WorkerId} {action : Worker.Action (Closure φ)}
    (moved : scheduler.own id action = some after) :
    after.budget + action.inner.toNat ≤ scheduler.budget + action.price := by
  cases action with
  | enqueue | steal | adopt | setShutdown => cases moved
  | notify | notifyAdded | wake | expire => exact act_budget composed moved
  | finish | suspend | stop => exact act_budget composed (Option.ite_none_right_eq_some.mp moved).2
  | proceed now pick =>
      simp only [own, proceed] at moved
      split at moved
      · split at moved
        · exact act_budget composed moved
        · cases moved
      · exact act_budget composed moved

/-- The thief gets no more than the victim loses, and has spun for it. -/
theorem stealWork_budget {thief : WorkerId} {source : Nat} (moved : scheduler.stealWork thief source = some after) :
    after.budget + 1 ≤ scheduler.budget := by
  unfold stealWork at moved
  dsimp only at moved
  rw [Option.ite_none_right_eq_some, Option.ite_none_right_eq_some] at moved
  obtain ⟨_, _, moved⟩ := moved
  split at moved
  · rename_i task _ _
    obtain ⟨robbed, taken, adopted⟩ := Option.bind_eq_some_iff.mp moved
    have lost : robbed.budget + 15 ≤ scheduler.budget + 0 := act_pays (fun _ done =>
      Worker.worth_step done (Nat.le_of_eq (Worker.steal_budget done))) taken
    have gained : after.budget + 0 ≤ robbed.budget + 14 := act_pays (fun _ done =>
      Worker.worth_step done (Worker.adopt_budget done)) adopted
    omega
  · cases moved

theorem push_budget (composed : scheduler.Composed) {call : Call φ} {id : WorkerId}
    (moved : scheduler.push call id = some after) : after.budget ≤ scheduler.budget + 33 :=
  act_budget composed moved

theorem enqueueNext_budget (composed : scheduler.Composed) {call : Call φ}
    (moved : scheduler.enqueueNext call = some after) : after.budget ≤ scheduler.budget + 33 := by
  have restaged {middle : Scheduler φ address} {stage : Stage} (same : middle.budget = scheduler.budget) :
      (middle.restage call stage).budget ≤ scheduler.budget + 33 := by
    have kept : (middle.restage call stage).budget = middle.budget := rfl
    omega
  unfold enqueueNext at moved
  split at moved
  · split at moved
    · obtain ⟨id, _, rfl⟩ := Option.map_eq_some_iff.mp moved
      exact restaged rfl
    · split at moved
      · cases moved
        exact restaged (budget_congr rfl)
      · obtain ⟨id, _, rfl⟩ := Option.map_eq_some_iff.mp moved
        exact restaged rfl
  · cases moved
    exact restaged (budget_congr rfl)
  · cases moved
    exact restaged (budget_congr rfl)
  · split at moved
    · exact push_budget composed moved
    · cases moved
      exact restaged rfl
  · exact push_budget composed moved

/-- A worker that has just been bound only has to be told to stop. -/
theorem worth_initial (id : WorkerId) :
    (Worker.initial id .singleThreaded : Worker (Closure φ) address).worth = 22 := by
  rfl

theorem bind_budget (composed : scheduler.Composed) (moved : scheduler.bind = some after) :
    after.budget = scheduler.budget + 22 := by
  obtain ⟨_, same⟩ := Option.ite_none_right_eq_some.mp moved
  have count : after.count = scheduler.count := by rw [← Option.some.inj same]
  have binds : after.binds = scheduler.binds + 1 := by rw [← Option.some.inj same]
  have worker : after.worker = Function.update scheduler.worker (.bound scheduler.binds)
      (.initial (.bound scheduler.binds) .singleThreaded) := by rw [← Option.some.inj same]
  have absent : WorkerId.bound scheduler.binds ∉ scheduler.workers := by simp [present]
  rw [budget, workers_grown count binds, Finset.sum_insert absent, composed.bound_unchanged worker,
    composed.fresh (.bound scheduler.binds) (by simp [present])]
  exact (Nat.add_comm _ _).trans (congrArg _ (worth_initial _))

theorem destroy_budget (composed : scheduler.Composed) (moved : scheduler.destroy = some after) :
    after.budget ≤ scheduler.budget + 33 := by
  unfold destroy at moved
  split at moved
  · cases moved
    exact Nat.le_add_right _ _
  · obtain ⟨_, same⟩ := Option.ite_none_right_eq_some.mp moved
    cases same
    exact Nat.le_add_right _ _
  · cases moved
    exact Nat.le_add_right _ _
  · exact act_budget composed moved
  · obtain ⟨_, same⟩ := Option.ite_none_right_eq_some.mp moved
    cases same
    exact Nat.le_add_right _ _
  · cases moved

/-- Every step of a worker's code is paid for, and every other step has its price. -/
theorem step_budget (composed : scheduler.Composed) {label : Action φ} (moved : scheduler.step label = some after) :
    after.budget + label.works.toNat ≤ scheduler.budget + label.price := by
  unfold step at moved
  split at moved
  · cases moved
  · cases label with
    | own id action => exact own_budget composed moved
    | stealWork thief source => exact stealWork_budget moved
    | bind => exact Nat.le_of_eq (bind_budget composed moved)
    | destroy => exact destroy_budget composed moved
    | enqueueNext party =>
        obtain ⟨call, _, moved⟩ := Option.bind_eq_some_iff.mp moved
        exact enqueueNext_budget composed moved
    | assignShutdown id =>
        simp only [assignShutdown] at moved
        split at moved
        · exact act_budget composed (Option.ite_none_right_eq_some.mp moved).2
        · cases moved
    | onBeginSpinning | enqueue | unbind =>
        obtain ⟨_, same⟩ := Option.ite_none_right_eq_some.mp moved
        cases same
        exact Nat.le_refl _

/-- The stop tasks are for worker threads that there are. -/
def StopsFit (scheduler : Scheduler φ address) : Prop :=
  ∀ id, ∀ task ∈ (scheduler.worker id).content, ∀ index, task.function = .stop index → index < scheduler.count

theorem Change.stopsFit {action : Action φ} (change : Change scheduler action after) (composed : scheduler.Composed)
    (fit : scheduler.StopsFit) : after.StopsFit := by
  intro other task member index stops
  rw [change.count]
  cases change with
  | still same worker => exact fit other task (worker ▸ member) index stops
  | entered entered count binds inFlight called handed worker => exact fit other task (worker ▸ member) index stops
  | bound count binds inFlight called handed worker =>
      exact fit other task (composed.bound_unchanged worker ▸ member) index stops
  | own id action next same present own assigns leaves moved worker =>
      rw [worker] at member
      by_cases here : other = id
      · subst here
        rw [Function.update_self, ((composed.valid other).next moved).2.1.content_own own] at member
        exact fit other task member index stops
      · rw [Function.update_of_ne here] at member
        exact fit other task member index stops
  | pushed id entry next count binds present target home meant moved worker =>
      rw [worker] at member
      by_cases here : other = id
      · subst here
        rw [Function.update_self, ((composed.valid other).next moved).2.1.content_enqueue, Multiset.mem_add,
          Multiset.mem_singleton] at member
        rcases member with rfl | member
        · rw [meant index stops] at present
          simpa [Scheduler.present] using present
        · exact fit other task member index stops
      · rw [Function.update_of_ne here] at member
        exact fit other task member index stops
  | stolen victim thief stolen robbed next same victimIs different present front foreign taken adopted worker =>
      obtain ⟨rest, front⟩ := front
      have lost := ((composed.valid victim).next taken).2.1.content_steal front
      have was : ∀ found ∈ robbed.content, found ∈ (scheduler.worker victim).content := fun found inside => by
        rw [lost]
        exact Multiset.mem_add.mpr (.inr inside)
      rw [worker] at member
      by_cases here : other = thief
      · subst here
        rw [Function.update_self, ((composed.valid other).next adopted).2.1.content_adopt, Multiset.mem_add,
          Multiset.mem_singleton] at member
        rcases member with rfl | member
        · refine fit victim task ?_ index stops
          rw [lost]
          exact Multiset.mem_add.mpr (.inl (Multiset.mem_singleton_self _))
        · exact fit other task member index stops
      · rw [Function.update_of_ne here] at member
        by_cases there : other = victim
        · subst there
          rw [Function.update_self] at member
          exact fit other task (was task member) index stops
        · rw [Function.update_of_ne there] at member
          exact fit other task member index stops

theorem stopsFit_of_reachable {count : Nat} (reachable : (system count).Reachable scheduler) : scheduler.StopsFit := by
  refine reachable.invariant ?_ ?_
  · rintro _ rfl id task member
    rw [initial_worker_content] at member
    cases member
  · intro _ _ _ before fit moved
    exact ((routed_of_reachable before).step moved).1.stopsFit (conserved_of_reachable before).composed fit

/-- The labels of threads that go on by themselves. -/
def Action.unassisted {φ : Type} : Action φ → Bool
  | .own _ action => action.inner
  | .onBeginSpinning _ | .assignShutdown _ => true
  | _ => false

/-- The calls of `enqueue` and the destructor stay as they are. -/
structure Aside (before after : Scheduler φ address) : Prop where
  calls : after.calls = before.calls
  byTid : after.byTid = before.byTid
  destructor : after.destructor = before.destructor
  handed : after.handed = before.handed

theorem step_aside {label : Action φ} (unassisted : label.unassisted = true) (moved : scheduler.step label = some after) :
    Aside scheduler after := by
  have acts {middle : Scheduler φ address} {id : WorkerId} {action : Worker.Action (Closure φ)}
      (moved : middle.act id action = some after) :
      Aside middle after := by
    obtain ⟨_, _, _, rfl⟩ := act_cases moved
    exact ⟨rfl, rfl, rfl, rfl⟩
  unfold step at moved
  split at moved
  · cases moved
  · cases label with
    | own id action =>
        cases action with
        | enqueue | steal | notify | setShutdown | adopt | wake | expire | suspend | stop => cases unassisted
        | notifyAdded => exact acts moved
        | finish => exact acts (Option.ite_none_right_eq_some.mp moved).2
        | proceed now pick =>
            simp only [own, proceed] at moved
            split at moved
            · split at moved
              · obtain ⟨calls, byTid, destructor, handed⟩ := acts moved
                exact ⟨calls, byTid, destructor, handed⟩
              · cases moved
            · exact acts moved
    | onBeginSpinning id =>
        simp only [onBeginSpinning, Option.ite_none_right_eq_some, Option.some.injEq] at moved
        obtain ⟨_, rfl⟩ := moved
        exact ⟨rfl, rfl, rfl, rfl⟩
    | assignShutdown id =>
        simp only [assignShutdown] at moved
        split at moved
        · exact acts (Option.ite_none_right_eq_some.mp moved).2
        · cases moved
    | stealWork | enqueue | enqueueNext | bind | unbind | destroy => cases unassisted

def AtRest (scheduler : Scheduler φ address) : Prop := ∀ id, scheduler.present id = true → (scheduler.worker id).AtRest

/-- A scheduler that runs no code of its users but the tasks that it has. -/
structure Closing (count : Nat) (scheduler : Scheduler φ address) : Prop where
  reachable : (system count).Reachable scheduler
  calls : scheduler.calls = []
  alive : scheduler.destructor ≠ .destroyed

def closingSystem (count : Nat) : System (Scheduler φ address) (Action φ) :=
  (system count).restrict fun _ action => action.unassisted = true

variable {count : Nat}

theorem Closing.keeps (closing : Closing count scheduler) {label : Action φ}
    (move : (closingSystem count).next scheduler label after) : Closing count after := by
  obtain ⟨unassisted, moved⟩ := move
  have aside := step_aside unassisted moved
  exact ⟨.step closing.reachable moved, aside.calls.trans closing.calls, aside.destructor ▸ closing.alive⟩

theorem Closing.own_spends (closing : Closing count scheduler) {id : WorkerId} {action : Worker.Action (Closure φ)}
    (inner : action.inner = true) (moved : scheduler.own id action = some after) :
    ∃ labels after, (closingSystem count).Run scheduler labels after ∧ after.budget < scheduler.budget := by
  have pays := own_budget (conserved_of_reachable closing.reachable).composed moved
  rw [inner, Worker.price_of_inner inner, Bool.toNat_true] at pays
  have done : scheduler.step (.own id action) = some after := by
    rw [step, if_neg closing.alive]
    exact moved
  exact ⟨[.own id action], after, .snoc .nil ⟨inner, done⟩, by omega⟩

theorem act_of_step {id : WorkerId} {action : Worker.Action (Closure φ)} {next : Worker (Closure φ) address}
    (present : scheduler.present id = true) (moved : (scheduler.worker id).admissibleStep action = some next) :
    ∃ after, scheduler.act id action = some after :=
  ⟨_, by rw [act, if_pos present, moved, Option.map_some]⟩

theorem thread_of_aboutToSpin (composed : scheduler.Composed) {id : WorkerId}
    (spins : aboutToSpin (scheduler.worker id) = true) : ∃ index, id = .thread index := by
  have mode := Worker.mode_of_reachable (composed.runs id)
  cases id with
  | thread index => exact ⟨index, rfl⟩
  | bound index =>
      unfold aboutToSpin at spins
      split at spins
      · simp [mode, WorkerId.mode] at spins
      · cases spins

/-- A worker thread that is about to spin has drawn a slot, or draws one. -/
theorem Closing.draws (closing : Closing count scheduler) {id : WorkerId} (present : scheduler.present id = true)
    (spins : aboutToSpin (scheduler.worker id) = true) :
    ∃ labels middle slot, (closingSystem count).Run scheduler labels middle ∧ middle.worker = scheduler.worker ∧
      middle.workers = scheduler.workers ∧ middle.spinSlot id = some slot := by
  cases drawn : scheduler.spinSlot id with
  | some slot => exact ⟨[], scheduler, slot, .nil, rfl, rfl, drawn⟩
  | none =>
      let slot := Fin.ofNat 8 scheduler.nextSpinningWorkerIndex.toNat
      let middle := { scheduler with
        nextSpinningWorkerIndex := scheduler.nextSpinningWorkerIndex + 1
        spinSlot := Function.update scheduler.spinSlot id (some slot) }
      have moved : scheduler.step (.onBeginSpinning id) = some middle := by
        rw [step, if_neg closing.alive]
        exact if_pos (by rw [present, spins, drawn]; rfl)
      exact ⟨[.onBeginSpinning id], middle, slot, .snoc .nil ⟨rfl, moved⟩, rfl, rfl,
        Function.update_self id (some slot) scheduler.spinSlot⟩

theorem Closing.proceeds (closing : Closing count scheduler) {id : WorkerId} (present : scheduler.present id = true)
    {now : TimePoint} {pick : Fiber} {next : Worker (Closure φ) address}
    (moved : (scheduler.worker id).admissibleStep (.proceed now pick) = some next) :
    ∃ labels after, (closingSystem count).Run scheduler labels after ∧ after.budget < scheduler.budget := by
  by_cases spins : aboutToSpin (scheduler.worker id) = true
  · obtain ⟨index, rfl⟩ := thread_of_aboutToSpin (conserved_of_reachable closing.reachable).composed spins
    obtain ⟨labels, middle, slot, run, worker, workers, drawn⟩ := closing.draws present spins
    have same : middle.budget = scheduler.budget := by
      rw [budget, budget, worker, workers]
    have exists' : middle.present (.thread index) = true := by
      rw [← mem_workers, workers, mem_workers, present]
    rw [← worker] at moved spins
    obtain ⟨after, done⟩ : ∃ after, middle.own (.thread index) (.proceed now pick) = some after := by
      simp only [own, proceed, spins, drawn, if_true]
      exact act_of_step (exists' : ({ middle with
        spinningWorkers := Function.update middle.spinningWorkers slot index
        spinSlot := Function.update middle.spinSlot (.thread index) none } : Scheduler φ address).present (.thread index) = true) moved
    have onward : Closing count middle := run.keeps closing fun _ _ _ closing move => closing.keeps move
    obtain ⟨later, after, rest, less⟩ := onward.own_spends rfl done
    exact ⟨labels ++ later, after, run.append rest, same ▸ less⟩
  · obtain ⟨after, done⟩ := act_of_step present moved
    have own : scheduler.own id (.proceed now pick) = some after := by
      simp only [own, proceed, spins]
      exact done
    exact closing.own_spends rfl own

/-- A task that sets the flag of another worker does so once, and then ends. -/
theorem Closing.finishes (closing : Closing count scheduler) {id : WorkerId} (present : scheduler.present id = true)
    {next : Worker (Closure φ) address} (moved : (scheduler.worker id).admissibleStep .finish = some next) :
    ∃ labels after, (closingSystem count).Run scheduler labels after ∧ after.budget < scheduler.budget := by
  have composed := (conserved_of_reachable closing.reachable).composed
  by_cases returns : scheduler.returns id = true
  · obtain ⟨after, done⟩ := act_of_step present moved
    have own : scheduler.own id .finish = some after := by
      rw [own, if_pos returns, done]
    exact closing.own_spends rfl own
  · have quiet : scheduler.calling (.worker id) = false := by
      rw [calling, closing.calls]
      rfl
    unfold Scheduler.returns at returns
    split at returns
    · rename_i index flags found
      have member := (composed.valid id).mem_executing found
      have inside : index < scheduler.count := by
        refine stopsFit_of_reachable closing.reachable id ⟨.stop index, flags⟩ ?_ index rfl
        simp only [Worker.content, Multiset.mem_add, Multiset.mem_coe]
        exact .inl (.inr member)
      have mode := Worker.mode_of_reachable (composed.runs (.thread index))
      have told : (scheduler.worker (.thread index)).admissibleStep .setShutdown =
          some { scheduler.worker (.thread index) with shutdown := true } :=
        Worker.admissibleStep_of_step rfl (by simp only [Worker.step, mode, WorkerId.mode, if_true])
      have there : scheduler.present (.thread index) = true := decide_eq_true inside
      obtain ⟨after, done⟩ := act_of_step there told
      obtain ⟨_, _, same, rfl⟩ := act_cases done
      cases told.symm.trans same
      have assigned : scheduler.step (.assignShutdown id) =
          scheduler.act (.thread index) .setShutdown := by
        rw [step, if_neg closing.alive]
        simp only [assignShutdown, found, present, if_true]
      have gains := Worker.worth_setShutdown (scheduler.worker (.thread index))
      rw [Bool.not_eq_true] at returns
      rw [returns, Bool.not_false, Bool.toNat_true] at gains
      have less := sum_update_le Worker.worth scheduler.worker (mem_workers.mpr there) (Nat.le_trans gains (Nat.le_add_right _ 0))
      exact ⟨[.assignShutdown id], _, .snoc .nil ⟨rfl, assigned.trans done⟩, less⟩
    · rw [quiet] at returns
      exact absurd rfl returns

theorem Closing.onward (closing : Closing count scheduler) (unsettled : ¬ scheduler.AtRest) :
    ∃ labels after, (closingSystem count).Run scheduler labels after ∧ after.budget < scheduler.budget := by
  simp only [AtRest, not_forall] at unsettled
  obtain ⟨id, present, unsettled⟩ := unsettled
  have composed := (conserved_of_reachable closing.reachable).composed
  obtain ⟨action, next, inner, moved⟩ := (Worker.sound_of_reachable (composed.runs id)).onward unsettled
  cases action with
  | proceed now pick => exact closing.proceeds present moved
  | finish => exact closing.finishes present moved
  | notifyAdded =>
      obtain ⟨after, done⟩ := act_of_step present moved
      exact closing.own_spends rfl (show scheduler.own id .notifyAdded = some after from done)
  | _ => cases inner

/-- A task that a worker at rest answers for has run, or is on the stack of a
fiber that is blocked, or came too late. -/
theorem task_of_atRest {worker : Worker (Closure φ) address} (valid : worker.Valid) (settled : worker.AtRest)
    {task : Task (Closure φ)} (member : task ∈ worker.content) :
    task ∈ worker.finished ∨ task ∈ worker.executing ∨
      task ∈ worker.tasks ∧ (worker.current = .exited ∨ worker.current = .body .thread) := by
  simp only [Worker.content, Multiset.mem_add, Multiset.mem_coe] at member
  rcases member with ((queued | held) | running) | done
  · rcases valid.queues_of_atRest settled with gone | inside | ⟨_, none, _⟩
    · exact .inr (.inr ⟨queued, .inl gone⟩)
    · exact .inr (.inr ⟨queued, .inr inside⟩)
    · rw [none] at queued
      cases queued
  · rcases settled with found | found | ⟨⟨site, deadline, found⟩, _⟩ <;> rw [found] at held <;> cases held
  · exact .inr (.inl running)
  · exact .inl done

theorem aside_of_run {labels : List (Action φ)} (run : (closingSystem count).Run scheduler labels after) :
    Aside scheduler after := by
  induction run with
  | nil => exact ⟨rfl, rfl, rfl, rfl⟩
  | snoc _ move ih =>
      have aside := step_aside move.1 move.2
      exact ⟨aside.calls.trans ih.calls, aside.byTid.trans ih.byTid, aside.destructor.trans ih.destructor,
        aside.handed.trans ih.handed⟩

/-- In every run, from any state that it has reached, the threads of all workers
together take no more steps than what they have to do is worth, thefts included,
and the prices of the steps that others take. With no call of `enqueue` under way
they can go on until each of them is at rest, and then no task that has been
handed over is left to a worker that could run it. -/
theorem all_come_to_rest (reachable : (system count).Reachable scheduler) :
    (∀ labels after, (system count).Run scheduler labels after →
      labels.countP Action.works ≤ ∑ id ∈ scheduler.workers,
        (15 * (scheduler.worker id).backlog (scheduler.worker id).current +
          18 * (scheduler.worker id).pendingNotifies + 43) + (labels.map Action.price).sum) ∧
    (scheduler.calls = [] → scheduler.destructor ≠ .destroyed →
      ∃ labels after, ((system count).restrict fun _ label => label.unassisted = true).Run scheduler labels after ∧
        (∀ id, after.present id = true → (after.worker id).current = .exited ∨
          (after.worker id).current = .body .thread ∨
          (∃ site deadline, (after.worker id).current = .asleep site deadline) ∧
            (after.worker id).tasks = [] ∧ (after.worker id).fibers = []) ∧
        ∀ task ∈ scheduler.handedTasks, ∃ id, after.present id = true ∧
          (task ∈ (after.worker id).finished ∨ task ∈ (after.worker id).executing ∨
            task ∈ (after.worker id).tasks ∧
              ((after.worker id).current = .exited ∨ (after.worker id).current = .body .thread))) := by
  constructor
  · intro labels after run
    have spent := run.affords reachable (fun _ _ _ before move => .step before move) budget Action.works
      Action.price fun _ _ _ before move => step_budget (conserved_of_reachable before).composed move
    have start : scheduler.budget ≤ _ := Finset.sum_le_sum fun id _ => (scheduler.worker id).worth_le
    omega
  · intro calls alive
    have closing : Closing count scheduler := ⟨reachable, calls, alive⟩
    obtain ⟨labels, after, run, settled⟩ := System.exists_settled closing
      (fun _ _ _ closing move => closing.keeps move) budget AtRest fun _ closing => closing.onward
    have handed : after.handedTasks = scheduler.handedTasks := by
      rw [handedTasks, handedTasks, (aside_of_run run).handed]
    have conserved := conserved_of_reachable (run.unrestrict.reachable reachable)
    refine ⟨labels, after, run, ?_, ?_⟩
    · intro id present
      exact (conserved.composed.valid id).queues_of_atRest (settled id present)
    · intro task member
      rw [← handed, ← conserved.content, content, Multiset.mem_sum] at member
      obtain ⟨id, there, member⟩ := member
      rw [mem_workers] at there
      exact ⟨id, there, task_of_atRest (conserved.composed.valid id) (settled id there) member⟩

/-- Worker thread 0 has a task of a user, and the destructor has handed worker
thread 1 its stop task. -/
def twoTasks : List (Action Nat) :=
  goOn 1 3 ++ [.enqueue (.thread 0) 7 .none] ++ List.replicate 4 (.enqueueNext (.thread 0)) ++
    [.destroy, .destroy, .destroy]

theorem all_come_to_rest_twoTasks : ∃ scheduler : Scheduler Nat Fiber.address,
    (scheduler.worker (.thread 0)).tasks.length = 1 ∧ (scheduler.worker (.thread 1)).tasks.length = 1 ∧
      (∀ labels after, (system 2).Run scheduler labels after →
        labels.countP Action.works ≤ 152 + (labels.map Action.price).sum) ∧
      ∃ labels after, ((system 2).restrict fun _ label => label.unassisted = true).Run scheduler labels after ∧
        (∀ id, after.present id = true → (after.worker id).current = .exited ∨
          (after.worker id).current = .body .thread ∨
          (∃ site deadline, (after.worker id).current = .asleep site deadline) ∧
            (after.worker id).tasks = [] ∧ (after.worker id).fibers = []) ∧
        ∀ task ∈ scheduler.handedTasks, ∃ id, after.present id = true ∧
          (task ∈ (after.worker id).finished ∨ task ∈ (after.worker id).executing ∨
            task ∈ (after.worker id).tasks ∧
              ((after.worker id).current = .exited ∨ (after.worker id).current = .body .thread)) := by
  obtain ⟨scheduler, reachable, seen⟩ := System.reachable_of_replay (· = initial 2) step rfl twoTasks
    (fun scheduler : Scheduler Nat Fiber.address =>
      decide ((scheduler.worker (.thread 0)).tasks.length = 1 ∧ (scheduler.worker (.thread 1)).tasks.length = 1 ∧
        ∑ id ∈ scheduler.workers, (15 * (scheduler.worker id).backlog (scheduler.worker id).current +
          18 * (scheduler.worker id).pendingNotifies + 43) = 152) &&
        (scheduler.calls.isEmpty && decide (scheduler.destructor ≠ .destroyed))) (by decide +kernel)
  simp only [Bool.and_eq_true, decide_eq_true_eq, List.isEmpty_iff] at seen
  obtain ⟨⟨first, second, worth⟩, calls, alive⟩ := seen
  obtain ⟨bounded, rests⟩ := all_come_to_rest reachable
  rw [worth] at bounded
  exact ⟨scheduler, first, second, bounded, rests calls alive⟩

end MiniMarl.Scheduler
