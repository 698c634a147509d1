import MiniMarl.Worker.Reachable

namespace MiniMarl

/-- The tasks put at the end of `work_.tasks`. -/
def TaskEvent.inserted? : TaskEvent φ → Option (Task φ)
  | .pushed task | .adopted task => some task
  | _ => none

/-- The tasks taken from the front of `work_.tasks`. -/
def TaskEvent.removed? : TaskEvent φ → Option (Task φ)
  | .robbed task | .started task => some task
  | _ => none

namespace Worker

open Transition

variable {φ : Type} {address : Fiber ↪ Nat} {worker : Worker φ address}

def inserted (worker : Worker φ address) : List (Task φ) := worker.history.filterMap TaskEvent.inserted?

def removed (worker : Worker φ address) : List (Task φ) := worker.history.filterMap TaskEvent.removed?

def pushed (worker : Worker φ address) : List (Task φ) := worker.history.filterMap TaskEvent.pushed?

def adopted (worker : Worker φ address) : List (Task φ) := worker.history.filterMap TaskEvent.adopted?

def robbed (worker : Worker φ address) : List (Task φ) := worker.history.filterMap TaskEvent.robbed?

def started (worker : Worker φ address) : List (Task φ) := worker.history.filterMap TaskEvent.started?

def finished (worker : Worker φ address) : List (Task φ) := worker.history.filterMap TaskEvent.finished?

/-- The books of one worker: its queue is served in order, and what it starts
it either still executes or has finished. -/
structure Ledger (worker : Worker φ address) : Prop where
  fifo : worker.inserted = worker.removed ++ worker.tasks
  started : worker.started.Perm (worker.executing ++ worker.finished)
  unshared : worker.mode = .singleThreaded → ∀ event ∈ worker.history,
    event.adopted? = none ∧ event.robbed? = none

theorem initial_ledger (id : WorkerId) (mode : Mode) : (initial id mode : Worker φ address).Ledger where
  fifo := rfl
  started := by
    cases mode <;> simp [Worker.started, finished, executing, initial, allFibers, mainFiber,
      Position.task?, Position.body?, Position.suspends?]
  unshared := by simp [initial]

theorem unshared_record {after : Worker φ address} (mode : after.mode = worker.mode)
    (history : after.history = worker.history ++ [event])
    (own : event.adopted? = none ∧ event.robbed? = none)
    (unshared : worker.mode = .singleThreaded → ∀ event ∈ worker.history,
      event.adopted? = none ∧ event.robbed? = none) :
    after.mode = .singleThreaded → ∀ event ∈ after.history,
      event.adopted? = none ∧ event.robbed? = none := by
  intro single other member
  rw [history, List.mem_append, List.mem_singleton] at member
  rcases member with old | rfl
  · exact unshared (mode ▸ single) other old
  · exact own

theorem started_record {after : Worker φ address} (history : after.history = worker.history ++ [event])
    (executing : after.executing = worker.executing) (own : event.started? = none ∧ event.finished? = none)
    (started : (worker.history.filterMap TaskEvent.started?).Perm
      (worker.executing ++ worker.history.filterMap TaskEvent.finished?)) :
    after.started.Perm (after.executing ++ after.finished) := by
  simpa [Worker.started, Worker.finished, history, executing, List.filterMap_cons, own] using started

theorem Effect.ledger {action : Action φ} {after : Worker φ address} (effect : Effect worker action after)
    (ledger : worker.Ledger) : after.Ledger := by
  obtain ⟨fifo, started, unshared⟩ := ledger
  unfold Worker.inserted Worker.removed at fifo
  unfold Worker.started Worker.finished at started
  cases effect with
  | quiet quiet =>
      refine ⟨?_, ?_, ?_⟩
      · simpa [inserted, removed, quiet.history, quiet.tasks] using fifo
      · simpa [Worker.started, Worker.finished, quiet.history, quiet.executing] using started
      · simpa [quiet.mode, quiet.history] using unshared
  | pushed id mode tasks history executing held =>
      refine ⟨?_, ?_, ?_⟩
      · simp [inserted, removed, history, tasks, fifo, TaskEvent.inserted?, TaskEvent.removed?]
      · exact started_record history executing ⟨rfl, rfl⟩ started
      · exact unshared_record mode history ⟨rfl, rfl⟩ unshared
  | robbed id mode stealable foreign tasks history executing held =>
      refine ⟨?_, ?_, ?_⟩
      · simp [inserted, removed, history, tasks, fifo, TaskEvent.inserted?, TaskEvent.removed?]
      · exact started_record history executing ⟨rfl, rfl⟩ started
      · intro single
        rw [mode, stealable] at single
        cases single
  | took frame threaded free held =>
      refine ⟨?_, ?_, ?_⟩
      · simpa [inserted, removed, frame.history, frame.tasks] using fifo
      · simpa [Worker.started, Worker.finished, frame.history, frame.executing] using started
      · simpa [frame.mode, frame.history] using unshared
  | adopted id mode threaded tasks history executing held free =>
      refine ⟨?_, ?_, ?_⟩
      · simp [inserted, removed, history, tasks, fifo, TaskEvent.inserted?, TaskEvent.removed?]
      · exact started_record history executing ⟨rfl, rfl⟩ started
      · intro single
        rw [mode, threaded] at single
        cases single
  | started id mode tasks history executing free stillFree =>
      refine ⟨?_, ?_, ?_⟩
      · simp [inserted, removed, history, tasks, fifo, TaskEvent.inserted?, TaskEvent.removed?]
      · simp only [Worker.started, Worker.finished, history, List.filterMap_append]
        simp only [TaskEvent.started?, TaskEvent.finished?, List.filterMap_cons, List.filterMap_nil,
          List.append_nil]
        exact (List.perm_append_singleton _ _).trans
          ((started.cons _).trans (executing.append_right _).symm)
      · exact unshared_record mode history ⟨rfl, rfl⟩ unshared
  | finished id mode tasks history executing found free =>
      refine ⟨?_, ?_, ?_⟩
      · simpa [inserted, removed, history, tasks, List.filterMap_cons, TaskEvent.inserted?, TaskEvent.removed?]
          using fifo
      · simp only [Worker.started, Worker.finished, history, List.filterMap_append]
        simp only [TaskEvent.started?, TaskEvent.finished?, List.filterMap_cons, List.filterMap_nil,
          List.append_nil]
        rw [← List.append_assoc]
        exact started.trans ((executing.append_right _).trans (List.perm_append_singleton _ _).symm)
      · exact unshared_record mode history ⟨rfl, rfl⟩ unshared

theorem Effect.frame {action : Action φ} {after : Worker φ address} (effect : Effect worker action after) :
    after.id = worker.id ∧ after.mode = worker.mode := by
  cases effect with
  | quiet quiet => exact ⟨quiet.id, quiet.mode⟩
  | took frame => exact ⟨frame.id, frame.mode⟩
  | pushed id mode => exact ⟨id, mode⟩
  | robbed id mode => exact ⟨id, mode⟩
  | adopted id mode => exact ⟨id, mode⟩
  | started id mode => exact ⟨id, mode⟩
  | finished id mode => exact ⟨id, mode⟩

theorem mode_of_reachable {id : WorkerId} {mode : Mode}
    (reachable : (system id mode).Reachable worker) : worker.mode = mode := by
  induction reachable with
  | initial start =>
      rw [start]
      rfl
  | step before moved same => exact ((valid_of_reachable before).next moved).2.1.frame.2.trans same

theorem ledger_of_reachable {id : WorkerId} {mode : Mode}
    (reachable : (system id mode).Reachable worker) : worker.Ledger := by
  refine reachable.invariant ?_ ?_
  · rintro _ rfl
    exact initial_ledger id mode
  · intro _ _ _ before ledger moved
    exact ((valid_of_reachable before).next moved).2.1.ledger ledger

end Worker

end MiniMarl
