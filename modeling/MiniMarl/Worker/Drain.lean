import MiniMarl.Worker.Ledger

namespace MiniMarl.Worker

open Transition

variable {φ : Type} {address : Fiber ↪ Nat} {worker : Worker φ address}

/-- `runUntilShutdown` has just returned on the current fiber, and on no other
fiber before. -/
def FirstReturn (worker : Worker φ address) : Prop :=
  worker.current = .left ∧
    ∀ fiber ∈ worker.allFibers, fiber ≠ worker.currentFiber → worker.position fiber ≠ .left

instance [DecidableEq φ] : Decidable worker.FirstReturn :=
  inferInstanceAs (Decidable (_ ∧ ∀ fiber ∈ worker.allFibers, _ → _))

/-- Nothing is left to do, and no fiber is in the middle of a task. -/
structure Emptied (worker : Worker φ address) : Prop where
  tasks : worker.tasks = []
  fibers : worker.fibers = []
  waiting : worker.waiting.nonempty = false
  num : worker.num = 0
  numBlockedFibers : worker.numBlockedFibers = 0
  others : ∀ fiber ∈ worker.allFibers, fiber ≠ worker.currentFiber →
    worker.state fiber = .idle ∧ worker.position fiber = .idle

theorem Inv.emptied (inv : worker.Inv) (found : worker.current = .left) : worker.Emptied := by
  obtain ⟨_, numZero, clear⟩ := inv.leaving found
  have empty := inv.numSynced
  rw [numZero] at empty
  refine
    { tasks := List.length_eq_zero_iff.mp (by omega)
      fibers := List.length_eq_zero_iff.mp (by omega)
      waiting := WaitingFibers.nonempty_eq_false.mpr ?_
      num := numZero
      numBlockedFibers := clear
      others := fun fiber member other => inv.others_idle clear member other }
  intro fiber
  rw [← Bool.not_eq_true, inv.waiting]
  rintro ⟨member, isWaiting⟩
  by_cases here : fiber = worker.currentFiber
  · rw [here, inv.current_running found (by simp) rfl] at isWaiting
    cases isWaiting
  · rw [(inv.others_idle clear member here).1] at isWaiting
    cases isWaiting

theorem FirstReturn.inv (first : worker.FirstReturn) (valid : worker.Valid) : worker.Inv := by
  rcases valid with inv | drained
  · exact inv
  · obtain ⟨fiber, member, left⟩ := drained.returned
    have nodup := drained.nodup
    rw [allFibers, List.nodup_cons] at nodup
    refine absurd left (first.2 fiber (List.mem_cons_of_mem _ member) ?_)
    rw [drained.onMain]
    rintro rfl
    exact absurd member nodup.1

/-- The switch of `run` to the main fiber does nothing, or finds the main fiber
parked in `runUntilIdle`. -/
def SwitchesHome (worker : Worker φ address) (now : TimePoint) (pick : Fiber) : Prop :=
  worker.currentFiber = worker.mainFiber ∧
      worker.step (.proceed now pick) = .ok (worker.moveTo .exited) ∨
    worker.currentFiber ≠ worker.mainFiber ∧ worker.position worker.mainFiber = .idle ∧
      ∃ after, worker.step (.proceed now pick) = .ok after ∧ after.currentFiber = worker.mainFiber ∧
        after.current = .runUntilIdle

theorem Inv.switchesHome (inv : worker.Inv) (found : worker.current = .left) (now : TimePoint)
    (pick : Fiber) : worker.SwitchesHome now pick := by
  by_cases onMain : worker.currentFiber = worker.mainFiber
  · exact .inl ⟨onMain, by simp [Worker.step, Worker.proceed, found, Worker.leave, onMain]⟩
  · obtain ⟨isIdle, parkedIdle⟩ := (inv.emptied found).others worker.mainFiber List.mem_cons_self
      (Ne.symm onMain)
    let entered : Worker φ address := { worker with currentFiber := worker.mainFiber }
    refine .inr ⟨onMain, parkedIdle,
      (entered.setState worker.mainFiber .running).moveTo .runUntilIdle, ?_, rfl, current_moveTo _⟩
    rw [Worker.step, Worker.proceed, found]
    exact leave_home onMain isIdle parkedIdle

theorem Valid.executing_left (valid : worker.Valid) (found : worker.current = .left) :
    worker.tasks = [] ∧ worker.executing = [] := by
  rcases valid with inv | drained
  · refine ⟨(inv.emptied found).tasks, List.filterMap_eq_nil_iff.mpr ?_⟩
    intro fiber member
    by_cases here : fiber = worker.currentFiber
    · have place : worker.position fiber = .left := here ▸ found
      rw [place]
      rfl
    · rw [((inv.emptied found).others fiber member here).2]
      rfl
  · refine ⟨?_, drained.executing_nil⟩
    rcases drained.place with ⟨_, _, noTasks⟩ | gone
    · exact noTasks
    · rw [found] at gone
      cases gone

/-- A worker without thieves inserts what it is given and removes what it starts. -/
theorem Ledger.started_eq (ledger : worker.Ledger) (single : worker.mode = .singleThreaded) :
    worker.pushed = worker.started ++ worker.tasks := by
  have own := ledger.unshared single
  have inserts : worker.inserted = worker.pushed := List.filterMap_congr fun event member => by
    cases event <;> first | rfl | exact absurd (own _ member).1 (by simp [TaskEvent.adopted?])
  have removes : worker.removed = worker.started := List.filterMap_congr fun event member => by
    cases event <;> first | rfl | exact absurd (own _ member).2 (by simp [TaskEvent.robbed?])
  rw [← inserts, ← removes]
  exact ledger.fifo

/-- The first return of `runUntilShutdown` leaves an empty worker, and when a
bound thread comes back from `stop`, every task it was given has run to its
end once, and they were started in the order of their insertion. -/
theorem drained_of_reachable {id : WorkerId} {mode : Mode}
    (reachable : (system id mode).Reachable worker) :
    (worker.FirstReturn → worker.Emptied ∧ ∀ now pick, worker.SwitchesHome now pick) ∧
      ∀ now pick after, mode = .singleThreaded → worker.current = .left →
        worker.currentFiber = worker.mainFiber → worker.step (.proceed now pick) = .ok after →
        after.current = .exited ∧ after.started = after.pushed ∧ after.finished.Perm after.pushed := by
  have valid := valid_of_reachable reachable
  constructor
  · intro first
    have inv := first.inv valid
    exact ⟨inv.emptied first.1, fun now pick => inv.switchesHome first.1 now pick⟩
  · intro now pick after single found onMain done
    obtain ⟨noTasks, noStacks⟩ := valid.executing_left found
    have ledger := ledger_of_reachable reachable
    have exits : worker.moveTo .exited = after := by
      simpa [Worker.step, Worker.proceed, found, Worker.leave, onMain] using done
    have started := ledger.started_eq ((mode_of_reachable reachable).trans single)
    rw [noTasks, List.append_nil] at started
    have finished := ledger.started
    rw [noStacks, List.nil_append, ← started] at finished
    subst exits
    exact ⟨current_moveTo _, started.symm, finished.symm⟩

/-- A task that blocks is resumed behind the task that was queued after it, and
the bound thread comes back from `stop` with both finished. -/
theorem drained_after_blocked_task : ∃ worker after : Worker Nat Fiber.address,
    worker.Emptied ∧ worker.step (.proceed 0 ⟨.bound 0, 0⟩) = .ok after ∧
      after.pushed = [⟨7, .none⟩, ⟨8, .none⟩] ∧ after.started = after.pushed ∧
      after.finished.Perm after.pushed := by
  obtain ⟨worker, reachable, observed⟩ := System.reachable_of_replay
    (· = initial (.bound 0) .singleThreaded) admissibleStep rfl
    ([.enqueue ⟨7, .none⟩, .enqueue ⟨8, .none⟩, .stop] ++
      -- the main fiber starts the first task, which waits
      List.replicate 4 (.proceed 0 ⟨.bound 0, 0⟩) ++ [.suspend none] ++
      -- a new fiber starts the second task, which notifies the first
      List.replicate 7 (.proceed 0 ⟨.bound 0, 0⟩) ++ [.notify ⟨.bound 0, 0⟩, .finish] ++
      [.proceed 0 ⟨.bound 0, 0⟩, .finish] ++ List.replicate 2 (.proceed 0 ⟨.bound 0, 0⟩))
    (fun worker : Worker Nat Fiber.address => decide worker.FirstReturn &&
      decide (worker.currentFiber = worker.mainFiber) &&
      decide (worker.pushed = [⟨7, .none⟩, ⟨8, .none⟩])) (by decide +kernel)
  simp only [Bool.and_eq_true, decide_eq_true_eq] at observed
  obtain ⟨⟨first, onMain⟩, given⟩ := observed
  obtain ⟨emptied, home⟩ := (drained_of_reachable reachable).1 first
  rcases home 0 ⟨.bound 0, 0⟩ with ⟨_, exits⟩ | ⟨away, _⟩
  · obtain ⟨_, inOrder, finished⟩ :=
      (drained_of_reachable reachable).2 _ _ _ rfl first.1 onMain exits
    exact ⟨worker, worker.moveTo .exited, emptied, exits, given, inOrder, finished⟩
  · exact absurd onMain away

end MiniMarl.Worker
