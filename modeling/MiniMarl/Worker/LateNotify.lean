import MiniMarl.Worker.Reachable
import MiniMarl.Worker.Sleep

namespace MiniMarl.Worker

open Transition

variable {φ : Type} {address : Fiber ↪ Nat} {worker after : Worker φ address}

/-- `Fiber::notify` finds its fiber in any state but Idle. -/
def sparesIdle (worker : Worker φ address) : Action φ → Bool
  | .notify fiber => decide (worker.state fiber ≠ .idle)
  | _ => true

/-- A drained worker whose fibers run, or rest in the idle set. -/
structure Rests (worker : Worker φ address) : Prop extends Drained worker where
  resting : ∀ fiber ∈ worker.allFibers, worker.state fiber = .running ∨
    worker.state fiber = .idle ∧ fiber ∈ worker.idleFibers

theorem Inv.leave_resting (inv : worker.Inv) (found : worker.current = .left) (done : worker.leave = .ok after) :
    ∀ fiber ∈ after.allFibers, after.state fiber = .running ∨
      after.state fiber = .idle ∧ fiber ∈ after.idleFibers := by
  obtain ⟨_, _, clear⟩ := inv.leaving found
  have running := inv.current_running found (by simp) rfl
  have before : ∀ fiber ∈ worker.allFibers, worker.state fiber = .running ∨
      worker.state fiber = .idle ∧ fiber ∈ worker.idleFibers := by
    intro fiber member
    by_cases here : fiber = worker.currentFiber
    · exact .inl (here ▸ running)
    · have idle := (inv.others_idle clear member here).1
      exact .inr ⟨idle, (inv.idle fiber).mpr ⟨member, idle⟩⟩
  by_cases onMain : worker.currentFiber = worker.mainFiber
  · rw [Worker.leave, if_pos onMain] at done
    cases done
    exact before
  · obtain ⟨isIdle, parkedIdle⟩ := inv.others_idle clear List.mem_cons_self (Ne.symm onMain)
    rw [leave_home onMain isIdle parkedIdle] at done
    cases done
    intro fiber member
    by_cases here : fiber = worker.mainFiber
    · left
      simp [Worker.moveTo, setPosition, setState, here]
    · have kept : ((({ worker with currentFiber := worker.mainFiber } : Worker φ address).setState
          worker.mainFiber .running).moveTo .runUntilIdle).state fiber = worker.state fiber := by
        simp [Worker.moveTo, setPosition, setState, here]
      rw [kept]
      exact before fiber member

/-- The two stages of a worker's life, when no idle fiber is notified. -/
def Calm (worker : Worker φ address) : Prop := worker.Inv ∨ worker.Rests

theorem Inv.calm_step (inv : worker.Inv) {action : Action φ} (spares : worker.sparesIdle action = true) :
    worker.step action = .error .disabled ∨ ∃ after, worker.step action = .ok after ∧ after.Calm := by
  by_cases left : worker.current = .left
  · rcases step_of_left left action with disabled | rfl | rfl | ⟨now, pick, rfl, leaves⟩
    · exact .inl disabled
    · exact inv.stepNotifyAdded.imp_right fun ⟨after, done, still, _⟩ => ⟨after, done, .inl still⟩
    · exact inv.stepSetShutdown.imp_right fun ⟨after, done, still, _⟩ => ⟨after, done, .inl still⟩
    · obtain ⟨after, done, valid, _⟩ : ∃ after, worker.leave = .ok after ∧ (after.Inv ∨ after.Drained) ∧
          Quiet worker after ∧ Arrives worker (.proceed now pick) after := inv.leave left
      refine .inr ⟨after, leaves.trans done, ?_⟩
      rcases valid with still | drained
      · exact .inl still
      · exact .inr ⟨drained, inv.leave_resting left done⟩
  · have busy : ∀ fiber, action = .notify fiber → worker.state fiber ≠ .idle := by
      intro fiber same
      simpa [sparesIdle, same] using spares
    refine (inv.advances left busy).imp_right ?_
    intro moved
    obtain ⟨after, done, still, _⟩ := moved
    exact ⟨after, done, .inl still⟩

theorem Rests.calm_step (rests : worker.Rests) {action : Action φ} (spares : worker.sparesIdle action = true) :
    worker.step action = .error .disabled ∨ ∃ after, worker.step action = .ok after ∧ after.Calm := by
  by_cases notifies : ∃ fiber, action = .notify fiber
  · obtain ⟨fiber, rfl⟩ := notifies
    have busy : worker.state fiber ≠ .idle := by simpa [sparesIdle] using spares
    by_cases free : worker.mutexFree = true ∧ fiber ∈ worker.allFibers
    · have running : worker.state fiber = .running := by
        rcases rests.resting fiber free.2 with running | ⟨idle, _⟩
        · exact running
        · exact absurd idle busy
      exact .inr ⟨worker, by simp [Worker.step, free, Worker.enqueueFiber, running], .inr rests⟩
    · exact .inl (by rw [Worker.step, if_neg free])
  · refine (rests.toDrained.stay fun fiber same => notifies ⟨fiber, same⟩).imp_right ?_
    intro moved
    obtain ⟨after, done, ⟨drained, state, idle, fibers⟩, _⟩ := moved
    refine ⟨after, done, .inr ⟨drained, ?_⟩⟩
    rw [state, idle, fibers]
    exact rests.resting

theorem Calm.step (calm : worker.Calm) {action : Action φ} (spares : worker.sparesIdle action = true) :
    worker.step action = .error .disabled ∨ ∃ after, worker.step action = .ok after ∧ after.Calm := by
  rcases calm with inv | rests
  · exact inv.calm_step spares
  · exact rests.calm_step spares

theorem Calm.apart (calm : worker.Calm) (fiber : Fiber) : ¬(fiber ∈ worker.fibers ∧ fiber ∈ worker.idleFibers) := by
  intro both
  obtain ⟨queued, idle⟩ := both
  rcases calm with inv | rests
  · have state := ((inv.queued fiber).mp queued).2
    rw [((inv.idle fiber).mp idle).2] at state
    cases state
  · rw [rests.noFibers] at queued
    cases queued

theorem Calm.mem_idle (calm : worker.Calm) {fiber : Fiber} (member : fiber ∈ worker.allFibers)
    (idle : worker.state fiber = .idle) : fiber ∈ worker.idleFibers := by
  rcases calm with inv | rests
  · exact (inv.idle fiber).mpr ⟨member, idle⟩
  · rcases rests.resting fiber member with running | ⟨_, listed⟩
    · rw [running] at idle
      cases idle
    · exact listed

/-- The runs in which no idle fiber is notified. -/
def sparing (id : WorkerId) (mode : Mode) : System (Worker φ address) (Action φ) :=
  (interleavings id mode).restrict fun worker action => worker.sparesIdle action = true

theorem calm_of_reachable {id : WorkerId} {mode : Mode} (reachable : (sparing id mode).Reachable worker) :
    worker.Calm := by
  induction reachable with
  | initial start => exact start ▸ .inl (initial_inv id mode)
  | @step state action after _ move ih =>
      have moved : state.step action = .ok after := Except.toOption_eq_some.mp move.2
      rcases ih.step move.1 with disabled | ⟨next, done, calm⟩
      · rw [disabled] at moved
        cases moved
      · rw [done] at moved
        cases moved
        exact calm

/-- As long as no idle fiber is notified, no fiber is both queued and idle, and
no assertion fails. A notification puts its fiber into both exactly when it
finds the fiber idle. -/
theorem late_notify_iff {id : WorkerId} {mode : Mode} (reachable : (sparing id mode).Reachable worker) :
    (∀ fiber, ¬(fiber ∈ worker.fibers ∧ fiber ∈ worker.idleFibers)) ∧
      (∀ action message, worker.sparesIdle action = true → worker.step action ≠ .error (.assertion message)) ∧
      ∀ fiber after, worker.step (.notify fiber) = .ok after →
        (fiber ∈ after.fibers ∧ fiber ∈ after.idleFibers ↔ worker.state fiber = .idle) := by
  have calm := calm_of_reachable reachable
  refine ⟨calm.apart, ?_, ?_⟩
  · intro action message spares failed
    rcases calm.step spares with disabled | ⟨after, done, _⟩
    · rw [disabled] at failed
      cases failed
    · rw [done] at failed
      cases failed
  · intro fiber after done
    have notified : worker.enqueueFiber fiber = .ok after ∧ fiber ∈ worker.allFibers := by
      simp only [Worker.step] at done
      split at done
      · rename_i free
        exact ⟨done, free.2⟩
      · cases done
    constructor
    · intro both
      by_contra busy
      have spares : worker.sparesIdle (.notify fiber : Action φ) = true := by simpa [sparesIdle] using busy
      rcases calm.step spares with disabled | ⟨next, stepped, still⟩
      · rw [disabled] at done
        cases done
      · rw [stepped] at done
        cases done
        exact still.apart fiber both
    · intro idle
      rcases enqueueFiber_cases notified.1 with ⟨_, running | queued⟩ | ⟨_, waiting, _, _, rfl⟩
      · rw [running] at idle
        cases idle
      · rw [queued] at idle
        cases idle
      · exact ⟨by simp [setState], calm.mem_idle notified.2 idle⟩

/-- A bound thread waits, a task runs on a new fiber and notifies the main
fiber, which takes over: the new fiber is idle. -/
def parksFiber : List (Action Nat) :=
  let proceed : Action Nat := .proceed 0 ⟨.bound 0, 0⟩
  [.suspend none, proceed, proceed, .enqueue ⟨1, .none⟩, .notifyAdded] ++ List.replicate 7 proceed ++
    [.notify ⟨.bound 0, 0⟩, .finish, proceed]

/-- The fiber of the finished task is idle, and a notification finds it so. -/
theorem late_notify_iff_idle : ∃ worker : Worker Nat Fiber.address, worker.state ⟨.bound 0, 1⟩ = .idle ∧
    ∀ after, worker.step (.notify ⟨.bound 0, 1⟩) = .ok after →
      (⟨.bound 0, 1⟩ : Fiber) ∈ after.fibers ∧ (⟨.bound 0, 1⟩ : Fiber) ∈ after.idleFibers := by
  obtain ⟨worker, reachable, seen⟩ := System.reachable_of_guarded_replay
    (· = (initial (.bound 0) .singleThreaded : Worker Nat Fiber.address))
    (fun worker action => (worker.step action).toOption) sparesIdle rfl parksFiber
    (fun worker => decide (worker.state ⟨.bound 0, 1⟩ = .idle)) (by decide +kernel)
  have idle : worker.state ⟨.bound 0, 1⟩ = .idle := by simpa using seen
  exact ⟨worker, idle, fun after done => ((late_notify_iff reachable).2.2 _ after done).mpr idle⟩

def breaks (worker : Worker Nat Fiber.address) : Bool :=
  (worker.step (.notify ⟨.bound 0, 1⟩)).toOption.any fun after : Worker Nat Fiber.address =>
    decide ((⟨.bound 0, 1⟩ : Fiber) ∈ after.fibers ∧ (⟨.bound 0, 1⟩ : Fiber) ∈ after.idleFibers) &&
      (System.execute (fun worker action => (worker.step action).toOption) after
        [.suspend none, .proceed 0 ⟨.bound 0, 0⟩]).any fun last : Worker Nat Fiber.address =>
          match last.step (.proceed 0 ⟨.bound 0, 0⟩) with
          | .error refusal => decide (refusal = .assertion "switching to idle fiber")
          | .ok _ => false

/-- The late notification puts the fiber into both sets, and the next wait of
the main fiber runs into the assertion of `switchToFiber`. -/
theorem late_notify_breaks : ∃ worker after last : Worker Nat Fiber.address,
    (interleavings (.bound 0) .singleThreaded).Reachable worker ∧ worker.step (.notify ⟨.bound 0, 1⟩) = .ok after ∧
      ((⟨.bound 0, 1⟩ : Fiber) ∈ after.fibers ∧ (⟨.bound 0, 1⟩ : Fiber) ∈ after.idleFibers) ∧
      System.execute (fun worker action => (worker.step action).toOption) after
        [.suspend none, .proceed 0 ⟨.bound 0, 0⟩] = some last ∧
      last.step (.proceed 0 ⟨.bound 0, 0⟩) = .error (.assertion "switching to idle fiber") := by
  obtain ⟨worker, reachable, seen⟩ := System.reachable_of_replay
    (· = (initial (.bound 0) .singleThreaded : Worker Nat Fiber.address))
    (fun worker action => (worker.step action).toOption) rfl parksFiber
    breaks (by decide +kernel)
  obtain ⟨after, notified, seen⟩ := (Option.any_eq_true _ _).mp seen
  obtain ⟨both, seen⟩ := (Bool.and_eq_true_iff).mp seen
  obtain ⟨last, executed, seen⟩ := (Option.any_eq_true _ _).mp seen
  refine ⟨worker, after, last, reachable, Except.toOption_eq_some.mp notified, of_decide_eq_true both, executed, ?_⟩
  split at seen
  · rename_i refusal failed
    rw [failed, of_decide_eq_true seen]
  · cases seen

end MiniMarl.Worker
