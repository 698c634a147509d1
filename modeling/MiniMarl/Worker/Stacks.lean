import MiniMarl.Worker.Ledger

namespace MiniMarl

open Data

/-! What the stacks of a worker hold, whatever its thread does. A stack that is
suspended goes on with the code it was suspended in, and a stack that runs a
task got it from the queue. -/

/-- The stack is suspended in no code but such as satisfies `Q`, and is not
back in the code of a bound thread. -/
structure Position.Fits {φ : Type} (Q : Body φ → Prop) (position : Position φ) : Prop where
  away : position ≠ .body .thread
  suspends : ∀ code, position.suspends? = some code → Q code

namespace Worker

variable {φ : Type} {address : Fiber ↪ Nat} {worker middle after : Worker φ address} {Q : Body φ → Prop}

def Hosts (Q : Body φ → Prop) (worker : Worker φ address) : Prop := ∀ fiber, (worker.position fiber).Fits Q

/-- A piece of a worker's code leaves `shutdown` alone, and the stacks fit as before. -/
structure Carries (Q : Body φ → Prop) (before after : Worker φ address) : Prop where
  shutdown : after.shutdown = before.shutdown
  hosts : before.Hosts Q → after.Hosts Q

theorem Carries.refl (worker : Worker φ address) : Carries Q worker worker := ⟨rfl, fun hosts => hosts⟩

theorem Carries.trans (first : Carries Q worker middle) (second : Carries Q middle after) : Carries Q worker after :=
  ⟨second.shutdown.trans first.shutdown, fun hosts => second.hosts (first.hosts hosts)⟩

theorem Carries.position (shutdown : after.shutdown = worker.shutdown) (position : after.position = worker.position) :
    Carries Q worker after :=
  ⟨shutdown, fun hosts fiber => position ▸ hosts fiber⟩

theorem Carries.setPosition {fiber : Fiber} {target : Position φ} (fits : worker.Hosts Q → target.Fits Q) :
    Carries Q worker (worker.setPosition fiber target) := by
  refine ⟨rfl, fun hosts other => ?_⟩
  by_cases here : other = fiber
  · rw [here, show (worker.setPosition fiber target).position fiber = target from Function.update_self ..]
    exact fits hosts
  · rw [show (worker.setPosition fiber target).position other = worker.position other from
      Function.update_of_ne here _ _]
    exact hosts other

theorem Carries.moveTo {target : Position φ} (fits : middle.Hosts Q → target.Fits Q)
    (position : middle.position = worker.position := by rfl) (shutdown : middle.shutdown = worker.shutdown := by rfl) :
    Carries Q worker (middle.moveTo target) :=
  (Carries.position shutdown position).trans (.setPosition fits)

/-- The stack moves on inside of the same wait. -/
theorem Carries.onward {source target : Position φ} (found : middle.current = source)
    (same : target.suspends? = source.suspends?) (away : target ≠ .body .thread := by simp)
    (position : middle.position = worker.position := by rfl) (shutdown : middle.shutdown = worker.shutdown := by rfl) :
    Carries Q worker (middle.moveTo target) := by
  refine .moveTo (fun hosts => ⟨away, fun code suspended => ?_⟩) position shutdown
  have fits : source.Fits Q := found ▸ hosts middle.currentFiber
  exact fits.suspends code (same ▸ suspended)

/-- The stack is inside of no wait. -/
theorem Carries.outside {target : Position φ} (outside : target.suspends? = none := by rfl)
    (away : target ≠ .body .thread := by simp) (position : middle.position = worker.position := by rfl)
    (shutdown : middle.shutdown = worker.shutdown := by rfl) : Carries Q worker (middle.moveTo target) :=
  .moveTo (fun _ => ⟨away, by simp [outside]⟩) position shutdown

/-- Where `switchTo` ends: in the user code of a fiber that was suspended, in
`runUntilIdle` on one that was idle, or where a fresh one starts. -/
theorem switchToFiber_eq {target : Fiber} (done : worker.switchToFiber target = .ok after) :
    (∃ code, worker.position target = .suspended code ∧
      after = ({ worker with
        currentFiber := target
        numBlockedFibers := worker.numBlockedFibers - 1 }.setState target .running).moveTo (.body code)) ∨
    (worker.position target = .idle ∧ worker.state target = .idle ∧
      after = ({ worker with currentFiber := target }.setState target .running).moveTo .runUntilIdle) ∨
    (worker.position target).parked = false ∧ after = { worker with currentFiber := target } := by
  obtain ⟨_, _, resumes⟩ := Except.bind_eq_ok.mp done
  cases found : worker.position target with
  | idle =>
      simp only [resumed, current, found] at resumes
      obtain ⟨changed, change, moved⟩ := Except.bind_eq_ok.mp resumes
      obtain ⟨_, checked, _⟩ := Except.bind_eq_ok.mp change
      rw [changeFiberState_eq change] at moved
      cases moved
      exact .inr (.inl ⟨rfl, by simpa [assertFiberState, marlAssert] using checked, rfl⟩)
  | suspended code =>
      simp only [resumed, current, found] at resumes
      cases resumes
      exact .inl ⟨code, rfl, rfl⟩
  | _ =>
      simp only [resumed, current, found] at resumes
      cases resumes
      exact .inr (.inr ⟨rfl, rfl⟩)


theorem switchToFiber_carries (away : ¬ Q .thread) {target : Fiber} (done : middle.switchToFiber target = .ok after)
    (position : middle.position = worker.position := by rfl) (shutdown : middle.shutdown = worker.shutdown := by rfl) :
    Carries Q worker after := by
  have same : Carries Q worker middle := .position shutdown position
  rcases switchToFiber_eq done with ⟨code, parked, rfl⟩ | ⟨_, _, rfl⟩ | ⟨_, rfl⟩
  · refine same.trans ⟨rfl, fun hosts => ?_⟩
    have fits : (Position.suspended code).Fits Q := parked ▸ hosts target
    have inside : Q code := fits.suspends code rfl
    refine (Carries.setPosition fun _ => ⟨?_, by simp [Position.suspends?]⟩).hosts hosts
    rintro ⟨⟩
    exact away inside
  · exact same.trans .outside
  · exact same.trans (.position rfl rfl)

theorem createWorkerFiber_carries (worker : Worker φ address) : Carries Q worker worker.createWorkerFiber.2 := by
  let fiber : Fiber := ⟨worker.id, worker.workerFibers.length + 1⟩
  let created : Worker φ address :=
    { worker with workerFibers := worker.workerFibers ++ [fiber] }.setState fiber .running
  have same : Carries Q worker created := .position rfl rfl
  exact same.trans (.setPosition fun _ => ⟨by simp, by simp [Position.suspends?]⟩)

/-- The fibers whose deadline has passed are queued, and all stacks stay where they are. -/
theorem enqueueFiberTimeoutsLoop_stacks {now : TimePoint} {turns : Nat}
    (done : worker.enqueueFiberTimeoutsLoop now turns = .ok after) :
    after.position = worker.position ∧ after.currentFiber = worker.currentFiber ∧ after.shutdown = worker.shutdown := by
  induction turns generalizing worker with
  | zero =>
      cases done
      exact ⟨rfl, rfl, rfl⟩
  | succ turns ih =>
      obtain ⟨taken, _, done⟩ := Except.bind_eq_ok.mp done
      rcases taken with ⟨none | fiber, waiting⟩
      · cases done
        exact ⟨rfl, rfl, rfl⟩
      · obtain ⟨changed, change, done⟩ := Except.bind_eq_ok.mp done
        rw [changeFiberState_eq change] at done
        have kept := ih done
        exact kept

theorem workWaitDone_carries {site : WaitSite φ} {now : TimePoint} {source : Position φ}
    (found : worker.current = source) (inside : source.suspends? = site.body?)
    (done : middle.workWaitDone site now = .ok after) (kept : middle.position = worker.position := by rfl)
    (here : middle.currentFiber = worker.currentFiber := by rfl)
    (told : middle.shutdown = worker.shutdown := by rfl) : Carries Q worker after := by
  cases site with
  | run =>
      obtain ⟨_, _, moved⟩ := Except.bind_eq_ok.mp done
      cases moved
      exact .outside rfl (by simp) kept told
  | waitForWork caller =>
      obtain ⟨expired, expire, moved⟩ := Except.bind_eq_ok.mp done
      cases moved
      obtain ⟨position, same, shutdown⟩ : expired.position = middle.position ∧
          expired.currentFiber = middle.currentFiber ∧ expired.shutdown = middle.shutdown := by
        unfold Worker.expireWaiting at expire
        split at expire
        · have waits := enqueueFiberTimeoutsLoop_stacks expire
          exact waits
        · cases expire
          exact ⟨rfl, rfl, rfl⟩
      have still : expired.current = source := by
        rw [← found, current, current, position, kept, same, here]
      exact .onward still inside.symm (by simp) (position.trans kept) (shutdown.trans told)

/-- One piece of the code of a worker. -/
theorem proceed_carries (away : ¬ Q .thread) {now : TimePoint} {pick : Fiber} (done : worker.proceed now pick = .ok after) :
    Carries Q worker after := by
  cases found : worker.current with
  | asleep _ _ | idle | body _ | suspended _ | exited => simp [Worker.proceed, found] at done
  | start =>
      simp only [Worker.proceed, found, Except.ok.injEq] at done
      exact done ▸ .outside
  | spinForWork caller | spun caller =>
      simp only [Worker.proceed, found, Except.ok.injEq] at done
      exact done ▸ .onward found rfl
  | stolen caller task =>
      simp only [Worker.proceed, found, Except.ok.injEq] at done
      rw [← done]
      exact .onward found rfl
  | awoken site deadline timedOut =>
      simp only [Worker.proceed, found, reacquire] at done
      split at done
      · exact workWaitDone_carries found rfl done
      · cases done
        exact .onward found rfl
  | workWait site =>
      simp only [Worker.proceed, found] at done
      obtain ⟨deadline, _, done⟩ := Except.bind_eq_ok.mp done
      split at done
      · exact workWaitDone_carries found rfl done
      · cases done
        exact .onward found rfl
  | run =>
      simp only [Worker.proceed, found, Worker.run] at done
      split at done
      · cases done
        exact .outside
      · obtain ⟨_, _, moved⟩ := Except.bind_eq_ok.mp done
        cases moved
        exact .outside
  | runUntilShutdown =>
      simp only [Worker.proceed, found, Except.ok.injEq] at done
      rw [← done, Worker.runUntilShutdown]
      split <;> exact .outside
  | waitForWork caller =>
      simp only [Worker.proceed, found] at done
      obtain ⟨_, _, done⟩ := Except.bind_eq_ok.mp done
      split at done
      · cases done
        exact .onward found rfl
      · split at done <;> cases done <;> exact .onward found rfl
  | workFound caller =>
      simp only [Worker.proceed, found] at done
      cases caller with
      | runUntilShutdown =>
          obtain ⟨_, _, done⟩ := Except.bind_eq_ok.mp done
          obtain ⟨_, _, moved⟩ := Except.bind_eq_ok.mp done
          cases moved
          exact .outside
      | suspend body =>
          let counted : Worker φ address := { worker with numBlockedFibers := worker.numBlockedFibers + 1 }
          have parks : Carries Q worker (counted.moveTo (.suspended body)) := .onward found rfl
          unfold Worker.suspendSwitch at done
          dsimp only at done
          split at done
          · obtain ⟨_, _, switched⟩ := Except.bind_eq_ok.mp done
            exact parks.trans (switchToFiber_carries away switched)
          · split at done
            · split at done
              · obtain ⟨_, _, switched⟩ := Except.bind_eq_ok.mp done
                exact parks.trans (switchToFiber_carries away switched)
              · cases done
            · exact (parks.trans (createWorkerFiber_carries _)).trans (switchToFiber_carries away done)
  | runUntilIdle =>
      simp only [Worker.proceed, found, Worker.runUntilIdle] at done
      split at done
      · obtain ⟨_, _, done⟩ := Except.bind_eq_ok.mp done
        obtain ⟨_, _, done⟩ := Except.bind_eq_ok.mp done
        obtain ⟨_, _, done⟩ := Except.bind_eq_ok.mp done
        obtain ⟨changed, change, done⟩ := Except.bind_eq_ok.mp done
        obtain ⟨_, _, switched⟩ := Except.bind_eq_ok.mp done
        rw [changeFiberState_eq change] at switched
        have parks : Carries Q worker (worker.moveTo .idle) := .outside
        exact parks.trans (switchToFiber_carries away switched)
      · cases done
        exact .outside
      · cases done
        exact .outside
  | left =>
      simp only [Worker.proceed, found, Worker.leave] at done
      split at done
      · cases done
        exact .outside
      · exact switchToFiber_carries away done

theorem suspend_carries {timeout : Option TimePoint} {code : Body φ} (inside : Q code)
    (done : worker.suspend timeout code = .ok after) : Carries Q worker after := by
  have fits : (Position.waitForWork (.suspend code)).Fits Q := by
    refine ⟨by simp, ?_⟩
    rintro _ ⟨⟩
    exact inside
  unfold Worker.suspend at done
  split at done
  · obtain ⟨changed, change, done⟩ := Except.bind_eq_ok.mp done
    obtain ⟨_, _, moved⟩ := Except.bind_eq_ok.mp done
    rw [changeFiberState_eq change] at moved
    cases moved
    exact .moveTo fun _ => fits
  · obtain ⟨changed, change, moved⟩ := Except.bind_eq_ok.mp done
    rw [changeFiberState_eq change] at moved
    cases moved
    exact .moveTo fun _ => fits

/-- One step of a worker, but for the two that write `shutdown`. -/
theorem step_carries {action : Action φ} (reads : action ≠ .setShutdown ∧ action ≠ .stop) (away : ¬ Q .thread)
    (suspends : ∀ timeout code, action = .suspend timeout → worker.current = .body code → Q code)
    (done : worker.step action = .ok after) : Carries Q worker after := by
  cases action with
  | setShutdown => exact absurd rfl reads.1
  | stop => exact absurd rfl reads.2
  | proceed now pick => exact proceed_carries away done
  | enqueue task =>
      simp only [Worker.step] at done
      split at done <;> cases done
      exact .position rfl rfl
  | steal =>
      simp only [Worker.step, Worker.steal] at done
      split at done
      · split at done
        · split at done
          · cases done
          · cases done
            exact .position rfl rfl
        · cases done
      · cases done
  | notify fiber =>
      simp only [Worker.step] at done
      split at done
      · unfold Worker.enqueueFiber at done
        split at done
        · cases done
          exact .refl _
        · cases done
          exact .refl _
        all_goals
          obtain ⟨_, _, done⟩ := Except.bind_eq_ok.mp done
          obtain ⟨_, _, moved⟩ := Except.bind_eq_ok.mp done
          cases moved
          exact .position rfl rfl
      · cases done
  | notifyAdded =>
      simp only [Worker.step, notifyAddedOne] at done
      split at done
      · cases done
        split
        · rename_i site deadline asleep
          exact .onward asleep rfl
        · exact .position rfl rfl
      · cases done
  | adopt task =>
      simp only [Worker.step] at done
      split at done <;> cases done
      rename_i caller found
      exact .onward found rfl
  | wake =>
      simp only [Worker.step] at done
      split at done <;> cases done
      rename_i site deadline found
      exact .onward found rfl
  | expire now =>
      simp only [Worker.step] at done
      split at done
      · rename_i site deadline found
        split at done <;> cases done
        exact .onward found rfl
      · cases done
  | suspend timeout =>
      simp only [Worker.step] at done
      split at done
      · rename_i code found
        exact suspend_carries (suspends timeout code rfl found) done
      · cases done
  | finish =>
      simp only [Worker.step] at done
      split at done <;> cases done
      exact .outside

theorem setShutdown_eq (done : worker.step .setShutdown = .ok after) :
    after = { worker with shutdown := true } := by
  simp only [Worker.step] at done
  split at done <;> cases done
  rfl

theorem stop_eq (done : worker.step .stop = .ok after) :
    after = { worker with shutdown := true }.moveTo .runUntilShutdown := by
  simp only [Worker.step] at done
  split at done <;> cases done
  rfl

/-- Once set, `shutdown` stays set. -/
theorem step_told {action : Action φ} (told : worker.shutdown = true) (done : worker.step action = .ok after) :
    after.shutdown = true := by
  cases action with
  | setShutdown => rw [setShutdown_eq done]
  | stop =>
      rw [stop_eq done]
      rfl
  | suspend timeout =>
      simp only [Worker.step] at done
      split at done
      · have carries : Carries (fun _ => True) worker after := suspend_carries trivial done
        rw [carries.shutdown, told]
      · cases done
  | _ =>
      have carries : Carries (fun _ => False) worker after := step_carries (by simp) (by simp) (by simp) done
      rw [carries.shutdown, told]

theorem Hosts.step (hosts : worker.Hosts Q) {action : Action φ} (away : ¬ Q .thread)
    (suspends : ∀ timeout code, action = .suspend timeout → worker.current = .body code → Q code)
    (done : worker.step action = .ok after) : after.Hosts Q := by
  by_cases writes : action = .setShutdown ∨ action = .stop
  · rcases writes with rfl | rfl
    · rw [setShutdown_eq done]
      exact hosts
    · rw [stop_eq done]
      let told : Worker φ address := { worker with shutdown := true }
      have goes : Carries Q told (told.moveTo .runUntilShutdown) := .outside
      exact goes.hosts hosts
  · exact (step_carries (not_or.mp writes) away suspends done).hosts hosts

end Worker

end MiniMarl
