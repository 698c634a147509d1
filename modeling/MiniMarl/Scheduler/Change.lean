import MiniMarl.Scheduler.Step

namespace MiniMarl

/-- The stages of a call for a worker thread of the scheduler's choice. -/
def Stage.shared : Stage → Bool
  | .exchange _ | .roundRobin | .tryLock _ => true
  | .entered | .lock _ => false

namespace Scheduler

open Data

variable {φ : Type} {address : Fiber ↪ Nat}

/-- The tasks of the calls that are still under way. -/
def inFlight (scheduler : Scheduler φ address) : List (Task (Closure φ)) := scheduler.calls.map Call.task

/-- The worker that a step pushes a task onto. -/
def target? (scheduler : Scheduler φ address) : Action φ → Option WorkerId
  | .enqueueNext party =>
      match scheduler.calls.find? fun call => call.party = party with
      | some ⟨_, _, .tryLock index⟩ =>
          if (scheduler.worker (.thread index)).mutexFree then some (.thread index) else none
      | some ⟨_, _, .lock id⟩ => some id
      | _ => none
  | .destroy =>
      match scheduler.destructor with
      | .stopping (index + 1) => some (.thread index)
      | _ => none
  | _ => none

/-- What holds of the calls under way and of the slots of the spinning workers. -/
structure Routed (scheduler : Scheduler φ address) : Prop where
  user : ∀ call ∈ scheduler.calls, ∃ function, call.task.function = .user function
  lock : ∀ call ∈ scheduler.calls, ∀ id, call.stage = .lock id → call.party.current? = some id
  shared : ∀ call ∈ scheduler.calls, call.stage.shared = true →
    call.task.flags = .none ∧ 0 < scheduler.count
  index : ∀ call ∈ scheduler.calls, ∀ index, call.stage = .tryLock index → index < scheduler.count
  slots : ∀ slot, scheduler.spinningWorkers slot < scheduler.count

/-- What a step leaves alone that moves no task into or out of the books. -/
structure Same (before after : Scheduler φ address) : Prop where
  count : after.count = before.count
  binds : after.binds = before.binds
  inFlight : after.inFlight.Perm before.inFlight
  called : after.called = before.called
  handed : after.handed = before.handed

/-- What one step of a scheduler does to its workers and to the books. -/
inductive Change (before : Scheduler φ address) : Action φ → Scheduler φ address → Prop where
  | still (same : Same before after) (worker : after.worker = before.worker) : Change before action after
  | entered (task : Task (Closure φ)) (count : after.count = before.count)
      (binds : after.binds = before.binds) (inFlight : after.inFlight = task :: before.inFlight)
      (called : after.called = task :: before.called) (handed : after.handed = before.handed)
      (worker : after.worker = before.worker) : Change before action after
  | own (id : WorkerId) (action : Worker.Action (Closure φ)) (next : Worker (Closure φ) address)
      (same : Same before after) (present : before.present id = true)
      (own : action.transfers = false)
      (assigns : action = .setShutdown → ∃ executor index flags, before.present executor = true ∧
        (before.worker executor).current = .body (.task ⟨.stop index, flags⟩) ∧ id = .thread index)
      (leaves : action.leavesBody = true → runsUserCode (before.worker id) = true →
        before.calling (.worker id) = false)
      (moved : (before.worker id).admissibleStep action = some next)
      (worker : after.worker = Function.update before.worker id next) : Change before label after
  | pushed (id : WorkerId) (entry : Handed φ) (next : Worker (Closure φ) address)
      (count : after.count = before.count) (binds : after.binds = before.binds)
      (present : before.present id = true) (target : before.target? action = some id)
      (home : entry.task.flags = .sameThread → entry.current? = some id)
      (stops : ∀ index, entry.task.function = .stop index → id = .thread index)
      (moved : (before.worker id).admissibleStep (.enqueue entry.task) = some next)
      (worker : after.worker = Function.update before.worker id next)
      (books : (entry.task :: after.inFlight).Perm before.inFlight ∧ after.called = before.called ∨
        after.inFlight = before.inFlight ∧ after.called = entry.task :: before.called)
      (handed : after.handed = entry :: before.handed) : Change before action after
  | stolen (victim thief : WorkerId) (task : Task (Closure φ)) (robbed next : Worker (Closure φ) address)
      (same : Same before after) (victimIs : victim = .thread (source % before.count))
      (different : victim ≠ thief) (present : before.present victim = true ∧ before.present thief = true)
      (front : ∃ rest, (before.worker victim).tasks = task :: rest) (foreign : task.flags = .none)
      (taken : (before.worker victim).admissibleStep .steal = some robbed)
      (adopted : (before.worker thief).admissibleStep (.adopt task) = some next)
      (worker : after.worker = Function.update (Function.update before.worker victim robbed) thief next) :
      Change before (.stealWork thief source) after
  | bound (count : after.count = before.count) (binds : after.binds = before.binds + 1)
      (inFlight : after.inFlight = before.inFlight) (called : after.called = before.called)
      (handed : after.handed = before.handed)
      (worker : after.worker = Function.update before.worker (.bound before.binds)
        (.initial (.bound before.binds) .singleThreaded)) : Change before action after

variable {scheduler after : Scheduler φ address}

theorem act_cases {id : WorkerId} {action : Worker.Action (Closure φ)}
    (moved : scheduler.act id action = some after) :
    ∃ next, scheduler.present id = true ∧ (scheduler.worker id).admissibleStep action = some next ∧
      after = { scheduler with worker := Function.update scheduler.worker id next } := by
  unfold act at moved
  split at moved
  · rename_i present
    obtain ⟨next, done, rfl⟩ := Option.map_eq_some_iff.mp moved
    exact ⟨next, present, done, rfl⟩
  · cases moved

/-- A worker moves by itself, and the calls are as they were. -/
theorem Routed.act (routed : scheduler.Routed) {id : WorkerId} {action : Worker.Action (Closure φ)}
    {label : Action φ} (own : action.transfers = false) (silent : action ≠ .setShutdown)
    (leaves : action.leavesBody = true → runsUserCode (scheduler.worker id) = true →
      scheduler.calling (.worker id) = false)
    (moved : scheduler.act id action = some after) : Change scheduler label after ∧ after.Routed := by
  obtain ⟨next, present, done, rfl⟩ := act_cases moved
  exact ⟨.own id action next ⟨rfl, rfl, .refl _, rfl, rfl⟩ present own (fun same => absurd same silent)
    leaves done rfl, routed.user, routed.lock, routed.shared, routed.index, routed.slots⟩

theorem Routed.proceed (routed : scheduler.Routed) {id : WorkerId} {now : TimePoint} {pick : Fiber}
    {label : Action φ} (moved : scheduler.proceed id now pick = some after) :
    Change scheduler label after ∧ after.Routed := by
  unfold Scheduler.proceed at moved
  split at moved
  · cases id with
    | bound index => cases moved
    | thread index =>
        cases drawn : scheduler.spinSlot (.thread index) with
        | none => simp [drawn] at moved
        | some slot =>
            simp only [drawn] at moved
            obtain ⟨next, present, done, rfl⟩ := act_cases moved
            refine ⟨.own (.thread index) (.proceed now pick) next ⟨rfl, rfl, .refl _, rfl, rfl⟩ present rfl
              (by simp) (by simp [Worker.Action.leavesBody]) done rfl, routed.user, routed.lock, routed.shared, routed.index, ?_⟩
            intro other
            have inside : index < scheduler.count := by simpa [Scheduler.present] using present
            by_cases here : other = slot
            · simpa [here] using inside
            · simpa [here] using routed.slots other
  · exact routed.act rfl (by simp) (by simp [Worker.Action.leavesBody]) moved

theorem Routed.own (routed : scheduler.Routed) {id : WorkerId} {action : Worker.Action (Closure φ)}
    {label : Action φ} (moved : scheduler.own id action = some after) :
    Change scheduler label after ∧ after.Routed := by
  unfold Scheduler.own at moved
  cases action with
  | proceed now pick => exact routed.proceed moved
  | notify fiber => exact routed.act rfl (by simp) (by simp [Worker.Action.leavesBody]) moved
  | notifyAdded => exact routed.act rfl (by simp) (by simp [Worker.Action.leavesBody]) moved
  | wake => exact routed.act rfl (by simp) (by simp [Worker.Action.leavesBody]) moved
  | expire now => exact routed.act rfl (by simp) (by simp [Worker.Action.leavesBody]) moved
  | suspend timeout =>
      rw [Option.ite_none_right_eq_some, Bool.and_eq_true, Bool.not_eq_true'] at moved
      exact routed.act rfl (by simp) (fun _ _ => moved.1.2) moved.2
  | stop =>
      rw [Option.ite_none_right_eq_some, Bool.and_eq_true, Bool.not_eq_true'] at moved
      exact routed.act rfl (by simp) (fun _ _ => moved.1.2) moved.2
  | finish =>
      rw [Option.ite_none_right_eq_some] at moved
      refine routed.act rfl (by simp) (fun _ userCode => ?_) moved.2
      have ready := moved.1
      unfold returns at ready
      split at ready
      · rename_i executing
        simp [runsUserCode, executing] at userCode
      · simpa using ready
  | enqueue task => cases moved
  | steal => cases moved
  | adopt task => cases moved
  | setShutdown => cases moved

theorem Routed.onBeginSpinning (routed : scheduler.Routed) {id : WorkerId} {label : Action φ}
    (moved : scheduler.onBeginSpinning id = some after) : Change scheduler label after ∧ after.Routed := by
  unfold Scheduler.onBeginSpinning at moved
  rw [Option.ite_none_right_eq_some, Option.some.injEq] at moved
  obtain ⟨_, rfl⟩ := moved
  exact ⟨.still ⟨rfl, rfl, .refl _, rfl, rfl⟩ rfl, routed.user, routed.lock, routed.shared,
    routed.index, routed.slots⟩

theorem Routed.assignShutdown (routed : scheduler.Routed) {id : WorkerId} {label : Action φ}
    (moved : scheduler.assignShutdown id = some after) : Change scheduler label after ∧ after.Routed := by
  unfold Scheduler.assignShutdown at moved
  split at moved
  · rename_i index flags executing
    rw [Option.ite_none_right_eq_some] at moved
    obtain ⟨executorPresent, moved⟩ := moved
    obtain ⟨next, present, done, rfl⟩ := act_cases moved
    exact ⟨.own (.thread index) .setShutdown next ⟨rfl, rfl, .refl _, rfl, rfl⟩ present rfl
      (fun _ => ⟨id, index, flags, executorPresent, executing, rfl⟩) (by simp [Worker.Action.leavesBody])
      done rfl, routed.user, routed.lock,
      routed.shared, routed.index, routed.slots⟩
  · cases moved

/-- A successful `stealWork` takes the oldest task of a worker thread that is
not the thief. -/
theorem Routed.stealWork (routed : scheduler.Routed) {thief : WorkerId} {source : Nat}
    (moved : scheduler.stealWork thief source = some after) :
    Change scheduler (.stealWork thief source) after ∧ after.Routed := by
  unfold Scheduler.stealWork at moved
  rw [Option.ite_none_right_eq_some] at moved
  obtain ⟨_, moved⟩ := moved
  dsimp only at moved
  rw [Option.ite_none_right_eq_some] at moved
  obtain ⟨different, moved⟩ := moved
  rcases (scheduler.worker (.thread (source % scheduler.count))).steal_cases with
    nothing | ⟨task, rest, shape, foreign, taken⟩
  · simp [nothing] at moved
  · simp only [taken] at moved
    obtain ⟨middle, robbing, adopting⟩ := Option.bind_eq_some_iff.mp moved
    obtain ⟨robbed, victimPresent, robbedIs, rfl⟩ := act_cases robbing
    obtain ⟨next, thiefPresent, nextIs, rfl⟩ := act_cases adopting
    have thiefWorker : (Function.update scheduler.worker (.thread (source % scheduler.count)) robbed) thief =
        scheduler.worker thief := Function.update_of_ne (Ne.symm different) _ _
    have thiefPresent' : scheduler.present thief = true := by
      cases thief <;> exact thiefPresent
    have adopts : (scheduler.worker thief).admissibleStep (.adopt task) = some next := by
      rw [← thiefWorker]
      exact nextIs
    exact ⟨.stolen _ thief task robbed next ⟨rfl, rfl, .refl _, rfl, rfl⟩ rfl different
      ⟨victimPresent, thiefPresent'⟩ ⟨rest, shape⟩ foreign robbedIs adopts rfl, routed.user, routed.lock,
      routed.shared, routed.index, routed.slots⟩

theorem Routed.enqueue (routed : scheduler.Routed) {party : Party} {function : φ} {flags : Task.Flags}
    {label : Action φ} (moved : scheduler.enqueue party function flags = some after) :
    Change scheduler label after ∧ after.Routed := by
  unfold Scheduler.enqueue at moved
  dsimp only at moved
  rw [Option.ite_none_right_eq_some, Option.some.injEq] at moved
  obtain ⟨_, rfl⟩ := moved
  refine ⟨.entered ⟨.user function, flags⟩ rfl rfl rfl rfl rfl rfl, ?_, ?_, ?_, ?_, routed.slots⟩
  · exact List.forall_mem_cons.mpr ⟨⟨function, rfl⟩, routed.user⟩
  · exact List.forall_mem_cons.mpr ⟨by simp, routed.lock⟩
  · exact List.forall_mem_cons.mpr ⟨by simp [Stage.shared], routed.shared⟩
  · exact List.forall_mem_cons.mpr ⟨by simp, routed.index⟩

theorem Routed.restage (routed : scheduler.Routed) {call : Call φ} {label : Action φ}
    (member : scheduler.calls.find? (fun other => other.party = party) = some call)
    (moved : Scheduler φ address) (calls : moved.calls = scheduler.calls)
    (worker : moved.worker = scheduler.worker) (count : moved.count = scheduler.count)
    (binds : moved.binds = scheduler.binds) (called : moved.called = scheduler.called)
    (handed : moved.handed = scheduler.handed)
    (slots : ∀ slot, moved.spinningWorkers slot < scheduler.count) (stage : Stage)
    (lock : ∀ id, stage = .lock id → call.party.current? = some id)
    (shared : stage.shared = true → call.task.flags = .none ∧ 0 < scheduler.count)
    (index : ∀ index, stage = .tryLock index → index < scheduler.count) :
    Change scheduler label (moved.restage call stage) ∧ (moved.restage call stage).Routed := by
  have same : call.party = party := by simpa using List.find?_some member
  subst same
  have perm := perm_cons_eraseP member
  have kept {other : Call φ} (inside : other ∈ scheduler.calls.eraseP fun each => each.party = call.party) :
      other ∈ scheduler.calls := List.mem_of_mem_eraseP inside
  refine ⟨.still ⟨count, binds, ?_, called, handed⟩ worker, ?_, ?_, ?_, ?_, ?_⟩
  · simp only [inFlight, Scheduler.restage, calls, List.map_cons]
    exact (perm.map Call.task).symm
  all_goals simp only [Scheduler.restage, calls, count]
  · exact List.forall_mem_cons.mpr ⟨routed.user call (List.mem_of_find?_eq_some member),
      fun other inside => routed.user other (kept inside)⟩
  · exact List.forall_mem_cons.mpr ⟨lock, fun other inside => routed.lock other (kept inside)⟩
  · exact List.forall_mem_cons.mpr ⟨shared, fun other inside => routed.shared other (kept inside)⟩
  · exact List.forall_mem_cons.mpr ⟨index, fun other inside => routed.index other (kept inside)⟩
  · exact slots

theorem Routed.push (routed : scheduler.Routed) {call : Call φ} {label : Action φ} {id : WorkerId}
    (member : scheduler.calls.find? (fun other => other.party = party) = some call)
    (target : scheduler.target? label = some id)
    (home : call.task.flags = .sameThread → call.party.current? = some id)
    (moved : scheduler.push call id = some after) : Change scheduler label after ∧ after.Routed := by
  have same : call.party = party := by simpa using List.find?_some member
  subst same
  have kept {other : Call φ} (inside : other ∈ scheduler.calls.eraseP fun each => each.party = call.party) :
      other ∈ scheduler.calls := List.mem_of_mem_eraseP inside
  obtain ⟨function, userCode⟩ := routed.user call (List.mem_of_find?_eq_some member)
  obtain ⟨next, present, done, rfl⟩ := act_cases moved
  have present' : scheduler.present id = true := by cases id <;> exact present
  refine ⟨.pushed id ⟨call.task, call.party.current?⟩ next rfl rfl present' target home (by simp [userCode])
    done rfl (.inl ⟨?_, rfl⟩) rfl, fun other inside => routed.user other (kept inside),
    fun other inside => routed.lock other (kept inside),
    fun other inside => routed.shared other (kept inside),
    fun other inside => routed.index other (kept inside), routed.slots⟩
  simp only [inFlight]
  rw [← List.map_cons]
  exact ((perm_cons_eraseP member).map Call.task).symm

theorem not_sameThread {task : Task (Closure φ)} (shared : ¬task.is .sameThread = true) :
    task.flags = .none := by
  cases flags : task.flags with
  | none => rfl
  | sameThread => exact absurd ((Task.is_sameThread task).mpr flags) shared

theorem Routed.enqueueNext (routed : scheduler.Routed) {call : Call φ} {party : Party}
    (member : scheduler.calls.find? (fun other => other.party = party) = some call)
    (moved : scheduler.enqueueNext call = some after) :
    Change scheduler (.enqueueNext party) after ∧ after.Routed := by
  have inside := List.mem_of_find?_eq_some member
  unfold Scheduler.enqueueNext at moved
  cases stage : call.stage with
  | entered =>
      simp only [stage] at moved
      split at moved
      · obtain ⟨id, current, rfl⟩ := Option.map_eq_some_iff.mp moved
        exact routed.restage member scheduler rfl rfl rfl rfl rfl rfl routed.slots (.lock id)
          (by rintro _ ⟨rfl⟩; exact current) (by simp [Stage.shared]) (by simp)
      · rename_i shared
        split at moved
        · rename_i positive
          obtain rfl := Option.some.inj moved
          exact routed.restage member
            { scheduler with nextSpinningWorkerIndex := scheduler.nextSpinningWorkerIndex - 1 }
            rfl rfl rfl rfl rfl rfl routed.slots _ (by simp)
            (fun _ => ⟨not_sameThread shared, positive⟩) (by simp)
        · obtain ⟨id, current, rfl⟩ := Option.map_eq_some_iff.mp moved
          exact routed.restage member scheduler rfl rfl rfl rfl rfl rfl routed.slots (.lock id)
            (by rintro _ ⟨rfl⟩; exact current) (by simp [Stage.shared]) (by simp)
  | exchange slot =>
      simp only [stage, Option.some.injEq] at moved
      subst moved
      have shared := routed.shared call inside (by rw [stage]; rfl)
      refine routed.restage member
        { scheduler with spinningWorkers := Function.update scheduler.spinningWorkers slot (-1) }
        rfl rfl rfl rfl rfl rfl ?_ _ ?_ (fun _ => shared) ?_
      · intro other
        by_cases here : other = slot
        · simp only [here, Function.update_self]
          omega
        · simpa [here] using routed.slots other
      · split <;> simp
      · intro index
        have bounded := routed.slots slot
        split
        · simp
        · rintro ⟨rfl⟩
          omega
  | roundRobin =>
      simp only [stage, Option.some.injEq] at moved
      subst moved
      have shared := routed.shared call inside (by rw [stage]; rfl)
      refine routed.restage member
        { scheduler with nextEnqueueIndex := scheduler.nextEnqueueIndex + 1 }
        rfl rfl rfl rfl rfl rfl routed.slots _ (by simp) (fun _ => shared) ?_
      rintro _ ⟨rfl⟩
      exact Nat.mod_lt _ shared.2
  | tryLock index =>
      simp only [stage] at moved
      split at moved
      · rename_i free
        refine routed.push member ?_ ?_ moved
        · obtain ⟨_, _, _⟩ := call
          simp only at stage
          simp [target?, member, stage, free]
        · rw [(routed.shared call inside (by rw [stage]; rfl)).1]
          simp
      · obtain rfl := Option.some.inj moved
        exact routed.restage member scheduler rfl rfl rfl rfl rfl rfl routed.slots .entered (by simp)
          (by simp [Stage.shared]) (by simp)
  | lock id =>
      simp only [stage] at moved
      refine routed.push member ?_ (fun _ => routed.lock call inside id stage) moved
      obtain ⟨_, _, _⟩ := call
      simp only at stage
      simp [target?, member, stage]

theorem Routed.destroy (routed : scheduler.Routed) (moved : scheduler.destroy = some after) :
    Change scheduler .destroy after ∧ after.Routed := by
  have unmoved {next : Destructor} : Routed ({ scheduler with destructor := next } : Scheduler φ address) :=
    ⟨routed.user, routed.lock, routed.shared, routed.index, routed.slots⟩
  unfold Scheduler.destroy at moved
  split at moved
  · obtain rfl := Option.some.inj moved
    exact ⟨.still ⟨rfl, rfl, .refl _, rfl, rfl⟩ rfl, unmoved⟩
  · rw [Option.ite_none_right_eq_some, Option.some.injEq] at moved
    obtain ⟨_, rfl⟩ := moved
    exact ⟨.still ⟨rfl, rfl, .refl _, rfl, rfl⟩ rfl, unmoved⟩
  · obtain rfl := Option.some.inj moved
    exact ⟨.still ⟨rfl, rfl, .refl _, rfl, rfl⟩ rfl, unmoved⟩
  · rename_i index stage
    obtain ⟨next, present, done, rfl⟩ := act_cases moved
    exact ⟨.pushed (.thread index) ⟨stopTask index, none⟩ next rfl rfl present
      (by simp [target?, stage]) (by simp [stopTask]) (by simp [stopTask]) done rfl
      (.inr ⟨rfl, rfl⟩) rfl, routed.user, routed.lock, routed.shared, routed.index, routed.slots⟩
  · rw [Option.ite_none_right_eq_some, Option.some.injEq] at moved
    obtain ⟨_, rfl⟩ := moved
    exact ⟨.still ⟨rfl, rfl, .refl _, rfl, rfl⟩ rfl, unmoved⟩
  · cases moved

theorem Routed.step (routed : scheduler.Routed) {action : Action φ}
    (moved : scheduler.step action = some after) : Change scheduler action after ∧ after.Routed := by
  unfold Scheduler.step at moved
  split at moved
  · cases moved
  · cases action with
    | own id action => exact routed.own moved
    | onBeginSpinning id => exact routed.onBeginSpinning moved
    | stealWork thief source => exact routed.stealWork moved
    | assignShutdown id => exact routed.assignShutdown moved
    | enqueue party function flags => exact routed.enqueue moved
    | enqueueNext party =>
        obtain ⟨call, member, moved⟩ := Option.bind_eq_some_iff.mp moved
        exact routed.enqueueNext member moved
    | bind =>
        simp only [Scheduler.bind] at moved
        rw [Option.ite_none_right_eq_some, Option.some.injEq] at moved
        obtain ⟨_, rfl⟩ := moved
        exact ⟨.bound rfl rfl rfl rfl rfl rfl, routed.user, routed.lock, routed.shared, routed.index,
          routed.slots⟩
    | unbind index =>
        simp only [Scheduler.unbind] at moved
        rw [Option.ite_none_right_eq_some, Option.some.injEq] at moved
        obtain ⟨_, rfl⟩ := moved
        exact ⟨.still ⟨rfl, rfl, .refl _, rfl, rfl⟩ rfl, routed.user, routed.lock, routed.shared,
          routed.index, routed.slots⟩
    | destroy => exact routed.destroy moved

theorem initial_routed (count : Nat) : (initial count : Scheduler φ address).Routed := by
  refine ⟨by simp [initial], by simp [initial], by simp [initial], by simp [initial], ?_⟩
  intro slot
  simp only [initial]
  omega

theorem routed_of_reachable {count : Nat} (reachable : (system count).Reachable scheduler) :
    scheduler.Routed := by
  refine reachable.invariant ?_ ?_
  · rintro _ rfl
    exact initial_routed count
  · intro _ _ _ _ routed moved
    exact (routed.step moved).2

end Scheduler

end MiniMarl
