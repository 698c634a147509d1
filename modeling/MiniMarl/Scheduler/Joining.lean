import MiniMarl.Scheduler.Progress

namespace MiniMarl

open Data Transition

/-! `~Scheduler` returns, unless a task of a user stays suspended or a thief has
taken a stop task. -/

def Body.IsUser {φ : Type} (code : Body (Closure φ)) : Prop := ∃ function flags, code = .task ⟨.user function, flags⟩

theorem Worker.Effect.finished_cases {φ : Type} {address : Fiber ↪ Nat} {worker after : Worker φ address}
    {action : Worker.Action φ} (effect : Worker.Effect worker action after) :
    after.finished = worker.finished ∨ ∃ task, action = .finish ∧ worker.current = .body (.task task) ∧
      after.finished = worker.finished ++ [task] := by
  cases effect with
  | quiet quiet => exact .inl (by rw [Worker.finished, quiet.history, Worker.finished])
  | took frame => exact .inl (by rw [Worker.finished, frame.history, Worker.finished])
  | finished id mode tasks history executing found =>
      exact .inr ⟨_, rfl, found, Worker.finished_record history⟩
  | pushed id mode tasks history | robbed id mode stealable foreign tasks history
  | adopted id mode threaded tasks history | started id mode tasks history =>
      exact .inl ((Worker.finished_record history).trans (List.append_nil _))

theorem Position.suspends?_of_task? {φ : Type} {position : Position φ} {task : Task φ}
    (holds : position.task? = some task) (off : ∀ code, position ≠ .body code) :
    position.suspends? = some (.task task) := by
  have same : position.body? = position.suspends? := by
    unfold Position.body?
    split
    · rename_i code
      exact absurd rfl (off code)
    · rfl
  unfold Position.task? at holds
  rw [same] at holds
  split at holds
  · rename_i found
    cases holds
    exact found
  · cases holds

namespace Scheduler

variable {φ : Type} {address : Fiber ↪ Nat} {scheduler middle after : Scheduler φ address}

/-- How a worker fares in one step of its scheduler. -/
inductive Moves (before : Scheduler φ address) (id : WorkerId) (next : Worker (Closure φ) address) : Prop where
  | still (same : next = before.worker id)
  | moved (action : Worker.Action (Closure φ)) (done : (before.worker id).admissibleStep action = some next)
      (suspends : ∀ timeout, action = .suspend timeout → runsUserCode (before.worker id) = true)
      (finishes : action = .finish → before.returns id = true)

/-- One step of a scheduler, as its workers and its destructor see it. -/
structure Turns (before after : Scheduler φ address) : Prop where
  moves : ∀ id, Moves before id (after.worker id)
  handed : before.handed ⊆ after.handed
  destructor : after.destructor = before.destructor ∨ before.destroy = some after

theorem Turns.still (worker : after.worker = scheduler.worker := by rfl)
    (handed : after.handed = scheduler.handed := by rfl)
    (destructor : after.destructor = scheduler.destructor ∨ scheduler.destroy = some after := by exact .inl rfl) :
    Turns scheduler after :=
  ⟨fun id => .still (congrFun worker id), handed ▸ List.Subset.refl _, destructor⟩

theorem act_moves (same : middle.worker = scheduler.worker) {id : WorkerId} {action : Worker.Action (Closure φ)}
    (moved : middle.act id action = some after)
    (suspends : ∀ timeout, action = .suspend timeout → runsUserCode (scheduler.worker id) = true)
    (finishes : action = .finish → scheduler.returns id = true) (other : WorkerId) :
    Moves scheduler other (after.worker other) := by
  obtain ⟨next, _, done, rfl⟩ := act_cases moved
  rw [same] at done
  by_cases here : other = id
  · subst here
    exact .moved action (by simpa using done) suspends finishes
  · exact .still (by simp [here, same])

theorem act_handed {id : WorkerId} {action : Worker.Action (Closure φ)} (moved : middle.act id action = some after) :
    after.handed = middle.handed ∧ after.destructor = middle.destructor := by
  obtain ⟨_, _, _, rfl⟩ := act_cases moved
  exact ⟨rfl, rfl⟩

theorem Turns.act {id : WorkerId} {action : Worker.Action (Closure φ)} (moved : middle.act id action = some after)
    (suspends : ∀ timeout, action = .suspend timeout → runsUserCode (scheduler.worker id) = true := by simp)
    (finishes : action = .finish → scheduler.returns id = true := by simp)
    (worker : middle.worker = scheduler.worker := by rfl)
    (handed : scheduler.handed ⊆ middle.handed := by exact List.Subset.refl _)
    (destructor : middle.destructor = scheduler.destructor := by rfl) : Turns scheduler after := by
  obtain ⟨sameHanded, sameDestructor⟩ := act_handed moved
  exact ⟨act_moves worker moved suspends finishes, sameHanded ▸ handed, .inl (sameDestructor.trans destructor)⟩

theorem own_turns {id : WorkerId} {action : Worker.Action (Closure φ)} (moved : scheduler.own id action = some after) :
    Turns scheduler after := by
  cases action with
  | enqueue | steal | adopt | setShutdown => cases moved
  | notify | notifyAdded | wake | expire => exact .act moved
  | suspend timeout =>
      obtain ⟨guards, moved⟩ := Option.ite_none_right_eq_some.mp moved
      exact .act moved fun _ _ => (Bool.and_eq_true_iff.mp guards).1
  | stop => exact .act (Option.ite_none_right_eq_some.mp moved).2
  | finish =>
      obtain ⟨returns, moved⟩ := Option.ite_none_right_eq_some.mp moved
      exact .act moved (by simp) fun _ => returns
  | proceed now pick =>
      simp only [own, proceed] at moved
      split at moved
      · split at moved
        · exact .act moved
        · cases moved
      · exact .act moved

theorem stealWork_turns {thief : WorkerId} {source : Nat} (moved : scheduler.stealWork thief source = some after) :
    Turns scheduler after := by
  unfold stealWork at moved
  dsimp only at moved
  rw [Option.ite_none_right_eq_some, Option.ite_none_right_eq_some] at moved
  obtain ⟨_, different, moved⟩ := moved
  split at moved
  · obtain ⟨robbed, taken, moved⟩ := Option.bind_eq_some_iff.mp moved
    obtain ⟨left, _, lost, rfl⟩ := act_cases taken
    obtain ⟨next, _, gained, rfl⟩ := act_cases moved
    dsimp only at gained
    rw [Function.update_of_ne (Ne.symm different)] at gained
    refine ⟨fun other => ?_, List.Subset.refl _, .inl rfl⟩
    by_cases here : other = thief
    · subst here
      exact .moved _ (by simpa using gained) (by simp) (by simp)
    · by_cases there : other = .thread (source % scheduler.count)
      · subst there
        exact .moved _ (by simpa [here] using lost) (by simp) (by simp)
      · exact .still (by simp [here, there])
  · cases moved

theorem enqueueNext_turns {call : Call φ} (moved : scheduler.enqueueNext call = some after) :
    Turns scheduler after := by
  unfold enqueueNext at moved
  split at moved
  · split at moved
    · obtain ⟨id, _, rfl⟩ := Option.map_eq_some_iff.mp moved
      exact .still
    · split at moved
      · cases moved
        exact .still
      · obtain ⟨id, _, rfl⟩ := Option.map_eq_some_iff.mp moved
        exact .still
  · cases moved
    exact .still
  · cases moved
    exact .still
  · split at moved
    · exact .act moved (by simp) (by simp) rfl (List.subset_cons_self _ _)
    · cases moved
      exact .still
  · exact .act moved (by simp) (by simp) rfl (List.subset_cons_self _ _)

theorem destroy_turns (moved : scheduler.destroy = some after) : Turns scheduler after := by
  have destroys := moved
  unfold destroy at moved
  split at moved
  · cases moved
    exact .still rfl rfl (.inr destroys)
  · obtain ⟨_, same⟩ := Option.ite_none_right_eq_some.mp moved
    cases same
    exact .still rfl rfl (.inr destroys)
  · cases moved
    exact .still rfl rfl (.inr destroys)
  · exact ⟨act_moves (by rfl) moved (by simp) (by simp), (act_handed moved).1 ▸ List.subset_cons_self _ _, .inr destroys⟩
  · obtain ⟨_, same⟩ := Option.ite_none_right_eq_some.mp moved
    cases same
    exact .still rfl rfl (.inr destroys)
  · cases moved

theorem step_turns (composed : scheduler.Composed) {label : Action φ} (moved : scheduler.step label = some after) :
    Turns scheduler after := by
  unfold step at moved
  split at moved
  · cases moved
  · cases label with
    | own id action => exact own_turns moved
    | stealWork thief source => exact stealWork_turns moved
    | destroy => exact destroy_turns moved
    | enqueueNext party =>
        obtain ⟨call, _, moved⟩ := Option.bind_eq_some_iff.mp moved
        exact enqueueNext_turns moved
    | assignShutdown id =>
        simp only [assignShutdown] at moved
        split at moved
        · exact .act (Option.ite_none_right_eq_some.mp moved).2
        · cases moved
    | bind =>
        obtain ⟨_, same⟩ := Option.ite_none_right_eq_some.mp moved
        cases same
        exact .still (composed.bound_unchanged rfl)
    | onBeginSpinning | enqueue | unbind =>
        obtain ⟨_, same⟩ := Option.ite_none_right_eq_some.mp moved
        cases same
        exact .still

theorem Moves.hosts {index : Nat} {next : Worker (Closure φ) address} (moves : Moves scheduler (.thread index) next)
    (hosts : (scheduler.worker (.thread index)).Hosts Body.IsUser) : next.Hosts Body.IsUser := by
  cases moves with
  | still same => exact same ▸ hosts
  | moved action done suspends =>
      refine hosts.step (by simp [Body.IsUser]) ?_ (Worker.step_of_admissibleStep done)
      rintro timeout code rfl found
      have away := (hosts (scheduler.worker (.thread index)).currentFiber).away
      rw [show (scheduler.worker (.thread index)).position _ = .body code from found] at away
      have runs := suspends timeout rfl
      unfold runsUserCode at runs
      rw [found] at runs
      split at runs
      · rename_i other _ same
        cases same
        exact absurd rfl away
      · rename_i function flags same
        cases same
        exact ⟨function, flags, rfl⟩
      · cases runs

theorem Moves.told {id : WorkerId} {next : Worker (Closure φ) address} (moves : Moves scheduler id next)
    (told : (scheduler.worker id).shutdown = true) : next.shutdown = true := by
  cases moves with
  | still same => rw [same, told]
  | moved action done => exact Worker.step_told told (Worker.step_of_admissibleStep done)

theorem Moves.finished (composed : scheduler.Composed) {id : WorkerId} {next : Worker (Closure φ) address}
    (moves : Moves scheduler id next) {task : Task (Closure φ)} (member : task ∈ next.finished) :
    task ∈ (scheduler.worker id).finished ∨
      (scheduler.worker id).current = .body (.task task) ∧ scheduler.returns id = true := by
  cases moves with
  | still same => exact .inl (same ▸ member)
  | moved action done suspends finishes =>
      rcases ((composed.valid id).next done).2.1.finished_cases with same | ⟨other, rfl, found, grown⟩
      · exact .inl (same ▸ member)
      · rw [grown, List.mem_append, List.mem_singleton] at member
        rcases member with old | rfl
        · exact .inl old
        · exact .inr ⟨found, finishes rfl⟩

/-- What the destructor can rely on while it joins the worker threads. -/
structure Staged (scheduler : Scheduler φ address) : Prop where
  hosts : ∀ index, (scheduler.worker (.thread index)).Hosts Body.IsUser
  obeyed : ∀ id, ∀ task ∈ (scheduler.worker id).finished, ∀ index, task.function = .stop index →
    (scheduler.worker (.thread index)).shutdown = true
  sent : ∀ index, scheduler.destructor = .joining index → stopTask index ∈ scheduler.handedTasks
  within : ∀ bound, scheduler.destructor.joinedFrom? = some bound → bound ≤ scheduler.count

theorem initial_staged (count : Nat) : (initial count : Scheduler φ address).Staged where
  hosts index fiber := ⟨by simp [initial, Worker.initial], by simp [initial, Worker.initial, Position.suspends?]⟩
  obeyed id task member := by cases id <;> simp [initial, Worker.initial, Worker.finished] at member
  sent index joins := by cases joins
  within bound joined := by simp [initial, Destructor.joinedFrom?] at joined

theorem mem_handedTasks {task : Task (Closure φ)} :
    task ∈ scheduler.handedTasks ↔ ∃ entry ∈ scheduler.handed, entry.task = task := by
  simp [handedTasks]

theorem destroy_staged (staged : scheduler.Staged) (moved : scheduler.destroy = some after) :
    (∀ index, after.destructor = .joining index → stopTask index ∈ after.handedTasks) ∧
      ∀ bound, after.destructor.joinedFrom? = some bound → bound ≤ scheduler.count := by
  unfold destroy at moved
  cases stage : scheduler.destructor with
  | idle =>
      simp only [stage, Option.some.injEq] at moved
      subst moved
      exact ⟨by simp, by simp [Destructor.joinedFrom?]⟩
  | waiting =>
      simp only [stage, Option.ite_none_right_eq_some, Option.some.injEq] at moved
      obtain ⟨_, rfl⟩ := moved
      exact ⟨by simp, by simp [Destructor.joinedFrom?]⟩
  | stopping remaining =>
      have low := staged.within remaining (by rw [stage]; rfl)
      cases remaining with
      | zero =>
          simp only [stage, Option.some.injEq] at moved
          subst moved
          exact ⟨by simp, by simp [Destructor.joinedFrom?]⟩
      | succ index =>
          simp only [stage] at moved
          obtain ⟨handed, destructor⟩ := act_handed moved
          constructor
          · intro other joins
            rw [destructor] at joins
            cases joins
            refine mem_handedTasks.mpr ⟨⟨stopTask index, none⟩, ?_, rfl⟩
            rw [handed]
            exact List.mem_cons_self
          · intro bound joined
            rw [destructor] at joined
            cases joined
            exact low
  | joining index =>
      have low := staged.within (index + 1) (by rw [stage]; rfl)
      simp only [stage, Option.ite_none_right_eq_some, Option.some.injEq] at moved
      obtain ⟨_, rfl⟩ := moved
      refine ⟨by simp, ?_⟩
      rintro _ ⟨⟩
      omega
  | destroyed => simp [stage] at moved

theorem Staged.step (staged : scheduler.Staged) (composed : scheduler.Composed) (turns : Turns scheduler after)
    (count : after.count = scheduler.count) : after.Staged := by
  obtain ⟨moves, handed, destructor⟩ := turns
  have stays : (∀ index, after.destructor = .joining index → stopTask index ∈ after.handedTasks) ∧
      ∀ bound, after.destructor.joinedFrom? = some bound → bound ≤ scheduler.count := by
    rcases destructor with same | destroys
    · rw [same]
      refine ⟨fun index joins => ?_, staged.within⟩
      obtain ⟨entry, inside, task⟩ := mem_handedTasks.mp (staged.sent index joins)
      exact mem_handedTasks.mpr ⟨entry, handed inside, task⟩
    · exact destroy_staged staged destroys
  refine ⟨fun index => (moves (.thread index)).hosts (staged.hosts index), ?_, stays.1, count.symm ▸ stays.2⟩
  intro id task member index stops
  refine (moves (.thread index)).told ?_
  rcases (moves id).finished composed member with old | ⟨found, returns⟩
  · exact staged.obeyed id task old index stops
  · obtain ⟨function, flags⟩ := task
    obtain rfl : function = .stop index := stops
    simpa only [Scheduler.returns, found] using returns

variable {count : Nat}

theorem staged_of_reachable (reachable : (system count).Reachable scheduler) : scheduler.Staged := by
  refine reachable.invariant ?_ ?_
  · rintro _ rfl
    exact initial_staged count
  · intro _ _ _ before staged moved
    have composed := (conserved_of_reachable before).composed
    exact staged.step composed (step_turns composed moved) ((routed_of_reachable before).step moved).1.count

theorem count_of_reachable (reachable : (system count).Reachable scheduler) : scheduler.count = count := by
  induction reachable with
  | initial start => rw [start, initial]
  | step before moved same => exact ((routed_of_reachable before).step moved).1.count.trans same

/-- A fiber of the worker is suspended in a task of a user. -/
def Blocked (worker : Worker (Closure φ) address) : Prop :=
  ∃ fiber ∈ worker.allFibers, ∃ function flags,
    (worker.position fiber).suspends? = some (.task ⟨.user function, flags⟩)

theorem blocked_of_count {worker : Worker (Closure φ) address} (valid : worker.Valid)
    (hosts : worker.Hosts Body.IsUser) (some' : worker.numBlockedFibers ≠ 0) : Blocked worker := by
  rcases valid with inv | drained
  · have counted : 0 < worker.allFibers.countP worker.countsBlocked := by
      have synced := inv.blocked
      omega
    obtain ⟨fiber, member, counts⟩ := List.countP_pos_iff.mp counted
    simp only [Worker.countsBlocked, decide_eq_true_eq] at counts
    obtain ⟨other, blocked⟩ := counts
    have parked := (inv.parked fiber member).mpr other
    have admitted := inv.admits fiber member
    cases place : worker.position fiber with
    | suspended code =>
        obtain ⟨function, flags, rfl⟩ := (hosts fiber).suspends code (by rw [place]; rfl)
        exact ⟨fiber, member, function, flags, by rw [place]; rfl⟩
    | idle =>
        simp only [place, Position.admits, decide_eq_true_eq] at admitted
        rw [admitted] at blocked
        cases blocked
    | _ => simp [place, Position.parked] at parked
  · exact absurd drained.noBlocked some'

/-- A stop task stays on no stack but that of a thread which is about to run it. -/
theorem not_executing_stop {worker : Worker (Closure φ) address} (valid : worker.Valid)
    (hosts : worker.Hosts Body.IsUser) {site : WaitSite (Closure φ)} {deadline : Option TimePoint}
    (asleep : worker.current = .asleep site deadline) {index : Nat} : stopTask index ∉ worker.executing := by
  intro executing
  obtain ⟨fiber, member, holds⟩ := List.mem_filterMap.mp executing
  have off : ∀ code, worker.position fiber ≠ .body code := by
    intro code place
    rcases valid with inv | drained
    · have here : fiber = worker.currentFiber := by
        by_contra other
        have parked := (inv.parked fiber member).mpr other
        rw [place] at parked
        cases parked
      rw [here, show worker.position worker.currentFiber = .asleep site deadline from asleep] at place
      cases place
    · rw [drained.executing_nil] at executing
      cases executing
  have inside := Position.suspends?_of_task? holds off
  obtain ⟨function, flags, same⟩ := (hosts fiber).suspends _ inside
  simp [stopTask] at same

/-- The labels of threads that go on by themselves, and of the destructor. -/
def Action.departing : Action φ → Bool
  | .destroy => true
  | label => label.unassisted

def departingSystem (count : Nat) : System (Scheduler φ address) (Action φ) :=
  (system count).restrict fun _ label => label.departing = true

/-- A scheduler that its users have left, and that no thief takes stop tasks in. -/
structure Departing (count : Nat) (scheduler : Scheduler φ address) : Prop where
  reachable : ((system count).restrict fun state label => state.keepsStops label = true).Reachable scheduler
  calls : scheduler.calls = []
  byTid : scheduler.byTid = []

theorem departing_cases {label : Action φ} (departing : label.departing = true) :
    label = .destroy ∨ label.unassisted = true := by
  cases label with
  | destroy => exact .inl rfl
  | _ => exact .inr departing

theorem departing_of_unassisted {label : Action φ} (unassisted : label.unassisted = true) : label.departing = true := by
  cases label with
  | destroy => cases unassisted
  | _ => exact unassisted

theorem keepsStops_of_departing (scheduler : Scheduler φ address) {label : Action φ} (departing : label.departing = true) :
    scheduler.keepsStops label = true := by
  cases label with
  | stealWork thief source => cases departing
  | _ => rfl

theorem destroy_aside (moved : scheduler.destroy = some after) :
    after.calls = scheduler.calls ∧ after.byTid = scheduler.byTid := by
  unfold destroy at moved
  split at moved
  · cases moved
    exact ⟨rfl, rfl⟩
  · obtain ⟨_, same⟩ := Option.ite_none_right_eq_some.mp moved
    cases same
    exact ⟨rfl, rfl⟩
  · cases moved
    exact ⟨rfl, rfl⟩
  · obtain ⟨_, _, _, rfl⟩ := act_cases moved
    exact ⟨rfl, rfl⟩
  · obtain ⟨_, same⟩ := Option.ite_none_right_eq_some.mp moved
    cases same
    exact ⟨rfl, rfl⟩
  · cases moved

theorem Departing.keeps (departing : Departing count scheduler) {label : Action φ}
    (move : (departingSystem count).next scheduler label after) : Departing count after := by
  obtain ⟨departs, moved⟩ := move
  have kept : after.calls = scheduler.calls ∧ after.byTid = scheduler.byTid := by
    rcases departing_cases departs with rfl | unassisted
    · unfold system System.ofStep step at moved
      dsimp only at moved
      split at moved
      · cases moved
      · exact destroy_aside moved
    · have aside := step_aside unassisted moved
      exact ⟨aside.calls, aside.byTid⟩
  exact ⟨.step departing.reachable ⟨keepsStops_of_departing scheduler departs, moved⟩,
    kept.1.trans departing.calls, kept.2.trans departing.byTid⟩

theorem Departing.along (departing : Departing count scheduler) {labels : List (Action φ)}
    (run : (departingSystem count).Run scheduler labels after) : Departing count after :=
  run.keeps departing fun _ _ _ departing move => departing.keeps move

/-- The worker threads come to rest, and the destructor stays where it is. -/
theorem Departing.rests (departing : Departing count scheduler) (alive : scheduler.destructor ≠ .destroyed) :
    ∃ labels after, (departingSystem count).Run scheduler labels after ∧ after.AtRest ∧
      after.destructor = scheduler.destructor := by
  have closing : Closing count scheduler := ⟨departing.reachable.unrestrict, departing.calls, alive⟩
  obtain ⟨labels, after, run, settled⟩ := System.exists_settled closing
    (fun _ _ _ closing move => closing.keeps move) budget AtRest fun _ closing => closing.onward
  exact ⟨labels, after, run.weaken fun _ _ => departing_of_unassisted, settled, (aside_of_run run).destructor⟩

/-- The thread of the worker that the destructor joins sleeps, with nothing in
its queues, and a task of a user is suspended on one of its fibers. -/
def HeldUp (scheduler : Scheduler φ address) : Prop :=
  ∃ index, scheduler.destructor = .joining index ∧
    (∃ site deadline, (scheduler.worker (.thread index)).current = .asleep site deadline) ∧
    (scheduler.worker (.thread index)).tasks = [] ∧ (scheduler.worker (.thread index)).fibers = [] ∧
    Blocked (scheduler.worker (.thread index))

/-- A thread that is joined and does not sleep for good comes to its end. -/
theorem Departing.joined (departing : Departing count scheduler) {index : Nat}
    (joins : scheduler.destructor = .joining index) (settled : scheduler.AtRest) :
    (scheduler.worker (.thread index)).current = .exited ∨ scheduler.HeldUp := by
  have reachable := departing.reachable.unrestrict
  have conserved := conserved_of_reachable reachable
  have staged := staged_of_reachable reachable
  have heeded := heeded_of_keepsStops departing.reachable
  have low := staged.within (index + 1) (by rw [joins]; rfl)
  have present : scheduler.present (.thread index) = true := decide_eq_true low
  have valid := conserved.composed.valid (.thread index)
  rcases valid.queues_of_atRest (settled _ present) with gone | inside | ⟨⟨site, deadline, asleep⟩, noTasks, noFibers⟩
  · exact .inl gone
  · exact absurd inside (staged.hosts index _).away
  · refine .inr ⟨index, joins, ⟨site, deadline, asleep⟩, noTasks, noFibers, ?_⟩
    have executed : stopTask index ∈ (scheduler.worker (.thread index)).finished := by
      have sent := staged.sent index joins
      rw [← conserved.content, content, Multiset.mem_sum] at sent
      obtain ⟨id, _, holds⟩ := sent
      obtain rfl := heeded.located id _ holds index rfl
      rcases task_of_atRest valid (settled _ present) holds with done | running | ⟨queued, _⟩
      · exact done
      · exact absurd running (not_executing_stop valid (staged.hosts index) asleep)
      · rw [noTasks] at queued
        cases queued
    have told := staged.obeyed _ _ executed index rfl
    exact blocked_of_count valid (staged.hosts index) fun none => heeded.alert _ site deadline asleep ⟨told, none⟩

end Scheduler

/-- The pieces of `~Scheduler` that are left. -/
def Destructor.remaining (count : Nat) : Destructor → Nat
  | .idle => 2 * count + 3
  | .waiting => 2 * count + 2
  | .stopping remaining => 2 * remaining + 1
  | .joining index => 2 * index + 2
  | .destroyed => 0

namespace Scheduler

variable {φ : Type} {address : Fiber ↪ Nat} {scheduler after : Scheduler φ address} {count : Nat}

theorem mutexFree_of_atRest {worker : Worker (Closure φ) address} (settled : worker.AtRest) :
    worker.mutexFree = true := by
  unfold Worker.mutexFree
  rcases settled with found | found | ⟨⟨site, deadline, found⟩, _⟩ <;> rw [found] <;> rfl

theorem Departing.destroys (departing : Departing count scheduler) (alive : scheduler.destructor ≠ .destroyed)
    (settled : scheduler.AtRest) (joinable : ∀ index, scheduler.destructor = .joining index →
      (scheduler.worker (.thread index)).current = .exited) :
    ∃ after, scheduler.step .destroy = some after ∧
      after.destructor.remaining count < scheduler.destructor.remaining count := by
  have reachable := departing.reachable.unrestrict
  have staged := staged_of_reachable reachable
  simp only [step, alive, if_false, destroy]
  cases stage : scheduler.destructor with
  | idle => exact ⟨_, rfl, by simp [Destructor.remaining]⟩
  | waiting =>
      simp only [departing.byTid, if_true]
      exact ⟨_, rfl, by simp [Destructor.remaining, count_of_reachable reachable]⟩
  | stopping remaining =>
      cases remaining with
      | zero => exact ⟨_, rfl, by simp [Destructor.remaining]⟩
      | succ index =>
          have low := staged.within (index + 1) (by rw [stage]; rfl)
          have present : scheduler.present (.thread index) = true := decide_eq_true low
          have free := mutexFree_of_atRest (settled _ present)
          have pushes : (scheduler.worker (.thread index)).admissibleStep (.enqueue (stopTask index)) =
              some ((scheduler.worker (.thread index)).enqueueTask (stopTask index)) :=
            Worker.admissibleStep_of_step rfl (by simp only [Worker.step, free, if_true])
          let told := { scheduler with
            called := stopTask index :: scheduler.called
            handed := ⟨stopTask index, none⟩ :: scheduler.handed
            destructor := .joining index }
          have there : told.present (.thread index) = true := present
          obtain ⟨after, done⟩ := act_of_step there pushes
          have joins : after.destructor = .joining index := (act_handed done).2
          exact ⟨after, done, by simp only [joins, Destructor.remaining]; omega⟩
  | joining index =>
      simp only [joinable index stage, Position.gone, if_true]
      exact ⟨_, rfl, by simp [Destructor.remaining]⟩
  | destroyed => exact absurd stage alive

/-- The destructor can go on until it has returned or is held up. -/
def Ends (count : Nat) (scheduler : Scheduler φ address) : Prop :=
  ∃ labels after, (departingSystem count).Run scheduler labels after ∧ (after.destructor = .destroyed ∨ after.HeldUp)

theorem Departing.onward (departing : Departing count scheduler) (going : ¬ scheduler.Ends count) :
    ∃ labels after, (departingSystem count).Run scheduler labels after ∧
      after.destructor.remaining count < scheduler.destructor.remaining count := by
  have alive : scheduler.destructor ≠ .destroyed := fun ends => going ⟨[], scheduler, .nil, .inl ends⟩
  obtain ⟨labels, middle, run, settled, same⟩ := departing.rests alive
  have departs := departing.along run
  rw [← same] at alive
  obtain ⟨after, moved, less⟩ := departs.destroys alive settled fun index joins => by
    rcases departs.joined joins settled with gone | held
    · exact gone
    · exact absurd ⟨labels, middle, run, .inr held⟩ going
  have move : (departingSystem count).next middle .destroy after := ⟨rfl, moved⟩
  exact ⟨labels ++ [.destroy], after, run.snoc move, same ▸ less⟩

/-- In every run in which no thief takes a stop task, where all threads have
left the scheduler to its destructor, `~Scheduler` can go on until it has
returned, or joins a thread that sleeps over a suspended task of a user. -/
theorem destructor_returns
    (reachable : ((system count).restrict fun state label => state.keepsStops label = true).Reachable scheduler)
    (calls : scheduler.calls = []) (byTid : scheduler.byTid = []) :
    ∃ labels after, ((system count).restrict fun _ label => label.departing = true).Run scheduler labels after ∧
      (after.destructor = .destroyed ∨ ∃ index, after.destructor = .joining index ∧
        (∃ site deadline, (after.worker (.thread index)).current = .asleep site deadline) ∧
        (after.worker (.thread index)).tasks = [] ∧ (after.worker (.thread index)).fibers = [] ∧
        ∃ fiber ∈ (after.worker (.thread index)).allFibers, ∃ function flags,
          ((after.worker (.thread index)).position fiber).suspends? = some (.task ⟨.user function, flags⟩)) := by
  have departing : Departing count scheduler := ⟨reachable, calls, byTid⟩
  obtain ⟨labels, middle, run, later, after, rest, ends⟩ := System.exists_settled departing
    (fun _ _ _ departing move => departing.keeps move) (fun state => state.destructor.remaining count) (Ends count)
    fun _ departing => departing.onward
  exact ⟨labels ++ later, after, run.append rest, ends⟩

/-- The destructor has told worker thread 1 to stop, and waits for it; worker
thread 0 has not started yet. -/
theorem destructor_returns_joining : ∃ scheduler : Scheduler Nat Fiber.address,
    scheduler.destructor = .joining 1 ∧
    ∃ labels after, ((system 2).restrict fun _ label => label.departing = true).Run scheduler labels after ∧
      (after.destructor = .destroyed ∨ ∃ index, after.destructor = .joining index ∧
        (∃ site deadline, (after.worker (.thread index)).current = .asleep site deadline) ∧
        (after.worker (.thread index)).tasks = [] ∧ (after.worker (.thread index)).fibers = [] ∧
        ∃ fiber ∈ (after.worker (.thread index)).allFibers, ∃ function flags,
          ((after.worker (.thread index)).position fiber).suspends? = some (.task ⟨.user function, flags⟩)) := by
  obtain ⟨scheduler, reachable, seen⟩ := System.reachable_of_guarded_replay (· = initial 2) step keepsStops rfl
    (goOn 1 3 ++ [.destroy, .destroy, .destroy]) (fun scheduler : Scheduler Nat Fiber.address =>
      decide (scheduler.destructor = .joining 1 ∧ scheduler.byTid = []) && scheduler.calls.isEmpty) (by decide +kernel)
  simp only [Bool.and_eq_true, decide_eq_true_eq, List.isEmpty_iff] at seen
  obtain ⟨⟨joins, byTid⟩, calls⟩ := seen
  exact ⟨scheduler, joins, destructor_returns reachable calls byTid⟩

end Scheduler

end MiniMarl
