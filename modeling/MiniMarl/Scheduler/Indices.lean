import Mathlib.Data.BitVec
import MiniMarl.Transition

namespace MiniMarl

open Transition

/-- Where the thread that makes and destroys a `Scheduler` stands, with the `i`
of the loop it is in. -/
inductive WorkerIndices.Phase where
  | creating (i : Int)
  | starting (i : Int)
  | running
  | stopping (i : Int)
  | destroying (i : Int)
  | destroyed
deriving DecidableEq, Repr

/-- Where a call of `Scheduler::enqueue` stands, between two atomic operations. -/
inductive WorkerIndices.Stage where
  | idle
  | draw
  | exchange (i : Nat)
  | roundRobin
  | tryLock (idx : Int)
deriving DecidableEq, Repr

inductive WorkerIndices.Label (π : Type) where
  | construct
  | destruct
  | beginSpinning (worker : Int)
  | park (worker : Int)
  | steal (thief : Int) (source : BitVec 64)
  | enqueue (party : π)
  | operate (party : π) (locked : Bool)

/-- The two arrays of a `Scheduler` and all that computes an index for them.
`workerThreads` has the id of the worker that an entry points to, `spinSlot` the
slot that a worker has drawn in `onBeginSpinning` and not written yet.
`threadsUsed` and `slotsUsed` record every index used, the first with what the
entry pointed to. -/
structure WorkerIndices (π : Type) where
  count : BitVec 32
  workerThreads : Int → Option Int := fun _ => none
  spinningWorkers : Nat → Int := fun _ => -1
  nextSpinningWorkerIndex : BitVec 32 := 0x8000000
  nextEnqueueIndex : BitVec 32 := 0
  phase : WorkerIndices.Phase := .creating 0
  spinSlot : Int → Option Nat := fun _ => none
  stage : π → WorkerIndices.Stage := fun _ => .idle
  threadsUsed : List (Int × Option Int) := []
  slotsUsed : List Nat := []

namespace WorkerIndices

variable {π : Type} [DecidableEq π]

def maxWorkerThreads : Nat := 256

/-- `spinning_workers_.size()`. -/
def spinningWorkersSize : BitVec 64 := 8

/-- The count that `Config::allCores` sets: an `unsigned int` becomes an `int`. -/
def allCores (numLogicalCPUs : BitVec 32) : BitVec 32 := numLogicalCPUs

/-- An index of `spinning_workers_`, from the counter. -/
def spinIndex (counter : BitVec 32) : Nat := (counter.setWidth 64 % spinningWorkersSize).toNat

/-- An entry of `worker_threads_` is read or written. -/
def touch (state : WorkerIndices π) (idx : Int) : WorkerIndices π :=
  { state with threadsUsed := (idx, state.workerThreads idx) :: state.threadsUsed }

/-- The loops of the constructor, once every slot of `spinning_workers_` is `-1`. -/
def construct (state : WorkerIndices π) : Option (WorkerIndices π) :=
  match state.phase with
  | .creating i =>
      if i < state.count.toInt then
        some ({ state with
          workerThreads := Function.update state.workerThreads i (some i)
          phase := .creating (i + 1) }.touch i)
      else some { state with phase := .starting 0 }
  | .starting i =>
      if i < state.count.toInt then some { state.touch i with phase := .starting (i + 1) }
      else some { state with phase := .running }
  | _ => none

/-- The loops of the destructor. -/
def destruct (state : WorkerIndices π) : Option (WorkerIndices π) :=
  match state.phase with
  | .running => some { state with phase := .stopping (state.count.toInt - 1) }
  | .stopping i =>
      if 0 ≤ i then some { state.touch i with phase := .stopping (i - 1) }
      else some { state with phase := .destroying (state.count.toInt - 1) }
  | .destroying i =>
      if 0 ≤ i then some { state.touch i with phase := .destroying (i - 1) }
      else some { state with phase := .destroyed }
  | _ => none

/-- The thread of a worker has been started. -/
def started (state : WorkerIndices π) (worker : Int) : Bool :=
  match state.phase with
  | .creating _ => false
  | .starting i => 0 ≤ worker && worker < i
  | _ => 0 ≤ worker && worker < state.count.toInt

/-- Some thread can have a reference to the scheduler. -/
def shared (state : WorkerIndices π) : Bool :=
  match state.phase with
  | .creating _ => false
  | .starting i => 0 < i
  | _ => true

/-- The first half of `onBeginSpinning`. -/
def beginSpinning (state : WorkerIndices π) (worker : Int) : Option (WorkerIndices π) :=
  if state.started worker && (state.spinSlot worker).isNone then
    some { state with
      nextSpinningWorkerIndex := state.nextSpinningWorkerIndex + 1
      spinSlot := Function.update state.spinSlot worker (some (spinIndex state.nextSpinningWorkerIndex)) }
  else none

/-- The second half of `onBeginSpinning`. -/
def park (state : WorkerIndices π) (worker : Int) : Option (WorkerIndices π) :=
  (state.spinSlot worker).map fun idx =>
    { state with
      spinningWorkers := Function.update state.spinningWorkers idx worker
      spinSlot := Function.update state.spinSlot worker none
      slotsUsed := idx :: state.slotsUsed }

/-- `stealWork`, which worker threads call with any random number. -/
def stealWork (state : WorkerIndices π) (thief : Int) (source : BitVec 64) : Option (WorkerIndices π) :=
  if state.started thief then
    if 0 < state.count.toInt then some (state.touch (source % state.count.signExtend 64).toNat) else some state
  else none

def enter (state : WorkerIndices π) (party : π) (stage : Stage) : WorkerIndices π :=
  { state with stage := Function.update state.stage party stage }

/-- A thread calls `enqueue`, with a task that is not bound to its thread. -/
def enqueue (state : WorkerIndices π) (party : π) : Option (WorkerIndices π) :=
  if state.shared && state.stage party = .idle then
    if 0 < state.count.toInt then some (state.enter party .draw) else some state
  else none

/-- The next atomic operation of a call of `enqueue`. -/
def operate (state : WorkerIndices π) (party : π) (locked : Bool) : Option (WorkerIndices π) :=
  match state.stage party with
  | .idle => none
  | .draw =>
      let counter := state.nextSpinningWorkerIndex - 1
      some ({ state with nextSpinningWorkerIndex := counter }.enter party (.exchange (spinIndex counter)))
  | .exchange i =>
      let idx := state.spinningWorkers i
      some ({ state with
        spinningWorkers := Function.update state.spinningWorkers i (-1)
        slotsUsed := i :: state.slotsUsed }.enter party (if idx < 0 then .roundRobin else .tryLock idx))
  | .roundRobin =>
      some ({ state with nextEnqueueIndex := state.nextEnqueueIndex + 1 }.enter party
        (.tryLock (state.nextEnqueueIndex % state.count).toInt))
  | .tryLock idx => some ((state.touch idx).enter party (if locked then .idle else .draw))

def step (state : WorkerIndices π) : Label π → Option (WorkerIndices π)
  | .construct => state.construct
  | .destruct => state.destruct
  | .beginSpinning worker => state.beginSpinning worker
  | .park worker => state.park worker
  | .steal thief source => state.stealWork thief source
  | .enqueue party => state.enqueue party
  | .operate party locked => state.operate party locked

def system (count : BitVec 32) : System (WorkerIndices π) (Label π) :=
  .ofStep (fun state => state = { count := count }) step

/-- No index has gone wrong. -/
structure Safe (state : WorkerIndices π) : Prop where
  threads : ∀ used ∈ state.threadsUsed, 0 ≤ used.1 ∧ used.1 < maxWorkerThreads ∧ used.2 = some used.1
  parked : ∀ i < spinningWorkersSize.toNat, state.spinningWorkers i = -1 ∨
    state.workerThreads (state.spinningWorkers i) = some (state.spinningWorkers i)
  slots : ∀ i ∈ state.slotsUsed, i < spinningWorkersSize.toNat

/-- The number of workers that have been created. -/
def made (state : WorkerIndices π) : Int :=
  match state.phase with
  | .creating i => i
  | _ => max 0 state.count.toInt

/-- An index names a worker that has been created. -/
def Names (state : WorkerIndices π) (idx : Int) : Prop := 0 ≤ idx ∧ idx < state.made

/-- The loop counters stay in range. -/
def Phase.InRange (count : Int) : Phase → Prop
  | .creating i | .starting i => 0 ≤ i ∧ i ≤ max 0 count
  | .stopping i | .destroying i => i < count
  | .running | .destroyed => True

/-- What is known at a stage of a call. -/
def StageOk (state : WorkerIndices π) : Stage → Prop
  | .idle => True
  | .draw | .roundRobin => 0 < state.count.toInt ∧ state.shared = true
  | .exchange i => i < spinningWorkersSize.toNat ∧ 0 < state.count.toInt ∧ state.shared = true
  | .tryLock idx => state.Names idx ∧ 0 < state.count.toInt ∧ state.shared = true

structure Inv (state : WorkerIndices π) : Prop where
  inRange : state.phase.InRange state.count.toInt
  filled : ∀ idx, state.Names idx → state.workerThreads idx = some idx
  spinSlot : ∀ worker i, state.spinSlot worker = some i → i < spinningWorkersSize.toNat ∧ state.Names worker
  parked : ∀ i, state.spinningWorkers i = -1 ∨ state.Names (state.spinningWorkers i)
  stage : ∀ party, state.StageOk (state.stage party)
  threads : ∀ used ∈ state.threadsUsed, state.Names used.1 ∧ used.2 = some used.1
  slots : ∀ i ∈ state.slotsUsed, i < spinningWorkersSize.toNat

variable {state after : WorkerIndices π} {party : π} {label : Label π} {count : BitVec 32}

theorem spinIndex_lt (counter : BitVec 32) : spinIndex counter < spinningWorkersSize.toNat := by
  rw [spinIndex, BitVec.toNat_umod]
  exact Nat.mod_lt _ (by decide)

theorem toNat_of_positive (positive : 0 < count.toInt) : (count.toNat : Int) = count.toInt ∧ count.toNat < 2 ^ 31 := by
  rw [BitVec.toInt_eq_toNat_cond] at positive ⊢
  split at positive <;> omega

theorem roundRobin_bounds (counter : BitVec 32) (positive : 0 < count.toInt) :
    0 ≤ (counter % count).toInt ∧ (counter % count).toInt < count.toInt := by
  obtain ⟨same, small⟩ := toNat_of_positive positive
  have below : (counter % count).toNat < count.toNat := by
    rw [BitVec.toNat_umod]
    exact Nat.mod_lt _ (by omega)
  rw [BitVec.toInt_eq_toNat_of_lt (x := counter % count) (by omega)]
  omega

theorem random_bounds (source : BitVec 64) (positive : 0 < count.toInt) :
    ((source % count.signExtend 64).toNat : Int) < count.toInt := by
  obtain ⟨same, small⟩ := toNat_of_positive positive
  have extended : (count.signExtend 64).toNat = count.toNat := by
    have sign : count.msb = false := by
      rw [BitVec.msb_eq_false_iff_two_mul_lt]
      omega
    rw [BitVec.signExtend_eq_setWidth_of_msb_false sign, BitVec.toNat_setWidth]
    omega
  have below : (source % count.signExtend 64).toNat < count.toNat := by
    rw [BitVec.toNat_umod, extended]
    exact Nat.mod_lt _ (by omega)
  omega

omit [DecidableEq π] in
/-- All workers have been created before another thread sees the scheduler. -/
theorem names_of_shared (shared : state.shared = true) {idx : Int} (lower : 0 ≤ idx)
    (upper : idx < state.count.toInt) : state.Names idx := by
  refine ⟨lower, ?_⟩
  cases phase : state.phase with
  | creating i => simp [WorkerIndices.shared, phase] at shared
  | starting | running | stopping | destroying | destroyed =>
      simp only [made, phase]
      omega

omit [DecidableEq π] in
theorem shared_of_started {worker : Int} (started : state.started worker = true) : state.shared = true := by
  cases phase : state.phase with
  | creating i => simp [WorkerIndices.started, phase] at started
  | starting i =>
      simp only [WorkerIndices.started, phase, Bool.and_eq_true, decide_eq_true_eq] at started
      simp only [shared, phase, decide_eq_true_eq]
      omega
  | running | stopping | destroying | destroyed => simp [shared, phase]

omit [DecidableEq π] in
theorem Inv.names_of_started (inv : state.Inv) {worker : Int} (started : state.started worker = true) :
    state.Names worker := by
  have shared := shared_of_started started
  have inRange := inv.inRange
  cases phase : state.phase with
  | creating i => simp [WorkerIndices.started, phase] at started
  | starting i =>
      simp only [WorkerIndices.started, phase, Bool.and_eq_true, decide_eq_true_eq] at started
      simp only [phase, Phase.InRange] at inRange
      exact names_of_shared shared started.1 (by omega)
  | running | stopping | destroying | destroyed =>
      simp only [WorkerIndices.started, phase, Bool.and_eq_true, decide_eq_true_eq] at started
      exact names_of_shared shared started.1 started.2

omit [DecidableEq π] in
theorem Inv.touch (inv : state.Inv) {idx : Int} (names : state.Names idx) : (state.touch idx).Inv := by
  refine ⟨inv.inRange, inv.filled, inv.spinSlot, inv.parked, inv.stage, ?_, inv.slots⟩
  intro used member
  rcases List.mem_cons.mp member with rfl | older
  · exact ⟨names, inv.filled idx names⟩
  · exact inv.threads used older

theorem Inv.enter (inv : state.Inv) {stage : Stage} (ok : state.StageOk stage) : (state.enter party stage).Inv := by
  refine ⟨inv.inRange, inv.filled, inv.spinSlot, inv.parked, ?_, inv.threads, inv.slots⟩
  intro other
  change state.StageOk (Function.update state.stage party stage other)
  by_cases same : other = party
  · rw [same, Function.update_self]
    exact ok
  · rw [Function.update_of_ne same]
    exact inv.stage other

/-- No worker is lost between two states. -/
structure Grows (state after : WorkerIndices π) : Prop where
  count : after.count = state.count
  names : ∀ idx, state.Names idx → after.Names idx
  shared : state.shared = true → after.shared = true

omit [DecidableEq π] in
theorem StageOk.grow (grows : state.Grows after) {stage : Stage} (ok : state.StageOk stage) : after.StageOk stage := by
  cases stage with
  | idle => exact trivial
  | draw | roundRobin => exact ⟨grows.count ▸ ok.1, grows.shared ok.2⟩
  | exchange i => exact ⟨ok.1, grows.count ▸ ok.2.1, grows.shared ok.2.2⟩
  | tryLock idx => exact ⟨grows.names idx ok.1, grows.count ▸ ok.2.1, grows.shared ok.2.2⟩

omit [DecidableEq π] in
theorem Inv.turn (inv : state.Inv) {phase : Phase} (inRange : phase.InRange state.count.toInt)
    (made : ({ state with phase := phase } : WorkerIndices π).made = state.made)
    (shared : state.shared = true → ({ state with phase := phase } : WorkerIndices π).shared = true) :
    ({ state with phase := phase } : WorkerIndices π).Inv := by
  have names : ∀ idx, ({ state with phase := phase } : WorkerIndices π).Names idx = state.Names idx := by
    intro idx
    rw [Names, Names, made]
  have grows : state.Grows { state with phase := phase } := ⟨rfl, fun idx named => (names idx).mpr named, shared⟩
  refine ⟨inRange, ?_, ?_, ?_, fun party => (inv.stage party).grow grows, ?_, inv.slots⟩
  · intro idx named
    exact inv.filled idx ((names idx).mp named)
  · intro worker i found
    rw [names]
    exact inv.spinSlot worker i found
  · intro i
    rw [names]
    exact inv.parked i
  · intro used member
    rw [names]
    exact inv.threads used member

omit [DecidableEq π] in
theorem Inv.create (inv : state.Inv) {i : Int} (phase : state.phase = .creating i) (more : i < state.count.toInt) :
    ({ state with
      workerThreads := Function.update state.workerThreads i (some i)
      phase := .creating (i + 1) } : WorkerIndices π).Inv := by
  have inRange := inv.inRange
  rw [phase] at inRange
  have made : state.made = i := by rw [WorkerIndices.made, phase]
  have grows : state.Grows { state with
      workerThreads := Function.update state.workerThreads i (some i)
      phase := .creating (i + 1) } := by
    refine ⟨rfl, ?_, ?_⟩
    · intro idx named
      refine ⟨named.1, ?_⟩
      have old := named.2
      rw [made] at old
      change idx < i + 1
      omega
    · intro shared
      simp [WorkerIndices.shared, phase] at shared
  refine ⟨?_, ?_, ?_, ?_, fun party => (inv.stage party).grow grows, ?_, inv.slots⟩
  · change 0 ≤ i + 1 ∧ i + 1 ≤ max 0 state.count.toInt
    obtain ⟨lower, upper⟩ := inRange
    omega
  · intro idx named
    by_cases new : idx = i
    · rw [new]
      exact Function.update_self ..
    · refine (Function.update_of_ne new _ _).trans (inv.filled idx ⟨named.1, ?_⟩)
      have upper : idx < i + 1 := named.2
      rw [made]
      omega
  · intro worker slot found
    obtain ⟨inside, named⟩ := inv.spinSlot worker slot found
    exact ⟨inside, grows.names worker named⟩
  · intro slot
    exact (inv.parked slot).imp id (grows.names _)
  · intro used member
    obtain ⟨named, points⟩ := inv.threads used member
    exact ⟨grows.names _ named, points⟩

omit [DecidableEq π] in
theorem Inv.construct (inv : state.Inv) (constructed : state.construct = some after) : after.Inv := by
  have inRange := inv.inRange
  cases phase : state.phase with
  | creating i =>
      rw [phase] at inRange
      simp only [WorkerIndices.construct, phase] at constructed
      split at constructed
      · rename_i more
        cases constructed
        refine (inv.create phase more).touch ?_
        exact ⟨inRange.1, show i < i + 1 by omega⟩
      · rename_i all
        cases constructed
        obtain ⟨lower, upper⟩ := inRange
        refine inv.turn ⟨Int.le_refl 0, Int.le_max_left ..⟩ ?_ ?_
        · change max 0 state.count.toInt = state.made
          rw [made, phase]
          simp only
          omega
        · intro shared
          simp [WorkerIndices.shared, phase] at shared
  | starting i =>
      rw [phase] at inRange
      obtain ⟨lower, upper⟩ := inRange
      have made : state.made = max 0 state.count.toInt := by rw [WorkerIndices.made, phase]
      simp only [WorkerIndices.construct, phase] at constructed
      split at constructed
      · rename_i more
        cases constructed
        have names : state.Names i := ⟨lower, by rw [made]; omega⟩
        refine (inv.touch names).turn ⟨by omega, by change i + 1 ≤ max 0 state.count.toInt; omega⟩ made.symm ?_
        intro _
        simp only [shared, decide_eq_true_eq]
        omega
      · cases constructed
        exact inv.turn trivial made.symm fun _ => rfl
  | running | stopping | destroying | destroyed => simp [WorkerIndices.construct, phase] at constructed

omit [DecidableEq π] in
theorem Inv.destruct (inv : state.Inv) (destructed : state.destruct = some after) : after.Inv := by
  have inRange := inv.inRange
  cases phase : state.phase with
  | creating | starting | destroyed => simp [WorkerIndices.destruct, phase] at destructed
  | running =>
      have made : state.made = max 0 state.count.toInt := by rw [WorkerIndices.made, phase]
      simp only [WorkerIndices.destruct, phase] at destructed
      cases destructed
      exact inv.turn (Int.sub_one_lt_of_le (Int.le_refl _)) made.symm fun _ => rfl
  | stopping i | destroying i =>
      rw [phase] at inRange
      have made : state.made = max 0 state.count.toInt := by rw [WorkerIndices.made, phase]
      simp only [WorkerIndices.destruct, phase] at destructed
      split at destructed
      · rename_i lower
        cases destructed
        have names : state.Names i := ⟨lower, by rw [made]; exact lt_max_of_lt_right inRange⟩
        exact (inv.touch names).turn (Int.lt_of_le_of_lt (Int.sub_le_self i (by decide)) inRange) made.symm fun _ => rfl
      · cases destructed
        first
          | exact inv.turn trivial made.symm fun _ => rfl
          | exact inv.turn (Int.sub_one_lt_of_le (Int.le_refl _)) made.symm fun _ => rfl

omit [DecidableEq π] in
theorem Inv.writeSlot (inv : state.Inv) {i : Nat} {worker : Int} (inside : i < spinningWorkersSize.toNat)
    (ok : worker = -1 ∨ state.Names worker) :
    ({ state with
      spinningWorkers := Function.update state.spinningWorkers i worker
      slotsUsed := i :: state.slotsUsed } : WorkerIndices π).Inv := by
  refine ⟨inv.inRange, inv.filled, inv.spinSlot, ?_, inv.stage, inv.threads, ?_⟩
  · intro slot
    change Function.update state.spinningWorkers i worker slot = -1 ∨
      state.Names (Function.update state.spinningWorkers i worker slot)
    by_cases same : slot = i
    · rw [same, Function.update_self]
      exact ok
    · rw [Function.update_of_ne same]
      exact inv.parked slot
  · intro slot member
    rcases List.mem_cons.mp member with rfl | older
    · exact inside
    · exact inv.slots slot older

theorem Inv.operate (inv : state.Inv) {locked : Bool} (operated : state.operate party locked = some after) :
    after.Inv := by
  have ok := inv.stage party
  cases stage : state.stage party with
  | idle => simp [WorkerIndices.operate, stage] at operated
  | draw =>
      rw [stage] at ok
      simp only [WorkerIndices.operate, stage, Option.some.injEq] at operated
      subst operated
      have drawn : ({ state with nextSpinningWorkerIndex := state.nextSpinningWorkerIndex - 1 } : WorkerIndices π).Inv :=
        ⟨inv.inRange, inv.filled, inv.spinSlot, inv.parked, inv.stage, inv.threads, inv.slots⟩
      exact drawn.enter ⟨spinIndex_lt _, ok⟩
  | exchange i =>
      rw [stage] at ok
      obtain ⟨inside, positive, shared⟩ := ok
      simp only [WorkerIndices.operate, stage, Option.some.injEq] at operated
      subst operated
      refine (inv.writeSlot inside (.inl rfl)).enter ?_
      split
      · exact ⟨positive, shared⟩
      · rename_i lower
        have names : state.Names (state.spinningWorkers i) := by
          rcases inv.parked i with empty | names
          · rw [empty] at lower
            exact absurd (by decide) lower
          · exact names
        exact ⟨names, positive, shared⟩
  | roundRobin =>
      rw [stage] at ok
      obtain ⟨positive, shared⟩ := ok
      simp only [WorkerIndices.operate, stage, Option.some.injEq] at operated
      subst operated
      have counted : ({ state with nextEnqueueIndex := state.nextEnqueueIndex + 1 } : WorkerIndices π).Inv :=
        ⟨inv.inRange, inv.filled, inv.spinSlot, inv.parked, inv.stage, inv.threads, inv.slots⟩
      obtain ⟨lower, upper⟩ := roundRobin_bounds state.nextEnqueueIndex positive
      exact counted.enter ⟨names_of_shared shared lower upper, positive, shared⟩
  | tryLock idx =>
      rw [stage] at ok
      obtain ⟨names, positive, shared⟩ := ok
      simp only [WorkerIndices.operate, stage, Option.some.injEq] at operated
      subst operated
      refine (inv.touch names).enter ?_
      split
      · exact trivial
      · exact ⟨positive, shared⟩

omit [DecidableEq π] in
theorem Inv.park (inv : state.Inv) {worker : Int} (parked : state.park worker = some after) : after.Inv := by
  obtain ⟨i, found, rfl⟩ := Option.map_eq_some_iff.mp parked
  obtain ⟨inside, names⟩ := inv.spinSlot worker i found
  have written := inv.writeSlot inside (.inr names)
  refine ⟨inv.inRange, inv.filled, ?_, written.parked, inv.stage, inv.threads, written.slots⟩
  intro other slot drawn
  by_cases same : other = worker
  · subst same
    exact absurd ((Function.update_self ..).symm.trans drawn) (by simp)
  · exact inv.spinSlot other slot ((Function.update_of_ne same _ _).symm.trans drawn)

omit [DecidableEq π] in
theorem Inv.beginSpinning (inv : state.Inv) {worker : Int} (began : state.beginSpinning worker = some after) :
    after.Inv := by
  simp only [WorkerIndices.beginSpinning, Option.ite_none_right_eq_some, Bool.and_eq_true, Option.some.injEq] at began
  obtain ⟨⟨started, _⟩, rfl⟩ := began
  refine ⟨inv.inRange, inv.filled, ?_, inv.parked, inv.stage, inv.threads, inv.slots⟩
  intro other slot drawn
  by_cases same : other = worker
  · subst same
    change Function.update state.spinSlot other (some (spinIndex state.nextSpinningWorkerIndex)) other = some slot at drawn
    rw [Function.update_self, Option.some.injEq] at drawn
    subst drawn
    exact ⟨spinIndex_lt _, inv.names_of_started started⟩
  · exact inv.spinSlot other slot ((Function.update_of_ne same _ _).symm.trans drawn)

theorem Inv.step (inv : state.Inv) (stepped : state.step label = some after) : after.Inv := by
  cases label with
  | construct => exact inv.construct stepped
  | destruct => exact inv.destruct stepped
  | beginSpinning worker => exact inv.beginSpinning stepped
  | park worker => exact inv.park stepped
  | operate party locked => exact inv.operate stepped
  | steal thief source =>
      simp only [WorkerIndices.step, stealWork, Option.ite_none_right_eq_some] at stepped
      obtain ⟨started, stolen⟩ := stepped
      split at stolen
      · rename_i positive
        cases stolen
        have upper := random_bounds source positive
        exact inv.touch (names_of_shared (shared_of_started started) (Int.natCast_nonneg _) upper)
      · cases stolen
        exact inv
  | enqueue party =>
      simp only [WorkerIndices.step, WorkerIndices.enqueue, Option.ite_none_right_eq_some, Bool.and_eq_true] at stepped
      obtain ⟨⟨shared, _⟩, entered⟩ := stepped
      split at entered
      · rename_i positive
        cases entered
        exact inv.enter ⟨positive, shared⟩
      · cases entered
        exact inv

omit [DecidableEq π] in
theorem inv_initial (count : BitVec 32) : ({ count := count } : WorkerIndices π).Inv where
  inRange := ⟨Int.le_refl 0, Int.le_max_left ..⟩
  filled _ named := absurd (Int.lt_of_le_of_lt named.1 named.2) (Int.lt_irrefl 0)
  spinSlot _ _ found := nomatch found
  parked _ := .inl rfl
  stage _ := trivial
  threads _ member := nomatch member
  slots _ member := nomatch member

theorem step_count (stepped : state.step label = some after) : after.count = state.count := by
  cases label with
  | construct =>
      simp only [step, construct] at stepped
      split at stepped
      · split at stepped <;> cases stepped <;> rfl
      · split at stepped <;> cases stepped <;> rfl
      · cases stepped
  | destruct =>
      simp only [step, destruct] at stepped
      split at stepped
      · cases stepped
        rfl
      · split at stepped <;> cases stepped <;> rfl
      · split at stepped <;> cases stepped <;> rfl
      · cases stepped
  | beginSpinning worker =>
      simp only [step, beginSpinning, Option.ite_none_right_eq_some, Option.some.injEq] at stepped
      rw [← stepped.2]
  | park worker =>
      obtain ⟨i, _, rfl⟩ := Option.map_eq_some_iff.mp stepped
      rfl
  | steal thief source =>
      simp only [step, stealWork, Option.ite_none_right_eq_some] at stepped
      obtain ⟨_, stolen⟩ := stepped
      split at stolen <;> cases stolen <;> rfl
  | enqueue party =>
      simp only [step, enqueue, Option.ite_none_right_eq_some] at stepped
      obtain ⟨_, entered⟩ := stepped
      split at entered <;> cases entered <;> rfl
  | operate party locked =>
      simp only [step, operate] at stepped
      split at stepped <;> cases stepped <;> rfl

theorem inv_of_reachable (reachable : (system count).Reachable state) : state.Inv ∧ state.count = count := by
  induction reachable with
  | initial start =>
      cases start
      exact ⟨inv_initial count, rfl⟩
  | step _ stepped ih =>
      obtain ⟨inv, same⟩ := ih
      exact ⟨inv.step stepped, (step_count stepped).trans same⟩

omit [DecidableEq π] in
theorem Inv.safe (inv : state.Inv) (small : state.count.toInt ≤ maxWorkerThreads) : state.Safe := by
  have few : state.made ≤ maxWorkerThreads := by
    have inRange := inv.inRange
    unfold maxWorkerThreads at *
    cases phase : state.phase with
    | creating i =>
        rw [phase] at inRange
        obtain ⟨_, upper⟩ := inRange
        simp only [made, phase]
        omega
    | starting | running | stopping | destroying | destroyed =>
        simp only [made, phase]
        omega
  refine ⟨?_, ?_, inv.slots⟩
  · intro used member
    obtain ⟨names, points⟩ := inv.threads used member
    exact ⟨names.1, Int.lt_of_lt_of_le names.2 few, points⟩
  · intro i _
    exact (inv.parked i).imp id (inv.filled _)

theorem reaches_creating (i : Nat) (within : (i : Int) ≤ count.toInt) :
    ∃ state : WorkerIndices π, (system count).Reachable state ∧ state.phase = .creating i ∧ state.count = count := by
  induction i with
  | zero => exact ⟨_, .initial rfl, rfl, rfl⟩
  | succ i ih =>
      obtain ⟨state, reachable, phase, same⟩ := ih (by omega)
      have constructed : state.step .construct = some ({ state with
          workerThreads := Function.update state.workerThreads i (some i)
          phase := .creating (i + 1) }.touch i) := by
        simp only [step, construct, phase, same]
        rw [if_pos (by omega)]
      exact ⟨_, reachable.step constructed, rfl, same⟩

/-- Too many workers: the constructor writes behind the array. -/
theorem overruns (wide : (maxWorkerThreads : Int) < count.toInt) :
    ∃ state : WorkerIndices π, (system count).Reachable state ∧ ¬state.Safe := by
  obtain ⟨state, reachable, phase, same⟩ := reaches_creating (π := π) maxWorkerThreads (Int.le_of_lt wide)
  have constructed : state.step .construct = some ({ state with
      workerThreads := Function.update state.workerThreads maxWorkerThreads (some maxWorkerThreads)
      phase := .creating (maxWorkerThreads + 1) }.touch maxWorkerThreads) := by
    simp only [step, construct, phase, same]
    rw [if_pos wide]
  refine ⟨_, reachable.step constructed, ?_⟩
  intro safe
  have inside := (safe.threads _ (List.mem_cons_self ..)).2.1
  exact Int.lt_irrefl _ inside

/-- Every index is right in every run, just when the count is at most `MaxWorkerThreads`. -/
theorem safe_iff (count : BitVec 32) :
    (∀ state : WorkerIndices π, (system count).Reachable state → state.Safe) ↔ count.toInt ≤ maxWorkerThreads := by
  constructor
  · intro safe
    by_contra wide
    obtain ⟨state, reachable, fails⟩ := overruns (π := π) (Int.not_le.mp wide)
    exact fails (safe state reachable)
  · intro small state reachable
    obtain ⟨inv, same⟩ := inv_of_reachable reachable
    exact inv.safe (same ▸ small)

/-- The scheduler of a machine with 257 logical CPUs. -/
theorem allCores_overruns : ∃ state : WorkerIndices Unit, (system (allCores 257)).Reachable state ∧ ¬state.Safe :=
  overruns (by decide)

end WorkerIndices

end MiniMarl
