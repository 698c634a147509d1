import MiniMarl.Worker.LateNotify

namespace MiniMarl

open Data Transition

namespace WaitingFibers

variable {F : Type} [DecidableEq F] {address : F ↪ Nat} {waiting after : WaitingFibers address}

/-- The operations that change the map. -/
inductive Op (F : Type) where
  | add (timeout : TimePoint) (fiber : F)
  | erase (fiber : F)
  | take (now : TimePoint)
deriving Repr

def perform (waiting : WaitingFibers address) : Op F → Except String (WaitingFibers address)
  | .add timeout fiber => waiting.add timeout fiber
  | .erase fiber => waiting.erase fiber
  | .take now => (waiting.take now).map Prod.snd

def system (address : F ↪ Nat) : System (WaitingFibers address) (Op F) :=
  .ofStep (· = empty) fun waiting op => (waiting.perform op).toOption

/-- Only fibers that the map does not contain are added. -/
def careful (waiting : WaitingFibers address) : Op F → Bool
  | .add _ fiber => !waiting.contains fiber
  | _ => true

theorem Synced.perform_ok (synced : waiting.Synced) {op : Op F} (permitted : waiting.careful op = true) :
    ∃ after, waiting.perform op = .ok after ∧ after.Synced := by
  cases op with
  | add timeout fiber =>
      have absent : waiting.contains fiber = false := by simpa [careful] using permitted
      obtain ⟨after, added, still, _⟩ := synced.add_ok absent timeout
      exact ⟨after, added, still⟩
  | erase fiber =>
      obtain ⟨after, erased, still, _⟩ := synced.erase_ok fiber
      exact ⟨after, erased, still⟩
  | take now =>
      rcases synced.take_ok now with ⟨future, _⟩ | ⟨first, rest, after, _, _, taken, still, _⟩
      · exact ⟨waiting, by rw [perform, future]; rfl, synced⟩
      · exact ⟨after, by rw [perform, taken]; rfl, still⟩

theorem synced_of_reachable
    (reachable : ((system address).restrict fun waiting op => waiting.careful op = true).Reachable waiting) :
    waiting.Synced := by
  induction reachable with
  | initial start => exact start ▸ synced_empty
  | step _ move ih =>
      obtain ⟨permitted, moved⟩ := move
      obtain ⟨next, performed, synced⟩ := ih.perform_ok permitted
      cases performed.symm.trans (Except.toOption_eq_some.mp moved)
      exact synced

/-- The fibers by deadline, as the operations show them. -/
structure PriorityMap (waiting : WaitingFibers address) : Prop where
  synced : ∀ fiber timeout, ⟨timeout, fiber⟩ ∈ waiting.timeouts ↔ waiting.fibers.lookup fiber = some timeout
  filled : waiting.nonempty = true ↔ ∃ fiber timeout, waiting.fibers.lookup fiber = some timeout
  contains : ∀ fiber, waiting.contains fiber = true ↔ ∃ timeout, waiting.fibers.lookup fiber = some timeout
  add : ∀ fiber, waiting.contains fiber = false → ∀ timeout, ∃ after, waiting.add timeout fiber = .ok after ∧
    ∀ other, after.fibers.lookup other = if other = fiber then some timeout else waiting.fibers.lookup other
  erase : ∀ fiber, ∃ after, waiting.erase fiber = .ok after ∧ (waiting.contains fiber = false → after = waiting) ∧
    ∀ other, after.fibers.lookup other = if other = fiber then none else waiting.fibers.lookup other
  next : waiting.nonempty = true → ∃ earliest, waiting.next = .ok earliest ∧
    (∃ fiber, waiting.fibers.lookup fiber = some earliest) ∧
    ∀ fiber timeout, waiting.fibers.lookup fiber = some timeout → earliest ≤ timeout
  take : ∀ now,
    waiting.take now = .ok (none, waiting) ∧
        (∀ fiber timeout, waiting.fibers.lookup fiber = some timeout → now < timeout) ∨
      ∃ first after, waiting.take now = .ok (some first.fiber, after) ∧ first ∈ waiting.timeouts ∧
        first.timepoint ≤ now ∧
        (∀ other ∈ waiting.timeouts, other ≠ first → first.lt address other = true) ∧
        ∀ other, after.fibers.lookup other = if other = first.fiber then none else waiting.fibers.lookup other

theorem Synced.timepoint_le (synced : waiting.Synced) {first : Timeout F} (begins : waiting.timeouts.begin? = some first)
    {fiber : F} {timeout : TimePoint} (found : waiting.fibers.lookup fiber = some timeout) :
    first.timepoint ≤ timeout := by
  rcases OrderedSet.begin?_least begins ((synced fiber timeout).mpr found) with same | before
  · rw [← same]
  · rcases (Timeout.lt_iff address).mp before with earlier | ⟨same, _⟩
    · exact Int.le_of_lt earlier
    · exact Int.le_of_eq same

theorem Synced.priorityMap (synced : waiting.Synced) : waiting.PriorityMap where
  synced := synced
  filled := by
    rw [nonempty_iff]
    simp only [contains_iff]
  contains := fun _ => contains_iff
  add := by
    intro fiber absent timeout
    obtain ⟨after, added, _, lookups⟩ := synced.add_ok absent timeout
    exact ⟨after, added, lookups⟩
  erase := by
    intro fiber
    obtain ⟨after, erased, _, lookups⟩ := synced.erase_ok fiber
    refine ⟨after, erased, ?_, lookups⟩
    intro absent
    rw [WaitingFibers.erase, not_contains_iff.mp absent] at erased
    exact (Except.ok.inj erased).symm
  next := by
    intro filled
    obtain ⟨first, begins, next⟩ := synced.next_ok filled
    have stored := (synced first.fiber first.timepoint).mp (OrderedSet.begin?_mem begins)
    exact ⟨first.timepoint, next, ⟨first.fiber, stored⟩, fun fiber timeout found => synced.timepoint_le begins found⟩
  take := by
    intro now
    rcases synced.take_ok now with future | ⟨first, rest, after, shape, due, taken, _, found, _, lookups⟩
    · exact .inl future
    · have begins : waiting.timeouts.begin? = some first := by rw [OrderedSet.begin?, shape, List.head?_cons]
      refine .inr ⟨first, after, taken, OrderedSet.begin?_mem begins, due, ?_, lookups⟩
      intro other member distinct
      exact (OrderedSet.begin?_least begins member).resolve_left distinct

end WaitingFibers

namespace Worker

variable {φ : Type} {address : Fiber ↪ Nat} {worker after : Worker φ address} {now : TimePoint}

/-- The fibers that wait for a deadline are in the state Waiting. -/
structure Parked (worker : Worker φ address) : Prop where
  synced : worker.waiting.Synced
  waits : ∀ fiber, worker.waiting.contains fiber = true → worker.state fiber = .waiting

/-- The entries `moved` have left the waiting fibers for the queue. -/
structure Expired (worker : Worker φ address) (now : TimePoint) (moved : List (Timeout Fiber))
    (after : Worker φ address) : Prop where
  fibers : after.fibers = worker.fibers ++ moved.map Timeout.fiber
  num : after.num = worker.num + moved.length
  due : ∀ entry, entry ∈ moved ↔
    worker.waiting.fibers.lookup entry.fiber = some entry.timepoint ∧ entry.timepoint ≤ now
  once : (moved.map Timeout.fiber).Nodup
  ordered : moved.Pairwise fun earlier later => earlier.timepoint ≤ later.timepoint
  queued : ∀ entry ∈ moved, after.state entry.fiber = .queued
  kept : ∀ fiber, fiber ∉ moved.map Timeout.fiber → after.state fiber = worker.state fiber
  left : ∀ fiber timeout, after.waiting.fibers.lookup fiber = some timeout ↔
    worker.waiting.fibers.lookup fiber = some timeout ∧ now < timeout
  parked : after.Parked

/-- The worker after a turn of the loop that takes `fiber`. -/
def queueExpired (worker : Worker φ address) (waiting : WaitingFibers address) (fiber : Fiber) : Worker φ address :=
  { worker with waiting, fibers := worker.fibers ++ [fiber], num := worker.num + 1 : Worker φ address }.setState
    fiber .queued

theorem Parked.turn (parked : worker.Parked) {first : Timeout Fiber} {waiting : WaitingFibers address}
    (synced : waiting.Synced) (lookups : ∀ other, waiting.fibers.lookup other =
      if other = first.fiber then none else worker.waiting.fibers.lookup other) :
    (worker.queueExpired waiting first.fiber).Parked := by
  refine ⟨synced, ?_⟩
  intro fiber contained
  obtain ⟨timeout, found⟩ := WaitingFibers.contains_iff.mp contained
  have found : waiting.fibers.lookup fiber = some timeout := found
  rw [lookups] at found
  split at found
  · cases found
  · rename_i other
    have waits := parked.waits fiber (WaitingFibers.contains_iff.mpr ⟨timeout, found⟩)
    simpa [queueExpired, setState, other] using waits

theorem enqueueFiberTimeoutsLoop_future (future : worker.waiting.take now = .ok (none, worker.waiting)) {turns : Nat}
    (enough : 0 < turns) : enqueueFiberTimeoutsLoop now turns worker = .ok worker := by
  obtain ⟨turns, rfl⟩ := Nat.exists_eq_succ_of_ne_zero (Nat.ne_of_gt enough)
  simp [Worker.enqueueFiberTimeoutsLoop, future, aborting, pure, Except.pure]

theorem Expired.nothing (parked : worker.Parked)
    (later : ∀ fiber timeout, worker.waiting.fibers.lookup fiber = some timeout → now < timeout) :
    Expired worker now [] worker := by
  refine ⟨by simp, rfl, ?_, .nil, .nil, by simp, fun _ _ => rfl, ?_, parked⟩
  · intro entry
    simp only [List.not_mem_nil, false_iff, not_and]
    intro stored
    exact Int.not_le.mpr (later _ _ stored)
  · intro fiber timeout
    exact ⟨fun stored => ⟨stored, later fiber timeout stored⟩, And.left⟩

theorem Expired.cons {first : Timeout Fiber} {waiting : WaitingFibers address} {moved : List (Timeout Fiber)}
    (found : worker.waiting.fibers.lookup first.fiber = some first.timepoint) (due : first.timepoint ≤ now)
    (least : ∀ fiber timeout, worker.waiting.fibers.lookup fiber = some timeout → first.timepoint ≤ timeout)
    (lookups : ∀ other, waiting.fibers.lookup other =
      if other = first.fiber then none else worker.waiting.fibers.lookup other)
    (expired : Expired (worker.queueExpired waiting first.fiber) now moved after) :
    Expired worker now (first :: moved) after := by
  have same : (worker.queueExpired waiting first.fiber).waiting = waiting := rfl
  have later : ∀ entry, entry ∈ moved ↔ entry.fiber ≠ first.fiber ∧
      worker.waiting.fibers.lookup entry.fiber = some entry.timepoint ∧ entry.timepoint ≤ now := by
    intro entry
    rw [expired.due entry, same, lookups]
    by_cases here : entry.fiber = first.fiber <;> simp [here]
  have fresh : first.fiber ∉ moved.map Timeout.fiber := by
    intro member
    obtain ⟨entry, listed, here⟩ := List.mem_map.mp member
    exact ((later entry).mp listed).1 here
  refine
    { fibers := by rw [expired.fibers]; simp [queueExpired, setState]
      num := by rw [expired.num]; simp [queueExpired, setState]; omega
      due := ?_
      once := List.nodup_cons.mpr ⟨fresh, expired.once⟩
      ordered := List.pairwise_cons.mpr ⟨?_, expired.ordered⟩
      queued := ?_
      kept := ?_
      left := ?_
      parked := expired.parked }
  · intro entry
    rw [List.mem_cons, later entry]
    constructor
    · intro member
      rcases member with same | ⟨_, rest⟩
      · exact same ▸ ⟨found, due⟩
      · exact rest
    · intro waits
      obtain ⟨stored, passed⟩ := waits
      by_cases here : entry.fiber = first.fiber
      · left
        rw [here, found] at stored
        obtain ⟨timepoint, fiber⟩ := entry
        cases stored
        cases here
        rfl
      · exact .inr ⟨here, stored, passed⟩
  · intro entry member
    exact least entry.fiber entry.timepoint ((later entry).mp member).2.1
  · intro entry member
    rcases List.mem_cons.mp member with same | rest
    · rw [same, expired.kept first.fiber fresh]
      simp [queueExpired, setState]
    · exact expired.queued entry rest
  · intro fiber absent
    obtain ⟨other, notMoved⟩ := not_or.mp (mt List.mem_cons.mpr absent)
    rw [expired.kept fiber notMoved]
    simp [queueExpired, setState, other]
  · intro fiber timeout
    rw [expired.left fiber timeout, same, lookups]
    by_cases here : fiber = first.fiber
    · rw [if_pos here, here, found]
      simp only [reduceCtorEq, false_and, Option.some.injEq, false_iff, not_and]
      intro timepoint
      exact Int.not_lt.mpr (timepoint ▸ due)
    · rw [if_neg here]

/-- The loop ends by itself: more turns than entries make no difference. -/
theorem Parked.enqueueFiberTimeoutsLoop (parked : worker.Parked) (now : TimePoint) :
    ∃ moved after, Expired worker now moved after ∧ ∀ turns, worker.waiting.timeouts.elements.length < turns →
      enqueueFiberTimeoutsLoop now turns worker = .ok after := by
  induction entries : worker.waiting.timeouts.elements generalizing worker with
  | nil =>
      have nothing : ∀ fiber timeout, worker.waiting.fibers.lookup fiber ≠ some timeout := by
        intro fiber timeout found
        have stored := (parked.synced fiber timeout).mpr found
        rw [OrderedSet.mem_elements, entries] at stored
        cases stored
      refine ⟨[], worker, .nothing parked fun fiber timeout found => absurd found (nothing fiber timeout), ?_⟩
      intro turns enough
      refine enqueueFiberTimeoutsLoop_future ?_ (Nat.zero_lt_of_lt enough)
      rcases parked.synced.take_ok now with ⟨future, _⟩ | ⟨first, _, _, _, _, _, _, found, _⟩
      · exact future
      · exact absurd found (nothing _ _)
  | cons first rest ih =>
      rcases parked.synced.take_ok now with ⟨future, later⟩ |
        ⟨taken, others, waiting, shape, due, took, synced, found, remaining, lookups⟩
      · exact ⟨[], worker, .nothing parked later, fun turns enough =>
          enqueueFiberTimeoutsLoop_future future (Nat.zero_lt_of_lt enough)⟩
      · rw [entries] at shape
        cases shape
        have waits := parked.waits first.fiber (WaitingFibers.contains_iff.mpr ⟨_, found⟩)
        have begins : worker.waiting.timeouts.begin? = some first := by rw [OrderedSet.begin?, entries, List.head?_cons]
        obtain ⟨moved, after, expired, looped⟩ := ih (parked.turn synced lookups) remaining
        refine ⟨first :: moved, after, expired.cons found due
          (fun fiber timeout stored => parked.synced.timepoint_le begins stored) lookups, ?_⟩
        intro turns enough
        obtain ⟨turns, rfl⟩ := Nat.exists_eq_succ_of_ne_zero (Nat.ne_zero_of_lt enough)
        simpa [Worker.enqueueFiberTimeoutsLoop, took, aborting, changeFiberState, assertFiberState, waits, pure,
          Except.pure, queueExpired, setState] using looped turns (Nat.lt_of_succ_lt_succ enough)

/-- The positions inside `waitForWork` from which `enqueueFiberTimeouts` is called. -/
def atTimeouts (worker : Worker φ address) : Bool :=
  match worker.current with
  | .workWait (.waitForWork _) | .awoken (.waitForWork _) _ _ => true
  | _ => false

theorem parked_of_reachable {id : WorkerId} {mode : Mode} (reachable : (sparing id mode).Reachable worker)
    (calls : worker.atTimeouts = true) : worker.Parked := by
  rcases calm_of_reachable reachable with inv | rests
  · exact ⟨inv.waitingSynced, fun fiber contained => ((inv.waiting fiber).mp contained).2⟩
  · rcases rests.place with ⟨idle | shut | left, _⟩ | exited
    · simp [atTimeouts, idle] at calls
    · simp [atTimeouts, shut] at calls
    · simp [atTimeouts, left] at calls
    · simp [atTimeouts, exited] at calls

/-- The waiting fibers are a map with priorities after every sequence of
operations, and `enqueueFiberTimeouts` moves the fibers whose deadline has
passed, by deadline, and no other one. Wherever the worker calls it, the waiting
fibers are parked. -/
theorem timeouts_expire {F : Type} [DecidableEq F] {place : F ↪ Nat} {waiting : WaitingFibers place}
    (reachable : ((WaitingFibers.system place).restrict fun waiting op => waiting.careful op = true).Reachable waiting) :
    waiting.PriorityMap ∧
      (∀ worker : Worker φ address, worker.Parked → ∀ now, ∃ moved after, Expired worker now moved after ∧
        worker.enqueueFiberTimeouts now = .ok after ∧ ∀ turns, worker.waiting.timeouts.elements.length < turns →
          enqueueFiberTimeoutsLoop now turns worker = .ok after) ∧
      ∀ (id : WorkerId) (mode : Mode) (worker : Worker φ address), (sparing id mode).Reachable worker →
        worker.atTimeouts = true → worker.Parked := by
  refine ⟨(WaitingFibers.synced_of_reachable reachable).priorityMap, ?_,
    fun id mode worker run calls => parked_of_reachable run calls⟩
  intro worker parked now
  obtain ⟨moved, after, expired, looped⟩ := parked.enqueueFiberTimeoutsLoop now
  exact ⟨moved, after, expired, looped _ (Nat.lt_succ_self _), looped⟩

/-- Two fibers have the same deadline, and a third one comes later. -/
theorem timeouts_expire_twins : ∃ waiting : WaitingFibers Fiber.address, ∃ after : WaitingFibers Fiber.address,
    waiting.PriorityMap ∧ waiting.take 5 = .ok (some ⟨.bound 0, 1⟩, after) ∧ after.next = .ok 5 := by
  obtain ⟨waiting, reachable, seen⟩ := System.reachable_of_guarded_replay (· = (.empty : WaitingFibers Fiber.address))
    (fun waiting op => (waiting.perform op).toOption) WaitingFibers.careful rfl
    [.add 7 ⟨.bound 0, 0⟩, .add 5 ⟨.bound 0, 2⟩, .add 5 ⟨.bound 0, 1⟩, .erase ⟨.bound 0, 3⟩, .take 4]
    (fun waiting => (waiting.take 5).toOption.any fun taken : Option Fiber × WaitingFibers Fiber.address =>
      decide (taken.1 = some ⟨.bound 0, 1⟩ ∧ taken.2.next.toOption = some 5)) (by decide +kernel)
  obtain ⟨taken, took, found⟩ := (Option.any_eq_true _ _).mp seen
  obtain ⟨fiber, after⟩ := taken
  obtain ⟨same, next⟩ := of_decide_eq_true found
  have first : fiber = some ⟨.bound 0, 1⟩ := same
  refine ⟨waiting, after, (@timeouts_expire Nat Fiber.address _ _ _ _ reachable).1, ?_, Except.toOption_eq_some.mp next⟩
  rw [Except.toOption_eq_some.mp took, first]

end Worker

end MiniMarl
