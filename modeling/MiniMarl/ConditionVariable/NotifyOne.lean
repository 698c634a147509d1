import Mathlib.Algebra.Order.BigOperators.Group.Finset
import Mathlib.Algebra.Order.Ring.Int
import MiniMarl.ConditionVariable.Monitor

namespace MiniMarl.Monitor

open Transition

variable {π : Type} [DecidableEq π] [Fintype π]
variable {isFiber : π → Bool} {monitor after : Monitor π} {label : Label π} {labels : List (Label π)}

/-- A notified fiber runs. -/
def Label.isResume : Label π → Bool
  | .resume _ => true
  | _ => false

def Label.isNotifyOne : Label π → Bool
  | .notifyOne _ => true
  | _ => false

def suspends (monitor : Monitor π) (party : π) : Bool :=
  decide (monitor.fiber party = .yielded ∨ monitor.fiber party = .waiting)

def suspended (monitor : Monitor π) : Finset π := Finset.univ.filter fun party => monitor.suspends party = true

def queued (monitor : Monitor π) : Finset π := Finset.univ.filter fun party => monitor.fiber party = .queued

omit [DecidableEq π] in
@[simp] theorem mem_queued {party : π} : party ∈ queued monitor ↔ monitor.fiber party = .queued := by
  simp [queued]

/-- The newest entry of `waiting_`, when it is a suspended fiber. -/
def target (monitor : Monitor π) : Finset π :=
  match monitor.waiting with
  | fiber :: _ => if monitor.suspends fiber then {fiber} else ∅
  | [] => ∅

/-- The fibers that become Queued in a `notify_one` of a run. -/
def wokenBy (isFiber : π → Bool) : Monitor π → List (Label π) → Finset π
  | _, [] => ∅
  | monitor, label :: labels =>
      match monitor.step isFiber label with
      | some after =>
          (if label.isNotifyOne then queued after \ queued monitor else ∅) ∪ wokenBy isFiber after labels
      | none => ∅

/-- Every `notify_one` of a run finds a suspended fiber at the front. -/
def findsSuspended (isFiber : π → Bool) : Monitor π → List (Label π) → Bool
  | _, [] => true
  | monitor, label :: labels =>
      (!label.isNotifyOne || decide monitor.target.Nonempty) &&
        match monitor.step isFiber label with
        | some after => findsSuspended isFiber after labels
        | none => true

/-- Every `notify_one` of a run finds a suspended fiber at the front that no
earlier one has found there. -/
def findsFresh (isFiber : π → Bool) : Finset π → Monitor π → List (Label π) → Bool
  | _, _, [] => true
  | found, monitor, label :: labels =>
      (!label.isNotifyOne || decide (monitor.target \ found).Nonempty) &&
        match monitor.step isFiber label with
        | some after =>
            findsFresh isFiber (if label.isNotifyOne then found ∪ monitor.target else found) after labels
        | none => true

theorem Inv.numWaiting_pos (inv : Inv isFiber monitor) {party : π} (counted : (monitor.place party).counted = true) :
    0 < monitor.numWaiting := by
  have part := Finset.single_le_sum (fun party _ => Int.natCast_nonneg (monitor.place party).counted.toNat)
    (Finset.mem_univ party)
  rw [← inv.numWaiting, counted] at part
  exact part

theorem Inv.onFiber_of_mem (inv : Inv isFiber monitor) {party : π} (member : party ∈ monitor.waiting) :
    (monitor.place party).onFiber = true := by
  have entry := (inv.each party).registered
  have one := List.count_pos_iff.mpr member
  cases onFiber : (monitor.place party).onFiber with
  | true => rfl
  | false =>
      rw [onFiber, Bool.toNat_false] at entry
      omega

theorem queued_notify (monitor : Monitor π) (fiber : π) (suspended : monitor.suspends fiber = true) :
    queued (monitor.notify fiber) \ queued monitor = {fiber} := by
  have states : monitor.fiber fiber = .yielded ∨ monitor.fiber fiber = .waiting := by
    simpa [suspends] using suspended
  ext party
  by_cases here : party = fiber
  · rcases states with state | state <;> simp [notify, here, state, Fiber.State.notified]
  · simp [notify, here]

theorem queued_notify_awake (monitor : Monitor π) (fiber : π) (awake : monitor.suspends fiber = false)
    (busy : monitor.fiber fiber ≠ .idle) : queued (monitor.notify fiber) \ queued monitor = ∅ := by
  ext party
  by_cases here : party = fiber
  · subst here
    cases state : monitor.fiber party <;> simp [suspends, state] at awake busy <;>
      simp [notify, state, Fiber.State.notified]
  · simp [notify, here]

theorem Inv.notifyOne_of_cons (inv : Inv isFiber monitor) {fiber : π} {rest : List π}
    (entries : monitor.waiting = fiber :: rest) (sleeper : π) : monitor.notifyOne sleeper = monitor.notify fiber := by
  have onFiber := inv.onFiber_of_mem (show fiber ∈ monitor.waiting by simp [entries])
  have counted : (monitor.place fiber).counted = true := by
    cases found : monitor.place fiber <;> simp [found, Place.onFiber] at onFiber <;> rfl
  have positive := inv.numWaiting_pos counted
  have some : monitor.numWaiting ≠ 0 := by omega
  simp [notifyOne, some, entries]

/-- A call wakes at most the fiber at the front. -/
theorem Inv.queued_notifyOne (inv : Inv isFiber monitor) (sleeper : π) :
    queued (monitor.notifyOne sleeper) \ queued monitor = monitor.target := by
  cases entries : monitor.waiting with
  | nil =>
      have same : queued (monitor.notifyOne sleeper) = queued monitor := by
        unfold notifyOne
        rw [entries]
        split
        · rfl
        · simp only
          split <;> rfl
      simp [target, entries, same]
  | cons fiber rest =>
      rw [inv.notifyOne_of_cons entries]
      cases suspended : monitor.suspends fiber with
      | true => simp [queued_notify monitor fiber suspended, target, entries, suspended]
      | false =>
          simp [queued_notify_awake monitor fiber suspended (inv.each fiber).busy, target, entries, suspended]

omit [DecidableEq π] in
theorem target_disjoint (monitor : Monitor π) : Disjoint monitor.target (queued monitor) := by
  rw [Finset.disjoint_left]
  intro fiber member queued
  rw [mem_queued] at queued
  unfold target at member
  split at member
  · split at member
    · rename_i suspended
      rw [Finset.mem_singleton] at member
      simp [suspends, ← member, queued] at suspended
    · cases member
  · cases member

omit [DecidableEq π] [Fintype π] in
theorem card_target_le (monitor : Monitor π) : monitor.target.card ≤ 1 := by
  unfold target
  split
  · split <;> simp
  · simp

theorem Inv.queued_subset (inv : Inv isFiber monitor) (stepped : monitor.step isFiber label = some after)
    (still : label.isResume = false) : queued monitor ⊆ queued after := by
  intro fiber member
  rw [mem_queued] at member ⊢
  have place : (monitor.place fiber).isSuspended = true := (inv.each fiber).suspended.mp (by simp [member])
  by_cases named : label.party? = some fiber
  · cases label with
    | timeout party =>
        cases named
        rw [(step_timeout stepped).2]
        simp
    | wait party timed =>
        cases named
        simp [(step_wait stepped).1, Place.isSuspended] at place
    | recheck party holds expired =>
        cases named
        have awake := (step_recheck stepped).1
        cases found : monitor.place fiber <;> simp [found, Place.isSuspended, Place.isAwake] at place awake
    | wake party timedOut =>
        cases named
        obtain ⟨timed, asleep, _⟩ := step_wake stepped
        simp [asleep, Place.isSuspended] at place
    | resume party => cases still
    | notifyOne sleeper | notifyAll => cases named
  · rcases (step_frame stepped named).fiber with same | same
    · rw [same, member]
    · rw [same, member]
      rfl

omit [Fintype π] in
theorem card_union_target (monitor : Monitor π) (found : Finset π) :
    (found ∪ monitor.target).card ≤ found.card + 1 ∧
      ((found ∪ monitor.target).card = found.card + 1 ↔ (monitor.target \ found).Nonempty) := by
  have split := Finset.card_union_add_card_inter found (monitor.target \ found)
  rw [Finset.union_sdiff_self_eq_union, Finset.inter_sdiff_self, Finset.card_empty] at split
  have small : (monitor.target \ found).card ≤ 1 := (Finset.card_le_card Finset.sdiff_subset).trans (card_target_le monitor)
  rw [← Finset.card_pos]
  omega

theorem Inv.card_wokenBy (inv : Inv isFiber monitor) (found : Finset π)
    (executed : System.execute (Monitor.step isFiber) monitor labels = some after) :
    (found ∪ wokenBy isFiber monitor labels).card ≤ found.card + labels.countP Label.isNotifyOne ∧
      ((found ∪ wokenBy isFiber monitor labels).card = found.card + labels.countP Label.isNotifyOne ↔
        findsFresh isFiber found monitor labels = true) := by
  induction labels generalizing monitor found with
  | nil => simp [wokenBy, findsFresh]
  | cons label labels ih =>
      cases stepped : monitor.step isFiber label with
      | none => simp [System.execute, stepped] at executed
      | some next =>
          simp only [System.execute, stepped] at executed
          simp only [wokenBy, findsFresh, stepped, List.countP_cons]
          cases label with
          | notifyOne sleeper =>
              obtain ⟨grown, fresh⟩ := card_union_target monitor found
              obtain ⟨bound, equal⟩ := ih (inv.step stepped) (found ∪ monitor.target) executed
              have woken : queued next \ queued monitor = monitor.target := by
                simp only [Monitor.step, Option.ite_none_right_eq_some, Option.some.injEq] at stepped
                rw [← stepped.2]
                exact inv.queued_notifyOne sleeper
              simp only [Label.isNotifyOne, if_true, woken, ← Finset.union_assoc, Bool.not_true, Bool.false_or,
                Bool.and_eq_true, decide_eq_true_eq, ← equal, ← fresh]
              omega
          | _ => simpa [Label.isNotifyOne] using ih (inv.step stepped) found executed

/-- As long as no notified fiber runs, a suspended fiber has not been found before. -/
theorem Inv.findsFresh_eq (inv : Inv isFiber monitor) {found : Finset π} (notified : found ⊆ queued monitor)
    (still : ∀ label ∈ labels, label.isResume = false) :
    findsFresh isFiber found monitor labels = findsSuspended isFiber monitor labels := by
  induction labels generalizing monitor found with
  | nil => rfl
  | cons label labels ih =>
      have apart : monitor.target \ found = monitor.target :=
        Finset.sdiff_eq_self_of_disjoint ((target_disjoint monitor).mono_right notified)
      simp only [findsFresh, findsSuspended, apart]
      cases stepped : monitor.step isFiber label with
      | none => rfl
      | some next =>
          have kept := inv.queued_subset stepped (still label List.mem_cons_self)
          have grown : (if label.isNotifyOne then found ∪ monitor.target else found) ⊆ queued next := by
            cases label with
            | notifyOne sleeper =>
                simp only [Monitor.step, Option.ite_none_right_eq_some, Option.some.injEq] at stepped
                have woken := inv.queued_notifyOne sleeper
                rw [stepped.2] at woken
                exact Finset.union_subset (notified.trans kept) (woken ▸ Finset.sdiff_subset)
            | _ => exact notified.trans kept
          have later := ih (inv.step stepped) grown fun label member => still label (List.mem_cons_of_mem _ member)
          simp only [later]

omit [Fintype π] in
/-- The fiber that a call has notified stays at the front of `waiting_`. -/
theorem target_notify {fiber : π} {rest : List π} (entries : monitor.waiting = fiber :: rest)
    (suspended : monitor.suspends fiber = true) : (monitor.notify fiber).target = ∅ := by
  have states : monitor.fiber fiber = .yielded ∨ monitor.fiber fiber = .waiting := by
    simpa [suspends] using suspended
  have notified : (monitor.notify fiber).suspends fiber = false := by
    rcases states with state | state <;> simp [suspends, notify, state, Fiber.State.notified]
  have front : (monitor.notify fiber).waiting = fiber :: rest := entries
  simp [target, front, notified]

theorem Inv.mem_waiting_of_suspends (inv : Inv isFiber monitor) {party : π}
    (suspended : monitor.suspends party = true) : party ∈ monitor.waiting := by
  have place : (monitor.place party).isSuspended = true := by
    refine (inv.each party).suspended.mp fun running => ?_
    simp [suspends, running] at suspended
  have onFiber : (monitor.place party).onFiber = true := by
    cases found : monitor.place party with
    | suspended => rfl
    | _ => simp [found, Place.isSuspended] at place
  have entry := (inv.each party).registered
  rw [onFiber] at entry
  exact List.count_pos_iff.mp (by rw [entry]; decide)

/-- With as many fibers suspended as there are calls, and none of those that wait
notified before, calls in a row wake distinct fibers only where there is just
one. -/
theorem wakes_in_a_row_iff {isFiber : π → Bool} {monitor after : Monitor π} (reachable : (system isFiber).Reachable monitor)
    (unnotified : ∀ fiber ∈ monitor.waiting, monitor.suspends fiber = true) {sleeper : π} {count : Nat}
    (enough : count ≤ (suspended monitor).card)
    (executed : System.execute (step isFiber) monitor (List.replicate count (.notifyOne sleeper)) = some after) :
    count ≤ (wokenBy isFiber monitor (List.replicate count (.notifyOne sleeper))).card ↔ count ≤ 1 := by
  have inv := inv_of_reachable reachable
  obtain ⟨bound, equal⟩ := inv.card_wokenBy ∅ executed
  have calls : (List.replicate count (Label.notifyOne sleeper)).countP Label.isNotifyOne = count := by
    simp [List.countP_replicate, Label.isNotifyOne]
  have still : ∀ label ∈ List.replicate count (Label.notifyOne sleeper), label.isResume = false := by
    intro label member
    rw [List.eq_of_mem_replicate member]
    rfl
  rw [Finset.empty_union, Finset.card_empty, Nat.zero_add, calls] at bound equal
  rw [inv.findsFresh_eq (Finset.empty_subset _) still] at equal
  rw [show count ≤ _ ↔ _ = count from ⟨fun all => Nat.le_antisymm bound all, Nat.le_of_eq ∘ Eq.symm⟩, equal]
  cases count with
  | zero => simp [findsSuspended]
  | succ count =>
      obtain ⟨party, member⟩ := Finset.card_pos.mp (Nat.lt_of_lt_of_le (Nat.succ_pos count) enough)
      have listed := inv.mem_waiting_of_suspends (show monitor.suspends party = true by simpa [suspended] using member)
      cases entries : monitor.waiting with
      | nil => simp [entries] at listed
      | cons fiber rest =>
          have front : monitor.suspends fiber = true := unnotified fiber (by simp [entries])
          have first : monitor.target = {fiber} := by simp [target, entries, front]
          have second := target_notify entries front
          rw [List.replicate_succ] at executed ⊢
          cases stepped : monitor.step isFiber (.notifyOne sleeper) with
          | none => simp [System.execute, stepped] at executed
          | some next =>
              have notified : next = monitor.notify fiber := by
                simp only [step, Option.ite_none_right_eq_some, Option.some.injEq] at stepped
                rw [← stepped.2, inv.notifyOne_of_cons entries]
              subst notified
              cases count with
              | zero => simp [findsSuspended, stepped, first]
              | succ count => simp [findsSuspended, stepped, second, List.replicate_succ, Label.isNotifyOne]

/-- A producer that notifies once for each of its items: as long as the calls
find suspended fibers, each item that nobody has taken has a fiber that is
queued for it, and none is left to the suspended ones. -/
theorem Inv.serves_items (inv : Inv isFiber monitor)
    (executed : System.execute (Monitor.step isFiber) monitor labels = some after)
    (still : ∀ label ∈ labels, label.isResume = false) (finds : findsSuspended isFiber monitor labels = true)
    {items : Nat} (served : items ≤ (queued monitor).card) :
    items + labels.countP Label.isNotifyOne ≤ (queued after).card := by
  induction labels generalizing monitor items with
  | nil =>
      cases executed
      exact served
  | cons label labels ih =>
      cases stepped : monitor.step isFiber label with
      | none => simp [System.execute, stepped] at executed
      | some next =>
          simp only [System.execute, stepped] at executed
          simp only [findsSuspended, stepped, Bool.and_eq_true] at finds
          have kept := inv.queued_subset stepped (still label List.mem_cons_self)
          have onward {more : Nat} (served : more ≤ (queued next).card) :
              more + labels.countP Label.isNotifyOne ≤ (queued after).card :=
            ih (inv.step stepped) executed (fun label member => still label (List.mem_cons_of_mem _ member)) finds.2
              served
          rw [List.countP_cons]
          cases label with
          | notifyOne sleeper =>
              simp only [Monitor.step, Option.ite_none_right_eq_some, Option.some.injEq] at stepped
              have woken := inv.queued_notifyOne sleeper
              rw [stepped.2] at woken
              have one : 0 < monitor.target.card := by simpa [Label.isNotifyOne, Finset.card_pos] using finds.1
              have more := Finset.card_sdiff_add_card_eq_card kept
              rw [woken] at more
              have later := onward (show items + 1 ≤ (queued next).card by omega)
              simp only [Label.isNotifyOne, if_true]
              omega
          | _ => simpa [Label.isNotifyOne] using onward (served.trans (Finset.card_le_card kept))

/-- In every run, `n` calls of `notify_one` wake `n` distinct fibers exactly
when each of them finds at the front of `waiting_` a suspended fiber that none
of them has found before. As long as no notified fiber runs, the fiber at the
front only has to be suspended. -/
theorem wakes_distinct_iff {isFiber : π → Bool} {monitor after : Monitor π}
    (reachable : (system isFiber).Reachable monitor) {labels : List (Label π)}
    (executed : System.execute (step isFiber) monitor labels = some after) :
    (labels.countP Label.isNotifyOne ≤ (wokenBy isFiber monitor labels).card ↔
      findsFresh isFiber ∅ monitor labels = true) ∧
    ((∀ label ∈ labels, label.isResume = false) →
      findsFresh isFiber ∅ monitor labels = findsSuspended isFiber monitor labels) := by
  have inv := inv_of_reachable reachable
  obtain ⟨bound, equal⟩ := inv.card_wokenBy ∅ executed
  rw [Finset.empty_union, Finset.card_empty, Nat.zero_add] at bound equal
  refine ⟨?_, inv.findsFresh_eq (Finset.empty_subset _)⟩
  rw [← equal]
  omega

/-- Two fibers wait. The one that the first call has woken is back before the
second call, which wakes the other. -/
theorem wakes_distinct_twice : ∃ monitor middle after : Monitor Bool,
    System.execute (step fun _ => true) monitor [.notifyOne true] = some middle ∧
      1 ≤ (wokenBy (fun _ => true) monitor [.notifyOne true]).card ∧
      System.execute (step fun _ => true) middle [.resume false, .recheck false true false, .notifyOne true] =
        some after ∧
      2 ≤ (wokenBy (fun _ => true) monitor
        [.notifyOne true, .resume false, .recheck false true false, .notifyOne true]).card := by
  let rest : List (Label Bool) := [.resume false, .recheck false true false, .notifyOne true]
  obtain ⟨monitor, reachable, seen⟩ := System.reachable_of_replay (· = ({} : Monitor Bool)) (step fun _ => true) rfl
    [.wait true false, .wait false false] (fun monitor => findsSuspended (fun _ => true) monitor [.notifyOne true] &&
      findsFresh (fun _ => true) ∅ monitor (.notifyOne true :: rest) &&
      (System.execute (step fun _ => true) monitor (.notifyOne true :: rest)).isSome) (by decide)
  simp only [Bool.and_eq_true, Option.isSome_iff_exists] at seen
  obtain ⟨⟨finds, fresh⟩, after, executed⟩ := seen
  have twice := (wakes_distinct_iff reachable executed).1.mpr fresh
  cases stepped : step (fun _ => true) monitor (.notifyOne true) with
  | none => simp [System.execute, stepped] at executed
  | some middle =>
      have once : System.execute (step fun _ => true) monitor [.notifyOne true] = some middle := by
        simp [System.execute, stepped]
      obtain ⟨distinct, suspended⟩ := wakes_distinct_iff reachable once
      refine ⟨monitor, middle, after, once, ?_, ?_, twice⟩
      · exact distinct.mpr ((suspended (by simp [Label.isResume])).trans finds)
      · rw [System.execute, stepped] at executed
        exact executed

/-- Two suspended fibers, two calls, and one fiber ready. -/
theorem second_notify_one_lost : ¬∀ monitor after : Monitor Bool, (system fun _ => true).Reachable monitor →
    ∀ count, count ≤ (suspended monitor).card →
      System.execute (step fun _ => true) monitor (List.replicate count (.notifyOne true)) = some after →
      count ≤ (wokenBy (fun _ => true) monitor (List.replicate count (.notifyOne true))).card := by
  intro claimed
  obtain ⟨monitor, reachable, seen⟩ := System.reachable_of_replay (· = ({} : Monitor Bool)) (step fun _ => true) rfl
    [.wait true false, .wait false false] (fun monitor => decide (2 ≤ (suspended monitor).card) &&
      (System.execute (step fun _ => true) monitor (List.replicate 2 (.notifyOne true))).isSome &&
      decide ((wokenBy (fun _ => true) monitor (List.replicate 2 (.notifyOne true))).card = 1)) (by decide)
  simp only [Bool.and_eq_true, decide_eq_true_eq, Option.isSome_iff_exists] at seen
  obtain ⟨⟨enough, after, executed⟩, one⟩ := seen
  have two := claimed monitor after reachable 2 enough executed
  omega

end MiniMarl.Monitor
