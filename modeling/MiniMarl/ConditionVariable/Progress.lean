import Mathlib.Algebra.BigOperators.Group.Finset.Piecewise
import Mathlib.Algebra.Group.Action.Defs
import MiniMarl.ConditionVariable.Locks
import MiniMarl.ConditionVariable.Wakeup
import MiniMarl.Progress

namespace MiniMarl

/-- The locks under `ConditionVariable`, in the order in which they are taken. -/
inductive ConditionVariable.Lock (κ : Type) where
  | user
  | list
  | work (worker : κ)

def ConditionVariable.Lock.rank {κ : Type} : Lock κ → Nat
  | .user => 0
  | .list => 1
  | .work _ => 2

namespace Pc

variable {π κ δ : Type}

/-- The lock that the next operation takes. -/
def wants? (home : π → Option κ) (party : π) : Pc π κ δ → Option (ConditionVariable.Lock κ)
  | .lockList _ | .lockErase _ | .lockNotify => some .list
  | .lockWork _ => (home party).map .work
  | .notify (fiber :: _) => (home fiber).map .work
  | .relock _ | .woken _ _ => some .user
  | _ => none

/-- The party is in no call, or in a wait that it does not leave by itself. -/
def rests : Pc π κ δ → Bool
  | .free _ | .suspended _ | .asleep _ => true
  | _ => false

/-- A bound for the operations that a call still takes, with those of the
waiters that it is going to notify. -/
def weight (parties : Nat) : Pc π κ δ → Nat
  | .free _ | .suspended _ | .asleep _ => 0
  | .suspend _ | .uncount _ => 1
  | .release _ | .unlockErase _ | .uncountCondition _ => 2
  | .lockWork _ | .lockErase _ | .test _ | .last _ => 3
  | .check _ | .countCondition _ | .woken _ _ => 4
  | .unlockList _ | .relock _ => 5
  | .lockList _ | .resumed _ => 6
  | .count _ => 7
  | .evaluate _ => 8
  | .notifyCondition => 4 * parties + 1
  | .readCondition => 4 * parties + 2
  | .notify rest => 4 * parties + 3 + 9 * rest.length
  | .unlockWork _ rest => 4 * parties + 4 + 9 * rest.length
  | .lockNotify => 13 * parties + 5
  | .readWaiting => 13 * parties + 6

theorem roused_weight (pc : Pc π κ δ) (parties : Nat) : pc.roused.weight parties ≤ pc.weight parties + 4 := by
  cases pc <;> simp [roused, weight]

theorem eq_of_isSuspended {pc : Pc π κ δ} (suspended : pc.isSuspended = true) : ∃ call, pc = .suspended call := by
  cases pc with
  | suspended call => exact ⟨call, rfl⟩
  | _ => cases suspended

theorem onFiber_of_isSuspended {pc : Pc π κ δ} (suspended : pc.isSuspended = true) : pc.onFiber = true := by
  obtain ⟨call, rfl⟩ := eq_of_isSuspended suspended
  rfl

end Pc

namespace ConditionVariable

open Transition

variable {π κ δ : Type}

def load (parties : Nat) (state : ConditionVariable π κ δ) (party : π) : Nat :=
  (state.pc party).weight parties + if state.fiber party = .queued then 7 else 0

def budget [Fintype π] (state : ConditionVariable π κ δ) : Nat := ∑ party, state.load (Fintype.card π) party

/-- An operation of the calls under way: one of a party, or the worker's switch
to a notified fiber. -/
def Label.inner : Label π κ δ → Bool
  | .advance _ _ | .resume _ => true
  | _ => false

/-- Such an operation before the deadline. -/
def Label.proceeds : Label π κ δ → Bool
  | .advance _ expired => !expired
  | .resume _ => true
  | _ => false

/-- The worker's own use of its mutex. -/
def Label.ofWorker : Label π κ δ → Bool
  | .lockWorker _ | .unlockWorker _ => true
  | _ => false

/-- The steps that finish the calls under way, and the user's unlock. -/
def Label.closing : Label π κ δ → Bool
  | .advance _ _ | .resume _ | .lockWorker _ | .unlockWorker _ | .unlock _ => true
  | _ => false

theorem Label.closes {label : Label π κ δ} (proceeds : label.proceeds = true) :
    label.closing = true ∧ label.inner = true := by
  cases label <;> simp [Label.proceeds, Label.closing, Label.inner] at proceeds ⊢

theorem Label.closes_ofWorker {label : Label π κ δ} (worker : label.ofWorker = true) : label.closing = true := by
  cases label <;> simp [Label.ofWorker, Label.closing] at worker ⊢

/-- The party has an operation to do, or is about to be resumed. -/
def Unfinished (state : ConditionVariable π κ δ) (party : π) : Prop :=
  (state.pc party).rests = false ∨ (state.pc party).isSuspended = true ∧ state.fiber party = .queued

/-- Who has a lock: a party, or the thread of a worker. -/
def Has (state : ConditionVariable π κ δ) : π ⊕ κ → Lock κ → Prop
  | .inl party, .user => state.user = some party
  | .inl party, .list => state.mutex = some party
  | .inl party, .work worker => state.work worker = some (.party party)
  | .inr thread, .work worker => thread = worker ∧ state.work worker = some .worker
  | .inr _, _ => False

def Blocked (home : π → Option κ) (state : ConditionVariable π κ δ) : π ⊕ κ → Lock κ → Prop
  | .inl party, lock => (state.pc party).wants? home party = some lock ∧ ∃ holder, state.Has holder lock
  | .inr _, _ => False

section Vacant

variable {state : ConditionVariable π κ δ}

theorem user_none (vacant : ¬ ∃ holder, state.Has holder .user) : state.user = none := by
  rw [Option.eq_none_iff_forall_ne_some]
  intro party held
  exact vacant ⟨.inl party, held⟩

theorem mutex_none (vacant : ¬ ∃ holder, state.Has holder .list) : state.mutex = none := by
  rw [Option.eq_none_iff_forall_ne_some]
  intro party held
  exact vacant ⟨.inl party, held⟩

theorem work_none {worker : κ} (vacant : ¬ ∃ holder, state.Has holder (.work worker)) : state.work worker = none := by
  rw [Option.eq_none_iff_forall_ne_some]
  intro holder held
  cases holder with
  | party party => exact vacant ⟨.inl party, held⟩
  | worker => exact vacant ⟨.inr worker, rfl, held⟩

end Vacant

variable [DecidableEq π] [DecidableEq κ] [Fintype π]
variable {home : π → Option κ} {state after : ConditionVariable π κ δ} {party other : π} {expired : Bool}
  {label : Label π κ δ}

omit [DecidableEq κ] in
theorem Inv.waiting_length (inv : Inv home state) : state.waiting.length ≤ Fintype.card π :=
  inv.waiting_nodup.length_le_card

omit [DecidableEq π] [DecidableEq κ] in
theorem budget_same (pc : after.pc = state.pc) (fiber : after.fiber = state.fiber) : after.budget = state.budget := by
  simp only [budget, load, pc, fiber]

omit [DecidableEq κ] in
theorem budget_goto {target : Pc π κ δ} (pc : after.pc = Function.update state.pc party target)
    (fiber : after.fiber = state.fiber) :
    after.budget + (state.pc party).weight (Fintype.card π) = state.budget + target.weight (Fintype.card π) := by
  have changed := Data.sum_change (state.load (Fintype.card π)) (after.load (Fintype.card π)) party
    fun other away => by simp [load, pc, fiber, away]
  simp only [load, pc, fiber, Function.update_self] at changed
  simp only [budget, load, pc, fiber]
  omega

omit [DecidableEq κ] in
/-- A party that moves on alone pays with its own weight. -/
theorem budget_alone {target : Pc π κ δ} (pc : after.pc = Function.update state.pc party target)
    (fiber : after.fiber = state.fiber)
    (less : target.weight (Fintype.card π) < (state.pc party).weight (Fintype.card π)) :
    after.budget < state.budget := by
  have moved := budget_goto pc fiber
  omega

omit [DecidableEq κ] in
/-- A party that moves on pays for the fiber that it notifies, or for itself. -/
theorem budget_notify {target : Pc π κ δ} {fiber : π} {moved : Fiber.State}
    (pc : after.pc = Function.update state.pc party target) (fibers : after.fiber = Function.update state.fiber fiber moved)
    (running : state.fiber party ≠ .queued) (quiet : fiber = party → moved ≠ .queued)
    (less : target.weight (Fintype.card π) + (if fiber = party then 0 else 7) <
      (state.pc party).weight (Fintype.card π)) :
    after.budget < state.budget := by
  apply Data.sum_lt_of_gain _ _ (fun other => if other = fiber then if fiber = party then 0 else 7 else 0) party
  · intro other away
    by_cases here : other = fiber
    · subst here
      simp only [load, pc, fibers, Function.update_of_ne away, Function.update_self, if_neg away, if_true]
      split <;> omega
    · simp [load, pc, fibers, away, here]
  · simp only [Finset.sum_ite_eq', Finset.mem_univ, if_true]
    by_cases same : fiber = party
    · subst same
      have still := quiet rfl
      simpa [load, pc, fibers, running, still] using less
    · have still : after.fiber party = state.fiber party := by simp [fibers, Ne.symm same]
      simp only [load, pc, still, Function.update_self, if_neg running, if_neg same] at less ⊢
      omega

theorem advance_budget (inv : Inv home state) (moved : state.advance home party expired = some after) :
    after.budget < state.budget := by
  have blocked := (inv.each party).fiber
  cases position : state.pc party with
  | free _ | suspended _ | asleep _ => simp [advance, position] at moved
  | evaluate _ | count _ | check _ | test _ | readWaiting | readCondition =>
      simp only [advance, position, Option.some.injEq] at moved
      subst moved
      split
      all_goals exact budget_alone rfl rfl (by simp [position, Pc.weight])
  | unlockList _ | release _ | unlockErase _ | countCondition _ | last _ | uncountCondition _ | uncount _
  | unlockWork _ _ =>
      simp only [advance, position, Option.some.injEq] at moved
      subst moved
      exact budget_alone rfl rfl (by simp [position, Pc.weight])
  | lockList _ | lockErase _ =>
      simp only [advance, position, Option.ite_none_right_eq_some, Option.some.injEq] at moved
      obtain ⟨_, rfl⟩ := moved
      exact budget_alone rfl rfl (by simp [position, Pc.weight])
  | lockNotify =>
      simp only [advance, position, Option.ite_none_right_eq_some, Option.some.injEq] at moved
      obtain ⟨_, rfl⟩ := moved
      have short := inv.waiting_length
      refine budget_alone rfl rfl ?_
      simp only [position, Pc.weight]
      omega
  | relock _ | woken _ _ =>
      simp only [advance, position, Option.ite_none_right_eq_some, Option.some.injEq] at moved
      obtain ⟨_, rfl⟩ := moved
      split
      all_goals exact budget_alone rfl rfl (by simp [position, Pc.weight])
  | lockWork _ =>
      obtain ⟨worker, _, _, rfl⟩ := advance_lockWork position moved
      exact budget_alone rfl rfl (by simp [position, Pc.weight])
  | resumed _ =>
      simp only [advance, position, Option.bind_eq_some_iff, Option.some.injEq] at moved
      obtain ⟨worker, _, rfl⟩ := moved
      exact budget_alone rfl rfl (by simp [position, Pc.weight])
  | suspend call =>
      simp only [advance, position, Option.bind_eq_some_iff, Option.some.injEq] at moved
      obtain ⟨worker, _, rfl⟩ := moved
      have running : state.fiber party = .running := by simpa [position, Pc.isSuspended] using blocked
      exact budget_notify rfl rfl (by simp [running]) (fun _ => (Fiber.State.parked_ne call.timed).2.1)
        (by simp [position, Pc.weight])
  | notify rest =>
      have running : state.fiber party = .running := by simpa [position, Pc.isSuspended] using blocked
      cases rest with
      | nil =>
          simp only [advance, position, Option.some.injEq] at moved
          subst moved
          exact budget_alone rfl rfl (by simp [position, Pc.weight])
      | cons next rest =>
          obtain ⟨worker, _, _, rfl⟩ := advance_notify_cons position moved
          refine budget_notify rfl rfl (by simp [running]) ?_ ?_
          · intro same
            simp [same, running, Fiber.State.notified]
          · simp only [position, Pc.weight, List.length_cons]
            split <;> omega
  | notifyCondition =>
      simp only [advance, position, Option.some.injEq] at moved
      subst moved
      apply Data.sum_lt_of_gain _ _ (fun _ => 4) party
      · intro other away
        have roused := (state.pc other).roused_weight (Fintype.card π)
        by_cases queued : state.fiber other = .queued <;> simp [load, finish, away, queued] <;> omega
      · have running : state.fiber party = .running := by simpa [position, Pc.isSuspended] using blocked
        simp [load, finish, position, Pc.weight, running]
        omega

theorem step_budget (inv : Inv home state) (closing : label.closing = true)
    (stepped : state.step home label = some after) : after.budget + label.inner.toNat ≤ state.budget := by
  cases label with
  | advance party expired => exact advance_budget inv stepped
  | resume party =>
      obtain ⟨worker, call, _, position, queued, _, rfl⟩ := step_resume stepped
      apply Data.sum_lt_of_gain _ _ (fun _ => 0) party
      · intro other away
        simp [load, goto, away]
      · simp [load, goto, position, queued, Pc.weight]
  | lockWorker worker | unlockWorker worker | unlock party =>
      simp only [step, Option.ite_none_right_eq_some, Option.some.injEq] at stepped
      obtain ⟨_, rfl⟩ := stepped
      exact Nat.le_refl _
  | _ => cases closing

theorem budget_of_worker (worker : label.ofWorker = true) (stepped : state.step home label = some after) :
    after.budget = state.budget := by
  cases label with
  | lockWorker worker | unlockWorker worker =>
      simp only [step, Option.ite_none_right_eq_some, Option.some.injEq] at stepped
      obtain ⟨_, rfl⟩ := stepped
      rfl
  | _ => cases worker

omit [DecidableEq κ] in
/-- What the calls under way can still take: a number in the parties alone. -/
theorem budget_le (inv : Inv home state) (owned : Owned home state) :
    state.budget ≤ Fintype.card π * (13 * Fintype.card π + 6) := by
  rw [budget, ← smul_eq_mul, ← Finset.card_univ]
  apply Finset.sum_le_card_nsmul
  intro party _
  have blocked := (inv.each party).fiber
  have short := (owned party).ahead.length_le.trans inv.waiting_length
  have some : 0 < Fintype.card π := Fintype.card_pos_iff.mpr ⟨party⟩
  rw [Finset.card_univ]
  by_cases queued : state.fiber party = .queued
  · have suspended : (state.pc party).isSuspended = true := blocked.mp (by simp [queued])
    cases position : state.pc party <;> simp [position, Pc.isSuspended] at suspended
    simp [load, position, queued, Pc.weight]
    omega
  · simp only [load, if_neg queued]
    cases position : state.pc party <;> simp [position, Pc.ahead] at short <;> simp [Pc.weight] <;> omega

omit [DecidableEq κ] [Fintype π] in
/-- The locks are taken in the order of their ranks. -/
theorem blocked_ordered (each : ∀ party, Local home state party) (owned : Owned home state) (agent : π ⊕ κ)
    (held wanted : Lock κ) (has : state.Has agent held) (blocked : Blocked home state agent wanted) :
    held.rank < wanted.rank := by
  cases agent with
  | inr thread => exact blocked.elim
  | inl party =>
      obtain ⟨wants, _⟩ := blocked
      have outside := (each party).outside
      have mutex := (owned party).mutex
      have work := (owned party).work
      cases position : state.pc party <;>
        simp [position, Pc.wants?, Pc.outside, Pc.holdsMutex, Pc.holdsWork] at wants outside mutex work
      case lockList | lockErase | lockNotify =>
        subst wants
        cases held with
        | user => exact Nat.one_pos
        | list => exact absurd has mutex
        | work worker => exact absurd has (work worker)
      case relock | woken =>
        subst wants
        cases held with
        | user => exact absurd has outside
        | list => exact absurd has mutex
        | work worker => exact absurd has (work worker)
      case lockWork =>
        obtain ⟨worker, _, rfl⟩ := wants
        cases held with
        | user => exact Nat.two_pos
        | list => exact Nat.one_lt_two
        | work worker => exact absurd has (work worker)
      case notify rest =>
        cases rest with
        | nil => cases wants
        | cons next rest =>
            obtain ⟨worker, _, rfl⟩ := Option.map_eq_some_iff.mp wants
            cases held with
            | user => exact Nat.two_pos
            | list => exact Nat.one_lt_two
            | work worker => exact absurd has (work worker)

omit [Fintype π] in
/-- A party inside a call moves on when the lock that it wants is free. -/
theorem advance_of_vacant (each : ∀ party, Local home state party)
    (homes : ∀ fiber ∈ (state.pc party).ahead, (home fiber).isSome = true)
    (busy : (state.pc party).rests = false)
    (vacant : ∀ lock, (state.pc party).wants? home party = some lock → ¬ ∃ holder, state.Has holder lock) :
    ∃ after, state.advance home party false = some after := by
  have fiber := (each party).onFiber
  cases position : state.pc party with
  | free _ | suspended _ | asleep _ => simp [position, Pc.rests] at busy
  | lockList _ | lockErase _ | lockNotify =>
      have unlocked := mutex_none (vacant .list (by rw [position]; rfl))
      simp [advance, position, unlocked]
  | relock _ | woken _ _ =>
      have unlocked := user_none (vacant .user (by rw [position]; rfl))
      simp [advance, position, unlocked]
  | lockWork _ =>
      obtain ⟨worker, lives⟩ := Option.isSome_iff_exists.mp (fiber (by simp [position, Pc.onFiber, Pc.registered]))
      have unlocked := work_none (vacant (.work worker) (by simp [position, Pc.wants?, lives]))
      simp [advance, position, lives, unlocked]
  | suspend _ | resumed _ =>
      obtain ⟨worker, lives⟩ := Option.isSome_iff_exists.mp (fiber (by simp [position, Pc.onFiber, Pc.registered]))
      simp [advance, position, lives]
  | notify rest =>
      cases rest with
      | nil => simp [advance, position]
      | cons next rest =>
          obtain ⟨worker, lives⟩ := Option.isSome_iff_exists.mp
            (homes next (by simp [position, Pc.ahead]))
          have unlocked := work_none (vacant (.work worker) (by simp [position, Pc.wants?, lives]))
          simp [advance, position, lives, unlocked]
  | _ => simp [advance, position]

/-- An operation is possible, at once or when a worker or a party outside of the
calls has given up the lock that it holds. -/
inductive Onward (home : π → Option κ) (state : ConditionVariable π κ δ) : Prop where
  | proceed (label : Label π κ δ) {after : ConditionVariable π κ δ} (proceeds : label.proceeds = true)
      (moved : state.step home label = some after)
  | handOver (first label : Label π κ δ) {middle after : ConditionVariable π κ δ} (worker : first.ofWorker = true)
      (handed : state.step home first = some middle) (proceeds : label.proceeds = true)
      (moved : middle.step home label = some after)
  | unlock {party : π} (held : state.user = some party) (free : (state.pc party).isFree = true)

theorem onward_of_blocked (inv : Inv home state) (owned : Owned home state) {lock : Lock κ}
    (blocked : Blocked home state (.inl party) lock) (inner : 1 ≤ lock.rank) : Onward home state := by
  obtain ⟨waiter, last, holder, waits, above, has, ready⟩ :=
    exists_ready Lock.rank 2 (fun lock => by cases lock <;> simp [Lock.rank])
      (blocked_ordered inv.each owned) (fun agent lock waits => by
        cases agent with
        | inl party => exact waits.2
        | inr thread => exact waits.elim) blocked
  cases holder with
  | inl holder =>
      have busy : (state.pc holder).rests = false := by
        have mutex := (owned holder).mutex
        have work := (owned holder).work
        cases last with
        | user => exact absurd (inner.trans above) (by simp [Lock.rank])
        | list =>
            have holds := mutex.mp has
            cases position : state.pc holder <;> simp [position, Pc.holdsMutex] at holds <;> rfl
        | work worker =>
            have holds := work worker has
            cases position : state.pc holder <;> simp [position, Pc.holdsWork] at holds <;> rfl
      obtain ⟨after, moved⟩ := advance_of_vacant inv.each (fun fiber inside => inv.ahead_lives owned inside) busy
        fun lock wants taken => ready lock ⟨wants, taken⟩
      exact .proceed (.advance holder false) rfl moved
  | inr worker =>
      cases waiter with
      | inr thread => exact waits.elim
      | inl waiter =>
          cases last with
          | user | list => exact has.elim
          | work place =>
              obtain ⟨rfl, held⟩ := has
              have unlocked : state.step home (.unlockWorker worker) =
                  some { state with work := Function.update state.work worker none } := by
                simp [step, held]
              have wants := waits.1
              have busy : (state.pc waiter).rests = false := by
                cases position : state.pc waiter <;> simp [position, Pc.wants?] at wants <;> rfl
              obtain ⟨after, moved⟩ := advance_of_vacant (inv.step unlocked).each
                (fun fiber inside => inv.ahead_lives owned inside) busy (fun lock wanted taken => by
                  obtain ⟨holder, has⟩ := taken
                  have same : lock = .work worker := Option.some.inj (wanted.symm.trans wants)
                  subst same
                  cases holder <;> simp [Has] at has)
              exact .handOver (.unlockWorker worker) (.advance waiter false) rfl unlocked rfl moved

theorem onward_of_busy (inv : Inv home state) (owned : Owned home state) (party : π)
    (busy : (state.pc party).rests = false)
    (clear : ∀ lock, Blocked home state (.inl party) lock → 1 ≤ lock.rank) : Onward home state := by
  by_cases blocked : ∃ lock, Blocked home state (.inl party) lock
  · obtain ⟨lock, blocked⟩ := blocked
    exact onward_of_blocked inv owned blocked (clear lock blocked)
  · obtain ⟨after, moved⟩ := advance_of_vacant inv.each (fun fiber inside => inv.ahead_lives owned inside) busy
      fun lock wants taken => blocked ⟨lock, wants, taken⟩
    exact .proceed (.advance party false) rfl moved

omit [Fintype π] in
theorem exists_resumed {worker : κ} {call : WaitCall δ} {work : κ → Option (Holder π)} (lives : home party = some worker)
    (suspended : state.pc party = .suspended call) (queued : state.fiber party = .queued)
    (held : work worker = some .worker) :
    ∃ after, { state with work := work }.step home (.resume party) = some after := by
  simp [step, lives, suspended, queued, held, Pc.suspended?]

/-- A call that has an operation left is not stuck. -/
theorem onward (inv : Inv home state) (owned : Owned home state) (unfinished : state.Unfinished party) :
    Onward home state := by
  rcases unfinished with busy | ⟨suspended, queued⟩
  · by_cases outer : Blocked home state (.inl party) .user
    · -- the party that has the user's lock either is in no call, or goes on
      obtain ⟨_, holder, has⟩ := outer
      cases holder with
      | inr thread => exact has.elim
      | inl holder =>
          by_cases free : (state.pc holder).isFree = true
          · exact .unlock has free
          · have inside := (inv.each holder).outside
            refine onward_of_busy inv owned holder ?_ ?_
            · cases position : state.pc holder <;>
                simp [position, Pc.isFree, Pc.outside] at free inside <;> first | rfl | exact absurd has inside
            · intro lock blocked
              exact Nat.one_le_iff_ne_zero.mpr (Nat.ne_of_gt (blocked_ordered inv.each owned _ .user lock has blocked))
    · refine onward_of_busy inv owned party busy ?_
      intro lock blocked
      cases lock with
      | user => exact absurd blocked outer
      | list => exact Nat.le_refl 1
      | work worker => simp [Lock.rank]
  · obtain ⟨worker, lives⟩ := Option.isSome_iff_exists.mp
      ((inv.each party).onFiber (Pc.onFiber_of_isSuspended suspended))
    obtain ⟨call, position⟩ := Pc.eq_of_isSuspended suspended
    cases held : state.work worker with
    | none =>
        have locked : state.step home (.lockWorker worker) =
            some { state with work := Function.update state.work worker (some .worker) } := by
          simp [step, held]
        obtain ⟨after, moved⟩ := exists_resumed lives position queued (Function.update_self worker _ state.work)
        exact .handOver (.lockWorker worker) (.resume party) rfl locked rfl moved
    | some holder =>
        cases holder with
        | worker =>
            obtain ⟨after, moved⟩ := exists_resumed lives position queued held
            exact .proceed (.resume party) rfl moved
        | party holder =>
            have holds := (owned holder).work worker held
            have busy : (state.pc holder).rests = false := by
              cases place : state.pc holder <;> simp [place, Pc.holdsWork] at holds <;> rfl
            refine onward_of_busy inv owned holder busy ?_
            intro lock blocked
            have higher := blocked_ordered inv.each owned (.inl holder) (.work worker) lock held blocked
            exact Nat.one_le_iff_ne_zero.mpr (Nat.ne_of_gt (Nat.zero_lt_of_lt higher))

/-- The steps that close the calls, for any users of the condition variable. -/
def closing (home : π → Option κ) : System (ConditionVariable π κ δ) (Label π κ δ) :=
  (system home).restrict fun _ label => label.closing = true

omit [Fintype π] in
theorem closing_reachable (state : ConditionVariable π κ δ) (label : Label π κ δ) (after : ConditionVariable π κ δ)
    (reachable : (system home).Reachable state) (move : (closing home).next state label after) :
    (system home).Reachable after :=
  reachable.step move.2

theorem exists_spending_of_locked (reachable : (system home).Reachable state) (unfinished : state.Unfinished party)
    (locked : ∀ holder, state.user = some holder → (state.pc holder).isFree = false) :
    ∃ labels after, (closing home).Run state labels after ∧ after.budget < state.budget := by
  have inv := inv_of_reachable reachable
  cases onward inv (owned_of_reachable reachable) unfinished with
  | @proceed label after proceeds moved =>
      obtain ⟨closes, inner⟩ := Label.closes proceeds
      have paid := step_budget inv closes moved
      rw [inner] at paid
      exact ⟨[label], after, .snoc .nil ⟨closes, moved⟩, paid⟩
  | @handOver first label middle after worker handed proceeds moved =>
      obtain ⟨closes, inner⟩ := Label.closes proceeds
      have opened := Label.closes_ofWorker worker
      have kept := budget_of_worker worker handed
      have paid := step_budget (inv.step handed) closes moved
      rw [inner] at paid
      have last : (closing home).Run middle [label] after := .snoc .nil ⟨closes, moved⟩
      refine ⟨[first, label], after, last.cons ⟨opened, handed⟩, ?_⟩
      simp only [Bool.toNat_true] at paid
      omega
  | unlock held free => exact absurd free (by simp [locked _ held])

theorem exists_spending (reachable : (system home).Reachable state) (unfinished : state.Unfinished party) :
    ∃ labels after, (closing home).Run state labels after ∧ after.budget < state.budget := by
  by_cases locked : ∀ holder, state.user = some holder → (state.pc holder).isFree = false
  · exact exists_spending_of_locked reachable unfinished locked
  · simp only [not_forall, Bool.not_eq_false] at locked
    obtain ⟨holder, held, free⟩ := locked
    have unlocked : state.step home (.unlock holder) = some { state with user := none } := by
      simp [step, free, held]
    obtain ⟨labels, after, run, less⟩ := exists_spending_of_locked (reachable.step unlocked) unfinished
      fun other held => absurd held (by simp)
    exact ⟨.unlock holder :: labels, after, run.cons ⟨rfl, unlocked⟩, less⟩

theorem exists_finished (reachable : (system home).Reachable state) :
    ∃ later after, (closing home).Run state later after ∧ ∀ party, ¬ after.Unfinished party := by
  refine System.exists_settled reachable closing_reachable budget (fun state => ∀ party, ¬ state.Unfinished party) ?_
  intro state reachable unsettled
  simp only [not_forall, not_not] at unsettled
  obtain ⟨party, unfinished⟩ := unsettled
  exact exists_spending reachable unfinished

/-- No deadlock and no livelock under the calls: from any reachable state on,
they take a bounded number of operations, and whatever they have done so far,
they can be finished, up to the waiters that nobody has notified. -/
theorem calls_finish {home : π → Option κ} {state : ConditionVariable π κ δ}
    (reachable : (system home).Reachable state) {labels : List (Label π κ δ)} {middle : ConditionVariable π κ δ}
    (run : (closing home).Run state labels middle) :
    labels.countP Label.inner ≤ Fintype.card π * (13 * Fintype.card π + 6) ∧
      ∃ later after, (closing home).Run middle later after ∧ ∀ party, ¬ after.Unfinished party := by
  have spent := run.spends reachable closing_reachable budget Label.inner
    fun state label after reachable move => step_budget (inv_of_reachable reachable) move.1 move.2
  have bound := budget_le (inv_of_reachable reachable) (owned_of_reachable reachable)
  exact ⟨by omega, exists_finished (run.keeps reachable closing_reachable)⟩

/-- A thread is about to notify a waiting fiber. -/
theorem calls_finish_of_notifier :
    ∃ state : ConditionVariable Bool Unit Bool, state.fiber true = .yielded ∧
      ∃ later after, (closing fun party => if party then some () else none).Run state later after ∧
        ∀ party, ¬ after.Unfinished party := by
  obtain ⟨state, reachable, seen⟩ := System.reachable_of_replay
    (fun state : ConditionVariable Bool Unit Bool => ∃ data, state = { data := data })
    (step fun party => if party then some () else none) ⟨false, rfl⟩
    ([.lock true, .wait true ⟨id, false⟩] ++ List.replicate 8 (.advance true false) ++
      [.unlockWorker (), .lock false, .notifyAll false])
    (fun state => decide (state.fiber true = .yielded)) (by decide +kernel)
  exact ⟨state, of_decide_eq_true seen, (calls_finish reachable .nil).2⟩

/-- No party owes a notification that it has not begun. -/
def Quit (state : ConditionVariable π κ δ) : Prop := ∀ party, state.debt party = .none ∨ state.debt party = .paying

omit [DecidableEq π] [DecidableEq κ] [Fintype π] in
theorem Quit.keep (quit : state.Quit)
    (debt : ∀ party, after.debt party = state.debt party ∨ after.debt party = (state.debt party).paid) : after.Quit := by
  intro party
  rcases debt party with same | paid
  · rw [same]
    exact quit party
  · rw [paid]
    rcases quit party with none | paying
    · exact .inl (by rw [none]; rfl)
    · exact .inl (by rw [paying]; rfl)

theorem step_closing (inv : Inv home state) (closing : label.closing = true)
    (stepped : state.step home label = some after) : after.data = state.data ∧
      ∀ party, after.debt party = state.debt party ∨ after.debt party = (state.debt party).paid := by
  cases label with
  | advance party expired =>
      refine ⟨(advance_debt stepped).1, fun other => ?_⟩
      by_cases here : other = party
      · rw [here]
        exact (advance_debt stepped).2
      · exact .inl (advance_frame (inv.each party) stepped here).debt
  | resume party =>
      obtain ⟨worker, call, _, _, _, _, rfl⟩ := step_resume stepped
      exact ⟨rfl, fun _ => .inl rfl⟩
  | lockWorker worker | unlockWorker worker | unlock party =>
      simp only [step, Option.ite_none_right_eq_some, Option.some.injEq] at stepped
      obtain ⟨_, rfl⟩ := stepped
      exact ⟨rfl, fun _ => .inl rfl⟩
  | _ => cases closing

theorem kept_of_closing
    (reachable : ((system home).restrict fun state label => state.disciplined label = true).Reachable state)
    (quit : state.Quit) {labels : List (Label π κ δ)} (run : (closing home).Run state labels after) :
    ((system home).restrict fun state label => state.disciplined label = true).Reachable after ∧ after.Quit ∧
      after.data = state.data := by
  induction run with
  | nil => exact ⟨reachable, quit, rfl⟩
  | snoc _ move ih =>
      obtain ⟨reached, quit, same⟩ := ih
      obtain ⟨closes, stepped⟩ := move
      obtain ⟨data, debt⟩ := step_closing (inv_of_reachable reached.unrestrict) closes stepped
      refine ⟨reached.step ⟨?_, stepped⟩, quit.keep debt, data.trans same⟩
      rename Label π κ δ => label
      cases label <;> first | rfl | cases closes

omit [DecidableEq κ] in
/-- A waiter that nobody is going to notify has been right to wait. -/
theorem Heard.refused (heard : Heard home state) (inv : Inv home state) (quit : state.Quit)
    (resting : ∀ party, (state.pc party).rests = true) {call : WaitCall δ} (exposed : state.Exposed party call) :
    call.pred state.data = false := by
  rw [← Bool.not_eq_true]
  intro holds
  obtain ⟨notifier, _, covers⟩ := heard party call exposed holds
  have paying : state.debt notifier = .paying := by
    rcases covers with unlocked | ⟨_, ready | ⟨paying, _⟩⟩
    · rcases quit notifier with none | paying
      · rw [none] at unlocked
        cases unlocked
      · exact paying
    · rcases quit notifier with none | paying
      · rw [none] at ready
        cases ready
      · exact paying
    · exact paying
  have notifying := (inv.each notifier).paying paying
  have rests := resting notifier
  cases position : state.pc notifier <;> simp [position, Pc.notifying, Pc.rests] at notifying rests

omit [DecidableEq κ] in
/-- Where the parties are when nobody has an operation left. -/
theorem Heard.settled (heard : Heard home state) (inv : Inv home state) (quit : state.Quit)
    (finished : ∀ party, ¬ state.Unfinished party) (party : π) :
    (state.pc party).isFree = true ∨ ∃ call, (state.pc party = .suspended call ∨ state.pc party = .asleep call) ∧
      state.fiber party ≠ .queued ∧ call.pred state.data = false := by
  have resting : ∀ party, (state.pc party).rests = true := by
    intro party
    rw [← Bool.not_eq_false]
    exact fun busy => finished party (.inl busy)
  have rests := resting party
  have blocked := (inv.each party).fiber
  cases position : state.pc party with
  | free _ => exact .inl rfl
  | suspended call =>
      have unqueued : state.fiber party ≠ .queued := fun queued => finished party (.inr ⟨by rw [position]; rfl, queued⟩)
      exact .inr ⟨call, .inl rfl, unqueued, heard.refused inv quit resting ⟨by rw [position]; rfl, unqueued⟩⟩
  | asleep call =>
      have running : state.fiber party = .running := by simpa [position, Pc.isSuspended] using blocked
      have unqueued : state.fiber party ≠ .queued := by simp [running]
      exact .inr ⟨call, .inr rfl, unqueued, heard.refused inv quit resting ⟨by rw [position]; rfl, unqueued⟩⟩
  | _ => simp [position, Pc.rests] at rests

/-- `wait` returns: once every change of the data has been followed by the start
of its `notify_all`, the calls can be finished, whatever they have done so far,
and then the only waiters left are suspended with a predicate that is false. -/
theorem waiters_return {home : π → Option κ} {state : ConditionVariable π κ δ}
    (reachable : ((system home).restrict fun state label => state.disciplined label = true).Reachable state)
    (quit : state.Quit) {labels : List (Label π κ δ)} {middle : ConditionVariable π κ δ}
    (run : (closing home).Run state labels middle) :
    ∃ later after, (closing home).Run middle later after ∧ after.data = state.data ∧ ∀ party,
      (after.pc party).isFree = true ∨ ∃ call, (after.pc party = .suspended call ∨ after.pc party = .asleep call) ∧
        after.fiber party ≠ .queued ∧ call.pred after.data = false := by
  obtain ⟨later, after, rest, finished⟩ := exists_finished (run.keeps reachable.unrestrict closing_reachable)
  obtain ⟨reached, quit, same⟩ := kept_of_closing reachable quit (run.append rest)
  have inv := inv_of_reachable reached.unrestrict
  have heard : Heard home after := by
    refine heard_of_reachable (fun state label permitted => ?_) reached
    cases label <;> trivial
  exact ⟨later, after, rest, same, heard.settled inv quit finished⟩

/-- A thread has changed the data and starts to notify a waiting fiber. -/
theorem waiters_return_of_notifier :
    ∃ state : ConditionVariable Bool Unit Bool, state.fiber true = .yielded ∧ state.data = true ∧
      ∃ later after, (closing fun party => if party then some () else none).Run state later after ∧ ∀ party,
        (after.pc party).isFree = true ∨
          ∃ call, (after.pc party = .suspended call ∨ after.pc party = .asleep call) ∧
            after.fiber party ≠ .queued ∧ call.pred after.data = false := by
  obtain ⟨state, reachable, seen⟩ := System.reachable_of_guarded_replay
    (fun state : ConditionVariable Bool Unit Bool => ∃ data, state = { data := data })
    (step fun party => if party then some () else none) disciplined ⟨false, rfl⟩
    ([.lock true, .wait true ⟨id, false⟩] ++ List.replicate 8 (.advance true false) ++
      [.unlockWorker (), .lock false, .change false true, .notifyAll false])
    (fun state => decide (state.fiber true = .yielded ∧ state.data = true ∧ state.debt true = .none ∧
      state.debt false = .paying)) (by decide +kernel)
  obtain ⟨yielded, data, waiter, notifier⟩ := of_decide_eq_true seen
  have quit : state.Quit := by
    intro party
    cases party with
    | false => exact .inr notifier
    | true => exact .inl waiter
  obtain ⟨later, after, run, _, returned⟩ := waiters_return reachable quit .nil
  exact ⟨state, yielded, data, later, after, run, returned⟩

end ConditionVariable

end MiniMarl
