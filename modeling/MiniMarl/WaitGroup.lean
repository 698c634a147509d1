import MiniMarl.ConditionVariable.Outcome

namespace MiniMarl

open Transition ConditionVariable

/-- Where a party is in a call of a `WaitGroup`: its next operation. -/
inductive WaitGroup.Call where
  | idle
  | assert
  | decrement
  /-- The count has become zero: `marl::lock lock(data_->mutex)`. -/
  | lock
  | notify
  | unlock
  | lockWait
  | callWait
  | unlockWait
deriving DecidableEq, Repr

/-- `WaitGroup::Data`: the count is the data of the condition variable, and
`data_->mutex` its user's lock. `observed` is what the last evaluation of the
predicate in a call of `wait` has found. -/
structure WaitGroup (π κ : Type) where
  cv : ConditionVariable π κ Nat
  call : π → WaitGroup.Call := fun _ => .idle
  observed : π → Bool := fun _ => false

inductive WaitGroup.Label (π κ : Type) where
  | add (party : π) (count : Nat)
  | done (party : π)
  | wait (party : π)
  | operate (party : π)
  | external (label : ConditionVariable.Label π κ Nat)

namespace WaitGroup

variable {π κ : Type} [DecidableEq π] [DecidableEq κ]

def count (group : WaitGroup π κ) : Nat := group.cv.data

/-- The predicate of `wait`. -/
def isZero : WaitCall Nat := ⟨fun count => count == 0, false⟩

/-- `--data_->count` on an `unsigned int`. -/
def decremented (count : Nat) : Nat := (count + (2 ^ 32 - 1)) % 2 ^ 32

def enter (group : WaitGroup π κ) (party : π) (call : Call) : WaitGroup π κ :=
  { group with call := Function.update group.call party call }

/-- An operation on the count, on the mutex or on the condition variable. -/
def perform (home : π → Option κ) (group : WaitGroup π κ) (party : π)
    (label : ConditionVariable.Label π κ Nat) (call : Call) : Option (WaitGroup π κ) :=
  (group.cv.step home label).map fun cv => { group with cv := cv }.enter party call

def observe (group : WaitGroup π κ) (party : π) (found : Bool) : WaitGroup π κ :=
  { group with observed := Function.update group.observed party found }

/-- The next operation of a call. -/
def operate (home : π → Option κ) (group : WaitGroup π κ) (party : π) : Option (WaitGroup π κ) :=
  match group.call party with
  | .idle => none
  | .assert => if 0 < group.count then some (group.enter party .decrement) else none
  | .decrement =>
      if decremented group.count = 0 then group.perform home party (.change party (decremented group.count)) .lock
      else group.perform home party (.adjust party (decremented group.count)) .idle
  | .lock => group.perform home party (.lock party) .notify
  | .notify => group.perform home party (.notifyAll party) .unlock
  | .unlock =>
      if (group.cv.pc party).isFree then group.perform home party (.unlock party) .idle
      else group.perform home party (.advance party false) .unlock
  | .lockWait => group.perform home party (.lock party) .callWait
  | .callWait => (group.observe party false).perform home party (.wait party isZero) .unlockWait
  | .unlockWait =>
      if (group.cv.pc party).isFree then group.perform home party (.unlock party) .idle
      else if (group.cv.pc party).evaluates then
        (group.observe party (decide (group.count = 0 ∧ group.cv.user = some party))).perform home party
          (.advance party false) .unlockWait
      else group.perform home party (.advance party false) .unlockWait

def step (home : π → Option κ) (group : WaitGroup π κ) : Label π κ → Option (WaitGroup π κ)
  | .add party count =>
      if group.call party = .idle then
        group.perform home party (.adjust party ((group.count + count) % 2 ^ 32)) .idle
      else none
  | .done party => if group.call party = .idle then some (group.enter party .assert) else none
  | .wait party => if group.call party = .idle then some (group.enter party .lockWait) else none
  | .operate party => group.operate home party
  | .external label =>
      if label.external then (group.cv.step home label).map fun cv => { group with cv := cv } else none

/-- Every `unsigned int` can be the initial count. -/
def system (home : π → Option κ) : System (WaitGroup π κ) (Label π κ) :=
  .ofStep (fun group => ∃ count < 2 ^ 32, group = { cv := { data := count } }) (step home)

/-- The count stays below `2 ^ 32`. -/
def permitted (group : WaitGroup π κ) : Label π κ → Bool
  | .add _ count => decide (group.count + count < 2 ^ 32)
  | _ => true

/-- The calls that hold `data_->mutex`, or have handed it to `wait`. -/
def Call.holding : Call → Bool
  | .notify | .unlock | .callWait | .unlockWait => true
  | _ => false

variable {home : π → Option κ} {group after : WaitGroup π κ} {party other : π} {label : Label π κ}

/-- What the call of a party says about its place in the condition variable. -/
structure Local (group : WaitGroup π κ) (party : π) : Prop where
  free : group.call party ≠ .unlock → group.call party ≠ .unlockWait → (group.cv.pc party).isFree = true
  notifies : group.call party = .unlock → (group.cv.pc party).notifying = true ∨ (group.cv.pc party).isFree = true
  waits : group.call party = .unlockWait → (group.cv.pc party).notifying = false
  isZero : ∀ call, (group.cv.pc party).call? = some call → call = WaitGroup.isZero
  holds : group.cv.user = some party → (group.call party).holding = true
  unlocked : group.cv.debt party = .unlocked → group.call party = .lock
  ready : group.cv.debt party = .ready → group.call party = .notify
  paying : group.cv.debt party = .paying → group.call party = .unlock
  observed : group.call party = .unlockWait → ∀ result, (group.cv.pc party).outcome? = some result →
    group.observed party = true

omit [DecidableEq π] [DecidableEq κ] in
theorem Local.keep (old : Local group other) (same : Same group.cv after.cv other)
    (call : after.call other = group.call other) (observed : after.observed other = group.observed other) :
    Local after other where
  free := by rw [call, same.isFree]; exact old.free
  notifies := by rw [call, same.notifying, same.isFree]; exact old.notifies
  waits := by rw [call, same.notifying]; exact old.waits
  isZero := by rw [same.call]; exact old.isZero
  holds := by rw [call, same.user]; exact old.holds
  unlocked := by rw [call, same.debt]; exact old.unlocked
  ready := by rw [call, same.debt]; exact old.ready
  paying := by rw [call, same.debt]; exact old.paying
  observed := by rw [call, same.outcome, observed]; exact old.observed

variable [Fintype π]

structure Inv (home : π → Option κ) (group : WaitGroup π κ) : Prop where
  cv : group.cv.Inv home
  heard : group.cv.Heard home
  each : ∀ party, Local group party

theorem Inv.advance (inv : Inv home group) {label : ConditionVariable.Label π κ Nat}
    (named : label.party? = some party) (stepped : group.cv.step home label = some after.cv)
    (harmless : group.cv.Harmless label) (call : ∀ other, other ≠ party → after.call other = group.call other)
    (observed : ∀ other, other ≠ party → after.observed other = group.observed other)
    (here : Local after party) : Inv home after := by
  refine ⟨inv.cv.step stepped, inv.heard.step inv.cv harmless stepped, fun other => ?_⟩
  by_cases same : other = party
  · exact same ▸ here
  · have away : label.party? ≠ some other := by
      rw [named]
      simpa using Ne.symm same
    have frame := step_frame inv.cv.each stepped away
    exact (inv.each other).keep frame.same (call other same) (observed other same)

/-- A call takes one operation of the condition variable and goes on to `next`. -/
theorem Inv.perform (inv : Inv home group) {label : ConditionVariable.Label π κ Nat} {next : Call}
    (performed : group.perform home party label next = some after) (named : label.party? = some party)
    (harmless : group.cv.Harmless label)
    (here : ∀ cv, group.cv.step home label = some cv → Local ({ group with cv := cv }.enter party next) party) :
    Inv home after := by
  obtain ⟨cv, stepped, rfl⟩ := Option.map_eq_some_iff.mp performed
  refine inv.advance named stepped harmless ?_ (fun _ _ => rfl) (here cv stepped)
  intro other away
  exact Function.update_of_ne away _ _

omit [DecidableEq κ] in
theorem Inv.enter (inv : Inv home group) {call : Call} (here : Local (group.enter party call) party) :
    Inv home (group.enter party call) := by
  refine ⟨inv.cv, inv.heard, fun other => ?_⟩
  by_cases same : other = party
  · exact same ▸ here
  · exact (inv.each other).keep ⟨rfl, rfl, rfl, rfl, rfl, Iff.rfl⟩ (by simp [WaitGroup.enter, same]) rfl

omit [DecidableEq κ] in
theorem Inv.harmless (inv : Inv home group) {count : Nat} (kept : count = 0 → group.count = 0) :
    group.cv.Harmless (.adjust party count) := by
  intro waiter call exposed holds
  have zero : call = WaitGroup.isZero := (inv.each waiter).isZero call (Pc.call_of_exposed exposed)
  subst zero
  simpa [WaitGroup.isZero, WaitGroup.count] using kept (by simpa [WaitGroup.isZero] using holds)

omit [DecidableEq κ] in
theorem Inv.assert (inv : Inv home group) (found : group.call party = .assert) :
    Inv home (group.enter party .decrement) := by
  obtain ⟨free, notifies, waits, isZero, holds, unlocked, ready, paying, observed⟩ := inv.each party
  simp [found, Call.holding] at free notifies waits holds unlocked ready paying observed
  apply inv.enter
  constructor <;> first | exact isZero | simp [WaitGroup.enter, Call.holding, *]

theorem Inv.decrement (inv : Inv home group) {count : Nat} (found : group.call party = .decrement)
    (performed : group.perform home party (.change party count) .lock = some after) : Inv home after := by
  obtain ⟨free, notifies, waits, isZero, holds, unlocked, ready, paying, observed⟩ := inv.each party
  have away : group.cv.user ≠ some party := by
    intro mine
    simpa [found, Call.holding] using holds mine
  refine inv.perform performed rfl trivial ?_
  intro cv stepped
  simp only [ConditionVariable.step, Option.ite_none_right_eq_some, Option.some.injEq] at stepped
  obtain ⟨_, rfl⟩ := stepped
  simp [found, Call.holding] at free notifies waits holds unlocked ready paying observed
  constructor <;> first | exact isZero | simp [WaitGroup.enter, Call.holding, *]

theorem Inv.adjust (inv : Inv home group) {count : Nat} (kept : count = 0 → group.count = 0)
    (found : group.call party = .idle ∨ group.call party = .decrement)
    (performed : group.perform home party (.adjust party count) .idle = some after) : Inv home after := by
  obtain ⟨free, notifies, waits, isZero, holds, unlocked, ready, paying, observed⟩ := inv.each party
  refine inv.perform performed rfl (inv.harmless kept) ?_
  intro cv stepped
  simp only [ConditionVariable.step, Option.ite_none_right_eq_some, Option.some.injEq] at stepped
  obtain ⟨_, rfl⟩ := stepped
  rcases found with found | found
  all_goals
    simp [found, Call.holding] at free notifies waits holds unlocked ready paying observed
    constructor <;> first | exact isZero | simp [WaitGroup.enter, Call.holding, *]

theorem Inv.lock (inv : Inv home group)
    (found : group.call party = .lock ∧ next = .notify ∨ group.call party = .lockWait ∧ next = .callWait)
    (performed : group.perform home party (.lock party) next = some after) : Inv home after := by
  obtain ⟨free, notifies, waits, isZero, holds, unlocked, ready, paying, observed⟩ := inv.each party
  refine inv.perform performed rfl trivial ?_
  intro cv stepped
  simp only [ConditionVariable.step, Option.ite_none_right_eq_some, Option.some.injEq] at stepped
  obtain ⟨_, rfl⟩ := stepped
  rcases found with ⟨found, rfl⟩ | ⟨found, rfl⟩
  all_goals
    simp [found, Call.holding] at free notifies waits holds unlocked ready paying observed
    cases debt : group.cv.debt party <;> simp [debt] at unlocked ready paying <;> constructor <;>
      first | exact isZero | simp [WaitGroup.enter, Call.holding, Debt.locked, *]

theorem Inv.notify (inv : Inv home group) (found : group.call party = .notify)
    (performed : group.perform home party (.notifyAll party) .unlock = some after) : Inv home after := by
  obtain ⟨free, notifies, waits, isZero, holds, unlocked, ready, paying, observed⟩ := inv.each party
  refine inv.perform performed rfl trivial ?_
  intro cv stepped
  simp only [ConditionVariable.step, Option.ite_none_right_eq_some, Option.some.injEq] at stepped
  obtain ⟨_, rfl⟩ := stepped
  simp [found, Call.holding] at free notifies waits holds unlocked ready paying observed
  cases debt : group.cv.debt party <;> simp [debt] at unlocked ready paying <;> constructor <;>
    simp [WaitGroup.enter, goto, Call.holding, Debt.started, Pc.call?, Pc.notifying, *]

theorem Inv.unlock (inv : Inv home group) (found : group.call party = .unlock ∨ group.call party = .unlockWait)
    (performed : group.perform home party (.unlock party) .idle = some after) : Inv home after := by
  obtain ⟨free, notifies, waits, isZero, holds, unlocked, ready, paying, observed⟩ := inv.each party
  refine inv.perform performed rfl trivial ?_
  intro cv stepped
  simp only [ConditionVariable.step, Option.ite_none_right_eq_some, Option.some.injEq] at stepped
  obtain ⟨⟨unused, _⟩, rfl⟩ := stepped
  have unpaid := (inv.cv.each party).not_paying (notifying_of_isFree unused)
  rcases found with found | found
  all_goals
    simp [found, Call.holding] at free notifies waits holds unlocked ready paying observed
    constructor <;> first | exact isZero | simp [WaitGroup.enter, Call.holding, *]

theorem Inv.callWait (inv : Inv home group) (found : group.call party = .callWait)
    (performed : (group.observe party false).perform home party (.wait party WaitGroup.isZero) .unlockWait =
      some after) : Inv home after := by
  obtain ⟨free, notifies, waits, isZero, holds, unlocked, ready, paying, observed⟩ := inv.each party
  obtain ⟨cv, stepped, rfl⟩ := Option.map_eq_some_iff.mp performed
  refine inv.advance rfl stepped trivial (fun other away => by simp [WaitGroup.enter, WaitGroup.observe, away])
    (fun other away => by simp [WaitGroup.enter, WaitGroup.observe, away]) ?_
  simp only [ConditionVariable.step, Option.ite_none_right_eq_some, Option.some.injEq] at stepped
  obtain ⟨_, rfl⟩ := stepped
  simp [found, Call.holding] at free notifies waits holds unlocked ready paying observed
  constructor <;>
    simp [WaitGroup.enter, WaitGroup.observe, goto, Call.holding, Pc.call?, Pc.notifying, Pc.outcome?, *]

theorem Inv.advanceNotify (inv : Inv home group) (found : group.call party = .unlock)
    (busy : (group.cv.pc party).isFree = false)
    (performed : group.perform home party (.advance party false) .unlock = some after) : Inv home after := by
  obtain ⟨_, notifies, _, _, _, unlocked, ready, _, _⟩ := inv.each party
  obtain ⟨cv, stepped, rfl⟩ := Option.map_eq_some_iff.mp performed
  have notifying : (group.cv.pc party).notifying = true := by simpa [busy] using notifies found
  have onward := advance_notify notifying stepped
  have debt := (advance_debt stepped).2
  have none : (cv.pc party).call? = none := by
    cases place : cv.pc party <;> simp [place, Pc.notifying, Pc.isFree] at onward <;> rfl
  refine inv.advance rfl stepped trivial (fun other away => by simp [WaitGroup.enter, away]) (fun _ _ => rfl) ?_
  simp [found] at unlocked ready
  cases owed : group.cv.debt party <;> simp [owed] at unlocked ready debt <;> rcases debt with debt | debt <;>
    constructor <;> simp [WaitGroup.enter, Call.holding, Debt.paid, *]

theorem Inv.advanceWait (inv : Inv home group) (found : group.call party = .unlockWait) {seen : Bool}
    (evaluated : (group.cv.pc party).evaluates = true → seen = decide (group.count = 0 ∧ group.cv.user = some party))
    (kept : (group.cv.pc party).evaluates = false → seen = group.observed party)
    (performed : (group.observe party seen).perform home party (.advance party false) .unlockWait = some after) :
    Inv home after := by
  obtain ⟨_, _, waits, isZero, _, unlocked, ready, paying, observed⟩ := inv.each party
  obtain ⟨cv, stepped, rfl⟩ := Option.map_eq_some_iff.mp performed
  have path := advance_path (waits found) (inv.cv.each party).timely stepped
  have debt := (advance_debt stepped).2
  have answered : ∀ result, (cv.pc party).outcome? = some result → seen = true := by
    intro result known
    rcases path.outcome result known with old | ⟨call, asked, ⟨evaluates, holds⟩ | timed⟩
    · rw [kept, observed found result old]
      cases place : group.cv.pc party <;> simp [place, Pc.outcome?] at old <;> rfl
    · have inside : group.cv.user = some party := by
        apply (inv.cv.each party).inside
        cases place : group.cv.pc party <;> simp [place, Pc.evaluates] at evaluates <;> rfl
      rw [isZero call asked] at holds
      rw [evaluated evaluates, decide_eq_true_eq]
      exact ⟨by simpa [WaitGroup.isZero, WaitGroup.count] using holds, inside⟩
    · rw [isZero call asked] at timed
      cases timed
  have zero : ∀ call, (cv.pc party).call? = some call → call = WaitGroup.isZero :=
    fun call asked => isZero call (path.call call asked)
  have quiet := path.quiet
  refine inv.advance rfl stepped trivial (fun other away => by simp [WaitGroup.enter, WaitGroup.observe, away])
    (fun other away => by simp [WaitGroup.enter, WaitGroup.observe, away]) ?_
  simp [found] at unlocked ready paying
  have unowed : group.cv.debt party = .none := by
    cases owed : group.cv.debt party <;> first | rfl | contradiction
  have settled : cv.debt party = .none := by
    rcases debt with same | paid
    · exact same.trans unowed
    · exact paid.trans (congrArg Debt.paid unowed)
  have seenZero : ∀ result, (cv.pc party).outcome? = some result →
      Function.update group.observed party seen party = true := by
    intro result known
    rw [Function.update_self]
    exact answered result known
  constructor <;> first
    | exact zero
    | exact fun _ => seenZero
    | simp [WaitGroup.enter, WaitGroup.observe, Call.holding, *]

theorem Inv.operate (inv : Inv home group) (operated : group.operate home party = some after) :
    Inv home after := by
  cases found : group.call party with
  | idle => simp [WaitGroup.operate, found] at operated
  | assert =>
      simp only [WaitGroup.operate, found, Option.ite_none_right_eq_some, Option.some.injEq] at operated
      exact operated.2 ▸ inv.assert found
  | decrement =>
      simp only [WaitGroup.operate, found] at operated
      split at operated
      · exact inv.decrement found operated
      · rename_i positive
        exact inv.adjust (fun zero => absurd zero positive) (.inr found) operated
  | lock =>
      simp only [WaitGroup.operate, found] at operated
      exact inv.lock (.inl ⟨found, rfl⟩) operated
  | notify =>
      simp only [WaitGroup.operate, found] at operated
      exact inv.notify found operated
  | unlock =>
      simp only [WaitGroup.operate, found] at operated
      split at operated
      · exact inv.unlock (.inl found) operated
      · rename_i busy
        exact inv.advanceNotify found (by simpa using busy) operated
  | lockWait =>
      simp only [WaitGroup.operate, found] at operated
      exact inv.lock (.inr ⟨found, rfl⟩) operated
  | callWait =>
      simp only [WaitGroup.operate, found] at operated
      exact inv.callWait found operated
  | unlockWait =>
      simp only [WaitGroup.operate, found] at operated
      split at operated
      · exact inv.unlock (.inr found) operated
      · split at operated
        · rename_i evaluates
          exact inv.advanceWait found (fun _ => rfl) (by simp [evaluates]) operated
        · rename_i evaluates
          have same : group.observe party (group.observed party) = group := by
            simp [WaitGroup.observe]
          refine inv.advanceWait found (by simp [evaluates]) (fun _ => rfl) ?_
          rw [same]
          exact operated

theorem Inv.step (inv : Inv home group) (permitted : group.permitted label = true)
    (stepped : group.step home label = some after) : Inv home after := by
  cases label with
  | add party count =>
      simp only [WaitGroup.step, Option.ite_none_right_eq_some] at stepped
      have small : group.count + count < 2 ^ 32 := by simpa [WaitGroup.permitted] using permitted
      rw [Nat.mod_eq_of_lt small] at stepped
      exact inv.adjust (fun zero => by omega) (.inl stepped.1) stepped.2
  | done party | wait party =>
      simp only [WaitGroup.step, Option.ite_none_right_eq_some, Option.some.injEq] at stepped
      obtain ⟨idle, rfl⟩ := stepped
      obtain ⟨free, notifies, waits, isZero, holds, unlocked, ready, paying, observed⟩ := inv.each party
      simp [idle, Call.holding] at free notifies waits holds unlocked ready paying observed
      apply inv.enter
      constructor <;> first | exact isZero | simp [WaitGroup.enter, Call.holding, *]
  | operate party => exact inv.operate stepped
  | external label =>
      simp only [WaitGroup.step, Option.ite_none_right_eq_some] at stepped
      obtain ⟨external, mapped⟩ := stepped
      obtain ⟨cv, moved, rfl⟩ := Option.map_eq_some_iff.mp mapped
      have harmless : group.cv.Harmless label := by cases label <;> trivial
      exact ⟨inv.cv.step moved, inv.heard.step inv.cv harmless moved, fun other =>
        (inv.each other).keep (step_external external moved other) rfl rfl⟩

omit [DecidableEq κ] in
theorem Inv.initial (count : Nat) : Inv home ({ cv := { data := count } } : WaitGroup π κ) where
  cv := .initial count
  heard := fun waiter call exposed => by cases exposed.1
  each := fun party => by constructor <;> simp [Pc.isFree, Pc.call?]

omit [DecidableEq π] [DecidableEq κ] [Fintype π] in
theorem Local.waiting (here : Local group party) {call : WaitCall Nat}
    (exposed : (group.cv.pc party).exposed? = some call) : group.call party = .unlockWait := by
  by_contra other
  have busy : (group.cv.pc party).isFree = false ∧ (group.cv.pc party).notifying = false := by
    cases found : group.cv.pc party <;> simp [found, Pc.exposed?] at exposed <;> exact ⟨rfl, rfl⟩
  by_cases notifies : group.call party = .unlock
  · simpa [busy] using here.notifies notifies
  · simpa [busy] using here.free notifies other

/-- A `done` that has brought the count to zero, and has not notified the
waiter yet. -/
def Notifies (home : π → Option κ) (group : WaitGroup π κ) (notifier waiter : π) : Prop :=
  group.call notifier = .lock ∨ group.call notifier = .notify ∨
    group.call notifier = .unlock ∧ (group.cv.pc notifier).Reaches (home waiter) waiter

omit [DecidableEq π] [DecidableEq κ] [Fintype π] in
theorem Local.notifies_of_covers (here : Local group notifier) {waiter : π}
    (covers : Covers home group.cv notifier waiter) : group.Notifies home notifier waiter := by
  rcases covers with unlocked | ⟨_, ready | ⟨paying, ahead⟩⟩
  · exact .inl (here.unlocked unlocked)
  · exact .inr (.inl (here.ready ready))
  · exact .inr (.inr ⟨here.paying paying, ahead⟩)

theorem inv_of_reachable
    (reachable : ((system home).restrict fun group label => group.permitted label = true).Reachable group) :
    Inv home group := by
  refine reachable.invariant ?_ ?_
  · intro group start
    obtain ⟨count, _, rfl⟩ := start
    exact .initial count
  · intro group label after _ inv moved
    exact inv.step moved.1 moved.2

/-- No waiter is stranded, and `wait` returns only after it has seen zero with
`data_->mutex` held. -/
theorem strands_nobody {home : π → Option κ} {group : WaitGroup π κ}
    (reachable : ((system home).restrict fun group label => group.permitted label = true).Reachable group) :
    (group.count = 0 → ∀ waiter, group.cv.Suspended waiter → group.call waiter = .unlockWait ∧
      ∃ notifier, notifier ≠ waiter ∧ group.Notifies home notifier waiter) ∧
    ∀ party, group.call party = .unlockWait → (group.cv.pc party).isFree = true → group.observed party = true := by
  have inv := inv_of_reachable reachable
  refine ⟨fun zero waiter suspended => ?_, fun party waiting free => ?_⟩
  · obtain ⟨call, exposed⟩ := (inv.cv.each waiter).exposed_of_suspended suspended
    have waiting := (inv.each waiter).waiting exposed.1
    have asked : call = WaitGroup.isZero := (inv.each waiter).isZero call (Pc.call_of_exposed exposed.1)
    subst asked
    obtain ⟨notifier, away, covers⟩ := inv.heard waiter _ exposed (by simpa [isZero, count] using zero)
    exact ⟨waiting, notifier, away, (inv.each notifier).notifies_of_covers covers⟩
  · obtain ⟨result, found⟩ := Pc.eq_free free
    exact (inv.each party).observed waiting result (by rw [found]; rfl)

/-- A fiber waits for a count of one, and a thread has decremented it. -/
theorem strands_nobody_before_notify :
    ∃ group : WaitGroup Bool Unit, group.count = 0 ∧ group.cv.Suspended true ∧ ∃ notifier, notifier ≠ true ∧
      group.Notifies (fun party => if party then some () else none) notifier true := by
  obtain ⟨group, reachable, seen⟩ := System.reachable_of_guarded_replay
    (fun group : WaitGroup Bool Unit => ∃ count < 2 ^ 32, group = { cv := { data := count } })
    (step fun party => if party then some () else none) permitted ⟨1, by decide, rfl⟩
    ([.wait true] ++ List.replicate 10 (.operate true) ++ [.done false, .operate false, .operate false])
    (fun group => decide (group.count = 0 ∧ group.cv.fiber true = .yielded)) (by decide +kernel)
  have seen := of_decide_eq_true seen
  have stranded := (strands_nobody reachable).1 seen.1 true (.inl seen.2)
  exact ⟨group, seen.1, .inl seen.2, stranded.2⟩

end WaitGroup

end MiniMarl
