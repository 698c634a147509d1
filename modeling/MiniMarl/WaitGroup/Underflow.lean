import MiniMarl.Data.Counting
import MiniMarl.WaitGroup

namespace MiniMarl.WaitGroup

open Transition Data

/-- A `WaitGroup` with records: the initial count and all that was added to it,
the calls of `done` that passed the assertion, the decrements and those to zero,
and the calls of `done` that returned true. -/
structure Tally (π κ : Type) where
  group : WaitGroup π κ
  granted : Nat
  passed : Nat := 0
  decrements : Nat := 0
  crossings : Nat := 0
  returned : Nat := 0

/-- A call of `done` that will return true. -/
def Call.returnsTrue : Call → Bool
  | .lock | .notify | .unlock => true
  | _ => false

/-- A call of `done` between its assertion and its decrement. -/
def Call.decrements : Call → Bool
  | .decrement => true
  | _ => false

/-- The next place of a call that stands at `place`, with the count before and after. -/
def Call.Moves (place next : Call) (before after : Nat) : Prop :=
  match place with
  | .idle => False
  | .assert => 0 < before ∧ next = .decrement ∧ after = before
  | .decrement => next = (if decremented before = 0 then .lock else .idle) ∧ after = decremented before
  | .lock => next = .notify ∧ after = before
  | .notify => next = .unlock ∧ after = before
  | .unlock => (next = .idle ∨ next = .unlock) ∧ after = before
  | .lockWait => next = .callWait ∧ after = before
  | .callWait => next = .unlockWait ∧ after = before
  | .unlockWait => (next = .idle ∨ next = .unlockWait) ∧ after = before

section Steps

variable {π κ : Type} [DecidableEq π] [DecidableEq κ] {home : π → Option κ} {group after : WaitGroup π κ} {party : π}
  {label : Label π κ}

/-- What a step of the condition variable makes of the count. -/
def dataAfter (before : Nat) : ConditionVariable.Label π κ Nat → Nat
  | .change _ data | .adjust _ data => data
  | _ => before

theorem step_data {state next : ConditionVariable π κ Nat} {label : ConditionVariable.Label π κ Nat}
    (stepped : state.step home label = some next) : next.data = dataAfter state.data label := by
  cases label with
  | advance actor expired => exact (ConditionVariable.advance_debt stepped).1
  | change actor data | adjust actor data | lock actor | unlock actor | notifyAll actor | wait actor call
  | lockWorker worker | unlockWorker worker =>
      simp only [ConditionVariable.step, Option.ite_none_right_eq_some, Option.some.injEq] at stepped
      rw [← stepped.2]
      rfl
  | resume actor =>
      simp only [ConditionVariable.step, Option.bind_eq_some_iff, Option.ite_none_right_eq_some, Option.some.injEq] at stepped
      obtain ⟨worker, _, call, _, _, rfl⟩ := stepped
      rfl
  | timeout actor =>
      simp only [ConditionVariable.step, Option.bind_eq_some_iff, Option.ite_none_right_eq_some, Option.some.injEq] at stepped
      obtain ⟨worker, _, _, rfl⟩ := stepped
      rfl
  | wake actor timedOut =>
      simp only [ConditionVariable.step, Option.bind_eq_some_iff] at stepped
      obtain ⟨call, _, moved⟩ := stepped
      split at moved
      · cases moved
        rfl
      · cases moved

theorem perform_spec {label : ConditionVariable.Label π κ Nat} {call : Call}
    (performed : group.perform home party label call = some after) :
    after.call = Function.update group.call party call ∧ after.count = dataAfter group.count label := by
  obtain ⟨cv, stepped, rfl⟩ := Option.map_eq_some_iff.mp performed
  exact ⟨rfl, step_data stepped⟩

theorem decrement_spec {count : Nat} (performed : (if count = 0 then group.perform home party (.change party count) .lock
    else group.perform home party (.adjust party count) .idle) = some after) :
    after.call = Function.update group.call party (if count = 0 then .lock else .idle) ∧ after.count = count := by
  split at performed
  · rename_i zero
    rw [if_pos zero]
    exact perform_spec performed
  · rename_i positive
    rw [if_neg positive]
    exact perform_spec performed

theorem operate_spec (operated : group.operate home party = some after) :
    ∃ next, after.call = Function.update group.call party next ∧
      (group.call party).Moves next group.count after.count := by
  cases found : group.call party with
  | idle => simp [WaitGroup.operate, found] at operated
  | assert =>
      simp only [WaitGroup.operate, found, Option.ite_none_right_eq_some, Option.some.injEq] at operated
      obtain ⟨positive, rfl⟩ := operated
      exact ⟨.decrement, rfl, positive, rfl, rfl⟩
  | decrement =>
      simp only [WaitGroup.operate, found] at operated
      obtain ⟨call, count⟩ := decrement_spec operated
      exact ⟨_, call, rfl, count⟩
  | lock | notify | lockWait =>
      simp only [WaitGroup.operate, found] at operated
      obtain ⟨call, count⟩ := perform_spec operated
      exact ⟨_, call, rfl, count⟩
  | callWait =>
      simp only [WaitGroup.operate, found] at operated
      obtain ⟨call, count⟩ := perform_spec operated
      exact ⟨_, call, rfl, count⟩
  | unlock =>
      simp only [WaitGroup.operate, found] at operated
      split at operated
      · obtain ⟨call, count⟩ := perform_spec operated
        exact ⟨_, call, .inl rfl, count⟩
      · obtain ⟨call, count⟩ := perform_spec operated
        exact ⟨_, call, .inr rfl, count⟩
  | unlockWait =>
      simp only [WaitGroup.operate, found] at operated
      split at operated
      · obtain ⟨call, count⟩ := perform_spec operated
        exact ⟨_, call, .inl rfl, count⟩
      · split at operated
        · obtain ⟨call, count⟩ := perform_spec operated
          exact ⟨_, call, .inr rfl, count⟩
        · obtain ⟨call, count⟩ := perform_spec operated
          exact ⟨_, call, .inr rfl, count⟩

end Steps

namespace Tally

variable {π κ : Type} [DecidableEq π] [DecidableEq κ]

/-- The records of a step to `after`. -/
def record (tally : Tally π κ) (after : WaitGroup π κ) : Label π κ → Tally π κ
  | .add _ count => { tally with group := after, granted := tally.granted + count }
  | .operate party =>
      match tally.group.call party with
      | .assert => { tally with group := after, passed := tally.passed + 1 }
      | .decrement =>
          { tally with
            group := after
            decrements := tally.decrements + 1
            crossings := tally.crossings + if decremented tally.group.count = 0 then 1 else 0 }
      | .unlock =>
          { tally with group := after, returned := tally.returned + if after.call party = .idle then 1 else 0 }
      | _ => { tally with group := after }
  | _ => { tally with group := after }

def step (home : π → Option κ) (tally : Tally π κ) (label : Label π κ) : Option (Tally π κ) :=
  (tally.group.step home label).map fun after => tally.record after label

def system (home : π → Option κ) : System (Tally π κ) (Label π κ) :=
  .ofStep (fun tally => ∃ count < 2 ^ 32, tally = { group := { cv := { data := count } }, granted := count }) (step home)

/-- The parties at some place of their calls. -/
def parties [Fintype π] (group : WaitGroup π κ) (place : Call → Bool) : Nat :=
  ∑ party, (place (group.call party)).toNat

/-- A call of `done` checks a count that is larger than the number of calls that
have checked it and not yet decremented it, and no `add` wraps below that number. -/
def guarded [Fintype π] (tally : Tally π κ) : Label π κ → Bool
  | .add _ count => decide (parties tally.group Call.decrements ≤ (tally.group.count + count) % 2 ^ 32)
  | .operate party =>
      match tally.group.call party with
      | .assert => decide (tally.group.count = 0 ∨ parties tally.group Call.decrements < tally.group.count)
      | _ => true
  | _ => true

variable [Fintype π] {home : π → Option κ} {tally next : Tally π κ} {group after : WaitGroup π κ} {party : π}
  {label : Label π κ}

omit [DecidableEq κ] in
theorem parties_update {call : Call} (place : Call → Bool)
    (entered : after.call = Function.update group.call party call) :
    parties after place + (place (group.call party)).toNat = parties group place + (place call).toNat := by
  have change := sum_change (fun party => (place (group.call party)).toNat) (fun party => (place (after.call party)).toNat)
    party (fun other away => by rw [entered, Function.update_of_ne away])
  have here : after.call party = call := by rw [entered, Function.update_self]
  rw [here] at change
  exact change

omit [DecidableEq π] [DecidableEq κ] in
theorem parties_same (place : Call → Bool) (same : after.call = group.call) : parties after place = parties group place := by
  rw [parties, parties, same]

/-- The records agree with the count, and every decrement that is under way
finds a positive count. -/
structure Balanced (tally : Tally π κ) : Prop where
  count : tally.group.count + tally.decrements ≤ tally.granted
  passed : tally.passed = tally.decrements + parties tally.group Call.decrements
  room : parties tally.group Call.decrements ≤ tally.group.count
  crossings : tally.crossings = tally.returned + parties tally.group Call.returnsTrue
  small : tally.group.count < 2 ^ 32

omit [DecidableEq π] [DecidableEq κ] in
theorem le_parties (place : Call → Bool) (here : place (group.call party) = true) : 0 < parties group place := by
  have single := Finset.single_le_sum (f := fun party => (place (group.call party)).toNat)
    (fun _ _ => Nat.zero_le _) (Finset.mem_univ party)
  simp only [here, Bool.toNat_true] at single
  exact single

theorem decremented_eq {count : Nat} (positive : 0 < count) (small : count < 2 ^ 32) : decremented count = count - 1 := by
  have split : count + (2 ^ 32 - 1) = count - 1 + 2 ^ 32 := by omega
  rw [decremented, split, Nat.add_mod_right, Nat.mod_eq_of_lt (by omega)]

omit [DecidableEq κ] in
theorem Balanced.decrement (balanced : tally.Balanced) (found : tally.group.call party = .decrement)
    (call : after.call = Function.update tally.group.call party (if decremented tally.group.count = 0 then .lock else .idle))
    (count : after.count = decremented tally.group.count) : (tally.record after (.operate party)).Balanced := by
  obtain ⟨granted, passed, room, crossings, small⟩ := balanced
  have decrements := parties_update Call.decrements call
  have returnsTrue := parties_update Call.returnsTrue call
  have here : 0 < parties tally.group Call.decrements := le_parties Call.decrements (by rw [found]; rfl)
  rw [decremented_eq (Nat.lt_of_lt_of_le here room) small] at call count decrements returnsTrue
  simp only [found, Call.decrements, Call.returnsTrue, Bool.toNat_true, Bool.toNat_false] at decrements returnsTrue
  have zero : decremented tally.group.count = tally.group.count - 1 :=
    decremented_eq (Nat.lt_of_lt_of_le here room) small
  by_cases last : tally.group.count - 1 = 0
  · simp only [last, if_true, Bool.toNat_true, Bool.toNat_false] at decrements returnsTrue
    constructor <;> simp only [record, found, zero, last, if_true] <;> omega
  · simp only [last, if_false, Bool.toNat_false] at decrements returnsTrue
    constructor <;> simp only [record, found, zero, last, if_false] <;> omega

omit [DecidableEq π] [DecidableEq κ] in
theorem Balanced.keep (balanced : tally.Balanced) (count : after.count = tally.group.count)
    (decrements : parties after Call.decrements = parties tally.group Call.decrements)
    (returnsTrue : parties after Call.returnsTrue = parties tally.group Call.returnsTrue) :
    ({ tally with group := after } : Tally π κ).Balanced where
  count := by rw [count]; exact balanced.count
  passed := by rw [decrements]; exact balanced.passed
  room := by rw [decrements, count]; exact balanced.room
  crossings := by rw [returnsTrue]; exact balanced.crossings
  small := by rw [count]; exact balanced.small

omit [DecidableEq κ] in
/-- One party enters a place that counts as much as the one it leaves. -/
theorem Balanced.enter (balanced : tally.Balanced) {call : Call}
    (entered : after.call = Function.update tally.group.call party call) (count : after.count = tally.group.count)
    (decrements : call.decrements = (tally.group.call party).decrements)
    (returnsTrue : call.returnsTrue = (tally.group.call party).returnsTrue) :
    ({ tally with group := after } : Tally π κ).Balanced := by
  refine balanced.keep count ?_ ?_
  · have change := parties_update Call.decrements entered
    rw [decrements] at change
    omega
  · have change := parties_update Call.returnsTrue entered
    rw [returnsTrue] at change
    omega

theorem Balanced.operate (balanced : tally.Balanced) (allowed : tally.guarded (.operate party) = true)
    (operated : tally.group.operate home party = some after) : (tally.record after (.operate party)).Balanced := by
  obtain ⟨next, call, moves⟩ := operate_spec operated
  cases found : tally.group.call party with
  | idle =>
      rw [found] at moves
      exact moves.elim
  | decrement =>
      rw [found] at moves
      obtain ⟨shape, count⟩ := moves
      exact balanced.decrement found (shape ▸ call) count
  | assert =>
      obtain ⟨granted, passed, room, crossings, small⟩ := balanced
      rw [found] at moves
      obtain ⟨positive, rfl, count⟩ := moves
      have decrements := parties_update Call.decrements call
      have returnsTrue := parties_update Call.returnsTrue call
      simp only [guarded, found, decide_eq_true_eq] at allowed
      simp only [found, Call.decrements, Call.returnsTrue, Bool.toNat_true, Bool.toNat_false] at decrements returnsTrue
      constructor <;> simp only [record, found] <;> omega
  | lock | notify | lockWait | callWait =>
      rw [found] at moves
      obtain ⟨rfl, count⟩ := moves
      have kept := balanced.enter call count (by rw [found]; rfl) (by rw [found]; rfl)
      simpa only [record, found] using kept
  | unlock =>
      rw [found] at moves
      obtain ⟨rfl | rfl, count⟩ := moves
      · obtain ⟨granted, passed, room, crossings, small⟩ := balanced
        have returned : after.call party = .idle := by rw [call, Function.update_self]
        have decrements := parties_update Call.decrements call
        have returnsTrue := parties_update Call.returnsTrue call
        simp only [found, Call.decrements, Call.returnsTrue, Bool.toNat_true, Bool.toNat_false] at decrements returnsTrue
        constructor <;> simp only [record, found, returned, if_true] <;> omega
      · have busy : after.call party ≠ .idle := by
          rw [call, Function.update_self]
          simp
        have kept := balanced.enter call count (by rw [found]) (by rw [found])
        simpa only [record, found, if_neg busy, Nat.add_zero] using kept
  | unlockWait =>
      rw [found] at moves
      obtain ⟨rfl | rfl, count⟩ := moves
      · have kept := balanced.enter call count (by rw [found]; rfl) (by rw [found]; rfl)
        simpa only [record, found] using kept
      · have kept := balanced.enter call count (by rw [found]) (by rw [found])
        simpa only [record, found] using kept

theorem Balanced.step (balanced : tally.Balanced) (allowed : tally.guarded label = true)
    (stepped : tally.step home label = some next) : next.Balanced := by
  obtain ⟨after, moved, rfl⟩ := Option.map_eq_some_iff.mp stepped
  cases label with
  | operate party => exact balanced.operate allowed moved
  | add party count =>
      simp only [WaitGroup.step, Option.ite_none_right_eq_some] at moved
      obtain ⟨idle, performed⟩ := moved
      obtain ⟨call, data⟩ := perform_spec performed
      have above : parties tally.group Call.decrements ≤ (tally.group.count + count) % 2 ^ 32 := by
        simpa only [guarded, decide_eq_true_eq] using allowed
      have below : (tally.group.count + count) % 2 ^ 32 ≤ tally.group.count + count := Nat.mod_le _ _
      have small : (tally.group.count + count) % 2 ^ 32 < 2 ^ 32 := Nat.mod_lt _ (by decide)
      simp only [dataAfter] at data
      have unmoved : after.call = tally.group.call := by rw [call, ← idle, Function.update_eq_self]
      obtain ⟨granted, passed, room, crossings, _⟩ := balanced
      constructor <;> simp only [record, parties_same _ unmoved] <;> omega
  | done party | wait party =>
      simp only [WaitGroup.step, Option.ite_none_right_eq_some, Option.some.injEq] at moved
      obtain ⟨idle, rfl⟩ := moved
      exact balanced.enter rfl rfl (by rw [idle]; rfl) (by rw [idle]; rfl)
  | external label =>
      simp only [WaitGroup.step, Option.ite_none_right_eq_some] at moved
      obtain ⟨external, mapped⟩ := moved
      obtain ⟨cv, moved, rfl⟩ := Option.map_eq_some_iff.mp mapped
      have data : cv.data = tally.group.count := by
        rw [step_data moved]
        cases label <;> first | rfl | cases external
      exact balanced.keep data rfl rfl

theorem balanced_of_reachable
    (reachable : ((system home).restrict fun tally label => tally.guarded label = true).Reachable tally) :
    tally.Balanced := by
  refine reachable.invariant ?_ ?_
  · intro tally start
    obtain ⟨count, small, rfl⟩ := start
    have idle : ∀ place : Call → Bool, place .idle = false →
        parties ({ cv := { data := count } } : WaitGroup π κ) place = 0 := by
      intro place nowhere
      simp [parties, nowhere]
    refine ⟨Nat.le_refl count, ?_, ?_, ?_, small⟩
    · rw [idle Call.decrements rfl]
    · rw [idle Call.decrements rfl]
      exact Nat.zero_le _
    · rw [idle Call.returnsTrue rfl]
  · intro tally label after _ balanced moved
    exact balanced.step moved.1 moved.2

/-- In every run in which each `done` checks a count that the calls under way
leave positive, and no `add` wraps below their number, at most as many calls of
`done` pass the assertion as were granted, a call beyond them stops there, no
decrement finds zero, and the calls that return true are the decrements to zero. -/
theorem surplus_fails
    (reachable : ((system home).restrict fun tally label => tally.guarded label = true).Reachable tally) :
    tally.passed ≤ tally.granted ∧
      (∀ party, tally.group.call party = .decrement → 0 < tally.group.count) ∧
      tally.group.count + tally.decrements ≤ tally.granted ∧
      (∀ party, tally.decrements = tally.granted → tally.group.call party = .assert →
        tally.group.operate home party = none) ∧
      tally.crossings = tally.returned + parties tally.group Call.returnsTrue := by
  have balanced := balanced_of_reachable reachable
  refine ⟨?_, ?_, balanced.count, ?_, balanced.crossings⟩
  · have passed := balanced.passed
    have room := balanced.room
    have count := balanced.count
    omega
  · intro party found
    exact Nat.lt_of_lt_of_le (le_parties Call.decrements (by rw [found]; rfl)) balanced.room
  · intro party all found
    have zero : tally.group.count = 0 := by
      have count := balanced.count
      omega
    simp [WaitGroup.operate, found, zero]

/-- Two threads check a count of two and decrement it both; one of them calls
`done` once more. -/
theorem surplus_fails_twice : ∃ tally : Tally Bool Unit,
    tally.granted = 2 ∧ tally.decrements = 2 ∧ tally.group.call true = .assert ∧ tally.passed ≤ tally.granted ∧
      tally.group.operate (fun _ => none) true = none ∧
      tally.crossings = tally.returned + parties tally.group Call.returnsTrue := by
  obtain ⟨tally, reachable, seen⟩ := System.reachable_of_guarded_replay
    (fun tally : Tally Bool Unit => ∃ count < 2 ^ 32, tally = { group := { cv := { data := count } }, granted := count })
    (step fun _ => none) guarded ⟨1, by decide, rfl⟩
    [.add true 1, .done true, .done false, .operate true, .operate false, .operate true, .operate false, .done true]
    (fun tally => decide (tally.granted = 2 ∧ tally.decrements = 2 ∧ tally.group.call true = .assert))
    (by decide +kernel)
  obtain ⟨granted, decrements, found⟩ := of_decide_eq_true seen
  obtain ⟨passed, _, _, surplus, crossings⟩ := surplus_fails reachable
  exact ⟨tally, granted, decrements, found, passed, surplus true (decrements.trans granted.symm) found, crossings⟩

/-- Two threads check a count of one and decrement it both. -/
theorem surplus_wraps : ∃ tally : Tally Bool Unit, (system fun _ => none).Reachable tally ∧
    tally.granted = 1 ∧ tally.passed = 2 ∧ tally.group.count = 2 ^ 32 - 1 := by
  obtain ⟨tally, reachable, seen⟩ := System.reachable_of_replay
    (fun tally : Tally Bool Unit => ∃ count < 2 ^ 32, tally = { group := { cv := { data := count } }, granted := count })
    (step fun _ => none) ⟨1, by decide, rfl⟩
    [.done true, .done false, .operate true, .operate false, .operate true, .operate false]
    (fun tally => decide (tally.granted = 1 ∧ tally.passed = 2 ∧ tally.group.count = 2 ^ 32 - 1)) (by decide +kernel)
  exact ⟨tally, reachable, of_decide_eq_true seen⟩

end Tally

end MiniMarl.WaitGroup
