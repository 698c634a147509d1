import MiniMarl.ConditionVariable.Outcome

namespace MiniMarl.ConditionVariable

open Transition

/-! What `wait_until` returns, on a fiber and on a thread. -/

variable {π κ δ : Type} [DecidableEq π]

/-- The data only changes under the user's lock. -/
def underLock (state : ConditionVariable π κ δ) : Label π κ δ → Bool
  | .change party _ | .adjust party _ => decide (state.user = some party)
  | _ => true

/-- The party has found its deadline passed: a fiber reads the clock when it
has the user's lock again, a thread is told by `std::condition_variable`. -/
def deadlinePassed (state : ConditionVariable π κ δ) (party : π) : Label π κ δ → Bool
  | .advance actor expired =>
      decide (actor = party) &&
        match state.pc party with
        | .relock _ => expired
        | .last _ => true
        | _ => false
  | _ => false

/-- A fiber has the user's lock again, finds its deadline passed, and the
predicate is true. -/
def overlooks (state : ConditionVariable π κ δ) (party : π) : Label π κ δ → Bool
  | .advance actor expired =>
      decide (actor = party) &&
        match state.pc party with
        | .relock call => call.timed && expired && call.pred state.data
        | _ => false
  | _ => false

variable [DecidableEq κ]
variable {home : π → Option κ} {state after : ConditionVariable π κ δ} {party : π} {expired : Bool}
variable {label : Label π κ δ} {labels : List (Label π κ δ)} {call : WaitCall δ} {result : Bool}

omit [DecidableEq π] [DecidableEq κ] in
theorem outcome_of_call {pc : Pc π κ δ} (waits : pc.call? = some call) : pc.outcome? = none := by
  cases pc <;> first | rfl | cases waits

/-- Only the party itself decides what its wait returns. -/
theorem advance_of_decided (each : ∀ party, Local home state party) (stepped : state.step home label = some after)
    (waits : (state.pc party).call? = some call) (decided : (after.pc party).outcome? = some result) :
    ∃ expired, label = .advance party expired := by
  have busy : (state.pc party).isFree = false := by
    cases found : state.pc party <;> simp [found, Pc.call?] at waits <;> rfl
  have open_ := outcome_of_call waits
  by_cases named : label.party? = some party
  · cases label with
    | advance actor expired =>
        cases named
        exact ⟨expired, rfl⟩
    | lock actor | unlock actor | wait actor _ =>
        cases named
        simp [step, busy] at stepped
    | change actor data | adjust actor data | notifyAll actor =>
        cases named
        simp [step, busy] at stepped
    | resume actor | timeout actor | wake actor timedOut =>
        rw [(step_external rfl stepped party).outcome, open_] at decided
        cases decided
    | lockWorker worker | unlockWorker worker => cases named
  · rw [((step_frame each stepped named).same).outcome, open_] at decided
    cases decided

/-- The result is the predicate's value, unless the deadline has decided first. -/
theorem advance_decides (waits : (state.pc party).call? = some call)
    (decided : (after.pc party).outcome? = some result) (moved : state.advance home party expired = some after) :
    (state.pc party).evaluates = true ∧ result = true ∧ call.pred state.data = true ∨
      state.pc party = .last call ∧ result = call.pred state.data ∨
      state.pc party = .relock call ∧ call.timed = true ∧ expired = true ∧ result = false := by
  cases found : state.pc party with
  | evaluate _ | check _ | test _ =>
      simp only [found, Pc.call?, Option.some.injEq] at waits
      subst waits
      simp only [advance, found, Option.some.injEq] at moved
      subst moved
      split at decided
      · rename_i holds
        simp only [goto, Function.update_self, Pc.outcome?, Option.some.injEq] at decided
        simp [Pc.evaluates, holds, ← decided]
      · simp [goto, Pc.outcome?] at decided
  | last _ =>
      simp only [found, Pc.call?, Option.some.injEq] at waits
      subst waits
      simp only [advance, found, Option.some.injEq] at moved
      subst moved
      simp only [goto, Function.update_self, Pc.outcome?, Option.some.injEq] at decided
      exact .inr (.inl ⟨rfl, decided.symm⟩)
  | relock _ =>
      simp only [found, Pc.call?, Option.some.injEq] at waits
      subst waits
      simp only [advance, found, Option.ite_none_right_eq_some, Option.some.injEq] at moved
      obtain ⟨_, rfl⟩ := moved
      split at decided
      · rename_i late
        simp only [Bool.and_eq_true] at late
        simp only [goto, Function.update_self, Pc.outcome?, Option.some.injEq] at decided
        exact .inr (.inr ⟨rfl, late.1, late.2, decided.symm⟩)
      · simp [goto, Pc.outcome?] at decided
  | count _ =>
      simp only [advance, found, Option.some.injEq] at moved
      subst moved
      split at decided <;> simp [goto, Pc.outcome?] at decided
  | unlockList _ | release _ | countCondition _ =>
      simp only [advance, found, Option.some.injEq] at moved
      subst moved
      simp [goto, Pc.outcome?] at decided
  | lockList _ =>
      simp only [advance, found, Option.ite_none_right_eq_some, Option.some.injEq] at moved
      obtain ⟨_, rfl⟩ := moved
      simp [goto, Pc.outcome?] at decided
  | woken _ _ =>
      simp only [advance, found, Option.ite_none_right_eq_some, Option.some.injEq] at moved
      obtain ⟨_, rfl⟩ := moved
      split at decided <;> simp [goto, Pc.outcome?] at decided
  | lockWork _ =>
      obtain ⟨worker, _, _, rfl⟩ := advance_lockWork found moved
      simp [goto, Pc.outcome?] at decided
  | suspend _ | resumed _ =>
      simp only [advance, found, Option.bind_eq_some_iff, Option.some.injEq] at moved
      obtain ⟨worker, _, rfl⟩ := moved
      simp [goto, Pc.outcome?] at decided
  | suspended _ | asleep _ => simp [advance, found] at moved
  | _ => simp [found, Pc.call?] at waits

theorem advance_outcome (inside : (state.pc party).inside = true) (decided : (state.pc party).outcome? = some result)
    (moved : state.advance home party expired = some after) : (after.pc party).outcome? = some result := by
  cases found : state.pc party with
  | lockErase _ =>
      simp only [advance, found, Option.ite_none_right_eq_some, Option.some.injEq] at moved
      obtain ⟨_, rfl⟩ := moved
      simpa [found, goto, Pc.outcome?] using decided
  | unlockErase _ | uncountCondition _ | uncount _ =>
      simp only [advance, found, Option.some.injEq] at moved
      subst moved
      simpa [found, goto, Pc.outcome?] using decided
  | free _ => simp [found, Pc.inside] at inside
  | _ => simp [found, Pc.outcome?] at decided

/-- While a party is inside of a wait with the user's lock, nobody changes what
its predicate reads. -/
theorem step_inside (each : ∀ party, Local home state party) (inside : (state.pc party).inside = true)
    (decided : (state.pc party).outcome? = some result) (allowed : state.underLock label = true)
    (stepped : state.step home label = some after) :
    after.data = state.data ∧ (after.pc party).outcome? = some result := by
  have held := (each party).inside inside
  have busy : (state.pc party).isFree = false := by
    cases found : state.pc party <;> simp [found, Pc.inside] at inside <;> rfl
  have kept (named : label.party? ≠ some party) : (after.pc party).outcome? = some result := by
    rw [((step_frame each stepped named).same).outcome, decided]
  have data : after.data = state.data := by
    cases label with
    | advance actor expired => exact (advance_debt stepped).1
    | change actor data | adjust actor data =>
        have owner : actor = party := by simpa [underLock, held, eq_comm] using allowed
        simp [step, owner, busy] at stepped
    | lock actor | unlock actor =>
        simp only [step, Option.ite_none_right_eq_some, Option.some.injEq] at stepped
        rw [← stepped.2]
    | notifyAll actor | wait actor call =>
        simp only [step, Option.ite_none_right_eq_some, Option.some.injEq] at stepped
        rw [← stepped.2]
        rfl
    | lockWorker worker | unlockWorker worker =>
        simp only [step, Option.ite_none_right_eq_some, Option.some.injEq] at stepped
        rw [← stepped.2]
    | resume actor =>
        obtain ⟨worker, call, _, _, _, _, rfl⟩ := step_resume stepped
        rfl
    | timeout actor =>
        obtain ⟨_, rfl⟩ := step_timeout stepped
        rfl
    | wake actor timedOut =>
        obtain ⟨call, _, _, rfl⟩ := step_wake stepped
        rfl
  refine ⟨data, ?_⟩
  by_cases named : label.party? = some party
  · cases label with
    | advance actor expired =>
        cases named
        exact advance_outcome inside decided stepped
    | resume actor | timeout actor | wake actor timedOut =>
        rw [(step_external rfl stepped party).outcome, decided]
    | lockWorker worker | unlockWorker worker => cases named
    | _ =>
        cases named
        simp [step, busy] at stepped
  · exact kept named

variable [Fintype π]

/-- The steps from the decision of a wait up to its return. -/
def returning (home : π → Option κ) (party : π) : System (ConditionVariable π κ δ) (Label π κ δ) :=
  (system home).restrict fun state label => state.underLock label = true ∧ (state.pc party).inside = true

theorem run_returning (run : (returning home party).Run state labels after)
    (reachable : (system home).Reachable state) (decided : (state.pc party).outcome? = some result) :
    after.data = state.data ∧ (after.pc party).outcome? = some result ∧ (system home).Reachable after := by
  induction run with
  | nil => exact ⟨rfl, decided, reachable⟩
  | snoc _ move ih =>
      obtain ⟨data, outcome, reached⟩ := ih
      obtain ⟨⟨allowed, inside⟩, stepped⟩ := move
      obtain ⟨kept, known⟩ := step_inside (inv_of_reachable reached).each inside outcome allowed stepped
      exact ⟨kept.trans data, known, reached.step stepped⟩

/-- The contract of `wait_until` at the return of a call that `state` and `label`
have decided. -/
def AnswersPredicate (state : ConditionVariable π κ δ) (party : π) (label : Label π κ δ) (call : WaitCall δ)
    (data : δ) (result : Bool) : Prop :=
  (result = true ↔ call.pred data = true) ∧
    (result = false → state.deadlinePassed party label = true ∧ call.pred data = false)

/-- A timed wait meets its contract at its return, on a fiber as on a thread,
exactly when its party has not found the deadline passed with the predicate
true. -/
theorem waitUntil_answers_iff {home : π → Option κ} {state after last : ConditionVariable π κ δ} {party : π}
    {label : Label π κ δ} {labels : List (Label π κ δ)} {call : WaitCall δ} {result : Bool}
    (reachable : ((system home).restrict fun state label => state.underLock label = true).Reachable state)
    (stepped : state.step home label = some after) (waits : (state.pc party).call? = some call)
    (decided : (after.pc party).outcome?.isSome = true) (run : (returning home party).Run after labels last)
    (returned : last.pc party = .free result) :
    AnswersPredicate state party label call last.data result ↔ state.overlooks party label = false := by
  have reached := reachable.unrestrict
  have inv := inv_of_reachable reached
  obtain ⟨value, outcome⟩ := Option.isSome_iff_exists.mp decided
  obtain ⟨data, known, _⟩ := run_returning run (reached.step stepped) outcome
  have same : result = value := by simpa [returned, Pc.outcome?] using known
  subst same
  obtain ⟨expired, rfl⟩ := advance_of_decided inv.each stepped waits outcome
  rw [data, (advance_debt stepped).1]
  unfold AnswersPredicate
  rcases advance_decides waits outcome stepped with ⟨evaluates, rfl, holds⟩ | ⟨timedOut, rfl⟩ | ⟨late, timed, rfl, rfl⟩
  · have elsewhere : state.overlooks party (.advance party expired) = false := by
      cases found : state.pc party <;> simp [found, Pc.evaluates] at evaluates <;> simp [overlooks, found]
    simp [holds, elsewhere]
  · simp [overlooks, deadlinePassed, timedOut]
  · simp [overlooks, deadlinePassed, late, timed]

/-- A fiber (true) in a `wait_until`, and a thread that sets the data. -/
def pair : Bool → Option Unit := fun party => if party then some () else none

/-- The fiber waits, and is woken by the thread with the data set. -/
def wakesFiber : List (Label Bool Unit Bool) :=
  [.lock true, .wait true ⟨id, true⟩] ++ List.replicate 8 (.advance true false) ++
    [.unlockWorker (), .lock false, .change false true, .unlock false, .notifyAll false] ++
    List.replicate 6 (.advance false false) ++ [.lockWorker (), .resume true, .advance true false]

/-- A step between the decision of the fiber's wait and its return. -/
def returningStep (state : ConditionVariable Bool Unit Bool) (label : Label Bool Unit Bool) :
    Option (ConditionVariable Bool Unit Bool) :=
  if state.underLock label && (state.pc true).inside then step pair state label else none

/-- The fiber is in a timed wait, decides with `label`, and comes back with
`result` when the predicate is true. -/
def returnsWith (label : Label Bool Unit Bool) (result : Bool) (state : ConditionVariable Bool Unit Bool) : Bool :=
  (state.pc true).call?.elim false fun call => call.timed && (step pair state label).elim false fun after =>
    (after.pc true).outcome?.isSome &&
      (System.execute returningStep after (List.replicate 3 (.advance true false))).elim false fun last =>
        call.pred last.data && match last.pc true with | .free value => value == result | _ => false

theorem run_of_returnsWith {label : Label Bool Unit Bool} {result : Bool} {state : ConditionVariable Bool Unit Bool}
    (seen : returnsWith label result state = true) : ∃ after last call,
      step pair state label = some after ∧ (state.pc true).call? = some call ∧ call.timed = true ∧
        (after.pc true).outcome?.isSome = true ∧
        (returning pair true).Run after (List.replicate 3 (.advance true false)) last ∧
        last.pc true = .free result ∧ call.pred last.data = true := by
  unfold returnsWith at seen
  cases waits : (state.pc true).call? with
  | none => simp [waits] at seen
  | some call =>
      cases stepped : step pair state label with
      | none => simp [waits, stepped] at seen
      | some after =>
          simp only [waits, stepped, Option.elim_some, Bool.and_eq_true] at seen
          obtain ⟨timed, decided, ends⟩ := seen
          cases executed : System.execute returningStep after (List.replicate 3 (Label.advance true false)) with
          | none =>
              rw [executed] at ends
              cases ends
          | some last =>
              simp only [executed, Option.elim_some, Bool.and_eq_true] at ends
              obtain ⟨holds, ended⟩ := ends
              refine ⟨after, last, call, rfl, rfl, timed, decided, ?_, ?_, holds⟩
              · refine System.run_of_execute _ (fun state label permitted => ?_) executed
                simpa using permitted
              · split at ended
                · rename_i value found
                  rw [found, beq_iff_eq.mp ended]
                · cases ended

/-- The fiber is resumed before its deadline and finds the data set. -/
theorem waitUntil_answers_in_time : ∃ (state last : ConditionVariable Bool Unit Bool) (call : WaitCall Bool),
    last.pc true = .free true ∧
      AnswersPredicate state true (.advance true false : Label Bool Unit Bool) call last.data true := by
  obtain ⟨state, reachable, seen⟩ := System.reachable_of_guarded_replay
    (fun state : ConditionVariable Bool Unit Bool => ∃ data, state = { data := data }) (step pair) underLock
    ⟨false, rfl⟩ (wakesFiber ++ [.advance true false])
    (fun state => returnsWith (.advance true false) true state && !state.overlooks true (.advance true false))
    (by decide +kernel)
  rw [Bool.and_eq_true, Bool.not_eq_true'] at seen
  obtain ⟨after, last, call, stepped, waits, _, decided, run, returned, _⟩ := run_of_returnsWith seen.1
  exact ⟨state, last, call, returned,
    (waitUntil_answers_iff reachable stepped waits decided run returned).mpr seen.2⟩

/-- The fiber is notified in time and resumed too late. -/
theorem waitUntil_overlooks_predicate : ¬∀ (state after last : ConditionVariable Bool Unit Bool)
    (label : Label Bool Unit Bool) (labels : List (Label Bool Unit Bool)) (call : WaitCall Bool) (result : Bool),
    ((system pair).restrict fun state label => state.underLock label = true).Reachable state →
      state.step pair label = some after → (state.pc true).call? = some call → call.timed = true →
      (after.pc true).outcome?.isSome = true → (returning pair true).Run after labels last →
      last.pc true = .free result → AnswersPredicate state true label call last.data result := by
  intro claimed
  obtain ⟨state, reachable, seen⟩ := System.reachable_of_guarded_replay
    (fun state : ConditionVariable Bool Unit Bool => ∃ data, state = { data := data }) (step pair) underLock
    ⟨false, rfl⟩ wakesFiber (returnsWith (.advance true true) false) (by decide +kernel)
  obtain ⟨after, last, call, stepped, waits, timed, decided, run, returned, holds⟩ := run_of_returnsWith seen
  have answers := claimed state after last _ _ call false reachable stepped waits timed decided run returned
  exact absurd (answers.1.mpr holds) (by decide)

end MiniMarl.ConditionVariable
