import MiniMarl.ConditionVariable.Invariant

namespace MiniMarl

namespace Pc

variable {π κ δ : Type}

/-- From a predicate found false to the next evaluation. -/
def exposed? : Pc π κ δ → Option (WaitCall δ)
  | .lockWork call | .release call | .suspend call | .suspended call | .asleep call => some call
  | _ => none

/-- A `notify_all` that has yet to reach a waiter, a fiber if it has a home. -/
def Reaches (home : Option κ) (waiter : π) : Pc π κ δ → Prop
  | .readWaiting | .lockNotify => True
  | .notify rest | .unlockWork _ rest => home = none ∨ waiter ∈ rest
  | .readCondition | .notifyCondition => home = none
  | _ => False

end Pc

namespace ConditionVariable

open Transition

variable {π κ δ : Type}
variable {home : π → Option κ} {state after : ConditionVariable π κ δ} {party other waiter notifier : π}
variable {expired : Bool} {label : Label π κ δ} {call : WaitCall δ}

/-- A waiter that only a notification makes look at its predicate again. -/
def Exposed (state : ConditionVariable π κ δ) (waiter : π) (call : WaitCall δ) : Prop :=
  (state.pc waiter).exposed? = some call ∧ state.fiber waiter ≠ .queued

/-- The notifier is going to notify the waiter. A party that has yet to take
the user's lock comes after every waiter that holds it now; the others only
come after those that have released it. -/
def Covers (home : π → Option κ) (state : ConditionVariable π κ δ) (notifier waiter : π) : Prop :=
  state.debt notifier = .unlocked ∨
    (state.pc waiter).outside = true ∧ (state.debt notifier = .ready ∨
      state.debt notifier = .paying ∧ (state.pc notifier).Reaches (home waiter) waiter)

def Heard (home : π → Option κ) (state : ConditionVariable π κ δ) : Prop :=
  ∀ waiter call, state.Exposed waiter call → call.pred state.data = true →
    ∃ notifier, notifier ≠ waiter ∧ Covers home state notifier waiter

theorem Covers.mono (covers : Covers home state notifier waiter) (debt : after.debt notifier = state.debt notifier)
    (outside : (state.pc waiter).outside = true → (after.pc waiter).outside = true)
    (reaches : state.debt notifier = .paying → (state.pc notifier).Reaches (home waiter) waiter →
      (after.pc notifier).Reaches (home waiter) waiter) : Covers home after notifier waiter := by
  rcases covers with unlocked | ⟨released, ready | ⟨paying, ahead⟩⟩
  · exact .inl (debt.trans unlocked)
  · exact .inr ⟨outside released, .inl (debt.trans ready)⟩
  · exact .inr ⟨outside released, .inr ⟨debt.trans paying, reaches paying ahead⟩⟩

theorem exposed_counted (exposed : (state.pc waiter).exposed? = some call) : (state.pc waiter).counted = true := by
  cases found : state.pc waiter <;> simp [found, Pc.exposed?] at exposed <;> rfl

variable [DecidableEq π]

theorem Local.released (here : Local home state waiter) (exposed : state.Exposed waiter call)
    (unlocked : state.user ≠ some waiter) : (state.pc waiter).outside = true := by
  have inside := here.inside
  have position := exposed.1
  cases found : state.pc waiter <;> simp [found, Pc.exposed?, Pc.inside, Pc.outside] at position inside ⊢
  all_goals exact unlocked inside

/-- An exposed thread sleeps, an exposed fiber has its entry in `waiting_`. -/
theorem Local.exposed_cases (here : Local home state waiter) (exposed : state.Exposed waiter call) :
    state.pc waiter = .asleep call ∧ home waiter = none ∨
      (home waiter).isSome = true ∧ waiter ∈ state.waiting := by
  have position := exposed.1
  have fiber := here.onFiber
  have thread := here.onThread
  have entry := here.registered
  cases found : state.pc waiter <;>
    simp [found, Pc.exposed?, Pc.onFiber, Pc.onThread, Pc.registered] at position fiber thread entry
  case asleep => exact .inl ⟨by rw [position], thread⟩
  all_goals exact .inr ⟨fiber, List.count_pos_iff.mp (by omega)⟩

theorem Frame.exposed (frame : Frame state after waiter) (exposed : after.Exposed waiter call) :
    state.Exposed waiter call ∧ after.pc waiter = state.pc waiter := by
  obtain ⟨position, unqueued⟩ := exposed
  have samePc : after.pc waiter = state.pc waiter := by
    rcases frame.pc with same | roused
    · exact same
    · rw [roused] at position ⊢
      cases found : state.pc waiter <;> simp [found, Pc.roused, Pc.exposed?] at position ⊢
  refine ⟨⟨samePc ▸ position, ?_⟩, samePc⟩
  rcases frame.fiber with same | notified
  · exact same ▸ unqueued
  · intro queued
    rw [notified, queued] at unqueued
    exact unqueued rfl

theorem Frame.reaches (frame : Frame state after notifier) {place : Option κ}
    (ahead : (state.pc notifier).Reaches place waiter) : (after.pc notifier).Reaches place waiter := by
  rcases frame.pc with same | roused
  · exact same ▸ ahead
  · rw [roused]
    cases found : state.pc notifier <;> simp [found, Pc.roused, Pc.Reaches] at ahead ⊢ <;> exact ahead

variable [DecidableEq κ]

theorem advance_exposed (here : Local home state party) (quiet : (state.pc party).notifying = false)
    (moved : state.advance home party expired = some after) (exposed : after.Exposed party call) :
    call.pred state.data = false ∨ state.Exposed party call ∧
      ((state.pc party).outside = true → (after.pc party).outside = true) := by
  obtain ⟨position, unqueued⟩ := exposed
  cases found : state.pc party with
  | check call | test call =>
      simp only [advance, found, Option.some.injEq] at moved
      subst moved
      split at position <;> simp [goto, Pc.exposed?] at position
      rename_i refused
      subst position
      exact .inl (by simpa using refused)
  | lockWork call =>
      obtain ⟨worker, _, _, rfl⟩ := advance_lockWork found moved
      exact .inr ⟨⟨by simpa [goto, found, Pc.exposed?] using position, unqueued⟩, by simp [Pc.outside]⟩
  | release call =>
      simp only [advance, found, Option.some.injEq] at moved
      subst moved
      exact .inr ⟨⟨by simpa [goto, found, Pc.exposed?] using position, unqueued⟩, by simp [Pc.outside]⟩
  | suspend call =>
      simp only [advance, found, Option.bind_eq_some_iff, Option.some.injEq] at moved
      obtain ⟨worker, _, rfl⟩ := moved
      have running : state.fiber party = .running := by
        simpa [found, Pc.isSuspended] using here.fiber
      exact .inr ⟨⟨by simpa [goto, found, Pc.exposed?] using position, by simp [running]⟩, by simp [goto, Pc.outside]⟩
  | free _ | suspended _ | asleep _ => simp [advance, found] at moved
  | evaluate _ | count _ =>
      simp only [advance, found, Option.some.injEq] at moved
      subst moved
      split at position <;> simp [goto, Pc.exposed?] at position
  | unlockList _ | unlockErase _ | countCondition _ | last _ | uncountCondition _ | uncount _ =>
      simp only [advance, found, Option.some.injEq] at moved
      subst moved
      simp [goto, Pc.exposed?] at position
  | lockList _ | lockErase _ =>
      simp only [advance, found, Option.ite_none_right_eq_some, Option.some.injEq] at moved
      obtain ⟨_, rfl⟩ := moved
      simp [goto, Pc.exposed?] at position
  | relock _ | woken _ _ =>
      simp only [advance, found, Option.ite_none_right_eq_some, Option.some.injEq] at moved
      obtain ⟨_, rfl⟩ := moved
      split at position <;> simp [goto, Pc.exposed?] at position
  | resumed _ =>
      simp only [advance, found, Option.bind_eq_some_iff, Option.some.injEq] at moved
      obtain ⟨worker, _, rfl⟩ := moved
      simp [goto, Pc.exposed?] at position
  | readWaiting | lockNotify | notify _ | unlockWork _ _ | readCondition | notifyCondition =>
      simp [found, Pc.notifying] at quiet

/-- A party pays its debt only by the end of a `notify_all`. -/
theorem advance_debt (moved : state.advance home party expired = some after) :
    after.data = state.data ∧
      (after.debt party = state.debt party ∨ after.debt party = (state.debt party).paid) := by
  cases found : state.pc party with
  | free _ | suspended _ | asleep _ => simp [advance, found] at moved
  | evaluate _ | count _ | check _ | test _ | readWaiting | readCondition =>
      simp only [advance, found, Option.some.injEq] at moved
      subst moved
      split <;> simp [goto, finish]
  | unlockList _ | release _ | unlockErase _ | countCondition _ | last _ | uncountCondition _ | uncount _
  | unlockWork _ _ | notifyCondition =>
      simp only [advance, found, Option.some.injEq] at moved
      subst moved
      simp [goto, finish]
  | lockList _ | lockErase _ | lockNotify | relock _ | woken _ _ =>
      simp only [advance, found, Option.ite_none_right_eq_some, Option.some.injEq] at moved
      obtain ⟨_, rfl⟩ := moved
      simp [goto]
  | lockWork _ =>
      obtain ⟨worker, _, _, rfl⟩ := advance_lockWork found moved
      simp [goto]
  | suspend _ | resumed _ =>
      simp only [advance, found, Option.bind_eq_some_iff, Option.some.injEq] at moved
      obtain ⟨worker, _, rfl⟩ := moved
      simp [goto]
  | notify rest =>
      cases rest with
      | nil =>
          simp only [advance, found, Option.some.injEq] at moved
          subst moved
          simp [goto]
      | cons next rest =>
          obtain ⟨worker, _, _, rfl⟩ := advance_notify_cons found moved
          simp [goto]

theorem advance_notifying (notifying : (state.pc party).notifying = true)
    (moved : state.advance home party expired = some after) : (after.pc party).exposed? = none := by
  cases found : state.pc party with
  | readWaiting | readCondition =>
      simp only [advance, found, Option.some.injEq] at moved
      subst moved
      split <;> simp [goto, finish, Pc.exposed?]
  | lockNotify =>
      simp only [advance, found, Option.ite_none_right_eq_some, Option.some.injEq] at moved
      obtain ⟨_, rfl⟩ := moved
      simp [goto, Pc.exposed?]
  | unlockWork _ _ | notifyCondition =>
      simp only [advance, found, Option.some.injEq] at moved
      subst moved
      simp [goto, finish, Pc.exposed?]
  | notify rest =>
      cases rest with
      | nil =>
          simp only [advance, found, Option.some.injEq] at moved
          subst moved
          simp [goto, Pc.exposed?]
      | cons next rest =>
          obtain ⟨worker, _, _, rfl⟩ := advance_notify_cons found moved
          simp [goto, Pc.exposed?]
  | _ => simp [found, Pc.notifying] at notifying

variable [Fintype π]

omit [DecidableEq κ] in
/-- A waiter is counted until its wait returns, so that a `notify_all` that
could reach it does not return early. -/
theorem Inv.numWaiting_pos (inv : Inv home state) (exposed : state.Exposed waiter call) : 0 < state.numWaiting := by
  have part := Finset.single_le_sum (fun party _ => Int.natCast_nonneg (state.pc party).counted.toNat)
    (Finset.mem_univ waiter)
  rw [← inv.numWaiting, exposed_counted exposed.1] at part
  exact part

omit [DecidableEq κ] in
theorem Inv.onCondition_pos (inv : Inv home state) (asleep : state.pc waiter = .asleep call) :
    0 < state.numWaitingOnCondition := by
  have part := Finset.single_le_sum (fun party _ => Int.natCast_nonneg (state.pc party).countedOnCondition.toNat)
    (Finset.mem_univ waiter)
  rw [← inv.numWaitingOnCondition, asleep] at part
  exact part

omit [DecidableEq κ] in
/-- `Worker::enqueue` waits for the mutex that a waiter takes before it
releases the user's lock, and so finds the waiter suspended. -/
theorem Inv.notified_not_exposed (inv : Inv home state) (lives : home waiter = some worker)
    (unlocked : state.work worker = none) (exposed : state.Exposed waiter call)
    (released : (state.pc waiter).outside = true)
    (unqueued : Function.update state.fiber waiter (state.fiber waiter).notified waiter ≠ .queued) : False := by
  have here := inv.each waiter
  have position := exposed.1
  cases found : state.pc waiter <;> simp [found, Pc.exposed?, Pc.outside] at position released
  case suspend =>
    have held := here.work worker (by simp [found, Pc.holdsWork, lives])
    rw [unlocked] at held
    cases held
  case suspended =>
    have stopped := here.fiber.mpr (by simp [found, Pc.isSuspended])
    cases fiber : state.fiber waiter <;> simp [fiber, Fiber.State.notified] at stopped unqueued
  case asleep =>
    have thread := here.onThread (by simp [found, Pc.onThread])
    simp [lives] at thread

/-- What a step of `notify_all` leaves to do for a waiter that it was going to
reach. -/
theorem Inv.advance_reaches (inv : Inv home state) (notifying : (state.pc party).notifying = true)
    (moved : state.advance home party expired = some after) (away : waiter ≠ party)
    (exposed : after.Exposed waiter call) (released : (state.pc waiter).outside = true)
    (ahead : (state.pc party).Reaches (home waiter) waiter) :
    after.debt party = state.debt party ∧ (after.pc party).Reaches (home waiter) waiter := by
  obtain ⟨was, same⟩ := (advance_frame (inv.each party) moved away).exposed exposed
  have kind := (inv.each waiter).exposed_cases was
  cases found : state.pc party with
  | readWaiting =>
      have some := inv.numWaiting_pos was
      simp only [advance, found, Option.some.injEq] at moved
      rw [if_neg (by omega)] at moved
      subst moved
      simp [goto, Pc.Reaches]
  | lockNotify =>
      simp only [advance, found, Option.ite_none_right_eq_some, Option.some.injEq] at moved
      obtain ⟨_, rfl⟩ := moved
      refine ⟨rfl, ?_⟩
      simp only [goto, Function.update_self, Pc.Reaches]
      rcases kind with ⟨_, thread⟩ | ⟨_, entry⟩
      · exact .inl thread
      · exact .inr entry
  | notify rest =>
      rw [found] at ahead
      cases rest with
      | nil =>
          simp only [advance, found, Option.some.injEq] at moved
          subst moved
          simpa [goto, Pc.Reaches] using ahead
      | cons next rest =>
          obtain ⟨worker, lives, unlocked, rfl⟩ := advance_notify_cons found moved
          have missed : waiter ≠ next := by
            intro reached
            subst reached
            exact inv.notified_not_exposed lives unlocked was released exposed.2
          simpa [goto, Pc.Reaches, missed] using ahead
  | unlockWork worker rest =>
      simp only [advance, found, Option.some.injEq] at moved
      subst moved
      simpa [goto, found, Pc.Reaches] using ahead
  | readCondition =>
      have thread : home waiter = none := by simpa [found, Pc.Reaches] using ahead
      rcases kind with ⟨asleep, _⟩ | ⟨fiber, _⟩
      · simp only [advance, found, Option.some.injEq] at moved
        rw [if_pos (inv.onCondition_pos asleep)] at moved
        subst moved
        simpa [goto, Pc.Reaches] using thread
      · simp [thread] at fiber
  | notifyCondition =>
      have thread : home waiter = none := by simpa [found, Pc.Reaches] using ahead
      simp only [advance, found, Option.some.injEq] at moved
      subst moved
      rcases kind with ⟨asleep, _⟩ | ⟨fiber, _⟩
      · simp [finish, away, asleep, Pc.roused] at same
      · simp [thread] at fiber
  | _ => simp [found, Pc.notifying] at notifying

theorem Heard.advance (heard : Heard home state) (inv : Inv home state)
    (moved : state.advance home party expired = some after) : Heard home after := by
  intro waiter call exposed holds
  obtain ⟨data, debt⟩ := advance_debt moved
  rw [data] at holds
  by_cases own : waiter = party
  · subst own
    cases quiet : (state.pc waiter).notifying with
    | true =>
        have position := exposed.1
        rw [advance_notifying quiet moved] at position
        cases position
    | false =>
        rcases advance_exposed (inv.each waiter) quiet moved exposed with refused | ⟨was, outside⟩
        · rw [refused] at holds
          cases holds
        · obtain ⟨notifier, away, covers⟩ := heard waiter call was holds
          have frame := advance_frame (inv.each waiter) moved away
          exact ⟨notifier, away, covers.mono frame.debt outside fun _ => frame.reaches⟩
  · have frame := advance_frame (inv.each party) moved own
    obtain ⟨was, same⟩ := frame.exposed exposed
    obtain ⟨notifier, away, covers⟩ := heard waiter call was holds
    refine ⟨notifier, away, ?_⟩
    by_cases mine : notifier = party
    · subst mine
      rcases covers with unlocked | ⟨released, ready | ⟨paying, ahead⟩⟩
      · have kept : after.debt notifier = .unlocked := by simpa [unlocked, Debt.paid] using debt
        exact .inl kept
      · have kept : after.debt notifier = .ready := by simpa [ready, Debt.paid] using debt
        exact .inr ⟨same ▸ released, .inl kept⟩
      · have notifying := (inv.each notifier).paying paying
        obtain ⟨kept, still⟩ := inv.advance_reaches notifying moved own exposed released ahead
        exact .inr ⟨same ▸ released, .inr ⟨kept.trans paying, still⟩⟩
    · have untouched := advance_frame (inv.each party) moved mine
      exact covers.mono untouched.debt (fun released => same ▸ released) fun _ => untouched.reaches

omit [DecidableEq κ] [Fintype π] in
/-- A step that exposes nobody, and after which its party still covers whom it
covered. -/
theorem Heard.keep (heard : Heard home state) (party : π) (data : after.data = state.data)
    (frame : ∀ other, other ≠ party → Frame state after other) (own : (after.pc party).exposed? = none ∨
      after.fiber party = .queued)
    (covers : ∀ waiter call, state.Exposed waiter call → Covers home state party waiter →
      after.pc waiter = state.pc waiter → Covers home after party waiter) : Heard home after := by
  intro waiter call exposed holds
  have away : waiter ≠ party := by
    intro same
    subst same
    rcases own with hidden | queued
    · have position := exposed.1
      rw [hidden] at position
      cases position
    · exact exposed.2 queued
  obtain ⟨was, same⟩ := (frame waiter away).exposed exposed
  obtain ⟨notifier, other, covered⟩ := heard waiter call was (data ▸ holds)
  refine ⟨notifier, other, ?_⟩
  by_cases mine : notifier = party
  · subst mine
    exact covers waiter call was covered same
  · have untouched := frame notifier mine
    exact covered.mono untouched.debt (fun released => same ▸ released) fun _ => untouched.reaches

/-- A change that no `notify_all` follows makes no predicate true. -/
def Harmless (state : ConditionVariable π κ δ) : Label π κ δ → Prop
  | .adjust _ data => ∀ waiter call, (state.pc waiter).exposed? = some call → call.pred data = true →
      call.pred state.data = true
  | _ => True

omit [DecidableEq π] [DecidableEq κ] [Fintype π] in
theorem exposed_of_isFree (free : (state.pc party).isFree = true) : (state.pc party).exposed? = none := by
  obtain ⟨result, found⟩ := Pc.eq_free free
  rw [found]
  rfl

omit [DecidableEq κ] [Fintype π] in
theorem Local.not_paying (here : Local home state party) (quiet : (state.pc party).notifying = false) :
    state.debt party ≠ .paying := by
  intro paying
  rw [here.paying paying] at quiet
  cases quiet

omit [DecidableEq π] [DecidableEq κ] [Fintype π] in
theorem notifying_of_isFree (free : (state.pc party).isFree = true) : (state.pc party).notifying = false := by
  obtain ⟨result, found⟩ := Pc.eq_free free
  rw [found]
  rfl

theorem Heard.step (heard : Heard home state) (inv : Inv home state) (harmless : state.Harmless label)
    (stepped : state.step home label = some after) : Heard home after := by
  have frame : ∀ other, label.party? ≠ some other → Frame state after other :=
    fun _ away => step_frame inv.each stepped away
  cases label with
  | advance party expired => exact heard.advance inv stepped
  | lock party =>
      simp only [ConditionVariable.step, Option.ite_none_right_eq_some, Option.some.injEq] at stepped
      obtain ⟨⟨free, unlocked⟩, rfl⟩ := stepped
      refine heard.keep party rfl (fun other away => frame other (by simp [Label.party?, Ne.symm away]))
        (.inl (exposed_of_isFree free)) ?_
      intro waiter call was covers same
      -- nobody holds the lock, so every exposed waiter has released it
      have released := (inv.each waiter).released was (by simp [unlocked])
      have quiet := (inv.each party).not_paying (notifying_of_isFree free)
      refine .inr ⟨released, .inl ?_⟩
      rcases covers with owed | ⟨_, owed | ⟨paying, _⟩⟩
      · simp [owed, Debt.locked]
      · simp [owed, Debt.locked]
      · exact absurd paying quiet
  | unlock party =>
      simp only [ConditionVariable.step, Option.ite_none_right_eq_some, Option.some.injEq] at stepped
      obtain ⟨⟨free, _⟩, rfl⟩ := stepped
      exact heard.keep party rfl (fun other away => frame other (by simp [Label.party?, Ne.symm away]))
        (.inl (exposed_of_isFree free)) fun _ _ _ covers _ => covers
  | change party data =>
      simp only [ConditionVariable.step, Option.ite_none_right_eq_some, Option.some.injEq] at stepped
      obtain ⟨free, rfl⟩ := stepped
      intro waiter call exposed _
      have away : party ≠ waiter := by
        intro same
        subst same
        have hidden := exposed.1
        simp [exposed_of_isFree free] at hidden
      refine ⟨party, away, ?_⟩
      by_cases locked : state.user = some party
      · have released := (inv.each waiter).released exposed (by simp [locked, away])
        exact .inr ⟨released, .inl (by simp [locked])⟩
      · exact .inl (by simp [locked])
  | adjust party data =>
      simp only [ConditionVariable.step, Option.ite_none_right_eq_some, Option.some.injEq] at stepped
      obtain ⟨_, rfl⟩ := stepped
      intro waiter call exposed holds
      exact heard waiter call exposed (harmless waiter call exposed.1 holds)
  | wait party call =>
      simp only [ConditionVariable.step, Option.ite_none_right_eq_some, Option.some.injEq] at stepped
      obtain ⟨⟨free, _⟩, rfl⟩ := stepped
      have quiet := (inv.each party).not_paying (notifying_of_isFree free)
      exact heard.keep party rfl (fun other away => frame other (by simp [Label.party?, Ne.symm away]))
        (.inl (by simp [goto, Pc.exposed?])) fun _ _ _ covers same =>
          covers.mono rfl (fun released => same ▸ released) fun paying => absurd paying quiet
  | notifyAll party =>
      simp only [ConditionVariable.step, Option.ite_none_right_eq_some, Option.some.injEq] at stepped
      obtain ⟨free, rfl⟩ := stepped
      have quiet := (inv.each party).not_paying (notifying_of_isFree free)
      refine heard.keep party rfl (fun other away => frame other (by simp [Label.party?, Ne.symm away]))
        (.inl (by simp [goto, Pc.exposed?])) ?_
      intro waiter call was covers same
      rcases covers with owed | ⟨released, owed | ⟨paying, _⟩⟩
      · exact .inl (by simp [owed, Debt.started])
      · exact .inr ⟨same ▸ released, .inr ⟨by simp [owed, Debt.started], by simp [goto, Pc.Reaches]⟩⟩
      · exact absurd paying quiet
  | lockWorker worker | unlockWorker worker =>
      simp only [ConditionVariable.step, Option.ite_none_right_eq_some, Option.some.injEq] at stepped
      obtain ⟨_, rfl⟩ := stepped
      exact heard
  | resume party =>
      obtain ⟨worker, call, _, position, _, _, rfl⟩ := step_resume stepped
      have quiet : state.debt party ≠ .paying := by
        apply (inv.each party).not_paying
        rw [position]
        rfl
      exact heard.keep party rfl (fun other away => frame other (by simp [Label.party?, Ne.symm away]))
        (.inl (by simp [goto, Pc.exposed?])) fun _ _ _ covers same =>
          covers.mono rfl (fun released => same ▸ released) fun paying => absurd paying quiet
  | timeout party =>
      obtain ⟨_, rfl⟩ := step_timeout stepped
      exact heard.keep party rfl (fun other away => frame other (by simp [Label.party?, Ne.symm away]))
        (.inr (by simp)) fun _ _ _ covers _ => covers
  | wake party timedOut =>
      obtain ⟨call, position, _, rfl⟩ := step_wake stepped
      have quiet : state.debt party ≠ .paying := by
        apply (inv.each party).not_paying
        rw [position]
        rfl
      exact heard.keep party rfl (fun other away => frame other (by simp [Label.party?, Ne.symm away]))
        (.inl (by simp [goto, Pc.exposed?])) fun _ _ _ covers same =>
          covers.mono rfl (fun released => same ▸ released) fun paying => absurd paying quiet

/-- The data only changes under the user's lock, and a `notify_all` of the same
party follows each change. -/
def disciplined (state : ConditionVariable π κ δ) : Label π κ δ → Bool
  | .change party _ => decide (state.user = some party)
  | .adjust _ _ => false
  | _ => true

/-- A fiber that is Yielded or Waiting, or a thread asleep on `condition_`. -/
def Suspended (state : ConditionVariable π κ δ) (waiter : π) : Prop :=
  state.fiber waiter = .yielded ∨ state.fiber waiter = .waiting ∨ (state.pc waiter).asleep?.isSome = true

/-- The notifier has made a change, and the `notify_all` that follows it has
not started, or has not reached the waiter yet. -/
def WillNotify (home : π → Option κ) (state : ConditionVariable π κ δ) (notifier waiter : π) : Prop :=
  state.debt notifier = .unlocked ∨ state.debt notifier = .ready ∨
    state.debt notifier = .paying ∧ (state.pc notifier).Reaches (home waiter) waiter

omit [DecidableEq π] [DecidableEq κ] [Fintype π] in
theorem Covers.willNotify (covers : Covers home state notifier waiter) : WillNotify home state notifier waiter := by
  rcases covers with unlocked | ⟨_, ready | paying⟩
  · exact .inl unlocked
  · exact .inr (.inl ready)
  · exact .inr (.inr paying)

omit [DecidableEq κ] [Fintype π] in
theorem Local.exposed_of_suspended (here : Local home state waiter) (suspended : state.Suspended waiter) :
    ∃ call, state.Exposed waiter call := by
  have fiber := here.fiber
  rcases suspended with yielded | waiting | asleep
  · cases found : state.pc waiter <;> simp [found, yielded, Pc.isSuspended] at fiber
    exact ⟨_, by rw [found]; rfl, by simp [yielded]⟩
  · cases found : state.pc waiter <;> simp [found, waiting, Pc.isSuspended] at fiber
    exact ⟨_, by rw [found]; rfl, by simp [waiting]⟩
  · cases found : state.pc waiter <;> simp [found, Pc.asleep?, Pc.isSuspended] at asleep fiber
    exact ⟨_, by rw [found]; rfl, by simp [fiber]⟩

omit [DecidableEq κ] in
theorem Inv.idle (inv : Inv home state)
    (returned : ∀ party, (state.pc party).inside = false ∧ (state.pc party).outside = false) :
    state.numWaiting = 0 ∧ state.numWaitingOnCondition = 0 ∧ state.waiting.length = 0 := by
  have uncounted : ∀ party, (state.pc party).counted = false ∧ (state.pc party).countedOnCondition = false ∧
      (state.pc party).registered = false := by
    intro party
    have away := returned party
    cases found : state.pc party <;> simp [found, Pc.inside, Pc.outside] at away <;> exact ⟨rfl, rfl, rfl⟩
  refine ⟨?_, ?_, ?_⟩
  · rw [inv.numWaiting]
    exact Finset.sum_eq_zero fun party _ => by rw [(uncounted party).1]; rfl
  · rw [inv.numWaitingOnCondition]
    exact Finset.sum_eq_zero fun party _ => by rw [(uncounted party).2.1]; rfl
  · rw [List.length_eq_zero_iff, List.eq_nil_iff_forall_not_mem]
    intro party member
    have entry := (inv.each party).registered
    rw [(uncounted party).2.2] at entry
    exact List.count_eq_zero.mp entry member

theorem heard_of_reachable {Allowed : ConditionVariable π κ δ → Label π κ δ → Prop}
    (harmless : ∀ state label, Allowed state label → state.Harmless label)
    (reachable : ((system home).restrict Allowed).Reachable state) : Heard home state := by
  refine reachable.invariant ?_ ?_
  · intro state start
    obtain ⟨data, rfl⟩ := start
    intro waiter call exposed
    cases exposed.1
  · intro state label after before heard moved
    exact heard.step (inv_of_reachable before.unrestrict) (harmless state label moved.1) moved.2

/-- No wake-up through `notify_all` is lost. -/
theorem notified_of_reachable {home : π → Option κ} {state : ConditionVariable π κ δ}
    (reachable : ((system home).restrict fun state label => state.disciplined label = true).Reachable state) :
    (∀ waiter, state.Suspended waiter → ∃ call, (state.pc waiter).exposed? = some call ∧
      (call.pred state.data = true → ∃ notifier, notifier ≠ waiter ∧ WillNotify home state notifier waiter)) ∧
    ((∀ party, (state.pc party).inside = false ∧ (state.pc party).outside = false) →
      state.numWaiting = 0 ∧ state.numWaitingOnCondition = 0 ∧ state.waiting.length = 0) := by
  have inv := inv_of_reachable reachable.unrestrict
  have heard : Heard home state := by
    refine heard_of_reachable (fun state label permitted => ?_) reachable
    cases label <;> trivial
  refine ⟨fun waiter suspended => ?_, inv.idle⟩
  obtain ⟨call, exposed⟩ := (inv.each waiter).exposed_of_suspended suspended
  refine ⟨call, exposed.1, fun holds => ?_⟩
  obtain ⟨notifier, away, covers⟩ := heard waiter call exposed holds
  exact ⟨notifier, away, covers.willNotify⟩

/-- A fiber waits, and a thread changes the data. -/
theorem notified_before_notify_all :
    ∃ state : ConditionVariable Bool Unit Bool,
      state.Suspended true ∧ ∃ notifier, notifier ≠ true ∧
        WillNotify (fun party => if party then some () else none) state notifier true := by
  obtain ⟨state, reachable, seen⟩ := System.reachable_of_guarded_replay
    (fun state : ConditionVariable Bool Unit Bool => ∃ data, state = { data := data })
    (step fun party => if party then some () else none) disciplined ⟨false, rfl⟩
    ([.lock true, .wait true ⟨id, false⟩] ++ List.replicate 8 (.advance true false) ++
      [.unlockWorker (), .lock false, .change false true])
    (fun state => decide (state.fiber true = .yielded) &&
      (state.pc true).exposed?.all (fun call => call.pred state.data)) (by decide +kernel)
  simp only [Bool.and_eq_true, decide_eq_true_eq] at seen
  obtain ⟨call, position, notified⟩ := (notified_of_reachable reachable).1 true (.inl seen.1)
  rw [position] at seen
  exact ⟨state, .inl seen.1, notified seen.2⟩

end ConditionVariable

end MiniMarl
