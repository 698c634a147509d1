import MiniMarl.ConditionVariable.Wakeup

namespace MiniMarl

namespace Pc

variable {π κ δ : Type}

/-- The wait that a party is in, before its result is known. -/
def call? : Pc π κ δ → Option (WaitCall δ)
  | .evaluate call | .count call | .lockList call | .unlockList call | .check call | .lockWork call
  | .release call | .suspend call | .suspended call | .resumed call | .relock call | .countCondition call
  | .test call | .asleep call | .woken call _ | .last call => some call
  | _ => none

/-- The result of a wait, once it is known. -/
def outcome? : Pc π κ δ → Option Bool
  | .lockErase result | .unlockErase result | .uncountCondition result | .uncount result | .free result => some result
  | _ => none

/-- The next operation reads the predicate. -/
def evaluates : Pc π κ δ → Bool
  | .evaluate _ | .check _ | .test _ | .last _ => true
  | _ => false

theorem call_of_exposed {pc : Pc π κ δ} (exposed : pc.exposed? = some call) : pc.call? = some call := by
  cases pc <;> simp [exposed?] at exposed <;> simp [call?, exposed]

end Pc

namespace ConditionVariable

variable {π κ δ : Type} [DecidableEq π] [DecidableEq κ]
variable {home : π → Option κ} {state after : ConditionVariable π κ δ} {party other : π} {expired : Bool}
variable {label : Label π κ δ} {call : WaitCall δ} {result : Bool}

attribute [local simp] Pc.call? Pc.outcome? Pc.evaluates Pc.notifying

/-- Inside of one wait, a result is either there already, or the predicate has
just been found true, or a deadline has passed. -/
structure Path (state after : ConditionVariable π κ δ) (party : π) : Prop where
  call : ∀ call, (after.pc party).call? = some call → (state.pc party).call? = some call
  outcome : ∀ result, (after.pc party).outcome? = some result →
    (state.pc party).outcome? = some result ∨ ∃ call, (state.pc party).call? = some call ∧
      ((state.pc party).evaluates = true ∧ call.pred state.data = true ∨ call.timed = true)
  quiet : (after.pc party).notifying = false

omit [DecidableEq π] [DecidableEq κ] in
theorem Path.goes {pc next : Pc π κ δ} (found : state.pc party = pc) (goes : after.pc party = next)
    (call : ∀ call, next.call? = some call → pc.call? = some call)
    (outcome : ∀ result, next.outcome? = some result → pc.outcome? = some result ∨
      ∃ call, pc.call? = some call ∧ (pc.evaluates = true ∧ call.pred state.data = true ∨ call.timed = true))
    (quiet : next.notifying = false) : Path state after party := by
  subst found goes
  exact ⟨call, outcome, quiet⟩

theorem advance_path (quiet : (state.pc party).notifying = false) (timely : (state.pc party).timely = true)
    (moved : state.advance home party expired = some after) : Path state after party := by
  cases found : state.pc party with
  | free _ | suspended _ | asleep _ => simp [advance, found] at moved
  | evaluate call | check call | test call =>
      simp only [advance, found, Option.some.injEq] at moved
      subst moved
      split
      · rename_i holds
        exact .goes found (Function.update_self ..) (by simp) (fun _ _ => .inr ⟨call, rfl, .inl ⟨rfl, holds⟩⟩) rfl
      · exact .goes found (Function.update_self ..) (fun _ => id) (by simp) rfl
  | count call =>
      simp only [advance, found, Option.some.injEq] at moved
      subst moved
      split
      · exact .goes found (Function.update_self ..) (fun _ => id) (by simp) rfl
      · exact .goes found (Function.update_self ..) (fun _ => id) (by simp) rfl
  | last call =>
      simp only [advance, found, Option.some.injEq] at moved
      subst moved
      have due : call.timed = true := by simpa [found, Pc.timely] using timely
      exact .goes found (Function.update_self ..) (by simp) (fun _ _ => .inr ⟨call, rfl, .inr due⟩) rfl
  | unlockList call | countCondition call | release call =>
      simp only [advance, found, Option.some.injEq] at moved
      subst moved
      exact .goes found (Function.update_self ..) (fun _ => id) (by simp) rfl
  | unlockErase result | uncountCondition result | uncount result =>
      simp only [advance, found, Option.some.injEq] at moved
      subst moved
      exact .goes found (Function.update_self ..) (by simp) (fun _ => .inl) rfl
  | lockList call =>
      simp only [advance, found, Option.ite_none_right_eq_some, Option.some.injEq] at moved
      obtain ⟨_, rfl⟩ := moved
      exact .goes found (Function.update_self ..) (fun _ => id) (by simp) rfl
  | lockErase result =>
      simp only [advance, found, Option.ite_none_right_eq_some, Option.some.injEq] at moved
      obtain ⟨_, rfl⟩ := moved
      exact .goes found (Function.update_self ..) (by simp) (fun _ => .inl) rfl
  | relock call =>
      simp only [advance, found, Option.ite_none_right_eq_some, Option.some.injEq] at moved
      obtain ⟨_, rfl⟩ := moved
      split
      · rename_i late
        have due : call.timed = true := (Bool.and_eq_true_iff.mp late).1
        exact .goes found (Function.update_self ..) (by simp) (fun _ _ => .inr ⟨call, rfl, .inr due⟩) rfl
      · exact .goes found (Function.update_self ..) (fun _ => id) (by simp) rfl
  | woken call timedOut =>
      simp only [advance, found, Option.ite_none_right_eq_some, Option.some.injEq] at moved
      obtain ⟨_, rfl⟩ := moved
      split
      · exact .goes found (Function.update_self ..) (fun _ => id) (by simp) rfl
      · exact .goes found (Function.update_self ..) (fun _ => id) (by simp) rfl
  | lockWork call =>
      obtain ⟨worker, _, _, rfl⟩ := advance_lockWork found moved
      exact .goes found (Function.update_self ..) (fun _ => id) (by simp) rfl
  | suspend call | resumed call =>
      simp only [advance, found, Option.bind_eq_some_iff, Option.some.injEq] at moved
      obtain ⟨worker, _, rfl⟩ := moved
      exact .goes found (Function.update_self ..) (fun _ => id) (by simp) rfl
  | readWaiting | lockNotify | notify _ | unlockWork _ _ | readCondition | notifyCondition =>
      simp [found] at quiet

theorem advance_notify (notifying : (state.pc party).notifying = true)
    (moved : state.advance home party expired = some after) :
    (after.pc party).notifying = true ∨ (after.pc party).isFree = true := by
  cases found : state.pc party with
  | readWaiting | readCondition =>
      simp only [advance, found, Option.some.injEq] at moved
      subst moved
      split <;> simp [goto, finish, Pc.isFree]
  | lockNotify =>
      simp only [advance, found, Option.ite_none_right_eq_some, Option.some.injEq] at moved
      obtain ⟨_, rfl⟩ := moved
      simp [goto]
  | unlockWork _ _ | notifyCondition =>
      simp only [advance, found, Option.some.injEq] at moved
      subst moved
      simp [goto, finish, Pc.isFree]
  | notify rest =>
      cases rest with
      | nil =>
          simp only [advance, found, Option.some.injEq] at moved
          subst moved
          simp [goto]
      | cons next rest =>
          obtain ⟨worker, _, _, rfl⟩ := advance_notify_cons found moved
          simp [goto]
  | _ => simp [found] at notifying

/-- What a step leaves alone of a party whose calls do not go on. -/
structure Same (state after : ConditionVariable π κ δ) (other : π) : Prop where
  call : (after.pc other).call? = (state.pc other).call?
  outcome : (after.pc other).outcome? = (state.pc other).outcome?
  notifying : (after.pc other).notifying = (state.pc other).notifying
  isFree : (after.pc other).isFree = (state.pc other).isFree
  debt : after.debt other = state.debt other
  user : after.user = some other ↔ state.user = some other

omit [DecidableEq κ] in
theorem Frame.same (frame : Frame state after other) : Same state after other := by
  have pc : (after.pc other).call? = (state.pc other).call? ∧
      (after.pc other).outcome? = (state.pc other).outcome? ∧
      (after.pc other).notifying = (state.pc other).notifying ∧
      (after.pc other).isFree = (state.pc other).isFree := by
    rcases frame.pc with same | roused
    · simp [same]
    · rw [roused]
      cases state.pc other <;> simp [Pc.roused, Pc.isFree]
  exact ⟨pc.1, pc.2.1, pc.2.2.1, pc.2.2.2, frame.debt, frame.user⟩

/-- The steps that no call of a party takes by itself. -/
def Label.external : Label π κ δ → Bool
  | .lockWorker _ | .unlockWorker _ | .resume _ | .timeout _ | .wake _ _ => true
  | _ => false

theorem step_external (external : label.external = true) (stepped : state.step home label = some after)
    (other : π) : Same state after other := by
  cases label with
  | lockWorker worker | unlockWorker worker =>
      simp only [step, Option.ite_none_right_eq_some, Option.some.injEq] at stepped
      obtain ⟨_, rfl⟩ := stepped
      constructor <;> rfl
  | resume party =>
      obtain ⟨worker, call, _, found, _, _, rfl⟩ := step_resume stepped
      by_cases here : other = party
      · subst here
        constructor <;> simp [goto, found, Pc.isFree]
      · constructor <;> simp [goto, here]
  | timeout party =>
      obtain ⟨_, rfl⟩ := step_timeout stepped
      constructor <;> rfl
  | wake party timedOut =>
      obtain ⟨call, found, _, rfl⟩ := step_wake stepped
      by_cases here : other = party
      · subst here
        constructor <;> simp [goto, found, Pc.isFree]
      · constructor <;> simp [goto, here]
  | _ => cases external

end ConditionVariable

end MiniMarl
