import Mathlib.Data.Fintype.Basic
import MiniMarl.Progress

namespace MiniMarl

open Transition

/-! `Scheduler::bind`, `Scheduler::unbind` and the wait of `~Scheduler` for the
threads that are still bound, for any number of threads and schedulers. One step
is one lock, unlock or notification together with the plain code up to the next. -/

namespace Bindings

/-- The next operation of a thread. `unbind` keeps the worker that it has read
from `Worker::current`. -/
inductive Pc (σ : Type) where
  | free
  | bindLock (scheduler : σ)
  | emplace (scheduler : σ)
  | unlockBind (scheduler : σ)
  /-- `worker->stop()`, which returns when the worker has run everything. -/
  | stop (worker : Nat)
  | unbindLock (worker : Nat)
  | erase (worker : Nat)
  | notify
  | unlockUnbind
  | reset
  | destroyLock (scheduler : σ)
  | test (scheduler : σ)
  | asleep (scheduler : σ)
  | woken (scheduler : σ)
  | unlockDestroy (scheduler : σ)
deriving DecidableEq, Repr

namespace Pc

variable {σ : Type}

/-- The scheduler that a `bind` under way is about. -/
def binding? : Pc σ → Option σ
  | .bindLock scheduler | .emplace scheduler | .unlockBind scheduler => some scheduler
  | _ => none

/-- In `unbind`. -/
def unbinding : Pc σ → Bool
  | .stop _ | .unbindLock _ | .erase _ | .notify | .unlockUnbind | .reset => true
  | _ => false

/-- The scheduler whose destructor waits. -/
def destroys? : Pc σ → Option σ
  | .destroyLock scheduler | .test scheduler | .asleep scheduler | .woken scheduler | .unlockDestroy scheduler =>
      some scheduler
  | _ => none

/-- A bound thread has its entry in `by_tid`. -/
def registered : Pc σ → Bool
  | .bindLock _ | .emplace _ | .notify | .unlockUnbind | .reset => false
  | _ => true

/-- The worker of a bound thread is the current one. -/
def working : Pc σ → Bool
  | .bindLock _ | .emplace _ | .unbindLock _ | .erase _ | .notify | .unlockUnbind | .reset => false
  | _ => true

/-- The worker of a bound thread. -/
def worker? (current : Option Nat) : Pc σ → Option Nat
  | .stop worker | .unbindLock worker | .erase worker => some worker
  | _ => current

/-- The `single_threaded_workers_.mutex` that a thread holds. -/
def holds (bound : Option σ) : Pc σ → Option σ
  | .emplace scheduler | .unlockBind scheduler | .test scheduler | .unlockDestroy scheduler => some scheduler
  | .erase _ | .notify | .unlockUnbind => bound
  | _ => none

/-- The scheduler that the next operation reads or writes. -/
def touches (bound : Option σ) : Pc σ → Option σ
  | .free | .asleep _ | .reset => none
  | .stop _ | .unbindLock _ | .erase _ | .notify | .unlockUnbind => bound
  | .bindLock scheduler | .emplace scheduler | .unlockBind scheduler | .destroyLock scheduler | .test scheduler
  | .woken scheduler | .unlockDestroy scheduler => some scheduler

end Pc

end Bindings

/-- `destroying` and `gone` record that a destructor has been called, and that
it is past its wait. -/
structure Bindings (τ σ : Type) where
  bound : τ → Option σ := fun _ => none
  /-- `Worker::current`. -/
  current : τ → Option Nat := fun _ => none
  byTid : σ → τ → Option Nat := fun _ _ => none
  /-- How many workers `bind` has made. -/
  workers : Nat := 0
  mutex : σ → Option τ := fun _ => none
  pc : τ → Bindings.Pc σ := fun _ => .free
  destroying : σ → Bool := fun _ => false
  gone : σ → Bool := fun _ => false

namespace Bindings

inductive Label (τ σ : Type) where
  | bind (thread : τ) (scheduler : σ)
  | unbind (thread : τ)
  | destroy (thread : τ) (scheduler : σ)
  | operate (thread : τ)
  /-- `std::condition_variable` may always wake up. -/
  | wake (thread : τ)

variable {τ σ : Type} [DecidableEq τ] [Fintype τ] [DecidableEq σ]

/-- `by_tid.empty()`. -/
def empty (byTid : σ → τ → Option Nat) (scheduler : σ) : Bool := decide (∀ thread, byTid scheduler thread = none)

def goto (state : Bindings τ σ) (thread : τ) (pc : Pc σ) : Bindings τ σ :=
  { state with pc := Function.update state.pc thread pc }

def lock (state : Bindings τ σ) (thread : τ) (scheduler : σ) (pc : Pc σ) : Option (Bindings τ σ) :=
  if state.mutex scheduler = none then
    some ({ state with mutex := Function.update state.mutex scheduler (some thread) }.goto thread pc)
  else none

def unlock (state : Bindings τ σ) (thread : τ) (scheduler : σ) (pc : Pc σ) : Bindings τ σ :=
  { state with mutex := Function.update state.mutex scheduler none }.goto thread pc

/-- The map after `emplace` or `erase`. -/
def setEntry (byTid : σ → τ → Option Nat) (scheduler : σ) (thread : τ) (entry : Option Nat) : σ → τ → Option Nat :=
  fun place other => if place = scheduler ∧ other = thread then entry else byTid place other

/-- `unbind.notify_one()`. Only the destructor waits for it. -/
def Pc.roused (scheduler : σ) : Pc σ → Pc σ
  | .asleep other => if other = scheduler then .woken other else .asleep other
  | pc => pc

def operate (state : Bindings τ σ) (thread : τ) : Option (Bindings τ σ) :=
  match state.pc thread with
  | .free | .asleep _ => none
  | .bindLock scheduler => state.lock thread scheduler (.emplace scheduler)
  | .emplace scheduler =>
      -- an entry that is there stays
      let entry := (state.byTid scheduler thread).getD state.workers
      some ({ state with
        workers := state.workers + 1
        current := Function.update state.current thread (some state.workers)
        byTid := setEntry state.byTid scheduler thread (some entry) }.goto thread (.unlockBind scheduler))
  | .unlockBind scheduler => some (state.unlock thread scheduler .free)
  | .stop worker =>
      some ({ state with current := Function.update state.current thread none }.goto thread (.unbindLock worker))
  | .unbindLock worker => (state.bound thread).bind fun scheduler => state.lock thread scheduler (.erase worker)
  | .erase worker =>
      (state.bound thread).bind fun scheduler =>
        -- "singleThreadedWorker not found", "worker is not bound?"
        if state.byTid scheduler thread = some worker then
          let byTid := setEntry state.byTid scheduler thread none
          some ({ state with byTid }.goto thread (if empty byTid scheduler then .notify else .unlockUnbind))
        else none
  | .notify =>
      (state.bound thread).map fun scheduler =>
        { state with pc := fun other => (state.pc other).roused scheduler }.goto thread .unlockUnbind
  | .unlockUnbind => (state.bound thread).map fun scheduler => state.unlock thread scheduler .reset
  | .reset => some ({ state with bound := Function.update state.bound thread none }.goto thread .free)
  | .destroyLock scheduler | .woken scheduler => state.lock thread scheduler (.test scheduler)
  | .test scheduler =>
      some (if empty state.byTid scheduler then state.goto thread (.unlockDestroy scheduler)
        else state.unlock thread scheduler (.asleep scheduler))
  | .unlockDestroy scheduler =>
      some ({ state with gone := Function.update state.gone scheduler true }.unlock thread scheduler .free)

def step (state : Bindings τ σ) : Label τ σ → Option (Bindings τ σ)
  | .bind thread scheduler =>
      -- "Scheduler already bound"
      if state.pc thread = .free ∧ state.bound thread = none then
        some ({ state with bound := Function.update state.bound thread (some scheduler) }.goto thread
          (.bindLock scheduler))
      else none
  | .unbind thread =>
      -- "No scheduler bound"
      if state.pc thread = .free ∧ (state.bound thread).isSome then
        (state.current thread).map fun worker => state.goto thread (.stop worker)
      else none
  | .destroy thread scheduler =>
      if state.pc thread = .free then
        some ({ state with destroying := Function.update state.destroying scheduler true }.goto thread
          (.destroyLock scheduler))
      else none
  | .operate thread => state.operate thread
  | .wake thread =>
      match state.pc thread with
      | .asleep scheduler => some (state.goto thread (.woken scheduler))
      | _ => none

/-- What the users promise: a scheduler is destroyed once, after the calls of its
`bind` have returned, and nobody binds to it from then on. -/
def permitted (state : Bindings τ σ) : Label τ σ → Bool
  | .bind _ scheduler => !state.destroying scheduler
  | .destroy _ scheduler =>
      !state.destroying scheduler && decide (∀ thread, (state.pc thread).binding? ≠ some scheduler)
  | _ => true

def system : System (Bindings τ σ) (Label τ σ) :=
  (System.ofStep (· = {}) step).restrict fun state label => state.permitted label = true

/-- What the position of a thread says. -/
structure Local (state : Bindings τ σ) (thread : τ) : Prop where
  entry : ∀ scheduler, state.byTid scheduler thread =
    if state.bound thread = some scheduler ∧ (state.pc thread).registered = true then
      (state.pc thread).worker? (state.current thread) else none
  current : (state.current thread).isSome = ((state.bound thread).isSome && (state.pc thread).working)
  binding : ∀ scheduler, (state.pc thread).binding? = some scheduler →
    state.bound thread = some scheduler ∧ state.destroying scheduler = false
  unbinding : (state.pc thread).unbinding = true → (state.bound thread).isSome = true
  mutex : ∀ scheduler, state.mutex scheduler = some thread ↔
    (state.pc thread).holds (state.bound thread) = some scheduler
  destroys : ∀ scheduler, (state.pc thread).destroys? = some scheduler → state.destroying scheduler = true

structure Inv (state : Bindings τ σ) : Prop where
  each : ∀ thread, Local state thread
  /-- A thread that leaves no entry notifies before it unlocks. -/
  asleep : ∀ thread scheduler, state.pc thread = .asleep scheduler → empty state.byTid scheduler = true →
    ∃ other, state.pc other = .notify ∧ state.bound other = some scheduler
  clear : ∀ thread scheduler, state.pc thread = .unlockDestroy scheduler → empty state.byTid scheduler = true
  gone : ∀ scheduler, state.gone scheduler = true → state.destroying scheduler = true ∧
    ∀ thread, (state.bound thread = some scheduler → state.pc thread = .reset) ∧
      (state.pc thread).destroys? ≠ some scheduler
  ends : ∀ scheduler, state.destroying scheduler = true →
    state.gone scheduler = true ∨ ∃ thread, (state.pc thread).destroys? = some scheduler
  unique : ∀ first second scheduler, (state.pc first).destroys? = some scheduler →
    (state.pc second).destroys? = some scheduler → first = second

variable {state after : Bindings τ σ} {thread other : τ} {scheduler : σ} {label : Label τ σ}

/-- What a step leaves alone of a thread that does not take it. -/
structure Frame (state after : Bindings τ σ) (other : τ) : Prop where
  bound : after.bound other = state.bound other
  current : after.current other = state.current other
  pc : after.pc other = state.pc other ∨ ∃ scheduler, after.pc other = (state.pc other).roused scheduler
  entry : ∀ scheduler, after.byTid scheduler other = state.byTid scheduler other
  mutex : ∀ scheduler, after.mutex scheduler = some other ↔ state.mutex scheduler = some other
  destroying : ∀ scheduler, state.destroying scheduler = true → after.destroying scheduler = true
  binding : ∀ scheduler, (state.pc other).binding? = some scheduler → state.destroying scheduler = false →
    after.destroying scheduler = false

omit [DecidableEq τ] [Fintype τ] in
theorem Pc.roused_same (pc : Pc σ) (scheduler : σ) :
    (pc.roused scheduler).registered = pc.registered ∧ (pc.roused scheduler).working = pc.working ∧
      (pc.roused scheduler).binding? = pc.binding? ∧ (pc.roused scheduler).unbinding = pc.unbinding ∧
      (∀ bound, (pc.roused scheduler).holds bound = pc.holds bound) ∧
      (pc.roused scheduler).destroys? = pc.destroys? ∧
      ∀ current, (pc.roused scheduler).worker? current = pc.worker? current := by
  cases pc with
  | asleep other =>
      simp only [roused]
      split <;> exact ⟨rfl, rfl, rfl, rfl, fun _ => rfl, rfl, fun _ => rfl⟩
  | _ => exact ⟨rfl, rfl, rfl, rfl, fun _ => rfl, rfl, fun _ => rfl⟩

omit [DecidableEq τ] [Fintype τ] in
theorem Pc.roused_ne (pc : Pc σ) (scheduler : σ) : pc.roused scheduler ≠ .asleep scheduler := by
  cases pc with
  | asleep other =>
      simp only [roused]
      split
      · simp
      · rename_i apart
        simpa using apart
  | _ => simp [roused]

omit [DecidableEq τ] [Fintype τ] in
theorem Pc.roused_busy {pc : Pc σ} (scheduler : σ) (busy : ∀ other, pc ≠ .asleep other) :
    pc.roused scheduler = pc := by
  cases pc with
  | asleep other => exact absurd rfl (busy other)
  | _ => rfl

omit [DecidableEq τ] [Fintype τ] in
theorem Pc.eq_of_roused {pc next : Pc σ} (scheduler : σ) (roused : pc.roused scheduler = next)
    (apart : ∀ other, next ≠ .woken other) : pc = next := by
  cases pc with
  | asleep other =>
      simp only [Pc.roused] at roused
      split at roused
      · exact absurd roused.symm (apart other)
      · exact roused
  | _ => exact roused

omit [DecidableEq τ] [Fintype τ] in
theorem Frame.pc_same (frame : Frame state after other) :
    (after.pc other).registered = (state.pc other).registered ∧
      (after.pc other).working = (state.pc other).working ∧ (after.pc other).binding? = (state.pc other).binding? ∧
      (after.pc other).unbinding = (state.pc other).unbinding ∧
      (∀ bound, (after.pc other).holds bound = (state.pc other).holds bound) ∧
      (after.pc other).destroys? = (state.pc other).destroys? ∧
      ∀ current, (after.pc other).worker? current = (state.pc other).worker? current := by
  rcases frame.pc with same | ⟨scheduler, roused⟩
  · rw [same]
    exact ⟨rfl, rfl, rfl, rfl, fun _ => rfl, rfl, fun _ => rfl⟩
  · rw [roused]
    exact Pc.roused_same _ _

omit [DecidableEq τ] [Fintype τ] in
theorem Frame.keeps (frame : Frame state after other) (old : Local state other) : Local after other := by
  obtain ⟨registered, working, binding, unbinding, holds, destroys, worker⟩ := frame.pc_same
  refine ⟨fun scheduler => ?_, ?_, fun scheduler under => ?_, ?_, fun scheduler => ?_, fun scheduler under => ?_⟩
  · rw [frame.entry, frame.bound, registered, worker, frame.current]
    exact old.entry scheduler
  · rw [frame.current, working, frame.bound]
    exact old.current
  · rw [binding] at under
    obtain ⟨bound, alive⟩ := old.binding scheduler under
    exact ⟨frame.bound.trans bound, frame.binding scheduler under alive⟩
  · rw [unbinding, frame.bound]
    exact old.unbinding
  · rw [frame.mutex, holds, frame.bound]
    exact old.mutex scheduler
  · rw [destroys] at under
    exact frame.destroying scheduler (old.destroys scheduler under)

omit [Fintype τ] in
theorem lock_frame (pc : Pc σ) (moved : state.lock thread scheduler pc = some after) (away : other ≠ thread) :
    Frame state after other := by
  simp only [lock, Option.ite_none_right_eq_some, Option.some.injEq] at moved
  obtain ⟨unlocked, rfl⟩ := moved
  refine ⟨rfl, rfl, .inl (by simp [goto, away]), fun _ => rfl, fun place => ?_, fun _ => id, fun _ _ => id⟩
  by_cases here : place = scheduler
  · simp [goto, here, unlocked, Ne.symm away]
  · simp [goto, here]

omit [Fintype τ] in
theorem unlock_frame (pc : Pc σ) (held : state.mutex scheduler = some thread) (away : other ≠ thread) :
    Frame state (state.unlock thread scheduler pc) other := by
  refine ⟨rfl, rfl, .inl (by simp [unlock, goto, away]), fun _ => rfl, fun place => ?_, fun _ => id, fun _ _ => id⟩
  by_cases here : place = scheduler
  · simp [unlock, goto, here, held, Ne.symm away]
  · simp [unlock, goto, here]

theorem operate_frame (here : Local state thread) (moved : state.operate thread = some after) (away : other ≠ thread) :
    Frame state after other := by
  have mutex := here.mutex
  cases position : state.pc thread <;> simp only [operate, position] at moved <;> rw [position] at mutex
  case free | asleep => cases moved
  case bindLock | destroyLock | woken => exact lock_frame _ moved away
  case unbindLock =>
    obtain ⟨scheduler, _, moved⟩ := Option.bind_eq_some_iff.mp moved
    exact lock_frame _ moved away
  case unlockBind scheduler =>
    cases moved
    exact unlock_frame _ ((mutex scheduler).mpr rfl) away
  case unlockUnbind =>
    obtain ⟨scheduler, bound, rfl⟩ := Option.map_eq_some_iff.mp moved
    exact unlock_frame _ ((mutex scheduler).mpr bound) away
  case unlockDestroy scheduler =>
    cases moved
    obtain ⟨bound, current, pc, entry, lock, destroying, binding⟩ :=
      unlock_frame .free ((mutex scheduler).mpr rfl) away
    exact ⟨bound, current, pc, entry, lock, destroying, binding⟩
  case stop | reset =>
    cases moved
    constructor <;> simp [goto, away]
  case test scheduler =>
    cases moved
    split
    · constructor <;> simp [goto, away]
    · exact unlock_frame _ ((mutex scheduler).mpr rfl) away
  case emplace scheduler =>
    cases moved
    exact ⟨rfl, by simp [goto, away], .inl (by simp [goto, away]), by simp [goto, setEntry, away],
      fun _ => Iff.rfl, fun _ => id, fun _ _ => id⟩
  case erase =>
    obtain ⟨scheduler, bound, moved⟩ := Option.bind_eq_some_iff.mp moved
    simp only [Option.ite_none_right_eq_some, Option.some.injEq] at moved
    obtain ⟨_, rfl⟩ := moved
    exact ⟨rfl, rfl, .inl (by simp [goto, away]), by simp [goto, setEntry, away], fun _ => Iff.rfl, fun _ => id,
      fun _ _ => id⟩
  case notify =>
    obtain ⟨scheduler, _, rfl⟩ := Option.map_eq_some_iff.mp moved
    exact ⟨rfl, rfl, .inr ⟨scheduler, by simp [goto, away]⟩, fun _ => rfl, fun _ => Iff.rfl, fun _ => id,
      fun _ _ => id⟩

/-- What a thread has, apart from the mutex, is the same at two positions. -/
structure Pc.Alike (current : Option Nat) (old next : Pc σ) : Prop where
  registered : next.registered = old.registered
  working : next.working = old.working
  worker : next.worker? current = old.worker? current
  binding : ∀ scheduler, next.binding? = some scheduler → old.binding? = some scheduler
  unbinding : next.unbinding = true → old.unbinding = true
  destroys : ∀ scheduler, next.destroys? = some scheduler → old.destroys? = some scheduler

section Local

variable {old next : Pc σ} (here : Local state thread) (position : state.pc thread = old)
include here position

omit [DecidableEq τ] [Fintype τ] in
theorem Local.moves (pc : after.pc thread = next) (like : old.Alike (state.current thread) next)
    (bound : after.bound thread = state.bound thread) (current : after.current thread = state.current thread)
    (entries : ∀ place, after.byTid place thread = state.byTid place thread)
    (destroying : after.destroying = state.destroying)
    (holds : ∀ place, after.mutex place = some thread ↔ next.holds (state.bound thread) = some place) :
    Local after thread := by
  subst old
  refine ⟨fun place => ?_, ?_, fun place under => ?_, fun under => ?_, fun place => ?_, fun place under => ?_⟩
  · rw [entries, bound, pc, current, like.registered, like.worker]
    exact here.entry place
  · rw [current, bound, pc, like.working]
    exact here.current
  · rw [bound, destroying]
    exact here.binding place (like.binding place (pc ▸ under))
  · rw [bound]
    exact here.unbinding (like.unbinding (pc ▸ under))
  · rw [pc, bound]
    exact holds place
  · rw [destroying]
    exact here.destroys place (like.destroys place (pc ▸ under))

omit [Fintype τ] in
theorem Local.locks (moved : state.lock thread scheduler next = some after)
    (like : old.Alike (state.current thread) next) (free : old.holds (state.bound thread) = none)
    (takes : next.holds (state.bound thread) = some scheduler) : Local after thread := by
  simp only [lock, Option.ite_none_right_eq_some, Option.some.injEq] at moved
  obtain ⟨_, rfl⟩ := moved
  refine here.moves position (Function.update_self ..) like rfl rfl (fun _ => rfl) rfl fun place => ?_
  by_cases same : place = scheduler
  · simp [goto, same, takes]
  · have unheld : state.mutex place ≠ some thread := by simp [here.mutex place, position, free]
    simp [goto, same, Ne.symm same, takes, unheld]

omit [Fintype τ] in
theorem Local.unlocks (like : old.Alike (state.current thread) next)
    (held : old.holds (state.bound thread) = some scheduler) (drops : next.holds (state.bound thread) = none) :
    Local (state.unlock thread scheduler next) thread := by
  refine here.moves position (Function.update_self ..) like rfl rfl (fun _ => rfl) rfl fun place => ?_
  by_cases same : place = scheduler
  · simp [unlock, goto, same, drops]
  · have unheld : state.mutex place ≠ some thread := by simp [here.mutex place, position, held, Ne.symm same]
    simp [unlock, goto, same, drops, unheld]

omit [Fintype τ] in
theorem Local.goes (like : old.Alike (state.current thread) next)
    (holds : next.holds (state.bound thread) = old.holds (state.bound thread)) :
    Local (state.goto thread next) thread := by
  refine here.moves position (Function.update_self ..) like rfl rfl (fun _ => rfl) rfl fun place => ?_
  rw [holds, ← position]
  exact here.mutex place

end Local

attribute [local simp] Pc.registered Pc.working Pc.binding? Pc.unbinding Pc.holds Pc.destroys? Pc.worker?

omit [Fintype τ] in
theorem Local.emplaces (here : Local state thread) (position : state.pc thread = .emplace scheduler) :
    Local ({ state with
      workers := state.workers + 1
      current := Function.update state.current thread (some state.workers)
      byTid := setEntry state.byTid scheduler thread
        (some ((state.byTid scheduler thread).getD state.workers)) }.goto thread (.unlockBind scheduler)) thread := by
  obtain ⟨bound, alive⟩ := here.binding scheduler (by rw [position]; rfl)
  have fresh : ∀ place, state.byTid place thread = none := by
    intro place
    simp [here.entry, position]
  have mutex := here.mutex
  rw [position] at mutex
  refine ⟨fun place => ?_, ?_, fun place under => ?_, by simp [goto], fun place => ?_, by simp [goto]⟩
  · by_cases same : place = scheduler
    · simp [goto, setEntry, same, fresh, bound]
    · simp [goto, setEntry, same, Ne.symm same, fresh, bound]
  · simp [goto, bound]
  · have same : scheduler = place := by simpa [goto] using under
    exact same ▸ ⟨bound, alive⟩
  · simpa [goto] using mutex place

omit [Fintype τ] in
theorem Local.erases {worker : Nat} {next : Pc σ} (here : Local state thread) (position : state.pc thread = .erase worker)
    (bound : state.bound thread = some scheduler) (leaves : next = .notify ∨ next = .unlockUnbind) :
    Local ({ state with byTid := setEntry state.byTid scheduler thread none }.goto thread next) thread := by
  have mutex := here.mutex
  have current := here.current
  rw [position] at mutex current
  have elsewhere : ∀ place, place ≠ scheduler → state.byTid place thread = none := by
    intro place apart
    simp [here.entry, bound, Ne.symm apart]
  have gone : ∀ place, setEntry state.byTid scheduler thread none place thread = none := by
    intro place
    by_cases same : place = scheduler
    · simp [setEntry, same]
    · simp [setEntry, same, elsewhere place same]
  rcases leaves with rfl | rfl
  · exact ⟨fun place => by simp [goto, gone], by simpa [goto] using current, by simp [goto], by simp [goto, bound],
      fun place => by simpa [goto] using mutex place, by simp [goto]⟩
  · exact ⟨fun place => by simp [goto, gone], by simpa [goto] using current, by simp [goto], by simp [goto, bound],
      fun place => by simpa [goto] using mutex place, by simp [goto]⟩

theorem operate_local (here : Local state thread) (moved : state.operate thread = some after) :
    Local after thread := by
  cases position : state.pc thread <;> simp only [operate, position] at moved
  case free | asleep => cases moved
  case bindLock scheduler => exact here.locks position moved ⟨rfl, rfl, rfl, fun _ => id, id, fun _ => id⟩ rfl rfl
  case destroyLock scheduler | woken scheduler =>
    exact here.locks position moved ⟨rfl, rfl, rfl, fun _ => id, id, fun _ => id⟩ rfl rfl
  case unbindLock worker =>
    obtain ⟨scheduler, bound, moved⟩ := Option.bind_eq_some_iff.mp moved
    exact here.locks position moved ⟨rfl, rfl, rfl, fun _ => id, id, fun _ => id⟩ rfl bound
  case unlockBind scheduler =>
    cases moved
    exact here.unlocks position ⟨rfl, rfl, rfl, by simp, id, fun _ => id⟩ rfl rfl
  case unlockUnbind =>
    obtain ⟨scheduler, bound, rfl⟩ := Option.map_eq_some_iff.mp moved
    exact here.unlocks position ⟨rfl, rfl, rfl, fun _ => id, id, fun _ => id⟩ bound rfl
  case unlockDestroy scheduler =>
    cases moved
    have unlocked : Local (state.unlock thread scheduler .free) thread :=
      here.unlocks position ⟨rfl, rfl, rfl, fun _ => id, id, by simp⟩ rfl rfl
    exact ⟨unlocked.entry, unlocked.current, unlocked.binding, unlocked.unbinding, unlocked.mutex, unlocked.destroys⟩
  case test scheduler =>
    cases moved
    split
    · exact here.goes position ⟨rfl, rfl, rfl, fun _ => id, id, fun _ => id⟩ rfl
    · exact here.unlocks position ⟨rfl, rfl, rfl, fun _ => id, id, fun _ => id⟩ rfl rfl
  case emplace scheduler =>
    cases moved
    exact here.emplaces position
  case erase worker =>
    obtain ⟨scheduler, bound, moved⟩ := Option.bind_eq_some_iff.mp moved
    simp only [Option.ite_none_right_eq_some, Option.some.injEq] at moved
    obtain ⟨_, rfl⟩ := moved
    split
    · exact here.erases position bound (.inl rfl)
    · exact here.erases position bound (.inr rfl)
  case notify =>
    obtain ⟨scheduler, bound, rfl⟩ := Option.map_eq_some_iff.mp moved
    have mutex := here.mutex
    rw [position] at mutex
    exact here.moves position (Function.update_self ..) ⟨rfl, rfl, rfl, fun _ => id, id, fun _ => id⟩ rfl rfl
      (fun _ => rfl) rfl mutex
  case stop worker =>
    cases moved
    have entry := here.entry
    have bound := here.unbinding
    have mutex := here.mutex
    rw [position] at entry bound mutex
    exact ⟨by simpa [goto] using entry, by simp [goto], by simp [goto], by simpa [goto] using bound,
      by simpa [goto] using mutex, by simp [goto]⟩
  case reset =>
    cases moved
    have entry := here.entry
    have current := here.current
    have mutex := here.mutex
    rw [position] at entry current mutex
    exact ⟨by simpa [goto] using entry, by simpa [goto] using current, by simp [goto], by simp [goto],
      by simpa [goto] using mutex, by simp [goto]⟩

omit [DecidableEq τ] [DecidableEq σ] in
theorem empty_iff {byTid : σ → τ → Option Nat} :
    empty byTid scheduler = true ↔ ∀ thread, byTid scheduler thread = none := by
  simp only [empty, decide_eq_true_eq]

/-- The thread that takes the step. -/
def Label.actor : Label τ σ → τ
  | .bind thread _ | .unbind thread | .destroy thread _ | .operate thread | .wake thread => thread

theorem step_frame (each : ∀ thread, Local state thread) (permitted : state.permitted label = true)
    (moved : state.step label = some after) (away : other ≠ label.actor) : Frame state after other := by
  cases label with
  | bind thread scheduler =>
      simp only [step, Label.actor, Option.ite_none_right_eq_some, Option.some.injEq] at moved away
      obtain ⟨_, rfl⟩ := moved
      constructor <;> simp [goto, away]
  | unbind thread =>
      simp only [step, Label.actor, Option.ite_none_right_eq_some, Option.map_eq_some_iff] at moved away
      obtain ⟨_, worker, _, rfl⟩ := moved
      constructor <;> simp [goto, away]
  | destroy thread scheduler =>
      simp only [step, Label.actor, Option.ite_none_right_eq_some, Option.some.injEq] at moved away
      simp only [Bindings.permitted, Bool.and_eq_true, decide_eq_true_eq] at permitted
      obtain ⟨_, rfl⟩ := moved
      refine ⟨rfl, rfl, .inl (by simp [goto, away]), fun _ => rfl, fun _ => Iff.rfl, fun place before => ?_,
        fun place under alive => ?_⟩
      · by_cases here : place = scheduler <;> simp [goto, here, before]
      · have apart : place ≠ scheduler := fun here => permitted.2 other (here ▸ under)
        simp [goto, apart, alive]
  | operate thread => exact operate_frame (each thread) moved away
  | wake thread =>
      simp only [Label.actor] at away
      cases position : state.pc thread <;> simp [step, position] at moved
      subst moved
      constructor <;> simp [goto, away]

theorem step_local (each : ∀ thread, Local state thread) (permitted : state.permitted label = true)
    (moved : state.step label = some after) : Local after label.actor := by
  cases label with
  | bind thread scheduler =>
      simp only [step, Option.ite_none_right_eq_some, Option.some.injEq] at moved
      obtain ⟨⟨free, unbound⟩, rfl⟩ := moved
      have alive : state.destroying scheduler = false := by simpa [Bindings.permitted] using permitted
      have entry := (each thread).entry
      have current := (each thread).current
      have mutex := (each thread).mutex
      rw [free, unbound] at entry current mutex
      refine ⟨by simpa [Label.actor, goto] using entry, by simpa [Label.actor, goto] using current, fun place under => ?_,
        by simp [Label.actor, goto], by simpa [Label.actor, goto] using mutex, by simp [Label.actor, goto]⟩
      have same : scheduler = place := by simpa [Label.actor, goto] using under
      exact ⟨by simp [Label.actor, goto, same], same ▸ alive⟩
  | unbind thread =>
      simp only [step, Option.ite_none_right_eq_some, Option.map_eq_some_iff] at moved
      obtain ⟨⟨free, bound⟩, worker, working, rfl⟩ := moved
      have entry := (each thread).entry
      have current := (each thread).current
      have mutex := (each thread).mutex
      rw [free] at entry current mutex
      refine ⟨fun place => ?_, by simpa [Label.actor, goto] using current, by simp [Label.actor, goto], fun _ => bound,
        by simpa [Label.actor, goto] using mutex, by simp [Label.actor, goto]⟩
      simpa [Label.actor, goto, working] using entry place
  | destroy thread scheduler =>
      simp only [step, Option.ite_none_right_eq_some, Option.some.injEq] at moved
      obtain ⟨free, rfl⟩ := moved
      have entry := (each thread).entry
      have current := (each thread).current
      have mutex := (each thread).mutex
      rw [free] at entry current mutex
      refine ⟨by simpa [Label.actor, goto] using entry, by simpa [Label.actor, goto] using current,
        by simp [Label.actor, goto], by simp [Label.actor, goto], by simpa [Label.actor, goto] using mutex,
        fun place under => ?_⟩
      have same : scheduler = place := by simpa [Label.actor, goto] using under
      simp [goto, same]
  | operate thread => exact operate_local (each thread) moved
  | wake thread =>
      cases position : state.pc thread <;> simp only [step, position] at moved
      case asleep scheduler =>
        cases moved
        exact (each thread).goes position ⟨rfl, rfl, rfl, fun _ => id, id, fun _ => id⟩ rfl
      all_goals cases moved

/-- What a step does to the destructors. -/
structure Destructs (state after : Bindings τ σ) (thread : τ) : Prop where
  begins : ∀ scheduler, (after.pc thread).destroys? = some scheduler →
    (state.pc thread).destroys? = some scheduler ∨ state.destroying scheduler = false
  ends : ∀ scheduler, (state.pc thread).destroys? = some scheduler →
    (after.pc thread).destroys? = some scheduler ∨ after.gone scheduler = true
  gone : ∀ scheduler, after.gone scheduler = true ↔
    state.gone scheduler = true ∨ state.pc thread = .unlockDestroy scheduler
  freed : ∀ scheduler, state.pc thread = .unlockDestroy scheduler → after.pc thread = .free
  destroying : ∀ scheduler, after.destroying scheduler = true ↔
    state.destroying scheduler = true ∨ (after.pc thread).destroys? = some scheduler

/-- What it does to the entries of the bound threads. -/
structure Enters (state after : Bindings τ σ) (thread : τ) : Prop where
  emptied : ∀ scheduler, empty after.byTid scheduler = true →
    empty state.byTid scheduler = true ∨ after.pc thread = .notify ∧ after.bound thread = some scheduler
  filled : ∀ scheduler, empty state.byTid scheduler = true →
    empty after.byTid scheduler = true ∨ state.pc thread = .emplace scheduler
  asleep : ∀ scheduler, after.pc thread = .asleep scheduler → empty after.byTid scheduler = false
  clear : ∀ scheduler, after.pc thread = .unlockDestroy scheduler → empty after.byTid scheduler = true

/-- What a step does beyond the threads that do not take it. -/
structure Own (state after : Bindings τ σ) (thread : τ) : Prop
    extends Destructs state after thread, Enters state after thread where
  bound : ∀ scheduler, after.bound thread = some scheduler →
    state.bound thread = some scheduler ∧ state.pc thread ≠ .reset ∨ state.destroying scheduler = false
  rouses : ∀ scheduler, state.pc thread = .notify → state.bound thread = some scheduler →
    ∀ other, after.pc other ≠ .asleep scheduler
  quiet : state.pc thread ≠ .notify → ∀ other, other ≠ thread → after.pc other = state.pc other

theorem empty_setEntry_of_ne {byTid : σ → τ → Option Nat} {place : σ} (apart : place ≠ scheduler) (thread : τ)
    (entry : Option Nat) : empty (setEntry byTid scheduler thread entry) place = empty byTid place := by
  simp [empty, setEntry, apart]

theorem empty_setEntry_some (byTid : σ → τ → Option Nat) (scheduler : σ) (thread : τ) (worker : Nat) :
    empty (setEntry byTid scheduler thread (some worker)) scheduler = false := by
  simp only [empty, decide_eq_false_iff_not]
  intro none
  simpa [setEntry] using none thread

theorem empty_setEntry_none {byTid : σ → τ → Option Nat} {place : σ} (was : empty byTid place = true) (scheduler : σ)
    (thread : τ) : empty (setEntry byTid scheduler thread none) place = true := by
  rw [empty_iff] at was ⊢
  intro other
  unfold setEntry
  split
  · rfl
  · exact was other

omit [DecidableEq τ] [Fintype τ] in
theorem Destructs.same (here : Local state thread) (gone : after.gone = state.gone)
    (destroying : after.destroying = state.destroying)
    (destroys : (after.pc thread).destroys? = (state.pc thread).destroys?)
    (passes : ∀ scheduler, state.pc thread ≠ .unlockDestroy scheduler) : Destructs state after thread where
  begins := fun _ now => .inl (destroys ▸ now)
  ends := fun _ was => .inl (destroys.trans was)
  gone := fun scheduler => by simp [gone, passes scheduler]
  freed := fun scheduler unlocks => absurd unlocks (passes scheduler)
  destroying := fun scheduler => by
    rw [destroying, destroys]
    exact ⟨.inl, fun was => was.elim id (here.destroys scheduler)⟩

omit [DecidableEq τ] [DecidableEq σ] in
theorem Enters.same (byTid : after.byTid = state.byTid)
    (asleep : ∀ scheduler, after.pc thread = .asleep scheduler → empty state.byTid scheduler = false)
    (clear : ∀ scheduler, after.pc thread = .unlockDestroy scheduler → empty state.byTid scheduler = true) :
    Enters state after thread where
  emptied := fun _ now => .inl (byTid ▸ now)
  filled := fun _ was => .inl (byTid ▸ was)
  asleep := fun scheduler sleeps => byTid ▸ asleep scheduler sleeps
  clear := fun scheduler passed => byTid ▸ clear scheduler passed

/-- Positions whose operation changes more than the thread and the mutex. -/
def Pc.settles : Pc σ → Bool
  | .emplace _ | .erase _ | .notify | .reset | .unlockDestroy _ => true
  | _ => false

section Own

variable {old next : Pc σ} (here : Local state thread) (position : state.pc thread = old)
include here position

/-- The step only moves the thread, and perhaps a mutex or `Worker::current`. -/
theorem Own.moves (moved : after.pc = Function.update state.pc thread next) (bound : after.bound = state.bound)
    (byTid : after.byTid = state.byTid) (gone : after.gone = state.gone)
    (destroying : after.destroying = state.destroying) (destroys : next.destroys? = old.destroys?)
    (plain : old.settles = false)
    (asleep : ∀ scheduler, next = .asleep scheduler → empty state.byTid scheduler = false)
    (clear : ∀ scheduler, next = .unlockDestroy scheduler → empty state.byTid scheduler = true) :
    Own state after thread := by
  subst old
  have pc : after.pc thread = next := by rw [moved, Function.update_self]
  have unsettled : ∀ other : Pc σ, other.settles = true → state.pc thread ≠ other := by
    rintro other settles same
    rw [same, settles] at plain
    cases plain
  exact
    { toDestructs := .same here gone destroying (pc ▸ destroys) fun _ => unsettled _ rfl
      toEnters := .same byTid (pc ▸ asleep) (pc ▸ clear)
      bound := fun scheduler now => .inl ⟨bound ▸ now, unsettled .reset rfl⟩
      rouses := fun _ notifies => absurd notifies (unsettled .notify rfl)
      quiet := fun _ other away => by rw [moved, Function.update_of_ne away] }

theorem Own.locks (moved : state.lock thread scheduler next = some after) (destroys : next.destroys? = old.destroys?)
    (plain : old.settles = false) (asleep : ∀ scheduler, next ≠ .asleep scheduler)
    (clear : ∀ scheduler, next ≠ .unlockDestroy scheduler) : Own state after thread := by
  simp only [lock, Option.ite_none_right_eq_some, Option.some.injEq] at moved
  obtain ⟨_, rfl⟩ := moved
  exact .moves here position rfl rfl rfl rfl rfl destroys plain (fun place same => absurd same (asleep place))
    fun place same => absurd same (clear place)

end Own

theorem Own.emplaces (here : Local state thread) (position : state.pc thread = .emplace scheduler)
    (moved : state.operate thread = some after) : Own state after thread := by
  simp only [operate, position] at moved
  cases moved
  refine
    { toDestructs := .same here rfl rfl (by simp [goto, position]) (by simp [position])
      emptied := fun place now => .inl ?_
      filled := fun place was => ?_
      asleep := by simp [goto]
      clear := by simp [goto]
      bound := fun _ now => .inl ⟨now, by simp [position]⟩
      rouses := by simp [position]
      quiet := fun _ other away => by simp [goto, away] }
  · by_cases same : place = scheduler
    · rw [same] at now
      exact absurd now (by simp [goto, empty_setEntry_some])
    · rwa [goto, empty_setEntry_of_ne same] at now
  · by_cases same : place = scheduler
    · exact .inr (same ▸ position)
    · exact .inl (by rwa [goto, empty_setEntry_of_ne same])

theorem Own.erases {worker : Nat} (here : Local state thread) (position : state.pc thread = .erase worker)
    (moved : state.operate thread = some after) : Own state after thread := by
  simp only [operate, position] at moved
  obtain ⟨scheduler, bound, moved⟩ := Option.bind_eq_some_iff.mp moved
  simp only [Option.ite_none_right_eq_some, Option.some.injEq] at moved
  obtain ⟨_, rfl⟩ := moved
  refine
    { toDestructs := .same here rfl rfl ?_ (by simp [position])
      emptied := fun place now => ?_
      filled := fun place was => .inl (empty_setEntry_none was scheduler thread)
      asleep := fun place sleeps => ?_
      clear := fun place passes => ?_
      bound := fun _ now => .inl ⟨now, by simp [position]⟩
      rouses := by simp [position]
      quiet := fun _ other away => by simp [goto, away] }
  · simp only [goto, Function.update_self, position]
    split <;> rfl
  · by_cases same : place = scheduler
    · have last : empty (setEntry state.byTid scheduler thread none) scheduler = true := same ▸ now
      exact .inr ⟨by simp [goto, last], same ▸ bound⟩
    · exact .inl (by rwa [goto, empty_setEntry_of_ne same] at now)
  · simp only [goto, Function.update_self] at sleeps
    split at sleeps <;> cases sleeps
  · simp only [goto, Function.update_self] at passes
    split at passes <;> cases passes

theorem Own.notifies (here : Local state thread) (position : state.pc thread = .notify)
    (moved : state.operate thread = some after) : Own state after thread := by
  simp only [operate, position] at moved
  obtain ⟨scheduler, bound, rfl⟩ := Option.map_eq_some_iff.mp moved
  refine
    { toDestructs := .same here rfl rfl (by simp [goto, position]) (by simp [position])
      toEnters := .same rfl (by simp [goto]) (by simp [goto])
      bound := fun _ now => .inl ⟨now, by simp [position]⟩
      rouses := fun place _ same other => ?_
      quiet := fun busy => absurd position busy }
  have named : scheduler = place := Option.some.inj (bound.symm.trans same)
  by_cases actor : other = thread
  · simp [goto, actor]
  · simp only [goto, Function.update_of_ne actor]
    exact named ▸ Pc.roused_ne _ _

theorem Own.resets (here : Local state thread) (position : state.pc thread = .reset)
    (moved : state.operate thread = some after) : Own state after thread := by
  simp only [operate, position] at moved
  cases moved
  exact
    { toDestructs := .same here rfl rfl (by simp [goto, position]) (by simp [position])
      toEnters := .same rfl (by simp [goto]) (by simp [goto])
      bound := by simp [goto]
      rouses := by simp [position]
      quiet := fun _ other away => by simp [goto, away] }

theorem Own.leaves (here : Local state thread) (position : state.pc thread = .unlockDestroy scheduler)
    (moved : state.operate thread = some after) : Own state after thread := by
  have destroying := here.destroys
  rw [position] at destroying
  simp only [operate, position] at moved
  cases moved
  refine
    { begins := by simp [unlock, goto]
      ends := fun place was => .inr ?_
      gone := fun place => ?_
      freed := fun _ _ => by simp [unlock, goto]
      destroying := fun place => by simp [unlock, goto]
      toEnters := .same rfl (by simp [unlock, goto]) (by simp [unlock, goto])
      bound := fun _ now => .inl ⟨now, by simp [position]⟩
      rouses := by simp [position]
      quiet := fun _ other away => by simp [unlock, goto, away] }
  · have same : scheduler = place := by simpa [position] using was
    simp [unlock, goto, same]
  · by_cases same : place = scheduler
    · simp [unlock, goto, same, position]
    · simp [unlock, goto, same, Ne.symm same, position]

theorem operate_own (here : Local state thread) (moved : state.operate thread = some after) :
    Own state after thread := by
  cases position : state.pc thread with
  | emplace scheduler => exact .emplaces here position moved
  | erase worker => exact .erases here position moved
  | notify => exact .notifies here position moved
  | reset => exact .resets here position moved
  | unlockDestroy scheduler => exact .leaves here position moved
  | free | asleep scheduler => simp [operate, position] at moved
  | bindLock scheduler | destroyLock scheduler | woken scheduler =>
      simp only [operate, position] at moved
      exact .locks here position moved rfl rfl (by simp) (by simp)
  | unbindLock worker =>
      simp only [operate, position] at moved
      obtain ⟨scheduler, _, moved⟩ := Option.bind_eq_some_iff.mp moved
      exact .locks here position moved rfl rfl (by simp) (by simp)
  | unlockBind scheduler | stop worker =>
      simp only [operate, position] at moved
      cases moved
      exact .moves here position rfl rfl rfl rfl rfl rfl rfl (by simp) (by simp)
  | unlockUnbind =>
      simp only [operate, position] at moved
      obtain ⟨scheduler, _, rfl⟩ := Option.map_eq_some_iff.mp moved
      exact .moves here position rfl rfl rfl rfl rfl rfl rfl (by simp) (by simp)
  | test scheduler =>
      simp only [operate, position] at moved
      cases moved
      cases tested : empty state.byTid scheduler with
      | true =>
          rw [if_pos rfl]
          exact .moves here position rfl rfl rfl rfl rfl rfl rfl (by simp) (by simp [tested])
      | false =>
          rw [if_neg Bool.false_ne_true]
          exact .moves here position rfl rfl rfl rfl rfl rfl rfl (by simp [tested]) (by simp)

theorem step_own (each : ∀ thread, Local state thread) (permitted : state.permitted label = true)
    (moved : state.step label = some after) : Own state after label.actor := by
  cases label with
  | bind thread scheduler =>
      simp only [step, Option.ite_none_right_eq_some, Option.some.injEq] at moved
      obtain ⟨⟨free, _⟩, rfl⟩ := moved
      have alive : state.destroying scheduler = false := by simpa [Bindings.permitted] using permitted
      refine
        { toDestructs := .same (each thread) rfl rfl (by simp [Label.actor, goto, free]) (by simp [Label.actor, free])
          toEnters := .same rfl (by simp [Label.actor, goto]) (by simp [Label.actor, goto])
          bound := fun place now => .inr ?_
          rouses := by simp [Label.actor, free]
          quiet := fun _ other away => Function.update_of_ne away .. }
      have same : scheduler = place := by simpa [Label.actor, goto] using now
      exact same ▸ alive
  | destroy thread scheduler =>
      simp only [step, Option.ite_none_right_eq_some, Option.some.injEq] at moved
      obtain ⟨free, rfl⟩ := moved
      simp only [Bindings.permitted, Bool.and_eq_true, Bool.not_eq_true'] at permitted
      refine
        { begins := fun place now => .inr ?_
          ends := by simp [Label.actor, free]
          gone := by simp [Label.actor, goto, free]
          freed := by simp [Label.actor, free]
          destroying := fun place => ?_
          toEnters := .same rfl (by simp [Label.actor, goto]) (by simp [Label.actor, goto])
          bound := fun _ now => .inl ⟨now, by simp [Label.actor, free]⟩
          rouses := by simp [Label.actor, free]
          quiet := fun _ other away => Function.update_of_ne away .. }
      · have same : scheduler = place := by simpa [Label.actor, goto] using now
        exact same ▸ permitted.1
      · by_cases same : place = scheduler
        · simp [Label.actor, goto, same]
        · simp [Label.actor, goto, same, Ne.symm same]
  | unbind thread =>
      simp only [step, Option.ite_none_right_eq_some, Option.map_eq_some_iff] at moved
      obtain ⟨⟨free, _⟩, worker, _, rfl⟩ := moved
      exact .moves (each thread) free rfl rfl rfl rfl rfl rfl rfl (by simp) (by simp)
  | operate thread => exact operate_own (each thread) moved
  | wake thread =>
      cases position : state.pc thread <;> simp only [step, position] at moved
      case asleep scheduler =>
        cases moved
        exact .moves (each thread) position rfl rfl rfl rfl rfl rfl rfl (by simp) (by simp)
      all_goals cases moved

omit [DecidableEq τ] [Fintype τ] in
/-- A position of a thread that does not take the step was there before. -/
theorem Frame.before (frame : Frame state after other) {pc : Pc σ} (found : after.pc other = pc)
    (apart : ∀ scheduler, pc ≠ .woken scheduler) : state.pc other = pc := by
  rcases frame.pc with same | ⟨scheduler, roused⟩
  · exact same.symm.trans found
  · exact Pc.eq_of_roused scheduler (roused.symm.trans found) apart

omit [DecidableEq τ] [Fintype τ] in
theorem Frame.stays (frame : Frame state after other) {pc : Pc σ} (found : state.pc other = pc)
    (busy : ∀ scheduler, pc ≠ .asleep scheduler) : after.pc other = pc := by
  rcases frame.pc with same | ⟨scheduler, roused⟩
  · exact same.trans found
  · rw [roused, found]
    exact Pc.roused_busy scheduler busy

omit [DecidableEq τ] in
/-- Once the test has passed, whoever is still bound has nothing left to do there. -/
theorem Inv.bound_of_clear (inv : Inv state) (found : state.pc thread = .unlockDestroy scheduler)
    (bound : state.bound other = some scheduler) : state.pc other = .reset := by
  have none := empty_iff.mp (inv.clear thread scheduler found) other
  have held := ((inv.each thread).mutex scheduler).mpr (by rw [found]; rfl)
  have destroying := (inv.each thread).destroys scheduler (by rw [found]; rfl)
  obtain ⟨entry, current, binding, _, mutex, _⟩ := inv.each other
  specialize entry scheduler
  specialize binding scheduler
  specialize mutex scheduler
  cases position : state.pc other with
  | reset => rfl
  | bindLock place | emplace place =>
      have same : place = scheduler := by
        have here := (inv.each other).binding place (by rw [position]; rfl)
        simpa [here.1] using bound
      simp [position, same, destroying] at binding
  | notify | unlockUnbind =>
      have apart : thread ≠ other := by
        rintro rfl
        simp [position] at found
      simp [position, bound, held, apart] at mutex
  | stop worker | unbindLock worker | erase worker => simp [position, bound, none] at entry
  | free | unlockBind place | destroyLock place | test place | asleep place | woken place | unlockDestroy place =>
      simp [position, bound, none] at entry current
      simp [← entry] at current

section Step

variable (inv : Inv state) (permitted : state.permitted label = true) (moved : state.step label = some after)
include inv permitted moved

theorem Inv.step_each (thread : τ) : Local after thread := by
  by_cases here : thread = label.actor
  · exact here ▸ step_local inv.each permitted moved
  · exact (step_frame inv.each permitted moved here).keeps (inv.each thread)

theorem Inv.step_asleep (found : after.pc thread = .asleep scheduler) (clear : empty after.byTid scheduler = true) :
    ∃ other, after.pc other = .notify ∧ after.bound other = some scheduler := by
  have own := step_own inv.each permitted moved
  have away : thread ≠ label.actor := by
    rintro rfl
    simp [own.asleep scheduler found] at clear
  have before := (step_frame inv.each permitted moved away).before found (by simp)
  rcases own.emptied scheduler clear with was | now
  · obtain ⟨other, notifies, bound⟩ := inv.asleep thread scheduler before was
    have apart : other ≠ label.actor := by
      rintro rfl
      exact own.rouses scheduler notifies bound thread found
    have frame := step_frame inv.each permitted moved apart
    exact ⟨other, frame.stays notifies (by simp), frame.bound.trans bound⟩
  · exact ⟨label.actor, now⟩

theorem Inv.step_clear (found : after.pc thread = .unlockDestroy scheduler) : empty after.byTid scheduler = true := by
  have own := step_own inv.each permitted moved
  by_cases here : thread = label.actor
  · exact own.clear scheduler (here ▸ found)
  · have before := (step_frame inv.each permitted moved here).before found (by simp)
    refine (own.filled scheduler (inv.clear thread scheduler before)).resolve_right fun inserts => here ?_
    have first := ((inv.each thread).mutex scheduler).mpr (by rw [before]; rfl)
    have second := ((inv.each label.actor).mutex scheduler).mpr (by rw [inserts]; rfl)
    simpa [first] using second

theorem Inv.step_gone (gone : after.gone scheduler = true) : after.destroying scheduler = true ∧
    ∀ thread, (after.bound thread = some scheduler → after.pc thread = .reset) ∧
      (after.pc thread).destroys? ≠ some scheduler := by
  have own := step_own inv.each permitted moved
  rcases (own.gone scheduler).mp gone with before | unlocks
  · obtain ⟨destroying, clear⟩ := inv.gone scheduler before
    refine ⟨(own.destroying scheduler).mpr (.inl destroying), fun thread => ?_⟩
    by_cases here : thread = label.actor
    · subst here
      refine ⟨fun bound => ?_, fun destroys => ?_⟩
      · rcases own.bound scheduler bound with ⟨was, busy⟩ | alive
        · exact absurd ((clear label.actor).1 was) busy
        · simp [destroying] at alive
      · rcases own.begins scheduler destroys with was | alive
        · exact absurd was (clear label.actor).2
        · simp [destroying] at alive
    · have frame := step_frame inv.each permitted moved here
      obtain ⟨resets, destroys⟩ := clear thread
      rw [frame.pc_same.2.2.2.2.2.1]
      exact ⟨fun bound => frame.stays (resets (frame.bound.symm.trans bound)) (by simp), destroys⟩
  · have destroys : (state.pc label.actor).destroys? = some scheduler := by
      rw [unlocks]
      rfl
    have destroying := (inv.each label.actor).destroys scheduler destroys
    refine ⟨(own.destroying scheduler).mpr (.inl destroying), fun thread => ?_⟩
    by_cases here : thread = label.actor
    · subst here
      refine ⟨fun bound => ?_, by simp [own.freed scheduler unlocks]⟩
      rcases own.bound scheduler bound with ⟨was, _⟩ | alive
      · have resets := inv.bound_of_clear unlocks was
        simp [unlocks] at resets
      · simp [destroying] at alive
    · have frame := step_frame inv.each permitted moved here
      rw [frame.pc_same.2.2.2.2.2.1]
      exact ⟨fun bound => frame.stays (inv.bound_of_clear unlocks (frame.bound.symm.trans bound)) (by simp),
        fun same => here (inv.unique _ _ scheduler same destroys)⟩

theorem Inv.step_ends (destroying : after.destroying scheduler = true) :
    after.gone scheduler = true ∨ ∃ thread, (after.pc thread).destroys? = some scheduler := by
  have own := step_own inv.each permitted moved
  rcases (own.destroying scheduler).mp destroying with before | begins
  · rcases inv.ends scheduler before with gone | ⟨thread, destroys⟩
    · exact .inl ((own.gone scheduler).mpr (.inl gone))
    · by_cases here : thread = label.actor
      · subst here
        rcases own.ends scheduler destroys with still | gone
        · exact .inr ⟨_, still⟩
        · exact .inl gone
      · have frame := step_frame inv.each permitted moved here
        exact .inr ⟨thread, frame.pc_same.2.2.2.2.2.1.trans destroys⟩
  · exact .inr ⟨_, begins⟩

/-- Who is in the destructor was in it before, or has just begun it. -/
theorem Inv.destroys_before (destroys : (after.pc thread).destroys? = some scheduler) :
    (state.pc thread).destroys? = some scheduler ∨ thread = label.actor ∧ state.destroying scheduler = false := by
  by_cases here : thread = label.actor
  · subst here
    exact ((step_own inv.each permitted moved).begins scheduler destroys).imp id fun alive => ⟨rfl, alive⟩
  · exact .inl ((step_frame inv.each permitted moved here).pc_same.2.2.2.2.2.1.symm.trans destroys)

theorem Inv.step : Inv after where
  each := inv.step_each permitted moved
  asleep := fun _ _ => inv.step_asleep permitted moved
  clear := fun _ _ => inv.step_clear permitted moved
  gone := fun _ => inv.step_gone permitted moved
  ends := fun _ => inv.step_ends permitted moved
  unique := by
    intro first second scheduler one two
    rcases inv.destroys_before permitted moved one with before | ⟨acts, alive⟩
    · rcases inv.destroys_before permitted moved two with other | ⟨_, alive⟩
      · exact inv.unique first second scheduler before other
      · simp [(inv.each first).destroys scheduler before] at alive
    · rcases inv.destroys_before permitted moved two with other | ⟨also, _⟩
      · simp [(inv.each second).destroys scheduler other] at alive
      · exact acts.trans also.symm

end Step

omit [DecidableEq τ] in
theorem initial_inv : Inv ({} : Bindings τ σ) where
  each := fun thread => ⟨fun _ => by simp, rfl, by simp, by simp, by simp, by simp⟩
  asleep := by simp
  clear := by simp
  gone := by simp
  ends := by simp
  unique := by simp

theorem inv_of_reachable (reachable : system.Reachable state) : Inv state := by
  refine reachable.invariant ?_ ?_
  · intro state start
    cases start
    exact initial_inv
  · intro state label after _ inv move
    exact inv.step move.1 move.2


/-- The checks of `unbind` hold, and a thread between two calls has its worker
in the `by_tid` of the scheduler that it is bound to, and in no other. A scheduler
past the wait of its destructor is used by no thread, and a thread that is still
bound to it has only `bound` left to reset. -/
theorem outlives_bound_threads (reachable : system.Reachable state) (thread : τ) (scheduler : σ) :
    (∀ worker, state.pc thread = .erase worker →
      ∃ place, state.bound thread = some place ∧ state.byTid place thread = some worker) ∧
    (state.pc thread = .free → (state.current thread).isSome = (state.bound thread).isSome ∧
      state.byTid scheduler thread = if state.bound thread = some scheduler then state.current thread else none) ∧
    (state.gone scheduler = true → state.byTid scheduler thread = none ∧
      (state.pc thread).touches (state.bound thread) ≠ some scheduler ∧
      (state.bound thread = some scheduler → state.pc thread = .reset)) := by
  have inv := inv_of_reachable reachable
  have own := inv.each thread
  refine ⟨fun worker erases => ?_, fun free => ?_, fun gone => ?_⟩
  · obtain ⟨place, bound⟩ := Option.isSome_iff_exists.mp (own.unbinding (by rw [erases]; rfl))
    exact ⟨place, bound, by simp [own.entry, erases, bound]⟩
  · exact ⟨by simp [own.current, free], by simp [own.entry, free]⟩
  · obtain ⟨destroying, clear⟩ := inv.gone scheduler gone
    obtain ⟨resets, destroys⟩ := clear thread
    refine ⟨?_, fun touches => ?_, resets⟩
    · rw [own.entry, if_neg]
      intro entered
      simp [resets entered.1] at entered
    · cases position : state.pc thread <;> simp [position, Pc.touches] at touches resets destroys
      case bindLock | emplace | unlockBind =>
        have alive := (own.binding scheduler (by simp [position, touches])).2
        simp [destroying] at alive
      case stop | unbindLock | erase | notify | unlockUnbind => exact resets touches
      case destroyLock | test | woken | unlockDestroy => exact destroys touches

/-- The destructor has slept until the last thread has notified, and is done
before that thread has reset `bound`. -/
theorem outlives_bound_threads_of_notified :
    ∃ state : Bindings Bool Unit, state.gone () = true ∧ state.bound true = some () ∧
      (state.pc true).touches (state.bound true) ≠ some () := by
  obtain ⟨state, reachable, seen⟩ := System.reachable_of_guarded_replay (fun state : Bindings Bool Unit => state = {})
    step permitted rfl
    ([.bind true (), .operate true, .operate true, .operate true, .destroy false (), .operate false, .operate false,
      .unbind true] ++ List.replicate 5 (.operate true) ++ List.replicate 3 (.operate false))
    (fun state => state.gone () && decide (state.bound true = some ())) (by decide +kernel)
  simp only [Bool.and_eq_true, decide_eq_true_eq] at seen
  exact ⟨state, seen.1, seen.2, ((outlives_bound_threads reachable true ()).2.2 seen.1).2.1⟩

end Bindings

end MiniMarl
