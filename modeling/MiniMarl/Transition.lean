import Mathlib.Logic.Function.Basic
import Mathlib.Order.WellFounded

namespace MiniMarl.Transition

/-! Labelled transition systems.

A system has initial states and labelled steps. The reachable states carry
every invariant below; `restrict` keeps only the steps that meet a condition
on the state before the step, and `execute` replays a concrete list of labels.
-/

structure System (σ : Type u) (α : Type v) where
  initial : σ → Prop
  next : σ → α → σ → Prop

namespace System

variable {σ : Type u} {α : Type v} {τ : Type w} {β : Type x}

inductive Reachable (system : System σ α) : σ → Prop where
  | initial (start : system.initial state) : Reachable system state
  | step (before : Reachable system state) (move : system.next state label after) :
      Reachable system after

/-- The states passed from `first` to the end of a list of labels. -/
inductive Run (system : System σ α) (first : σ) : List α → σ → Prop where
  | nil : Run system first [] first
  | snoc (before : Run system first labels state) (move : system.next state label after) :
      Run system first (labels ++ [label]) after

theorem Run.reachable {system : System σ α} (run : system.Run first labels last)
    (start : system.Reachable first) : system.Reachable last := by
  induction run with
  | nil => exact start
  | snoc _ move ih => exact ih.step move

theorem Run.cons {system : System σ α} (run : system.Run middle labels last)
    (move : system.next first label middle) : system.Run first (label :: labels) last := by
  induction run with
  | nil => exact .snoc .nil move
  | snoc _ later ih => exact ih.snoc later

/-- The invariant rule. A step may use that its source is reachable, so that
an invariant proved earlier strengthens a later one. -/
theorem Reachable.invariant {system : System σ α} {Holds : σ → Prop}
    (reachable : system.Reachable state)
    (starts : ∀ state, system.initial state → Holds state)
    (preserved : ∀ state label after, system.Reachable state → Holds state →
      system.next state label after → Holds after) : Holds state := by
  induction reachable with
  | initial start => exact starts _ start
  | step before move ih => exact preserved _ _ _ before ih move

/-- Only the steps whose source and label are allowed. -/
def restrict (system : System σ α) (Allowed : σ → α → Prop) : System σ α where
  initial := system.initial
  next state label after := Allowed state label ∧ system.next state label after

theorem Reachable.unrestrict {system : System σ α} {Allowed : σ → α → Prop}
    (reachable : (system.restrict Allowed).Reachable state) : system.Reachable state := by
  induction reachable with
  | initial start => exact .initial start
  | step _ move ih => exact ih.step move.2

theorem Reachable.weaken {system : System σ α} {Allowed Permitted : σ → α → Prop}
    (reachable : (system.restrict Allowed).Reachable state)
    (permits : ∀ state label, Allowed state label → Permitted state label) :
    (system.restrict Permitted).Reachable state := by
  induction reachable with
  | initial start => exact .initial start
  | step _ move ih => exact ih.step ⟨permits _ _ move.1, move.2⟩

/-- A system whose steps are computed by a partial function. -/
def ofStep (initial : σ → Prop) (step : σ → α → Option σ) : System σ α where
  initial := initial
  next state label after := step state label = some after

/-- Replay a list of labels. -/
def execute (step : σ → α → Option σ) : σ → List α → Option σ
  | state, [] => some state
  | state, label :: labels =>
      match step state label with
      | none => none
      | some after => execute step after labels

theorem reachable_of_execute {initial : σ → Prop} {step : σ → α → Option σ} {labels : List α}
    (start : (ofStep initial step).Reachable state)
    (executed : execute step state labels = some after) :
    (ofStep initial step).Reachable after := by
  induction labels generalizing state with
  | nil =>
      simp only [execute, Option.some.injEq] at executed
      exact executed ▸ start
  | cons label labels ih =>
      simp only [execute] at executed
      cases moved : step state label with
      | none => simp [moved] at executed
      | some next =>
          simp only [moved] at executed
          exact ih (start.step moved) executed

/-- A replay of allowed steps is a run of the restricted system. -/
theorem run_of_execute {initial : σ → Prop} {step : σ → α → Option σ} {Allowed : σ → α → Prop}
    (allowed : σ → α → Bool) (permits : ∀ state label, allowed state label = true → Allowed state label)
    {labels : List α}
    (executed : execute (fun state label => if allowed state label then step state label else none) state labels =
      some after) :
    ((ofStep initial step).restrict Allowed).Run state labels after := by
  induction labels generalizing state with
  | nil =>
      simp only [execute, Option.some.injEq] at executed
      exact executed ▸ .nil
  | cons label labels ih =>
      simp only [execute] at executed
      split at executed
      · cases executed
      · rename_i next moved
        obtain ⟨permitted, stepped⟩ := Option.ite_none_right_eq_some.mp moved
        exact (ih executed).cons ⟨permits state label permitted, stepped⟩

/-- A replay that ends in a state with a decidable property reaches one. -/
theorem reachable_of_replay (initial : σ → Prop) (step : σ → α → Option σ) (start : initial state)
    (labels : List α) (observed : σ → Bool)
    (replay : (execute step state labels).map observed = some true) :
    ∃ after, (ofStep initial step).Reachable after ∧ observed after = true := by
  cases executed : execute step state labels with
  | none => simp [executed] at replay
  | some after =>
      simp only [executed, Option.map_some, Option.some.injEq] at replay
      exact ⟨after, reachable_of_execute (.initial start) executed, replay⟩

theorem reachable_of_guarded_replay (initial : σ → Prop) (step : σ → α → Option σ)
    (allowed : σ → α → Bool) (start : initial state) (labels : List α) (observed : σ → Bool)
    (replay : (execute (fun state label => if allowed state label then step state label else none)
      state labels).map observed = some true) :
    ∃ after, ((ofStep initial step).restrict fun state label => allowed state label = true).Reachable after ∧
      observed after = true := by
  obtain ⟨after, reachable, holds⟩ := reachable_of_replay initial _ start labels observed replay
  refine ⟨after, ?_, holds⟩
  clear holds replay
  induction reachable with
  | initial start => exact .initial start
  | step _ move ih => exact ih.step (Option.ite_none_right_eq_some.mp move)

end System

end MiniMarl.Transition
