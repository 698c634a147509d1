import Mathlib.Data.List.Induction

namespace MiniMarl

/-! Inversion of computations that may fail. -/

@[simp] theorem Except.ok_bind {ε α β : Type} (value : α) (next : α → Except ε β) :
    (Except.ok value >>= next) = next value := rfl

theorem Except.bind_eq_ok {ε α β : Type} {value : Except ε α} {next : α → Except ε β} {result : β} :
    (value >>= next) = .ok result ↔ ∃ found, value = .ok found ∧ next found = .ok result := by
  cases value with
  | error reason => simp [bind, Except.bind]
  | ok found => simp

theorem Except.toOption_eq_some {ε α : Type} {value : Except ε α} {result : α} :
    value.toOption = some result ↔ value = .ok result := by
  cases value with
  | error reason => simp [Except.toOption]
  | ok found => simp [Except.toOption]

/-- `for (i = first; i < first + times; ++i)`. -/
def Except.loop {ε σ : Type} (body : Nat → σ → Except ε σ) : Nat → Nat → σ → Except ε σ
  | 0, _, state => .ok state
  | times + 1, first, state => do Except.loop body times (first + 1) (← body first state)

theorem Except.loop_succ {ε σ : Type} {body : Nat → σ → Except ε σ} {first : Nat} {state next : σ} (times : Nat)
    (stepped : body first state = .ok next) :
    Except.loop body (times + 1) first state = Except.loop body times (first + 1) next := by
  rw [Except.loop, stepped, Except.ok_bind]

theorem Except.loop_congr {ε σ : Type} {body other : Nat → σ → Except ε σ} {times first : Nat}
    (same : ∀ index state, index < first + times → body index state = other index state) (state : σ) :
    Except.loop body times first state = Except.loop other times first state := by
  induction times generalizing first state with
  | zero => rfl
  | succ times ih =>
      rw [Except.loop, Except.loop, same first state (by omega)]
      congr 1
      funext next
      exact ih (fun index state inside => same index state (by omega)) next

theorem Except.mapM_range {ε α : Type} {body : Nat → Except ε α} {values : List α}
    (found : ∀ index (inside : index < values.length), body index = .ok values[index]) :
    (List.range values.length).mapM body = .ok values := by
  induction values using List.reverseRecOn with
  | nil => rfl
  | append_singleton values value ih =>
      have before : (List.range values.length).mapM body = .ok values := by
        refine ih fun index inside => ?_
        have same := found index (by simp; omega)
        rwa [List.getElem_append_left inside] at same
      have last : body values.length = .ok value := by simpa using found values.length (by simp)
      rw [List.length_append, List.length_singleton, List.range_succ, List.mapM_append, before, Except.ok_bind,
        List.mapM_cons, last]
      rfl

end MiniMarl
