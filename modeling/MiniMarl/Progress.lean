import Mathlib.Algebra.BigOperators.Group.List.Basic
import Mathlib.Algebra.Order.Ring.Nat
import MiniMarl.Transition

namespace MiniMarl.Transition

/-! Progress of labelled transition systems.

A budget bounds how often some of the labels occur in a run, and a system that
spends its budget until it is settled reaches a settled state. Parties that
take locks in the order of their ranks never all wait for each other. -/

namespace System

variable {σ : Type u} {α : Type v} {system : System σ α} {first last state : σ} {labels : List α}

theorem Run.append {middle : σ} {later : List α} (run : system.Run first labels middle)
    (rest : system.Run middle later last) : system.Run first (labels ++ later) last := by
  induction rest with
  | nil => simpa using run
  | snoc _ move ih => simpa using ih.snoc move

theorem Run.unrestrict {Allowed : σ → α → Prop} (run : (system.restrict Allowed).Run first labels last) :
    system.Run first labels last := by
  induction run with
  | nil => exact .nil
  | snoc _ move ih => exact ih.snoc move.2

theorem Run.weaken {Allowed Permitted : σ → α → Prop} (run : (system.restrict Allowed).Run first labels last)
    (permits : ∀ state label, Allowed state label → Permitted state label) :
    (system.restrict Permitted).Run first labels last := by
  induction run with
  | nil => exact .nil
  | snoc _ move ih => exact ih.snoc ⟨permits _ _ move.1, move.2⟩

variable {Good : σ → Prop}

theorem Run.keeps (run : system.Run first labels last) (good : Good first)
    (kept : ∀ state label after, Good state → system.next state label after → Good after) : Good last := by
  induction run with
  | nil => exact good
  | snoc _ move ih => exact kept _ _ _ ih move

/-- Every counted label of a run is paid for, out of the budget or out of what the labels grant. -/
theorem Run.affords (run : system.Run first labels last) (good : Good first)
    (kept : ∀ state label after, Good state → system.next state label after → Good after)
    (budget : σ → Nat) (counted : α → Bool) (grant : α → Nat)
    (pays : ∀ state label after, Good state → system.next state label after →
      budget after + (counted label).toNat ≤ budget state + grant label) :
    budget last + labels.countP counted ≤ budget first + (labels.map grant).sum := by
  induction run with
  | nil => simp
  | @snoc labels state label after before move ih =>
      have paid := pays state label after (before.keeps good kept) move
      rw [List.countP_append, List.countP_singleton, List.map_append, List.sum_append, List.map_singleton,
        List.sum_singleton]
      cases found : counted label <;> simp [found] at paid ⊢ <;> omega

theorem sum_rate (gives : α → Bool) (rate : Nat) (labels : List α) :
    (labels.map fun label => rate * (gives label).toNat).sum = rate * labels.countP gives := by
  induction labels with
  | nil => rfl
  | cons label labels ih =>
      rw [List.map_cons, List.sum_cons, ih, List.countP_cons, Nat.mul_add, Nat.add_comm]
      cases gives label <;> rfl

/-- The labels that grant anything grant the same. -/
theorem Run.balances (run : system.Run first labels last) (good : Good first)
    (kept : ∀ state label after, Good state → system.next state label after → Good after)
    (budget : σ → Nat) (counted gives : α → Bool) (rate : Nat)
    (pays : ∀ state label after, Good state → system.next state label after →
      budget after + (counted label).toNat ≤ budget state + rate * (gives label).toNat) :
    budget last + labels.countP counted ≤ budget first + rate * labels.countP gives := by
  rw [← sum_rate]
  exact run.affords good kept budget counted _ pays

theorem Run.spends (run : system.Run first labels last) (good : Good first)
    (kept : ∀ state label after, Good state → system.next state label after → Good after)
    (budget : σ → Nat) (counted : α → Bool)
    (pays : ∀ state label after, Good state → system.next state label after →
      budget after + (counted label).toNat ≤ budget state) :
    budget last + labels.countP counted ≤ budget first := by
  simpa using run.affords good kept budget counted (fun _ => 0) pays

/-- Where a state that is not settled can always spend some of the budget, a
settled state is reached. -/
theorem exists_settled (good : Good state)
    (kept : ∀ state label after, Good state → system.next state label after → Good after)
    (budget : σ → Nat) (Settled : σ → Prop)
    (onward : ∀ state, Good state → ¬ Settled state →
      ∃ labels after, system.Run state labels after ∧ budget after < budget state) :
    ∃ labels after, system.Run state labels after ∧ Settled after := by
  induction size : budget state using Nat.strongRecOn generalizing state with
  | ind size ih =>
      by_cases settled : Settled state
      · exact ⟨[], state, .nil, settled⟩
      · obtain ⟨labels, middle, run, less⟩ := onward state good settled
        obtain ⟨later, after, rest, settled⟩ := ih _ (size ▸ less) (run.keeps good kept) rfl
        exact ⟨labels ++ later, after, run.append rest, settled⟩

end System

section Locks

variable {π : Type u} {ρ : Type v} {Holds Waits : π → ρ → Prop}

/-- Where a party only waits for a lock of a higher rank than those it holds,
following the holders from a waiting party ends at one that waits for nothing. -/
theorem exists_ready (rank : ρ → Nat) (bound : Nat) (bounded : ∀ lock, rank lock ≤ bound)
    (ordered : ∀ party held wanted, Holds party held → Waits party wanted → rank held < rank wanted)
    (owned : ∀ party lock, Waits party lock → ∃ holder, Holds holder lock) {party : π} {first : ρ}
    (waits : Waits party first) :
    ∃ waiter lock holder, Waits waiter lock ∧ rank first ≤ rank lock ∧ Holds holder lock ∧
      ∀ other, ¬ Waits holder other := by
  induction distance : bound - rank first using Nat.strongRecOn generalizing party first with
  | ind distance ih =>
      obtain ⟨holder, holds⟩ := owned party first waits
      by_cases ready : ∀ other, ¬ Waits holder other
      · exact ⟨party, first, holder, waits, Nat.le_refl _, holds, ready⟩
      · simp only [not_forall, not_not] at ready
        obtain ⟨next, further⟩ := ready
        have higher := ordered holder first next holds further
        have below := bounded next
        obtain ⟨waiter, lock, last, found, above, held, idle⟩ := ih (bound - rank next) (by omega) further rfl
        exact ⟨waiter, lock, last, found, by omega, held, idle⟩

end Locks

end MiniMarl.Transition
