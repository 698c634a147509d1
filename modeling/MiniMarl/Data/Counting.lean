import Mathlib.Algebra.BigOperators.Group.Finset.Basic
import Mathlib.Algebra.Order.BigOperators.Group.Finset
import Mathlib.Algebra.Order.BigOperators.Group.List
import Mathlib.Algebra.Order.Ring.Nat
import Mathlib.Data.List.Nodup
import Mathlib.Data.List.Perm.Basic

namespace MiniMarl.Data

variable {α : Type u} {β : Type v}

/-- Counting after a change at one place of a list without repetitions. -/
theorem countP_change (before after : α → Bool) {values : List α} {place : α}
    (nodup : values.Nodup) (member : place ∈ values)
    (same : ∀ value ∈ values, value ≠ place → before value = after value) :
    values.countP before + (after place).toNat = values.countP after + (before place).toNat := by
  induction values with
  | nil => cases member
  | cons head rest ih =>
      obtain ⟨fresh, restNodup⟩ := List.nodup_cons.mp nodup
      by_cases here : head = place
      · subst head
        have restSame : rest.countP before = rest.countP after :=
          List.countP_congr fun value inside => by
            rw [same value (by simp [inside]) (fun equal => fresh (equal ▸ inside))]
        rw [List.countP_cons, List.countP_cons, restSame]
        cases before place <;> cases after place <;> simp
      · have inside : place ∈ rest := by simpa [Ne.symm here] using member
        have rests := ih restNodup inside (fun value within => same value (by simp [within]))
        rw [List.countP_cons, List.countP_cons, same head (by simp) here]
        omega

/-- Collecting after a change at one place of a list without repetitions. -/
theorem filterMap_change (before after : α → Option β) {values : List α} {place : α}
    (nodup : values.Nodup) (member : place ∈ values)
    (same : ∀ value ∈ values, value ≠ place → before value = after value) :
    ((after place).toList ++ values.filterMap before).Perm
      ((before place).toList ++ values.filterMap after) := by
  induction values with
  | nil => cases member
  | cons head rest ih =>
      obtain ⟨fresh, restNodup⟩ := List.nodup_cons.mp nodup
      have split (collect : α → Option β) :
          (head :: rest).filterMap collect = (collect head).toList ++ rest.filterMap collect := by
        cases chosen : collect head <;> simp [chosen]
      rw [split, split]
      by_cases here : head = place
      · subst head
        have restSame : rest.filterMap before = rest.filterMap after :=
          List.filterMap_congr fun value inside =>
            same value (by simp [inside]) (fun equal => fresh (equal ▸ inside))
        rw [restSame]
        exact List.perm_append_comm_assoc _ _ _
      · have inside : place ∈ rest := by simpa [Ne.symm here] using member
        have rests := ih restNodup inside (fun value within => same value (by simp [within]))
        rw [same head (by simp) here]
        calc
          _ = (after place).toList ++ ((after head).toList ++ rest.filterMap before) := rfl
          _ |>.Perm ((after head).toList ++ ((after place).toList ++ rest.filterMap before)) :=
            List.perm_append_comm_assoc _ _ _
          _ |>.Perm ((after head).toList ++ ((before place).toList ++ rest.filterMap after)) :=
            rests.append_left _
          _ |>.Perm ((before place).toList ++ ((after head).toList ++ rest.filterMap after)) :=
            List.perm_append_comm_assoc _ _ _

/-- What `find?` finds is what `eraseP` takes away. -/
theorem perm_cons_eraseP {values : List α} {holds : α → Bool} (found : values.find? holds = some value) :
    values.Perm (value :: values.eraseP holds) := by
  induction values with
  | nil => cases found
  | cons head rest ih =>
      cases here : holds head with
      | true =>
          simp only [List.find?_cons, here, Option.some.injEq] at found
          rw [List.eraseP_cons_of_pos (by simp [here]), found]
      | false =>
          simp only [List.find?_cons, here] at found
          rw [List.eraseP_cons_of_neg (by simp [here])]
          exact ((ih found).cons head).trans (.swap _ _ _)

theorem sum_map_set (value : α → Nat) {values : List α} {place : Nat} {old : α}
    (found : values[place]? = some old) (new : α) :
    ((values.set place new).map value).sum + value old = (values.map value).sum + value new := by
  induction values generalizing place with
  | nil => simp at found
  | cons head rest ih =>
      cases place with
      | zero =>
          have same : head = old := by simpa using found
          simp only [List.set_cons_zero, List.map_cons, List.sum_cons, same]
          omega
      | succ place =>
          have tail := ih (by simpa using found)
          simp only [List.set_cons_succ, List.map_cons, List.sum_cons]
          omega

theorem sum_map_eq_zero (value : α → Nat) {values : List α} (empty : (values.map value).sum = 0) {member : α}
    (inside : member ∈ values) : value member = 0 :=
  List.sum_eq_zero_iff.mp empty _ (List.mem_map_of_mem inside)

theorem le_sum_map (value : α → Nat) {values : List α} {member : α} (inside : member ∈ values) :
    value member ≤ (values.map value).sum :=
  List.single_le_sum (fun _ _ => Nat.zero_le _) _ (List.mem_map_of_mem inside)

theorem length_le_of_nodup {values : List Nat} (lower upper : Nat) (nodup : values.Nodup)
    (within : ∀ value ∈ values, lower ≤ value ∧ value < upper) : values.length ≤ upper - lower := by
  have inside : values ⊆ List.range' lower (upper - lower) := by
    intro value member
    obtain ⟨above, below⟩ := within value member
    rw [List.mem_range'_1]
    omega
  have shorter := (nodup.subperm inside).length_le
  rwa [List.length_range'] at shorter

/-- Intervals that do not overlap have no more room than the interval they are in. -/
theorem sum_length_le {values : List α} (start length : α → Nat) (lower upper : Nat)
    (apart : values.Pairwise fun first second =>
      start first + length first ≤ start second ∨ start second + length second ≤ start first)
    (within : ∀ value ∈ values, lower ≤ start value ∧ start value + length value ≤ upper) :
    (values.map length).sum ≤ upper - lower := by
  have nodup : (values.flatMap fun value => List.range' (start value) (length value)).Nodup := by
    refine List.nodup_flatMap.mpr ⟨fun _ _ => List.nodup_range', apart.imp ?_⟩
    intro first second order place inFirst inSecond
    rw [List.mem_range'_1] at inFirst inSecond
    omega
  have short := length_le_of_nodup lower upper nodup (by
    intro place member
    obtain ⟨value, inside, covered⟩ := List.mem_flatMap.mp member
    obtain ⟨above, below⟩ := within value inside
    rw [List.mem_range'_1] at covered
    omega)
  simpa only [List.length_flatMap, List.length_range'] using short

theorem sum_change {ι : Type u} {μ : Type w} [Fintype ι] [DecidableEq ι] [AddCommMonoid μ] (before after : ι → μ)
    (place : ι) (same : ∀ index, index ≠ place → after index = before index) :
    ∑ index, after index + before place = ∑ index, before index + after place := by
  have rest : ∑ index ∈ Finset.univ.erase place, after index = ∑ index ∈ Finset.univ.erase place, before index :=
    Finset.sum_congr rfl fun index inside => same index (Finset.ne_of_mem_erase inside)
  rw [← Finset.add_sum_erase _ after (Finset.mem_univ place),
    ← Finset.add_sum_erase _ before (Finset.mem_univ place), rest, add_right_comm,
    add_comm (after place) (before place), add_right_comm]

theorem sum_acting {ι : Type u} {μ : Type w} [Fintype ι] [DecidableEq ι] [AddCommMonoid μ] (acting : Option ι)
    (before after : ι → μ) (same : ∀ index, acting ≠ some index → after index = before index) :
    ∑ index, after index + acting.elim 0 before = ∑ index, before index + acting.elim 0 after := by
  cases acting with
  | none => rw [Finset.sum_congr rfl fun index _ => same index (by simp)]; rfl
  | some place => exact sum_change before after place fun index away => same index (by simpa using Ne.symm away)

/-- Where nothing is counted, nobody counts. -/
theorem false_of_sum_nonpos {ι : Type u} [Fintype ι] (values : ι → Bool)
    (none : ∑ index, ((values index).toNat : Int) ≤ 0) (index : ι) : values index = false := by
  have part := Finset.single_le_sum (f := fun index => ((values index).toNat : Int))
    (fun index _ => Int.natCast_nonneg (values index).toNat) (Finset.mem_univ index)
  cases found : values index with
  | false => rfl
  | true =>
      simp only [found, Bool.toNat_true] at part
      omega

/-- A sum falls when one place loses more than all the others gain. -/
theorem sum_lt_of_gain {ι : Type u} [Fintype ι] [DecidableEq ι] (before after gain : ι → Nat) (place : ι)
    (others : ∀ index, index ≠ place → after index ≤ before index + gain index)
    (pays : after place + ∑ index, gain index < before place) : ∑ index, after index < ∑ index, before index := by
  have rest : ∑ index ∈ Finset.univ.erase place, after index ≤
      ∑ index ∈ Finset.univ.erase place, (before index + gain index) :=
    Finset.sum_le_sum fun index inside => others index (Finset.ne_of_mem_erase inside)
  have gains := Finset.add_sum_erase Finset.univ gain (Finset.mem_univ place)
  rw [Finset.sum_add_distrib] at rest
  rw [← Finset.add_sum_erase _ after (Finset.mem_univ place), ← Finset.add_sum_erase _ before (Finset.mem_univ place)]
  omega

theorem sum_update_add {ι : Type u} {μ : Type w} [DecidableEq ι] [AddCommMonoid μ] {members : Finset ι}
    (value : β → μ) (family : ι → β) {place : ι} (member : place ∈ members) {new : β} {gain : μ}
    (grown : value new = gain + value (family place)) :
    ∑ index ∈ members, value (Function.update family place new index) =
      gain + ∑ index ∈ members, value (family index) := by
  have rest : ∑ index ∈ members.erase place, value (Function.update family place new index) =
      ∑ index ∈ members.erase place, value (family index) := by
    apply Finset.sum_congr rfl
    intro index inside
    rw [Function.update_of_ne (Finset.ne_of_mem_erase inside)]
  rw [← Finset.add_sum_erase _ _ member, ← Finset.add_sum_erase members (fun index => value (family index)) member,
    rest, Function.update_self, grown, add_assoc]

theorem sum_update_sub {ι : Type u} {μ : Type w} [DecidableEq ι] [AddCommMonoid μ] {members : Finset ι}
    (value : β → μ) (family : ι → β) {place : ι} (member : place ∈ members) {new : β} {loss : μ}
    (shrunk : value (family place) = loss + value new) :
    loss + ∑ index ∈ members, value (Function.update family place new index) =
      ∑ index ∈ members, value (family index) := by
  have restored : value (family place) = loss + value (Function.update family place new place) := by
    rw [Function.update_self, shrunk]
  have back := sum_update_add value (Function.update family place new) member restored
  rw [← back, Function.update_idem, Function.update_eq_self]

/-- A sum pays for what one of its parts pays. -/
theorem sum_update_le {ι : Type u} [DecidableEq ι] {members : Finset ι} (value : β → Nat) (family : ι → β) {place : ι}
    (member : place ∈ members) {new : β} {paid given : Nat} (pays : value new + paid ≤ value (family place) + given) :
    ∑ index ∈ members, value (Function.update family place new index) + paid ≤
      ∑ index ∈ members, value (family index) + given := by
  rcases Nat.le_total (value new) (value (family place)) with less | more
  · have lost := sum_update_sub value family member (Nat.sub_add_cancel less).symm
    omega
  · have gained := sum_update_add value family member (Nat.sub_add_cancel more).symm
    omega

end MiniMarl.Data
