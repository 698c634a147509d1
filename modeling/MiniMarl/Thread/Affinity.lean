import Mathlib.Data.List.Sort

namespace MiniMarl

/-- `Thread::Core`. The members of its union have the same size, and it is
compared by `pthread.index`. -/
structure Core where
  index : UInt16
deriving DecidableEq, Repr

/-- `Thread::Affinity`, by the elements of `cores`. -/
structure Affinity where
  cores : List Core
deriving DecidableEq, Repr

namespace Affinity

/-- The order that `std::sort` gets from `Core::operator<`. -/
def notAfter (first second : Core) : Prop := ¬second.index < first.index

instance : DecidableRel notAfter := fun _ _ => inferInstanceAs (Decidable (¬_))

instance : Std.Total notAfter where
  total first second := by
    rw [notAfter, notAfter, UInt16.not_lt, UInt16.not_lt]
    exact UInt16.le_total first.index second.index

instance : IsTrans Core notAfter where
  trans first second third := by
    simp only [notAfter, UInt16.not_lt]
    exact UInt16.le_trans

/-- `std::sort`. Cores that compare equal are equal. -/
def sort (cores : List Core) : List Core := cores.insertionSort notAfter

/-- The loop of `Affinity::remove`, from the index `i` on. -/
def removeLoop (set : List Core) : Nat → Nat → List Core → List Core
  | 0, _, cores => cores
  | turns + 1, i, cores =>
      match cores[i]?, cores.getLast? with
      | some core, some back =>
          if core ∈ set then removeLoop set turns (i + 1) (cores.set i back).dropLast
          else removeLoop set turns (i + 1) cores
      | _, _ => cores

/-- `Affinity::remove`. The index grows with every turn of the loop, and is
never beyond the size that the vector had. -/
def remove (affinity other : Affinity) : Affinity :=
  ⟨sort (removeLoop other.cores affinity.cores.length 0 affinity.cores)⟩

variable {affinity other : Affinity} {set finished rest : List Core} {core back : Core}

@[simp] theorem mem_sort {cores : List Core} : core ∈ sort cores ↔ core ∈ cores := List.mem_insertionSort notAfter

@[simp] theorem count_sort (core : Core) (cores : List Core) : (sort cores).count core = cores.count core :=
  (List.perm_insertionSort notAfter cores).count_eq core

/-- The places at which the loop looks too late: behind the last `k` cores but
one there is none to remove, where `k` cores are to be removed. -/
def Clear (set cores : List Core) : Prop :=
  ∀ core ∈ cores.drop (cores.length + 1 - cores.countP (· ∈ set)), core ∉ set

theorem removeLoop_keep (turns : Nat) (keeps : core ∉ set) :
    removeLoop set (turns + 1) finished.length (finished ++ core :: rest) =
      removeLoop set turns (finished ++ [core]).length (finished ++ [core] ++ rest) := by
  have here : (finished ++ core :: rest)[finished.length]? = some core := by simp
  have last : (finished ++ core :: rest).getLast? = some ((core :: rest).getLast (by simp)) := by
    simp [List.getLast?_eq_some_getLast]
  simp only [removeLoop, here, last, if_neg keeps, List.length_append, List.length_singleton, List.append_assoc,
    List.singleton_append]

theorem removeLoop_last (turns : Nat) (leaves : core ∈ set) :
    removeLoop set (turns + 1) finished.length (finished ++ [core]) =
      removeLoop set turns (finished.length + 1) finished := by
  simp [removeLoop, leaves]

/-- The last core takes the place of the removed one, and the loop goes on behind it. -/
theorem removeLoop_swap (turns : Nat) (leaves : core ∈ set) :
    removeLoop set (turns + 1) finished.length (finished ++ core :: (rest ++ [back])) =
      removeLoop set turns (finished ++ [back]).length (finished ++ [back] ++ rest) := by
  have swapped : ((finished ++ core :: (rest ++ [back])).set finished.length back).dropLast =
      finished ++ [back] ++ rest := by
    rw [List.set_append_right _ _ (Nat.le_refl _), Nat.sub_self, List.set_cons_zero, ← List.cons_append,
      ← List.append_assoc, List.dropLast_concat, List.append_assoc, List.singleton_append]
  have last : (finished ++ core :: (rest ++ [back])).getLast? = some back := by
    rw [← List.cons_append, ← List.append_assoc, List.getLast?_concat]
  have here : (finished ++ core :: (rest ++ [back]))[finished.length]? = some core := by simp
  simp only [removeLoop, here, last, if_pos leaves, swapped, List.length_append, List.length_singleton]

theorem removeLoop_end (turns : Nat) {i : Nat} (beyond : finished.length ≤ i) :
    removeLoop set turns i finished = finished := by
  cases turns with
  | zero => rfl
  | succ turns => simp [removeLoop, List.getElem?_eq_none beyond]

theorem clear_keep (keeps : core ∉ set) : Clear set (core :: rest) ↔ Clear set rest := by
  have few : rest.countP (· ∈ set) ≤ rest.length := List.countP_le_length
  have shift : rest.length + 1 + 1 - rest.countP (· ∈ set) = rest.length + 1 - rest.countP (· ∈ set) + 1 := by omega
  rw [Clear, Clear, List.countP_cons_of_neg (by simpa using keeps), List.length_cons, shift, List.drop_succ_cons]

theorem clear_swap (leaves : core ∈ set) :
    Clear set (core :: (rest ++ [back])) ↔ back ∉ set ∧ Clear set rest := by
  have few : rest.countP (· ∈ set) ≤ rest.length := List.countP_le_length
  have total : (core :: (rest ++ [back])).countP (· ∈ set) =
      rest.countP (· ∈ set) + (if back ∈ set then 1 else 0) + 1 := by
    rw [List.countP_cons_of_pos (by simpa using leaves), List.countP_append, List.countP_singleton]
    simp
  by_cases late : back ∈ set
  · refine iff_of_false ?_ fun clear => clear.1 late
    intro clear
    refine clear back ?_ late
    have shift : (core :: (rest ++ [back])).length + 1 - (core :: (rest ++ [back])).countP (· ∈ set) =
        rest.length - rest.countP (· ∈ set) + 1 := by
      rw [total, if_pos late, List.length_cons, List.length_append, List.length_singleton]
      omega
    rw [shift, List.drop_succ_cons, List.drop_append_of_le_length (Nat.sub_le _ _)]
    simp
  · have shift : (core :: (rest ++ [back])).length + 1 - (core :: (rest ++ [back])).countP (· ∈ set) =
        rest.length + 1 - rest.countP (· ∈ set) + 1 := by
      rw [total, if_neg late, List.length_cons, List.length_append, List.length_singleton]
      omega
    rw [Clear, Clear, shift, List.drop_succ_cons, List.drop_append]
    simp only [List.mem_append, late, not_false_eq_true, true_and]
    constructor
    · intro clear core member
      exact clear core (.inl member)
    · intro clear core member
      rcases member with inside | behind
      · exact clear core inside
      · have same : core = back := by simpa using List.mem_of_mem_drop behind
        exact same ▸ late

/-- The loop loses no core that is to stay. It leaves none that is to go
exactly when it never puts such a core behind its index. -/
theorem removeLoop_spec {turns : Nat} (enough : rest.length ≤ turns) :
    ((∀ core ∈ removeLoop set turns finished.length (finished ++ rest), core ∉ set) ↔
      (∀ core ∈ finished, core ∉ set) ∧ Clear set rest) ∧
    ∀ core, core ∉ set →
      (removeLoop set turns finished.length (finished ++ rest)).count core = (finished ++ rest).count core := by
  have extend : ∀ (finished : List Core) (core : Core), (∀ other ∈ finished ++ [core], other ∉ set) ↔
      (∀ other ∈ finished, other ∉ set) ∧ core ∉ set := by
    intro finished core
    simp [or_imp, forall_and]
  induction turns generalizing finished rest with
  | zero =>
      have none : rest = [] := List.length_eq_zero_iff.mp (Nat.le_zero.mp enough)
      subst none
      simp [removeLoop, Clear]
  | succ turns ih =>
      cases rest with
      | nil => simp [removeLoop_end, Clear]
      | cons core rest =>
          have fewer : rest.length ≤ turns := by simpa using enough
          by_cases leaves : core ∈ set
          · rcases rest.eq_nil_or_concat with none | ⟨front, back, shape⟩
            · subst none
              rw [removeLoop_last turns leaves, removeLoop_end turns (Nat.le_succ _)]
              refine ⟨by simp [Clear, leaves], ?_⟩
              intro other stays
              have distinct : core ≠ other := fun same => stays (same ▸ leaves)
              simp [List.count_append, distinct]
            · rw [List.concat_eq_append] at shape
              subst shape
              obtain ⟨gone, kept⟩ := @ih (finished ++ [back]) front (by simp at fewer; omega)
              rw [removeLoop_swap turns leaves, clear_swap leaves, gone, extend, and_assoc]
              refine ⟨Iff.rfl, ?_⟩
              intro other stays
              have distinct : core ≠ other := fun same => stays (same ▸ leaves)
              rw [kept other stays]
              simp only [List.count_append, List.count_cons, List.count_nil, beq_iff_eq, distinct, if_false]
              omega
          · obtain ⟨gone, kept⟩ := @ih (finished ++ [core]) rest fewer
            rw [removeLoop_keep turns leaves, clear_keep leaves, gone, extend]
            refine ⟨by simp [leaves], ?_⟩
            intro other stays
            rw [kept other stays, List.append_assoc, List.singleton_append]

/-- What `remove` should do. -/
structure Removes (affinity other : Affinity) : Prop where
  sorted : (affinity.remove other).cores.Pairwise notAfter
  gone : ∀ core ∈ other.cores, core ∉ (affinity.remove other).cores
  kept : ∀ core, core ∉ other.cores → (affinity.remove other).cores.count core = affinity.cores.count core
  again : (affinity.remove other).remove other = affinity.remove other
  all : other = affinity → (affinity.remove other).cores = []

theorem remove_spec (affinity other : Affinity) :
    ((∀ core ∈ (affinity.remove other).cores, core ∉ other.cores) ↔ Clear other.cores affinity.cores) ∧
      ∀ core, core ∉ other.cores → (affinity.remove other).cores.count core = affinity.cores.count core := by
  obtain ⟨gone, kept⟩ := @removeLoop_spec other.cores [] affinity.cores _ (Nat.le_refl affinity.cores.length)
  refine ⟨?_, ?_⟩
  · simpa [remove] using gone
  · intro core stays
    simpa [remove] using kept core stays

theorem remove_sorted (affinity other : Affinity) : (affinity.remove other).cores.Pairwise notAfter :=
  List.pairwise_insertionSort notAfter _

theorem removeLoop_keeps (turns : Nat) (stay : ∀ core ∈ rest, core ∉ set) :
    removeLoop set turns finished.length (finished ++ rest) = finished ++ rest := by
  induction turns generalizing finished rest with
  | zero => rfl
  | succ turns ih =>
      cases rest with
      | nil =>
          rw [List.append_nil]
          exact removeLoop_end _ (Nat.le_refl _)
      | cons core rest =>
          have later : ∀ other ∈ rest, other ∉ set := fun other member => stay other (List.mem_cons_of_mem core member)
          rw [removeLoop_keep turns (stay core List.mem_cons_self), ih later, List.append_assoc, List.singleton_append]

theorem remove_eq (sorted : affinity.cores.Pairwise notAfter) (absent : ∀ core ∈ affinity.cores, core ∉ other.cores) :
    affinity.remove other = affinity := by
  have unchanged := @removeLoop_keeps other.cores [] affinity.cores affinity.cores.length absent
  obtain ⟨cores⟩ := affinity
  exact congrArg Affinity.mk ((congrArg sort unchanged).trans sorted.insertionSort_eq)

/-- `remove` does what it should exactly when no core to remove is among the
last `k - 1` ones, where `k` cores are to be removed. -/
theorem removes_iff (affinity other : Affinity) : affinity.Removes other ↔ Clear other.cores affinity.cores := by
  obtain ⟨gone, kept⟩ := affinity.remove_spec other
  constructor
  · intro removes
    exact gone.mp fun core member listed => removes.gone core listed member
  · intro clear
    have absent := gone.mpr clear
    refine ⟨affinity.remove_sorted other, fun core listed member => absent core member listed, kept,
      remove_eq (affinity.remove_sorted other) absent, ?_⟩
    intro same
    refine List.eq_nil_iff_forall_not_mem.mpr ?_
    intro core member
    have outside : core ∉ other.cores := absent core member
    have none : affinity.cores.count core = 0 := List.count_eq_zero.mpr (same ▸ outside)
    rw [← kept core outside, List.count_eq_zero] at none
    exact none member

/-- The last core takes the place of the first one, and stays. -/
theorem remove_overlooks_last : ¬Removes ⟨[⟨10⟩, ⟨20⟩, ⟨30⟩]⟩ ⟨[⟨10⟩, ⟨30⟩]⟩ ∧
    remove ⟨[⟨10⟩, ⟨20⟩, ⟨30⟩]⟩ ⟨[⟨10⟩, ⟨30⟩]⟩ = ⟨[⟨20⟩, ⟨30⟩]⟩ := by
  refine ⟨?_, by decide⟩
  intro removes
  exact removes.gone ⟨30⟩ (by decide) (by decide)

end Affinity

end MiniMarl
