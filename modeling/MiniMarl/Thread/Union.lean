import Mathlib.Data.Finset.Lattice.Lemmas
import MiniMarl.Thread.Affinity

namespace MiniMarl.Affinity

/-- One round of the loop of `Affinity::add`, which leaves the set alone. -/
def addCore (set cores : List Core) (core : Core) : List Core := if core ∈ set then cores else cores ++ [core]

/-- `Affinity::add`. The set has the cores from before the loop. -/
def add (affinity other : Affinity) : Affinity :=
  ⟨sort (other.cores.foldl (addCore affinity.cores) affinity.cores)⟩

/-- What an affinity is for: a set of cores. -/
def coreSet (affinity : Affinity) : Finset Core := affinity.cores.toFinset

/-- The affinities that are nothing but their sets. -/
structure Canonical (affinity : Affinity) : Prop where
  sorted : affinity.cores.Pairwise notAfter
  nodup : affinity.cores.Nodup

variable {affinity other third : Affinity} {set : List Core} {core : Core}

instance : Std.Antisymm notAfter where
  antisymm first second late early := by
    rw [notAfter, UInt16.not_lt] at late early
    exact congrArg Core.mk (UInt16.le_antisymm late early)

/-- `std::sort` is not stable, but its result is determined. -/
theorem Canonical.ext (left : affinity.Canonical) (right : other.Canonical) (same : affinity.coreSet = other.coreSet) :
    affinity = other := by
  have perm := List.perm_of_nodup_nodup_toFinset_eq left.nodup right.nodup same
  obtain ⟨cores⟩ := affinity
  exact congrArg Affinity.mk (perm.eq_of_pairwise' left.sorted right.sorted)

theorem addCore_loop (set cores added : List Core) :
    added.foldl (addCore set) cores = cores ++ added.filter (· ∉ set) := by
  induction added generalizing cores with
  | nil => exact (List.append_nil cores).symm
  | cons core rest ih =>
      rw [List.foldl_cons, ih, addCore]
      by_cases known : core ∈ set
      · rw [if_pos known, List.filter_cons_of_neg (by simpa using known)]
      · rw [if_neg known, List.filter_cons_of_pos (by simpa using known), List.append_assoc, List.singleton_append]

theorem add_sorted (affinity other : Affinity) : (affinity.add other).cores.Pairwise notAfter :=
  List.pairwise_insertionSort notAfter _

theorem mem_add : core ∈ (affinity.add other).cores ↔ core ∈ affinity.cores ∨ core ∈ other.cores := by
  rw [add, mem_sort, addCore_loop, List.mem_append, List.mem_filter, decide_eq_true_eq]
  by_cases known : core ∈ affinity.cores
  · simp only [known, true_or]
  · simp only [known, not_false_eq_true, and_true]

theorem count_add_known (known : core ∈ affinity.cores) :
    (affinity.add other).cores.count core = affinity.cores.count core := by
  have absent : core ∉ other.cores.filter (· ∉ affinity.cores) := by
    intro added
    exact of_decide_eq_true (List.mem_filter.mp added).2 known
  rw [add, count_sort, addCore_loop, List.count_append, List.count_eq_zero.mpr absent, Nat.add_zero]

/-- The repetitions of a new core are added as well. -/
theorem count_add_new (new : core ∉ affinity.cores) :
    (affinity.add other).cores.count core = other.cores.count core := by
  rw [add, count_sort, addCore_loop, List.count_append, List.count_eq_zero.mpr new, Nat.zero_add]
  exact List.count_filter (decide_eq_true new)

theorem coreSet_add (affinity other : Affinity) : (affinity.add other).coreSet = affinity.coreSet ∪ other.coreSet := by
  ext core
  rw [Finset.mem_union, coreSet, coreSet, coreSet, List.mem_toFinset, List.mem_toFinset, List.mem_toFinset]
  exact mem_add

theorem add_canonical (unique : affinity.cores.Nodup) (unique' : other.cores.Nodup) : (affinity.add other).Canonical := by
  refine ⟨add_sorted affinity other, List.nodup_iff_count_le_one.mpr ?_⟩
  intro core
  by_cases known : core ∈ affinity.cores
  · rw [count_add_known known]
    exact List.nodup_iff_count_le_one.mp unique core
  · rw [count_add_new known]
    exact List.nodup_iff_count_le_one.mp unique' core

theorem add_comm (unique : affinity.cores.Nodup) (unique' : other.cores.Nodup) : affinity.add other = other.add affinity := by
  refine (add_canonical unique unique').ext (add_canonical unique' unique) ?_
  rw [coreSet_add, coreSet_add, Finset.union_comm]

theorem add_again (unique : affinity.cores.Nodup) (unique' : other.cores.Nodup) :
    (affinity.add other).add other = affinity.add other := by
  have once := add_canonical unique unique'
  refine (add_canonical once.nodup unique').ext once ?_
  rw [coreSet_add, coreSet_add, Finset.union_assoc, Finset.union_self]

theorem add_assoc (unique : affinity.cores.Nodup) (unique' : other.cores.Nodup) (unique'' : third.cores.Nodup) :
    (affinity.add other).add third = affinity.add (other.add third) := by
  have left := add_canonical (add_canonical unique unique').nodup unique''
  have right := add_canonical unique (add_canonical unique' unique'').nodup
  refine left.ext right ?_
  rw [coreSet_add, coreSet_add, coreSet_add, coreSet_add, Finset.union_assoc]

/-- What `add` should do. -/
structure Adds (affinity other : Affinity) : Prop where
  sorted : (affinity.add other).cores.Pairwise notAfter
  union : ∀ core, core ∈ (affinity.add other).cores ↔ core ∈ affinity.cores ∨ core ∈ other.cores
  kept : ∀ core ∈ affinity.cores, (affinity.add other).cores.count core = affinity.cores.count core
  once : ∀ core ∈ other.cores, core ∉ affinity.cores → (affinity.add other).cores.count core = 1
  commutes : affinity.cores.Nodup → other.cores.Nodup → affinity.add other = other.add affinity
  again : affinity.cores.Nodup → other.cores.Nodup → (affinity.add other).add other = affinity.add other
  associates : ∀ third : Affinity, affinity.cores.Nodup → other.cores.Nodup → third.cores.Nodup →
    (affinity.add other).add third = affinity.add (other.add third)

/-- `add` does what it should exactly when no core that it adds is repeated. -/
theorem adds_iff (affinity other : Affinity) :
    affinity.Adds other ↔ ∀ core, core ∉ affinity.cores → other.cores.count core ≤ 1 := by
  constructor
  · intro adds core new
    by_cases listed : core ∈ other.cores
    · exact Nat.le_of_eq ((count_add_new new).symm.trans (adds.once core listed new))
    · rw [List.count_eq_zero.mpr listed]
      exact Nat.zero_le 1
  · intro single
    refine ⟨add_sorted affinity other, fun core => mem_add, fun core known => count_add_known known, ?_, add_comm,
      add_again, fun third => add_assoc⟩
    intro core listed new
    rw [count_add_new new]
    exact Nat.le_antisymm (single core new) (List.count_pos_iff.mpr listed)

/-- The set does not learn of the core that the loop has just added. -/
theorem add_repeats : ¬Adds ⟨[⟨10⟩]⟩ ⟨[⟨20⟩, ⟨20⟩]⟩ ∧
    add ⟨[⟨10⟩]⟩ ⟨[⟨20⟩, ⟨20⟩]⟩ = ⟨[⟨10⟩, ⟨20⟩, ⟨20⟩]⟩ ∧
    (add ⟨[⟨10⟩]⟩ ⟨[⟨20⟩]⟩).add ⟨[⟨20⟩]⟩ = ⟨[⟨10⟩, ⟨20⟩]⟩ := by
  refine ⟨?_, by decide, by decide⟩
  intro adds
  have twice := adds.once ⟨20⟩ (by decide) (by decide)
  revert twice
  decide

end MiniMarl.Affinity
