import Mathlib.Data.Finset.Card
import Mathlib.Data.Fintype.Fin
import MiniMarl.Thread.Affinity

namespace MiniMarl

/-- `cpu_set_t`: `CPU_SETSIZE` bits. -/
abbrev CpuSet := Finset (Fin 1024)

/-- `CPU_SET`, which ignores an index that is too large. -/
def cpuSet (cpu : Nat) (mask : CpuSet) : CpuSet := if inside : cpu < 1024 then insert ⟨cpu, inside⟩ mask else mask

/-- `CPU_COUNT`. -/
def cpuCount (mask : CpuSet) : Nat := mask.card

namespace Affinity

/-- `Affinity::all`, with what `pthread_getaffinity_np` reports unless it fails. -/
def all : Option CpuSet → Affinity
  | some mask => ⟨(List.range (cpuCount mask)).map fun i => ⟨UInt16.ofNat i⟩⟩
  | none => ⟨[]⟩

end Affinity

namespace Thread

/-- The mask that `Impl::setAffinity` builds. -/
def coreMask (affinity : Affinity) : CpuSet :=
  affinity.cores.foldl (fun mask core => cpuSet core.index.toNat mask) ∅

/-- `Impl::setAffinity`: the mask of the new thread, which starts with the mask
of its creator. `setaffinity` is what `pthread_setaffinity_np` makes of the
masks that the thread has and is to get. -/
def setAffinity (setaffinity : CpuSet → CpuSet → CpuSet) (affinity : Affinity) (inherited : CpuSet) : CpuSet :=
  if affinity.cores.length = 0 then inherited else setaffinity inherited (coreMask affinity)

end Thread

namespace Affinity

variable {mask : CpuSet}

/-- `all` reports the CPUs of the mask, and a thread started with them gets it back. -/
structure RoundTrips (setaffinity : CpuSet → CpuSet → CpuSet) (mask : CpuSet) : Prop where
  once : (all (some mask)).cores.Nodup
  exact : ∀ core, core ∈ (all (some mask)).cores ↔ ∃ cpu ∈ mask, cpu.val = core.index.toNat
  back : Thread.setAffinity setaffinity (all (some mask)) mask = mask

/-- The CPUs of the mask are the first ones. -/
def Contiguous (mask : CpuSet) : Prop := ∀ cpu, cpu ∈ mask ↔ cpu.val < cpuCount mask

theorem cpuCount_le (mask : CpuSet) : cpuCount mask ≤ 1024 := card_finset_fin_le mask

theorem mem_all {core : Core} : core ∈ (all (some mask)).cores ↔ core.index.toNat < cpuCount mask := by
  have few := cpuCount_le mask
  simp only [all, List.mem_map, List.mem_range]
  constructor
  · intro found
    obtain ⟨i, inside, same⟩ := found
    rw [← same, UInt16.toNat_ofNat_of_lt' (by simp only [UInt16.size]; omega)]
    exact inside
  · intro inside
    exact ⟨core.index.toNat, inside, by rw [UInt16.ofNat_toNat]⟩

theorem all_nodup (mask : CpuSet) : (all (some mask)).cores.Nodup := by
  have few := cpuCount_le mask
  refine List.Nodup.map_on ?_ List.nodup_range
  intro first inside second inside' same
  rw [List.mem_range] at inside inside'
  have index := congrArg (fun core => core.index.toNat) same
  simpa [Nat.mod_eq_of_lt (show first < 65536 by omega), Nat.mod_eq_of_lt (show second < 65536 by omega)] using index

theorem mem_cpuSet {index : Nat} {cpu : Fin 1024} : cpu ∈ cpuSet index mask ↔ cpu.val = index ∨ cpu ∈ mask := by
  unfold cpuSet
  split
  · rw [Finset.mem_insert, Fin.ext_iff]
  · rename_i outside
    have distinct : cpu.val ≠ index := by omega
    simp [distinct]

theorem mem_coreMask {affinity : Affinity} {cpu : Fin 1024} :
    cpu ∈ Thread.coreMask affinity ↔ ∃ core ∈ affinity.cores, cpu.val = core.index.toNat := by
  have loop : ∀ (cores : List Core) (mask : CpuSet),
      cpu ∈ cores.foldl (fun mask core => cpuSet core.index.toNat mask) mask ↔
        cpu ∈ mask ∨ ∃ core ∈ cores, cpu.val = core.index.toNat := by
    intro cores
    induction cores with
    | nil => simp
    | cons core cores ih =>
        intro mask
        rw [List.foldl_cons, ih, mem_cpuSet, List.exists_mem_cons_iff, or_comm (a := cpu.val = core.index.toNat),
          or_assoc]
  simpa [Thread.coreMask] using loop affinity.cores ∅

theorem exact_iff (mask : CpuSet) :
    (∀ core, core ∈ (all (some mask)).cores ↔ ∃ cpu ∈ mask, cpu.val = core.index.toNat) ↔ Contiguous mask := by
  have few := cpuCount_le mask
  constructor
  · intro exact cpu
    have small : cpu.val < UInt16.size := Nat.lt_trans cpu.isLt (by decide)
    have index : (UInt16.ofNat cpu.val).toNat = cpu.val := UInt16.toNat_ofNat_of_lt' small
    have listed := exact ⟨UInt16.ofNat cpu.val⟩
    simp only [mem_all, index] at listed
    rw [listed]
    exact ⟨fun member => ⟨cpu, member, rfl⟩, fun ⟨other, member, same⟩ => Fin.ext same ▸ member⟩
  · intro contiguous core
    rw [mem_all]
    constructor
    · intro inside
      have bound : core.index.toNat < 1024 := Nat.lt_of_lt_of_le inside few
      exact ⟨⟨core.index.toNat, bound⟩, (contiguous _).mpr inside, rfl⟩
    · intro found
      obtain ⟨cpu, member, same⟩ := found
      rw [← same]
      exact (contiguous cpu).mp member

/-- The mask comes back exactly if its CPUs are the first ones. A thread may
always be set to the mask it has. -/
theorem roundTrips_iff {setaffinity : CpuSet → CpuSet → CpuSet} (grants : ∀ mask, setaffinity mask mask = mask)
    (mask : CpuSet) : RoundTrips setaffinity mask ↔ Contiguous mask := by
  constructor
  · intro trips
    exact (exact_iff mask).mp trips.exact
  · intro contiguous
    have exact := (exact_iff mask).mpr contiguous
    refine ⟨all_nodup mask, exact, ?_⟩
    have built : Thread.coreMask (all (some mask)) = mask := by
      ext cpu
      rw [mem_coreMask, contiguous cpu]
      constructor
      · intro found
        obtain ⟨core, member, same⟩ := found
        rw [same]
        exact mem_all.mp member
      · intro inside
        obtain ⟨core, listed⟩ : ∃ core : Core, core.index.toNat = cpu.val :=
          ⟨⟨UInt16.ofNat cpu.val⟩, UInt16.toNat_ofNat_of_lt' (Nat.lt_trans cpu.isLt (by decide))⟩
        exact ⟨core, mem_all.mpr (listed ▸ inside), listed.symm⟩
    rw [Thread.setAffinity, built, grants, ite_self]

/-- `pthread_setaffinity_np` where all CPUs are there. It refuses an empty mask. -/
def anyCpu (current requested : CpuSet) : CpuSet := if requested = ∅ then current else requested

theorem anyCpu_grants (mask : CpuSet) : anyCpu mask mask = mask := by
  rw [anyCpu, ite_self]

/-- Two CPUs. -/
theorem roundTrips_iff_two : RoundTrips anyCpu {0, 1} :=
  (roundTrips_iff anyCpu_grants {0, 1}).mpr fun cpu => by
    have two : cpuCount {0, 1} = 2 := rfl
    rw [two, Finset.mem_insert, Finset.mem_singleton]
    omega

/-- A process confined to CPU 1 gets the core 0, and a thread with all cores
is moved to CPU 0. -/
theorem all_of_second : ¬RoundTrips anyCpu {1} ∧ all (some {1}) = ⟨[⟨0⟩]⟩ ∧
    Thread.setAffinity anyCpu (all (some {1})) {1} = {0} := by
  have single : all (some {1}) = ⟨[⟨0⟩]⟩ := rfl
  have moved : Thread.setAffinity anyCpu (all (some {1})) {1} = {0} := by
    rw [single]
    rfl
  refine ⟨?_, single, moved⟩
  intro trips
  have back := trips.back
  rw [moved] at back
  exact absurd (Finset.singleton_inj.mp back) (by decide)

end Affinity

end MiniMarl
