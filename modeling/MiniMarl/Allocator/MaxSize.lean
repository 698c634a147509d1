import MiniMarl.Allocator.Clients
import MiniMarl.Allocator.Layout

namespace MiniMarl.StlAllocator

open Data DefaultAllocator

def maxSize (type : ObjectType) : Word := BitVec.allOnes 64 / type.size

/-- The block that `malloc` is asked for has room for `n` objects and the base
pointer, and wherever it is, both lie inside of it. -/
structure Fits (pageSize : Word) (type : ObjectType) (n : Word) : Prop where
  asks : n.toNat * type.size.toNat + 8 ≤ (blockSize pageSize (request type n)).toNat
  inside : ∀ base memory allocation block after,
    base.toNat + (blockSize pageSize (request type n)).toNat ≤ 2 ^ 64 →
    allocate pageSize base (request type n) memory = .ok (allocation, block, after) →
    base.toNat ≤ allocation.ptr.toNat ∧
      allocation.ptr.toNat + n.toNat * type.size.toNat + 8 ≤
        base.toNat + (blockSize pageSize (request type n)).toNat

variable {pageSize : Word} {type : ObjectType} {n : Word}

theorem toNat_request_size (small : n.toNat ≤ (maxSize type).toNat) :
    (request type n).size.toNat = n.toNat * type.size.toNat := by
  have limit : n.toNat * type.size.toNat ≤ 2 ^ 64 - 1 := by
    refine (Nat.mul_le_mul_right _ small).trans ?_
    rw [maxSize, BitVec.toNat_udiv, BitVec.toNat_allOnes]
    exact Nat.div_mul_le_self ..
  rw [request, BitVec.toNat_mul, Nat.mul_comm, Nat.mod_eq_of_lt (by omega)]

theorem blockSize_request (wide : 1 < type.alignment) :
    blockSize pageSize (request type n) = allocSize type.alignment (request type n).size := by
  have aligned : 1 < (request type n).alignment := wide
  rw [blockSize, if_neg (by exact Bool.false_ne_true), if_pos aligned]
  rfl

/-- With `n` up to `max_size`, there is room exactly if the size with the
alignment and the pointer does not wrap around. -/
theorem fits_iff (wide : 1 < type.alignment) (small : n.toNat ≤ (maxSize type).toNat) :
    Fits pageSize type n ↔ n.toNat * type.size.toNat + type.alignment.toNat + 8 < 2 ^ 64 := by
  have size := toNat_request_size small
  constructor
  · intro fits
    have asks := fits.asks
    rw [blockSize_request wide, ← size] at asks
    rw [← size]
    unfold allocSize at asks
    bv_omega
  · intro bounded
    have asked := @toNat_allocSize type.alignment _ (size ▸ bounded)
    rw [size] at asked
    refine ⟨by rw [blockSize_request wide]; omega, ?_⟩
    intro base memory allocation block after ends done
    rw [blockSize_request wide, asked] at ends ⊢
    have positive : 0 < type.alignment.toNat := by bv_omega
    have ptr : allocation.ptr = alignUp base type.alignment := ptr_of_aligned rfl wide done
    have address := @toNat_alignUp base type.alignment positive (by omega)
    obtain ⟨above, below⟩ := roundUp_bounds base.toNat positive
    rw [← address, ← ptr] at above below
    omega

/-- `std::int16_t`. -/
def shortType : ObjectType := ⟨2, 2, by decide, by decide⟩

theorem fits_iff_million : Fits 4096 shortType 1000000 :=
  (fits_iff (by decide) (by decide)).mpr (by decide)

/-- At `max_size`, `malloc` is asked for 8 bytes. The base pointer is written
behind the objects, out of the block. -/
theorem request_wraps : (maxSize shortType).toNat = 2 ^ 63 - 1 ∧ ¬Fits 4096 shortType (maxSize shortType) ∧
    blockSize 4096 (request shortType (maxSize shortType)) = 8 ∧
    ∃ allocation after, allocate 4096 0x1000 (request shortType (maxSize shortType)) (fun _ => 0) =
      .ok (allocation, ⟨.aligned 0x1000, []⟩, after) ∧ allocation.ptr = 0x1000 ∧
      after.load (allocation.ptr + (request shortType (maxSize shortType)).size) = 0x1000 ∧
      0x1000 + 8 < allocation.ptr.toNat + (request shortType (maxSize shortType)).size.toNat := by
  have asked : blockSize 4096 (request shortType (maxSize shortType)) = 8 := by decide
  refine ⟨by decide, ?_, asked, _, _, rfl, by decide, Memory.load_store .., by decide⟩
  intro fits
  have asks := fits.asks
  rw [asked] at asks
  exact absurd asks (by decide)

end MiniMarl.StlAllocator
