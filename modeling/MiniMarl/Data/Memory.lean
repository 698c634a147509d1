import Mathlib.Data.BitVec
import Mathlib.Tactic.IntervalCases

namespace MiniMarl.Data

/-! Byte-addressed memory with little-endian 64-bit words.

Addresses wrap around, and so do regions: a cell lies in a region when its
distance from the first cell is less than the length.
-/

abbrev Word := BitVec 64

abbrev Memory := Word → BitVec 8

/-- The cells from `base` on. -/
def InRegion (base : Word) (length : Nat) (cell : Word) : Prop := (cell - base).toNat < length

instance : Decidable (InRegion base length cell) := inferInstanceAs (Decidable (_ < _))

namespace Memory

variable {memory other : Memory} {address : Word}

def load (memory : Memory) (address : Word) : Word :=
  memory (address + 7) ++ memory (address + 6) ++ memory (address + 5) ++ memory (address + 4) ++
    memory (address + 3) ++ memory (address + 2) ++ memory (address + 1) ++ memory address

def store (memory : Memory) (address value : Word) : Memory := fun cell =>
  if (cell - address).toNat < 8 then value.extractLsb' (8 * (cell - address).toNat) 8 else memory cell

theorem store_inside (memory : Memory) (address value offset : Word) (inside : offset.toNat < 8) :
    memory.store address value (address + offset) = value.extractLsb' (8 * offset.toNat) 8 := by
  have distance : address + offset - address = offset := by bv_omega
  rw [store, distance, if_pos inside]

theorem store_outside (value : Word) {cell : Word} (outside : ¬InRegion address 8 cell) :
    memory.store address value cell = memory cell := if_neg outside

theorem append_bytes (value : Word) :
    value.extractLsb' 56 8 ++ value.extractLsb' 48 8 ++ value.extractLsb' 40 8 ++ value.extractLsb' 32 8 ++
      value.extractLsb' 24 8 ++ value.extractLsb' 16 8 ++ value.extractLsb' 8 8 ++ value.extractLsb' 0 8 = value := by
  apply BitVec.eq_of_getLsbD_eq
  intro index bound
  simp only [BitVec.getLsbD_append, BitVec.getLsbD_extractLsb']
  interval_cases index <;> rfl

@[simp] theorem load_store (memory : Memory) (address value : Word) : (memory.store address value).load address = value := by
  have bytes := memory.store_inside address value
  have start : memory.store address value address = value.extractLsb' 0 8 := by
    simpa using bytes 0 (by decide)
  rw [load, start, bytes 1 (by decide), bytes 2 (by decide),
    bytes 3 (by decide), bytes 4 (by decide),
    bytes 5 (by decide), bytes 6 (by decide),
    bytes 7 (by decide)]
  exact append_bytes value

theorem load_congr (same : ∀ cell, InRegion address 8 cell → memory cell = other cell) :
    memory.load address = other.load address := by
  have cells : ∀ offset : Word, offset.toNat < 8 → memory (address + offset) = other (address + offset) := by
    intro offset inside
    refine same _ ?_
    have distance : address + offset - address = offset := by bv_omega
    rw [InRegion, distance]
    exact inside
  have start : memory address = other address := by simpa using cells 0 (by decide)
  simp only [load, start, cells 1 (by decide), cells 2 (by decide), cells 3 (by decide), cells 4 (by decide),
    cells 5 (by decide), cells 6 (by decide), cells 7 (by decide)]

/-- A store to a field of a region changes nothing outside the region. -/
theorem store_field_outside (value : Word) {base offset cell : Word} {length : Nat} (fits : offset.toNat + 8 ≤ length)
    (outside : ¬InRegion base length cell) : memory.store (base + offset) value cell = memory cell := by
  refine store_outside value ?_
  unfold InRegion at outside ⊢
  bv_omega

theorem load_store_apart (memory : Memory) (value : Word) (base : Word) {written read : Word}
    (below : 8 ≤ (read - written).toNat) (above : 8 ≤ (written - read).toNat) :
    (memory.store (base + written) value).load (base + read) = memory.load (base + read) := by
  refine load_congr ?_
  intro cell inside
  refine store_outside value ?_
  unfold InRegion at inside ⊢
  bv_omega

end Memory

end MiniMarl.Data
