import MiniMarl.Allocator.Clients
import MiniMarl.Allocator.Layout
import MiniMarl.OSFiber.Machine

namespace MiniMarl.OSFiber

open Data

/-- `out->context_ = {}`. -/
def clearContext (memory : Memory) (context : Word) : Memory := fun cell =>
  if InRegion context contextSize cell then 0 else memory cell

/-- What `createFiber` makes of the memory: `self` is the new object, `context`
its `context_` and `stack` the block that the allocator has returned. -/
def createFiber (trampoline run : Word) (memory : Memory) (self context stack stackSize : Word) : Memory :=
  marlFiberSetTarget trampoline (clearContext memory context) context stack (stackSize.setWidth 32) run self

/-- `&stack_top[-2]`, with the size that `createFiber` hands on. -/
def returnSlot (stack stackSize : Word) : Word := stack + (stackSize.setWidth 32).setWidth 64 - 16

/-- `&stack_top[-3]`. -/
def stackPointer (stack stackSize : Word) : Word := stack + (stackSize.setWidth 32).setWidth 64 - 24

/-- A block that an allocator returns for a request of 16-byte alignment. -/
structure StackBlock (stack stackSize : Word) : Prop where
  aligned : stack.toNat % 16 = 0
  ends : stack.toNat + stackSize.toNat ≤ 2 ^ 64

/-- The initial stack of a fiber is aligned as at the entry of a function, and
all that is written of it lies in its block. -/
structure InitialStack (memory : Memory) (context stack stackSize : Word) : Prop where
  aligned : (MarlFiberContext.read memory context).rsp.toNat % 16 = 8
  pointer : InRegion stack stackSize.toNat (MarlFiberContext.read memory context).rsp
  slot : ∀ cell, InRegion (returnSlot stack stackSize) 8 cell → InRegion stack stackSize.toNat cell
  noReturn : memory.load (returnSlot stack stackSize) = 0

variable {stack stackSize context : Word}

theorem stackBlock_of_layout {pageSize base : Word} {guards : Bool} {block : DefaultAllocator.Block} {memory : Memory}
    (obtains : DefaultAllocator.Obtains pageSize base (stackRequest stackSize guards))
    (layout : DefaultAllocator.Layout pageSize base (stackRequest stackSize guards) stack block memory) :
    StackBlock stack stackSize where
  aligned := layout.aligned
  ends := Nat.le_trans layout.ends obtains.ends

theorem toNat_passedSize (stackSize : Word) :
    ((stackSize.setWidth 32).setWidth 64).toNat = stackSize.toNat % 2 ^ 32 := by
  simp only [BitVec.toNat_setWidth]
  exact Nat.mod_eq_of_lt (by omega)

theorem toNat_stackPointer (stack stackSize : Word) :
    (stackPointer stack stackSize).toNat = (stack.toNat + stackSize.toNat % 2 ^ 32 + (2 ^ 64 - 24)) % 2 ^ 64 := by
  have passed := toNat_passedSize stackSize
  unfold stackPointer
  bv_omega

theorem stackPointer_aligned_iff (block : StackBlock stack stackSize) :
    (stackPointer stack stackSize).toNat % 16 = 8 ↔ stackSize.toNat % 16 = 0 := by
  have aligned := block.aligned
  rw [toNat_stackPointer]
  omega

theorem stackPointer_inside_iff (block : StackBlock stack stackSize) (whole : stackSize.toNat % 16 = 0) :
    InRegion stack stackSize.toNat (stackPointer stack stackSize) ↔ 24 ≤ stackSize.toNat % 2 ^ 32 := by
  have ends := block.ends
  have small := stackSize.isLt
  have distance : (stackPointer stack stackSize - stack).toNat =
      (stackSize.toNat % 2 ^ 32 + (2 ^ 64 - 24)) % 2 ^ 64 := by
    have pointer := toNat_stackPointer stack stackSize
    bv_omega
  rw [InRegion, distance]
  omega

theorem returnSlot_inside (enough : 24 ≤ stackSize.toNat % 2 ^ 32) {cell : Word}
    (inside : InRegion (returnSlot stack stackSize) 8 cell) : InRegion stack stackSize.toNat cell := by
  have passed := toNat_passedSize stackSize
  unfold InRegion returnSlot at *
  bv_omega

/-- `marl_fiber_set_target` does not hit the context when it stays in the block. -/
theorem rsp_createFiber (trampoline run : Word) (memory : Memory) (self : Word)
    (apart : ∀ cell, InRegion stack stackSize.toNat cell → ¬InRegion context contextSize cell)
    (slot : ∀ cell, InRegion (returnSlot stack stackSize) 8 cell → InRegion stack stackSize.toNat cell) :
    (MarlFiberContext.read (createFiber trampoline run memory self context stack stackSize) context).rsp =
      stackPointer stack stackSize := by
  rw [createFiber, read_marlFiberSetTarget]
  · rfl
  · intro cell inside
    exact apart cell (slot cell inside)

theorem InitialStack.fits {trampoline run self : Word} {memory : Memory} (block : StackBlock stack stackSize)
    (apart : ∀ cell, InRegion stack stackSize.toNat cell → ¬InRegion context contextSize cell)
    (initial : InitialStack (createFiber trampoline run memory self context stack stackSize) context stack stackSize) :
    stackSize.toNat % 16 = 0 ∧ 24 ≤ stackSize.toNat % 2 ^ 32 := by
  have rsp := rsp_createFiber trampoline run memory self apart initial.slot
  have aligned := initial.aligned
  have inside := initial.pointer
  rw [rsp] at aligned inside
  have whole := (stackPointer_aligned_iff block).mp aligned
  exact ⟨whole, (stackPointer_inside_iff block whole).mp inside⟩

theorem initialStack_of_fits (trampoline run : Word) (memory : Memory) (self : Word) (block : StackBlock stack stackSize)
    (apart : ∀ cell, InRegion stack stackSize.toNat cell → ¬InRegion context contextSize cell)
    (whole : stackSize.toNat % 16 = 0) (enough : 24 ≤ stackSize.toNat % 2 ^ 32) :
    InitialStack (createFiber trampoline run memory self context stack stackSize) context stack stackSize := by
  have slot : ∀ cell, InRegion (returnSlot stack stackSize) 8 cell → InRegion stack stackSize.toNat cell :=
    fun cell inside => returnSlot_inside enough inside
  have rsp := rsp_createFiber trampoline run memory self apart slot
  refine ⟨?_, ?_, slot, ?_⟩
  · rw [rsp]
    exact (stackPointer_aligned_iff block).mpr whole
  · rw [rsp]
    exact (stackPointer_inside_iff block whole).mpr enough
  · exact Memory.load_store _ _ _

/-- The initial stack is right just when the size is a multiple of the alignment
and what a `uint32_t` keeps of it holds the three words below the top. -/
theorem initialStack_iff (trampoline run : Word) (memory : Memory) (self : Word) (block : StackBlock stack stackSize)
    (apart : ∀ cell, InRegion stack stackSize.toNat cell → ¬InRegion context contextSize cell) :
    InitialStack (createFiber trampoline run memory self context stack stackSize) context stack stackSize ↔
      stackSize.toNat % 16 = 0 ∧ 24 ≤ stackSize.toNat % 2 ^ 32 :=
  ⟨fun initial => initial.fits block apart,
    fun fits => initialStack_of_fits trampoline run memory self block apart fits.1 fits.2⟩

/-- A stack of a page, with the context on the page below. -/
theorem initialStack_iff_page :
    InitialStack (createFiber 0x400000 0x400100 (fun _ => 0) 0x1000 0x1008 0x2000 0x1000) 0x1008 0x2000 0x1000 ↔
      (0x1000 : Word).toNat % 16 = 0 ∧ 24 ≤ (0x1000 : Word).toNat % 2 ^ 32 := by
  refine initialStack_iff 0x400000 0x400100 (fun _ => 0) 0x1000 ⟨by decide, by decide⟩ ?_
  intro cell inside
  unfold InRegion contextSize at *
  bv_omega

/-- A fiber of such a size starts well on the stack that `DefaultAllocator` gives
it, wherever that is, and whether or not it has guard pages. -/
theorem initialStack_of_allocate {pageSize base : Word} {guards : Bool} (trampoline run : Word) (memory : Memory)
    (valid : DefaultAllocator.Valid pageSize (stackRequest stackSize guards))
    (obtains : DefaultAllocator.Obtains pageSize base (stackRequest stackSize guards))
    (whole : stackSize.toNat % 16 = 0) (enough : 24 ≤ stackSize.toNat % 2 ^ 32) :
    ∃ allocation block after,
      DefaultAllocator.allocate pageSize base (stackRequest stackSize guards) memory = .ok (allocation, block, after) ∧
      ∀ self context, (∀ cell, InRegion allocation.ptr stackSize.toNat cell → ¬InRegion context contextSize cell) →
        InitialStack (createFiber trampoline run after self context allocation.ptr stackSize) context allocation.ptr
          stackSize := by
  obtain ⟨allocation, block, after, done, _, _, layout⟩ := DefaultAllocator.layout_of_allocate memory valid obtains
  refine ⟨allocation, block, after, done, ?_⟩
  intro self context apart
  exact initialStack_of_fits trampoline run after self (stackBlock_of_layout obtains layout) apart whole enough

/-- A stack of 9999 bytes. -/
theorem initialStack_unaligned :
    StackBlock 0x2000 9999 ∧ (∀ cell, InRegion 0x2000 9999 cell → ¬InRegion 0x1008 contextSize cell) ∧
      ¬InitialStack (createFiber 0x400000 0x400100 (fun _ => 0) 0x1000 0x1008 0x2000 9999) 0x1008 0x2000 9999 := by
  have apart : ∀ cell, InRegion 0x2000 9999 cell → ¬InRegion 0x1008 contextSize cell := by
    intro cell inside
    unfold InRegion contextSize at *
    bv_omega
  refine ⟨⟨by decide, by decide⟩, apart, ?_⟩
  intro initial
  have aligned := initial.aligned
  rw [rsp_createFiber 0x400000 0x400100 (fun _ => 0) 0x1000 apart initial.slot] at aligned
  exact absurd aligned (by decide)

end MiniMarl.OSFiber
