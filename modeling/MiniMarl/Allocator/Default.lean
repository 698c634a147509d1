import MiniMarl.Data.Fallible
import MiniMarl.Data.Memory

namespace MiniMarl

open Data

inductive Allocation.Usage where
  | undefined
  | stack
  | create
  | vector
  | list
  | stl
deriving DecidableEq, Repr

structure Allocation.Request where
  size : Word := 0
  alignment : Word := 0
  useGuards : Bool := false
  usage : Allocation.Usage := .undefined
deriving DecidableEq, Repr

structure Allocation where
  ptr : Word := 0
  request : Allocation.Request := {}
deriving DecidableEq, Repr

/-- `MARL_ASSERT`. -/
def Allocator.assert (condition : Bool) (message : String) : Except String Unit :=
  if condition then .ok () else .error message

namespace DefaultAllocator

open Allocator (assert)

def alignUp (value alignment : Word) : Word := alignment * ((value + alignment - 1) / alignment)

/-- The memory behind an allocation, by the branch that got it: the pages that
`mmap` returned, or the base that `malloc` returned. -/
inductive Backing where
  | paged (mapping count : Word)
  | aligned (base : Word)
  | plain (base : Word)
deriving DecidableEq, Repr

/-- That memory, with the pages in it that `protectPage` has been called for. -/
structure Block where
  backing : Backing
  protectedPages : List Word := []
deriving DecidableEq, Repr

def numRequestedPages (pageSize size : Word) : Word := (size + pageSize - 1) / pageSize

def numTotalPages (pageSize size : Word) (guardLow guardHigh : Bool) : Word :=
  numRequestedPages pageSize size + (if guardLow then 1 else 0) + (if guardHigh then 1 else 0)

/-- `pagedMalloc`, with the mapping that `mmap` returns. -/
def pagedMalloc (pageSize mapping alignment size : Word) (guardLow guardHigh : Bool) : Except String (Word × Block) := do
  assert (alignment < pageSize) "alignment must be less than the page size"
  let requested := numRequestedPages pageSize size
  let total := numTotalPages pageSize size guardLow guardHigh
  let mem := if guardLow then mapping + pageSize else mapping
  let low := if guardLow then [mapping] else []
  let high := if guardHigh then [mem + requested * pageSize] else []
  return (mem, { backing := .paged mapping total, protectedPages := low ++ high })

def pagedFree (pageSize ptr alignment size : Word) (guardLow guardHigh : Bool) : Except String Backing := do
  assert (alignment < pageSize) "alignment must be less than the page size"
  return .paged (if guardLow then ptr - pageSize else ptr) (numTotalPages pageSize size guardLow guardHigh)

/-- `alignedMalloc`, with the base that `malloc` returns. A copy of the base
goes behind the block. -/
def alignedMalloc (base alignment size : Word) (memory : Memory) : Word × Memory :=
  let aligned := alignUp base alignment
  (aligned, memory.store (aligned + size) base)

def alignedFree (ptr size : Word) (memory : Memory) : Backing := .aligned (memory.load (ptr + size))

/-- The three branches of `DefaultAllocator::allocate`. `base` is what `mmap`
or `malloc` returns. -/
def acquire (pageSize base : Word) (request : Allocation.Request) (memory : Memory) :
    Except String (Word × Block × Memory) :=
  if request.useGuards then do
    let (ptr, block) ← pagedMalloc pageSize base request.alignment request.size true true
    return (ptr, block, memory)
  else if 1 < request.alignment then
    let (ptr, memory) := alignedMalloc base request.alignment request.size memory
    .ok (ptr, { backing := .aligned base }, memory)
  else
    .ok (base, { backing := .plain base }, memory)

def allocate (pageSize base : Word) (request : Allocation.Request) (memory : Memory) :
    Except String (Allocation × Block × Memory) := do
  let (ptr, block, memory) ← acquire pageSize base request memory
  assert (ptr ≠ 0) "Allocation failed"
  assert (ptr % request.alignment = 0) "Allocation gave incorrect alignment"
  return ({ ptr := ptr, request := request }, block, memory)

/-- `DefaultAllocator::free`, with what goes back to `munmap` or `free`. -/
def free (pageSize : Word) (allocation : Allocation) (memory : Memory) : Except String Backing :=
  if allocation.request.useGuards then
    pagedFree pageSize allocation.ptr allocation.request.alignment allocation.request.size true true
  else if 1 < allocation.request.alignment then
    .ok (alignedFree allocation.ptr allocation.request.size memory)
  else
    .ok (.plain allocation.ptr)

variable {pageSize base : Word} {request : Allocation.Request} {memory after later : Memory} {allocation : Allocation}
  {block : Block}

theorem assert_eq_ok {condition : Bool} {message : String} {done : Unit} :
    assert condition message = .ok done ↔ condition = true := by
  cases condition <;> simp [assert]

/-- The branches of `allocate`, once its assertions have passed. -/
theorem allocate_cases (done : allocate pageSize base request memory = .ok (allocation, block, after)) :
    allocation.request = request ∧
      (request.useGuards = true ∧ request.alignment < pageSize ∧ allocation.ptr = base + pageSize ∧
          block.backing = .paged base (numTotalPages pageSize request.size true true) ∨
        request.useGuards = false ∧ 1 < request.alignment ∧ block.backing = .aligned base ∧
          after = memory.store (allocation.ptr + request.size) base ∨
        request.useGuards = false ∧ ¬1 < request.alignment ∧ allocation.ptr = base ∧ block.backing = .plain base) := by
  obtain ⟨⟨ptr, found, changed⟩, branch, rest⟩ := Except.bind_eq_ok.mp done
  obtain ⟨_, _, rest⟩ := Except.bind_eq_ok.mp rest
  obtain ⟨_, _, rest⟩ := Except.bind_eq_ok.mp rest
  cases rest
  refine ⟨rfl, ?_⟩
  unfold acquire at branch
  cases guards : request.useGuards with
  | true =>
      rw [guards, if_pos rfl] at branch
      obtain ⟨⟨mapped, pages⟩, paged, same⟩ := Except.bind_eq_ok.mp branch
      cases same
      obtain ⟨_, small, same⟩ := Except.bind_eq_ok.mp paged
      cases same
      exact .inl ⟨rfl, of_decide_eq_true (assert_eq_ok.mp small), rfl, rfl⟩
  | false =>
      rw [guards, if_neg Bool.false_ne_true] at branch
      by_cases wide : 1 < request.alignment
      · rw [if_pos wide] at branch
        cases branch
        exact .inr (.inl ⟨rfl, wide, rfl, rfl⟩)
      · rw [if_neg wide] at branch
        cases branch
        exact .inr (.inr ⟨rfl, wide, rfl, rfl⟩)

/-- An allocation that is freed as it was requested gives back what is behind
it, as long as the word behind the block is intact. -/
theorem free_allocate (done : allocate pageSize base request memory = .ok (allocation, block, after))
    (intact : ∀ cell, InRegion (allocation.ptr + request.size) 8 cell → later cell = after cell) :
    free pageSize allocation later = .ok block.backing := by
  obtain ⟨same, branch⟩ := allocate_cases done
  rcases branch with ⟨guards, small, ptr, backing⟩ | ⟨guards, wide, backing, rfl⟩ | ⟨guards, narrow, ptr, backing⟩ <;>
    rw [backing]
  · have back : base + pageSize - pageSize = base := by bv_omega
    simp [free, same, guards, pagedFree, assert, small, ptr, back]
  · have copy : later.load (allocation.ptr + request.size) = base := by
      rw [Memory.load_congr intact, Memory.load_store]
    rw [free, same, guards, if_neg Bool.false_ne_true, if_pos wide, alignedFree, copy]
  · rw [free, same, guards, if_neg Bool.false_ne_true, if_neg narrow, ptr]

end DefaultAllocator

end MiniMarl
