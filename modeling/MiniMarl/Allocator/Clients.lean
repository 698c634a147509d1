import MiniMarl.Allocator.Default

namespace MiniMarl

open Data DefaultAllocator

/-- The size and the alignment of an object type. -/
structure ObjectType where
  size : Word
  alignment : Word
  sized : size ≠ 0
  aligned : alignment ≠ 0

namespace Allocator

def createRequest (type : ObjectType) : Allocation.Request :=
  { size := type.size, alignment := type.alignment, usage := .create }

/-- What `Allocator::destroy` passes to `free`. -/
def destroy (type : ObjectType) (object : Word) : Allocation :=
  { ptr := object, request := { size := type.size, alignment := type.alignment, usage := .create } }

structure Deleter where
  count : Word := 0
deriving DecidableEq, Repr

/-- What `Deleter::operator()` passes to `free`. -/
def Deleter.release (deleter : Deleter) (type : ObjectType) (object : Word) : Allocation :=
  { ptr := object, request := { size := type.size * deleter.count, usage := .create } }

/-- The request and the deleter of `make_unique_n`. -/
def makeUniqueN (type : ObjectType) (n : Word) : Option (Allocation.Request × Deleter) :=
  if n = 0 then none
  else some ({ size := type.size * n, alignment := type.alignment, usage := .create }, { count := n })

def makeUnique (type : ObjectType) : Option (Allocation.Request × Deleter) := makeUniqueN type 1

def makeShared (type : ObjectType) : Allocation.Request × Deleter :=
  ({ size := type.size, alignment := type.alignment, usage := .create }, { count := 1 })

end Allocator

def StlAllocator.request (type : ObjectType) (n : Word) : Allocation.Request :=
  { size := type.size * n, alignment := type.alignment, usage := .stl }

def StlAllocator.deallocate (type : ObjectType) (p n : Word) : Allocation :=
  { ptr := p, request := StlAllocator.request type n }

/-- The request of `vector::reserve` that grows the storage for `n` elements. -/
def ContainersVector.reserveRequest (type : ObjectType) (n : Word) : Allocation.Request :=
  let capacity := if n * 2 < 8 then 8 else n * 2
  { size := type.size * capacity, alignment := type.alignment, usage := .vector }

namespace ContainersList

/-- `sizeof(AllocationChain)` and `alignof(AllocationChain)`: a pointer, a
request of three words, and the next link. -/
def allocationChainSize : Word := 40

def allocationChainAlignment : Word := 8

def maxWord (first second : Word) : Word := if first < second then second else first

/-- `alignof(Entry)`: the element is followed by two pointers. -/
def entryAlignment (type : ObjectType) : Word := maxWord type.alignment 8

def entrySize (type : ObjectType) : Word :=
  alignUp (alignUp type.size 8 + 16) (entryAlignment type)

/-- The request of `list::grow`. -/
def growRequest (type : ObjectType) (count : Word) : Allocation.Request :=
  let entriesSize := entrySize type * count
  let allocChainOffset := alignUp entriesSize allocationChainAlignment
  { size := allocChainOffset + allocationChainSize
    alignment := maxWord (entryAlignment type) allocationChainAlignment
    usage := .list }

end ContainersList

/-- The request of `OSFiber::createFiber`. -/
def OSFiber.stackRequest (stackSize : Word) (useGuards : Bool) : Allocation.Request :=
  { size := stackSize, alignment := 16, usage := .stack, useGuards := useGuards }

namespace Allocator

inductive Client where
  | create
  | makeUnique
  | makeUniqueN
  | makeShared
  | stl
  | vector
  | list
  | fiberStack (useGuards : Bool)
deriving DecidableEq, Repr

namespace Client

/-- The request of a client for `count` objects, if it makes one. A stack has
`count` bytes. -/
def request (client : Client) (type : ObjectType) (count : Word) : Option Allocation.Request :=
  match client with
  | .create => some (createRequest type)
  | .makeUnique => (Allocator.makeUnique type).map Prod.fst
  | .makeUniqueN => (Allocator.makeUniqueN type count).map Prod.fst
  | .makeShared => some (Allocator.makeShared type).1
  | .stl => some (StlAllocator.request type count)
  | .vector => some (ContainersVector.reserveRequest type count)
  | .list => some (ContainersList.growRequest type count)
  | .fiberStack useGuards => some (OSFiber.stackRequest count useGuards)

/-- What the client passes to `free` in the end. A vector, a list and a fiber
keep the allocation, the others keep its pointer. -/
def release (client : Client) (type : ObjectType) (count : Word) (allocation : Allocation) : Allocation :=
  match client with
  | .create => destroy type allocation.ptr
  | .makeUnique => ((Allocator.makeUnique type).elim {} Prod.snd).release type allocation.ptr
  | .makeUniqueN => ((Allocator.makeUniqueN type count).elim {} Prod.snd).release type allocation.ptr
  | .makeShared => (Allocator.makeShared type).2.release type allocation.ptr
  | .stl => StlAllocator.deallocate type allocation.ptr count
  | .vector => allocation
  | .list => allocation
  | .fiberStack _ => allocation

/-- Every block that the client gets is released as it was requested: `free`
takes the branch of `allocate` and gives back what is behind the block. -/
def Repeats (client : Client) (type : ObjectType) (count : Word) : Prop :=
  ∀ request, client.request type count = some request → ∀ ptr,
    client.release type count { ptr := ptr, request := request } = { ptr := ptr, request := request } ∧
    ∀ pageSize base memory block after later,
      allocate pageSize base request memory = .ok ({ ptr := ptr, request := request }, block, after) →
      (∀ cell, InRegion (ptr + request.size) 8 cell → later cell = after cell) →
      free pageSize (client.release type count { ptr := ptr, request := request }) later = .ok block.backing

/-- A smart pointer releases the block through `Deleter`. -/
def UsesDeleter (client : Client) (count : Word) : Prop :=
  client = .makeUnique ∨ client = .makeShared ∨ client = .makeUniqueN ∧ count ≠ 0

variable {type : ObjectType} {count : Word}

theorem repeats_of_release {client : Client}
    (same : ∀ request, client.request type count = some request → ∀ ptr,
      client.release type count { ptr := ptr, request := request } = { ptr := ptr, request := request }) :
    client.Repeats type count := by
  intro request requested ptr
  have released := same request requested ptr
  refine ⟨released, ?_⟩
  intro pageSize base memory block after later done intact
  rw [released]
  exact free_allocate done intact

/-- The deleter leaves the alignment of its request at zero. -/
theorem not_repeats_of_alignment {client : Client} {request : Allocation.Request}
    (requested : client.request type count = some request) (aligned : request.alignment = type.alignment)
    (forgets : ∀ allocation, (client.release type count allocation).request.alignment = 0) :
    ¬client.Repeats type count := by
  intro repeats
  have same := (repeats request requested 0).1
  have zero := forgets { ptr := 0, request := request }
  rw [same] at zero
  exact type.aligned (aligned.symm.trans zero)

/-- The clients repeat their requests, except for the smart pointers. -/
theorem repeats_iff (client : Client) (type : ObjectType) (count : Word) :
    client.Repeats type count ↔ ¬client.UsesDeleter count := by
  cases client with
  | create =>
      refine iff_of_true (repeats_of_release ?_) (by simp [UsesDeleter])
      intro request requested ptr
      cases requested
      rfl
  | makeUnique =>
      refine iff_of_false ?_ (by simp [UsesDeleter])
      exact not_repeats_of_alignment rfl rfl fun _ => rfl
  | makeUniqueN =>
      by_cases none : count = 0
      · refine iff_of_true (repeats_of_release ?_) (by simp [UsesDeleter, none])
        intro request requested ptr
        simp [Client.request, Allocator.makeUniqueN, none] at requested
      · refine iff_of_false ?_ (not_not_intro (.inr (.inr ⟨rfl, none⟩)))
        have requested : Client.request .makeUniqueN type count =
            some { size := type.size * count, alignment := type.alignment, usage := .create } := by
          rw [Client.request, Allocator.makeUniqueN, if_neg none]
          rfl
        exact not_repeats_of_alignment requested rfl fun _ => rfl
  | makeShared =>
      refine iff_of_false ?_ (by simp [UsesDeleter])
      exact not_repeats_of_alignment rfl rfl fun _ => rfl
  | stl =>
      refine iff_of_true (repeats_of_release ?_) (by simp [UsesDeleter])
      intro request requested ptr
      cases requested
      rfl
  | vector => exact iff_of_true (repeats_of_release fun _ _ _ => rfl) (by simp [UsesDeleter])
  | list => exact iff_of_true (repeats_of_release fun _ _ _ => rfl) (by simp [UsesDeleter])
  | fiberStack useGuards => exact iff_of_true (repeats_of_release fun _ _ _ => rfl) (by simp [UsesDeleter])

/-- A type that wants more alignment than `malloc` gives. -/
def overAligned : ObjectType := ⟨32, 32, by decide, by decide⟩

/-- `malloc` returns an address that is no multiple of 32. The block starts
behind it, and the deleter passes the start of the block to `free`. -/
theorem makeUnique_frees_block : ¬Client.Repeats .makeUnique overAligned 1 ∧
    ∃ request, Client.request .makeUnique overAligned 1 = some request ∧
      ∃ after, allocate 4096 0x1010 request (fun _ => 0) = .ok (⟨0x1020, request⟩, ⟨.aligned 0x1010, []⟩, after) ∧
        Client.release .makeUnique overAligned 1 ⟨0x1020, request⟩ ≠ ⟨0x1020, request⟩ ∧
        free 4096 (Client.release .makeUnique overAligned 1 ⟨0x1020, request⟩) after = .ok (.plain 0x1020) :=
  ⟨not_repeats_of_alignment rfl rfl fun _ => rfl, _, rfl, _, rfl, by decide, rfl⟩

end Client

end Allocator

end MiniMarl
