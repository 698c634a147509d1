import MiniMarl.Data.Arena

namespace MiniMarl

open Data

/-- `containers::vector`. Its buffer is a region like the blocks of the
allocator, but is never released. Sizes are those of real memory, so nothing
wraps. -/
structure ContainersVector where
  count : Nat := 0
  capacity : Nat
  /-- The region of `buffer_`. -/
  buffer : Nat
  /-- The region that `elements_` points to. -/
  elements : Option Nat
  /-- The block of `allocation_`. -/
  allocation : Option Nat := none
deriving DecidableEq, Repr

namespace ContainersVector

variable {α : Type}

/-- The constructor. -/
def empty (baseCapacity : Nat) (arena : Arena α) : ContainersVector × Arena α :=
  ({ capacity := baseCapacity, buffer := arena.length, elements := some arena.length }, arena.allocate baseCapacity)

def deref (vector : ContainersVector) : Except Fault Nat :=
  match vector.elements with
  | some storage => .ok storage
  | none => .error .null

/-- `vector::free`. It keeps `count_` and `capacity_`. -/
def free (vector : ContainersVector) (arena : Arena α) : Except Fault (ContainersVector × Arena α) := do
  let arena ← Except.loop (fun index arena => do
    let storage ← vector.deref
    arena.update storage (Slots.destroy index)) vector.count 0 arena
  match vector.allocation with
  | some block => do
      let arena ← arena.release block
      return ({ vector with allocation := none, elements := none }, arena)
  | none => return (vector, arena)

/-- One element goes to the grown storage. -/
def moveTo (vector : ContainersVector) (grown index : Nat) (arena : Arena α) : Except Fault (Arena α) := do
  let storage ← vector.deref
  let row ← arena.slots storage
  let (value, row) ← Slots.moveOut index row
  (arena.put storage row).update grown (Slots.construct index value)

def reserve (n : Nat) (vector : ContainersVector) (arena : Arena α) : Except Fault (ContainersVector × Arena α) :=
  if vector.capacity < n then do
    let vector := { vector with capacity := max (n * 2) 8 }
    let grown := arena.length
    let arena ← Except.loop (vector.moveTo grown) vector.count 0 (arena.allocate vector.capacity)
    let (vector, arena) ← vector.free arena
    return ({ vector with elements := some grown, allocation := some grown }, arena)
  else .ok (vector, arena)

/-- Construct an element behind the others. -/
def append (value : α) (vector : ContainersVector) (arena : Arena α) : Except Fault (ContainersVector × Arena α) := do
  let storage ← vector.deref
  let arena ← arena.update storage (Slots.construct vector.count value)
  return ({ vector with count := vector.count + 1 }, arena)

/-- Destroy the last element. -/
def dropLast (vector : ContainersVector) (arena : Arena α) : Except Fault (ContainersVector × Arena α) := do
  let vector := { vector with count := vector.count - 1 }
  let storage ← vector.deref
  let arena ← arena.update storage (Slots.destroy vector.count)
  return (vector, arena)

def pushBack (value : α) (vector : ContainersVector) (arena : Arena α) : Except Fault (ContainersVector × Arena α) := do
  let (vector, arena) ← vector.reserve (vector.count + 1) arena
  vector.append value arena

def popBack (vector : ContainersVector) (arena : Arena α) : Except Fault (ContainersVector × Arena α) :=
  if 0 < vector.count then vector.dropLast arena
  else .error (.assertion "pop_back() called on empty vector")

def resize [Inhabited α] (n : Nat) (vector : ContainersVector) (arena : Arena α) :
    Except Fault (ContainersVector × Arena α) := do
  let (vector, arena) ← vector.reserve n arena
  let (vector, arena) ← Except.loop (fun _ (vector, arena) => vector.append default arena)
    (n - vector.count) 0 (vector, arena)
  Except.loop (fun _ (vector, arena) => vector.dropLast arena) (vector.count - n) 0 (vector, arena)

/-- The slot that `operator[]` refers to. -/
def index (vector : ContainersVector) (i : Nat) : Except Fault Nat :=
  if i < vector.count then vector.deref else .error (.assertion s!"index {i} exceeds vector size {vector.count}")

def get (vector : ContainersVector) (i : Nat) (arena : Arena α) : Except Fault α := do
  let storage ← vector.index i
  let row ← arena.slots storage
  Slots.peek i row

/-- An assignment to `vector[i]`. -/
def set (vector : ContainersVector) (i : Nat) (value : α) (arena : Arena α) : Except Fault (Arena α) := do
  let storage ← vector.index i
  arena.update storage (Slots.assign i value)

/-- The elements from `begin()` to `end()`. -/
def toList (vector : ContainersVector) (arena : Arena α) : Except Fault (List α) :=
  (List.range vector.count).mapM fun i => vector.get i arena

end ContainersVector

end MiniMarl
