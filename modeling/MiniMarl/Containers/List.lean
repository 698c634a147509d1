import MiniMarl.Data.Arena
import MiniMarl.Data.Chain

namespace MiniMarl

open Data

/-- `containers::list::Entry`. A pointer to an entry is its number. -/
structure ListEntry (α : Type) where
  data : Slot α := .raw
  next : Option Nat := none
  prev : Option Nat := none
deriving Repr

/-- A block of `list::grow`: its entries, and the link of the `AllocationChain`
behind them. -/
structure ListBlock where
  count : Nat
  next : Option Nat
  releases : Nat := 0
deriving Repr

/-- `containers::list`, with all entries and blocks in the order of their
allocation. -/
structure ContainersList (α : Type) where
  size : Nat := 0
  capacity : Nat := 0
  allocations : Option Nat := none
  free : Option Nat := none
  head : Option Nat := none
  entries : List (ListEntry α) := []
  blocks : List ListBlock := []
deriving Repr

namespace ContainersList

variable {α : Type}

/-- Dereference a pointer to an entry. -/
def entry (entries : List (ListEntry α)) (pointer : Nat) : Except Fault (ListEntry α) :=
  match entries[pointer]? with
  | some entry => .ok entry
  | none => .error .outOfBounds

/-- Write to an entry through a pointer. -/
def write (entries : List (ListEntry α)) (pointer : Nat) (change : ListEntry α → ListEntry α) :
    Except Fault (List (ListEntry α)) :=
  if pointer < entries.length then .ok (entries.modify pointer change) else .error .outOfBounds

/-- Write through a pointer unless it is null. -/
def writeIf (entries : List (ListEntry α)) (pointer : Option Nat) (change : ListEntry α → ListEntry α) :
    Except Fault (List (ListEntry α)) :=
  match pointer with
  | some pointer => write entries pointer change
  | none => .ok entries

/-- `list::unlink`, with the value of `_list` before and after it. -/
def unlink (pointer : Nat) (list : Option Nat) (entries : List (ListEntry α)) :
    Except Fault (Option Nat × List (ListEntry α)) := do
  let found ← entry entries pointer
  let list := if list = some pointer then found.next else list
  let entries ← writeIf entries found.prev fun before => { before with next := found.next }
  let found ← entry entries pointer
  let entries ← writeIf entries found.next fun behind => { behind with prev := found.prev }
  let entries ← write entries pointer fun entry => { entry with prev := none }
  let entries ← write entries pointer fun entry => { entry with next := none }
  return (list, entries)

def link (pointer : Nat) (list : Option Nat) (entries : List (ListEntry α)) :
    Except Fault (Option Nat × List (ListEntry α)) := do
  let found ← entry entries pointer
  if found.next ≠ none then .error (.assertion "link() called on entry already linked")
  else if found.prev ≠ none then .error (.assertion "link() called on entry already linked")
  else match list with
    | none => return (some pointer, entries)
    | some first => do
        let entries ← write entries pointer fun entry => { entry with next := some first }
        let entries ← write entries first fun entry => { entry with prev := some pointer }
        return (some pointer, entries)

/-- One round of the loop of `list::grow`. -/
def addFree (pointer : Nat) (free : Option Nat) (entries : List (ListEntry α)) :
    Except Fault (Option Nat × List (ListEntry α)) := do
  let entries ← write entries pointer fun entry => { entry with prev := none }
  let entries ← write entries pointer fun entry => { entry with next := free }
  let entries ← writeIf entries free fun entry => { entry with prev := some pointer }
  return (some pointer, entries)

def grow (count : Nat) (list : ContainersList α) : Except Fault (ContainersList α) := do
  let first := list.entries.length
  let (free, entries) ← Except.loop (fun i (state : Option Nat × List (ListEntry α)) => addFree (first + i) state.1 state.2)
    count 0 (list.free, list.entries ++ List.replicate count {})
  return { list with
    free := free
    entries := entries
    blocks := list.blocks ++ [{ count := count, next := list.allocations }]
    allocations := some list.blocks.length
    capacity := list.capacity + count }

/-- Construct an element in an entry. -/
def construct (pointer : Nat) (value : α) (entries : List (ListEntry α)) : Except Fault (List (ListEntry α)) := do
  let found ← entry entries pointer
  match found.data with
  | .raw => write entries pointer fun entry => { entry with data := .live value }
  | _ => .error .occupied

/-- Destroy the element of an entry. -/
def destroy (pointer : Nat) (entries : List (ListEntry α)) : Except Fault (List (ListEntry α)) := do
  let found ← entry entries pointer
  match found.data with
  | .raw => .error .absent
  | _ => write entries pointer fun entry => { entry with data := .raw }

/-- `emplace_front` grows a list without a free entry first. -/
def growIfFull (list : ContainersList α) : Except Fault (ContainersList α) :=
  if list.free = none then list.grow (max list.capacity 8) else .ok list

/-- `list::emplace_front`, with the iterator it returns. -/
def emplaceFront (value : α) (list : ContainersList α) : Except Fault (Nat × ContainersList α) := do
  let list ← list.growIfFull
  match list.free with
  | none => .error .null
  | some pointer => do
      let (free, entries) ← unlink pointer list.free list.entries
      let (head, entries) ← link pointer list.head entries
      let entries ← construct pointer value entries
      return (pointer, { list with free := free, head := head, entries := entries, size := list.size + 1 })

def erase (pointer : Nat) (list : ContainersList α) : Except Fault (ContainersList α) := do
  let (head, entries) ← unlink pointer list.head list.entries
  let (free, entries) ← link pointer list.free entries
  let entries ← destroy pointer entries
  return { list with free := free, head := head, entries := entries, size := list.size - 1 }

/-- `iterator::operator*`. -/
def deref (pointer : Nat) (list : ContainersList α) : Except Fault α := do
  let found ← entry list.entries pointer
  match found.data with
  | .live value => .ok value
  | _ => .error .absent

/-- The loop from `begin()` to `end()`, with the iterator and the element of
each round. -/
def toList (entries : List (ListEntry α)) : Nat → Option Nat → Except Fault (List (Nat × α))
  | 0, _ => .error .unfinished
  | _ + 1, none => .ok []
  | fuel + 1, some pointer => do
      let found ← entry entries pointer
      match found.data with
      | .live value => do
          let rest ← toList entries fuel found.next
          return (pointer, value) :: rest
      | _ => .error .absent

/-- The first loop of `~list`. -/
def destroyAll : Nat → Option Nat → List (ListEntry α) → Except Fault (List (ListEntry α))
  | 0, _, _ => .error .unfinished
  | _ + 1, none, entries => .ok entries
  | fuel + 1, some pointer, entries => do
      let entries ← destroy pointer entries
      let found ← entry entries pointer
      destroyAll fuel found.next entries

/-- The second loop of `~list`. The link is read before its block is freed. -/
def freeAll : Nat → Option Nat → List ListBlock → Except Fault (List ListBlock)
  | 0, _, _ => .error .unfinished
  | _ + 1, none, blocks => .ok blocks
  | fuel + 1, some block, blocks =>
      match blocks[block]? with
      | none => .error .outOfBounds
      | some found =>
          if found.releases = 0 then
            freeAll fuel found.next (blocks.modify block fun other => { other with releases := other.releases + 1 })
          else .error .released

/-- `~list`. -/
def finish (fuel : Nat) (list : ContainersList α) : Except Fault (ContainersList α) := do
  let entries ← destroyAll fuel list.head list.entries
  let blocks ← freeAll fuel list.allocations list.blocks
  return { list with entries := entries, blocks := blocks }

end ContainersList

end MiniMarl
