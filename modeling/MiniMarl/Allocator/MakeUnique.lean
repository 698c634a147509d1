import MiniMarl.Allocator.Clients
import MiniMarl.Data.Arena

namespace MiniMarl

open Data

/-- An argument of `make_unique_n`, and whether it is passed as an rvalue. -/
structure Argument (β : Type) where
  value : β
  rvalue : Bool
deriving DecidableEq, Repr

/-- A constructor of `T`. `leaves` is what is left of an argument that an
object was constructed from as an rvalue. -/
structure Constructor (α β : Type) where
  build : List β → α
  leaves : β → β

/-- `std::forward` of all arguments to a constructor, which consumes the rvalues. -/
def Constructor.forward {α β : Type} (constructor : Constructor α β) (args : List (Argument β)) :
    α × List (Argument β) :=
  (constructor.build (args.map Argument.value),
    args.map fun arg => if arg.rvalue then { arg with value := constructor.leaves arg.value } else arg)

/-- `Allocator::unique_ptr`: the block that it points to, by its number. -/
structure UniquePtr where
  object : Option Nat := none
  deleter : Allocator.Deleter := {}
deriving DecidableEq, Repr

namespace UniquePtr

variable {α β : Type}

/-- One round of the loop of `make_unique_n`. -/
def constructNext (constructor : Constructor α β) (block i : Nat) (state : Arena α × List (Argument β)) :
    Except Fault (Arena α × List (Argument β)) := do
  let (value, args) := constructor.forward state.2
  let arena ← state.1.update block (Slots.construct i value)
  return (arena, args)

/-- `Allocator::make_unique_n`. The block has room for the objects that fit
into the requested size. -/
def makeUniqueN (constructor : Constructor α β) (type : ObjectType) (n : Word) (args : List (Argument β))
    (arena : Arena α) : Except Fault (UniquePtr × Arena α) :=
  match Allocator.makeUniqueN type n with
  | none => .ok ({}, arena)
  | some (request, deleter) => do
      let block := arena.length
      let arena := arena.allocate (request.size.toNat / type.size.toNat)
      let (arena, _) ← Except.loop (constructNext constructor block) n.toNat 0 (arena, args)
      return ({ object := some block, deleter := deleter }, arena)

/-- `Deleter::operator()`: the destructor of the object pointed to, and `free`. -/
def delete (block : Nat) (arena : Arena α) : Except Fault (Arena α) := do
  let arena ← arena.update block (Slots.destroy 0)
  arena.release block

/-- `~unique_ptr`, which leaves a null pointer alone. -/
def destroy (pointer : UniquePtr) (arena : Arena α) : Except Fault (Arena α) :=
  match pointer.object with
  | some block => delete block arena
  | none => .ok arena

/-- The pointer owns `n` objects made from the arguments, and in the end each of
them has been destroyed once and the block freed. A null pointer owns none. -/
def Balanced (constructor : Constructor α β) (type : ObjectType) (n : Word) (args : List (Argument β)) : Prop :=
  ∀ arena : Arena α, ∃ pointer owned ended, makeUniqueN constructor type n args arena = .ok (pointer, owned) ∧
    pointer.destroy owned = .ok ended ∧
    (pointer.object = none → n = 0 ∧ ended = arena) ∧
    ∀ block, pointer.object = some block →
      owned.slots block = .ok (List.replicate n.toNat (.live (constructor.build (args.map Argument.value)))) ∧
      ∃ region, ended[block]? = some region ∧ region.Retired

variable {constructor : Constructor α β} {type : ObjectType} {n : Word} {args : List (Argument β)}

theorem destroy_first {slot : Slot α} {rest : Slots α} (alive : slot ≠ .raw) :
    Slots.destroy 0 (slot :: rest) = .ok (.raw :: rest) :=
  @Slots.destroy_middle _ [] rest 0 slot alive rfl

/-- The deleter destroys the first object, and frees the block with the others in it. -/
theorem delete_spec {arena : Arena α} {block : Nat} {value : α} {rest : Slots α}
    (owned : arena.slots block = .ok (.live value :: rest)) :
    ∃ ended, delete block arena = .ok ended ∧ ended[block]? = some { slots := .raw :: rest, releases := 1 } := by
  have destroyed := Arena.update_ok owned (destroy_first (by simp))
  obtain ⟨ended, released, region, _⟩ := Arena.release_ok (Arena.slots_put owned (.raw :: rest))
  exact ⟨ended, by rw [delete, destroyed, Except.ok_bind, released], region⟩

theorem makeUniqueN_one (constructor : Constructor α β) (type : ObjectType) (args : List (Argument β)) (arena : Arena α) :
    ∃ pointer owned, makeUniqueN constructor type 1 args arena = .ok (pointer, owned) ∧
      pointer.object = some arena.length ∧
      owned.slots arena.length = .ok [.live (constructor.build (args.map Argument.value))] := by
  have positive : 0 < type.size.toNat := by
    have sized := type.sized
    bv_omega
  have room : (type.size * 1).toNat / type.size.toNat = 1 := by
    have same : type.size * 1 = type.size := BitVec.mul_one type.size
    rw [same, Nat.div_self positive]
  have fresh : (arena.allocate 1).slots arena.length = .ok [.raw] := arena.slots_allocate 1
  have built : Slots.construct 0 (constructor.build (args.map Argument.value)) [.raw] =
      .ok [.live (constructor.build (args.map Argument.value))] := rfl
  have updated := Arena.update_ok fresh built
  refine ⟨{ object := some arena.length, deleter := { count := 1 } }, _, ?_, rfl, Arena.slots_put fresh _⟩
  have once : (1 : Word).toNat = 0 + 1 := rfl
  have some : (1 : Word) ≠ 0 := by decide
  rw [makeUniqueN, Allocator.makeUniqueN, if_neg some]
  simp only [room, once, Except.loop, constructNext, Constructor.forward, updated, Except.ok_bind]
  rfl

theorem balanced_one (constructor : Constructor α β) (type : ObjectType) (args : List (Argument β)) :
    Balanced constructor type 1 args := by
  intro arena
  obtain ⟨pointer, owned, made, object, holds⟩ := makeUniqueN_one constructor type args arena
  obtain ⟨ended, deleted, region⟩ := delete_spec holds
  refine ⟨pointer, owned, ended, made, ?_, ?_, ?_⟩
  · rw [destroy, object]
    exact deleted
  · intro null
    rw [null] at object
    cases object
  · intro block same
    rw [object] at same
    cases same
    exact ⟨holds, _, region, rfl, by simp⟩

theorem balanced_zero (constructor : Constructor α β) (type : ObjectType) (args : List (Argument β)) :
    Balanced constructor type 0 args := by
  intro arena
  refine ⟨{}, arena, arena, rfl, rfl, fun _ => ⟨rfl, rfl⟩, ?_⟩
  intro block null
  cases null

/-- The second object is never destroyed. -/
theorem not_balanced (several : 1 < n.toNat) : ¬Balanced constructor type n args := by
  intro balanced
  obtain ⟨pointer, owned, ended, _, destroyed, null, owns⟩ := balanced []
  cases object : pointer.object with
  | none =>
      have zero := (null object).1
      rw [zero] at several
      exact absurd several (by decide)
  | some block =>
      obtain ⟨slots, region, found, _, raw⟩ := owns block object
      obtain ⟨count, more⟩ : ∃ count, n.toNat = count + 2 := ⟨n.toNat - 2, by omega⟩
      rw [more, List.replicate_succ, List.replicate_succ] at slots
      obtain ⟨last, deleted, kept⟩ := delete_spec slots
      rw [destroy, object] at destroyed
      cases deleted.symm.trans destroyed
      rw [kept] at found
      cases found
      exact absurd (raw _ (List.mem_cons_of_mem _ List.mem_cons_self)) (by simp)

/-- The lifetimes are balanced exactly for at most one object. -/
theorem balanced_iff (constructor : Constructor α β) (type : ObjectType) (n : Word) (args : List (Argument β)) :
    Balanced constructor type n args ↔ n.toNat ≤ 1 := by
  constructor
  · intro balanced
    by_contra several
    exact not_balanced (Nat.lt_of_not_le several) balanced
  · intro few
    have cases : n = 0 ∨ n = 1 := by bv_omega
    rcases cases with zero | one
    · exact zero ▸ balanced_zero constructor type args
    · exact one ▸ balanced_one constructor type args

/-- `std::string`, made from one argument. -/
def stringConstructor : Constructor String String := ⟨fun args => args.headD "", fun _ => ""⟩

def stringType : ObjectType where
  size := 32
  alignment := 8
  sized := fun zero => absurd (congrArg BitVec.toNat zero) (Nat.succ_ne_zero 31)
  aligned := fun zero => absurd (congrArg BitVec.toNat zero) (Nat.succ_ne_zero 7)

/-- Two strings from an rvalue: the second one is empty, and is never destroyed. -/
theorem makeUniqueN_leaks : ¬Balanced stringConstructor stringType 2 [⟨"unique", true⟩] ∧
    makeUniqueN stringConstructor stringType 2 [⟨"unique", true⟩] [] =
      .ok ({ object := some 0, deleter := { count := 2 } }, [{ slots := [.live "unique", .live ""] }]) ∧
    destroy { object := some 0, deleter := { count := 2 } } [{ slots := [.live "unique", .live ""] }] =
      .ok [{ slots := [.raw, .live ""], releases := 1 }] :=
  ⟨not_balanced (by decide), rfl, rfl⟩

end UniquePtr

end MiniMarl
