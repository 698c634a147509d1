import Mathlib.Data.List.Basic
import MiniMarl.Data.Fallible

namespace MiniMarl.Data

/-! Storage for objects whose lifetimes are explicit.

A region is a row of slots, and an object lives in a slot from its construction
to its destruction. Moving from an object leaves it alive without its value.
A fault is an access that the program must not make.
-/

inductive Slot (α : Type) where
  | raw
  | live (value : α)
  | moved
deriving DecidableEq, Repr

inductive Fault where
  /-- Through a null pointer. -/
  | null
  | outOfBounds
  /-- To a slot without an object, or to an object without its value. -/
  | absent
  /-- A construction over an object. -/
  | occupied
  /-- To a region that has been released. -/
  | released
  | assertion (message : String)
  /-- A loop that does not end within its fuel. -/
  | unfinished
deriving DecidableEq, Repr

abbrev Slots (α : Type) := List (Slot α)

namespace Slots

variable {α : Type}

def construct (index : Nat) (value : α) (slots : Slots α) : Except Fault (Slots α) :=
  match slots[index]? with
  | none => .error .outOfBounds
  | some .raw => .ok (slots.set index (.live value))
  | some _ => .error .occupied

def destroy (index : Nat) (slots : Slots α) : Except Fault (Slots α) :=
  match slots[index]? with
  | none => .error .outOfBounds
  | some .raw => .error .absent
  | some _ => .ok (slots.set index .raw)

def assign (index : Nat) (value : α) (slots : Slots α) : Except Fault (Slots α) :=
  match slots[index]? with
  | none => .error .outOfBounds
  | some .raw => .error .absent
  | some _ => .ok (slots.set index (.live value))

def peek (index : Nat) (slots : Slots α) : Except Fault α :=
  match slots[index]? with
  | none => .error .outOfBounds
  | some (.live value) => .ok value
  | some _ => .error .absent

def moveOut (index : Nat) (slots : Slots α) : Except Fault (α × Slots α) :=
  match slots[index]? with
  | none => .error .outOfBounds
  | some (.live value) => .ok (value, slots.set index .moved)
  | some _ => .error .absent

variable {before after : Slots α} {index : Nat}

theorem getElem_middle (slot : Slot α) (position : before.length = index) :
    (before ++ slot :: after)[index]? = some slot := by
  simp [← position]

theorem set_middle (slot other : Slot α) (position : before.length = index) :
    (before ++ slot :: after).set index other = before ++ other :: after := by
  simp [← position]

theorem construct_middle (value : α) (position : before.length = index) :
    construct index value (before ++ .raw :: after) = .ok (before ++ .live value :: after) := by
  simp only [construct, getElem_middle _ position, set_middle _ _ position]

theorem destroy_middle {slot : Slot α} (alive : slot ≠ .raw) (position : before.length = index) :
    destroy index (before ++ slot :: after) = .ok (before ++ .raw :: after) := by
  simp only [destroy, getElem_middle _ position]
  cases slot with
  | raw => exact absurd rfl alive
  | live value => simp only [set_middle _ _ position]
  | moved => simp only [set_middle _ _ position]

theorem moveOut_middle (value : α) (position : before.length = index) :
    moveOut index (before ++ .live value :: after) = .ok (value, before ++ .moved :: after) := by
  simp only [moveOut, getElem_middle _ position, set_middle _ _ position]

/-- Values in front, and room behind them. -/
def holding (values : List α) (capacity : Nat) : Slots α :=
  values.map .live ++ List.replicate (capacity - values.length) .raw

@[simp] theorem length_holding {values : List α} {capacity : Nat} (room : values.length ≤ capacity) :
    (holding values capacity).length = capacity := by
  simp [holding, room]

theorem holding_nil (capacity : Nat) : holding ([] : List α) capacity = List.replicate capacity .raw := by
  simp [holding]

theorem holding_room {values : List α} {capacity : Nat} (room : values.length < capacity) :
    holding values capacity = values.map .live ++ .raw :: List.replicate (capacity - (values.length + 1)) .raw := by
  have more : capacity - values.length = capacity - (values.length + 1) + 1 := by omega
  rw [holding, more, List.replicate_succ]

theorem holding_concat {values : List α} {value : α} {capacity : Nat} :
    holding (values ++ [value]) capacity =
      values.map .live ++ .live value :: List.replicate (capacity - (values.length + 1)) .raw := by
  simp [holding]

theorem construct_holding {values : List α} (value : α) {capacity : Nat} (room : values.length < capacity) :
    construct values.length value (holding values capacity) = .ok (holding (values ++ [value]) capacity) := by
  rw [holding_room room, holding_concat]
  exact construct_middle value (by simp)

theorem destroy_holding {values : List α} {value : α} {capacity : Nat} (room : values.length < capacity) :
    destroy values.length (holding (values ++ [value]) capacity) = .ok (holding values capacity) := by
  rw [holding_room room, holding_concat]
  exact destroy_middle (by simp) (by simp)

theorem getElem_holding {values : List α} {index : Nat} (inside : index < values.length) (capacity : Nat) :
    (holding values capacity)[index]? = some (.live values[index]) := by
  rw [holding, List.getElem?_append_left (by simpa using inside)]
  simp [inside]

theorem peek_holding {values : List α} {index : Nat} (inside : index < values.length) (capacity : Nat) :
    peek index (holding values capacity) = .ok values[index] := by
  simp only [peek, getElem_holding inside]

theorem assign_holding {values : List α} {index : Nat} (inside : index < values.length) (value : α) (capacity : Nat) :
    assign index value (holding values capacity) = .ok (holding (values.set index value) capacity) := by
  simp only [assign, getElem_holding inside]
  rw [holding, holding, List.set_append_left _ _ (by simpa using inside), List.map_set, List.length_set]

theorem all_raw (first second : Nat) : ∀ slot ∈ List.replicate first (.raw : Slot α) ++ List.replicate second .raw, slot = .raw := by
  intro slot member
  rcases List.mem_append.mp member with member | member
  · exact List.eq_of_mem_replicate member
  · exact List.eq_of_mem_replicate member

theorem destroy_loop {objects : Slots α} (alive : ∀ slot ∈ objects, slot ≠ .raw) (position : before.length = index) :
    Except.loop destroy objects.length index (before ++ (objects ++ after)) =
      .ok (before ++ (List.replicate objects.length .raw ++ after)) := by
  induction objects generalizing before index with
  | nil => rfl
  | cons slot objects ih =>
      have first := @destroy_middle _ _ (objects ++ after) _ _ (alive slot List.mem_cons_self) position
      have rest := @ih (before ++ [.raw]) (index + 1) (fun slot member => alive slot (List.mem_cons_of_mem _ member))
        (by simp [position])
      rw [List.length_cons, List.cons_append, Except.loop_succ _ first]
      simpa [List.replicate_succ] using rest

end Slots

/-- `releases` counts how often the region was given back. -/
structure Region (α : Type) where
  slots : Slots α
  releases : Nat := 0
deriving DecidableEq, Repr

/-- Given back once, after the last object was destroyed. -/
def Region.Retired {α : Type} (region : Region α) : Prop := region.releases = 1 ∧ ∀ slot ∈ region.slots, slot = .raw

/-- All regions, in the order of their allocation. -/
abbrev Arena (α : Type) := List (Region α)

namespace Arena

variable {α : Type}

def slots (arena : Arena α) (id : Nat) : Except Fault (Slots α) :=
  match arena[id]? with
  | none => .error .outOfBounds
  | some region => if region.releases = 0 then .ok region.slots else .error .released

def put (arena : Arena α) (id : Nat) (slots : Slots α) : Arena α :=
  arena.modify id fun region => { region with slots := slots }

def update (arena : Arena α) (id : Nat) (change : Slots α → Except Fault (Slots α)) : Except Fault (Arena α) := do
  let slots ← arena.slots id
  let slots ← change slots
  return arena.put id slots

/-- A new region without objects; its number is the length of the arena. -/
def allocate (arena : Arena α) (capacity : Nat) : Arena α :=
  arena ++ [{ slots := List.replicate capacity .raw }]

def release (arena : Arena α) (id : Nat) : Except Fault (Arena α) :=
  match arena[id]? with
  | none => .error .outOfBounds
  | some region =>
      if region.releases = 0 then .ok (arena.modify id fun region => { region with releases := region.releases + 1 })
      else .error .released

variable {arena after : Arena α} {id other : Nat} {row changed : Slots α}

theorem slots_eq_ok : arena.slots id = .ok row ↔ arena[id]? = some { slots := row } := by
  unfold Arena.slots
  cases found : arena[id]? with
  | none => simp
  | some region =>
      obtain ⟨kept, releases⟩ := region
      by_cases fresh : releases = 0
      · simp [fresh]
      · simp [fresh]

theorem getElem_put_of_ne (distinct : other ≠ id) : (arena.put id row)[other]? = arena[other]? := by
  simp [put, Ne.symm distinct]

theorem slots_put (found : arena.slots id = .ok row) (changed : Slots α) : (arena.put id changed).slots id = .ok changed := by
  rw [slots_eq_ok] at found ⊢
  simp [put, found]

theorem slots_put_of_ne (distinct : other ≠ id) : (arena.put id changed).slots other = arena.slots other := by
  rw [Arena.slots, Arena.slots, getElem_put_of_ne distinct]

@[simp] theorem length_put : (arena.put id row).length = arena.length := by simp [put]

@[simp] theorem put_put : (arena.put id row).put id changed = arena.put id changed := by
  apply List.ext_getElem?
  intro index
  simp only [put, List.getElem?_modify]
  cases arena[index]? with
  | none => rfl
  | some region => by_cases here : id = index <;> simp [here]

theorem put_self (found : arena.slots id = .ok row) : arena.put id row = arena := by
  rw [slots_eq_ok] at found
  refine List.ext_getElem? fun index => ?_
  by_cases here : index = id
  · subst here
    simp [put, found]
  · rw [getElem_put_of_ne here]

theorem put_comm (distinct : other ≠ id) : (arena.put id row).put other changed = (arena.put other changed).put id row := by
  refine List.ext_getElem? fun index => ?_
  simp only [put, List.getElem?_modify]
  cases arena[index]? with
  | none => rfl
  | some region =>
      by_cases first : id = index
      · have second : other ≠ index := first ▸ distinct
        simp [first, second]
      · simp [first]

theorem update_ok {change : Slots α → Except Fault (Slots α)} (found : arena.slots id = .ok row)
    (done : change row = .ok changed) : arena.update id change = .ok (arena.put id changed) := by
  rw [update, found, Except.ok_bind, done, Except.ok_bind]
  rfl

/-- A loop over the slots of one region. -/
theorem loop_update {change : Nat → Slots α → Except Fault (Slots α)} {times first : Nat}
    (found : arena.slots id = .ok row) (looped : Except.loop change times first row = .ok changed) :
    Except.loop (fun index arena => arena.update id (change index)) times first arena = .ok (arena.put id changed) := by
  induction times generalizing arena first row with
  | zero =>
      cases looped
      rw [put_self found]
      rfl
  | succ times ih =>
      rw [Except.loop] at looped
      obtain ⟨next, stepped, rest⟩ := Except.bind_eq_ok.mp looped
      have tail := ih (slots_put found next) rest
      rw [put_put] at tail
      rw [Except.loop_succ _ (update_ok found stepped)]
      exact tail

theorem slots_lt (found : arena.slots id = .ok row) : id < arena.length :=
  (List.getElem?_eq_some_iff.mp (slots_eq_ok.mp found)).1

theorem getElem_allocate (known : id < arena.length) (capacity : Nat) : (arena.allocate capacity)[id]? = arena[id]? :=
  List.getElem?_append_left known

theorem slots_allocate_of_lt (known : id < arena.length) (capacity : Nat) :
    (arena.allocate capacity).slots id = arena.slots id := by
  rw [Arena.slots, Arena.slots, getElem_allocate known]

theorem slots_allocate (arena : Arena α) (capacity : Nat) :
    (arena.allocate capacity).slots arena.length = .ok (List.replicate capacity .raw) := by
  rw [slots_eq_ok]
  simp [allocate]

theorem release_ok (found : arena.slots id = .ok row) :
    ∃ after, arena.release id = .ok after ∧ after[id]? = some { slots := row, releases := 1 } ∧
      after.length = arena.length ∧ ∀ other, other ≠ id → after[other]? = arena[other]? := by
  rw [slots_eq_ok] at found
  refine ⟨arena.modify id fun region => { region with releases := region.releases + 1 }, ?_, ?_, by simp, ?_⟩
  · simp [release, found]
  · simp [found]
  · intro other distinct
    simp [Ne.symm distinct]

end Arena

end MiniMarl.Data
