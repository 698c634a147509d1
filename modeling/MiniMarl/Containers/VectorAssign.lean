import MiniMarl.Containers.VectorSpec
import MiniMarl.Transition

namespace MiniMarl.ContainersVector

open Data Transition

variable {α : Type} {vector target source after : ContainersVector} {arena changed : Arena α} {values : List α}
  {storage place : Nat} {others : Nat → Prop}

/-- How every `operator=` begins. -/
def renew (n : Nat) (vector : ContainersVector) (arena : Arena α) : Except Fault (ContainersVector × Arena α) := do
  let (vector, arena) ← vector.free arena
  let (vector, arena) ← vector.reserve n arena
  return ({ vector with count := n }, arena)

/-- `operator=(const vector &)`. -/
def copyAssign (target source : ContainersVector) (arena : Arena α) : Except Fault (ContainersVector × Arena α) := do
  let (target, arena) ← target.renew source.count arena
  let arena ← Except.loop (fun i arena => do
    let value ← source.get i arena
    let storage ← target.deref
    arena.update storage (Slots.construct i value)) target.count 0 arena
  return (target, arena)

/-- `operator=(vector &&)`. -/
def moveAssign [Inhabited α] (target source : ContainersVector) (arena : Arena α) :
    Except Fault (ContainersVector × ContainersVector × Arena α) := do
  let (target, arena) ← target.renew source.count arena
  let arena ← Except.loop (fun i arena => do
    let place ← source.index i
    let row ← arena.slots place
    let (value, row) ← Slots.moveOut i row
    let storage ← target.deref
    (arena.put place row).update storage (Slots.construct i value)) target.count 0 arena
  let (source, arena) ← source.resize 0 arena
  return (target, source, arena)

/-- The targets that take `n` elements. `free` keeps the count, and drops a
block but not its capacity. -/
def Assignable (target : ContainersVector) (n : Nat) : Prop :=
  target.allocation = none ∧ (target.count = 0 ∨ n ≤ target.capacity) ∨
    target.allocation ≠ none ∧ target.count = 0 ∧ target.capacity < n

instance (target : ContainersVector) (n : Nat) : Decidable (target.Assignable n) :=
  inferInstanceAs (Decidable (_ ∨ _))

theorem reserve_empty (count : vector.count = 0) (none : vector.allocation = none) {n : Nat} (small : vector.capacity < n) :
    vector.reserve n arena = .ok ({ vector with
      capacity := max (n * 2) 8
      elements := some arena.length
      allocation := some arena.length }, arena.allocate (max (n * 2) 8)) := by
  have freed : ({ vector with capacity := max (n * 2) 8 } : ContainersVector).free (arena.allocate (max (n * 2) 8)) =
      .ok ({ vector with capacity := max (n * 2) 8 }, arena.allocate (max (n * 2) 8)) := free_empty count none
  rw [reserve, if_pos small]
  simp only [count] at freed ⊢
  rw [Except.loop, Except.ok_bind, freed]
  rfl

/-- The target has room for `n` elements and holds none, though it counts them. -/
structure Renewed (others : Nat → Prop) (target : ContainersVector) (arena : Arena α) (n : Nat)
    (fresh : ContainersVector) (changed : Arena α) (place : Nat) : Prop where
  renewed : target.renew n arena = .ok ({ fresh with count := n }, changed)
  empty : Stored fresh changed [] place
  shares : Shares others fresh changed
  buffer : fresh.buffer = target.buffer
  room : n ≤ fresh.capacity
  frame : ∀ id, others id → changed[id]? = arena[id]?

theorem renew_eq {freed fresh : ContainersVector} {between : Arena α} {n : Nat}
    (first : target.free arena = .ok (freed, between)) (second : freed.reserve n between = .ok (fresh, changed)) :
    target.renew n arena = .ok ({ fresh with count := n }, changed) := by
  simp only [renew, first, Except.ok_bind, second]
  rfl

/-- An empty target without a block takes any number of elements. -/
theorem renew_empty (stored : Stored target arena values storage) (shares : Shares others target arena)
    (inline : target.allocation = none) (count : target.count = 0) (n : Nat) :
    ∃ fresh changed place, Renewed others target arena n fresh changed place := by
  have noValues : values = [] := List.length_eq_zero_iff.mp (stored.count.symm.trans count)
  obtain ⟨fresh, changed, place, reserved, holds, still, buffer, enough, frame⟩ := reserve_spec stored shares n
  exact ⟨fresh, changed, place, renew_eq (free_empty count inline) reserved, noValues ▸ holds, still, buffer, enough, frame⟩

theorem renew_inline (stored : Stored target arena values storage) (shares : Shares others target arena)
    (inline : target.allocation = none) {n : Nat} (room : n ≤ target.capacity) :
    ∃ fresh changed place, Renewed others target arena n fresh changed place := by
  have alive : ∀ slot ∈ values.map (Slot.live : α → Slot α), slot ≠ .raw := by simp
  have count : target.count = (values.map (Slot.live : α → Slot α)).length := by simpa using stored.count
  have freed := free_inline stored.elements count stored.slots alive inline
  have emptied : List.replicate (values.map (Slot.live : α → Slot α)).length (.raw : Slot α) ++
      List.replicate (target.capacity - values.length) .raw = Slots.holding [] target.capacity := by
    have fits := stored.room
    rw [Slots.holding_nil, List.length_map, List.replicate_append_replicate]
    congr 1
    omega
  rw [emptied] at freed
  obtain ⟨fresh, changed, place, same, holds, still, buffer, frame⟩ :=
    stored.refill shares (show ([] : List α).length ≤ target.capacity from Nat.zero_le _)
  cases same
  refine ⟨_, _, place, ⟨?_, holds, still, buffer, room, frame⟩⟩
  have reserved : ∀ arena : Arena α, target.reserve n arena = .ok (target, arena) := by
    intro arena
    rw [reserve, if_neg (by omega)]
  have renewed := renew_eq freed (reserved _)
  exact renewed

/-- An empty target gives its block back, and gets another if that is larger. -/
theorem renew_block (stored : Stored target arena values storage) (shares : Shares others target arena)
    (block : target.allocation ≠ none) (count : target.count = 0) {n : Nat} (small : target.capacity < n) :
    ∃ fresh changed place, Renewed others target arena n fresh changed place := by
  have noValues : values = [] := List.length_eq_zero_iff.mp (stored.count.symm.trans count)
  subst noValues
  have known := Arena.slots_lt stored.slots
  rcases stored.home with ⟨_, inline⟩ | ⟨apart, own, _⟩
  · exact absurd inline block
  · have row : arena.slots storage = .ok ([] ++ Slots.holding [] target.capacity) := stored.slots
    obtain ⟨freedArena, freed, retired, length, kept⟩ :=
      free_block stored.elements (count.trans List.length_nil.symm) row (fun _ member => nomatch member) own
    let fresh : ContainersVector := { target with
      capacity := max (n * 2) 8
      elements := some arena.length
      allocation := some arena.length }
    have reserved : ({ target with allocation := none, elements := none } : ContainersVector).reserve n freedArena =
        .ok ({ target with
          capacity := max (n * 2) 8
          elements := some freedArena.length
          allocation := some freedArena.length }, freedArena.allocate (max (n * 2) 8)) :=
      @reserve_empty α { target with allocation := none, elements := none } freedArena count rfl n small
    rw [length] at reserved
    have old : ∀ id < arena.length, (freedArena.allocate (max (n * 2) 8))[id]? = freedArena[id]? := by
      intro id bound
      exact Arena.getElem_allocate (length ▸ bound) _
    obtain ⟨holds, still, frame⟩ : Stored fresh (freedArena.allocate (max (n * 2) 8)) [] arena.length ∧
        Shares others fresh (freedArena.allocate (max (n * 2) 8)) ∧ _ :=
      stored.regrown shares ⟨rfl, rfl⟩ ⟨rfl, rfl⟩ (Nat.zero_le _)
        (by
          have slots := Arena.slots_allocate freedArena (max (n * 2) 8)
          rw [length] at slots
          rw [Slots.holding_nil]
          exact slots)
        (fun id bound other => (old id bound).trans (kept id other))
        (by simpa [Arena.allocate] using length)
        (.inr ⟨apart, own, _, (old storage known).trans retired, rfl, Slots.all_raw _ _⟩)
    have enough : n ≤ fresh.capacity := by
      change n ≤ max (n * 2) 8
      omega
    exact ⟨fresh, _, arena.length, renew_eq freed reserved, holds, still, rfl, enough, frame⟩

theorem renew_ok (stored : Stored target arena values storage) (shares : Shares others target arena) {n : Nat}
    (fits : target.Assignable n) :
    ∃ fresh changed place, Renewed others target arena n fresh changed place := by
  rcases fits with ⟨inline, empty | room⟩ | ⟨block, empty, small⟩
  · exact renew_empty stored shares inline empty n
  · exact renew_inline stored shares inline room
  · exact renew_block stored shares block empty small

theorem copy_loop {done rest : List α} {capacity : Nat} (deref : target.deref = .ok place)
    (holds : ∀ row, Stored source (arena.put place row) (done ++ rest) storage)
    (found : arena.slots place = .ok (Slots.holding done capacity)) (room : (done ++ rest).length ≤ capacity) :
    Except.loop (fun i arena => do
        let value ← source.get i arena
        let storage ← target.deref
        arena.update storage (Slots.construct i value)) rest.length done.length arena =
      .ok (arena.put place (Slots.holding (done ++ rest) capacity)) := by
  induction rest generalizing arena done with
  | nil => rw [List.append_nil, Arena.put_self found, List.length_nil, Except.loop]
  | cons value rest ih =>
      have here := holds (Slots.holding done capacity)
      rw [Arena.put_self found] at here
      have bound : done.length < (done ++ value :: rest).length := by simp
      have read : source.get done.length arena = .ok value := by simpa using get_eq here bound
      have next : done.length < capacity := Nat.lt_of_lt_of_le bound room
      have stepped : (do
          let value ← source.get done.length arena
          let storage ← target.deref
          arena.update storage (Slots.construct done.length value)) =
          .ok (arena.put place (Slots.holding (done ++ [value]) capacity)) := by
        rw [read, Except.ok_bind, deref, Except.ok_bind]
        exact Arena.update_ok found (Slots.construct_holding value next)
      have tail := @ih (arena.put place (Slots.holding (done ++ [value]) capacity)) (done ++ [value])
        (by simpa using holds) (Arena.slots_put found _) (by simpa using room)
      rw [Arena.put_put, List.length_append, List.length_singleton] at tail
      rw [List.length_cons, Except.loop_succ _ stepped]
      simpa using tail

/-- The regions of a vector. -/
def Owns (vector : ContainersVector) (id : Nat) : Prop := id = vector.buffer ∨ vector.allocation = some id

theorem Stored.owns (stored : Stored vector arena values storage) : vector.Owns storage := by
  rcases stored.home with ⟨inline, _⟩ | ⟨_, block, _⟩
  · exact .inl inline
  · exact .inr block

theorem Stored.owned_slots (stored : Stored vector arena values storage) {id : Nat} (own : vector.Owns id) :
    ∃ row, arena.slots id = .ok row := by
  rcases own with rfl | block
  · exact stored.buffer_slots
  · rcases stored.home with ⟨_, inline⟩ | ⟨_, same, _⟩
    · rw [inline] at block
      cases block
    · rw [same] at block
      cases block
      exact ⟨_, stored.slots⟩

theorem Stored.owns_lt (stored : Stored vector arena values storage) {id : Nat} (own : vector.Owns id) :
    id < arena.length := by
  obtain ⟨row, found⟩ := stored.owned_slots own
  exact Arena.slots_lt found

theorem Stored.frame (stored : Stored vector arena values storage)
    (kept : ∀ id, vector.Owns id → changed[id]? = arena[id]?) : Stored vector changed values storage := by
  have slots : ∀ id, vector.Owns id → changed.slots id = arena.slots id := by
    intro id own
    rw [Arena.slots, Arena.slots, kept id own]
  refine ⟨stored.elements, stored.count, stored.room, (slots storage stored.owns).trans stored.slots, ?_⟩
  rcases stored.home with inline | ⟨apart, block, unused, found, raw⟩
  · exact .inl inline
  · exact .inr ⟨apart, block, unused, (slots _ (.inl rfl)).trans found, raw⟩

theorem Shares.not_owned (shares : Shares others vector arena) {id : Nat} (other : others id) : ¬vector.Owns id := by
  obtain ⟨_, notBuffer, notBlock⟩ := shares.apart id other
  intro own
  rcases own with buffer | block
  · exact notBuffer buffer
  · exact notBlock block

section Assign

variable {fresh : ContainersVector} {cleared : Arena α} {home : Nat} {elements : List α}

theorem Renewed.keeps (renewed : Renewed others target arena source.count fresh cleared home)
    (held : Stored source arena elements place) (foreign : ∀ id, source.Owns id → others id) :
    Stored source cleared elements place ∧ ∀ id, source.Owns id → id ≠ home := by
  refine ⟨held.frame fun id own => renewed.frame id (foreign id own), ?_⟩
  intro id own here
  exact renewed.shares.not_owned (foreign id own) (here ▸ renewed.empty.owns)

theorem Renewed.copyAssign_eq (renewed : Renewed others target arena source.count fresh cleared home)
    (held : Stored source arena elements place) (foreign : ∀ id, source.Owns id → others id) :
    target.copyAssign source arena = .ok ({ fresh with count := source.count },
      cleared.put home (Slots.holding elements fresh.capacity)) := by
  obtain ⟨kept, apart⟩ := renewed.keeps held foreign
  have holds : ∀ row, Stored source (cleared.put home row) ([] ++ elements) place :=
    fun row => kept.frame fun id own => Arena.getElem_put_of_ne (apart id own)
  have deref : ({ fresh with count := source.count } : ContainersVector).deref = .ok home :=
    deref_eq renewed.empty.elements
  have room := renewed.room
  rw [held.count] at room
  have looped := copy_loop deref holds renewed.empty.slots room
  rw [copyAssign, renewed.renewed, Except.ok_bind]
  simp only [List.length_nil, List.nil_append, held.count] at looped ⊢
  rw [looped]
  rfl

theorem copyAssign_yields (stored : Stored target arena values storage) (shares : Shares others target arena)
    (held : Stored source arena elements place) (foreign : ∀ id, source.Owns id → others id)
    (fits : target.Assignable source.count) :
    Yields others target arena (target.copyAssign source arena) elements := by
  obtain ⟨fresh, cleared, home, renewed⟩ := renew_ok stored shares fits
  have room := renewed.room
  rw [held.count] at room
  obtain ⟨after, changed, last, same, final, shared, sameBuffer, kept⟩ := renewed.empty.refill renewed.shares room
  rw [renewed.copyAssign_eq held foreign, held.count]
  exact ⟨after, changed, last, same, final, shared, sameBuffer.trans renewed.buffer,
    fun id other => (kept id other).trans (renewed.frame id other)⟩

end Assign

theorem dropLast_loop_objects {objects tail : Slots α} (elements : vector.elements = some storage)
    (count : vector.count = objects.length) (found : arena.slots storage = .ok (objects ++ tail))
    (alive : ∀ slot ∈ objects, slot ≠ .raw) (first : Nat) :
    Except.loop (fun _ state => state.1.dropLast state.2) objects.length first (vector, arena) =
      .ok ({ vector with count := 0 }, arena.put storage (List.replicate objects.length .raw ++ tail)) := by
  induction objects using List.reverseRecOn generalizing vector arena tail first with
  | nil =>
      have same : ({ vector with count := 0 } : ContainersVector) = vector := by
        rw [List.length_nil] at count
        rw [← count]
      rw [List.length_nil, Except.loop, same, List.replicate_zero, Arena.put_self found]
  | append_singleton objects slot ih =>
      rw [List.append_assoc, List.singleton_append] at found
      have shorter : vector.count - 1 = objects.length := by simp [count]
      have destroyed : Slots.destroy objects.length (objects ++ slot :: tail) = .ok (objects ++ .raw :: tail) :=
        Slots.destroy_middle (alive slot (by simp)) rfl
      have stepped : vector.dropLast arena =
          .ok ({ vector with count := objects.length }, arena.put storage (objects ++ .raw :: tail)) := by
        have same : ({ vector with count := objects.length } : ContainersVector).elements = some storage := elements
        rw [dropLast, shorter, deref_eq same, Except.ok_bind, Arena.update_ok found destroyed]
        rfl
      have rest := @ih { vector with count := objects.length } (arena.put storage (objects ++ .raw :: tail)) (.raw :: tail)
        elements rfl (Arena.slots_put found _) (fun slot member => alive slot (List.mem_append_left _ member)) (first + 1)
      rw [List.length_append, List.length_singleton, Except.loop_succ _ stepped, rest, Arena.put_put,
        List.replicate_succ', List.append_assoc, List.singleton_append]

theorem resize_zero [Inhabited α] {objects tail : Slots α} (elements : vector.elements = some storage)
    (count : vector.count = objects.length) (found : arena.slots storage = .ok (objects ++ tail))
    (alive : ∀ slot ∈ objects, slot ≠ .raw) :
    vector.resize 0 arena =
      .ok ({ vector with count := 0 }, arena.put storage (List.replicate objects.length .raw ++ tail)) := by
  have dropped := dropLast_loop_objects elements count found alive 0
  rw [resize, reserve, if_neg (Nat.not_lt_zero _), Except.ok_bind]
  simp only [Nat.zero_sub, Except.loop, Except.ok_bind, Nat.sub_zero, count]
  exact dropped

theorem move_loop {grown : Nat} (deref : target.deref = .ok grown) (arena : Arena α) :
    Except.loop (fun i arena => do
        let place ← source.index i
        let row ← arena.slots place
        let (value, row) ← Slots.moveOut i row
        let storage ← target.deref
        (arena.put place row).update storage (Slots.construct i value)) source.count 0 arena =
      Except.loop (source.moveTo grown) source.count 0 arena := by
  refine Except.loop_congr ?_ arena
  intro i arena inside
  have checked : source.index i = source.deref := by rw [index, if_pos (by omega)]
  simp only [moveTo, checked, deref, Except.ok_bind]

/-- A move assignment is a copy assignment that empties its source. -/
theorem moveAssign_eq [Inhabited α] (stored : Stored target arena values storage) (shares : Shares others target arena)
    {elements : List α} (held : Stored source arena elements place) (foreign : ∀ id, source.Owns id → others id)
    (fits : target.Assignable source.count) :
    target.moveAssign source arena = (do
      let (target, arena) ← target.copyAssign source arena
      let (source, arena) ← source.resize 0 arena
      return (target, source, arena)) := by
  obtain ⟨fresh, cleared, home, renewed⟩ := renew_ok stored shares fits
  obtain ⟨kept, distinct⟩ := renewed.keeps held foreign
  have apart : place ≠ home := distinct place held.owns
  have room := renewed.room
  rw [held.count] at room
  -- the rows of the source and the target after the loop
  let row : Slots α := Slots.holding elements fresh.capacity
  let left : Slots α := List.replicate elements.length .moved ++ List.replicate (source.capacity - elements.length) .raw
  have origin : cleared.slots place = .ok ([] ++ (elements.map .live ++
      List.replicate (source.capacity - elements.length) .raw)) := kept.slots
  have goal : cleared.slots home = .ok (([] : List α).map .live ++ (List.replicate elements.length .raw ++
      List.replicate (fresh.capacity - elements.length) .raw)) := by
    rw [renewed.empty.slots, Slots.holding_nil]
    simp [room]
  have looped : Except.loop (source.moveTo home) elements.length 0 cleared = .ok ((cleared.put place left).put home row) :=
    moveTo_loop kept.elements apart.symm origin goal rfl rfl
  have deref : ({ fresh with count := source.count } : ContainersVector).deref = .ok home :=
    deref_eq renewed.empty.elements
  have moved : target.moveAssign source arena = (do
      let (emptied, arena) ← source.resize 0 ((cleared.put place left).put home row)
      return ({ fresh with count := source.count }, emptied, arena)) := by
    rw [moveAssign, renewed.renewed, Except.ok_bind]
    simp only
    rw [move_loop deref, held.count, looped]
    rfl
  have movedRow : ((cleared.put place left).put home row).slots place = .ok left := by
    rw [Arena.slots_put_of_ne apart, Arena.slots_put origin]
  have copiedRow : (cleared.put home row).slots place = .ok (elements.map .live ++
      List.replicate (source.capacity - elements.length) .raw) := by
    rw [Arena.slots_put_of_ne apart]
    exact origin
  have emptyMoved := resize_zero held.elements (by simpa using held.count) movedRow (by simp)
  have emptyCopied := resize_zero held.elements (by simpa using held.count) copiedRow (by simp)
  have same : ∀ unused, ((cleared.put place left).put home row).put place unused =
      (cleared.put home row).put place unused := by
    intro unused
    rw [Arena.put_comm apart, Arena.put_put, ← Arena.put_comm apart]
  rw [List.length_map] at emptyCopied
  rw [List.length_replicate, same] at emptyMoved
  rw [moved, renewed.copyAssign_eq held foreign, Except.ok_bind, emptyMoved, ← emptyCopied]

/-- `reserve` fails when it cannot move the first element. -/
theorem reserve_fails {n : Nat} {fault : Fault} (small : vector.capacity < n) (counted : vector.count ≠ 0)
    (stuck : ({ vector with capacity := max (n * 2) 8 } : ContainersVector).moveTo arena.length 0
      (arena.allocate (max (n * 2) 8)) = .error fault) : vector.reserve n arena = .error fault := by
  obtain ⟨times, more⟩ := Nat.exists_eq_succ_of_ne_zero counted
  rw [reserve, if_pos small]
  simp only [more, Except.loop]
  rw [more] at stuck
  rw [stuck]
  rfl

/-- A target that is not assignable reads a destroyed element, or ends up
without storage. -/
theorem renew_unfit (stored : Stored target arena values storage) {n : Nat} (unfit : ¬target.Assignable n)
    (renewed : target.renew n arena = .ok (after, changed)) : after.elements = none := by
  have alive : ∀ slot ∈ values.map (Slot.live : α → Slot α), slot ≠ .raw := by simp
  have count : target.count = (values.map (Slot.live : α → Slot α)).length := by simpa using stored.count
  have known := Arena.slots_lt stored.slots
  rw [renew] at renewed
  rcases stored.home with ⟨inline, none⟩ | ⟨_, block, _⟩
  · have used : target.count ≠ 0 ∧ target.capacity < n := by
      constructor
      · exact fun empty => unfit (.inl ⟨none, .inl empty⟩)
      · exact Nat.lt_of_not_le fun room => unfit (.inl ⟨none, .inr room⟩)
    have freed := free_inline stored.elements count stored.slots alive none
    rw [freed, Except.ok_bind] at renewed
    have stuck : ({ target with capacity := max (n * 2) 8 } : ContainersVector).moveTo
        (arena.put storage (List.replicate (values.map (Slot.live : α → Slot α)).length .raw ++
          List.replicate (target.capacity - values.length) .raw)).length 0
        ((arena.put storage (List.replicate (values.map (Slot.live : α → Slot α)).length .raw ++
          List.replicate (target.capacity - values.length) .raw)).allocate (max (n * 2) 8)) = .error .absent := by
      obtain ⟨size, nonempty⟩ := Nat.exists_eq_succ_of_ne_zero (stored.count ▸ used.1)
      have elements : ({ target with capacity := max (n * 2) 8 } : ContainersVector).elements = some storage :=
        stored.elements
      rw [moveTo, deref_eq elements, Except.ok_bind, Arena.slots_allocate_of_lt (by simpa using known),
        Arena.slots_put stored.slots, Except.ok_bind]
      simp [nonempty, List.replicate_succ, Slots.moveOut]
      rfl
    have failed := reserve_fails used.2 used.1 stuck
    simp only [failed] at renewed
    cases renewed
  · obtain ⟨freedArena, freed, _⟩ := free_block stored.elements count stored.slots alive block
    rw [freed, Except.ok_bind] at renewed
    by_cases small : target.capacity < n
    · have used : target.count ≠ 0 := fun empty => unfit (.inr ⟨by simp [block], empty, small⟩)
      have failed : ({ target with allocation := none, elements := none } : ContainersVector).reserve n freedArena =
          .error .null := reserve_fails small used rfl
      simp only [failed] at renewed
      cases renewed
    · have same : ({ target with allocation := none, elements := none } : ContainersVector).reserve n freedArena =
          .ok ({ target with allocation := none, elements := none }, freedArena) := by
        rw [reserve, if_neg small]
      simp only [same] at renewed
      cases renewed
      rfl

theorem copyAssign_unfit (stored : Stored target arena values storage) (unfit : ¬target.Assignable source.count)
    (done : target.copyAssign source arena = .ok (after, changed)) : after.elements = none := by
  obtain ⟨⟨fresh, cleared⟩, renewed, rest⟩ := Except.bind_eq_ok.mp done
  obtain ⟨_, _, same⟩ := Except.bind_eq_ok.mp rest
  cases same
  exact renew_unfit stored unfit renewed

theorem moveAssign_unfit [Inhabited α] {emptied : ContainersVector} (stored : Stored target arena values storage)
    (unfit : ¬target.Assignable source.count)
    (done : target.moveAssign source arena = .ok (after, emptied, changed)) : after.elements = none := by
  obtain ⟨⟨fresh, cleared⟩, renewed, rest⟩ := Except.bind_eq_ok.mp done
  obtain ⟨_, _, rest⟩ := Except.bind_eq_ok.mp rest
  obtain ⟨⟨_, _⟩, _, same⟩ := Except.bind_eq_ok.mp rest
  cases same
  exact renew_unfit stored unfit renewed

end MiniMarl.ContainersVector
