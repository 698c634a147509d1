import MiniMarl.Containers.Vector

namespace MiniMarl.ContainersVector

open Data

variable {α : Type} {vector after : ContainersVector} {arena changed : Arena α} {values : List α} {storage : Nat}

/-- The vector holds the values at the front of its storage. -/
structure Stored (vector : ContainersVector) (arena : Arena α) (values : List α) (storage : Nat) : Prop where
  elements : vector.elements = some storage
  count : vector.count = values.length
  room : values.length ≤ vector.capacity
  slots : arena.slots storage = .ok (Slots.holding values vector.capacity)
  home : storage = vector.buffer ∧ vector.allocation = none ∨
    storage ≠ vector.buffer ∧ vector.allocation = some storage ∧
      ∃ unused, arena.slots vector.buffer = .ok unused ∧ ∀ slot ∈ unused, slot = .raw

/-- The vector shares the arena with owners of other regions. Every region is
somebody's, or was given back once without objects in it. -/
structure Shares (others : Nat → Prop) (vector : ContainersVector) (arena : Arena α) : Prop where
  accounts : ∀ id region, arena[id]? = some region →
    id = vector.buffer ∨ vector.allocation = some id ∨ others id ∨ region.Retired
  apart : ∀ id, others id → id < arena.length ∧ id ≠ vector.buffer ∧ vector.allocation ≠ some id

/-- An operation ends with these values in the vector, and leaves the regions
of the others alone. -/
def Yields (others : Nat → Prop) (vector : ContainersVector) (arena : Arena α)
    (result : Except Fault (ContainersVector × Arena α)) (values : List α) : Prop :=
  ∃ after changed storage, result = .ok (after, changed) ∧ Stored after changed values storage ∧
    Shares others after changed ∧ after.buffer = vector.buffer ∧ ∀ id, others id → changed[id]? = arena[id]?

theorem deref_eq (elements : vector.elements = some storage) : vector.deref = .ok storage := by
  rw [deref, elements]

theorem destroy_elements {objects tail : Slots α} (elements : vector.elements = some storage)
    (count : vector.count = objects.length) (found : arena.slots storage = .ok (objects ++ tail))
    (alive : ∀ slot ∈ objects, slot ≠ .raw) :
    Except.loop (fun index arena => do
        let storage ← vector.deref
        arena.update storage (Slots.destroy index)) vector.count 0 arena =
      .ok (arena.put storage (List.replicate objects.length .raw ++ tail)) := by
  simp only [deref_eq elements, Except.ok_bind, count]
  have destroyed : Except.loop Slots.destroy objects.length 0 ([] ++ (objects ++ tail)) =
      .ok ([] ++ (List.replicate objects.length .raw ++ tail)) := Slots.destroy_loop alive rfl
  exact Arena.loop_update found destroyed

theorem free_inline {objects tail : Slots α} (elements : vector.elements = some storage)
    (count : vector.count = objects.length) (found : arena.slots storage = .ok (objects ++ tail))
    (alive : ∀ slot ∈ objects, slot ≠ .raw) (inline : vector.allocation = none) :
    vector.free arena = .ok (vector, arena.put storage (List.replicate objects.length .raw ++ tail)) := by
  rw [free, destroy_elements elements count found alive, Except.ok_bind, inline]
  rfl

theorem free_block {objects tail : Slots α} (elements : vector.elements = some storage)
    (count : vector.count = objects.length) (found : arena.slots storage = .ok (objects ++ tail))
    (alive : ∀ slot ∈ objects, slot ≠ .raw) (block : vector.allocation = some storage) :
    ∃ changed, vector.free arena = .ok ({ vector with allocation := none, elements := none }, changed) ∧
      changed[storage]? = some { slots := List.replicate objects.length .raw ++ tail, releases := 1 } ∧
      changed.length = arena.length ∧ ∀ other, other ≠ storage → changed[other]? = arena[other]? := by
  have put := Arena.slots_put found (List.replicate objects.length .raw ++ tail)
  obtain ⟨changed, released, retired, length, others⟩ := Arena.release_ok put
  refine ⟨changed, ?_, retired, by simpa using length, ?_⟩
  · rw [free, destroy_elements elements count found alive, Except.ok_bind, block]
    simp only [released, Except.ok_bind]
    rfl
  · intro other distinct
    rw [others other distinct, Arena.getElem_put_of_ne distinct]

theorem free_empty (count : vector.count = 0) (inline : vector.allocation = none) :
    vector.free arena = .ok (vector, arena) := by
  rw [free, count, inline]
  rfl

theorem moveTo_loop {grown index : Nat} {before tail room : Slots α} {done : List α}
    (elements : vector.elements = some storage) (distinct : grown ≠ storage)
    (source : arena.slots storage = .ok (before ++ (values.map .live ++ tail)))
    (target : arena.slots grown = .ok (done.map .live ++ (List.replicate values.length .raw ++ room)))
    (position : before.length = index) (reached : done.length = index) :
    Except.loop (vector.moveTo grown) values.length index arena =
      .ok ((arena.put storage (before ++ (List.replicate values.length .moved ++ tail))).put grown
        ((done ++ values).map .live ++ room)) := by
  induction values generalizing arena before done index with
  | nil =>
      have first : arena.put storage (before ++ tail) = arena := Arena.put_self (by simpa using source)
      have second : arena.put grown (done.map .live ++ room) = arena := Arena.put_self (by simpa using target)
      simp [Except.loop, first, second]
  | cons value values ih =>
      have taken : Slots.moveOut index (before ++ .live value :: (values.map .live ++ tail)) =
          .ok (value, before ++ .moved :: (values.map .live ++ tail)) := Slots.moveOut_middle value position
      have placed : Slots.construct index value (done.map .live ++ .raw :: (List.replicate values.length .raw ++ room)) =
          .ok (done.map .live ++ .live value :: (List.replicate values.length .raw ++ room)) :=
        Slots.construct_middle value (by simpa using reached)
      have kept : (arena.put storage (before ++ .moved :: (values.map .live ++ tail))).slots grown = arena.slots grown :=
        Arena.slots_put_of_ne distinct
      have stepped : vector.moveTo grown index arena =
          .ok ((arena.put storage (before ++ .moved :: (values.map .live ++ tail))).put grown
            (done.map .live ++ .live value :: (List.replicate values.length .raw ++ room))) := by
        rw [moveTo, deref_eq elements, Except.ok_bind, source, Except.ok_bind, List.map_cons, List.cons_append, taken,
          Except.ok_bind]
        exact Arena.update_ok (kept.trans target) placed
      rw [List.length_cons, Except.loop_succ _ stepped]
      have rest := @ih ((arena.put storage (before ++ .moved :: (values.map .live ++ tail))).put grown
          (done.map .live ++ .live value :: (List.replicate values.length .raw ++ room)))
        (index + 1) (before ++ [.moved]) (done ++ [value])
        (by
          rw [Arena.slots_put_of_ne (Ne.symm distinct), Arena.slots_put source]
          simp)
        (by
          rw [Arena.slots_put (kept.trans target)]
          simp)
        (by simp [position]) (by simp [reached])
      rw [rest, Arena.put_comm (Ne.symm distinct), Arena.put_put, Arena.put_put]
      simp [List.replicate_succ]

variable {others : Nat → Prop}

theorem Stored.buffer_slots (stored : Stored vector arena values storage) :
    ∃ row, arena.slots vector.buffer = .ok row := by
  rcases stored.home with ⟨inline, _⟩ | ⟨_, _, row, found, _⟩
  · exact ⟨_, inline ▸ stored.slots⟩
  · exact ⟨row, found⟩

/-- The values have moved to a new block, and the old storage is empty: it is
the buffer, or it has been given back. -/
theorem Stored.regrown (stored : Stored vector arena values storage) (shares : Shares others vector arena)
    (same : after.count = vector.count ∧ after.buffer = vector.buffer)
    (block : after.elements = some arena.length ∧ after.allocation = some arena.length)
    (room : values.length ≤ after.capacity)
    (filled : changed.slots arena.length = .ok (Slots.holding values after.capacity))
    (kept : ∀ id < arena.length, id ≠ storage → changed[id]? = arena[id]?)
    (length : changed.length = arena.length + 1)
    (old : (storage = vector.buffer ∧ ∃ unused, changed.slots storage = .ok unused ∧ ∀ slot ∈ unused, slot = .raw) ∨
      storage ≠ vector.buffer ∧ vector.allocation = some storage ∧
        ∃ region, changed[storage]? = some region ∧ region.Retired) :
    Stored after changed values arena.length ∧ Shares others after changed ∧
      ∀ id, others id → changed[id]? = arena[id]? := by
  obtain ⟨bufferRow, bufferFound⟩ := stored.buffer_slots
  have inside := Arena.slots_lt bufferFound
  have frame : ∀ id, others id → changed[id]? = arena[id]? := by
    intro id other
    obtain ⟨known, notBuffer, notBlock⟩ := shares.apart id other
    refine kept id known ?_
    intro here
    rcases stored.home with ⟨inline, _⟩ | ⟨_, block, _⟩
    · exact notBuffer (here.trans inline)
    · exact notBlock (block.trans (congrArg some here.symm))
  refine ⟨⟨block.1, same.1.trans stored.count, room, filled, .inr ⟨?_, block.2, ?_⟩⟩, ⟨?_, ?_⟩, frame⟩
  · rw [same.2]
    exact Nat.ne_of_gt inside
  · rw [same.2]
    rcases old with ⟨inline, unused, found, raw⟩ | ⟨apart, allocation, _⟩
    · exact ⟨unused, inline ▸ found, raw⟩
    · rcases stored.home with ⟨inline, _⟩ | ⟨_, _, unused, found, raw⟩
      · exact absurd inline apart
      · refine ⟨unused, ?_, raw⟩
        rw [Arena.slots_eq_ok] at found ⊢
        rw [kept _ inside apart.symm, found]
  · intro id region found
    rw [same.2, block.2]
    by_cases new : id = arena.length
    · exact .inr (.inl (congrArg some new.symm))
    · have known : id < arena.length := by
        have bound := (List.getElem?_eq_some_iff.mp found).1
        omega
      by_cases here : id = storage
      · rcases old with ⟨inline, _⟩ | ⟨_, _, given, retired⟩
        · exact .inl (here.trans inline)
        · obtain ⟨lookup, retired⟩ := retired
          rw [here, lookup] at found
          cases found
          exact .inr (.inr (.inr retired))
      · rw [kept id known here] at found
        rcases shares.accounts id region found with buffer | allocation | other | retired
        · exact .inl buffer
        · rcases stored.home with ⟨_, none⟩ | ⟨_, own, _⟩
          · rw [none] at allocation
            cases allocation
          · rw [own] at allocation
            exact absurd (Option.some.inj allocation).symm here
        · exact .inr (.inr (.inl other))
        · exact .inr (.inr (.inr retired))
  · intro id other
    obtain ⟨known, notBuffer, _⟩ := shares.apart id other
    rw [same.2, block.2]
    refine ⟨by omega, notBuffer, ?_⟩
    intro own
    have equal := Option.some.inj own
    omega

theorem Stored.moveAll (stored : Stored vector arena values storage) {wide : ContainersVector}
    (elements : wide.elements = some storage) (room : values.length ≤ wide.capacity) :
    ∃ full, Except.loop (wide.moveTo arena.length) values.length 0 (arena.allocate wide.capacity) = .ok full ∧
      full.slots storage =
        .ok (List.replicate values.length .moved ++ List.replicate (vector.capacity - values.length) .raw) ∧
      full.slots arena.length = .ok (Slots.holding values wide.capacity) ∧ full.length = arena.length + 1 ∧
      ∀ id < arena.length, id ≠ storage → full[id]? = arena[id]? := by
  have known := Arena.slots_lt stored.slots
  have source : (arena.allocate wide.capacity).slots storage =
      .ok ([] ++ (values.map .live ++ List.replicate (vector.capacity - values.length) .raw)) := by
    rw [Arena.slots_allocate_of_lt known, stored.slots]
    rfl
  have target : (arena.allocate wide.capacity).slots arena.length =
      .ok (([] : List α).map .live ++ (List.replicate values.length .raw ++
        List.replicate (wide.capacity - values.length) .raw)) := by
    rw [Arena.slots_allocate]
    simp [room]
  refine ⟨_, moveTo_loop elements (Nat.ne_of_gt known) source target rfl rfl, ?_, ?_, by simp [Arena.allocate], ?_⟩
  · rw [Arena.slots_put_of_ne (Nat.ne_of_lt known), Arena.slots_put source]
    rfl
  · rw [Arena.slots_put ((Arena.slots_put_of_ne (Nat.ne_of_gt known)).trans target)]
    rfl
  · intro id old other
    rw [Arena.getElem_put_of_ne (Nat.ne_of_lt old), Arena.getElem_put_of_ne other, Arena.getElem_allocate old]

theorem reserve_spec (stored : Stored vector arena values storage) (shares : Shares others vector arena) (n : Nat) :
    ∃ after changed storage, vector.reserve n arena = .ok (after, changed) ∧ Stored after changed values storage ∧
      Shares others after changed ∧ after.buffer = vector.buffer ∧ n ≤ after.capacity ∧
      ∀ id, others id → changed[id]? = arena[id]? := by
  by_cases small : vector.capacity < n
  · have room := stored.room
    have known := Arena.slots_lt stored.slots
    let wide : ContainersVector := { vector with capacity := max (n * 2) 8 }
    let grown : ContainersVector := { wide with elements := some arena.length, allocation := some arena.length }
    have fits : values.length ≤ grown.capacity := by
      change values.length ≤ max (n * 2) 8
      omega
    have enough : n ≤ grown.capacity := by
      change n ≤ max (n * 2) 8
      omega
    have elements : wide.elements = some storage := stored.elements
    obtain ⟨full, moved, emptied, filled, fullLength, fullKept⟩ := stored.moveAll elements fits
    have reserved : ∀ {freed : ContainersVector} {last : Arena α}, wide.free full = .ok (freed, last) →
        freed.count = wide.count → freed.capacity = wide.capacity → freed.buffer = wide.buffer →
        vector.reserve n arena = .ok (grown, last) := by
      intro freed last done count capacity buffer
      rw [reserve, if_pos small]
      have looped : Except.loop (wide.moveTo arena.length) vector.count 0 (arena.allocate wide.capacity) = .ok full := by
        rw [stored.count]
        exact moved
      refine Except.bind_eq_ok.mpr ⟨full, looped, ?_⟩
      refine Except.bind_eq_ok.mpr ⟨(freed, last), done, ?_⟩
      simp only [count, capacity, buffer]
      rfl
    have alive : ∀ slot ∈ List.replicate values.length (Slot.moved : Slot α), slot ≠ .raw := by
      intro slot member
      rw [List.eq_of_mem_replicate member]
      simp
    have count : wide.count = (List.replicate values.length (Slot.moved : Slot α)).length := by
      simpa using stored.count
    rcases stored.home with ⟨inline, none⟩ | ⟨apart, block, _⟩
    · have freed := free_inline elements count emptied alive none
      obtain ⟨holds, still, frame⟩ : Stored grown _ values arena.length ∧ Shares others grown _ ∧ _ :=
        stored.regrown shares ⟨rfl, rfl⟩ ⟨rfl, rfl⟩ fits
          ((Arena.slots_put_of_ne (Nat.ne_of_gt known)).trans filled)
          (fun id old other => (Arena.getElem_put_of_ne other).trans (fullKept id old other))
          (Arena.length_put.trans fullLength)
          (.inl ⟨inline, _, Arena.slots_put emptied _, Slots.all_raw _ _⟩)
      exact ⟨grown, _, arena.length, reserved freed rfl rfl rfl, holds, still, rfl, enough, frame⟩
    · obtain ⟨changed, freed, retired, length, kept⟩ := free_block elements count emptied alive block
      have filled : changed.slots arena.length = .ok (Slots.holding values grown.capacity) := by
        rw [Arena.slots, kept _ (Nat.ne_of_gt known)]
        exact filled
      obtain ⟨holds, still, frame⟩ : Stored grown changed values arena.length ∧ Shares others grown changed ∧ _ :=
        stored.regrown shares ⟨rfl, rfl⟩ ⟨rfl, rfl⟩ fits filled
          (fun id old other => (kept id other).trans (fullKept id old other)) (length.trans fullLength)
          (.inr ⟨apart, block, _, retired, rfl, Slots.all_raw _ _⟩)
      exact ⟨grown, changed, arena.length, reserved freed rfl rfl rfl, holds, still, rfl, enough, frame⟩
  · refine ⟨vector, arena, storage, by rw [reserve, if_neg small], stored, shares, rfl, by omega, fun _ _ => rfl⟩

theorem Stored.refill (stored : Stored vector arena values storage) (shares : Shares others vector arena)
    {others' : List α} (room : others'.length ≤ vector.capacity) :
    Yields others vector arena
      (.ok ({ vector with count := others'.length }, arena.put storage (Slots.holding others' vector.capacity)))
      others' := by
  have frame : ∀ id, others id →
      (arena.put storage (Slots.holding others' vector.capacity))[id]? = arena[id]? := by
    intro id other
    obtain ⟨_, notBuffer, notBlock⟩ := shares.apart id other
    refine Arena.getElem_put_of_ne ?_
    intro here
    rcases stored.home with ⟨inline, _⟩ | ⟨_, block, _⟩
    · exact notBuffer (here.trans inline)
    · exact notBlock (block.trans (congrArg some here.symm))
  refine ⟨_, _, storage, rfl, ⟨stored.elements, rfl, room, Arena.slots_put stored.slots _, ?_⟩, ⟨?_, ?_⟩, rfl, frame⟩
  · rcases stored.home with inline | ⟨apart, block, unused, found, raw⟩
    · exact .inl inline
    · exact .inr ⟨apart, block, unused, (Arena.slots_put_of_ne (Ne.symm apart)).trans found, raw⟩
  · intro id region found
    by_cases here : id = storage
    · rcases stored.home with ⟨inline, _⟩ | ⟨_, block, _⟩
      · exact .inl (here.trans inline)
      · exact .inr (.inl (here ▸ block))
    · rw [Arena.getElem_put_of_ne here] at found
      exact shares.accounts id region found
  · intro id other
    rw [Arena.length_put]
    exact shares.apart id other

theorem append_yields (stored : Stored vector arena values storage) (shares : Shares others vector arena)
    (room : values.length < vector.capacity) (value : α) :
    Yields others vector arena (vector.append value arena) (values ++ [value]) ∧
      ∀ after changed, vector.append value arena = .ok (after, changed) → after.capacity = vector.capacity := by
  have updated := Arena.update_ok stored.slots (Slots.construct_holding value room)
  have appended : vector.append value arena = .ok ({ vector with count := (values ++ [value]).length },
      arena.put storage (Slots.holding (values ++ [value]) vector.capacity)) := by
    rw [append, deref_eq stored.elements, Except.ok_bind, stored.count, updated, Except.ok_bind, List.length_append]
    rfl
  rw [appended]
  refine ⟨stored.refill shares (by simpa using Nat.succ_le_of_lt room), ?_⟩
  intro after changed same
  cases same
  rfl

theorem dropLast_yields {value : α} (stored : Stored vector arena (values ++ [value]) storage)
    (shares : Shares others vector arena) : Yields others vector arena (vector.dropLast arena) values := by
  have room : values.length < vector.capacity := Nat.lt_of_succ_le (by simpa using stored.room)
  have updated := Arena.update_ok stored.slots (Slots.destroy_holding room)
  have count : vector.count - 1 = values.length := by simp [stored.count]
  have dropped : vector.dropLast arena = .ok ({ vector with count := values.length },
      arena.put storage (Slots.holding values vector.capacity)) := by
    have elements : ({ vector with count := values.length } : ContainersVector).elements = some storage := stored.elements
    rw [dropLast, count, deref_eq elements, Except.ok_bind, updated, Except.ok_bind]
    rfl
  rw [dropped]
  exact stored.refill shares (Nat.le_of_lt room)

theorem pushBack_yields (stored : Stored vector arena values storage) (shares : Shares others vector arena) (value : α) :
    Yields others vector arena (vector.pushBack value arena) (values ++ [value]) := by
  obtain ⟨wide, reserved, block, done, holds, still, buffer, enough, frame⟩ := reserve_spec stored shares (vector.count + 1)
  obtain ⟨after, changed, last, appended, final, shared, same, kept⟩ :=
    (append_yields holds still (by have := stored.count; omega) value).1
  refine ⟨after, changed, last, ?_, final, shared, same.trans buffer, fun id other => (kept id other).trans (frame id other)⟩
  rw [pushBack, done, Except.ok_bind]
  exact appended

theorem popBack_yields {value : α} (stored : Stored vector arena (values ++ [value]) storage)
    (shares : Shares others vector arena) : Yields others vector arena (vector.popBack arena) values := by
  have some : 0 < vector.count := by simp [stored.count]
  rw [popBack, if_pos some]
  exact dropLast_yields stored shares

theorem append_loop_yields (value : α) (times : Nat) (stored : Stored vector arena values storage)
    (shares : Shares others vector arena) (room : values.length + times ≤ vector.capacity) (first : Nat) :
    Yields others vector arena (Except.loop (fun _ state => state.1.append value state.2) times first (vector, arena))
      (values ++ List.replicate times value) := by
  induction times generalizing vector arena values storage first with
  | zero => simpa using ⟨vector, arena, storage, rfl, stored, shares, rfl, fun _ _ => rfl⟩
  | succ times ih =>
      obtain ⟨⟨after, changed, last, appended, holds, still, buffer, frame⟩, capacity⟩ :=
        append_yields stored shares (by omega) value
      have enough : (values ++ [value]).length + times ≤ after.capacity := by
        rw [capacity after changed appended, List.length_append, List.length_singleton]
        omega
      obtain ⟨final, finalArena, finalStorage, looped, stores, shared, same, kept⟩ := ih holds still enough (first + 1)
      refine ⟨final, finalArena, finalStorage, ?_, ?_, shared, same.trans buffer,
        fun id other => (kept id other).trans (frame id other)⟩
      · rw [Except.loop_succ _ appended]
        exact looped
      · simpa [List.replicate_succ] using stores

theorem dropLast_loop_yields (times : Nat) (stored : Stored vector arena values storage)
    (shares : Shares others vector arena) (enough : times ≤ values.length) (first : Nat) :
    Yields others vector arena (Except.loop (fun _ state => state.1.dropLast state.2) times first (vector, arena))
      (values.take (values.length - times)) := by
  induction times generalizing vector arena values storage first with
  | zero => simpa using ⟨vector, arena, storage, rfl, stored, shares, rfl, fun _ _ => rfl⟩
  | succ times ih =>
      rcases values.eq_nil_or_concat with rfl | ⟨init, value, rfl⟩
      · simp at enough
      · rw [List.concat_eq_append] at stored enough ⊢
        have fewer : times ≤ init.length := by simpa using enough
        obtain ⟨after, changed, last, dropped, holds, still, buffer, frame⟩ := dropLast_yields stored shares
        obtain ⟨final, finalArena, finalStorage, looped, stores, shared, same, kept⟩ := ih holds still fewer (first + 1)
        refine ⟨final, finalArena, finalStorage, ?_, ?_, shared, same.trans buffer,
          fun id other => (kept id other).trans (frame id other)⟩
        · rw [Except.loop_succ _ dropped]
          exact looped
        · have length : (init ++ [value]).length - (times + 1) = init.length - times := by simp
          rw [length, List.take_append_of_le_length (by omega)]
          exact stores

theorem resize_yields [Inhabited α] (stored : Stored vector arena values storage) (shares : Shares others vector arena)
    (n : Nat) : Yields others vector arena (vector.resize n arena)
      (values.take n ++ List.replicate (n - values.length) default) := by
  obtain ⟨wide, reserved, block, done, holds, still, buffer, enough, frame⟩ := reserve_spec stored shares n
  have room := holds.room
  obtain ⟨long, longArena, longStorage, appended, longer, longShares, longBuffer, longFrame⟩ :=
    append_loop_yields default (n - values.length) holds still (by omega) 0
  have length : (values ++ List.replicate (n - values.length) default).length - n = values.length - n := by
    simp only [List.length_append, List.length_replicate]
    omega
  obtain ⟨after, changed, last, dropped, final, shared, same, kept⟩ :=
    dropLast_loop_yields (values.length - n) longer longShares
      (by rw [← length]; exact Nat.sub_le ..) 0
  refine ⟨after, changed, last, ?_, ?_, shared, same.trans (longBuffer.trans buffer),
    fun id other => (kept id other).trans ((longFrame id other).trans (frame id other))⟩
  · rw [resize, done, Except.ok_bind]
    simp only [holds.count]
    rw [appended, Except.ok_bind]
    simp only [longer.count, length]
    exact dropped
  · have bound : (values ++ List.replicate (n - values.length) default).length - (values.length - n) = n := by
      simp only [List.length_append, List.length_replicate]
      omega
    rw [bound, List.take_append, List.take_replicate, Nat.min_self] at final
    exact final

theorem set_yields {i : Nat} (stored : Stored vector arena values storage) (shares : Shares others vector arena)
    (inside : i < values.length) (value : α) :
    Yields others vector arena ((vector.set i value arena).map fun arena => (vector, arena)) (values.set i value) := by
  have updated := Arena.update_ok stored.slots (Slots.assign_holding inside value vector.capacity)
  have written : vector.set i value arena = .ok (arena.put storage (Slots.holding (values.set i value) vector.capacity)) := by
    rw [set, index, if_pos (stored.count ▸ inside), deref_eq stored.elements, Except.ok_bind, updated]
  have refilled := stored.refill shares (show (values.set i value).length ≤ vector.capacity by simpa using stored.room)
  rw [List.length_set, ← stored.count] at refilled
  rw [written]
  exact refilled

theorem get_eq {i : Nat} (stored : Stored vector arena values storage) (inside : i < values.length) :
    vector.get i arena = .ok values[i] := by
  rw [get, index, if_pos (stored.count ▸ inside), deref_eq stored.elements, Except.ok_bind, stored.slots, Except.ok_bind]
  exact Slots.peek_holding inside vector.capacity

theorem toList_eq (stored : Stored vector arena values storage) : vector.toList arena = .ok values := by
  rw [toList, stored.count]
  exact Except.mapM_range fun i inside => get_eq stored inside

/-- The end of the vector's life: every object is destroyed, and every region
has been given back, apart from the buffer and those of the others. -/
theorem free_spec (stored : Stored vector arena values storage) (shares : Shares others vector arena) :
    ∃ after changed, vector.free arena = .ok (after, changed) ∧
      (∃ unused, changed.slots vector.buffer = .ok unused ∧ ∀ slot ∈ unused, slot = .raw) ∧
      (∀ id region, changed[id]? = some region → id = vector.buffer ∨ others id ∨ region.Retired) ∧
      ∀ id, others id → changed[id]? = arena[id]? := by
  have alive : ∀ slot ∈ values.map (Slot.live : α → Slot α), slot ≠ .raw := by simp
  have count : vector.count = (values.map (Slot.live : α → Slot α)).length := by simpa using stored.count
  rcases stored.home with ⟨inline, none⟩ | ⟨apart, block, unused, found, raw⟩
  · refine ⟨vector, _, free_inline stored.elements count stored.slots alive none, ?_, ?_, ?_⟩
    · rw [← inline]
      exact ⟨_, Arena.slots_put stored.slots _, Slots.all_raw _ _⟩
    · intro id region lookup
      by_cases here : id = storage
      · exact .inl (here.trans inline)
      · rw [Arena.getElem_put_of_ne here] at lookup
        rcases shares.accounts id region lookup with buffer | allocation | other | retired
        · exact .inl buffer
        · rw [none] at allocation
          cases allocation
        · exact .inr (.inl other)
        · exact .inr (.inr retired)
    · intro id other
      exact Arena.getElem_put_of_ne fun here => (shares.apart id other).2.1 (here.trans inline)
  · obtain ⟨changed, freed, retired, length, kept⟩ := free_block stored.elements count stored.slots alive block
    refine ⟨_, changed, freed, ⟨unused, ?_, raw⟩, ?_, ?_⟩
    · rw [Arena.slots_eq_ok] at found ⊢
      rw [kept _ apart.symm, found]
    · intro id region lookup
      by_cases here : id = storage
      · rw [here, retired] at lookup
        cases lookup
        exact .inr (.inr ⟨rfl, Slots.all_raw _ _⟩)
      · rw [kept id here] at lookup
        rcases shares.accounts id region lookup with buffer | allocation | other | retired
        · exact .inl buffer
        · rw [block] at allocation
          exact absurd (Option.some.inj allocation).symm here
        · exact .inr (.inl other)
        · exact .inr (.inr retired)
    · intro id other
      exact kept id fun here => (shares.apart id other).2.2 (block.trans (congrArg some here.symm))

theorem empty_stored (baseCapacity : Nat) (arena : Arena α) :
    Stored (empty baseCapacity arena).1 (empty baseCapacity arena).2 ([] : List α) arena.length where
  elements := rfl
  count := rfl
  room := Nat.zero_le _
  slots := by
    rw [Slots.holding_nil]
    exact Arena.slots_allocate arena baseCapacity
  home := .inl ⟨rfl, rfl⟩

inductive Op (α : Type) where
  | pushBack (value : α)
  | popBack
  | resize (n : Nat)
  | reserve (n : Nat)
  | set (i : Nat) (value : α)
deriving Repr

variable [Inhabited α]

def Op.perform (op : Op α) (vector : ContainersVector) (arena : Arena α) : Except Fault (ContainersVector × Arena α) :=
  match op with
  | .pushBack value => vector.pushBack value arena
  | .popBack => vector.popBack arena
  | .resize n => vector.resize n arena
  | .reserve n => vector.reserve n arena
  | .set i value => (vector.set i value arena).map fun arena => (vector, arena)

/-- What the operation means for a list. `pop_back` wants an element, and
`operator[]` wants one at its index. -/
def Op.apply (op : Op α) (values : List α) : Option (List α) :=
  match op with
  | .pushBack value => some (values ++ [value])
  | .popBack => if values = [] then none else some values.dropLast
  | .resize n => some (values.take n ++ List.replicate (n - values.length) default)
  | .reserve _ => some values
  | .set i value => if i < values.length then some (values.set i value) else none

def performAll (ops : List (Op α)) (vector : ContainersVector) (arena : Arena α) :
    Except Fault (ContainersVector × Arena α) :=
  ops.foldlM (fun state op => op.perform state.1 state.2) (vector, arena)

def applyAll (ops : List (Op α)) (values : List α) : Option (List α) := ops.foldlM (fun values op => op.apply values) values

theorem perform_yields {op : Op α} {next : List α} (stored : Stored vector arena values storage)
    (shares : Shares others vector arena) (applied : op.apply values = some next) :
    Yields others vector arena (op.perform vector arena) next := by
  cases op with
  | pushBack value =>
      cases applied
      exact pushBack_yields stored shares value
  | popBack =>
      simp only [Op.apply] at applied
      split at applied
      · cases applied
      · rename_i some
        cases applied
        rw [← List.dropLast_append_getLast some] at stored
        exact popBack_yields stored shares
  | resize n =>
      cases applied
      exact resize_yields stored shares n
  | reserve n =>
      cases applied
      obtain ⟨after, changed, last, done, holds, still, buffer, _, frame⟩ := reserve_spec stored shares n
      exact ⟨after, changed, last, done, holds, still, buffer, frame⟩
  | set i value =>
      simp only [Op.apply] at applied
      split at applied
      · rename_i inside
        cases applied
        exact set_yields stored shares inside value
      · cases applied

theorem performAll_yields {ops : List (Op α)} {last : List α} (stored : Stored vector arena values storage)
    (shares : Shares others vector arena) (applied : applyAll ops values = some last) :
    Yields others vector arena (performAll ops vector arena) last := by
  induction ops generalizing vector arena values storage with
  | nil =>
      cases applied
      exact ⟨vector, arena, storage, rfl, stored, shares, rfl, fun _ _ => rfl⟩
  | cons op ops ih =>
      obtain ⟨next, first, rest⟩ := Option.bind_eq_some_iff.mp applied
      obtain ⟨middle, between, place, performed, holds, still, buffer, frame⟩ := perform_yields stored shares first
      obtain ⟨after, changed, final, finished, stores, shared, same, kept⟩ := ih holds still rest
      refine ⟨after, changed, final, ?_, stores, shared, same.trans buffer,
        fun id other => (kept id other).trans (frame id other)⟩
      rw [performAll, List.foldlM_cons]
      exact (congrArg (· >>= _) performed).trans finished

/-- Every sequence of operations does to a vector what it does to a list. The
storage has as many slots as the vector says, every block but the last one has
been given back once, and at the end of the vector's life every object has been
destroyed and every block given back once. -/
theorem refines_list (baseCapacity : Nat) {ops : List (Op α)} {values : List α} (applied : applyAll ops [] = some values) :
    ∃ vector arena storage row,
      performAll ops (empty baseCapacity ([] : Arena α)).1 (empty baseCapacity []).2 = .ok (vector, arena) ∧
      vector.count = values.length ∧ vector.toList arena = .ok values ∧
      vector.elements = some storage ∧ arena.slots storage = .ok row ∧ row.length = vector.capacity ∧
      vector.count ≤ vector.capacity ∧
      (∀ id region, arena[id]? = some region → id ≠ vector.buffer →
        vector.allocation = some id ∧ region.releases = 0 ∨ vector.allocation ≠ some id ∧ region.Retired) ∧
      ∃ last ended, vector.free arena = .ok (last, ended) ∧
        (∃ unused, ended.slots vector.buffer = .ok unused ∧ ∀ slot ∈ unused, slot = .raw) ∧
        ∀ id region, ended[id]? = some region → id ≠ vector.buffer → region.Retired := by
  have shares : Shares (fun _ => False) (empty baseCapacity ([] : Arena α)).1 (empty baseCapacity ([] : Arena α)).2 := by
    refine ⟨?_, fun _ other => other.elim⟩
    intro id region found
    have bound := (List.getElem?_eq_some_iff.mp found).1
    exact .inl (by simpa [empty, Arena.allocate] using bound)
  obtain ⟨vector, arena, storage, performed, stored, shared, _, _⟩ :=
    performAll_yields (empty_stored baseCapacity []) shares applied
  refine ⟨vector, arena, storage, _, performed, stored.count, toList_eq stored, stored.elements, stored.slots,
    Slots.length_holding stored.room, stored.count ▸ stored.room, ?_, ?_⟩
  · intro id region found notBuffer
    by_cases own : vector.allocation = some id
    · refine .inl ⟨own, ?_⟩
      rcases stored.home with ⟨_, none⟩ | ⟨_, block, _⟩
      · rw [none] at own
        cases own
      · rw [block] at own
        cases own
        rw [Arena.slots_eq_ok.mp stored.slots] at found
        cases found
        rfl
    · refine .inr ⟨own, ?_⟩
      rcases shared.accounts id region found with buffer | allocation | other | retired
      · exact absurd buffer notBuffer
      · exact absurd allocation own
      · exact other.elim
      · exact retired
  · obtain ⟨last, ended, freed, unused, accounts, _⟩ := free_spec stored shared
    refine ⟨last, ended, freed, unused, ?_⟩
    intro id region found notBuffer
    rcases accounts id region found with buffer | other | retired
    · exact absurd buffer notBuffer
    · exact other.elim
    · exact retired

/-- A vector with room for two elements, which moves to the heap twice. -/
theorem refines_list_grown : ∃ vector : ContainersVector, ∃ arena : Arena Nat,
    performAll [.pushBack 1, .pushBack 2, .pushBack 3, .set 1 7, .resize 12, .popBack, .resize 4, .reserve 20]
      (empty 2 ([] : Arena Nat)).1 (empty 2 []).2 = .ok (vector, arena) ∧ vector.toList arena = .ok [1, 7, 3, 0] := by
  obtain ⟨vector, arena, _, _, performed, _, contents, _⟩ := refines_list 2 (show applyAll
    [.pushBack 1, .pushBack 2, .pushBack 3, .set 1 7, .resize 12, .popBack, .resize 4, .reserve 20] [] =
      some [1, 7, 3, 0] by decide)
  exact ⟨vector, arena, performed, contents⟩

end MiniMarl.ContainersVector
