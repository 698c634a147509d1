import MiniMarl.Containers.VectorAssign

namespace MiniMarl

open Data Transition ContainersVector

/-- Any number of vectors. -/
structure VectorPool (α : Type) where
  vectors : List ContainersVector := []
  arena : Arena α := []

namespace VectorPool

inductive Label (α : Type) where
  | create (baseCapacity : Nat)
  | perform (vector : Nat) (op : Op α)
  | copy (target source : Nat)
  | move (target source : Nat)

variable {α : Type}

def find (pool : VectorPool α) (index : Nat) : Except Fault ContainersVector :=
  match pool.vectors[index]? with
  | some vector => .ok vector
  | none => .error .outOfBounds

def step [Inhabited α] (pool : VectorPool α) : Label α → Except Fault (VectorPool α)
  | .create baseCapacity =>
      let (vector, arena) := empty baseCapacity pool.arena
      .ok { vectors := pool.vectors ++ [vector], arena := arena }
  | .perform index op => do
      let vector ← pool.find index
      let (vector, arena) ← op.perform vector pool.arena
      return { vectors := pool.vectors.set index vector, arena := arena }
  | .copy target source => do
      let destination ← pool.find target
      let origin ← pool.find source
      let (destination, arena) ← destination.copyAssign origin pool.arena
      return { vectors := pool.vectors.set target destination, arena := arena }
  | .move target source => do
      let destination ← pool.find target
      let origin ← pool.find source
      let (destination, origin, arena) ← destination.moveAssign origin pool.arena
      return { vectors := (pool.vectors.set target destination).set source origin, arena := arena }

/-- An assignment is between two vectors, and its target takes the elements. -/
def careful (pool : VectorPool α) : Label α → Prop
  | .copy target source | .move target source =>
      target ≠ source ∧ ∀ destination origin, pool.vectors[target]? = some destination →
        pool.vectors[source]? = some origin → destination.Assignable origin.count
  | _ => True

def system [Inhabited α] : System (VectorPool α) (Label α) := .ofStep (· = {}) fun pool label => (pool.step label).toOption

/-- The regions of the other vectors. -/
def Others (pool : VectorPool α) (index id : Nat) : Prop :=
  ∃ other vector, other ≠ index ∧ pool.vectors[other]? = some vector ∧ vector.Owns id

/-- Every vector holds some values, no two share a region, and a region that
is nobody's has been given back. -/
structure Inv (pool : VectorPool α) : Prop where
  stored : ∀ (index : Nat) vector, pool.vectors[index]? = some vector →
    ∃ values storage, Stored vector pool.arena values storage
  apart : ∀ (first second : Nat) vector other, first ≠ second → pool.vectors[first]? = some vector →
    pool.vectors[second]? = some other → ∀ id, vector.Owns id → ¬other.Owns id
  accounts : ∀ (id : Nat) region, pool.arena[id]? = some region →
    (∃ (index : Nat) (vector : ContainersVector), pool.vectors[index]? = some vector ∧ vector.Owns id) ∨ region.Retired

variable {pool after : VectorPool α} {index : Nat} {vector : ContainersVector}

theorem find_eq_ok : pool.find index = .ok vector ↔ pool.vectors[index]? = some vector := by
  unfold find
  cases pool.vectors[index]? <;> simp

theorem Inv.shares (inv : pool.Inv) (found : pool.vectors[index]? = some vector) :
    Shares (pool.Others index) vector pool.arena := by
  constructor
  · intro id region lookup
    rcases inv.accounts id region lookup with ⟨owner, holder, present, owns⟩ | retired
    · by_cases here : owner = index
      · rw [here, found] at present
        cases present
        rcases owns with buffer | block
        · exact .inl buffer
        · exact .inr (.inl block)
      · exact .inr (.inr (.inl ⟨owner, holder, here, present, owns⟩))
    · exact .inr (.inr (.inr retired))
  · intro id shared
    obtain ⟨other, holder, distinct, present, owns⟩ := shared
    obtain ⟨values, storage, holds⟩ := inv.stored other holder present
    have foreign := inv.apart other index holder vector distinct present found id owns
    exact ⟨holds.owns_lt owns, fun buffer => foreign (.inl buffer), fun block => foreign (.inr block)⟩

/-- An operation on one vector that leaves the regions of the others alone. -/
theorem Inv.yields (inv : pool.Inv) {values : List α} {result : Except Fault (ContainersVector × Arena α)}
    (found : pool.vectors[index]? = some vector)
    (yields : Yields (pool.Others index) vector pool.arena result values) :
    ∃ changed arena storage, result = .ok (changed, arena) ∧ Stored changed arena values storage ∧
      (∀ id, pool.Others index id → arena[id]? = pool.arena[id]?) ∧
      ({ vectors := pool.vectors.set index changed, arena := arena } : VectorPool α).Inv := by
  obtain ⟨changed, arena, storage, done, holds, shares, buffer, frame⟩ := yields
  have bound := (List.getElem?_eq_some_iff.mp found).1
  have here : (pool.vectors.set index changed)[index]? = some changed := by simp [bound]
  have elsewhere : ∀ other, other ≠ index → (pool.vectors.set index changed)[other]? = pool.vectors[other]? :=
    fun other distinct => List.getElem?_set_ne (Ne.symm distinct)
  have foreign : ∀ other holder, other ≠ index → (pool.vectors.set index changed)[other]? = some holder →
      ∀ id, holder.Owns id → pool.Others index id ∧ ¬changed.Owns id := by
    intro other holder distinct present id owns
    rw [elsewhere other distinct] at present
    have belongs : pool.Others index id := ⟨other, holder, distinct, present, owns⟩
    exact ⟨belongs, shares.not_owned belongs⟩
  refine ⟨changed, arena, storage, done, holds, frame, ⟨?_, ?_, ?_⟩⟩
  · intro other holder present
    by_cases same : other = index
    · rw [same, here] at present
      cases present
      exact ⟨values, storage, holds⟩
    · obtain ⟨old, place, kept⟩ := inv.stored other holder ((elsewhere other same).symm.trans present)
      exact ⟨old, place, kept.frame fun id owns => frame id (foreign other holder same present id owns).1⟩
  · intro first second holder other distinct present present' id owns owns'
    by_cases same : first = index
    · rw [same, here] at present
      cases present
      exact (foreign second other (fun equal => distinct (same.trans equal.symm)) present' id owns').2 owns
    · by_cases same' : second = index
      · rw [same', here] at present'
        cases present'
        exact (foreign first holder same present id owns).2 owns'
      · exact inv.apart first second holder other distinct ((elsewhere first same).symm.trans present)
          ((elsewhere second same').symm.trans present') id owns owns'
  · intro id region lookup
    rcases shares.accounts id region lookup with buffer | block | ⟨other, holder, distinct, present, owns⟩ | retired
    · exact .inl ⟨index, changed, here, .inl buffer⟩
    · exact .inl ⟨index, changed, here, .inr block⟩
    · exact .inl ⟨other, holder, (elsewhere other distinct).trans present, owns⟩
    · exact .inr retired

theorem Inv.create (inv : pool.Inv) (baseCapacity : Nat) :
    ({ vectors := pool.vectors ++ [(empty baseCapacity pool.arena).1],
       arena := (empty baseCapacity pool.arena).2 } : VectorPool α).Inv := by
  have fresh := empty_stored baseCapacity pool.arena
  have listed : ∀ (index : Nat) holder, (pool.vectors ++ [(empty baseCapacity pool.arena).1])[index]? = some holder →
      pool.vectors[index]? = some holder ∨ index = pool.vectors.length ∧ holder = (empty baseCapacity pool.arena).1 := by
    intro index holder present
    by_cases old : index < pool.vectors.length
    · rw [List.getElem?_append_left old] at present
      exact .inl present
    · have bound := (List.getElem?_eq_some_iff.mp present).1
      rw [List.length_append, List.length_singleton] at bound
      have last : index = pool.vectors.length := by omega
      subst last
      exact .inr ⟨rfl, by simpa using present.symm⟩
  have only : ∀ id, (empty baseCapacity pool.arena).1.Owns id → id = pool.arena.length := by
    intro id own
    rcases own with buffer | block
    · exact buffer
    · cases block
  refine ⟨?_, ?_, ?_⟩
  · intro index holder present
    rcases listed index holder present with old | ⟨_, rfl⟩
    · obtain ⟨values, storage, holds⟩ := inv.stored index holder old
      exact ⟨values, storage, holds.frame fun id owns => Arena.getElem_allocate (holds.owns_lt owns) _⟩
    · exact ⟨[], _, fresh⟩
  · intro first second holder other distinct present present' id owns owns'
    rcases listed first holder present with old | ⟨last, rfl⟩
    · obtain ⟨_, _, holds⟩ := inv.stored first holder old
      rcases listed second other present' with old' | ⟨_, rfl⟩
      · exact inv.apart first second holder other distinct old old' id owns owns'
      · exact Nat.ne_of_lt (holds.owns_lt owns) (only id owns')
    · rcases listed second other present' with old' | ⟨last', _⟩
      · obtain ⟨_, _, holds⟩ := inv.stored second other old'
        exact Nat.ne_of_lt (holds.owns_lt owns') (only id owns)
      · exact distinct (last.trans last'.symm)
  · intro id region lookup
    by_cases old : id < pool.arena.length
    · rw [show (empty baseCapacity pool.arena).2[id]? = pool.arena[id]? from Arena.getElem_allocate old _] at lookup
      rcases inv.accounts id region lookup with ⟨index, holder, present, owns⟩ | retired
      · have bound := (List.getElem?_eq_some_iff.mp present).1
        exact .inl ⟨index, holder, (List.getElem?_append_left bound).trans present, owns⟩
      · exact .inr retired
    · have bound := (List.getElem?_eq_some_iff.mp lookup).1
      have last : id = pool.arena.length := by
        simp only [empty, Arena.allocate, List.length_append, List.length_singleton] at bound
        omega
      exact .inl ⟨pool.vectors.length, (empty baseCapacity pool.arena).1, by simp, .inl last⟩

theorem Inv.released (inv : pool.Inv) (id : Nat) (region : Region α) (found : pool.arena[id]? = some region) :
    (∃ (index : Nat) (vector : ContainersVector), pool.vectors[index]? = some vector ∧ vector.Owns id) ∧
        region.releases = 0 ∨
      (¬∃ (index : Nat) (vector : ContainersVector), pool.vectors[index]? = some vector ∧ vector.Owns id) ∧
        region.Retired := by
  by_cases owned : ∃ (index : Nat) (vector : ContainersVector), pool.vectors[index]? = some vector ∧ vector.Owns id
  · obtain ⟨index, vector, present, owns⟩ := owned
    obtain ⟨values, storage, stored⟩ := inv.stored index vector present
    refine .inl ⟨⟨index, vector, present, owns⟩, ?_⟩
    obtain ⟨row, slots⟩ := stored.owned_slots owns
    rw [Arena.slots_eq_ok.mp slots] at found
    cases found
    rfl
  · refine .inr ⟨owned, ?_⟩
    rcases inv.accounts id region found with holder | retired
    · exact absurd holder owned
    · exact retired

section Assign

variable {target source : Nat} {destination origin : ContainersVector}

theorem Inv.copy (inv : pool.Inv) (distinct : target ≠ source) (there : pool.vectors[target]? = some destination)
    (here : pool.vectors[source]? = some origin) (fits : destination.Assignable origin.count)
    {values : List α} {storage : Nat} (held : Stored origin pool.arena values storage) :
    ∃ changed arena place, destination.copyAssign origin pool.arena = .ok (changed, arena) ∧
      Stored changed arena values place ∧ Stored origin arena values storage ∧
      ({ vectors := pool.vectors.set target changed, arena := arena } : VectorPool α).Inv := by
  obtain ⟨old, home, stored⟩ := inv.stored target destination there
  have foreign : ∀ id, origin.Owns id → pool.Others target id :=
    fun id owns => ⟨source, origin, Ne.symm distinct, here, owns⟩
  obtain ⟨changed, arena, place, done, holds, frame, still⟩ :=
    inv.yields there (copyAssign_yields stored (inv.shares there) held foreign fits)
  exact ⟨changed, arena, place, done, holds, held.frame fun id owns => frame id (foreign id owns), still⟩

/-- A move assignment is a copy assignment, and then the source is emptied. -/
theorem Inv.move [Inhabited α] (inv : pool.Inv) (distinct : target ≠ source)
    (there : pool.vectors[target]? = some destination) (here : pool.vectors[source]? = some origin)
    (fits : destination.Assignable origin.count) {values : List α} {storage : Nat}
    (held : Stored origin pool.arena values storage) :
    ∃ changed emptied arena place home,
      destination.moveAssign origin pool.arena = .ok (changed, emptied, arena) ∧
      Stored changed arena values place ∧ Stored emptied arena ([] : List α) home ∧
      ({ vectors := (pool.vectors.set target changed).set source emptied, arena := arena } : VectorPool α).Inv := by
  obtain ⟨old, oldHome, stored⟩ := inv.stored target destination there
  have foreign : ∀ id, origin.Owns id → pool.Others target id :=
    fun id owns => ⟨source, origin, Ne.symm distinct, here, owns⟩
  obtain ⟨changed, between, place, copied, holds, kept, still⟩ := inv.copy distinct there here fits held
  have bound := (List.getElem?_eq_some_iff.mp there).1
  have remains : (pool.vectors.set target changed)[source]? = some origin :=
    (List.getElem?_set_ne distinct).trans here
  have resized : Yields (VectorPool.Others ⟨pool.vectors.set target changed, between⟩ source) origin between
      (origin.resize 0 between) [] := by simpa using resize_yields kept (still.shares remains) 0
  obtain ⟨emptied, arena, home, done, empty, frame, final⟩ := still.yields remains resized
  refine ⟨changed, emptied, arena, place, home, ?_, holds.frame ?_, empty, final⟩
  · rw [moveAssign_eq stored (inv.shares there) held foreign fits, copied, Except.ok_bind]
    simp only [done]
    rfl
  · intro id owns
    exact frame id ⟨target, changed, distinct, by simp [bound], owns⟩

end Assign

variable [Inhabited α]

theorem applies_of_perform {op : Op α} {arena : Arena α} {values : List α} {storage : Nat}
    {result : ContainersVector × Arena α} (stored : Stored vector arena values storage)
    (done : op.perform vector arena = .ok result) : ∃ next, op.apply values = some next := by
  cases op with
  | pushBack value => exact ⟨_, rfl⟩
  | popBack =>
      by_cases none : values = []
      · have empty : vector.count = 0 := by simp [stored.count, none]
        simp [Op.perform, popBack, empty] at done
      · exact ⟨_, if_neg none⟩
  | resize n => exact ⟨_, rfl⟩
  | reserve n => exact ⟨_, rfl⟩
  | set i value =>
      by_cases inside : i < values.length
      · exact ⟨_, if_pos inside⟩
      · have outside : ¬i < vector.count := stored.count ▸ inside
        simp [Op.perform, ContainersVector.set, ContainersVector.index, outside, Except.map, bind, Except.bind] at done

theorem step_copy_eq_ok {target source : Nat} :
    pool.step (.copy target source) = .ok after ↔
      ∃ destination origin changed arena, pool.vectors[target]? = some destination ∧
        pool.vectors[source]? = some origin ∧ destination.copyAssign origin pool.arena = .ok (changed, arena) ∧
        after = { vectors := pool.vectors.set target changed, arena := arena } := by
  constructor
  · intro done
    obtain ⟨destination, there, rest⟩ := Except.bind_eq_ok.mp done
    obtain ⟨origin, here, rest⟩ := Except.bind_eq_ok.mp rest
    obtain ⟨⟨changed, arena⟩, copied, same⟩ := Except.bind_eq_ok.mp rest
    cases same
    exact ⟨destination, origin, changed, arena, find_eq_ok.mp there, find_eq_ok.mp here, copied, rfl⟩
  · intro parts
    obtain ⟨destination, origin, changed, arena, there, here, copied, rfl⟩ := parts
    rw [VectorPool.step, find_eq_ok.mpr there, Except.ok_bind, find_eq_ok.mpr here, Except.ok_bind, copied]
    rfl

theorem step_move_eq_ok {target source : Nat} :
    pool.step (.move target source) = .ok after ↔
      ∃ destination origin changed emptied arena, pool.vectors[target]? = some destination ∧
        pool.vectors[source]? = some origin ∧
        destination.moveAssign origin pool.arena = .ok (changed, emptied, arena) ∧
        after = { vectors := (pool.vectors.set target changed).set source emptied, arena := arena } := by
  constructor
  · intro done
    obtain ⟨destination, there, rest⟩ := Except.bind_eq_ok.mp done
    obtain ⟨origin, here, rest⟩ := Except.bind_eq_ok.mp rest
    obtain ⟨⟨changed, emptied, arena⟩, moved, same⟩ := Except.bind_eq_ok.mp rest
    cases same
    exact ⟨destination, origin, changed, emptied, arena, find_eq_ok.mp there, find_eq_ok.mp here, moved, rfl⟩
  · intro parts
    obtain ⟨destination, origin, changed, emptied, arena, there, here, moved, rfl⟩ := parts
    rw [VectorPool.step, find_eq_ok.mpr there, Except.ok_bind, find_eq_ok.mpr here, Except.ok_bind, moved]
    rfl

theorem Inv.step (inv : pool.Inv) {label : Label α} (careful : pool.careful label) (done : pool.step label = .ok after) :
    after.Inv := by
  cases label with
  | create baseCapacity =>
      cases done
      exact inv.create baseCapacity
  | perform index op =>
      obtain ⟨vector, found, rest⟩ := Except.bind_eq_ok.mp done
      obtain ⟨⟨changed, arena⟩, performed, same⟩ := Except.bind_eq_ok.mp rest
      cases same
      rw [find_eq_ok] at found
      obtain ⟨values, storage, stored⟩ := inv.stored index vector found
      obtain ⟨next, applies⟩ := applies_of_perform stored performed
      obtain ⟨_, _, _, again, _, _, still⟩ := inv.yields found (perform_yields stored (inv.shares found) applies)
      rw [performed] at again
      cases again
      exact still
  | copy target source =>
      obtain ⟨destination, origin, changed, arena, there, here, copied, rfl⟩ := step_copy_eq_ok.mp done
      obtain ⟨values, storage, held⟩ := inv.stored source origin here
      obtain ⟨_, _, _, again, _, _, still⟩ := inv.copy careful.1 there here (careful.2 _ _ there here) held
      rw [copied] at again
      cases again
      exact still
  | move target source =>
      obtain ⟨destination, origin, changed, emptied, arena, there, here, moved, rfl⟩ := step_move_eq_ok.mp done
      obtain ⟨values, storage, held⟩ := inv.stored source origin here
      obtain ⟨_, _, _, _, _, again, _, _, still⟩ := inv.move careful.1 there here (careful.2 _ _ there here) held
      rw [moved] at again
      cases again
      exact still

theorem inv_of_reachable (reachable : ((system : System (VectorPool α) (Label α)).restrict careful).Reachable pool) : pool.Inv := by
  refine reachable.invariant ?_ ?_
  · intro pool start
    subst start
    exact ⟨by simp, by simp, by simp⟩
  · intro pool label after _ inv moved
    exact inv.step moved.1 (Except.toOption_eq_some.mp moved.2)

/-- What an assignment has to achieve: the target holds the values, in storage
with a slot for each element of its capacity, the source holds what is left,
and every block was given back once or is still in use. -/
structure Assigned (after : VectorPool α) (target source : Nat) (values left : List α) : Prop where
  holds : ∃ vector storage row, after.vectors[target]? = some vector ∧ vector.toList after.arena = .ok values ∧
    vector.elements = some storage ∧ after.arena.slots storage = .ok row ∧ vector.capacity ≤ row.length ∧
    vector.count ≤ vector.capacity
  leaves : ∃ vector, after.vectors[source]? = some vector ∧ vector.toList after.arena = .ok left
  accounts : ∀ (id : Nat) region, after.arena[id]? = some region →
    (∃ (index : Nat) (vector : ContainersVector), after.vectors[index]? = some vector ∧ vector.Owns id) ∧
        region.releases = 0 ∨
      (¬∃ (index : Nat) (vector : ContainersVector), after.vectors[index]? = some vector ∧ vector.Owns id) ∧
        region.Retired

/-- The copy assignment leaves its source as it is. -/
def Copies (pool : VectorPool α) (target source : Nat) : Prop :=
  ∃ after values, pool.step (.copy target source) = .ok after ∧
    (∃ origin, pool.vectors[source]? = some origin ∧ origin.toList pool.arena = .ok values) ∧
    after.Assigned target source values values ∧ after.vectors[source]? = pool.vectors[source]?

/-- The move assignment empties its source. -/
def Moves (pool : VectorPool α) (target source : Nat) : Prop :=
  ∃ after values, pool.step (.move target source) = .ok after ∧
    (∃ origin, pool.vectors[source]? = some origin ∧ origin.toList pool.arena = .ok values) ∧
    after.Assigned target source values []

omit [Inhabited α] in
theorem Assigned.storage {target source : Nat} {values left : List α}
    (assigned : after.Assigned target source values left) (found : after.vectors[target]? = some vector) :
    vector.elements ≠ none := by
  obtain ⟨_, _, _, same, _, elements, _⟩ := assigned.holds
  rw [found] at same
  cases same
  rw [elements]
  exact Option.some_ne_none _

omit [Inhabited α] in
theorem Inv.assigned (inv : after.Inv) {target source place home : Nat} {origin : ContainersVector}
    {values left : List α} (there : after.vectors[target]? = some vector)
    (here : after.vectors[source]? = some origin) (holds : Stored vector after.arena values place)
    (kept : Stored origin after.arena left home) : after.Assigned target source values left where
  holds := ⟨vector, place, _, there, toList_eq holds, holds.elements, holds.slots,
    Nat.le_of_eq (Slots.length_holding holds.room).symm, holds.count ▸ holds.room⟩
  leaves := ⟨origin, here, toList_eq kept⟩
  accounts := inv.released

section Assign

variable {target source : Nat} {destination origin : ContainersVector}

theorem Inv.copies_iff (inv : pool.Inv) (distinct : target ≠ source) (there : pool.vectors[target]? = some destination)
    (here : pool.vectors[source]? = some origin) :
    pool.Copies target source ↔ destination.Assignable origin.count := by
  obtain ⟨old, home, stored⟩ := inv.stored target destination there
  obtain ⟨values, storage, held⟩ := inv.stored source origin here
  have bound := (List.getElem?_eq_some_iff.mp there).1
  constructor
  · intro assigns
    obtain ⟨after, contents, done, _, assigned, _⟩ := assigns
    obtain ⟨_, _, changed, arena, there', here', copied, rfl⟩ := step_copy_eq_ok.mp done
    cases there.symm.trans there'
    cases here.symm.trans here'
    by_contra unfit
    exact assigned.storage (List.getElem?_set_self bound) (copyAssign_unfit stored unfit copied)
  · intro fits
    obtain ⟨changed, arena, place, copied, holds, kept, still⟩ := inv.copy distinct there here fits held
    have same : (pool.vectors.set target changed)[source]? = pool.vectors[source]? := List.getElem?_set_ne distinct
    have done := step_copy_eq_ok.mpr ⟨destination, origin, changed, arena, there, here, copied, rfl⟩
    exact ⟨_, values, done, ⟨origin, here, toList_eq held⟩,
      still.assigned (List.getElem?_set_self bound) (same.trans here) holds kept, same⟩

theorem Inv.moves_iff (inv : pool.Inv) (distinct : target ≠ source) (there : pool.vectors[target]? = some destination)
    (here : pool.vectors[source]? = some origin) :
    pool.Moves target source ↔ destination.Assignable origin.count := by
  obtain ⟨old, home, stored⟩ := inv.stored target destination there
  obtain ⟨values, storage, held⟩ := inv.stored source origin here
  have bound := (List.getElem?_eq_some_iff.mp there).1
  have renewed : ∀ changed emptied : ContainersVector,
      ((pool.vectors.set target changed).set source emptied)[target]? = some changed :=
    fun changed _ => (List.getElem?_set_ne (Ne.symm distinct)).trans (List.getElem?_set_self bound)
  constructor
  · intro assigns
    obtain ⟨after, contents, done, _, assigned⟩ := assigns
    obtain ⟨_, _, changed, emptied, arena, there', here', moved, rfl⟩ := step_move_eq_ok.mp done
    cases there.symm.trans there'
    cases here.symm.trans here'
    by_contra unfit
    exact assigned.storage (renewed changed emptied) (moveAssign_unfit stored unfit moved)
  · intro fits
    obtain ⟨changed, emptied, arena, place, left, moved, holds, empty, still⟩ := inv.move distinct there here fits held
    have done := step_move_eq_ok.mpr ⟨destination, origin, changed, emptied, arena, there, here, moved, rfl⟩
    have last : ((pool.vectors.set target changed).set source emptied)[source]? = some emptied :=
      List.getElem?_set_self (by simpa using (List.getElem?_eq_some_iff.mp here).1)
    exact ⟨_, values, done, ⟨origin, here, toList_eq held⟩,
      still.assigned (renewed changed emptied) last holds empty⟩

end Assign

/-- In every run whose assignments all go to targets that take the elements,
the copy and the move assignment do what they should on exactly these targets. -/
theorem assign_iff {target source : Nat} {destination origin : ContainersVector}
    (reachable : ((system : System (VectorPool α) (Label α)).restrict careful).Reachable pool)
    (distinct : target ≠ source) (there : pool.vectors[target]? = some destination)
    (here : pool.vectors[source]? = some origin) :
    (pool.Copies target source ↔ destination.Assignable origin.count) ∧
      (pool.Moves target source ↔ destination.Assignable origin.count) := by
  have inv := inv_of_reachable reachable
  exact ⟨inv.copies_iff distinct there here, inv.moves_iff distinct there here⟩

def Label.isAssignment : Label α → Bool
  | .copy _ _ | .move _ _ => true
  | _ => false

/-- Two inline vectors, and the target has room. -/
theorem assign_iff_inline : ∃ pool : VectorPool Nat, pool.Copies 1 0 ∧ pool.Moves 1 0 := by
  obtain ⟨pool, reachable, seen⟩ := System.reachable_of_guarded_replay (· = ({} : VectorPool Nat))
    (fun pool label => (pool.step label).toOption) (fun _ label => !label.isAssignment) rfl
    [.create 1, .create 2, .perform 0 (.pushBack 5), .perform 1 (.pushBack 7), .perform 1 (.pushBack 8)]
    (fun pool => decide (pool.vectors.map (fun vector => (vector.allocation, vector.count, vector.capacity)) =
      [(none, 1, 1), (none, 2, 2)])) (by decide +kernel)
  have shape := of_decide_eq_true seen
  obtain ⟨origin, destination, pair⟩ : ∃ origin destination, pool.vectors = [origin, destination] :=
    List.length_eq_two.mp (by simpa using congrArg List.length shape)
  rw [pair] at shape
  simp only [List.map_cons, List.map_nil, List.cons.injEq, Prod.mk.injEq, and_true] at shape
  obtain ⟨⟨_, single, _⟩, inline, _, room⟩ := shape
  have plain : ((system : System (VectorPool Nat) (Label Nat)).restrict careful).Reachable pool := by
    refine reachable.weaken ?_
    intro pool label other
    cases label with
    | create => trivial
    | perform => trivial
    | copy => cases other
    | move => cases other
  have fits : destination.Assignable origin.count := .inl ⟨inline, .inr (by omega)⟩
  obtain ⟨copies, moves⟩ := assign_iff plain (show 1 ≠ 0 by decide) (show pool.vectors[1]? = some destination by simp [pair])
    (show pool.vectors[0]? = some origin by simp [pair])
  exact ⟨pool, copies.mpr fits, moves.mpr fits⟩

/-- The target has its two elements on the heap. `free` takes its storage, and
`reserve` thinks that there is room. -/
theorem assign_through_null : ∃ pool : VectorPool Nat, system.Reachable pool ∧
    (∃ target source, pool.vectors[0]? = some target ∧ pool.vectors[1]? = some source) ∧
    pool.step (.copy 0 1) = .error .null ∧ pool.step (.move 0 1) = .error .null ∧
    ¬pool.Copies 0 1 ∧ ¬pool.Moves 0 1 := by
  obtain ⟨pool, reachable, seen⟩ := System.reachable_of_replay (· = ({} : VectorPool Nat))
    (fun pool label => (pool.step label).toOption) rfl
    [.create 1, .create 1, .perform 0 (.pushBack 1), .perform 0 (.pushBack 2), .perform 1 (.pushBack 3)]
    (fun pool => pool.vectors[0]?.isSome && pool.vectors[1]?.isSome &&
      (match pool.step (.copy 0 1), pool.step (.move 0 1) with
        | .error first, .error second => decide (first = .null ∧ second = .null)
        | _, _ => false)) (by decide +kernel)
  simp only [Bool.and_eq_true] at seen
  obtain ⟨⟨first, second⟩, faults⟩ := seen
  obtain ⟨target, there⟩ := Option.isSome_iff_exists.mp first
  obtain ⟨source, here⟩ := Option.isSome_iff_exists.mp second
  have fails : pool.step (.copy 0 1) = .error .null ∧ pool.step (.move 0 1) = .error .null := by
    split at faults
    · rename_i copied moved
      obtain ⟨rfl, rfl⟩ := of_decide_eq_true faults
      exact ⟨copied, moved⟩
    · cases faults
  refine ⟨pool, reachable, ⟨target, source, there, here⟩, fails.1, fails.2, ?_, ?_⟩
  · intro assigns
    obtain ⟨after, _, done, _⟩ := assigns
    rw [fails.1] at done
    cases done
  · intro assigns
    obtain ⟨after, _, done, _⟩ := assigns
    rw [fails.2] at done
    cases done

end VectorPool

end MiniMarl
