import Mathlib.Data.List.AList
import Mathlib.Logic.Embedding.Basic
import MiniMarl.Data.OrderedSet

namespace MiniMarl

open Data

/-- A reading of `std::chrono::system_clock`, in ticks. -/
abbrev TimePoint := Int

structure Timeout (F : Type) where
  timepoint : TimePoint
  fiber : F
deriving DecidableEq

namespace Timeout

variable {F : Type} (address : F ↪ Nat)

/-- `Timeout::operator<`: deadlines first, then the addresses of the fibers. -/
def lt (left right : Timeout F) : Bool :=
  if left.timepoint ≠ right.timepoint then left.timepoint < right.timepoint
  else address left.fiber < address right.fiber

theorem lt_iff {left right : Timeout F} : left.lt address right = true ↔
    left.timepoint < right.timepoint ∨
      left.timepoint = right.timepoint ∧ address left.fiber < address right.fiber := by
  unfold lt
  split
  · rename_i different
    simp [different]
  · rename_i same
    simp [not_not.mp same]

/-- The order of `std::set<Timeout>`. It is total because distinct fibers live
at distinct addresses. -/
def order : Comparator (Timeout F) where
  lt := lt address
  irrefl value := by simp [lt]
  trans {first second third} before after := by
    rw [lt_iff] at before after ⊢
    rcases before with earlier | ⟨same, below⟩ <;> rcases after with later | ⟨same', below'⟩
    · exact .inl (Int.lt_trans earlier later)
    · exact .inl (same' ▸ earlier)
    · exact .inl (same ▸ later)
    · exact .inr ⟨same.trans same', Nat.lt_trans below below'⟩
  total {first second} notBefore notAfter := by
    rw [← Bool.not_eq_true, lt_iff] at notBefore notAfter
    simp only [not_or, not_and, Int.not_lt, Nat.not_lt] at notBefore notAfter
    have sameTime : first.timepoint = second.timepoint := Int.le_antisymm notAfter.1 notBefore.1
    have sameAddress : address first.fiber = address second.fiber :=
      Nat.le_antisymm (notAfter.2 sameTime.symm) (notBefore.2 sameTime)
    obtain ⟨_, _⟩ := first
    obtain ⟨_, _⟩ := second
    simp only at sameTime sameAddress
    rw [sameTime, address.injective sameAddress]

end Timeout

/-- `Scheduler::WaitingFibers`: the same deadlines indexed twice, once in the
order in which they expire and once by fiber. -/
structure WaitingFibers {F : Type} (address : F ↪ Nat) where
  timeouts : OrderedSet (Timeout.order address)
  fibers : AList fun _ : F => TimePoint

namespace WaitingFibers

variable {F : Type} [DecidableEq F] {address : F ↪ Nat}

def empty : WaitingFibers address := ⟨.empty, ∅⟩

/-- `WaitingFibers::operator bool`. -/
def nonempty (waiting : WaitingFibers address) : Bool := !waiting.fibers.entries.isEmpty

def contains (waiting : WaitingFibers address) (fiber : F) : Bool :=
  (waiting.fibers.lookup fiber).isSome

/-- `WaitingFibers::take`: the next fiber whose deadline has passed. -/
def take (waiting : WaitingFibers address) (timeout : TimePoint) :
    Except String (Option F × WaitingFibers address) :=
  if !waiting.nonempty then .ok (none, waiting)
  else
    match waiting.timeouts.begin? with
    | none => .error "dereference of end()"
    | some first =>
        if timeout < first.timepoint then .ok (none, waiting)
        else
          let deleted := (waiting.fibers.lookup first.fiber).isSome
          if deleted then
            .ok (some first.fiber,
              ⟨(waiting.timeouts.erase first).1, waiting.fibers.erase first.fiber⟩)
          else .error "WaitingFibers::take() maps out of sync"

/-- `WaitingFibers::next`: the earliest deadline. -/
def next (waiting : WaitingFibers address) : Except String TimePoint :=
  if !waiting.nonempty then
    .error "WaitingFibers::next() called when there' no waiting fibers"
  else
    match waiting.timeouts.begin? with
    | none => .error "dereference of end()"
    | some first => .ok first.timepoint

def add (waiting : WaitingFibers address) (timeout : TimePoint) (fiber : F) :
    Except String (WaitingFibers address) :=
  let timeouts := waiting.timeouts.insert ⟨timeout, fiber⟩
  if waiting.contains fiber then .error "WaitingFibers::add() fiber already waiting"
  else .ok ⟨timeouts, waiting.fibers.insert fiber timeout⟩

def erase (waiting : WaitingFibers address) (fiber : F) : Except String (WaitingFibers address) :=
  match waiting.fibers.lookup fiber with
  | none => .ok waiting
  | some timeout =>
      let erased := waiting.timeouts.erase ⟨timeout, fiber⟩
      if erased.2 then .ok ⟨erased.1, waiting.fibers.erase fiber⟩
      else .error "WaitingFibers::erase() maps out of sync"

/-- The two indexes hold the same pairs. -/
def Synced (waiting : WaitingFibers address) : Prop :=
  ∀ fiber timeout, ⟨timeout, fiber⟩ ∈ waiting.timeouts ↔
    waiting.fibers.lookup fiber = some timeout

theorem synced_empty : (empty : WaitingFibers address).Synced := by
  intro fiber timeout
  simp [empty]

theorem contains_iff {waiting : WaitingFibers address} {fiber : F} :
    waiting.contains fiber = true ↔ ∃ timeout, waiting.fibers.lookup fiber = some timeout := by
  simp [contains, Option.isSome_iff_exists]

theorem not_contains_iff {waiting : WaitingFibers address} {fiber : F} :
    waiting.contains fiber = false ↔ waiting.fibers.lookup fiber = none := by
  simp [contains]

@[simp] theorem contains_empty (fiber : F) : (empty : WaitingFibers address).contains fiber = false := by
  simp [not_contains_iff, empty]

theorem nonempty_iff {waiting : WaitingFibers address} :
    waiting.nonempty = true ↔ ∃ fiber, waiting.contains fiber = true := by
  constructor
  · intro filled
    cases entries : waiting.fibers.entries with
    | nil => simp [nonempty, entries] at filled
    | cons head rest =>
        refine ⟨head.1, ?_⟩
        rw [contains, AList.lookup_isSome, AList.mem_keys]
        simp [AList.keys, entries]
  · rintro ⟨fiber, member⟩
    rw [contains, AList.lookup_isSome, AList.mem_keys] at member
    cases entries : waiting.fibers.entries with
    | nil => simp [AList.keys, entries] at member
    | cons head rest => simp [nonempty, entries]

theorem nonempty_eq_false {waiting : WaitingFibers address} :
    waiting.nonempty = false ↔ ∀ fiber, waiting.contains fiber = false := by
  rw [← Bool.not_eq_true, nonempty_iff]
  simp

theorem Synced.nonempty_iff_begin {waiting : WaitingFibers address} (synced : waiting.Synced) :
    waiting.nonempty = true ↔ ∃ first, waiting.timeouts.begin? = some first := by
  rw [nonempty_iff]
  constructor
  · rintro ⟨fiber, member⟩
    obtain ⟨timeout, found⟩ := contains_iff.mp member
    cases begins : waiting.timeouts.begin? with
    | some first => exact ⟨first, rfl⟩
    | none =>
        have stored := (synced fiber timeout).mpr found
        rw [OrderedSet.mem_elements, OrderedSet.begin?_eq_none.mp begins] at stored
        cases stored
  · rintro ⟨first, found⟩
    exact ⟨first.fiber, contains_iff.mpr ⟨first.timepoint,
      (synced first.fiber first.timepoint).mp (OrderedSet.begin?_mem found)⟩⟩

theorem Synced.next_ok {waiting : WaitingFibers address} (synced : waiting.Synced)
    (filled : waiting.nonempty = true) :
    ∃ first, waiting.timeouts.begin? = some first ∧ waiting.next = .ok first.timepoint := by
  obtain ⟨first, found⟩ := synced.nonempty_iff_begin.mp filled
  exact ⟨first, found, by simp [next, filled, found]⟩

/-- Adding a fiber that is not waiting succeeds and changes only its entry. -/
theorem Synced.add_ok {waiting : WaitingFibers address} (synced : waiting.Synced)
    {fiber : F} (absent : waiting.contains fiber = false) (timeout : TimePoint) :
    ∃ after, waiting.add timeout fiber = .ok after ∧ after.Synced ∧
      ∀ other, after.fibers.lookup other =
        if other = fiber then some timeout else waiting.fibers.lookup other := by
  refine ⟨_, by simp only [add, absent]; rfl, ?_, ?_⟩
  · intro other deadline
    by_cases same : other = fiber
    · subst other
      have unused : ⟨deadline, fiber⟩ ∉ waiting.timeouts := by
        rw [synced, not_contains_iff.mp absent]
        simp
      simp [unused, eq_comm]
    · simp [AList.lookup_insert_ne same, synced other deadline, same]
  · intro other
    by_cases same : other = fiber
    · subst other
      simp
    · simp [AList.lookup_insert_ne same, same]

theorem Synced.remove {waiting : WaitingFibers address} (synced : waiting.Synced)
    {timeout : TimePoint} {fiber : F} (found : waiting.fibers.lookup fiber = some timeout) :
    (⟨(waiting.timeouts.erase ⟨timeout, fiber⟩).1, waiting.fibers.erase fiber⟩ :
      WaitingFibers address).Synced := by
  intro other deadline
  by_cases same : other = fiber
  · rw [same]
    simp only [OrderedSet.mem_erase, AList.lookup_erase, reduceCtorEq, iff_false, not_and, not_not]
    intro stored
    have unique := (synced fiber deadline).mp stored
    rw [found] at unique
    cases unique
    rfl
  · simp [AList.lookup_erase_ne same, synced other deadline, same]

theorem lookup_erase (fibers : AList fun _ : F => TimePoint) (fiber other : F) :
    (fibers.erase fiber).lookup other = if other = fiber then none else fibers.lookup other := by
  by_cases same : other = fiber
  · subst other
    simp
  · simp [AList.lookup_erase_ne same, same]

/-- Erasing succeeds in every synchronised state and changes only the entry
of the erased fiber; an absent fiber leaves everything in place. -/
theorem Synced.erase_ok {waiting : WaitingFibers address} (synced : waiting.Synced) (fiber : F) :
    ∃ after, waiting.erase fiber = .ok after ∧ after.Synced ∧
      ∀ other, after.fibers.lookup other =
        if other = fiber then none else waiting.fibers.lookup other := by
  cases found : waiting.fibers.lookup fiber with
  | none =>
      refine ⟨waiting, by simp [erase, found], synced, ?_⟩
      intro other
      split
      · rename_i same
        exact same ▸ found
      · rfl
  | some timeout =>
      have stored : (waiting.timeouts.erase ⟨timeout, fiber⟩).2 = true :=
        OrderedSet.erase_found.mpr ((synced fiber timeout).mpr found)
      exact ⟨_, by simp only [erase, found, stored, ↓reduceIte], synced.remove found,
        lookup_erase waiting.fibers fiber⟩

/-- `take` either finds every deadline in the future or removes exactly the
first fiber in the order of the deadlines. -/
theorem Synced.take_ok {waiting : WaitingFibers address} (synced : waiting.Synced) (now : TimePoint) :
    (waiting.take now = .ok (none, waiting) ∧
      ∀ fiber timeout, waiting.fibers.lookup fiber = some timeout → now < timeout) ∨
    ∃ first rest after, waiting.timeouts.elements = first :: rest ∧ first.timepoint ≤ now ∧
      waiting.take now = .ok (some first.fiber, after) ∧ after.Synced ∧
      waiting.fibers.lookup first.fiber = some first.timepoint ∧
      after.timeouts.elements = rest ∧
      ∀ other, after.fibers.lookup other =
        if other = first.fiber then none else waiting.fibers.lookup other := by
  by_cases filled : waiting.nonempty = true
  · obtain ⟨first, begins⟩ := synced.nonempty_iff_begin.mp filled
    have found := (synced first.fiber first.timepoint).mp (OrderedSet.begin?_mem begins)
    by_cases later : now < first.timepoint
    · refine .inl ⟨by simp [take, filled, begins, later], ?_⟩
      intro fiber timeout looked
      rcases OrderedSet.begin?_least begins ((synced fiber timeout).mpr looked) with same | after
      · rw [← same] at later
        exact later
      · rcases (Timeout.lt_iff address).mp after with earlier | ⟨same, _⟩
        · exact Int.lt_trans later earlier
        · rw [same] at later
          exact later
    · right
      cases shape : waiting.timeouts.elements with
      | nil => simp [OrderedSet.begin?, shape] at begins
      | cons head rest =>
          have same : head = first := by simpa [OrderedSet.begin?, shape] using begins
          subst head
          exact ⟨first, rest, _, rfl, Int.not_lt.mp later,
            by simp [take, filled, begins, later, found], synced.remove found, found,
            OrderedSet.erase_begin shape, lookup_erase waiting.fibers first.fiber⟩
  · have clear : waiting.nonempty = false := by simpa using filled
    refine .inl ⟨by simp [take, clear], ?_⟩
    intro fiber timeout looked
    have absent := nonempty_eq_false.mp clear fiber
    rw [not_contains_iff, looked] at absent
    cases absent

end WaitingFibers

end MiniMarl
