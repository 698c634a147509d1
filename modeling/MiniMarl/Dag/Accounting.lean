import MiniMarl.Dag.Run

namespace MiniMarl.Dag

open Data

variable {ω : Type} {dag : Dag ω} {main : Bool} {counters : List Nat} {wg : Nat} {place : Place} {move : Move}

namespace Place

/-- The nodes that this activation is going to start, or to schedule. -/
def pending : Place → List Nat
  | .invoke node => [node]
  | .loop _ toInvoke => toInvoke.toList
  | .adding idx _ toInvoke | .scheduling idx _ toInvoke => [idx, toInvoke]
  | _ => []

/-- The successors that it is still going to notify. -/
def remaining : Place → List Nat
  | .loop rest _ | .adding _ rest _ | .scheduling _ rest _ => rest
  | _ => []

def executing : Place → List Nat
  | .running node => [node]
  | _ => []

/-- What it has added to the `WaitGroup`; `run` counts as if it had added one. -/
def held : Place → Nat
  | .finished => 0
  | .scheduling .. => 2
  | _ => 1

def surplus : Place → Nat
  | .adding .. | .scheduling .. => 1
  | _ => 0

/-- The node that the next operation makes ready. -/
def announced (dag : Dag ω) (counters : List Nat) : Place → List Nat
  | .loop (idx :: _) _ => if (dag.notify counters idx).1 then [idx] else []
  | _ => []

end Place

def RunContext.total (context : RunContext) (value : Place → Nat) : Nat := (context.frames.map value).sum

/-- What one operation hands over from a place to the next one, to the closures
that it schedules, and to the log. -/
structure Handover (dag : Dag ω) (counters : List Nat) (place : Place) (move : Move) : Prop where
  pending : ∀ node, (move.events.filterMap Event.entered?).count node + move.place.pending.count node +
      (move.spawned.map fun place => place.pending.count node).sum =
    place.pending.count node + (place.announced dag counters).count node
  remaining : ∀ holds, (move.events.filterMap Event.notified?).countP holds +
      move.place.remaining.countP holds + (move.spawned.map fun place => place.remaining.countP holds).sum =
    place.remaining.countP holds + ((move.events.filterMap Event.left?).flatMap dag.outs).countP holds
  executing : ∀ node, (move.events.filterMap Event.left?).count node + move.place.executing.count node +
      (move.spawned.map fun place => place.executing.count node).sum =
    place.executing.count node + (move.events.filterMap Event.entered?).count node
  surplus : move.place.surplus + move.spawned.length + (move.spawned.map Place.surplus).sum ≤
    place.surplus + (move.events.filterMap Event.notified?).length

attribute [local simp] Place.pending Place.remaining Place.executing Place.surplus Place.announced
  Event.entered? Event.left? Event.notified? List.filterMap_cons List.count_cons List.countP_cons

theorem notify_handover (ready : Bool) (counted : (dag.notify counters idx).1 = ready) (before : Option Nat) :
    Handover dag counters (.loop (idx :: rest) toInvoke)
      { place := afterNotify ready idx rest toInvoke, counters := next, wg,
        events := [.notified idx before] } := by
  subst counted
  cases toInvoke with
  | none =>
      cases ready : (dag.notify counters idx).1 <;>
        refine ⟨fun node => ?_, fun holds => ?_, fun node => ?_, ?_⟩ <;> simp [afterNotify, ready] <;> omega
  | some toInvoke =>
      cases ready : (dag.notify counters idx).1 <;>
        refine ⟨fun node => ?_, fun holds => ?_, fun node => ?_, ?_⟩ <;> simp [afterNotify, ready] <;> omega

theorem move_handover (moved : dag.move main counters wg place = some move) :
    Handover dag counters place move := by
  cases place with
  | invoke target =>
      simp only [Dag.move] at moved
      split at moved <;> cases moved <;> constructor <;> simp
  | running target =>
      cases moved
      constructor <;> simp
  | loop rest toInvoke =>
      cases rest with
      | nil => cases toInvoke <;> cases moved <;> constructor <;> simp
      | cons idx rest =>
          simp only [Dag.move, Option.some.injEq] at moved
          subst moved
          exact notify_handover _ rfl _
  | adding idx rest toInvoke =>
      cases moved
      constructor <;> simp
  | scheduling idx rest toInvoke =>
      cases moved
      constructor <;> simp
      omega
  | ended =>
      simp only [Dag.move] at moved
      split at moved <;> split at moved <;> cases moved <;> constructor <;> simp
  | finished => cases moved

/-- Only works that are there are called. -/
def Permits (dag : Dag ω) : Event → Prop
  | .started node | .returned node => dag.hasWork node = true
  | .passed node => dag.hasWork node = false
  | .notified .. => True

theorem move_permits (moved : dag.move main counters wg place = some move)
    (working : ∀ node, place = .running node → dag.hasWork node = true) :
    (∀ event ∈ move.events, dag.Permits event) ∧ (∀ node, move.place = .running node → dag.hasWork node = true) ∧
      ∀ node, .running node ∉ move.spawned := by
  cases place with
  | invoke target =>
      simp only [Dag.move] at moved
      split at moved
      · rename_i works
        cases moved
        refine ⟨by simpa [Permits] using works, ?_, by simp⟩
        intro node same
        cases same
        exact works
      · rename_i empty
        cases moved
        exact ⟨by simpa [Permits] using empty, by simp, by simp⟩
  | running target =>
      have works := working target rfl
      cases moved
      exact ⟨by simpa [Permits] using works, by simp, by simp⟩
  | loop rest toInvoke =>
      cases rest with
      | nil => cases toInvoke <;> cases moved <;> exact ⟨by simp, by simp, by simp⟩
      | cons idx rest =>
          simp only [Dag.move, Option.some.injEq] at moved
          subst moved
          refine ⟨by simp [Permits], ?_, by simp⟩
          intro node
          cases toInvoke <;> cases (dag.notify counters idx).1 <;> simp [afterNotify]
  | adding idx rest toInvoke =>
      cases moved
      exact ⟨by simp, by simp, by simp⟩
  | scheduling idx rest toInvoke =>
      cases moved
      exact ⟨by simp, by simp, by simp⟩
  | ended =>
      simp only [Dag.move] at moved
      split at moved <;> split at moved <;> cases moved <;> exact ⟨by simp, by simp, by simp⟩
  | finished => cases moved

theorem move_notice (moved : dag.move main counters wg place = some move) :
    (∃ idx rest toInvoke, place = .loop (idx :: rest) toInvoke ∧
      move.counters = (dag.notify counters idx).2 ∧
      move.events = [.notified idx ((dag.counterIndex idx).bind fun slot => counters[slot]?)]) ∨
    move.counters = counters ∧ place.announced dag counters = [] ∧
      move.events.filterMap Event.notified? = [] := by
  cases place with
  | invoke target =>
      simp only [Dag.move] at moved
      split at moved <;> cases moved <;> exact .inr ⟨rfl, rfl, by simp⟩
  | running target =>
      cases moved
      exact .inr ⟨rfl, rfl, by simp⟩
  | loop rest toInvoke =>
      cases rest with
      | nil => cases toInvoke <;> cases moved <;> exact .inr ⟨rfl, rfl, rfl⟩
      | cons idx rest =>
          simp only [Dag.move, Option.some.injEq] at moved
          subst moved
          exact .inl ⟨idx, rest, toInvoke, rfl, rfl, rfl⟩
  | adding idx rest toInvoke =>
      cases moved
      exact .inr ⟨rfl, rfl, rfl⟩
  | scheduling idx rest toInvoke =>
      cases moved
      exact .inr ⟨rfl, rfl, rfl⟩
  | ended =>
      simp only [Dag.move] at moved
      split at moved <;> split at moved <;> cases moved <;> exact .inr ⟨rfl, rfl, rfl⟩
  | finished => cases moved

/-- What a place owes to the `WaitGroup`; `run` itself has not added to it. -/
def Place.owed (main : Bool) (place : Place) : Nat := if main then place.held - 1 else place.held

theorem move_owed (moved : dag.move main counters wg place = some move)
    (small : 0 < place.surplus → place.held = 1 → wg + 1 < 2 ^ 32) :
    move.wg + place.owed main = wg + move.place.owed main + (move.spawned.map Place.held).sum := by
  cases place with
  | invoke target =>
      simp only [Dag.move] at moved
      split at moved <;> cases moved <;> simp [Place.owed, Place.held]
  | running target =>
      cases moved
      simp [Place.owed, Place.held]
  | loop rest toInvoke =>
      cases rest with
      | nil => cases toInvoke <;> cases moved <;> simp [Place.owed, Place.held]
      | cons idx rest =>
          simp only [Dag.move, Option.some.injEq] at moved
          subst moved
          cases toInvoke <;> cases (dag.notify counters idx).1 <;>
            simp [afterNotify, Place.owed, Place.held]
  | adding idx rest toInvoke =>
      cases moved
      rw [Nat.mod_eq_of_lt (small (by simp) (by simp [Place.held]))]
      cases main <;> simp [Place.owed, Place.held]
  | scheduling idx rest toInvoke =>
      cases moved
      cases main <;> simp [Place.owed, Place.held]
  | ended =>
      cases main with
      | true =>
          simp only [Dag.move, if_true, Option.ite_none_right_eq_some, Option.some.injEq] at moved
          obtain ⟨_, rfl⟩ := moved
          simp [Place.owed, Place.held]
      | false =>
          simp only [Dag.move, Bool.false_eq_true, if_false, Option.ite_none_right_eq_some,
            Option.some.injEq] at moved
          obtain ⟨positive, rfl⟩ := moved
          simp only [Place.owed, Place.held, List.map_nil, List.sum_nil, Bool.false_eq_true, if_false]
          omega
  | finished => cases moved

theorem held_le (place : Place) : place.held ≤ 1 + place.surplus := by
  cases place <;> simp [Place.held]

theorem move_of_finishing (moved : dag.move true counters wg place = some move)
    (last : move.place = .finished) : wg = 0 ∧ move.spawned = [] := by
  cases place with
  | invoke target =>
      simp only [Dag.move] at moved
      split at moved <;> cases moved <;> cases last
  | running target =>
      cases moved
      cases last
  | loop rest toInvoke =>
      cases rest with
      | nil => cases toInvoke <;> cases moved <;> cases last
      | cons idx rest =>
          simp only [Dag.move, Option.some.injEq] at moved
          subst moved
          cases toInvoke <;> cases ready : (dag.notify counters idx).1 <;>
            simp [afterNotify, ready] at last
  | adding idx rest toInvoke =>
      cases moved
      cases last
  | scheduling idx rest toInvoke =>
      cases moved
      cases last
  | ended =>
      simp only [Dag.move, if_true, Option.ite_none_right_eq_some, Option.some.injEq] at moved
      rw [← moved.2]
      exact ⟨moved.1, rfl⟩
  | finished => cases moved

theorem held_pos (unfinished : place ≠ .finished) : 0 < place.held := by
  cases place <;> simp [Place.held] at unfinished ⊢

theorem step_cases {context after : RunContext} (stepped : dag.step context frame = some after) :
    ∃ place move, context.frames[frame]? = some place ∧
      dag.move (frame == 0) context.counters context.wg place = some move ∧
      after = context.advance frame move := by
  obtain ⟨place, found, mapped⟩ := Option.bind_eq_some_iff.mp stepped
  obtain ⟨move, moved, same⟩ := Option.map_eq_some_iff.mp mapped
  exact ⟨place, move, found, moved, same.symm⟩

namespace RunContext

variable {context : RunContext}

theorem advance_entered : (context.advance frame move).entered =
    move.events.filterMap Event.entered? ++ context.entered := List.filterMap_append

theorem advance_left : (context.advance frame move).left =
    move.events.filterMap Event.left? ++ context.left := List.filterMap_append

theorem advance_notified : (context.advance frame move).notified =
    move.events.filterMap Event.notified? ++ context.notified := List.filterMap_append

theorem advance_total (value : Place → Nat) (found : context.frames[frame]? = some place) :
    (context.advance frame move).total value + value place =
      context.total value + value move.place + (move.spawned.map value).sum := by
  have changed := sum_map_set value found move.place
  simp only [advance, total, List.map_append, List.sum_append]
  omega

theorem advance_here (found : context.frames[frame]? = some place) :
    (context.advance frame move).frames[frame]? = some move.place := by
  have inside : frame < context.frames.length := (List.getElem?_eq_some_iff.mp found).1
  rw [advance, List.getElem?_append_left (by simpa using inside), List.getElem?_set_self inside]

theorem mem_advance (member : other ∈ (context.advance frame move).frames) :
    other ∈ context.frames ∨ other = move.place ∨ other ∈ move.spawned := by
  rcases List.mem_append.mp member with kept | new
  · rcases List.mem_or_eq_of_mem_set kept with old | same
    · exact .inl old
    · exact .inr (.inl same)
  · exact .inr (.inr new)

theorem advance_elsewhere (stored : context.frames[other]? = some old) (away : frame ≠ other) :
    (context.advance frame move).frames[other]? = some old := by
  have inside : other < context.frames.length := (List.getElem?_eq_some_iff.mp stored).1
  rw [advance, List.getElem?_append_left (by simpa using inside), List.getElem?_set_ne away, stored]

end RunContext

end MiniMarl.Dag
