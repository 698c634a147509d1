import MiniMarl.Dag.Accounting

namespace MiniMarl.Dag

open Data Transition

variable {ω : Type} {dag : Dag ω} {context : RunContext} {place : Place} {move : Move} {frame : Nat}

/-- The least set that holds the root, and every node with parents all of whose
parents it holds. -/
inductive Scheduled (dag : Dag ω) : Nat → Prop where
  | root : Scheduled dag 0
  | node (child : Nat) (fed : 0 < dag.ins child)
      (parents : ∀ parent, child ∈ dag.outs parent → Scheduled dag parent) : Scheduled dag child

theorem sum_outs_le (dag : Dag ω) (value : List Nat → Nat) (empty : value [] = 0) {parents : List Nat}
    (nodup : parents.Nodup) :
    (parents.map fun parent => value (dag.outs parent)).sum ≤
      ∑ parent ∈ Finset.range dag.nodes.length, value (dag.outs parent) := by
  rw [← List.sum_toFinset (fun parent => value (dag.outs parent)) nodup]
  apply Finset.sum_le_sum_of_ne_zero
  intro parent _ used
  rw [Finset.mem_range]
  by_contra outside
  rw [outs_of_le dag (by omega), empty] at used
  exact used rfl

theorem count_outs_le (dag : Dag ω) (child : Nat) {parents : List Nat} (nodup : parents.Nodup) :
    (parents.flatMap dag.outs).count child ≤ dag.ins child := by
  rw [List.count_flatMap]
  exact sum_outs_le dag (fun outs => outs.count child) List.count_nil nodup

theorem length_outs_le (dag : Dag ω) {parents : List Nat} (nodup : parents.Nodup) :
    (parents.flatMap dag.outs).length ≤ dag.edges := by
  rw [List.length_flatMap]
  exact sum_outs_le dag List.length List.length_nil nodup

/-- A node that has been notified along all its edges has only parents that
have notified it. -/
theorem parent_mem {parents : List Nat} (nodup : parents.Nodup)
    (full : (parents.flatMap dag.outs).count child = dag.ins child) (edge : child ∈ dag.outs parent) :
    parent ∈ parents := by
  by_contra missing
  have bound := count_outs_le dag child (List.nodup_cons.mpr ⟨missing, nodup⟩)
  rw [List.flatMap_cons, List.count_append, full] at bound
  have used := List.count_pos_iff.mpr edge
  omega

theorem count_outs_eq {parents : List Nat} (nodup : parents.Nodup)
    (all : ∀ parent, child ∈ dag.outs parent → parent ∈ parents) :
    (parents.flatMap dag.outs).count child = dag.ins child := by
  apply Nat.le_antisymm (count_outs_le dag child nodup)
  rw [List.count_flatMap, Function.comp_def, ← List.sum_toFinset _ nodup]
  apply Finset.sum_le_sum_of_ne_zero
  intro parent _ used
  exact List.mem_toFinset.mpr (all parent (List.count_pos_iff.mp (Nat.pos_of_ne_zero used)))

/-- The node is the root, or all its edges have notified it. -/
def Ready (dag : Dag ω) (notified : List Nat) (node : Nat) : Prop :=
  node = 0 ∨ 0 < dag.ins node ∧ notified.count node = dag.ins node

instance (notified : List Nat) (node : Nat) : Decidable (dag.Ready notified node) :=
  inferInstanceAs (Decidable (_ ∨ _))

/-- What the end of a node leaves in the log: the return of its work, if it has
one. -/
def leaving (dag : Dag ω) (node : Nat) : Event :=
  if dag.hasWork node then .returned node else .passed node

/-- Nothing starts before the works of its parents have returned. -/
def Ordered (dag : Dag ω) (log : List Event) : Prop :=
  ∀ newer older event node, log = newer ++ event :: older → event.entered? = some node →
    ∀ parent, node ∈ dag.outs parent → dag.leaving parent ∈ older

structure Inv (dag : Dag ω) (context : RunContext) : Prop where
  tokens : ∀ node, context.entered.count node + context.total (fun place => place.pending.count node) =
    if dag.Ready context.notified node then 1 else 0
  notices : ∀ holds, context.notified.countP holds + context.total (fun place => place.remaining.countP holds) =
    (context.left.flatMap dag.outs).countP holds
  works : ∀ node, context.left.count node + context.total (fun place => place.executing.count node) =
    context.entered.count node
  counters : ∀ node slot, dag.counterIndex node = some slot →
    context.counters[slot]? = some (dag.ins node - context.notified.count node)
  balance : ∃ place, context.frames[0]? = some place ∧
    context.wg + place.held = context.total Place.held + (place.held - 1) ∧
    (place = .finished → context.total Place.held = 0)
  room : context.frames.length + context.total Place.surplus ≤ 1 + context.notified.length
  positive : ∀ node value, .notified node (some value) ∈ context.log → 0 < value
  permitted : ∀ event ∈ context.log, dag.Permits event
  working : ∀ node, .running node ∈ context.frames → dag.hasWork node = true
  ordered : dag.Ordered context.log
  scheduled : ∀ node ∈ context.entered, dag.Scheduled node

theorem Inv.initial (counted : dag.Counted) : dag.Inv (.initial dag) where
  tokens := by
    intro node
    by_cases root : node = 0
    · simp [RunContext.initial, RunContext.entered, RunContext.total, Place.pending, Ready, root]
    · have idle : ¬dag.Ready [] node := by
        intro ready
        rcases ready with same | ⟨fed, none⟩
        · exact root same
        · rw [List.count_nil] at none
          omega
      simpa [RunContext.initial, RunContext.entered, RunContext.notified, RunContext.total, Place.pending, idle,
        List.count_singleton] using Ne.symm root
  notices := by simp [RunContext.initial, RunContext.notified, RunContext.left, RunContext.total, Place.remaining]
  works := by simp [RunContext.initial, RunContext.entered, RunContext.left, RunContext.total, Place.executing]
  counters := by
    intro node slot indexed
    simpa [RunContext.initial, RunContext.notified] using counted.several node slot indexed
  balance := ⟨.invoke 0, rfl, by simp [RunContext.initial, RunContext.total, Place.held], by simp⟩
  room := by simp [RunContext.initial, RunContext.total, Place.surplus]
  positive := by simp [RunContext.initial]
  permitted := by simp [RunContext.initial]
  working := by simp [RunContext.initial]
  ordered := by simp [RunContext.initial, Ordered]
  scheduled := by simp [RunContext.initial, RunContext.entered]

namespace Inv

variable (inv : dag.Inv context)
include inv

theorem entered_nodup : context.entered.Nodup := by
  rw [List.nodup_iff_count_le_one]
  intro node
  have tokens := inv.tokens node
  split at tokens <;> omega

theorem left_nodup : context.left.Nodup := by
  rw [List.nodup_iff_count_le_one]
  intro node
  have once := List.nodup_iff_count_le_one.mp inv.entered_nodup node
  have works := inv.works node
  omega

theorem entered_of_left (member : node ∈ context.left) : node ∈ context.entered := by
  have works := inv.works node
  have some := List.count_pos_iff.mpr member
  exact List.count_pos_iff.mp (by omega)

theorem mem_log_of_left (member : node ∈ context.left) : dag.leaving node ∈ context.log := by
  obtain ⟨event, logged, named⟩ := List.mem_filterMap.mp member
  have permitted := inv.permitted event logged
  cases event with
  | returned other =>
      cases named
      rw [leaving, if_pos (by simpa [Permits] using permitted)]
      exact logged
  | passed other =>
      cases named
      rw [leaving, if_neg (by simpa [Permits] using permitted)]
      exact logged
  | started other => cases named
  | notified other before => cases named

theorem started_of_returned (returned : .returned node ∈ context.log) : .started node ∈ context.log := by
  have works : dag.hasWork node = true := inv.permitted _ returned
  have entered := inv.entered_of_left (List.mem_filterMap.mpr ⟨_, returned, rfl⟩)
  obtain ⟨event, logged, named⟩ := List.mem_filterMap.mp entered
  cases event with
  | started other =>
      cases named
      exact logged
  | passed other =>
      cases named
      have empty : dag.hasWork node = false := inv.permitted _ logged
      rw [works] at empty
      cases empty
  | returned other => cases named
  | notified other before => cases named

theorem working_of_found (found : context.frames[frame]? = some place) (node : Nat)
    (running : place = .running node) : dag.hasWork node = true :=
  inv.working node (running ▸ List.mem_of_getElem? found)

theorem notices_count (node : Nat) :
    context.notified.count node + context.total (fun place => place.remaining.count node) =
      (context.left.flatMap dag.outs).count node :=
  inv.notices (· == node)

theorem notified_le (node : Nat) :
    context.notified.count node + context.total (fun place => place.remaining.count node) ≤ dag.ins node := by
  rw [inv.notices_count]
  exact count_outs_le dag node inv.left_nodup

theorem notified_length : context.notified.length ≤ dag.edges := by
  have bound := length_outs_le dag inv.left_nodup
  have notices := inv.notices fun _ => true
  simp only [List.countP_true] at notices
  omega

theorem parents_left (ready : dag.Ready context.notified child) (rootless : dag.ins 0 = 0)
    (edge : child ∈ dag.outs parent) : parent ∈ context.left := by
  rcases ready with root | ⟨_, full⟩
  · have fed := dag.ins_pos edge
    rw [root, rootless] at fed
    omega
  · have bound := inv.notified_le child
    have notices := inv.notices_count child
    exact parent_mem inv.left_nodup (by omega) edge

theorem ready_of_pending (found : context.frames[frame]? = some place) (member : node ∈ place.pending) :
    dag.Ready context.notified node := by
  have tokens := inv.tokens node
  have one : 0 < place.pending.count node := List.count_pos_iff.mpr member
  have part := le_sum_map (fun place : Place => place.pending.count node) (List.mem_of_getElem? found)
  by_contra idle
  rw [if_neg idle] at tokens
  simp only [RunContext.total] at tokens
  omega

theorem remaining_pos (found : context.frames[frame]? = some (.loop (idx :: rest) toInvoke)) :
    context.notified.count idx + 1 ≤ dag.ins idx := by
  have bound := inv.notified_le idx
  have part := le_sum_map (fun place : Place => place.remaining.count idx) (List.mem_of_getElem? found)
  have head : (Place.loop (idx :: rest) toInvoke).remaining.count idx = rest.count idx + 1 := List.count_cons_self
  simp only [RunContext.total] at bound
  omega

theorem notify_iff (counted : dag.Counted) (few : dag.edges < 2 ^ 32)
    (found : context.frames[frame]? = some (.loop (idx :: rest) toInvoke)) :
    (dag.notify context.counters idx).1 = true ↔ context.notified.count idx + 1 = dag.ins idx := by
  have bound := inv.remaining_pos found
  have small := dag.ins_le_edges idx
  cases indexed : dag.counterIndex idx with
  | none =>
      have single := counted.single idx indexed
      simp only [notify, indexed, true_iff]
      omega
  | some slot =>
      simp only [notify, indexed, List.getD_eq_getElem?_getD, inv.counters idx slot indexed,
        Option.getD_some, beq_iff_eq]
      omega

theorem notify_counters (counted : dag.Counted) (few : dag.edges < 2 ^ 32)
    (found : context.frames[frame]? = some (.loop (idx :: rest) toInvoke))
    (indexed : dag.counterIndex node = some slot) :
    (dag.notify context.counters idx).2[slot]? =
      some (dag.ins node - (idx :: context.notified).count node) := by
  have bound := inv.remaining_pos found
  have small := dag.ins_le_edges idx
  have old := inv.counters node slot indexed
  by_cases same : idx = node
  · subst idx
    have inside : slot < context.counters.length := (List.getElem?_eq_some_iff.mp old).1
    simp only [notify, indexed, List.getD_eq_getElem?_getD, old, Option.getD_some,
      List.getElem?_set_self inside, List.count_cons_self, Option.some.injEq]
    omega
  · rw [List.count_cons_of_ne same]
    cases other : dag.counterIndex idx with
    | none =>
        simp only [notify, other]
        exact old
    | some taken =>
        have away : taken ≠ slot := fun equal =>
          same (counted.distinct idx node slot (equal ▸ other) indexed)
        simp only [notify, other, List.getElem?_set_ne away]
        exact old

/-- A notification makes a node ready exactly when `notify` returns true. -/
theorem announced_count (counted : dag.Counted) (few : dag.edges < 2 ^ 32) (rootless : dag.ins 0 = 0)
    (found : context.frames[frame]? = some place)
    (moved : dag.move (frame == 0) context.counters context.wg place = some move) (node : Nat) :
    (if dag.Ready (move.events.filterMap Event.notified? ++ context.notified) node then 1 else 0) =
      (if dag.Ready context.notified node then 1 else 0) +
        (place.announced dag context.counters).count node := by
  rcases move_notice moved with ⟨idx, rest, toInvoke, rfl, _, events⟩ | ⟨_, quiet, silent⟩
  · have bound := inv.remaining_pos found
    have ready := inv.notify_iff counted few found
    rw [events]
    simp only [List.filterMap_cons, Event.notified?, List.filterMap_nil, List.singleton_append, Place.announced]
    by_cases same : idx = node
    · subst idx
      have old : ¬dag.Ready context.notified node := by
        intro was
        rcases was with root | ⟨_, full⟩
        · rw [root, rootless] at bound
          omega
        · omega
      have new : dag.Ready (node :: context.notified) node ↔ context.notified.count node + 1 = dag.ins node := by
        rw [Ready, List.count_cons_self]
        constructor
        · intro is
          rcases is with root | ⟨_, full⟩
          · rw [root, rootless] at bound
            omega
          · exact full
        · intro full
          exact .inr ⟨by omega, full⟩
      rw [if_neg old]
      by_cases last : context.notified.count node + 1 = dag.ins node
      · simp [new.mpr last, ready.mpr last]
      · simp [mt new.mp last, mt ready.mp last]
    · have unchanged : dag.Ready (idx :: context.notified) node ↔ dag.Ready context.notified node := by
        simp only [Ready, List.count_cons_of_ne same]
      have absent : (if (dag.notify context.counters idx).1 = true then [idx] else []).count node = 0 := by
        split <;> simp [same]
      simp only [unchanged, absent, Nat.add_zero]
  · rw [silent, quiet]
    simp

theorem ready_of_entered (found : context.frames[frame]? = some place)
    (moved : dag.move (frame == 0) context.counters context.wg place = some move)
    (member : node ∈ move.events.filterMap Event.entered?) : dag.Ready context.notified node := by
  rcases move_notice moved with ⟨_, _, _, _, _, events⟩ | ⟨_, quiet, _⟩
  · simp [events, Event.entered?] at member
  · have handed := (move_handover moved).pending node
    have one := List.count_pos_iff.mpr member
    rw [quiet, List.count_nil] at handed
    exact inv.ready_of_pending found (List.count_pos_iff.mp (by omega))

theorem small (few : dag.edges < 2 ^ 32) (found : context.frames[frame]? = some place)
    (adding : 0 < place.surplus) (held : place.held = 1) : context.wg + 1 < 2 ^ 32 := by
  have uncounted : context.total Place.held < context.total fun place => 1 + place.surplus :=
    List.sum_lt_sum _ _ (fun place _ => held_le place) ⟨place, List.mem_of_getElem? found, by omega⟩
  have part : place.held ≤ context.total Place.held := le_sum_map Place.held (List.mem_of_getElem? found)
  have split : (context.total fun place => 1 + place.surplus) = context.frames.length + context.total Place.surplus := by
    simp [RunContext.total, List.sum_map_add]
  have room := inv.room
  have notified := inv.notified_length
  obtain ⟨first, _, balance, finished⟩ := inv.balance
  by_cases ended : first = .finished
  · rw [finished ended] at part
    omega
  · have owed := held_pos ended
    omega

theorem balance_step (few : dag.edges < 2 ^ 32) (found : context.frames[frame]? = some place)
    (moved : dag.move (frame == 0) context.counters context.wg place = some move) :
    ∃ first, (context.advance frame move).frames[0]? = some first ∧
      (context.advance frame move).wg + first.held =
        (context.advance frame move).total Place.held + (first.held - 1) ∧
      (first = .finished → (context.advance frame move).total Place.held = 0) := by
  obtain ⟨first, atFirst, balance, finished⟩ := inv.balance
  have total : (context.advance frame move).total _ + _ = _ := context.advance_total Place.held found
  have owed := move_owed moved (inv.small few found)
  have updated : (context.advance frame move).wg = move.wg := rfl
  cases frame with
  | zero =>
      have same : first = place := Option.some.inj (atFirst.symm.trans found)
      subst same
      simp only [beq_self_eq_true, Place.owed, if_true] at owed moved
      have ended : first ≠ .finished := by
        intro equal
        rw [equal] at moved
        cases moved
      have positive := held_pos ended
      refine ⟨move.place, RunContext.advance_here found, ?_, ?_⟩
      · omega
      · intro last
        obtain ⟨zero, alone⟩ := move_of_finishing moved last
        have gone : move.place.held = 0 := by rw [last]; rfl
        rw [alone] at total
        simp only [List.map_nil, List.sum_nil] at total
        omega
  | succ frame =>
      have closure : (frame + 1 == 0) = false := rfl
      rw [closure, Place.owed, Place.owed, if_neg (by simp), if_neg (by simp)] at owed
      refine ⟨first, RunContext.advance_elsewhere atFirst (by simp), ?_, ?_⟩
      · omega
      · intro ended
        have part := le_sum_map Place.held (List.mem_of_getElem? found)
        have empty : (context.frames.map Place.held).sum = 0 := finished ended
        have idle : place = .finished := by
          by_contra busy
          have positive := held_pos busy
          omega
        rw [idle] at moved
        cases moved

theorem counters_step (counted : dag.Counted) (few : dag.edges < 2 ^ 32) (found : context.frames[frame]? = some place)
    (moved : dag.move (frame == 0) context.counters context.wg place = some move)
    (indexed : dag.counterIndex node = some slot) :
    (context.advance frame move).counters[slot]? =
      some (dag.ins node - (context.advance frame move).notified.count node) := by
  rw [RunContext.advance_notified]
  change move.counters[slot]? = _
  rcases move_notice moved with ⟨idx, rest, toInvoke, rfl, counters, events⟩ | ⟨counters, _, silent⟩
  · rw [counters, events]
    exact inv.notify_counters counted few found indexed
  · rw [counters, silent]
    exact inv.counters node slot indexed

theorem positive_step (found : context.frames[frame]? = some place)
    (moved : dag.move (frame == 0) context.counters context.wg place = some move)
    (member : .notified node (some value) ∈ (context.advance frame move).log) : 0 < value := by
  rcases List.mem_append.mp member with new | old
  · rcases move_notice moved with ⟨idx, rest, toInvoke, rfl, _, events⟩ | ⟨_, _, silent⟩
    · have bound := inv.remaining_pos found
      rw [events, List.mem_singleton, Event.notified.injEq] at new
      obtain ⟨slot, indexed, stored⟩ := Option.bind_eq_some_iff.mp new.2.symm
      rw [inv.counters idx slot indexed, Option.some.injEq] at stored
      omega
    · have noticed : node ∈ move.events.filterMap Event.notified? := List.mem_filterMap.mpr ⟨_, new, rfl⟩
      simp [silent] at noticed
  · exact inv.positive node value old

theorem permitted_step (found : context.frames[frame]? = some place)
    (moved : dag.move (frame == 0) context.counters context.wg place = some move) {event : Event}
    (member : event ∈ (context.advance frame move).log) : dag.Permits event := by
  rcases List.mem_append.mp member with new | old
  · exact (move_permits moved (inv.working_of_found found)).1 event new
  · exact inv.permitted event old

theorem working_step (found : context.frames[frame]? = some place)
    (moved : dag.move (frame == 0) context.counters context.wg place = some move)
    (member : .running node ∈ (context.advance frame move).frames) : dag.hasWork node = true := by
  obtain ⟨_, here, spawned⟩ := move_permits moved (inv.working_of_found found)
  rcases RunContext.mem_advance member with old | same | new
  · exact inv.working node old
  · exact here node same.symm
  · exact absurd new (spawned node)

end Inv

theorem Ordered.append {log : List Event} (ordered : dag.Ordered log) {events : List Event}
    (left : ∀ node ∈ events.filterMap Event.entered?, ∀ parent, node ∈ dag.outs parent → dag.leaving parent ∈ log) :
    dag.Ordered (events ++ log) := by
  induction events with
  | nil => exact ordered
  | cons event events ih =>
      have rest := ih fun node member =>
        left node (List.Sublist.subset ((List.sublist_cons_self event events).filterMap _) member)
      intro newer older entry node split entered parent edge
      cases newer with
      | nil =>
          simp only [List.cons_append, List.nil_append, List.cons.injEq] at split
          rw [← split.2]
          refine List.mem_append_right _ (left node ?_ parent edge)
          exact List.mem_filterMap.mpr ⟨entry, by simp [split.1], entered⟩
      | cons first newer =>
          simp only [List.cons_append, List.cons.injEq] at split
          exact rest newer older entry node split.2 entered parent edge

theorem Inv.step (inv : dag.Inv context) (counted : dag.Counted) (few : dag.edges < 2 ^ 32)
    (rootless : dag.ins 0 = 0) (stepped : dag.step context frame = some after) : dag.Inv after := by
  obtain ⟨place, move, found, moved, rfl⟩ := step_cases stepped
  have handed := move_handover moved
  refine ⟨?tokens, ?notices, ?works, ?counters, ?balance, ?room, ?positive, ?permitted, ?working, ?ordered, ?scheduled⟩
  case tokens =>
    intro node
    have total : (context.advance frame move).total _ + _ = _ :=
      context.advance_total (fun place => place.pending.count node) found
    have old := inv.tokens node
    have new := inv.announced_count counted few rootless found moved node
    have pending := handed.pending node
    rw [RunContext.advance_entered, RunContext.advance_notified, List.count_append]
    omega
  case notices =>
    intro holds
    have total : (context.advance frame move).total _ + _ = _ :=
      context.advance_total (fun place => place.remaining.countP holds) found
    have old := inv.notices holds
    have remaining := handed.remaining holds
    rw [RunContext.advance_notified, RunContext.advance_left, List.countP_append, List.flatMap_append,
      List.countP_append]
    omega
  case works =>
    intro node
    have total : (context.advance frame move).total _ + _ = _ :=
      context.advance_total (fun place => place.executing.count node) found
    have old := inv.works node
    have executing := handed.executing node
    rw [RunContext.advance_entered, RunContext.advance_left, List.count_append, List.count_append]
    omega
  case counters => exact fun _ _ => inv.counters_step counted few found moved
  case balance => exact inv.balance_step few found moved
  case room =>
    have total : (context.advance frame move).total _ + _ = _ := context.advance_total Place.surplus found
    have old := inv.room
    have surplus := handed.surplus
    rw [RunContext.advance_notified, List.length_append]
    simp only [RunContext.advance, List.length_append, List.length_set] at total ⊢
    omega
  case positive => exact fun _ _ => inv.positive_step found moved
  case permitted => exact fun _ => inv.permitted_step found moved
  case working => exact fun _ => inv.working_step found moved
  case ordered =>
    apply inv.ordered.append
    intro node member parent edge
    have ready := inv.ready_of_entered found moved member
    exact inv.mem_log_of_left (inv.parents_left ready rootless edge)
  case scheduled =>
    intro node member
    rw [RunContext.advance_entered] at member
    rcases List.mem_append.mp member with new | old
    · have ready := inv.ready_of_entered found moved new
      by_cases root : node = 0
      · exact root ▸ .root
      · refine .node node (ready.resolve_left root).1 fun parent edge => ?_
        exact inv.scheduled parent (inv.entered_of_left (inv.parents_left ready rootless edge))
    · exact inv.scheduled node old

end MiniMarl.Dag
