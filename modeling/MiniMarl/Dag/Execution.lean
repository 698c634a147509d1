import MiniMarl.Dag.Graph
import MiniMarl.Dag.Invariant

namespace MiniMarl.Dag

open Data Transition

variable {ω : Type} {dag : Dag ω} {context after : RunContext} {main : Bool} {counters : List Nat} {wg : Nat}
variable {place : Place} {move : Move} {frame : Nat}

theorem Scheduled.inside (counted : dag.Counted) {node : Nat} (scheduled : dag.Scheduled node) :
    node < dag.nodes.length := by
  cases scheduled with
  | root => exact counted.root
  | node _ fed _ =>
      obtain ⟨parent, _, edge⟩ := Finset.exists_ne_zero_of_sum_ne_zero (Nat.ne_of_gt fed)
      exact counted.targets parent node (List.count_pos_iff.mp (Nat.pos_of_ne_zero edge))

/-! Once `run` has returned, nothing is pending. -/

theorem Inv.finished (inv : dag.Inv context) (ended : context.frames[0]? = some .finished)
    (member : place ∈ context.frames) : place = .finished := by
  obtain ⟨first, atFirst, _, finished⟩ := inv.balance
  have same : first = .finished := Option.some.inj (atFirst.symm.trans ended)
  have empty := sum_map_eq_zero Place.held (finished same) member
  by_contra busy
  have positive := held_pos busy
  omega

theorem Inv.total_of_finished (inv : dag.Inv context) (ended : context.frames[0]? = some .finished)
    (value : Place → Nat) (idle : value .finished = 0) : context.total value = 0 := by
  rw [RunContext.total, List.sum_eq_zero_iff]
  intro count member
  obtain ⟨place, inside, rfl⟩ := List.mem_map.mp member
  rw [inv.finished ended inside, idle]

theorem Inv.complete (inv : dag.Inv context) (ended : context.frames[0]? = some .finished)
    (scheduled : dag.Scheduled node) : node ∈ context.left := by
  induction scheduled with
  | root =>
      have tokens := inv.tokens 0
      have works := inv.works 0
      rw [inv.total_of_finished ended (fun place => place.pending.count 0) rfl, if_pos (.inl rfl)] at tokens
      rw [inv.total_of_finished ended (fun place => place.executing.count 0) rfl] at works
      exact List.count_pos_iff.mp (by omega)
  | node child fed _ ih =>
      have tokens := inv.tokens child
      have works := inv.works child
      have notices := inv.notices_count child
      rw [inv.total_of_finished ended (fun place => place.remaining.count child) rfl,
        count_outs_eq inv.left_nodup ih] at notices
      rw [inv.total_of_finished ended (fun place => place.pending.count child) rfl,
        if_pos (.inr ⟨fed, by omega⟩)] at tokens
      rw [inv.total_of_finished ended (fun place => place.executing.count child) rfl] at works
      exact List.count_pos_iff.mp (by omega)

/-! Until then, some activation can go on. -/

theorem move_of_unfinished (unfinished : place ≠ .finished)
    (ready : place = .ended → if main then wg = 0 else 0 < wg) :
    ∃ move, dag.move main counters wg place = some move := by
  cases place with
  | invoke node =>
      simp only [Dag.move]
      split
      · exact ⟨_, rfl⟩
      · exact ⟨_, rfl⟩
  | running node => exact ⟨_, rfl⟩
  | loop rest toInvoke =>
      cases rest with
      | nil => cases toInvoke <;> exact ⟨_, rfl⟩
      | cons idx rest => exact ⟨_, rfl⟩
  | adding idx rest toInvoke => exact ⟨_, rfl⟩
  | scheduling idx rest toInvoke => exact ⟨_, rfl⟩
  | ended =>
      have open_ := ready rfl
      cases main with
      | true => exact ⟨_, by simp only [Dag.move, if_true]; rw [if_pos (by simpa using open_)]⟩
      | false => exact ⟨_, by simp only [Dag.move, Bool.false_eq_true, if_false]; rw [if_pos (by simpa using open_)]⟩
  | finished => exact absurd rfl unfinished

theorem step_of_move (found : context.frames[frame]? = some place)
    (moved : dag.move (frame == 0) context.counters context.wg place = some move) :
    dag.step context frame = some (context.advance frame move) := by
  simp [Dag.step, found, moved]

theorem Inv.progress (inv : dag.Inv context) (unfinished : context.frames[0]? ≠ some .finished) :
    ∃ frame after, dag.step context frame = some after := by
  obtain ⟨first, atFirst, balance, _⟩ := inv.balance
  have busy : first ≠ .finished := fun ended => unfinished (ended ▸ atFirst)
  by_cases waiting : first = .ended ∧ 0 < context.wg
  · -- `run` waits for a closure that has not called `done`
    obtain ⟨rfl, positive⟩ := waiting
    cases shape : context.frames with
    | nil => simp [shape] at atFirst
    | cons head closures =>
        have same : head = .ended := by simpa [shape] using atFirst
        have open_ : ∃ place ∈ closures, place ≠ .finished := by
          by_contra none
          have empty : (closures.map Place.held).sum = 0 := by
            rw [List.sum_eq_zero_iff]
            intro count member
            obtain ⟨place, inside, rfl⟩ := List.mem_map.mp member
            by_contra held
            exact none ⟨place, inside, fun ended => held (by rw [ended]; rfl)⟩
          simp only [RunContext.total, shape, List.map_cons, List.sum_cons, empty, same, Place.held] at balance
          omega
        obtain ⟨place, inside, unfinished⟩ := open_
        obtain ⟨index, found⟩ := List.mem_iff_getElem?.mp inside
        have stored : context.frames[index + 1]? = some place := by simpa [shape] using found
        obtain ⟨move, moved⟩ : ∃ move, dag.move (index + 1 == 0) context.counters context.wg place = some move :=
          move_of_unfinished unfinished fun _ => by simpa using positive
        exact ⟨index + 1, _, step_of_move stored moved⟩
  · obtain ⟨move, moved⟩ : ∃ move, dag.move (0 == 0) context.counters context.wg first = some move := by
      refine move_of_unfinished busy fun ended => ?_
      have none : ¬0 < context.wg := fun positive => waiting ⟨ended, positive⟩
      simp only [beq_self_eq_true, if_true]
      omega
    exact ⟨0, _, step_of_move atFirst moved⟩

/-! And `run` does not go on for ever. -/

def Place.rank : Place → Nat
  | .adding .. => 4
  | .scheduling .. => 3
  | .loop .. => 2
  | .ended => 1
  | _ => 0

theorem move_rank (moved : dag.move main counters wg place = some move) :
    0 < move.events.length ∨ move.place.rank + (move.spawned.map Place.rank).sum < place.rank := by
  cases place with
  | invoke node =>
      simp only [Dag.move] at moved
      split at moved <;> cases moved <;> simp
  | running node =>
      cases moved
      simp
  | loop rest toInvoke =>
      cases rest with
      | nil => cases toInvoke <;> cases moved <;> simp [Place.rank]
      | cons idx rest =>
          simp only [Dag.move, Option.some.injEq] at moved
          subst moved
          simp
  | adding idx rest toInvoke =>
      cases moved
      simp [Place.rank]
  | scheduling idx rest toInvoke =>
      cases moved
      simp [Place.rank]
  | ended =>
      simp only [Dag.move] at moved
      split at moved <;> split at moved <;> cases moved <;> simp [Place.rank]
  | finished => cases moved

theorem length_log (log : List Event) :
    log.length ≤ (log.filterMap Event.entered?).length + (log.filterMap Event.left?).length +
      (log.filterMap Event.notified?).length := by
  induction log with
  | nil => rfl
  | cons event log ih =>
      cases event <;>
        simp only [List.filterMap_cons, Event.entered?, Event.left?, Event.notified?, List.length_cons] <;> omega

theorem Inv.length_log_le (inv : dag.Inv context) (counted : dag.Counted) :
    context.log.length ≤ 2 * dag.nodes.length + dag.edges := by
  have inside : ∀ nodes : List Nat, nodes.Nodup → (∀ node ∈ nodes, node ∈ context.entered) →
      nodes.length ≤ dag.nodes.length := by
    intro nodes nodup known
    rw [← List.toFinset_card_of_nodup nodup, ← Finset.card_range dag.nodes.length]
    apply Finset.card_le_card
    intro node member
    rw [Finset.mem_range]
    exact (inv.scheduled node (known node (List.mem_toFinset.mp member))).inside counted
  have entered := inside context.entered inv.entered_nodup fun _ member => member
  have left := inside context.left inv.left_nodup fun _ member => inv.entered_of_left member
  have notified := inv.notified_length
  have split : context.log.length ≤
    context.entered.length + context.left.length + context.notified.length := length_log context.log
  omega

theorem Inv.terminates {context : RunContext} (inv : dag.Inv context) (counted : dag.Counted) (few : dag.edges < 2 ^ 32)
    (rootless : dag.ins 0 = 0) :
    Acc (fun after before => ∃ frame, dag.step before frame = some after) context := by
  constructor
  intro after stepped
  obtain ⟨frame, stepped⟩ := stepped
  have next := inv.step counted few rootless stepped
  have smaller : context.log.length < after.log.length ∨
      context.log.length = after.log.length ∧ after.total Place.rank < context.total Place.rank := by
    obtain ⟨place, move, found, moved, rfl⟩ := step_cases stepped
    have total : (context.advance frame move).total _ + _ = _ := context.advance_total Place.rank found
    have logged : (context.advance frame move).log.length = move.events.length + context.log.length :=
      List.length_append
    have rank := move_rank moved
    omega
  exact next.terminates counted few rootless
termination_by (2 * dag.nodes.length + dag.edges - context.log.length, context.total Place.rank)
decreasing_by
  have bound := next.length_log_le counted
  rw [Prod.lex_def]
  simp only
  omega

end MiniMarl.Dag

namespace MiniMarl

open Transition

/-- Any number of calls of `run` on one DAG; a run that has not been called has
no context. -/
structure Runs (ω ρ : Type) where
  dag : Dag ω
  context : ρ → Option Dag.RunContext

namespace Runs

variable {ω ρ : Type} [DecidableEq ρ] {dag : Dag ω} {runs after : Runs ω ρ}

inductive Label (ρ : Type) where
  | call (run : ρ)
  | operate (run : ρ) (frame : Nat)

def Label.run : Label ρ → ρ
  | .call run | .operate run _ => run

def update (runs : Runs ω ρ) (run : ρ) (context : Dag.RunContext) : Runs ω ρ :=
  { runs with context := Function.update runs.context run (some context) }

def step (runs : Runs ω ρ) : Label ρ → Option (Runs ω ρ)
  | .call run =>
      match runs.context run with
      | none => some (runs.update run (.initial runs.dag))
      | some _ => none
  | .operate run frame =>
      (runs.context run).bind fun context =>
        (runs.dag.step context frame).map (runs.update run)

def system (dag : Dag ω) : System (Runs ω ρ) (Label ρ) := .ofStep (· = ⟨dag, fun _ => none⟩) step

theorem step_cases {label : Label ρ} (stepped : runs.step label = some after) :
    ∃ next, after = runs.update label.run next ∧
      ((runs.context label.run = none ∧ next = .initial runs.dag) ∨
        ∃ context frame, runs.context label.run = some context ∧ runs.dag.step context frame = some next) := by
  cases label with
  | call run =>
      cases called : runs.context run with
      | none =>
          simp only [step, called, Option.some.injEq] at stepped
          exact ⟨_, stepped.symm, .inl ⟨called, rfl⟩⟩
      | some context => simp [step, called] at stepped
  | operate run frame =>
      obtain ⟨context, called, mapped⟩ := Option.bind_eq_some_iff.mp stepped
      obtain ⟨next, moved, same⟩ := Option.map_eq_some_iff.mp mapped
      exact ⟨next, same.symm, .inr ⟨context, frame, called, moved⟩⟩

theorem project (reachable : (system dag).Reachable runs) :
    runs.dag = dag ∧ ∀ run context, runs.context run = some context → dag.run.Reachable context := by
  induction reachable with
  | initial start =>
      cases start
      exact ⟨rfl, fun _ _ called => by cases called⟩
  | step before moved ih =>
      obtain ⟨same, alone⟩ := ih
      obtain ⟨next, rfl, origin⟩ := step_cases moved
      refine ⟨same, fun run context called => ?_⟩
      simp only [update, Function.update_apply] at called
      split at called
      · cases called
        rcases origin with ⟨_, rfl⟩ | ⟨old, frame, stored, stepped⟩
        · exact .initial (congrArg Dag.RunContext.initial same)
        · rw [same] at stepped
          exact (alone _ old stored).step stepped
      · exact alone run context called

end Runs

namespace Dag

variable {ω : Type} {dag : Dag ω} {context : RunContext}

/-- What is true of a run at every moment. -/
structure Executes (dag : Dag ω) (context : RunContext) : Prop where
  onlyScheduled : ∀ node ∈ context.entered, dag.Scheduled node
  once : context.entered.Nodup
  permitted : ∀ event ∈ context.log, dag.Permits event
  called : ∀ node, .returned node ∈ context.log → .started node ∈ context.log
  afterParents : dag.Ordered context.log
  noUnderflow : ∀ node value, .notified node (some value) ∈ context.log → 0 < value
  /-- When `run` returns, the work of every node of the set has returned. -/
  complete : context.frames[0]? = some .finished → ∀ node, dag.Scheduled node → dag.leaving node ∈ context.log
  progress : context.frames[0]? ≠ some .finished → ∃ frame after, dag.step context frame = some after
  terminates : Acc (fun after before => ∃ frame, dag.step before frame = some after) context

theorem inv_of_reachable (counted : dag.Counted) (few : dag.edges < 2 ^ 32) (rootless : dag.ins 0 = 0)
    (reachable : dag.run.Reachable context) : dag.Inv context := by
  refine reachable.invariant ?_ ?_
  · intro context start
    cases start
    exact .initial counted
  · intro context frame after _ inv stepped
    exact inv.step counted few rootless stepped

end Dag

/-- Whatever the interleaving, every run of a built DAG executes exactly the
nodes whose parents it executes, and other runs do not disturb it. -/
theorem Runs.executes_of_reachable {ω ρ : Type} [DecidableEq ρ] {operations : List (Builder.Operation ω)}
    {dag : Dag ω} (built : Dag.ofOperations operations = some dag) (few : dag.edges < 2 ^ 32)
    (rootless : ∀ parent, 0 ∉ dag.outs parent) {runs : Runs ω ρ} (reachable : (system dag).Reachable runs)
    {run : ρ} {context : Dag.RunContext} (called : runs.context run = some context) :
    dag.Executes context ∧ runs.dag = dag ∧ dag.run.Reachable context ∧
      (∀ frame next, dag.step context frame = some next →
        runs.step (.operate run frame) = some (runs.update run next)) ∧
      ∀ label after, runs.step label = some after → label.run ≠ run → after.context run = some context := by
  have counted := Dag.counted_of_operations built few
  have orphan : dag.ins 0 = 0 :=
    Finset.sum_eq_zero fun parent _ => List.count_eq_zero.mpr (rootless parent)
  obtain ⟨same, alone⟩ := project reachable
  have inv := Dag.inv_of_reachable counted few orphan (alone run context called)
  refine ⟨?_, same, alone run context called, ?_, ?_⟩
  · exact
      { onlyScheduled := inv.scheduled
        once := inv.entered_nodup
        permitted := inv.permitted
        called := fun node returned => inv.started_of_returned returned
        afterParents := inv.ordered
        noUnderflow := inv.positive
        complete := fun ended node scheduled => inv.mem_log_of_left (inv.complete ended scheduled)
        progress := inv.progress
        terminates := inv.terminates counted few orphan }
  · intro frame next stepped
    simp [step, called, same, stepped]
  · intro label after stepped other
    obtain ⟨next, rfl, _⟩ := step_cases stepped
    simp [update, Ne.symm other, called]

/-- Two nodes after the root, and a third one after both. -/
def diamond : List (Builder.Operation Unit) :=
  [.node (some ()) [0], .node (some ()) [0], .node (some ()) [1, 2]]

def diamondDag : Dag Unit where
  nodes := [{ outs := [1, 2] }, { work := some (), outs := [3] }, { work := some (), outs := [3] },
    { work := some (), counterIndex := some 0 }]
  initialCounters := [2]

theorem Runs.executes_diamond :
    ∃ (runs : Runs Unit Bool) (context : Dag.RunContext), runs.context true = some context ∧
      context.frames[0]? = some .finished ∧ diamondDag.Executes context := by
  have reached := System.reachable_of_replay (· = (⟨diamondDag, fun _ => none⟩ : Runs Unit Bool)) step rfl
    ([.call false, .call true] ++ (List.replicate 6 0 ++ [1, 1, 1, 1, 1] ++ List.replicate 8 0).map (.operate true))
    (fun runs => ((runs.context true).bind fun context => context.frames[0]?) == some .finished) (by decide +kernel)
  obtain ⟨runs, reachable, ended⟩ := reached
  obtain ⟨context, called, finished⟩ := Option.bind_eq_some_iff.mp (beq_iff_eq.mp ended)
  have built : Dag.ofOperations diamond = some diamondDag := rfl
  have rootless := Dag.rootless_of_operations built (by decide)
  exact ⟨runs, context, called, finished,
    (Runs.executes_of_reachable built (by decide) rootless reachable called).1⟩

end MiniMarl
