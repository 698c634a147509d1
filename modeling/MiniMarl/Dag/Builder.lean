import Mathlib.Algebra.BigOperators.Group.Finset.Basic
import Mathlib.Algebra.Order.BigOperators.Group.Finset
import MiniMarl.Data.Counting

namespace MiniMarl

/-- `DAGBase::Node`; an absent `counterIndex` is `InvalidCounterIndex`, and an
absent `work` is an empty `std::function`. -/
structure Node (ω : Type) where
  work : Option ω := none
  counterIndex : Option Nat := none
  outs : List Nat := []

/-- `DAGBase`. -/
structure Dag (ω : Type) where
  nodes : List (Node ω)
  initialCounters : List Nat := []

namespace Dag

variable {ω : Type}

def outs (dag : Dag ω) (index : Nat) : List Nat := (dag.nodes[index]?.map Node.outs).getD []

def counterIndex (dag : Dag ω) (index : Nat) : Option Nat := dag.nodes[index]?.bind Node.counterIndex

def hasWork (dag : Dag ω) (index : Nat) : Bool := (dag.nodes[index]?.bind Node.work).isSome

/-- The number of edges that lead into a node. -/
def ins (dag : Dag ω) (child : Nat) : Nat :=
  ∑ parent ∈ Finset.range dag.nodes.length, (dag.outs parent).count child

def edges (dag : Dag ω) : Nat := ∑ parent ∈ Finset.range dag.nodes.length, (dag.outs parent).length

theorem outs_of_le (dag : Dag ω) (outside : dag.nodes.length ≤ index) : dag.outs index = [] := by
  simp [outs, List.getElem?_eq_none outside]

theorem ins_le_edges (dag : Dag ω) (child : Nat) : dag.ins child ≤ dag.edges :=
  Finset.sum_le_sum fun _ _ => List.count_le_length

theorem ins_pos (dag : Dag ω) (edge : child ∈ dag.outs parent) : 0 < dag.ins child := by
  have inside : parent < dag.nodes.length := by
    by_contra outside
    rw [outs_of_le dag (by omega)] at edge
    cases edge
  exact Finset.sum_pos' (fun _ _ => Nat.zero_le _)
    ⟨parent, Finset.mem_range.mpr inside, List.count_pos_iff.mpr edge⟩

end Dag

/-- `DAGBuilder`, before `build`. -/
structure Builder (ω : Type) where
  dag : Dag ω
  numIns : List Nat

namespace Builder

variable {ω : Type}

/-- The constructor adds the root. -/
def initial : Builder ω := ⟨⟨[{}], []⟩, [0]⟩

/-- `addDependency`; `numIns` holds 32 bit numbers. A `DAGNodeBuilder` names a
node that exists. -/
def addDependency (builder : Builder ω) (parent child : Nat) : Option (Builder ω) :=
  if parent < builder.dag.nodes.length ∧ child < builder.dag.nodes.length then
    some ⟨{ builder.dag with nodes := builder.dag.nodes.modify parent fun node =>
        { node with outs := node.outs ++ [child] } },
      builder.numIns.modify child fun count => (count + 1) % 2 ^ 32⟩
  else none

/-- The loop over `after` in `node`. -/
def addDependencies (builder : Builder ω) (child : Nat) : List Nat → Option (Builder ω)
  | [] => some builder
  | parent :: after => (builder.addDependency parent child).bind fun builder =>
      builder.addDependencies child after

def node (builder : Builder ω) (work : Option ω) (after : List Nat) : Option (Builder ω) :=
  if builder.numIns.length = builder.dag.nodes.length then
    addDependencies ⟨{ builder.dag with nodes := builder.dag.nodes ++ [{ work := work }] }, builder.numIns ++ [0]⟩
      builder.dag.nodes.length after
  else none

/-- `DAGNodeBuilder::then`. -/
def andThen (builder : Builder ω) (parent : Nat) (work : Option ω) : Option (Builder ω) :=
  (builder.node work []).bind fun next => next.addDependency parent builder.dag.nodes.length

/-- The loop of `build`. -/
def assignCounters : List Nat → List (Node ω) → List Nat → List (Node ω) × List Nat
  | count :: numIns, node :: nodes, counters =>
      if count > 1 then
        let rest := assignCounters numIns nodes (counters ++ [count])
        ({ node with counterIndex := some counters.length } :: rest.1, rest.2)
      else
        let rest := assignCounters numIns nodes counters
        (node :: rest.1, rest.2)
  | _, nodes, counters => (nodes, counters)

def build (builder : Builder ω) : Option (Dag ω) :=
  if builder.numIns.length = builder.dag.nodes.length then
    let built := assignCounters builder.numIns builder.dag.nodes builder.dag.initialCounters
    some ⟨built.1, built.2⟩
  else none

inductive Operation (ω : Type) where
  | node (work : Option ω) (after : List Nat)
  | andThen (parent : Nat) (work : Option ω)
  | addDependency (parent child : Nat)

def apply (builder : Builder ω) : Operation ω → Option (Builder ω)
  | .node work after => builder.node work after
  | .andThen parent work => builder.andThen parent work
  | .addDependency parent child => builder.addDependency parent child

def applyAll (builder : Builder ω) : List (Operation ω) → Option (Builder ω)
  | [] => some builder
  | operation :: operations => (builder.apply operation).bind fun builder => builder.applyAll operations

end Builder

/-- The DAG that a sequence of calls on a fresh builder ends in. -/
def Dag.ofOperations (operations : List (Builder.Operation ω)) : Option (Dag ω) :=
  (Builder.initial.applyAll operations).bind Builder.build

namespace Builder

variable {ω : Type} {builder : Builder ω}

/-- The bookkeeping of the builder: `numIns` counts edges, up to overflow. -/
structure Synced (builder : Builder ω) : Prop where
  length : builder.numIns.length = builder.dag.nodes.length
  root : 0 < builder.dag.nodes.length
  numIns : ∀ index < builder.dag.nodes.length,
    builder.numIns[index]? = some (builder.dag.ins index % 2 ^ 32)
  targets : ∀ parent, ∀ child ∈ builder.dag.outs parent, child < builder.dag.nodes.length
  fresh : ∀ node ∈ builder.dag.nodes, node.counterIndex = none
  counters : builder.dag.initialCounters = []

theorem initial_synced : (initial : Builder ω).Synced where
  length := rfl
  root := by simp [initial]
  numIns := by
    intro index inside
    have root : index = 0 := by simpa [initial] using inside
    simp [initial, root, Dag.ins, Dag.outs]
  targets := by
    intro parent child edge
    cases parent <;> simp [initial, Dag.outs] at edge
  fresh := by simp [initial]
  counters := rfl

theorem outs_modify (nodes : List (Node ω)) (parent child index : Nat) (inside : parent < nodes.length) :
    Dag.outs ⟨nodes.modify parent fun node => { node with outs := node.outs ++ [child] }, counters⟩ index =
      if index = parent then Dag.outs ⟨nodes, counters⟩ index ++ [child]
      else Dag.outs ⟨nodes, counters⟩ index := by
  by_cases here : index = parent
  · subst index
    simp [Dag.outs, List.getElem?_eq_getElem inside]
  · simp [Dag.outs, here, Ne.symm here]

theorem ins_addDependency (nodes : List (Node ω)) (parent child index : Nat) (inside : parent < nodes.length) :
    Dag.ins ⟨nodes.modify parent fun node => { node with outs := node.outs ++ [child] }, counters⟩ index =
      Dag.ins ⟨nodes, counters⟩ index + if index = child then 1 else 0 := by
  have member : parent ∈ Finset.range nodes.length := Finset.mem_range.mpr inside
  have rest : ∑ other ∈ (Finset.range nodes.length).erase parent,
      (Dag.outs ⟨nodes.modify parent fun node => { node with outs := node.outs ++ [child] }, counters⟩
        other).count index =
      ∑ other ∈ (Finset.range nodes.length).erase parent, (Dag.outs ⟨nodes, counters⟩ other).count index := by
    apply Finset.sum_congr rfl
    intro other away
    rw [outs_modify nodes parent child other inside, if_neg (Finset.ne_of_mem_erase away)]
  simp only [Dag.ins, List.length_modify]
  rw [← Finset.add_sum_erase _ _ member, ← Finset.add_sum_erase _ _ member, rest,
    outs_modify nodes parent child parent inside, if_pos rfl, List.count_append, List.count_singleton]
  by_cases here : index = child
  · simp [here]
    omega
  · simp [here, Ne.symm here]

theorem Synced.addDependency (synced : builder.Synced) {parent child : Nat} {after : Builder ω}
    (added : builder.addDependency parent child = some after) :
    after.Synced ∧ after.dag.nodes.length = builder.dag.nodes.length := by
  unfold Builder.addDependency at added
  rw [Option.ite_none_right_eq_some, Option.some.injEq] at added
  obtain ⟨⟨parentInside, childInside⟩, rfl⟩ := added
  have width : (builder.dag.nodes.modify parent fun node : Node ω =>
      { node with outs := node.outs ++ [child] }).length = builder.dag.nodes.length :=
    List.length_modify ..
  refine ⟨⟨?_, ?_, ?_, ?_, ?_, synced.counters⟩, width⟩
  · rw [width, List.length_modify, synced.length]
  · rw [width]
    exact synced.root
  · intro index inside
    rw [width] at inside
    rw [ins_addDependency _ parent child index parentInside, List.getElem?_modify,
      synced.numIns index inside]
    by_cases here : child = index
    · simp [here]
    · simp [here, Ne.symm here]
  · intro other target edge
    rw [outs_modify _ parent child other parentInside] at edge
    rw [width]
    split at edge
    · rcases List.mem_append.mp edge with old | new
      · exact synced.targets other target old
      · rw [List.mem_singleton.mp new]
        exact childInside
    · exact synced.targets other target edge
  · intro node member
    obtain ⟨index, inside, found⟩ := List.mem_iff_getElem.mp member
    rw [List.getElem_modify] at found
    rw [width] at inside
    have old := synced.fresh _ (List.getElem_mem inside)
    split at found
    · rw [← found]
      exact old
    · rw [← found]
      exact old

theorem Synced.addDependencies (synced : builder.Synced) {child : Nat} {parents : List Nat}
    {after : Builder ω} (added : builder.addDependencies child parents = some after) :
    after.Synced ∧ after.dag.nodes.length = builder.dag.nodes.length := by
  induction parents generalizing builder with
  | nil =>
      simp only [Builder.addDependencies, Option.some.injEq] at added
      exact added ▸ ⟨synced, rfl⟩
  | cons parent rest ih =>
      obtain ⟨middle, first, others⟩ := Option.bind_eq_some_iff.mp added
      obtain ⟨middleSynced, width⟩ := synced.addDependency first
      obtain ⟨afterSynced, same⟩ := ih middleSynced others
      exact ⟨afterSynced, same.trans width⟩

theorem outs_append (nodes : List (Node ω)) (work : Option ω) (index : Nat) :
    Dag.outs ⟨nodes ++ [{ work := work }], counters⟩ index = Dag.outs ⟨nodes, counters⟩ index := by
  by_cases inside : index < nodes.length
  · simp [Dag.outs, List.getElem?_append_left inside]
  · by_cases last : index = nodes.length
    · simp [Dag.outs, last]
    · rw [Dag.outs_of_le, Dag.outs_of_le]
      · simp only
        omega
      · simp only [List.length_append, List.length_singleton]
        omega

theorem ins_append (nodes : List (Node ω)) (work : Option ω) (index : Nat) :
    Dag.ins ⟨nodes ++ [{ work := work }], counters⟩ index = Dag.ins ⟨nodes, counters⟩ index := by
  simp only [Dag.ins, List.length_append, List.length_singleton, Finset.sum_range_succ, outs_append]
  rw [Dag.outs_of_le ⟨nodes, counters⟩ (Nat.le_refl _), List.count_nil, Nat.add_zero]

theorem Synced.push (synced : builder.Synced) (work : Option ω) :
    Synced ⟨{ builder.dag with nodes := builder.dag.nodes ++ [{ work := work }] }, builder.numIns ++ [0]⟩ where
  length := by simp [synced.length]
  root := by simp
  numIns := by
    intro index inside
    simp only [List.length_append, List.length_singleton] at inside
    rw [ins_append]
    by_cases old : index < builder.dag.nodes.length
    · rw [List.getElem?_append_left (by rw [synced.length]; exact old)]
      exact synced.numIns index old
    · have last : index = builder.numIns.length := by
        rw [synced.length]
        omega
      have unused : builder.dag.ins index = 0 := by
        refine Finset.sum_eq_zero fun parent _ => List.count_eq_zero.mpr ?_
        intro edge
        have bounded := synced.targets parent index edge
        omega
      rw [last, List.getElem?_concat_length, ← last, unused, Nat.zero_mod]
  targets := by
    intro parent child edge
    have inside := synced.targets parent child (outs_append builder.dag.nodes work parent ▸ edge)
    simp only [List.length_append, List.length_singleton]
    omega
  fresh := by
    intro node member
    rcases List.mem_append.mp member with old | new
    · exact synced.fresh node old
    · rw [List.mem_singleton.mp new]
  counters := synced.counters

theorem Synced.node (synced : builder.Synced) {work : Option ω} {parents : List Nat} {after : Builder ω}
    (added : builder.node work parents = some after) : after.Synced := by
  unfold Builder.node at added
  rw [Option.ite_none_right_eq_some] at added
  exact ((synced.push work).addDependencies added.2).1

theorem Synced.apply (synced : builder.Synced) {operation : Operation ω} {after : Builder ω}
    (applied : builder.apply operation = some after) : after.Synced := by
  cases operation with
  | node work parents => exact synced.node applied
  | andThen parent work =>
      obtain ⟨middle, added, linked⟩ := Option.bind_eq_some_iff.mp applied
      exact ((synced.node added).addDependency linked).1
  | addDependency parent child => exact (synced.addDependency applied).1

theorem Synced.applyAll (synced : builder.Synced) {operations : List (Operation ω)} {after : Builder ω}
    (applied : builder.applyAll operations = some after) : after.Synced := by
  induction operations generalizing builder with
  | nil =>
      simp only [Builder.applyAll, Option.some.injEq] at applied
      exact applied ▸ synced
  | cons operation rest ih =>
      obtain ⟨middle, first, others⟩ := Option.bind_eq_some_iff.mp applied
      exact ih (synced.apply first) others

theorem assignCounters_map {β : Type} (value : Node ω → β)
    (same : ∀ node slot, value { node with counterIndex := some slot } = value node)
    (numIns : List Nat) (nodes : List (Node ω)) (counters : List Nat) :
    (assignCounters numIns nodes counters).1.map value = nodes.map value := by
  induction nodes generalizing numIns counters with
  | nil => cases numIns <;> rfl
  | cons node nodes ih =>
      cases numIns with
      | nil => rfl
      | cons count numIns =>
          unfold assignCounters
          split
          · simp only [List.map_cons, ih, same]
          · simp only [List.map_cons, ih]

theorem assignCounters_prefix (numIns : List Nat) (nodes : List (Node ω)) (counters : List Nat) :
    ∃ more, (assignCounters numIns nodes counters).2 = counters ++ more := by
  induction nodes generalizing numIns counters with
  | nil => cases numIns <;> exact ⟨[], by simp [assignCounters]⟩
  | cons node nodes ih =>
      cases numIns with
      | nil => exact ⟨[], by simp [assignCounters]⟩
      | cons count numIns =>
          unfold assignCounters
          split
          · obtain ⟨more, shape⟩ := ih numIns (counters ++ [count])
            exact ⟨count :: more, by simp [shape]⟩
          · exact ih numIns counters

theorem assignCounters_low {numIns : List Nat} {nodes : List (Node ω)} {counters : List Nat}
    (fresh : ∀ node ∈ nodes, node.counterIndex = none) {node : Node ω} {slot : Nat}
    (member : node ∈ (assignCounters numIns nodes counters).1) (indexed : node.counterIndex = some slot) :
    counters.length ≤ slot := by
  induction nodes generalizing numIns counters with
  | nil => cases numIns <;> simp [assignCounters] at member
  | cons head nodes ih =>
      have rest : ∀ node ∈ nodes, node.counterIndex = none :=
        fun node inside => fresh node (List.mem_cons_of_mem _ inside)
      cases numIns with
      | nil =>
          rw [fresh node member] at indexed
          cases indexed
      | cons first numIns =>
          unfold assignCounters at member
          split at member
          · rcases List.mem_cons.mp member with here | inside
            · rw [here, Option.some.injEq] at indexed
              exact Nat.le_of_eq indexed
            · have low := ih rest inside
              rw [List.length_append, List.length_singleton] at low
              omega
          · rcases List.mem_cons.mp member with here | inside
            · rw [here, fresh head List.mem_cons_self] at indexed
              cases indexed
            · exact ih rest inside

theorem assignCounters_distinct {numIns : List Nat} {nodes : List (Node ω)} {counters : List Nat}
    (fresh : ∀ node ∈ nodes, node.counterIndex = none) {index other slot : Nat} {node twin : Node ω}
    (found : (assignCounters numIns nodes counters).1[index]? = some node)
    (foundOther : (assignCounters numIns nodes counters).1[other]? = some twin)
    (indexed : node.counterIndex = some slot) (indexedOther : twin.counterIndex = some slot) :
    index = other := by
  induction nodes generalizing numIns counters index other with
  | nil => cases numIns <;> simp [assignCounters] at found
  | cons head nodes ih =>
      have rest : ∀ node ∈ nodes, node.counterIndex = none :=
        fun node inside => fresh node (List.mem_cons_of_mem _ inside)
      cases numIns with
      | nil =>
          have unset := fresh node (List.mem_of_getElem? found)
          rw [indexed] at unset
          cases unset
      | cons first numIns =>
          unfold assignCounters at found foundOther
          split at found
          · rename_i several
            rw [if_pos several] at foundOther
            -- the head takes the next slot, the later nodes take larger ones
            have later : ∀ (place : Nat) (other : Node ω),
                (assignCounters numIns nodes (counters ++ [first])).1[place]? = some other →
                other.counterIndex = some slot → counters.length < slot := by
              intro place other stored used
              have low := assignCounters_low rest (List.mem_of_getElem? stored) used
              rw [List.length_append, List.length_singleton] at low
              omega
            have head : ∀ taken : Node ω, { head with counterIndex := some counters.length } = taken →
                taken.counterIndex = some slot → counters.length = slot := by
              intro taken same used
              rw [← same] at used
              exact Option.some.inj used
            cases index with
            | zero =>
                have low := head node (by simpa using found) indexed
                cases other with
                | zero => rfl
                | succ other =>
                    have high := later other twin (by simpa using foundOther) indexedOther
                    omega
            | succ index =>
                have high := later index node (by simpa using found) indexed
                cases other with
                | zero =>
                    have low := head twin (by simpa using foundOther) indexedOther
                    omega
                | succ other =>
                    exact congrArg Nat.succ (ih rest (by simpa using found) (by simpa using foundOther))
          · rename_i few
            rw [if_neg few] at foundOther
            have unset := fresh head List.mem_cons_self
            cases index with
            | zero =>
                simp only [List.getElem?_cons_zero, Option.some.injEq] at found
                rw [← found, unset] at indexed
                cases indexed
            | succ index =>
                cases other with
                | zero =>
                    simp only [List.getElem?_cons_zero, Option.some.injEq] at foundOther
                    rw [← foundOther, unset] at indexedOther
                    cases indexedOther
                | succ other =>
                    exact congrArg Nat.succ (ih rest (by simpa using found) (by simpa using foundOther))

/-- The counter that the loop of `build` gives to a node starts with the number
of the edges into it. -/
theorem assignCounters_counter {numIns : List Nat} {nodes : List (Node ω)} {counters : List Nat}
    (fresh : ∀ node ∈ nodes, node.counterIndex = none) {index count : Nat} {node : Node ω}
    (counted : numIns[index]? = some count)
    (found : (assignCounters numIns nodes counters).1[index]? = some node) :
    if count > 1 then ∃ slot, node.counterIndex = some slot ∧
      (assignCounters numIns nodes counters).2[slot]? = some count
    else node.counterIndex = none := by
  induction nodes generalizing numIns counters index with
  | nil => cases numIns <;> simp [assignCounters] at found
  | cons head nodes ih =>
      have rest : ∀ node ∈ nodes, node.counterIndex = none :=
        fun node member => fresh node (List.mem_cons_of_mem _ member)
      cases numIns with
      | nil => simp at counted
      | cons first numIns =>
          unfold assignCounters at found ⊢
          cases index with
          | zero =>
              have same : first = count := by simpa using counted
              subst same
              split at found
              · rename_i several
                simp only [List.getElem?_cons_zero, Option.some.injEq] at found
                rw [if_pos several]
                simp only [several, if_true]
                obtain ⟨more, shape⟩ := assignCounters_prefix numIns nodes (counters ++ [first])
                exact ⟨counters.length, by rw [← found], by simp [shape]⟩
              · rename_i few
                simp only [List.getElem?_cons_zero, Option.some.injEq] at found
                rw [if_neg few, ← found]
                exact fresh head List.mem_cons_self
          | succ index =>
              simp only [List.getElem?_cons_succ] at counted
              split at found
              · rename_i several
                simp only [List.getElem?_cons_succ] at found
                simp only [several, if_true]
                exact ih rest counted found
              · rename_i few
                simp only [List.getElem?_cons_succ] at found
                simp only [few, if_false]
                exact ih rest counted found

theorem build_eq {dag : Dag ω} (built : builder.build = some dag) :
    dag.nodes = (assignCounters builder.numIns builder.dag.nodes builder.dag.initialCounters).1 ∧
      dag.initialCounters = (assignCounters builder.numIns builder.dag.nodes builder.dag.initialCounters).2 := by
  unfold Builder.build at built
  rw [Option.ite_none_right_eq_some, Option.some.injEq] at built
  rw [← built.2]
  exact ⟨rfl, rfl⟩

theorem build_outs {dag : Dag ω} (built : builder.build = some dag) :
    dag.nodes.length = builder.dag.nodes.length ∧ ∀ index, dag.outs index = builder.dag.outs index := by
  have same := assignCounters_map Node.outs (fun _ _ => rfl) builder.numIns builder.dag.nodes
    builder.dag.initialCounters
  rw [← (build_eq built).1] at same
  refine ⟨by simpa using congrArg List.length same, fun index => ?_⟩
  simp only [Dag.outs, ← List.getElem?_map, same]

theorem build_works {dag : Dag ω} (built : builder.build = some dag) :
    dag.nodes.map Node.work = builder.dag.nodes.map Node.work := by
  rw [(build_eq built).1]
  exact assignCounters_map Node.work (fun _ _ => rfl) ..

end Builder

/-- What `build` promises to `run`. -/
structure Dag.Counted (dag : Dag ω) : Prop where
  root : 0 < dag.nodes.length
  targets : ∀ parent, ∀ child ∈ dag.outs parent, child < dag.nodes.length
  single : ∀ child, dag.counterIndex child = none → dag.ins child ≤ 1
  several : ∀ child slot, dag.counterIndex child = some slot →
    dag.initialCounters[slot]? = some (dag.ins child)
  distinct : ∀ child other slot, dag.counterIndex child = some slot →
    dag.counterIndex other = some slot → child = other

theorem Dag.counterIndex_eq_some {dag : Dag ω} (indexed : dag.counterIndex child = some slot) :
    ∃ node, dag.nodes[child]? = some node ∧ node.counterIndex = some slot :=
  Option.bind_eq_some_iff.mp indexed

theorem Dag.counted_of_operations {operations : List (Builder.Operation ω)} {dag : Dag ω}
    (built : Dag.ofOperations operations = some dag) (few : dag.edges < 2 ^ 32) : dag.Counted := by
  obtain ⟨builder, applied, assigned⟩ := Option.bind_eq_some_iff.mp built
  have synced := Builder.initial_synced.applyAll applied
  obtain ⟨width, outs⟩ := Builder.build_outs assigned
  obtain ⟨nodes, counters⟩ := Builder.build_eq assigned
  have targets : ∀ parent, ∀ child ∈ dag.outs parent, child < dag.nodes.length := by
    intro parent child edge
    rw [width]
    exact synced.targets parent child (outs parent ▸ edge)
  -- no number of edges into a node reaches the overflow of `numIns`
  have counted : ∀ child < dag.nodes.length, builder.numIns[child]? = some (dag.ins child) := by
    intro child inside
    have same : builder.dag.ins child = dag.ins child := by
      simp only [Dag.ins, width, outs]
    rw [synced.numIns child (width ▸ inside), same, Nat.mod_eq_of_lt]
    exact Nat.lt_of_le_of_lt (dag.ins_le_edges child) few
  have counter : ∀ child node, dag.nodes[child]? = some node →
      if dag.ins child > 1 then ∃ slot, node.counterIndex = some slot ∧
        dag.initialCounters[slot]? = some (dag.ins child)
      else node.counterIndex = none := by
    intro child node found
    have inside := (List.getElem?_eq_some_iff.mp found).1
    rw [counters]
    exact Builder.assignCounters_counter synced.fresh (counted child inside) (nodes ▸ found)
  refine ⟨width ▸ synced.root, targets, ?_, ?_, ?_⟩
  · intro child unset
    by_contra many
    cases found : dag.nodes[child]? with
    | none =>
        have unused : dag.ins child = 0 := by
          refine Finset.sum_eq_zero fun parent _ => List.count_eq_zero.mpr fun edge => ?_
          have inside := targets parent child edge
          rw [List.getElem?_eq_none_iff] at found
          omega
        omega
    | some node =>
        have given := counter child node found
        rw [if_pos (by omega)] at given
        obtain ⟨slot, indexed, _⟩ := given
        simp [Dag.counterIndex, found, indexed] at unset
  · intro child slot indexed
    obtain ⟨node, found, set⟩ := Dag.counterIndex_eq_some indexed
    have given := counter child node found
    split at given
    · obtain ⟨_, used, stored⟩ := given
      rw [set, Option.some.injEq] at used
      exact used ▸ stored
    · rw [set] at given
      cases given
  · intro child other slot indexed indexedOther
    obtain ⟨node, found, set⟩ := Dag.counterIndex_eq_some indexed
    obtain ⟨twin, foundOther, setOther⟩ := Dag.counterIndex_eq_some indexedOther
    rw [nodes] at found foundOther
    exact Builder.assignCounters_distinct synced.fresh found foundOther set setOther

end MiniMarl
