import MiniMarl.Dag.Builder

namespace MiniMarl

namespace Builder

variable {ω : Type} {builder middle after : Builder ω}

/-- The works of the nodes that a call adds. -/
def Operation.works : Operation ω → List (Option ω)
  | .node work _ | .andThen _ work => [work]
  | .addDependency .. => []

/-- The edges that it adds to a builder with that many nodes, from the parent to
the child. -/
def Operation.edges (nodes : Nat) : Operation ω → List (Nat × Nat)
  | .node _ parents => parents.map fun parent => (parent, nodes)
  | .andThen parent _ => [(parent, nodes)]
  | .addDependency parent child => [(parent, child)]

def edgesOf (nodes : Nat) : List (Operation ω) → List (Nat × Nat)
  | [] => []
  | operation :: operations => operation.edges nodes ++ edgesOf (nodes + operation.works.length) operations

def children (edges : List (Nat × Nat)) (parent : Nat) : List Nat :=
  (edges.filter fun edge => edge.1 == parent).map Prod.snd

@[simp] theorem children_nil (parent : Nat) : children [] parent = [] := rfl

theorem children_cons (edge : Nat × Nat) (edges : List (Nat × Nat)) (parent : Nat) :
    children (edge :: edges) parent = if parent = edge.1 then edge.2 :: children edges parent
      else children edges parent := by
  by_cases here : parent = edge.1
  · simp [children, here]
  · simp [children, here, Ne.symm here]

theorem children_append (edges others : List (Nat × Nat)) (parent : Nat) :
    children (edges ++ others) parent = children edges parent ++ children others parent := by
  simp [children]

/-- One builder comes from another by adding these nodes and these edges. -/
structure Adds (builder after : Builder ω) (works : List (Option ω)) (edges : List (Nat × Nat)) : Prop where
  works : after.dag.nodes.map Node.work = builder.dag.nodes.map Node.work ++ works
  outs : ∀ parent, after.dag.outs parent = builder.dag.outs parent ++ children edges parent

theorem Adds.refl (builder : Builder ω) : builder.Adds builder [] [] := ⟨by simp, by simp⟩

theorem Adds.trans {works more : List (Option ω)} {edges others : List (Nat × Nat)}
    (first : builder.Adds middle works edges) (second : middle.Adds after more others) :
    builder.Adds after (works ++ more) (edges ++ others) where
  works := by rw [second.works, first.works, List.append_assoc]
  outs parent := by rw [second.outs, first.outs, children_append, List.append_assoc]

theorem Adds.length {works : List (Option ω)} {edges : List (Nat × Nat)} (adds : builder.Adds after works edges) :
    after.dag.nodes.length = builder.dag.nodes.length + works.length := by
  simpa using congrArg List.length adds.works

theorem adds_addDependency {parent child : Nat} (added : builder.addDependency parent child = some after) :
    builder.Adds after [] [(parent, child)] := by
  unfold Builder.addDependency at added
  rw [Option.ite_none_right_eq_some, Option.some.injEq] at added
  obtain ⟨⟨inside, _⟩, rfl⟩ := added
  constructor
  · apply List.ext_getElem?
    intro index
    simp only [List.append_nil, List.getElem?_map, List.getElem?_modify]
    cases builder.dag.nodes[index]? with
    | none => simp
    | some node => by_cases here : parent = index <;> simp [here]
  · intro index
    rw [outs_modify _ parent child index inside, children_cons]
    split <;> simp

theorem adds_addDependencies {parents : List Nat} {child : Nat}
    (added : builder.addDependencies child parents = some after) :
    builder.Adds after [] (parents.map fun parent => (parent, child)) := by
  induction parents generalizing builder with
  | nil =>
      simp only [Builder.addDependencies, Option.some.injEq] at added
      exact added ▸ Adds.refl builder
  | cons parent rest ih =>
      obtain ⟨middle, first, others⟩ := Option.bind_eq_some_iff.mp added
      exact (adds_addDependency first).trans (ih others)

theorem adds_node {work : Option ω} {parents : List Nat} (added : builder.node work parents = some after) :
    builder.Adds after [work] (parents.map fun parent => (parent, builder.dag.nodes.length)) := by
  unfold Builder.node at added
  rw [Option.ite_none_right_eq_some] at added
  have pushed : builder.Adds
      ⟨{ builder.dag with nodes := builder.dag.nodes ++ [{ work := work }] }, builder.numIns ++ [0]⟩ [work] [] :=
    ⟨by simp, fun parent => by simp [outs_append]⟩
  exact pushed.trans (adds_addDependencies added.2)

theorem adds_apply {operation : Operation ω} (applied : builder.apply operation = some after) :
    builder.Adds after operation.works (operation.edges builder.dag.nodes.length) := by
  cases operation with
  | node work parents => exact adds_node applied
  | andThen parent work =>
      obtain ⟨middle, added, linked⟩ := Option.bind_eq_some_iff.mp applied
      exact (adds_node added).trans (adds_addDependency linked)
  | addDependency parent child => exact adds_addDependency applied

theorem adds_applyAll {operations : List (Operation ω)} (applied : builder.applyAll operations = some after) :
    builder.Adds after (operations.flatMap Operation.works) (edgesOf builder.dag.nodes.length operations) := by
  induction operations generalizing builder with
  | nil =>
      simp only [Builder.applyAll, Option.some.injEq] at applied
      exact applied ▸ Adds.refl builder
  | cons operation rest ih =>
      obtain ⟨middle, first, others⟩ := Option.bind_eq_some_iff.mp applied
      have one := adds_apply first
      have all := one.trans (ih others)
      rw [one.length] at all
      exact all

end Builder

/-- The nodes of a built DAG are the root and those of the calls, in their order,
and its edges those of the calls. -/
theorem Dag.of_operations {ω : Type} {operations : List (Builder.Operation ω)} {dag : Dag ω}
    (built : Dag.ofOperations operations = some dag) :
    dag.nodes.map Node.work = none :: operations.flatMap Builder.Operation.works ∧
      ∀ parent, dag.outs parent = Builder.children (Builder.edgesOf 1 operations) parent := by
  obtain ⟨builder, applied, assigned⟩ := Option.bind_eq_some_iff.mp built
  have adds := Builder.adds_applyAll applied
  refine ⟨(Builder.build_works assigned).trans adds.works, fun parent => ?_⟩
  rw [(Builder.build_outs assigned).2, adds.outs]
  cases parent <;> rfl

/-- No edge leads into the root if no call adds one. -/
theorem Dag.rootless_of_operations {ω : Type} {operations : List (Builder.Operation ω)} {dag : Dag ω}
    (built : Dag.ofOperations operations = some dag) (away : ∀ edge ∈ Builder.edgesOf 1 operations, edge.2 ≠ 0)
    (parent : Nat) : 0 ∉ dag.outs parent := by
  rw [(Dag.of_operations built).2]
  intro member
  obtain ⟨edge, kept, root⟩ := List.mem_map.mp member
  exact away edge (List.mem_of_mem_filter kept) root

end MiniMarl
