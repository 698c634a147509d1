import Mathlib.Data.List.Basic

namespace MiniMarl.Data

/-- A strict total order given as a Boolean test, as `std::less` or a member
`operator<` gives it. -/
structure Comparator (α : Type u) where
  lt : α → α → Bool
  irrefl : ∀ value, lt value value = false
  trans : ∀ {first second third}, lt first second = true → lt second third = true →
    lt first third = true
  total : ∀ {first second}, lt first second = false → lt second first = false → first = second

variable {α : Type u} {order : Comparator α}

/-- The finite sets of an ordered container, in the order in which they are
iterated. No element is stored twice because no element precedes itself. -/
structure OrderedSet (order : Comparator α) where
  elements : List α
  sorted : elements.Pairwise fun left right => order.lt left right = true

namespace OrderedSet

instance : Membership α (OrderedSet order) := ⟨fun set value => value ∈ set.elements⟩

theorem mem_elements {set : OrderedSet order} {value : α} : value ∈ set ↔ value ∈ set.elements :=
  Iff.rfl

def empty : OrderedSet order := ⟨[], .nil⟩

instance : Inhabited (OrderedSet order) := ⟨empty⟩

@[simp] theorem not_mem_empty (value : α) : ¬ value ∈ (empty : OrderedSet order) := by
  simp [mem_elements, empty]

/-- The first element in iteration order. -/
def begin? (set : OrderedSet order) : Option α := set.elements.head?

theorem begin?_eq_none {set : OrderedSet order} : set.begin? = none ↔ set.elements = [] :=
  List.head?_eq_none_iff

theorem begin?_mem {set : OrderedSet order} {first : α} (found : set.begin? = some first) :
    first ∈ set :=
  List.mem_of_mem_head? (by simpa [begin?] using found)

theorem begin?_least {set : OrderedSet order} {first value : α} (found : set.begin? = some first)
    (member : value ∈ set) : value = first ∨ order.lt first value = true := by
  obtain ⟨elements, sorted⟩ := set
  cases elements with
  | nil => simp [begin?] at found
  | cons head rest =>
      simp only [begin?, List.head?_cons, Option.some.injEq] at found
      subst head
      rcases List.mem_cons.mp member with same | later
      · exact .inl same
      · exact .inr ((List.pairwise_cons.mp sorted).1 value later)

/-- Insertion at the place of the order; an element already there stays. -/
def insertElement (order : Comparator α) (value : α) : List α → List α
  | [] => [value]
  | head :: rest =>
      if order.lt value head then value :: head :: rest
      else if order.lt head value then head :: insertElement order value rest
      else head :: rest

theorem mem_insertElement {elements : List α} {value other : α} :
    other ∈ insertElement order value elements ↔ other = value ∨ other ∈ elements := by
  induction elements with
  | nil => simp [insertElement]
  | cons head rest ih =>
      unfold insertElement
      split
      · simp
      · split
        · rw [List.mem_cons, ih, List.mem_cons]
          tauto
        · rename_i notBefore notAfter
          have same : value = head :=
            order.total (by simpa using notBefore) (by simpa using notAfter)
          subst head
          simp

theorem insertElement_sorted {elements : List α} {value : α}
    (sorted : elements.Pairwise fun left right => order.lt left right = true) :
    (insertElement order value elements).Pairwise fun left right => order.lt left right = true := by
  induction elements with
  | nil => simp [insertElement]
  | cons head rest ih =>
      obtain ⟨headFirst, restSorted⟩ := List.pairwise_cons.mp sorted
      unfold insertElement
      split
      · rename_i before
        refine List.pairwise_cons.mpr ⟨?_, sorted⟩
        intro other member
        rcases List.mem_cons.mp member with same | later
        · exact same ▸ before
        · exact order.trans before (headFirst other later)
      · split
        · rename_i after
          refine List.pairwise_cons.mpr ⟨?_, ih restSorted⟩
          intro other member
          rcases mem_insertElement.mp member with same | later
          · exact same ▸ after
          · exact headFirst other later
        · exact sorted

def insert (value : α) (set : OrderedSet order) : OrderedSet order :=
  ⟨insertElement order value set.elements, insertElement_sorted set.sorted⟩

@[simp] theorem mem_insert {set : OrderedSet order} {value other : α} :
    other ∈ set.insert value ↔ other = value ∨ other ∈ set :=
  mem_insertElement

/-- Two elements neither of which precedes the other are the same key. -/
def equivalent (order : Comparator α) (left right : α) : Bool :=
  !order.lt left right && !order.lt right left

@[simp] theorem equivalent_iff {left right : α} : equivalent order left right = true ↔ left = right := by
  constructor
  · intro same
    simp only [equivalent, Bool.and_eq_true, Bool.not_eq_eq_eq_not, Bool.not_true] at same
    exact order.total same.1 same.2
  · rintro rfl
    simp [equivalent, order.irrefl]

@[simp] theorem equivalent_eq_false {left right : α} :
    equivalent order left right = false ↔ left ≠ right := by
  rw [← Bool.not_eq_true, equivalent_iff]

/-- Erasure by key, with the answer whether the key was there. -/
def erase (value : α) (set : OrderedSet order) : OrderedSet order × Bool :=
  (⟨set.elements.filter fun other => !equivalent order other value, set.sorted.filter _⟩,
    set.elements.any fun other => equivalent order other value)

@[simp] theorem mem_erase {set : OrderedSet order} {value other : α} :
    other ∈ (set.erase value).1 ↔ other ∈ set ∧ other ≠ value := by
  simp [erase, mem_elements]

@[simp] theorem erase_found {set : OrderedSet order} {value : α} :
    (set.erase value).2 = true ↔ value ∈ set := by
  simp [erase, mem_elements]

theorem erase_begin {set : OrderedSet order} {first : α} {rest : List α}
    (shape : set.elements = first :: rest) : (set.erase first).1.elements = rest := by
  have sorted := set.sorted
  rw [shape] at sorted
  have headFirst := (List.pairwise_cons.mp sorted).1
  have kept : rest.filter (fun other => !equivalent order other first) = rest := by
    rw [List.filter_eq_self]
    intro other member
    have different : other ≠ first := by
      rintro rfl
      have impossible := headFirst other member
      rw [order.irrefl] at impossible
      exact Bool.noConfusion impossible
    simpa using different
  simp only [erase, shape, List.filter_cons, kept]
  simp

end OrderedSet

end MiniMarl.Data
