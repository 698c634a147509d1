import Mathlib.Data.List.Nodup
import Mathlib.Logic.Function.Basic

namespace MiniMarl.Data

/-! Doubly linked chains.

Nodes are numbered, and `Links` gives the successor and the predecessor of each.
`Segment` says that nodes follow each other in both directions, between a node
before the first and a node behind the last.
-/

structure Links where
  next : Nat → Option Nat
  prev : Nat → Option Nat

namespace Links

def setNext (links : Links) (node : Nat) (target : Option Nat) : Links :=
  { links with next := Function.update links.next node target }

def setPrev (links : Links) (node : Nat) (target : Option Nat) : Links :=
  { links with prev := Function.update links.prev node target }

/-- As `setNext`, if there is a node. -/
def setNextOf (links : Links) (node target : Option Nat) : Links :=
  match node with
  | some node => links.setNext node target
  | none => links

/-- As `setPrev`, if there is a node. -/
def setPrevOf (links : Links) (node target : Option Nat) : Links :=
  match node with
  | some node => links.setPrev node target
  | none => links

/-- The neighbours of a node become neighbours of each other. -/
def bypass (links : Links) (node : Nat) : Links :=
  let links := links.setNextOf (links.prev node) (links.next node)
  let links := links.setPrevOf (links.next node) (links.prev node)
  (links.setPrev node none).setNext node none

/-- The node comes before the first one of a chain. -/
def push (links : Links) (node : Nat) (first : Option Nat) : Links :=
  ((links.setPrev node none).setNext node first).setPrevOf first (some node)

def Segment (links : Links) : Option Nat → List Nat → Option Nat → Prop
  | _, [], _ => True
  | before, node :: nodes, behind =>
      links.prev node = before ∧ links.next node = nodes.head?.or behind ∧ links.Segment (some node) nodes behind

/-- A chain that ends on both sides. -/
abbrev Chain (links : Links) (nodes : List Nat) : Prop := links.Segment none nodes none

variable {links other : Links} {before behind target : Option Nat} {node : Nat} {nodes : List Nat}

theorem Segment.congr (segment : links.Segment before nodes behind)
    (same : ∀ node ∈ nodes, other.next node = links.next node ∧ other.prev node = links.prev node) :
    other.Segment before nodes behind := by
  induction nodes generalizing before with
  | nil => trivial
  | cons node nodes ih =>
      obtain ⟨prev, next, rest⟩ := segment
      obtain ⟨sameNext, samePrev⟩ := same node List.mem_cons_self
      exact ⟨samePrev.trans prev, sameNext.trans next, ih rest fun node member => same node (List.mem_cons_of_mem _ member)⟩

theorem Segment.setNext (segment : links.Segment before nodes behind) (outside : node ∉ nodes) :
    (links.setNext node target).Segment before nodes behind := by
  refine segment.congr ?_
  intro other member
  have distinct : other ≠ node := fun same => outside (same ▸ member)
  exact ⟨Function.update_of_ne distinct .., rfl⟩

theorem Segment.setPrev (segment : links.Segment before nodes behind) (outside : node ∉ nodes) :
    (links.setPrev node target).Segment before nodes behind := by
  refine segment.congr ?_
  intro other member
  have distinct : other ≠ node := fun same => outside (same ▸ member)
  exact ⟨rfl, Function.update_of_ne distinct ..⟩

theorem segment_append {first second : List Nat} :
    links.Segment before (first ++ second) behind ↔
      links.Segment before first (second.head?.or behind) ∧ links.Segment (first.getLast?.or before) second behind := by
  induction first generalizing before with
  | nil => simp [Segment]
  | cons node nodes ih =>
      have last : (node :: nodes).getLast?.or before = nodes.getLast?.or (some node) := by
        rw [List.getLast?_cons]
        cases nodes.getLast? with
        | none => rfl
        | some last => rfl
      simp only [List.cons_append, Segment, ih, last, List.head?_append, Option.or_assoc, and_assoc]

theorem Segment.setNext_last (segment : links.Segment before (nodes ++ [node]) behind) (outside : node ∉ nodes)
    (target : Option Nat) : (links.setNext node target).Segment before (nodes ++ [node]) target := by
  obtain ⟨front, prev, _, _⟩ := segment_append.mp segment
  refine segment_append.mpr ⟨front.setNext outside, prev, ?_, trivial⟩
  exact Function.update_self ..

theorem Segment.setPrev_head (segment : links.Segment before (node :: nodes) behind) (outside : node ∉ nodes)
    (target : Option Nat) : (links.setPrev node target).Segment target (node :: nodes) behind := by
  obtain ⟨_, next, rest⟩ := segment
  exact ⟨Function.update_self .., next, rest.setPrev outside⟩

@[simp] theorem setNext_prev : (links.setNext node target).prev = links.prev := rfl

@[simp] theorem setPrev_next : (links.setPrev node target).next = links.next := rfl

@[simp] theorem setNextOf_prev {optional : Option Nat} : (links.setNextOf optional target).prev = links.prev := by
  cases optional <;> rfl

@[simp] theorem setPrevOf_next {optional : Option Nat} : (links.setPrevOf optional target).next = links.next := by
  cases optional <;> rfl

theorem setNextOf_next {optional : Option Nat} (other : optional ≠ some node) :
    (links.setNextOf optional target).next node = links.next node := by
  cases optional with
  | none => rfl
  | some changed => exact Function.update_of_ne (fun same => other (congrArg some same.symm)) ..

theorem setPrevOf_prev {optional : Option Nat} (other : optional ≠ some node) :
    (links.setPrevOf optional target).prev node = links.prev node := by
  cases optional with
  | none => rfl
  | some changed => exact Function.update_of_ne (fun same => other (congrArg some same.symm)) ..

theorem Segment.setNextOf {optional : Option Nat} (segment : links.Segment before nodes behind)
    (outside : ∀ node ∈ nodes, optional ≠ some node) : (links.setNextOf optional target).Segment before nodes behind :=
  segment.congr fun node member => ⟨setNextOf_next (outside node member), by rw [setNextOf_prev]⟩

theorem Segment.setPrevOf {optional : Option Nat} (segment : links.Segment before nodes behind)
    (outside : ∀ node ∈ nodes, optional ≠ some node) : (links.setPrevOf optional target).Segment before nodes behind :=
  segment.congr fun node member => ⟨by rw [setPrevOf_next], setPrevOf_prev (outside node member)⟩

theorem Segment.relinkNext (segment : links.Segment before nodes behind) (nodup : nodes.Nodup) (target : Option Nat) :
    (links.setNextOf nodes.getLast? target).Segment before nodes target := by
  rcases nodes.eq_nil_or_concat with rfl | ⟨front, last, rfl⟩
  · trivial
  · rw [List.concat_eq_append] at segment nodup ⊢
    have outside : last ∉ front := by
      rw [List.nodup_append] at nodup
      intro member
      exact nodup.2.2 last member last List.mem_cons_self rfl
    simpa [Links.setNextOf] using segment.setNext_last outside target

theorem Segment.relinkPrev (segment : links.Segment before nodes behind) (nodup : nodes.Nodup) (target : Option Nat) :
    (links.setPrevOf nodes.head? target).Segment target nodes behind := by
  cases nodes with
  | nil => trivial
  | cons node nodes => exact segment.setPrev_head (List.nodup_cons.mp nodup).1 target

theorem Chain.bypass {front rest : List Nat} (chain : links.Chain (front ++ node :: rest))
    (nodup : (front ++ node :: rest).Nodup) :
    (links.bypass node).Chain (front ++ rest) ∧
      ((links.bypass node).next node = none ∧ (links.bypass node).prev node = none) ∧
      ∀ other, other ∉ front ++ node :: rest →
        (links.bypass node).next other = links.next other ∧ (links.bypass node).prev other = links.prev other := by
  obtain ⟨first, prev, next, second⟩ := segment_append.mp chain
  rw [Option.or_none] at prev next
  obtain ⟨frontNodup, restNodup, apart⟩ := List.nodup_append.mp nodup
  obtain ⟨notRest, restNodup⟩ := List.nodup_cons.mp restNodup
  have notFront : node ∉ front := fun member => apart node member node List.mem_cons_self rfl
  have lastNot : ∀ other, other ∉ front → front.getLast? ≠ some other :=
    fun other outside last => outside (List.mem_of_getLast? last)
  have headNot : ∀ other, other ∉ rest → rest.head? ≠ some other :=
    fun other outside head => outside (List.mem_of_head? head)
  have same : links.bypass node = (((links.setNextOf front.getLast? rest.head?).setPrevOf rest.head?
      front.getLast?).setPrev node none).setNext node none := by
    simp only [Links.bypass, prev, next, setNextOf_prev, setNextOf_next (lastNot node notFront)]
  rw [same]
  refine ⟨segment_append.mpr ⟨?_, ?_⟩, ⟨Function.update_self .., Function.update_self ..⟩, ?_⟩
  · rw [Option.or_none]
    refine Segment.setNext (Segment.setPrev (Segment.setPrevOf (first.relinkNext frontNodup _) ?_) notFront) notFront
    intro other member
    exact headNot other fun also => apart other member other (List.mem_cons_of_mem _ also) rfl
  · rw [Option.or_none]
    refine Segment.setNext (Segment.setPrev (Segment.relinkPrev (Segment.setNextOf second ?_) restNodup _) notRest) notRest
    intro other member
    exact lastNot other fun also => apart other also other (List.mem_cons_of_mem _ member) rfl
  · intro other outside
    simp only [List.mem_append, List.mem_cons, not_or] at outside
    obtain ⟨outFront, distinct, outRest⟩ := outside
    constructor
    · exact (Function.update_of_ne distinct ..).trans (by rw [setPrev_next, setPrevOf_next, setNextOf_next (lastNot other outFront)])
    · exact (Function.update_of_ne distinct ..).trans (by rw [setPrevOf_prev (headNot other outRest), setNextOf_prev])

theorem Chain.push (chain : links.Chain nodes) (nodup : nodes.Nodup) (fresh : node ∉ nodes) :
    (links.push node nodes.head?).Chain (node :: nodes) := by
  have elsewhere : nodes.head? ≠ some node := by
    intro head
    exact fresh (List.mem_of_head? head)
  refine ⟨?_, ?_, Segment.relinkPrev ((chain.setPrev fresh).setNext fresh) nodup (some node)⟩
  · exact (setPrevOf_prev elsewhere).trans (Function.update_self ..)
  · rw [Links.push, setPrevOf_next, Option.or_none]
    exact Function.update_self ..

theorem push_eq (next : links.next node = none) (prev : links.prev node = none) :
    links.push node none = links := by
  have samePrev : Function.update links.prev node none = links.prev := Function.update_eq_self_iff.mpr prev.symm
  have sameNext : Function.update links.next node none = links.next := Function.update_eq_self_iff.mpr next.symm
  simp only [Links.push, Links.setPrevOf, Links.setNext, Links.setPrev, samePrev, sameNext]

theorem push_of_notMem {other : Nat} (outside : other ∉ node :: nodes) :
    (links.push node nodes.head?).next other = links.next other ∧
      (links.push node nodes.head?).prev other = links.prev other := by
  obtain ⟨distinct, notNodes⟩ := not_or.mp (mt List.mem_cons.mpr outside)
  have elsewhere : nodes.head? ≠ some other := fun head => notNodes (List.mem_of_head? head)
  constructor
  · rw [Links.push, setPrevOf_next]
    exact Function.update_of_ne distinct ..
  · rw [Links.push, setPrevOf_prev elsewhere]
    exact Function.update_of_ne distinct ..

theorem Chain.transfer {front rest : List Nat} (source : links.Chain (front ++ node :: rest)) (target : links.Chain nodes)
    (nodup : (front ++ node :: rest ++ nodes).Nodup) :
    ((links.bypass node).push node nodes.head?).Chain (front ++ rest) ∧
      ((links.bypass node).push node nodes.head?).Chain (node :: nodes) := by
  obtain ⟨sourceNodup, targetNodup, apart⟩ := List.nodup_append.mp nodup
  obtain ⟨shorter, _, kept⟩ := source.bypass sourceNodup
  have notTarget : ∀ other ∈ front ++ node :: rest, other ∉ nodes :=
    fun other member also => apart other member other also rfl
  have still : (links.bypass node).Chain nodes :=
    target.congr fun other member => kept other fun also => notTarget other also member
  refine ⟨shorter.congr ?_, still.push targetNodup (notTarget node (by simp))⟩
  intro other member
  refine push_of_notMem (mt List.mem_cons.mp (not_or.mpr ⟨?_, ?_⟩))
  · intro same
    subst same
    have alone : other ∉ front ++ rest := (List.nodup_cons.mp (List.nodup_middle.mp sourceNodup)).1
    exact alone member
  · refine notTarget other ?_
    simp only [List.mem_append, List.mem_cons] at member ⊢
    exact member.imp_right .inr

end Links

end MiniMarl.Data
