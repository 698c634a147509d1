import MiniMarl.Allocator.Default
import MiniMarl.Data.Counting
import MiniMarl.Transition

namespace MiniMarl

open Data Transition

namespace Allocation

/-- The usages below `Usage::Count`. -/
def Usage.all : List Usage := [.undefined, .stack, .create, .vector, .list, .stl]

/-- A call of `free` gives this block back: `destroy` and the deleters make the
rest of the request anew. -/
def frees (allocation block : Allocation) : Bool :=
  allocation.ptr = block.ptr && allocation.request.size = block.request.size &&
    allocation.request.usage = block.request.usage

end Allocation

structure TrackedAllocator.UsageStats where
  count : Word := 0
  bytes : Word := 0
deriving DecidableEq, Repr

structure TrackedAllocator.Stats where
  byUsage : Allocation.Usage → TrackedAllocator.UsageStats := fun _ => {}

/-- Where a thread is in a call of the allocator. -/
inductive TrackedAllocator.Call where
  | idle
  | allocating (request : Allocation.Request)
  /-- Counted, and inside `allocator_->allocate`. -/
  | forwarding (request : Allocation.Request)
  | freeing (allocation : Allocation)
  /-- No longer counted, and inside `allocator_->free`. -/
  | releasing (allocation : Allocation)
deriving DecidableEq, Repr

inductive TrackedAllocator.Label (π : Type) where
  | allocate (party : π) (request : Allocation.Request)
  | count (party : π)
  | obtain (party : π) (ptr : Word)
  | free (party : π) (allocation : Allocation)
  | uncount (party : π)
  | release (party : π)

/-- `TrackedAllocator`. `live` has the blocks that calls of `allocate` have
returned and that no call of `free` has taken from the statistics. -/
structure TrackedAllocator (π : Type) where
  stats : TrackedAllocator.Stats := {}
  live : List Allocation := []
  call : π → TrackedAllocator.Call := fun _ => .idle

namespace TrackedAllocator

open Allocator (assert)

namespace Stats

def numAllocations (stats : Stats) : Word :=
  Allocation.Usage.all.foldl (fun out usage => out + (stats.byUsage usage).count) 0

def bytesAllocated (stats : Stats) : Word :=
  Allocation.Usage.all.foldl (fun out usage => out + (stats.byUsage usage).bytes) 0

/-- What `allocate` does under the lock. -/
def allocate (stats : Stats) (request : Allocation.Request) : Stats :=
  let usageStats := stats.byUsage request.usage
  { stats with
    byUsage := Function.update stats.byUsage request.usage
      { count := usageStats.count + 1, bytes := usageStats.bytes + request.size } }

/-- What `free` does under the lock. -/
def free (stats : Stats) (allocation : Allocation) : Except String Stats := do
  let usageStats := stats.byUsage allocation.request.usage
  assert (0 < usageStats.count) "TrackedAllocator detected abnormal free()"
  assert (allocation.request.size ≤ usageStats.bytes) "TrackedAllocator detected abnormal free()"
  return { stats with
    byUsage := Function.update stats.byUsage allocation.request.usage
      { count := usageStats.count - 1, bytes := usageStats.bytes - allocation.request.size } }

end Stats

variable {π : Type} [DecidableEq π]

def enter (state : TrackedAllocator π) (party : π) (call : Call) : TrackedAllocator π :=
  { state with call := Function.update state.call party call }

/-- The locked section of `allocate`. -/
def count (state : TrackedAllocator π) (party : π) (request : Allocation.Request) : TrackedAllocator π :=
  { state with stats := state.stats.allocate request }.enter party (.forwarding request)

/-- The underlying allocator returns memory that no live block has. -/
def Fresh (state : TrackedAllocator π) (ptr : Word) (request : Allocation.Request) : Prop :=
  0 < ptr.toNat ∧ ptr.toNat + request.size.toNat ≤ 2 ^ 64 ∧
    ∀ block ∈ state.live, ptr ≠ block.ptr ∧
      (ptr.toNat + request.size.toNat ≤ block.ptr.toNat ∨
        block.ptr.toNat + block.request.size.toNat ≤ ptr.toNat)

instance {state : TrackedAllocator π} {ptr : Word} {request : Allocation.Request} : Decidable (state.Fresh ptr request) :=
  inferInstanceAs (Decidable (_ ∧ _ ∧ _))

/-- `allocate` returns. -/
def receive (state : TrackedAllocator π) (party : π) (ptr : Word) (request : Allocation.Request) : TrackedAllocator π :=
  { state with live := { ptr := ptr, request := request } :: state.live }.enter party .idle

/-- The locked section of `free`. -/
def uncount (state : TrackedAllocator π) (party : π) (allocation : Allocation) :
    Except String (TrackedAllocator π) := do
  let stats ← state.stats.free allocation
  return { state with stats := stats, live := state.live.eraseP allocation.frees }.enter party (.releasing allocation)

/-- The block of a call of `free` that has not been taken from the statistics yet. -/
def Call.freed? : Call → Option Allocation
  | .freeing allocation => some allocation
  | _ => none

/-- A request that has been counted, of which no block has been returned yet. -/
def Call.forwarded? : Call → Option Allocation.Request
  | .forwarding request => some request
  | _ => none

variable [Fintype π]

/-- The block is live, and no other call of `free` has it. -/
def Freeable (state : TrackedAllocator π) (allocation : Allocation) : Prop :=
  (∃ block ∈ state.live, allocation.frees block = true) ∧
    ∀ party, ∀ freed ∈ (state.call party).freed?, freed.ptr ≠ allocation.ptr

instance {state : TrackedAllocator π} {allocation : Allocation} : Decidable (state.Freeable allocation) :=
  inferInstanceAs (Decidable (_ ∧ _))

def step (state : TrackedAllocator π) : Label π → Option (TrackedAllocator π)
  | .allocate party request => if state.call party = .idle then some (state.enter party (.allocating request)) else none
  | .count party =>
      match state.call party with
      | .allocating request => some (state.count party request)
      | _ => none
  | .obtain party ptr =>
      match state.call party with
      | .forwarding request => if state.Fresh ptr request then some (state.receive party ptr request) else none
      | _ => none
  | .free party allocation =>
      if state.call party = .idle ∧ state.Freeable allocation then some (state.enter party (.freeing allocation)) else none
  | .uncount party =>
      match state.call party with
      | .freeing allocation => (state.uncount party allocation).toOption
      | _ => none
  | .release party =>
      match state.call party with
      | .releasing _ => some (state.enter party .idle)
      | _ => none

def system : System (TrackedAllocator π) (Label π) := .ofStep (· = {}) step

/-- The live blocks of a usage. -/
def liveOf (state : TrackedAllocator π) (usage : Allocation.Usage) : List Allocation :=
  state.live.filter fun block => block.request.usage = usage

def liveBytes (state : TrackedAllocator π) (usage : Allocation.Usage) : Nat :=
  ((state.liveOf usage).map fun block => block.request.size.toNat).sum

/-- What a request adds to a total of a usage. -/
def weight (measure : Allocation.Request → Nat) (usage : Allocation.Usage) (request : Allocation.Request) : Nat :=
  if request.usage = usage then measure request else 0

def one (_ : Allocation.Request) : Nat := 1

def size (request : Allocation.Request) : Nat := request.size.toNat

def underWay (state : TrackedAllocator π) (measure : Allocation.Request → Nat) (usage : Allocation.Usage) : Nat :=
  ∑ party, (state.call party).forwarded?.elim 0 (weight measure usage)

def total (state : TrackedAllocator π) (measure : Allocation.Request → Nat) (usage : Allocation.Usage) : Nat :=
  (state.live.map fun block => weight measure usage block.request).sum + state.underWay measure usage

def Quiescent (state : TrackedAllocator π) : Prop := ∀ party, state.call party = .idle

/-- The blocks and the requests of a usage that have been counted are not too many for the counters. -/
def Fits (state : TrackedAllocator π) (usage : Allocation.Usage) : Prop :=
  (state.liveOf usage).length + state.underWay one usage < 2 ^ 64 ∧
    state.liveBytes usage + state.underWay size usage < 2 ^ 64

instance {state : TrackedAllocator π} {usage : Allocation.Usage} : Decidable (state.Fits usage) :=
  inferInstanceAs (Decidable (_ ∧ _))

variable {state after : TrackedAllocator π} {party : π} {label : Label π} {measure : Allocation.Request → Nat}
  {usage : Allocation.Usage} {request : Allocation.Request} {allocation : Allocation} {stats : Stats}

section Totals

omit [DecidableEq π] in
theorem total_eq (state : TrackedAllocator π) (measure : Allocation.Request → Nat) (usage : Allocation.Usage) :
    state.total measure usage =
      ((state.liveOf usage).map fun block => measure block.request).sum + state.underWay measure usage := by
  rw [total, liveOf]
  congr 1
  induction state.live with
  | nil => rfl
  | cons block rest ih =>
      rw [List.map_cons, List.sum_cons, ih, List.filter_cons]
      by_cases same : block.request.usage = usage
      · simp only [weight, same, if_true, decide_true, List.map_cons, List.sum_cons]
      · simp only [weight, same, if_false, decide_false, Bool.false_eq_true, Nat.zero_add]

omit [DecidableEq π] in
theorem total_one (state : TrackedAllocator π) (usage : Allocation.Usage) :
    state.total one usage = (state.liveOf usage).length + state.underWay one usage := by
  simp only [total_eq, one, List.map_const', List.sum_replicate_nat, Nat.mul_one]

omit [DecidableEq π] in
theorem total_size (state : TrackedAllocator π) (usage : Allocation.Usage) :
    state.total size usage = state.liveBytes usage + state.underWay size usage :=
  state.total_eq size usage

omit [DecidableEq π] in
theorem Quiescent.underWay (quiescent : state.Quiescent) (measure : Allocation.Request → Nat) (usage : Allocation.Usage) :
    state.underWay measure usage = 0 := by
  refine Finset.sum_eq_zero ?_
  intro party _
  rw [quiescent party]
  rfl

theorem underWay_of_call (state after : TrackedAllocator π) {call : Call}
    (moved : after.call = Function.update state.call party call) (measure : Allocation.Request → Nat)
    (usage : Allocation.Usage) :
    after.underWay measure usage + (state.call party).forwarded?.elim 0 (weight measure usage) =
      state.underWay measure usage + call.forwarded?.elim 0 (weight measure usage) := by
  have change := sum_change (fun other => (state.call other).forwarded?.elim 0 (weight measure usage))
    (fun other => (after.call other).forwarded?.elim 0 (weight measure usage)) party (by
      intro other away
      rw [moved, Function.update_of_ne away])
  have here : after.call party = call := by rw [moved, Function.update_self]
  rw [here] at change
  exact change

theorem total_enter {call : Call} (unforwarded : (state.call party).forwarded? = none) (silent : call.forwarded? = none) :
    (state.enter party call).total measure usage = state.total measure usage := by
  have moved := underWay_of_call state (state.enter party call) rfl measure usage
  rw [unforwarded, silent] at moved
  exact congrArg _ moved

theorem total_count (found : state.call party = .allocating request) :
    (state.count party request).total measure usage = state.total measure usage + weight measure usage request := by
  have moved := underWay_of_call state (state.count party request) rfl measure usage
  rw [found] at moved
  simp only [Call.forwarded?, Option.elim_none, Option.elim_some, Nat.add_zero] at moved
  rw [total, total, moved, Nat.add_assoc]
  rfl

theorem total_receive (found : state.call party = .forwarding request) (ptr : Word) :
    (state.receive party ptr request).total measure usage = state.total measure usage := by
  have moved := underWay_of_call state (state.receive party ptr request) rfl measure usage
  rw [found] at moved
  simp only [Call.forwarded?, Option.elim_none, Option.elim_some, Nat.add_zero] at moved
  have grown : ((state.receive party ptr request).live.map fun block => weight measure usage block.request).sum =
      weight measure usage request + (state.live.map fun block => weight measure usage block.request).sum := List.sum_cons
  rw [total, total, ← moved, grown]
  omega

theorem sum_erase {live : List Allocation} {block : Allocation} (found : live.find? allocation.frees = some block)
    (value : Allocation → Nat) :
    ((live.eraseP allocation.frees).map value).sum + value block = (live.map value).sum := by
  have erased := ((perm_cons_eraseP found).map value).sum_eq
  rw [List.map_cons, List.sum_cons] at erased
  omega

theorem total_uncount (freed : state.call party = .freeing allocation) {block : Allocation}
    (found : state.live.find? allocation.frees = some block)
    (uncounted : state.uncount party allocation = .ok after) :
    after.total measure usage + weight measure usage block.request = state.total measure usage := by
  obtain ⟨stats, _, rest⟩ := Except.bind_eq_ok.mp uncounted
  cases rest
  have moved := underWay_of_call state (TrackedAllocator.enter
    { state with stats := stats, live := state.live.eraseP allocation.frees } party (.releasing allocation))
    rfl measure usage
  rw [freed] at moved
  have erased := sum_erase found fun block => weight measure usage block.request
  rw [total, total, ← erased]
  change _ + 0 = _ + 0 at moved
  change ((state.live.eraseP allocation.frees).map _).sum + _ + _ = _
  omega

end Totals

section Statistics

/-- The statistics of a usage are its totals, up to the width of a counter. -/
def Exact (stats : Stats) (counted sized : Nat) (usage : Allocation.Usage) : Prop :=
  (stats.byUsage usage).count.toNat = counted % 2 ^ 64 ∧ (stats.byUsage usage).bytes.toNat = sized % 2 ^ 64

theorem Exact.allocate {counted sized : Nat} (exact : Exact stats counted sized usage) (request : Allocation.Request) :
    Exact (stats.allocate request) (counted + weight one usage request) (sized + weight size usage request) usage := by
  obtain ⟨count, bytes⟩ := exact
  by_cases same : request.usage = usage
  · simp only [Exact, Stats.allocate, weight, one, size, same, if_true, Function.update_self, BitVec.toNat_add]
    have unit : (1 : Word).toNat = 1 := rfl
    refine ⟨?_, ?_⟩
    · rw [count, unit]
      omega
    · rw [bytes]
      omega
  · simp only [Exact, Stats.allocate, weight, same, if_false, Nat.add_zero, Function.update_of_ne (Ne.symm same)]
    exact ⟨count, bytes⟩

theorem free_spec {next : Stats} :
    stats.free allocation = .ok next ↔
      0 < (stats.byUsage allocation.request.usage).count ∧
        allocation.request.size ≤ (stats.byUsage allocation.request.usage).bytes ∧
        next = { stats with
          byUsage := Function.update stats.byUsage allocation.request.usage
            { count := (stats.byUsage allocation.request.usage).count - 1
              bytes := (stats.byUsage allocation.request.usage).bytes - allocation.request.size } } := by
  by_cases counted : 0 < (stats.byUsage allocation.request.usage).count
  · by_cases sized : allocation.request.size ≤ (stats.byUsage allocation.request.usage).bytes
    · simp only [Stats.free, assert, counted, sized, decide_true, if_true, Except.ok_bind, true_and]
      constructor
      · intro done
        cases done
        rfl
      · intro same
        rw [same]
        rfl
    · simp only [Stats.free, assert, counted, sized, decide_true, decide_false, if_true, Bool.false_eq_true, if_false,
        Except.ok_bind, false_and, and_false, iff_false]
      intro done
      cases done
  · simp only [Stats.free, assert, counted, decide_false, Bool.false_eq_true, if_false, false_and, iff_false]
    intro done
    cases done

theorem free_of_uncounted (zero : (stats.byUsage allocation.request.usage).count = 0) :
    stats.free allocation = .error "TrackedAllocator detected abnormal free()" := by
  simp only [Stats.free, zero, assert]
  rfl

theorem Exact.free {next : Stats} {counted sized : Nat} (freed : stats.free allocation = .ok next)
    (exact : Exact stats (counted + weight one usage allocation.request) (sized + weight size usage allocation.request) usage) :
    Exact next counted sized usage := by
  obtain ⟨positive, enough, rfl⟩ := free_spec.mp freed
  obtain ⟨count, bytes⟩ := exact
  by_cases same : allocation.request.usage = usage
  · simp only [weight, one, size, same, if_true] at count bytes positive enough
    simp only [Exact, same, Function.update_self]
    constructor <;> bv_omega
  · simp only [weight, same, if_false, Nat.add_zero] at count bytes
    simp only [Exact, Function.update_of_ne (Ne.symm same)]
    exact ⟨count, bytes⟩

end Statistics

structure Inv (state : TrackedAllocator π) : Prop where
  exact : ∀ usage, Exact state.stats (state.total one usage) (state.total size usage) usage
  placed : ∀ block ∈ state.live, 0 < block.ptr.toNat ∧ block.ptr.toNat + block.request.size.toNat ≤ 2 ^ 64
  apart : state.live.Pairwise fun first second => first.ptr ≠ second.ptr ∧
    (first.ptr.toNat + first.request.size.toNat ≤ second.ptr.toNat ∨
      second.ptr.toNat + second.request.size.toNat ≤ first.ptr.toNat)
  freeing : ∀ party, ∀ freed ∈ (state.call party).freed?, ∃ block ∈ state.live, freed.frees block = true
  single : ∀ party other, party ≠ other → ∀ freed ∈ (state.call party).freed?, ∀ another ∈ (state.call other).freed?,
    freed.ptr ≠ another.ptr

omit [Fintype π] in
theorem freed_of_call {call : Call} (moved : after.call = Function.update state.call party call) {other : π}
    {freed : Allocation} (inside : freed ∈ (after.call other).freed?) :
    (other = party ∧ freed ∈ call.freed?) ∨ (other ≠ party ∧ freed ∈ (state.call other).freed?) := by
  rw [moved] at inside
  by_cases same : other = party
  · subst same
    rw [Function.update_self] at inside
    exact .inl ⟨rfl, inside⟩
  · rw [Function.update_of_ne same] at inside
    exact .inr ⟨same, inside⟩

omit [Fintype π] in
theorem freed_of_unfreed (call : Call) (moved : after.call = Function.update state.call party call)
    (unfreed : call.freed? = none) {other : π} {freed : Allocation} (inside : freed ∈ (after.call other).freed?) :
    other ≠ party ∧ freed ∈ (state.call other).freed? := by
  rcases freed_of_call moved inside with ⟨_, here⟩ | there
  · rw [unfreed] at here
    cases here
  · exact there

theorem Inv.single_of_unfreed (inv : state.Inv) (call : Call)
    (moved : after.call = Function.update state.call party call) (unfreed : call.freed? = none) :
    ∀ first second, first ≠ second → ∀ freed ∈ (after.call first).freed?, ∀ another ∈ (after.call second).freed?,
      freed.ptr ≠ another.ptr := by
  intro first second away freed inFirst another inSecond
  exact inv.single first second away freed (freed_of_unfreed call moved unfreed inFirst).2 another
    (freed_of_unfreed call moved unfreed inSecond).2

theorem Inv.enter (inv : state.Inv) {call : Call} (unforwarded : (state.call party).forwarded? = none)
    (silent : call.forwarded? = none) (unfreed : call.freed? = none) : (state.enter party call).Inv where
  exact usage := by
    rw [total_enter unforwarded silent, total_enter unforwarded silent]
    exact inv.exact usage
  placed := inv.placed
  apart := inv.apart
  freeing other freed inside := inv.freeing other freed (freed_of_unfreed call rfl unfreed inside).2
  single := inv.single_of_unfreed call rfl unfreed

theorem Inv.count (inv : state.Inv) (found : state.call party = .allocating request) :
    (state.count party request).Inv where
  exact usage := by
    rw [total_count found, total_count found]
    exact (inv.exact usage).allocate request
  placed := inv.placed
  apart := inv.apart
  freeing other freed inside :=
    inv.freeing other freed (freed_of_unfreed (.forwarding request) rfl rfl inside).2
  single := inv.single_of_unfreed (.forwarding request) rfl rfl

theorem Inv.receive (inv : state.Inv) {ptr : Word} (found : state.call party = .forwarding request)
    (fresh : state.Fresh ptr request) : (state.receive party ptr request).Inv where
  exact usage := by
    rw [total_receive found, total_receive found]
    exact inv.exact usage
  placed block member := by
    rcases List.mem_cons.mp member with rfl | older
    · exact ⟨fresh.1, fresh.2.1⟩
    · exact inv.placed block older
  apart := List.pairwise_cons.mpr ⟨fresh.2.2, inv.apart⟩
  freeing other freed inside := by
    obtain ⟨block, member, frees⟩ := inv.freeing other freed (freed_of_unfreed .idle rfl rfl inside).2
    exact ⟨block, List.mem_cons_of_mem _ member, frees⟩
  single := inv.single_of_unfreed .idle rfl rfl

theorem Inv.free (inv : state.Inv) (idle : state.call party = .idle) (freeable : state.Freeable allocation) :
    (state.enter party (.freeing allocation)).Inv where
  exact usage := by
    have unforwarded : (state.call party).forwarded? = none := by rw [idle]; rfl
    rw [total_enter unforwarded rfl, total_enter unforwarded rfl]
    exact inv.exact usage
  placed := inv.placed
  apart := inv.apart
  freeing other freed inside := by
    rcases freed_of_call rfl inside with ⟨_, here⟩ | ⟨_, there⟩
    · cases here
      exact freeable.1
    · exact inv.freeing other freed there
  single first second away freed inFirst another inSecond := by
    rcases freed_of_call rfl inFirst with ⟨same, here⟩ | ⟨_, inFirst⟩
    · cases here
      rcases freed_of_call rfl inSecond with ⟨again, _⟩ | ⟨_, inSecond⟩
      · exact absurd (same.trans again.symm) away
      · exact (freeable.2 second another inSecond).symm
    · rcases freed_of_call rfl inSecond with ⟨_, here⟩ | ⟨_, inSecond⟩
      · cases here
        exact freeable.2 first freed inFirst
      · exact inv.single first second away freed inFirst another inSecond

omit [DecidableEq π] in
theorem Inv.found (inv : state.Inv) (freed : state.call party = .freeing allocation) :
    ∃ block, state.live.find? allocation.frees = some block ∧ allocation.ptr = block.ptr ∧
      block.request.usage = allocation.request.usage ∧ block.request.size = allocation.request.size := by
  obtain ⟨block, member, frees⟩ := inv.freeing party allocation (by rw [freed]; rfl)
  cases found : state.live.find? allocation.frees with
  | none => exact absurd frees (List.find?_eq_none.mp found block member)
  | some first =>
      have same := List.find?_some found
      simp only [Allocation.frees, Bool.and_eq_true, decide_eq_true_eq] at same
      exact ⟨first, rfl, same.1.1, same.2.symm, same.1.2.symm⟩

omit [DecidableEq π] [Fintype π] in
theorem weight_congr {first second : Allocation.Request} (usages : first.usage = second.usage)
    (sizes : first.size = second.size) (usage : Allocation.Usage) :
    weight one usage first = weight one usage second ∧ weight size usage first = weight size usage second := by
  simp only [weight, one, size, usages, sizes, and_self]

theorem Inv.uncount (inv : state.Inv) (freed : state.call party = .freeing allocation)
    (uncounted : state.uncount party allocation = .ok after) : after.Inv := by
  obtain ⟨block, found, ptr, usages, sizes⟩ := inv.found freed
  have totals : ∀ measure usage, after.total measure usage + weight measure usage block.request =
      state.total measure usage := fun measure usage => total_uncount freed found uncounted
  obtain ⟨stats, locked, rest⟩ := Except.bind_eq_ok.mp uncounted
  cases rest
  refine ⟨?_, ?_, ?_, ?_, ?_⟩
  · intro usage
    refine Exact.free locked ?_
    obtain ⟨ones, bytes⟩ := weight_congr usages sizes usage
    rw [← ones, ← bytes, totals, totals]
    exact inv.exact usage
  · intro block member
    exact inv.placed block (List.mem_of_mem_eraseP member)
  · exact inv.apart.sublist List.eraseP_sublist
  · intro other another inside
    obtain ⟨away, inside⟩ := freed_of_unfreed (.releasing allocation) rfl rfl inside
    obtain ⟨kept, member, frees⟩ := inv.freeing other another inside
    refine ⟨kept, ?_, frees⟩
    refine (List.mem_eraseP_of_neg ?_).mpr member
    have apart := inv.single other party away another inside allocation (by rw [freed]; rfl)
    simp only [Allocation.frees, Bool.and_eq_true, decide_eq_true_eq] at frees ⊢
    rintro ⟨⟨same, _⟩, _⟩
    exact apart (frees.1.1.trans same.symm)
  · exact inv.single_of_unfreed (.releasing allocation) rfl rfl

theorem Inv.step (inv : state.Inv) (stepped : state.step label = some after) : after.Inv := by
  cases label with
  | allocate party request =>
      simp only [TrackedAllocator.step, Option.ite_none_right_eq_some, Option.some.injEq] at stepped
      obtain ⟨idle, rfl⟩ := stepped
      exact inv.enter (by rw [idle]; rfl) rfl rfl
  | count party =>
      simp only [TrackedAllocator.step] at stepped
      split at stepped
      · rename_i request found
        cases stepped
        exact inv.count found
      · cases stepped
  | obtain party ptr =>
      simp only [TrackedAllocator.step] at stepped
      split at stepped
      · rename_i request found
        obtain ⟨fresh, same⟩ := Option.ite_none_right_eq_some.mp stepped
        cases same
        exact inv.receive found fresh
      · cases stepped
  | free party allocation =>
      simp only [TrackedAllocator.step, Option.ite_none_right_eq_some, Option.some.injEq] at stepped
      obtain ⟨⟨idle, freeable⟩, rfl⟩ := stepped
      exact inv.free idle freeable
  | uncount party =>
      simp only [TrackedAllocator.step] at stepped
      split at stepped
      · rename_i allocation freed
        exact inv.uncount freed (Except.toOption_eq_some.mp stepped)
      · cases stepped
  | release party =>
      simp only [TrackedAllocator.step] at stepped
      split at stepped
      · rename_i allocation found
        cases stepped
        exact inv.enter (by rw [found]; rfl) rfl rfl
      · cases stepped

omit [DecidableEq π] in
theorem inv_initial : ({} : TrackedAllocator π).Inv where
  exact usage := by
    have nothing : ∀ measure, ({} : TrackedAllocator π).total measure usage = 0 := by
      intro measure
      rw [total, Quiescent.underWay fun _ => rfl]
      rfl
    rw [nothing, nothing]
    exact ⟨rfl, rfl⟩
  placed _ member := nomatch member
  apart := List.Pairwise.nil
  freeing _ _ inside := nomatch inside
  single _ _ _ _ inside := nomatch inside

theorem inv_of_reachable (reachable : (system (π := π)).Reachable state) : state.Inv := by
  refine reachable.invariant ?_ ?_
  · intro state start
    cases start
    exact inv_initial
  · intro state label after _ inv stepped
    exact inv.step stepped

omit [DecidableEq π] in
/-- Live blocks are distinct places of the address space. -/
theorem Inv.live_length (inv : state.Inv) : state.live.length ≤ 2 ^ 64 - 1 := by
  have nodup : (state.live.map fun block => block.ptr.toNat).Nodup := by
    refine List.pairwise_map.mpr (inv.apart.imp ?_)
    intro first second apart same
    exact apart.1 (BitVec.eq_of_toNat_eq same)
  have few := length_le_of_nodup 1 (2 ^ 64) nodup (by
    intro value member
    obtain ⟨block, inside, rfl⟩ := List.mem_map.mp member
    exact ⟨(inv.placed block inside).1, block.ptr.isLt⟩)
  rwa [List.length_map] at few

omit [DecidableEq π] in
theorem Inv.live_bytes (inv : state.Inv) : (state.live.map fun block => block.request.size.toNat).sum ≤ 2 ^ 64 - 1 :=
  sum_length_le (fun block : Allocation => block.ptr.toNat) (fun block => block.request.size.toNat) 1 (2 ^ 64)
    (inv.apart.imp And.right) inv.placed

omit [DecidableEq π] in
theorem Inv.quiescent_stats (inv : state.Inv) (quiescent : state.Quiescent) (usage : Allocation.Usage) :
    (state.stats.byUsage usage).count.toNat = (state.liveOf usage).length ∧
      (state.stats.byUsage usage).bytes.toNat = state.liveBytes usage := by
  obtain ⟨count, bytes⟩ := inv.exact usage
  rw [total_one, quiescent.underWay, Nat.add_zero] at count
  rw [total_size, quiescent.underWay, Nat.add_zero] at bytes
  have few : (state.liveOf usage).length ≤ state.live.length := List.length_filter_le _ _
  have small : state.liveBytes usage ≤ (state.live.map fun block => block.request.size.toNat).sum :=
    (List.filter_sublist.map _).sum_le_sum fun _ _ => Nat.zero_le _
  have length := inv.live_length
  have room := inv.live_bytes
  rw [Nat.mod_eq_of_lt (by omega)] at count bytes
  exact ⟨count, bytes⟩

omit [DecidableEq π] [Fintype π] in
theorem sum_liveOf (state : TrackedAllocator π) (value : Allocation → Nat) :
    (Allocation.Usage.all.map fun usage => ((state.liveOf usage).map value).sum).sum = (state.live.map value).sum := by
  simp only [liveOf]
  induction state.live with
  | nil => rfl
  | cons block rest ih =>
      simp only [Allocation.Usage.all, List.map_cons, List.map_nil, List.sum_cons, List.sum_nil, List.filter_cons] at ih ⊢
      cases usage : block.request.usage <;>
        simp only [reduceCtorEq, decide_false, decide_true, Bool.false_eq_true, if_false, if_true, List.map_cons,
          List.sum_cons] <;>
        omega

theorem toNat_foldl {α : Type} (value : α → Word) (values : List α) (start : Word)
    (small : start.toNat + (values.map fun each => (value each).toNat).sum < 2 ^ 64) :
    (values.foldl (fun out each => out + value each) start).toNat =
      start.toNat + (values.map fun each => (value each).toNat).sum := by
  induction values generalizing start with
  | nil => rfl
  | cons head rest ih =>
      rw [List.map_cons, List.sum_cons] at small ⊢
      have first : (start + value head).toNat = start.toNat + (value head).toNat := by
        rw [BitVec.toNat_add]
        exact Nat.mod_eq_of_lt (by omega)
      rw [List.foldl_cons, ih (start + value head) (by rw [first]; omega), first, Nat.add_assoc]

theorem toNat_foldl_usage (value : Allocation.Usage → Word) {exact : Nat} (small : exact ≤ 2 ^ 64 - 1)
    (sum : (Allocation.Usage.all.map fun usage => (value usage).toNat).sum = exact) :
    (Allocation.Usage.all.foldl (fun out usage => out + value usage) 0).toNat = exact := by
  have zero : (0 : Word).toNat = 0 := rfl
  rw [toNat_foldl value Allocation.Usage.all 0 (by omega), zero, sum, Nat.zero_add]

omit [DecidableEq π] in
theorem Inv.numAllocations (inv : state.Inv) (quiescent : state.Quiescent) :
    state.stats.numAllocations.toNat = state.live.length := by
  refine toNat_foldl_usage _ inv.live_length ?_
  have split := sum_liveOf state fun _ => 1
  simp only [List.map_const', List.sum_replicate_nat, Nat.mul_one] at split
  simpa only [(inv.quiescent_stats quiescent _).1] using split

omit [DecidableEq π] in
theorem Inv.bytesAllocated (inv : state.Inv) (quiescent : state.Quiescent) :
    state.stats.bytesAllocated.toNat = (state.live.map fun block => block.request.size.toNat).sum := by
  refine toNat_foldl_usage _ inv.live_bytes ?_
  have split := sum_liveOf state fun block => block.request.size.toNat
  simpa only [(inv.quiescent_stats quiescent _).2, liveBytes] using split

omit [DecidableEq π] in
/-- The assertions hold for a live block when the counters do not overflow. -/
theorem Inv.passes (inv : state.Inv) (freed : state.call party = .freeing allocation)
    (fits : state.Fits allocation.request.usage) : ∃ next, state.stats.free allocation = .ok next := by
  obtain ⟨block, found, _, usages, sizes⟩ := inv.found freed
  obtain ⟨count, bytes⟩ := inv.exact allocation.request.usage
  obtain ⟨few, small⟩ := fits
  rw [total_one, Nat.mod_eq_of_lt few] at count
  rw [total_size, Nat.mod_eq_of_lt small] at bytes
  have member : block ∈ state.liveOf allocation.request.usage :=
    List.mem_filter.mpr ⟨List.mem_of_find?_eq_some found, by simpa using usages⟩
  have positive := List.length_pos_of_mem member
  have enough : block.request.size.toNat ≤ state.liveBytes allocation.request.usage :=
    le_sum_map (fun block : Allocation => block.request.size.toNat) member
  rw [sizes] at enough
  exact ⟨_, free_spec.mpr ⟨by bv_omega, by bv_omega, rfl⟩⟩

theorem Inv.fails (inv : state.Inv) (party : π) (dead : ∀ block ∈ state.live, block.request.usage ≠ allocation.request.usage)
    (quiet : ∀ party, ∀ request ∈ (state.call party).forwarded?, request.usage ≠ allocation.request.usage) :
    state.uncount party allocation = .error "TrackedAllocator detected abnormal free()" := by
  have none : state.liveOf allocation.request.usage = [] := by
    refine List.filter_eq_nil_iff.mpr ?_
    intro block member same
    exact dead block member (of_decide_eq_true same)
  have still : state.underWay one allocation.request.usage = 0 := by
    refine Finset.sum_eq_zero ?_
    intro party _
    cases forwarded : (state.call party).forwarded? with
    | none => rfl
    | some request => exact if_neg (quiet party request forwarded)
  have count := (inv.exact allocation.request.usage).1
  rw [total_one, none, still] at count
  have zero : (state.stats.byUsage allocation.request.usage).count = 0 := BitVec.eq_of_toNat_eq count
  rw [TrackedAllocator.uncount, free_of_uncounted zero]
  rfl

/-- The statistics are those of the live blocks whenever no call is under way.
The assertions of `free` let a live block pass unless calls under way make the
counters overflow, and stop every call for a usage of which no block is live and
no allocation is under way. -/
theorem statistics_exact (reachable : (system (π := π)).Reachable state) :
    (state.Quiescent →
      (∀ usage, (state.stats.byUsage usage).count.toNat = (state.liveOf usage).length ∧
        (state.stats.byUsage usage).bytes.toNat = state.liveBytes usage) ∧
      (state.stats.numAllocations = 0 ↔ state.live = [])) ∧
    (∀ party allocation, state.call party = .freeing allocation → state.Fits allocation.request.usage →
      ∃ after, state.uncount party allocation = .ok after) ∧
    (∀ party allocation, (∀ block ∈ state.live, block.request.usage ≠ allocation.request.usage) →
      (∀ party, ∀ request ∈ (state.call party).forwarded?, request.usage ≠ allocation.request.usage) →
      state.uncount party allocation = .error "TrackedAllocator detected abnormal free()") := by
  have inv := inv_of_reachable reachable
  refine ⟨?_, ?_, ?_⟩
  · intro quiescent
    refine ⟨inv.quiescent_stats quiescent, ?_⟩
    rw [← List.length_eq_zero_iff, ← inv.numAllocations quiescent]
    constructor
    · intro zero
      rw [zero]
      rfl
    · intro zero
      exact BitVec.eq_of_toNat_eq zero
  · intro party allocation freed fits
    obtain ⟨stats, passed⟩ := inv.passes freed fits
    exact ⟨_, by rw [TrackedAllocator.uncount, passed]; rfl⟩
  · intro party allocation dead quiet
    exact inv.fails party dead quiet

/-- Two threads allocate two stacks and a list node between them, and the first
stack is about to be freed. -/
def threeBlocks : List (Label Bool) :=
  [.allocate true { size := 100, alignment := 16, usage := .stack },
    .allocate false { size := 64, alignment := 8, usage := .list }, .count true, .count false, .obtain false 0x2000,
    .allocate false { size := 200, alignment := 16, usage := .stack }, .count false, .obtain true 0x1000,
    .free true ⟨0x1000, { size := 100, alignment := 16, usage := .stack }⟩, .obtain false 0x3000]

/-- The stack may be freed, and a vector may not; with the stack freed, the
statistics are those of the other two blocks. -/
theorem statistics_exact_threeBlocks : ∃ state after : TrackedAllocator Bool,
    state.live.length = 3 ∧
      (∃ after, state.uncount true ⟨0x1000, { size := 100, alignment := 16, usage := .stack }⟩ = .ok after) ∧
      state.uncount false ⟨0x1000, { size := 100, alignment := 16, usage := .vector }⟩ =
        .error "TrackedAllocator detected abnormal free()" ∧
      after.live.length = 2 ∧ (∀ usage, (after.stats.byUsage usage).count.toNat = (after.liveOf usage).length ∧
        (after.stats.byUsage usage).bytes.toNat = after.liveBytes usage) ∧ after.stats.numAllocations ≠ 0 := by
  let stack : Allocation := ⟨0x1000, { size := 100, alignment := 16, usage := .stack }⟩
  let vector : Allocation := ⟨0x1000, { size := 100, alignment := 16, usage := .vector }⟩
  obtain ⟨state, reachable, seen⟩ := System.reachable_of_replay (· = ({} : TrackedAllocator Bool)) step rfl threeBlocks
    (fun state => decide (state.live.length = 3 ∧ state.call true = .freeing stack ∧ state.Fits .stack ∧
      (∀ block ∈ state.live, block.request.usage ≠ vector.request.usage) ∧
      ∀ party, ∀ request ∈ (state.call party).forwarded?, request.usage ≠ vector.request.usage)) (by decide +kernel)
  obtain ⟨after, freed, left⟩ := System.reachable_of_replay (· = ({} : TrackedAllocator Bool)) step rfl
    (threeBlocks ++ [.uncount true, .release true])
    (fun state => decide ((∀ party, state.call party = .idle) ∧ state.live.length = 2)) (by decide +kernel)
  obtain ⟨three, freeing, fits, dead, quiet⟩ := of_decide_eq_true seen
  obtain ⟨quiescent, two⟩ := of_decide_eq_true left
  obtain ⟨_, passes, fails⟩ := statistics_exact reachable
  obtain ⟨settled, _, _⟩ := statistics_exact freed
  obtain ⟨exact, zero⟩ := settled quiescent
  refine ⟨state, after, three, passes true stack freeing fits, fails false vector dead quiet, two, exact, ?_⟩
  intro none
  rw [zero.mp none] at two
  cases two

/-- A request that is under way makes the bytes overflow, so that a live block
is not freed; and it lets a block pass that was never allocated. -/
theorem inexact_under_way :
    (∃ state : TrackedAllocator Bool, system.Reachable state ∧
      state.call true = .freeing ⟨0x1000, { size := 100, alignment := 16, usage := .stack }⟩ ∧
      (state.uncount true ⟨0x1000, { size := 100, alignment := 16, usage := .stack }⟩).toOption.isNone = true) ∧
    (∃ state : TrackedAllocator Bool, system.Reachable state ∧ state.live = [] ∧
      (state.uncount true ⟨0x1000, { size := 100, alignment := 16, usage := .stack }⟩).toOption.isSome = true) := by
  constructor
  · obtain ⟨state, reachable, seen⟩ := System.reachable_of_replay (· = ({} : TrackedAllocator Bool)) step rfl
      [.allocate true { size := 100, alignment := 16, usage := .stack }, .count true, .obtain true 0x1000,
        .allocate false { size := BitVec.ofNat 64 (2 ^ 64 - 50), alignment := 16, usage := .stack }, .count false,
        .free true ⟨0x1000, { size := 100, alignment := 16, usage := .stack }⟩]
      (fun state => decide (state.call true = .freeing ⟨0x1000, { size := 100, alignment := 16, usage := .stack }⟩ ∧
        (state.uncount true ⟨0x1000, { size := 100, alignment := 16, usage := .stack }⟩).toOption.isNone = true))
      (by decide +kernel)
    exact ⟨state, reachable, of_decide_eq_true seen⟩
  · obtain ⟨state, reachable, seen⟩ := System.reachable_of_replay (· = ({} : TrackedAllocator Bool)) step rfl
      [.allocate false { size := 100, alignment := 16, usage := .stack }, .count false]
      (fun state => decide (state.live = [] ∧
        (state.uncount true ⟨0x1000, { size := 100, alignment := 16, usage := .stack }⟩).toOption.isSome = true))
      (by decide +kernel)
    exact ⟨state, reachable, of_decide_eq_true seen⟩

end TrackedAllocator

end MiniMarl
