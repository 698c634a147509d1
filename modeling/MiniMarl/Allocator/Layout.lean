import MiniMarl.Allocator.Default

namespace MiniMarl

open Data

namespace DefaultAllocator

theorem roundUp_bounds (value : Nat) {unit : Nat} (positive : 0 < unit) :
    value ≤ unit * ((value + unit - 1) / unit) ∧ unit * ((value + unit - 1) / unit) < value + unit := by
  have split := Nat.div_add_mod (value + unit - 1) unit
  have rest := Nat.mod_lt (value + unit - 1) positive
  omega

/-- `alloc_size` of `alignedMalloc`. -/
def allocSize (alignment size : Word) : Word := size + alignment + 8

/-- What the branch of `allocate` asks `mmap` or `malloc` for. -/
def blockSize (pageSize : Word) (request : Allocation.Request) : Word :=
  if request.useGuards then numTotalPages pageSize request.size true true * pageSize
  else if 1 < request.alignment then allocSize request.alignment request.size
  else request.size

/-- What `mmap` or `malloc` has given for a request. -/
def obtained (pageSize base : Word) (request : Allocation.Request) : Backing :=
  if request.useGuards then .paged base (numTotalPages pageSize request.size true true)
  else if 1 < request.alignment then .aligned base
  else .plain base

/-- The size of a block before it is cut to 64 bits. -/
def wantedSize (pageSize : Word) (request : Allocation.Request) : Nat :=
  if request.useGuards then ((request.size.toNat + pageSize.toNat - 1) / pageSize.toNat + 2) * pageSize.toNat
  else if 1 < request.alignment then request.size.toNat + request.alignment.toNat + 8
  else request.size.toNat

structure Valid (pageSize : Word) (request : Allocation.Request) : Prop where
  alignment : ∃ exponent, request.alignment.toNat = 2 ^ exponent
  pages : request.useGuards = true → (∃ exponent, pageSize.toNat = 2 ^ exponent) ∧ request.alignment < pageSize
  fits : wantedSize pageSize request < 2 ^ 64

/-- `mmap` or `malloc` has returned a block at `base`. -/
structure Obtains (pageSize base : Word) (request : Allocation.Request) : Prop where
  found : base ≠ 0
  ends : base.toNat + (blockSize pageSize request).toNat ≤ 2 ^ 64
  pages : request.useGuards = true → base.toNat % pageSize.toNat = 0

/-- `low` and `high` are the pages next to the payload, inside the mapping. -/
structure Guarded (pageSize base : Word) (request : Allocation.Request) (ptr low high : Word) : Prop where
  lowStarts : base.toNat ≤ low.toNat
  lowEnds : low.toNat + pageSize.toNat = ptr.toNat
  highAligned : high.toNat % pageSize.toNat = 0
  highBehind : ptr.toNat + request.size.toNat ≤ high.toNat
  highNear : high.toNat < ptr.toNat + request.size.toNat + pageSize.toNat
  highEnds : high.toNat + pageSize.toNat ≤ base.toNat + (blockSize pageSize request).toNat

/-- Where an allocation is in the block that was obtained for it. -/
structure Layout (pageSize base : Word) (request : Allocation.Request) (ptr : Word) (block : Block) (memory : Memory) :
    Prop where
  aligned : ptr.toNat % request.alignment.toNat = 0
  starts : base.toNat ≤ ptr.toNat
  ends : ptr.toNat + request.size.toNat ≤ base.toNat + (blockSize pageSize request).toNat
  saved : request.useGuards = false → 1 < request.alignment →
    (ptr + request.size).toNat = ptr.toNat + request.size.toNat ∧
      ptr.toNat + request.size.toNat + 8 ≤ base.toNat + (blockSize pageSize request).toNat ∧
      memory.load (ptr + request.size) = base
  guarded : request.useGuards = true →
    ∃ low high, block.protectedPages = [low, high] ∧ Guarded pageSize base request ptr low high
  unguarded : request.useGuards = false → block.protectedPages = []

variable {pageSize base : Word} {request : Allocation.Request} {memory after later : Memory} {allocation : Allocation}
  {block : Block}

theorem toNat_alignUp {value alignment : Word} (positive : 0 < alignment.toNat)
    (fits : value.toNat + alignment.toNat ≤ 2 ^ 64) :
    (alignUp value alignment).toNat = alignment.toNat * ((value.toNat + alignment.toNat - 1) / alignment.toNat) := by
  have bounds := roundUp_bounds value.toNat positive
  have sum : (value + alignment - 1).toNat = value.toNat + alignment.toNat - 1 := by bv_omega
  rw [alignUp, BitVec.toNat_mul, BitVec.toNat_udiv, sum, Nat.mod_eq_of_lt (by omega)]

theorem toNat_allocSize {alignment size : Word} (fits : size.toNat + alignment.toNat + 8 < 2 ^ 64) :
    (allocSize alignment size).toNat = size.toNat + alignment.toNat + 8 := by
  unfold allocSize
  bv_omega

theorem toNat_numPages {size : Word} (positive : 0 < pageSize.toNat)
    (fits : ((size.toNat + pageSize.toNat - 1) / pageSize.toNat + 2) * pageSize.toNat < 2 ^ 64) :
    (numRequestedPages pageSize size).toNat = (size.toNat + pageSize.toNat - 1) / pageSize.toNat ∧
      (numTotalPages pageSize size true true).toNat = (size.toNat + pageSize.toNat - 1) / pageSize.toNat + 2 ∧
      (numTotalPages pageSize size true true * pageSize).toNat =
        (size.toNat + pageSize.toNat - 1) / pageSize.toNat * pageSize.toNat + 2 * pageSize.toNat := by
  have enough := (roundUp_bounds size.toNat positive).1
  have few := Nat.le_mul_of_pos_right ((size.toNat + pageSize.toNat - 1) / pageSize.toNat + 2) positive
  rw [Nat.add_mul] at fits few
  rw [Nat.mul_comm] at enough
  have sum : (size + pageSize - 1).toNat = size.toNat + pageSize.toNat - 1 := by bv_omega
  have requested : (numRequestedPages pageSize size).toNat = (size.toNat + pageSize.toNat - 1) / pageSize.toNat := by
    rw [numRequestedPages, BitVec.toNat_udiv, sum]
  have total : (numTotalPages pageSize size true true).toNat =
      (size.toNat + pageSize.toNat - 1) / pageSize.toNat + 2 := by
    have same : numTotalPages pageSize size true true = numRequestedPages pageSize size + 1 + 1 := rfl
    rw [same, BitVec.toNat_add, BitVec.toNat_add, requested]
    have one : (1 : Word).toNat = 1 := rfl
    rw [one, Nat.mod_eq_of_lt (a := _ + 1) (by omega), Nat.mod_eq_of_lt (by omega)]
  refine ⟨requested, total, ?_⟩
  rw [BitVec.toNat_mul, total, Nat.add_mul, Nat.mod_eq_of_lt fits]

theorem Valid.positive (valid : Valid pageSize request) : 0 < request.alignment.toNat := by
  obtain ⟨exponent, power⟩ := valid.alignment
  rw [power]
  exact Nat.two_pow_pos exponent

theorem allocate_ok {ptr : Word} (acquired : acquire pageSize base request memory = .ok (ptr, block, after))
    (found : ptr ≠ 0) (aligned : ptr.toNat % request.alignment.toNat = 0) :
    allocate pageSize base request memory = .ok ({ ptr := ptr, request := request }, block, after) := by
  have multiple : ptr % request.alignment = 0 := by
    apply BitVec.eq_of_toNat_eq
    rw [BitVec.toNat_umod, aligned]
    rfl
  rw [allocate, acquired, Except.ok_bind]
  simp only [found, multiple, ne_eq, not_false_eq_true, decide_true, Allocator.assert, if_true, Except.ok_bind]
  rfl

theorem ptr_of_aligned (guards : request.useGuards = false) (wide : 1 < request.alignment)
    (done : allocate pageSize base request memory = .ok (allocation, block, after)) :
    allocation.ptr = alignUp base request.alignment := by
  obtain ⟨⟨ptr, found, changed⟩, branch, rest⟩ := Except.bind_eq_ok.mp done
  obtain ⟨_, _, rest⟩ := Except.bind_eq_ok.mp rest
  obtain ⟨_, _, rest⟩ := Except.bind_eq_ok.mp rest
  cases rest
  rw [acquire, guards, if_neg Bool.false_ne_true, if_pos wide] at branch
  cases branch
  rfl

section Branches

variable (memory) (valid : Valid pageSize request) (obtains : Obtains pageSize base request)

include valid obtains

omit valid in
theorem Obtains.positive : 0 < base.toNat := by
  have found := obtains.found
  bv_omega

theorem layout_plain (guards : request.useGuards = false) (narrow : ¬1 < request.alignment) :
    ∃ block, allocate pageSize base request memory = .ok ({ ptr := base, request := request }, block, memory) ∧
      block.backing = .plain base ∧ Layout pageSize base request base block memory := by
  have one : request.alignment.toNat = 1 := by
    have positive := valid.positive
    bv_omega
  have aligned : base.toNat % request.alignment.toNat = 0 := by rw [one, Nat.mod_one]
  have size : blockSize pageSize request = request.size := by
    rw [blockSize, guards, if_neg Bool.false_ne_true, if_neg narrow]
  refine ⟨{ backing := .plain base }, allocate_ok ?_ obtains.found aligned, rfl, aligned, Nat.le_refl _,
    by rw [size], ?_, ?_, ?_⟩
  · rw [acquire, guards, if_neg Bool.false_ne_true, if_neg narrow]
  · intro _ wide
    exact absurd wide narrow
  · intro guarded
    rw [guards] at guarded
    cases guarded
  · intro _
    rfl

theorem layout_aligned (guards : request.useGuards = false) (wide : 1 < request.alignment) :
    ∃ ptr block after, allocate pageSize base request memory = .ok ({ ptr := ptr, request := request }, block, after) ∧
      block.backing = .aligned base ∧ Layout pageSize base request ptr block after := by
  have positive := valid.positive
  have fits : request.size.toNat + request.alignment.toNat + 8 < 2 ^ 64 := by
    have bound := valid.fits
    rwa [wantedSize, guards, if_neg Bool.false_ne_true, if_pos wide] at bound
  have size : (blockSize pageSize request).toNat = request.size.toNat + request.alignment.toNat + 8 := by
    rw [blockSize, guards, if_neg Bool.false_ne_true, if_pos wide, toNat_allocSize fits]
  have ends := obtains.ends
  rw [size] at ends
  have address := @toNat_alignUp base request.alignment positive (by omega)
  obtain ⟨above, below⟩ := roundUp_bounds base.toNat positive
  rw [← address] at above below
  have found : alignUp base request.alignment ≠ 0 := by
    have start := obtains.positive
    bv_omega
  have aligned : (alignUp base request.alignment).toNat % request.alignment.toNat = 0 := by
    rw [address, Nat.mul_mod_right]
  have behind : (alignUp base request.alignment + request.size).toNat =
      (alignUp base request.alignment).toNat + request.size.toNat := by
    rw [BitVec.toNat_add, Nat.mod_eq_of_lt (by omega)]
  refine ⟨alignUp base request.alignment, { backing := .aligned base },
    memory.store (alignUp base request.alignment + request.size) base, allocate_ok ?_ found aligned, rfl, aligned, above,
    by rw [size]; omega, ?_, ?_, ?_⟩
  · rw [acquire, guards, if_neg Bool.false_ne_true, if_pos wide]
    rfl
  · intro _ _
    exact ⟨behind, by rw [size]; omega, Memory.load_store ..⟩
  · intro guarded
    rw [guards] at guarded
    cases guarded
  · intro _
    rfl

theorem layout_paged (guards : request.useGuards = true) :
    ∃ block, allocate pageSize base request memory = .ok ({ ptr := base + pageSize, request := request }, block, memory) ∧
      block.backing = .paged base (numTotalPages pageSize request.size true true) ∧
      Layout pageSize base request (base + pageSize) block memory := by
  obtain ⟨⟨pageExponent, pagePower⟩, small⟩ := valid.pages guards
  have page : 0 < pageSize.toNat := pagePower ▸ Nat.two_pow_pos pageExponent
  have start := obtains.pages guards
  have fits := valid.fits
  rw [wantedSize, if_pos guards] at fits
  obtain ⟨requested, total, size⟩ := toNat_numPages page fits
  have blocks : blockSize pageSize request = numTotalPages pageSize request.size true true * pageSize := if_pos guards
  have ends := obtains.ends
  rw [blocks, size] at ends
  obtain ⟨enough, tight⟩ := roundUp_bounds request.size.toNat page
  rw [Nat.mul_comm] at enough tight
  have ptr : (base + pageSize).toNat = base.toNat + pageSize.toNat := by
    rw [BitVec.toNat_add, Nat.mod_eq_of_lt (by omega)]
  have high : (base + pageSize + numRequestedPages pageSize request.size * pageSize).toNat =
      base.toNat + pageSize.toNat + (request.size.toNat + pageSize.toNat - 1) / pageSize.toNat * pageSize.toNat := by
    rw [BitVec.toNat_add, ptr, BitVec.toNat_mul, requested, Nat.mod_eq_of_lt (a := _ * _) (by omega),
      Nat.mod_eq_of_lt (by omega)]
  have found : base + pageSize ≠ 0 := by bv_omega
  have divides : request.alignment.toNat ∣ pageSize.toNat := by
    obtain ⟨exponent, power⟩ := valid.alignment
    rw [power, pagePower]
    have less : 2 ^ exponent < 2 ^ pageExponent := by
      rw [← power, ← pagePower]
      exact small
    exact Nat.pow_dvd_pow 2 (Nat.le_of_lt ((Nat.pow_lt_pow_iff_right (by decide)).mp less))
  have aligned : (base + pageSize).toNat % request.alignment.toNat = 0 := by
    rw [ptr]
    exact Nat.mod_eq_zero_of_dvd (Nat.dvd_add (Nat.dvd_trans divides (Nat.dvd_of_mod_eq_zero start)) divides)
  have guarded : Guarded pageSize base request (base + pageSize) base
      (base + pageSize + numRequestedPages pageSize request.size * pageSize) := by
    refine ⟨Nat.le_refl _, ptr.symm, ?_, ?_, ?_, ?_⟩
    · rw [high, Nat.add_mul_mod_self_right, Nat.add_mod_right, start]
    · omega
    · omega
    · rw [blocks, size]
      omega
  refine ⟨{
    backing := .paged base (numTotalPages pageSize request.size true true)
    protectedPages := [base, base + pageSize + numRequestedPages pageSize request.size * pageSize] },
    allocate_ok ?_ found aligned, rfl, aligned, by omega, by rw [blocks, size]; omega, ?_, ?_, ?_⟩
  · rw [acquire, if_pos guards, pagedMalloc, decide_eq_true small]
    rfl
  · intro unguarded
    rw [guards] at unguarded
    cases unguarded
  · intro _
    exact ⟨_, _, rfl, guarded⟩
  · intro unguarded
    rw [guards] at unguarded
    cases unguarded

/-- An allocation succeeds, and lies in the block obtained for it. -/
theorem layout_of_allocate : ∃ allocation block after,
    allocate pageSize base request memory = .ok (allocation, block, after) ∧
      block.backing = obtained pageSize base request ∧ allocation.request = request ∧
      Layout pageSize base request allocation.ptr block after := by
  unfold obtained
  cases guards : request.useGuards with
  | true =>
      obtain ⟨block, done, backing, layout⟩ := layout_paged memory valid obtains guards
      exact ⟨_, block, memory, done, backing, rfl, layout⟩
  | false =>
      by_cases wide : 1 < request.alignment
      · obtain ⟨ptr, block, after, done, backing, layout⟩ := layout_aligned memory valid obtains guards wide
        exact ⟨_, block, after, done, by rw [backing, if_neg Bool.false_ne_true, if_pos wide], rfl, layout⟩
      · obtain ⟨block, done, backing, layout⟩ := layout_plain memory valid obtains guards wide
        exact ⟨_, block, memory, done, by rw [backing, if_neg Bool.false_ne_true, if_neg wide], rfl, layout⟩

end Branches

/-- Only `alignedFree` reads the memory. -/
theorem free_eq {ptr : Word} (unread : ¬(request.useGuards = false ∧ 1 < request.alignment)) :
    free pageSize { ptr := ptr, request := request } later = free pageSize { ptr := ptr, request := request } after := by
  cases guards : request.useGuards with
  | true => simp only [free, guards, if_true]
  | false =>
      have narrow : ¬1 < request.alignment := fun wide => unread ⟨guards, wide⟩
      simp only [free, guards, if_neg narrow]

/-- What is written to the payload does not reach the saved base. -/
theorem Layout.intact {ptr : Word} (layout : Layout pageSize base request ptr block after)
    (obtains : Obtains pageSize base request) (guards : request.useGuards = false) (wide : 1 < request.alignment)
    (payload : ∀ cell, ¬InRegion ptr request.size.toNat cell → later cell = after cell) (cell : Word)
    (behind : InRegion (ptr + request.size) 8 cell) : later cell = after cell := by
  obtain ⟨address, inside, _⟩ := layout.saved guards wide
  have ends := obtains.ends
  refine payload cell ?_
  unfold InRegion at behind ⊢
  bv_omega

/-- An allocation succeeds, lies in the block obtained for it, and `free` gives
exactly this block back, whatever has been written to the allocated bytes. -/
theorem free_gives_back (valid : Valid pageSize request) (obtains : Obtains pageSize base request) (memory : Memory) :
    ∃ allocation block after, allocate pageSize base request memory = .ok (allocation, block, after) ∧
      block.backing = obtained pageSize base request ∧ allocation.request = request ∧
      Layout pageSize base request allocation.ptr block after ∧
      ∀ later, (∀ cell, ¬InRegion allocation.ptr request.size.toNat cell → later cell = after cell) →
        free pageSize allocation later = .ok (obtained pageSize base request) := by
  obtain ⟨allocation, block, after, done, backing, same, layout⟩ := layout_of_allocate memory valid obtains
  refine ⟨allocation, block, after, done, backing, same, layout, ?_⟩
  intro later payload
  rw [← backing]
  by_cases aligned : request.useGuards = false ∧ 1 < request.alignment
  · exact free_allocate done (layout.intact obtains aligned.1 aligned.2 payload)
  · have kept : allocation = { ptr := allocation.ptr, request := request } := by rw [← same]
    rw [kept, free_eq aligned, ← kept]
    exact free_allocate done fun _ _ => rfl

/-- A block of 100 bytes between two guard pages. -/
theorem free_gives_back_guarded : ∃ allocation block after,
    allocate 4096 0x7000 { size := 100, alignment := 16, useGuards := true } (fun _ => 0) =
      .ok (allocation, block, after) ∧ allocation.ptr = 0x8000 ∧ block = ⟨.paged 0x7000 3, [0x7000, 0x9000]⟩ ∧
    free 4096 allocation (after.store 0x8000 7) = .ok (.paged 0x7000 3) := by
  have valid : Valid 4096 { size := 100, alignment := 16, useGuards := true } :=
    ⟨⟨4, rfl⟩, fun _ => ⟨⟨12, rfl⟩, by decide⟩, by decide⟩
  have obtains : Obtains 4096 0x7000 { size := 100, alignment := 16, useGuards := true } :=
    ⟨by decide, by decide, fun _ => by decide⟩
  obtain ⟨allocation, block, after, done, _, _, _, back⟩ := free_gives_back valid obtains fun _ => 0
  have shape : obtained 4096 0x7000 { size := 100, alignment := 16, useGuards := true } = .paged 0x7000 3 := by decide
  rw [shape] at back
  have found : (.ok (allocation, block, after) : Except String (Allocation × Block × Memory)) =
      .ok (⟨0x8000, { size := 100, alignment := 16, useGuards := true }⟩, ⟨.paged 0x7000 3, [0x7000, 0x9000]⟩,
        fun _ => 0) := done.symm.trans rfl
  simp only [Except.ok.injEq, Prod.mk.injEq] at found
  obtain ⟨rfl, rfl, rfl⟩ := found
  refine ⟨_, _, _, done, rfl, rfl, back _ ?_⟩
  intro cell outside
  refine Memory.store_outside 7 ?_
  unfold InRegion at outside ⊢
  dsimp only at outside
  bv_omega

end DefaultAllocator

end MiniMarl
