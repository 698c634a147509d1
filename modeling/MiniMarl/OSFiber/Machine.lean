import MiniMarl.Data.Memory

namespace MiniMarl.OSFiber

open Data

/-! The fragment of x86-64 that `osfiber_asm_x64.S` uses. -/

inductive Register where
  | rax | rbx | rcx | rdx | rsi | rdi | rbp | rsp
  | r8 | r9 | r10 | r11 | r12 | r13 | r14 | r15
deriving DecidableEq, Repr

structure Machine where
  register : Register → Word
  rip : Word
  memory : Memory

inductive Instruction where
  /-- `movq %source, offset(%base)` -/
  | store (source : Register) (offset : Word) (base : Register)
  /-- `movq offset(%base), %target` -/
  | load (offset : Word) (base target : Register)
  /-- `movq %source, %target` -/
  | move (source target : Register)
  /-- `leaq offset(%base), %target` -/
  | lea (offset : Word) (base target : Register)
  /-- `jmp *%target` -/
  | jump (target : Register)
deriving DecidableEq, Repr

namespace Machine

def set (machine : Machine) (target : Register) (value : Word) : Machine :=
  { machine with register := Function.update machine.register target value }

def execute (machine : Machine) : Instruction → Machine
  | .store source offset base =>
      { machine with memory := machine.memory.store (machine.register base + offset) (machine.register source) }
  | .load offset base target => machine.set target (machine.memory.load (machine.register base + offset))
  | .move source target => machine.set target (machine.register source)
  | .lea offset base target => machine.set target (machine.register base + offset)
  | .jump target => { machine with rip := machine.register target }

def run (machine : Machine) (code : List Instruction) : Machine := code.foldl execute machine

/-- `call`: the return address goes on the stack. -/
def push (machine : Machine) (value : Word) : Machine :=
  { machine.set .rsp (machine.register .rsp - 8) with
    memory := machine.memory.store (machine.register .rsp - 8) value }

end Machine

def marlRegRbx : Word := 0x00
def marlRegRbp : Word := 0x08
def marlRegR12 : Word := 0x10
def marlRegR13 : Word := 0x18
def marlRegR14 : Word := 0x20
def marlRegR15 : Word := 0x28
def marlRegRdi : Word := 0x30
def marlRegRsi : Word := 0x38
def marlRegRsp : Word := 0x40
def marlRegRip : Word := 0x48

/-- `sizeof(marl_fiber_context)`. -/
def contextSize : Nat := 0x50

/-- The first part of `marl_fiber_swap` saves the context `from`. -/
def saveFrom : List Instruction :=
  [.store .rbx marlRegRbx .rdi,
    .store .rbp marlRegRbp .rdi,
    .store .r12 marlRegR12 .rdi,
    .store .r13 marlRegR13 .rdi,
    .store .r14 marlRegR14 .rdi,
    .store .r15 marlRegR15 .rdi,
    .load 0 .rsp .rcx,
    .store .rcx marlRegRip .rdi,
    .lea 8 .rsp .rcx,
    .store .rcx marlRegRsp .rdi]

/-- The second part loads the context `to`, and jumps. -/
def loadTo : List Instruction :=
  [.move .rsi .r8,
    .load marlRegRbx .r8 .rbx,
    .load marlRegRbp .r8 .rbp,
    .load marlRegR12 .r8 .r12,
    .load marlRegR13 .r8 .r13,
    .load marlRegR14 .r8 .r14,
    .load marlRegR15 .r8 .r15,
    .load marlRegRdi .r8 .rdi,
    .load marlRegRsi .r8 .rsi,
    .load marlRegRsp .r8 .rsp,
    .load marlRegRip .r8 .rcx,
    .jump .rcx]

def marlFiberSwap : List Instruction := saveFrom ++ loadTo

/-- `marl_fiber_context`. -/
structure MarlFiberContext where
  rbx : Word
  rbp : Word
  r12 : Word
  r13 : Word
  r14 : Word
  r15 : Word
  rdi : Word
  rsi : Word
  rsp : Word
  rip : Word
deriving DecidableEq, Repr

def MarlFiberContext.read (memory : Memory) (context : Word) : MarlFiberContext where
  rbx := memory.load (context + marlRegRbx)
  rbp := memory.load (context + marlRegRbp)
  r12 := memory.load (context + marlRegR12)
  r13 := memory.load (context + marlRegR13)
  r14 := memory.load (context + marlRegR14)
  r15 := memory.load (context + marlRegR15)
  rdi := memory.load (context + marlRegRdi)
  rsi := memory.load (context + marlRegRsi)
  rsp := memory.load (context + marlRegRsp)
  rip := memory.load (context + marlRegRip)

/-- `marl_fiber_set_target`, with the address of `marl_fiber_trampoline`. -/
def marlFiberSetTarget (trampoline : Word) (memory : Memory) (context stack : Word) (stackSize : BitVec 32)
    (target arg : Word) : Memory :=
  let stackTop := stack + stackSize.setWidth 64
  let memory := memory.store (context + marlRegRip) trampoline
  let memory := memory.store (context + marlRegRdi) target
  let memory := memory.store (context + marlRegRsi) arg
  let memory := memory.store (context + marlRegRsp) (stackTop - 24)
  memory.store (stackTop - 16) 0

theorem MarlFiberContext.read_congr {memory other : Memory} {context : Word}
    (same : ∀ cell, InRegion context contextSize cell → memory cell = other cell) :
    MarlFiberContext.read memory context = MarlFiberContext.read other context := by
  have field : ∀ offset : Word, offset.toNat + 8 ≤ contextSize →
      memory.load (context + offset) = other.load (context + offset) := by
    intro offset fits
    refine Memory.load_congr ?_
    intro cell inside
    refine same cell ?_
    unfold InRegion at inside ⊢
    unfold contextSize at fits ⊢
    bv_omega
  simp only [read, field marlRegRbx (by decide), field marlRegRbp (by decide), field marlRegR12 (by decide),
    field marlRegR13 (by decide), field marlRegR14 (by decide), field marlRegR15 (by decide),
    field marlRegRdi (by decide), field marlRegRsi (by decide), field marlRegRsp (by decide),
    field marlRegRip (by decide)]

namespace Machine

variable {machine : Machine}

theorem run_append (machine : Machine) (first second : List Instruction) :
    machine.run (first ++ second) = (machine.run first).run second := List.foldl_append

@[simp] theorem run_cons (machine : Machine) (instruction : Instruction) (code : List Instruction) :
    machine.run (instruction :: code) = (machine.execute instruction).run code := rfl

@[simp] theorem run_nil (machine : Machine) : machine.run [] = machine := rfl

/-- The memory after the first six stores of `saveFrom`. -/
def savedRegisters (machine : Machine) : Memory :=
  let context := machine.register .rdi
  (((((machine.memory.store (context + marlRegRbx) (machine.register .rbx)).store
    (context + marlRegRbp) (machine.register .rbp)).store
    (context + marlRegR12) (machine.register .r12)).store
    (context + marlRegR13) (machine.register .r13)).store
    (context + marlRegR14) (machine.register .r14)).store
    (context + marlRegR15) (machine.register .r15)

theorem savedRegisters_outside {cell : Word} (outside : ¬InRegion (machine.register .rdi) contextSize cell) :
    machine.savedRegisters cell = machine.memory cell := by
  have skip : ∀ (memory : Memory) (offset value : Word), offset.toNat + 8 ≤ contextSize →
      memory.store (machine.register .rdi + offset) value cell = memory cell :=
    fun memory offset value fits => Memory.store_field_outside value fits outside
  simp only [savedRegisters, skip _ marlRegRbx _ (by decide), skip _ marlRegRbp _ (by decide),
    skip _ marlRegR12 _ (by decide), skip _ marlRegR13 _ (by decide), skip _ marlRegR14 _ (by decide),
    skip _ marlRegR15 _ (by decide)]

theorem run_saveFrom_register (machine : Machine) {register : Register} (kept : register ≠ .rcx) :
    (machine.run saveFrom).register register = machine.register register := by
  simp [saveFrom, execute, set, kept]

theorem run_saveFrom_memory (apart : ∀ cell, InRegion (machine.register .rsp) 8 cell →
      ¬InRegion (machine.register .rdi) contextSize cell) :
    (machine.run saveFrom).memory =
      (machine.savedRegisters.store (machine.register .rdi + marlRegRip)
        (machine.memory.load (machine.register .rsp))).store
        (machine.register .rdi + marlRegRsp) (machine.register .rsp + 8) := by
  have returnAddress : machine.savedRegisters.load (machine.register .rsp) =
      machine.memory.load (machine.register .rsp) :=
    Memory.load_congr fun cell inside => savedRegisters_outside (apart cell inside)
  rw [← returnAddress]
  simp [saveFrom, execute, set, savedRegisters]

/-- `saveFrom` fills the context with the registers as the caller of
`marl_fiber_swap` gets them back, and leaves the rest of the memory alone. -/
theorem read_saveFrom (apart : ∀ cell, InRegion (machine.register .rsp) 8 cell →
      ¬InRegion (machine.register .rdi) contextSize cell) :
    MarlFiberContext.read (machine.run saveFrom).memory (machine.register .rdi) =
      { MarlFiberContext.read machine.memory (machine.register .rdi) with
        rbx := machine.register .rbx
        rbp := machine.register .rbp
        r12 := machine.register .r12
        r13 := machine.register .r13
        r14 := machine.register .r14
        r15 := machine.register .r15
        rsp := machine.register .rsp + 8
        rip := machine.memory.load (machine.register .rsp) } := by
  rw [run_saveFrom_memory apart]
  have skip : ∀ (memory : Memory) (value written read : Word), 8 ≤ (read - written).toNat →
      8 ≤ (written - read).toNat → (memory.store (machine.register .rdi + written) value).load
        (machine.register .rdi + read) = memory.load (machine.register .rdi + read) :=
    fun memory value written read below above => memory.load_store_apart value _ below above
  simp (disch := decide) only [MarlFiberContext.read, savedRegisters, Memory.load_store, skip]

theorem run_saveFrom_outside (apart : ∀ cell, InRegion (machine.register .rsp) 8 cell →
      ¬InRegion (machine.register .rdi) contextSize cell)
    {cell : Word} (outside : ¬InRegion (machine.register .rdi) contextSize cell) :
    (machine.run saveFrom).memory cell = machine.memory cell := by
  rw [run_saveFrom_memory apart, Memory.store_field_outside _ (by decide) outside,
    Memory.store_field_outside _ (by decide) outside, savedRegisters_outside outside]

end Machine

/-- The registers and the instruction pointer come from a context. -/
structure MarlFiberContext.LoadedIn (context : MarlFiberContext) (machine : Machine) : Prop where
  rbx : machine.register .rbx = context.rbx
  rbp : machine.register .rbp = context.rbp
  r12 : machine.register .r12 = context.r12
  r13 : machine.register .r13 = context.r13
  r14 : machine.register .r14 = context.r14
  r15 : machine.register .r15 = context.r15
  rdi : machine.register .rdi = context.rdi
  rsi : machine.register .rsi = context.rsi
  rsp : machine.register .rsp = context.rsp
  rip : machine.rip = context.rip

namespace Machine

theorem run_loadTo_memory (machine : Machine) : (machine.run loadTo).memory = machine.memory := rfl

theorem loadedIn_run_loadTo (machine : Machine) :
    (MarlFiberContext.read machine.memory (machine.register .rsi)).LoadedIn (machine.run loadTo) := by
  constructor <;> simp [loadTo, execute, set, MarlFiberContext.read]

/-- A call of `marl_fiber_swap`. -/
def callSwap (machine : Machine) (source target returnAddress : Word) : Machine :=
  (((machine.set .rdi source).set .rsi target).push returnAddress).run marlFiberSwap

/-- The machine at the first instruction of `marl_fiber_swap`. -/
theorem callSwap_eq (machine : Machine) (source target returnAddress : Word) :
    ∃ entered : Machine, machine.callSwap source target returnAddress = (entered.run saveFrom).run loadTo ∧
      entered.register .rdi = source ∧ entered.register .rsi = target ∧
      entered.register .rsp = machine.register .rsp - 8 ∧
      entered.memory = machine.memory.store (machine.register .rsp - 8) returnAddress ∧
      ∀ register, register ∉ [.rdi, .rsi, .rsp] → entered.register register = machine.register register := by
  refine ⟨((machine.set .rdi source).set .rsi target).push returnAddress, run_append _ _ _, ?_⟩
  refine ⟨by simp [push, set], by simp [push, set], by simp [push, set], by simp [push, set], ?_⟩
  intro register other
  simp only [List.mem_cons, List.not_mem_nil, or_false, not_or] at other
  simp [push, set, other]

section Swap

variable {machine : Machine} {source target : Word}
  (sourceApart : ∀ cell, InRegion (machine.register .rsp - 8) 8 cell → ¬InRegion source contextSize cell)
  (targetApart : ∀ cell, InRegion (machine.register .rsp - 8) 8 cell → ¬InRegion target contextSize cell)
  (contextsApart : ∀ cell, InRegion target contextSize cell → ¬InRegion source contextSize cell)

include sourceApart

theorem callSwap_outside (returnAddress : Word) {cell : Word} (outside : ¬InRegion source contextSize cell)
    (below : ¬InRegion (machine.register .rsp - 8) 8 cell) :
    (machine.callSwap source target returnAddress).memory cell = machine.memory cell := by
  obtain ⟨entered, same, rdi, rsi, rsp, memory, _⟩ := machine.callSwap_eq source target returnAddress
  rw [same, run_loadTo_memory, run_saveFrom_outside (by rwa [rdi, rsp]) (by rwa [rdi]), memory,
    Memory.store_outside returnAddress below]

theorem read_callSwap (returnAddress : Word) :
    ∃ rdi rsi, MarlFiberContext.read (machine.callSwap source target returnAddress).memory source =
      { rbx := machine.register .rbx
        rbp := machine.register .rbp
        r12 := machine.register .r12
        r13 := machine.register .r13
        r14 := machine.register .r14
        r15 := machine.register .r15
        rdi := rdi
        rsi := rsi
        rsp := machine.register .rsp
        rip := returnAddress } := by
  obtain ⟨entered, same, rdi, rsi, rsp, memory, kept⟩ := machine.callSwap_eq source target returnAddress
  have saved := read_saveFrom (show ∀ cell, InRegion (entered.register .rsp) 8 cell →
    ¬InRegion (entered.register .rdi) contextSize cell by rwa [rdi, rsp])
  rw [rdi, rsp, memory, Memory.load_store, kept .rbx (by decide), kept .rbp (by decide), kept .r12 (by decide),
    kept .r13 (by decide), kept .r14 (by decide), kept .r15 (by decide)] at saved
  have above : machine.register .rsp - 8 + 8 = machine.register .rsp := by bv_omega
  rw [same, run_loadTo_memory, saved, above]
  exact ⟨_, _, rfl⟩

include targetApart contextsApart

theorem loadedIn_callSwap (returnAddress : Word) :
    (MarlFiberContext.read machine.memory target).LoadedIn (machine.callSwap source target returnAddress) := by
  obtain ⟨entered, same, rdi, rsi, rsp, memory, _⟩ := machine.callSwap_eq source target returnAddress
  have loaded := (entered.run saveFrom).loadedIn_run_loadTo
  rw [run_saveFrom_register entered (by decide), rsi, ← same] at loaded
  have untouched : MarlFiberContext.read (entered.run saveFrom).memory target =
      MarlFiberContext.read machine.memory target := by
    refine MarlFiberContext.read_congr ?_
    intro cell inside
    rw [run_saveFrom_outside (by rwa [rdi, rsp]) (by rw [rdi]; exact contextsApart cell inside), memory]
    exact Memory.store_outside returnAddress fun below => targetApart cell below inside
  rwa [untouched] at loaded

end Swap

end Machine

theorem marlFiberSetTarget_outside (trampoline : Word) (memory : Memory) (context stack : Word) (stackSize : BitVec 32)
    (target arg : Word) {cell : Word} (outside : ¬InRegion context contextSize cell)
    (above : ¬InRegion (stack + stackSize.setWidth 64 - 16) 8 cell) :
    marlFiberSetTarget trampoline memory context stack stackSize target arg cell = memory cell := by
  rw [marlFiberSetTarget, Memory.store_outside _ above, Memory.store_field_outside _ (by decide) outside,
    Memory.store_field_outside _ (by decide) outside, Memory.store_field_outside _ (by decide) outside,
    Memory.store_field_outside _ (by decide) outside]

theorem read_marlFiberSetTarget (trampoline : Word) (memory : Memory) {context stack : Word} {stackSize : BitVec 32}
    (target arg : Word)
    (apart : ∀ cell, InRegion (stack + stackSize.setWidth 64 - 16) 8 cell → ¬InRegion context contextSize cell) :
    MarlFiberContext.read (marlFiberSetTarget trampoline memory context stack stackSize target arg) context =
      { MarlFiberContext.read memory context with
        rdi := target
        rsi := arg
        rsp := stack + stackSize.setWidth 64 - 24
        rip := trampoline } := by
  have slot : ∀ fields : Memory, MarlFiberContext.read (fields.store (stack + stackSize.setWidth 64 - 16) 0) context =
      MarlFiberContext.read fields context := by
    intro fields
    refine MarlFiberContext.read_congr ?_
    intro cell inside
    exact Memory.store_outside 0 fun above => apart cell above inside
  rw [marlFiberSetTarget, slot]
  have skip : ∀ (memory : Memory) (value written read : Word), 8 ≤ (read - written).toNat →
      8 ≤ (written - read).toNat → (memory.store (context + written) value).load (context + read) =
        memory.load (context + read) :=
    fun memory value written read below above => memory.load_store_apart value _ below above
  simp (disch := decide) only [MarlFiberContext.read, Memory.load_store, skip]

end MiniMarl.OSFiber
