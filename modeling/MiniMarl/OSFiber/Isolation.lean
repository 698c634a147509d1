import MiniMarl.OSFiber.Machine
import MiniMarl.Transition

namespace MiniMarl.OSFiber

open Data Transition

/-! Fibers as coroutines.

Every fiber has a context in the memory of one machine. Beside the machine the
state remembers what each context was given last: a target by
`marl_fiber_set_target`, or the registers of a caller of `marl_fiber_swap`.
-/

/-- Where the contexts are. -/
structure Layout (φ : Type) where
  context : φ → Word
  apart : ∀ first second, first ≠ second → ∀ cell, InRegion (context first) contextSize cell →
    ¬InRegion (context second) contextSize cell

/-- No context overlaps the word at an address. -/
def Layout.Spares {φ : Type} (layout : Layout φ) (address : Word) : Prop :=
  ∀ fiber cell, InRegion address 8 cell → ¬InRegion (layout.context fiber) contextSize cell

inductive Resumption where
  /-- `marl_fiber_trampoline` starts with these arguments. -/
  | started (target arg : Word)
  /-- A call of `marl_fiber_swap` returns. -/
  | called (register : Register → Word) (returnAddress : Word)

def calleeSaved : List Register := [.rbx, .rbp, .r12, .r13, .r14, .r15]

/-- The machine goes on as the resumption says. -/
def Resumption.Continues (trampoline : Word) (machine : Machine) : Resumption → Prop
  | .started target arg =>
      machine.rip = trampoline ∧ machine.register .rdi = target ∧ machine.register .rsi = arg
  | .called register returnAddress =>
      (∀ saved ∈ calleeSaved, machine.register saved = register saved) ∧
        machine.register .rsp = register .rsp ∧ machine.rip = returnAddress

/-- The context holds what the resumption needs. -/
def Resumption.HeldBy (trampoline : Word) (context : MarlFiberContext) : Resumption → Prop
  | .started target arg => context.rip = trampoline ∧ context.rdi = target ∧ context.rsi = arg
  | .called register returnAddress =>
      (context.rbx = register .rbx ∧ context.rbp = register .rbp ∧ context.r12 = register .r12 ∧
        context.r13 = register .r13 ∧ context.r14 = register .r14 ∧ context.r15 = register .r15) ∧
        context.rsp = register .rsp ∧ context.rip = returnAddress

theorem Resumption.HeldBy.continues {trampoline : Word} {context : MarlFiberContext} {machine : Machine}
    {resumption : Resumption} (held : resumption.HeldBy trampoline context) (loaded : context.LoadedIn machine) :
    resumption.Continues trampoline machine := by
  cases resumption with
  | started target arg =>
      obtain ⟨rip, rdi, rsi⟩ := held
      exact ⟨loaded.rip.trans rip, loaded.rdi.trans rdi, loaded.rsi.trans rsi⟩
  | called register returnAddress =>
      obtain ⟨⟨rbx, rbp, r12, r13, r14, r15⟩, rsp, rip⟩ := held
      refine ⟨?_, loaded.rsp.trans rsp, loaded.rip.trans rip⟩
      simp only [calleeSaved, List.forall_mem_cons, List.not_mem_nil, false_implies, implies_true, and_true]
      exact ⟨loaded.rbx.trans rbx, loaded.rbp.trans rbp, loaded.r12.trans r12, loaded.r13.trans r13,
        loaded.r14.trans r14, loaded.r15.trans r15⟩

structure Fibers (φ : Type) where
  machine : Machine
  running : φ
  /-- What each context was given last. -/
  given : φ → Option Resumption

inductive Label (φ : Type) where
  /-- The running fiber computes. -/
  | work (machine : Machine)
  | setTarget (fiber : φ) (stack : Word) (stackSize : BitVec 32) (target arg : Word)
  /-- `OSFiber::switchTo`. -/
  | switchTo (fiber : φ) (returnAddress : Word)

namespace Fibers

variable {φ : Type} [DecidableEq φ] {layout : Layout φ} {trampoline : Word} {state after : Fibers φ}

def next (layout : Layout φ) (trampoline : Word) (state : Fibers φ) : Label φ → Fibers φ → Prop
  | .work machine, after =>
      -- all registers may change, and all cells that are in no other fiber's context
      (∀ other, other ≠ state.running → ∀ cell, InRegion (layout.context other) contextSize cell →
        machine.memory cell = state.machine.memory cell) ∧
      after = { state with machine := machine }
  | .setTarget fiber stack stackSize target arg, after =>
      layout.Spares (stack + stackSize.setWidth 64 - 16) ∧
      after = { state with
        machine := { state.machine with
          memory := marlFiberSetTarget trampoline state.machine.memory (layout.context fiber) stack stackSize target arg }
        given := Function.update state.given fiber (some (.started target arg)) }
  | .switchTo fiber returnAddress, after =>
      -- the call pushes its return address, and not into a context
      fiber ≠ state.running ∧ (state.given fiber).isSome ∧ layout.Spares (state.machine.register .rsp - 8) ∧
      after = {
        machine := state.machine.callSwap (layout.context state.running) (layout.context fiber) returnAddress
        running := fiber
        given := Function.update state.given state.running (some (.called state.machine.register returnAddress)) }

/-- A thread starts with its own fiber, and no context has been initialised. -/
def system (layout : Layout φ) (trampoline : Word) : System (Fibers φ) (Label φ) where
  initial state := state.given = fun _ => none
  next := next layout trampoline

/-- The contexts of the fibers that do not run hold what they were given. -/
def Isolated (layout : Layout φ) (trampoline : Word) (state : Fibers φ) : Prop :=
  ∀ fiber, fiber ≠ state.running → ∀ resumption, state.given fiber = some resumption →
    resumption.HeldBy trampoline (.read state.machine.memory (layout.context fiber))

theorem Isolated.work (isolated : state.Isolated layout trampoline) {machine : Machine}
    (moved : next layout trampoline state (.work machine) after) : after.Isolated layout trampoline := by
  obtain ⟨kept, rfl⟩ := moved
  intro fiber waits resumption found
  have same : MarlFiberContext.read machine.memory (layout.context fiber) =
      MarlFiberContext.read state.machine.memory (layout.context fiber) :=
    MarlFiberContext.read_congr (kept fiber waits)
  have held := isolated fiber waits resumption found
  rwa [← same] at held

theorem Isolated.setTarget (isolated : state.Isolated layout trampoline) {fiber : φ} {stack : Word}
    {stackSize : BitVec 32} {target arg : Word}
    (moved : next layout trampoline state (.setTarget fiber stack stackSize target arg) after) :
    after.Isolated layout trampoline := by
  obtain ⟨spares, rfl⟩ := moved
  intro other waits resumption found
  by_cases here : other = fiber
  · subst here
    simp only [Function.update_self, Option.some.injEq] at found
    subst found
    have written := read_marlFiberSetTarget trampoline state.machine.memory target arg (spares other)
    exact ⟨congrArg MarlFiberContext.rip written, congrArg MarlFiberContext.rdi written,
      congrArg MarlFiberContext.rsi written⟩
  · simp only [Function.update_of_ne here] at found
    have same : MarlFiberContext.read (marlFiberSetTarget trampoline state.machine.memory (layout.context fiber) stack
        stackSize target arg) (layout.context other) =
        MarlFiberContext.read state.machine.memory (layout.context other) := by
      refine MarlFiberContext.read_congr ?_
      intro cell inside
      exact marlFiberSetTarget_outside trampoline _ _ _ _ _ _ (layout.apart other fiber here cell inside)
        fun above => spares other cell above inside
    have held := isolated other waits resumption found
    rwa [← same] at held

theorem Isolated.switchTo (isolated : state.Isolated layout trampoline) {fiber : φ} {returnAddress : Word}
    (moved : next layout trampoline state (.switchTo fiber returnAddress) after) :
    after.Isolated layout trampoline := by
  obtain ⟨other, _, spares, rfl⟩ := moved
  intro waiter waits resumption found
  by_cases here : waiter = state.running
  · subst here
    simp only [Function.update_self, Option.some.injEq] at found
    subst found
    obtain ⟨rdi, rsi, saved⟩ := Machine.read_callSwap (spares state.running) returnAddress
    rw [Resumption.HeldBy, saved]
    exact ⟨⟨rfl, rfl, rfl, rfl, rfl, rfl⟩, rfl, rfl⟩
  · simp only [Function.update_of_ne here] at found
    have same : MarlFiberContext.read (state.machine.callSwap (layout.context state.running) (layout.context fiber)
        returnAddress).memory (layout.context waiter) =
        MarlFiberContext.read state.machine.memory (layout.context waiter) := by
      refine MarlFiberContext.read_congr ?_
      intro cell inside
      exact Machine.callSwap_outside (spares state.running) returnAddress
        (layout.apart waiter state.running here cell inside) fun below => spares waiter cell below inside
    have held := isolated waiter here resumption found
    rwa [← same] at held

theorem isolated_of_reachable (reachable : (system layout trampoline).Reachable state) :
    state.Isolated layout trampoline := by
  refine reachable.invariant ?_ ?_
  · intro state start fiber _ resumption found
    have nothing : state.given = fun _ => none := start
    rw [nothing] at found
    cases found
  · intro state label after _ isolated moved
    cases label with
    | work machine => exact isolated.work moved
    | setTarget fiber stack stackSize target arg => exact isolated.setTarget moved
    | switchTo fiber returnAddress => exact isolated.switchTo moved

/-- Whatever the fibers did in between, a fiber that is switched to goes on
where its context was initialised to start, or where its own call of
`marl_fiber_swap` returns. -/
theorem switchTo_continues {fiber : φ} {returnAddress : Word}
    (reachable : (system layout trampoline).Reachable state)
    (moved : (system layout trampoline).next state (.switchTo fiber returnAddress) after) :
    ∃ resumption, state.given fiber = some resumption ∧ resumption.Continues trampoline after.machine := by
  have isolated := isolated_of_reachable reachable
  obtain ⟨other, found, spares, rfl⟩ := moved
  obtain ⟨resumption, given⟩ := Option.isSome_iff_exists.mp found
  refine ⟨resumption, given, (isolated fiber other resumption given).continues ?_⟩
  exact Machine.loadedIn_callSwap (spares state.running) (spares fiber)
    (layout.apart fiber state.running other) returnAddress

/-- The contexts of a thread's fiber and of one other. -/
def twoContexts : Layout Bool where
  context fiber := if fiber then 0x2000 else 0x1000
  apart first second distinct cell := by
    unfold InRegion contextSize
    cases first <;> cases second <;> simp at distinct ⊢ <;> bv_omega

theorem twoContexts_spares {address : Word} (above : 0x8000 ≤ address.toNat) (below : address.toNat < 0x10000) :
    twoContexts.Spares address := by
  intro fiber cell
  unfold InRegion contextSize
  cases fiber <;> simp only [twoContexts, if_true, if_false, Bool.false_eq_true] <;> bv_omega

/-- The thread's fiber starts another one, which overwrites every register and
switches back: the thread's fiber has its registers again. -/
theorem switchTo_continues_roundTrip : ∃ (state after : Fibers Bool),
    (system twoContexts 0x400).Reachable state ∧ state.machine.register .rbx = 0xdead ∧
      (system twoContexts 0x400).next state (.switchTo false 0x600) after ∧
      after.machine.register .rbx = 0x11 ∧ after.machine.register .rsp = 0x9000 ∧ after.machine.rip = 0x500 := by
  let filled (value stackPointer : Word) (register : Register) : Word := if register = .rsp then stackPointer else value
  let thread : Fibers Bool :=
    { machine := { register := filled 0x11 0x9000, rip := 0, memory := fun _ => 0 }
      running := false
      given := fun _ => none }
  obtain ⟨first, initialise, firstRegister, firstRunning, firstGiven⟩ : ∃ first : Fibers Bool,
      (system twoContexts 0x400).next thread (.setTarget true 0xa000 0x1000 0x40 0x77) first ∧
        first.machine.register = filled 0x11 0x9000 ∧ first.running = false ∧ (first.given true).isSome = true :=
    ⟨_, ⟨twoContexts_spares (by decide) (by decide), rfl⟩, rfl, rfl, rfl⟩
  obtain ⟨second, start, secondRunning, secondGiven⟩ : ∃ second : Fibers Bool,
      (system twoContexts 0x400).next first (.switchTo true 0x500) second ∧ second.running = true ∧
        second.given false = some (.called (filled 0x11 0x9000) 0x500) := by
    refine ⟨_, ⟨by simp [firstRunning], firstGiven, ?_, rfl⟩, rfl, by simp [firstRunning, firstRegister]⟩
    rw [firstRegister]
    exact twoContexts_spares (by decide) (by decide)
  obtain ⟨third, compute, thirdRegister, thirdRunning, thirdGiven⟩ : ∃ third : Fibers Bool,
      (system twoContexts 0x400).next second
          (.work { register := filled 0xdead 0xa800, rip := 0, memory := second.machine.memory }) third ∧
        third.machine.register = filled 0xdead 0xa800 ∧ third.running = true ∧ third.given = second.given :=
    ⟨_, ⟨fun _ _ _ _ => rfl, rfl⟩, rfl, secondRunning, rfl⟩
  have reachable : (system twoContexts 0x400).Reachable third :=
    (((System.Reachable.initial rfl).step initialise).step start).step compute
  obtain ⟨after, back⟩ : ∃ after, (system twoContexts 0x400).next third (.switchTo false 0x600) after := by
    refine ⟨_, by simp [thirdRunning], by simp [thirdGiven, secondGiven], ?_, rfl⟩
    rw [thirdRegister]
    exact twoContexts_spares (by decide) (by decide)
  obtain ⟨resumption, found, continues⟩ := switchTo_continues reachable back
  rw [thirdGiven, secondGiven] at found
  cases found
  obtain ⟨saved, rsp, rip⟩ := continues
  exact ⟨third, after, reachable, by rw [thirdRegister]; rfl, back, saved .rbx (by decide), rsp, rip⟩

end Fibers

end MiniMarl.OSFiber
