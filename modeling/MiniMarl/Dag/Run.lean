import MiniMarl.Dag.Builder
import MiniMarl.Transition

namespace MiniMarl.Dag

open Data

variable {ω : Type}

/-- The call of a work and its return, a node without work that is passed over,
and a notification. -/
inductive Event where
  | started (node : Nat)
  | returned (node : Nat)
  | passed (node : Nat)
  /-- `before` is the value of the decremented counter, if the node has one. -/
  | notified (node : Nat) (before : Option Nat)
  deriving DecidableEq, Repr

namespace Event

def entered? : Event → Option Nat
  | .started node | .passed node => some node
  | _ => none

def left? : Event → Option Nat
  | .returned node | .passed node => some node
  | _ => none

def notified? : Event → Option Nat
  | .notified node _ => some node
  | _ => none

end Event

/-- Where a closure, or `run` itself, stands in `invoke`. -/
inductive Place where
  | invoke (node : Nat)
  | running (node : Nat)
  | loop (rest : List Nat) (toInvoke : Option Nat)
  | adding (idx : Nat) (rest : List Nat) (toInvoke : Nat)
  | scheduling (idx : Nat) (rest : List Nat) (toInvoke : Nat)
  /-- Before `w.done()` in a closure, and before `wg.wait()` in `run`. -/
  | ended
  | finished
  deriving DecidableEq, Repr

/-- A `RunContext` with the `WaitGroup`, the activations of `invoke` (the first
one is that of `run`), and what has happened, the newest event first. -/
structure RunContext where
  counters : List Nat
  wg : Nat := 0
  frames : List Place := [.invoke 0]
  log : List Event := []
  deriving DecidableEq, Repr

/-- What one atomic operation does. -/
structure Move where
  place : Place
  counters : List Nat
  wg : Nat
  spawned : List Place := []
  events : List Event := []

namespace RunContext

/-- `initCounters`, and the start of `run`. -/
def initial (dag : Dag ω) : RunContext := { counters := dag.initialCounters }

/-- The nodes whose work has been called, or that have been passed over. -/
def entered (context : RunContext) : List Nat := context.log.filterMap Event.entered?

def left (context : RunContext) : List Nat := context.log.filterMap Event.left?

def notified (context : RunContext) : List Nat := context.log.filterMap Event.notified?

/-- The context after an operation of one activation. -/
def advance (context : RunContext) (frame : Nat) (move : Move) : RunContext where
  counters := move.counters
  wg := move.wg
  frames := context.frames.set frame move.place ++ move.spawned
  log := move.events ++ context.log

end RunContext

/-- `notify`: whether the node is ready, and the counters afterwards. -/
def notify (dag : Dag ω) (counters : List Nat) (idx : Nat) : Bool × List Nat :=
  match dag.counterIndex idx with
  | none => (true, counters)
  | some slot =>
      let count := (counters.getD slot 0 + (2 ^ 32 - 1)) % 2 ^ 32
      (count == 0, counters.set slot count)

/-- The body of the loop over `outs`, after `notify`. -/
def afterNotify (ready : Bool) (idx : Nat) (rest : List Nat) : Option Nat → Place
  | none => .loop rest (if ready then some idx else none)
  | some toInvoke => if ready then .adding idx rest toInvoke else .loop rest (some toInvoke)

/-- One atomic operation of `invoke`, of the closure around it, or of `run`. -/
def move (dag : Dag ω) (main : Bool) (counters : List Nat) (wg : Nat) : Place → Option Move
  | .invoke node =>
      if dag.hasWork node then
        some { place := .running node, counters, wg, events := [.started node] }
      else
        some { place := .loop (dag.outs node) none, counters, wg, events := [.passed node] }
  | .running node => some { place := .loop (dag.outs node) none, counters, wg, events := [.returned node] }
  | .loop (idx :: rest) toInvoke =>
      some {
        place := afterNotify (dag.notify counters idx).1 idx rest toInvoke
        counters := (dag.notify counters idx).2
        wg
        events := [.notified idx ((dag.counterIndex idx).bind fun slot => counters[slot]?)] }
  | .loop [] none => some { place := .ended, counters, wg }
  | .loop [] (some toInvoke) => some { place := .invoke toInvoke, counters, wg }
  | .adding idx rest toInvoke =>
      some { place := .scheduling idx rest toInvoke, counters, wg := (wg + 1) % 2 ^ 32 }
  | .scheduling idx rest toInvoke =>
      some { place := .loop rest (some idx), counters, wg, spawned := [.invoke toInvoke] }
  | .ended =>
      if main then
        -- `wg.wait()` returns when the count is zero
        if wg = 0 then some { place := .finished, counters, wg } else none
      else
        -- `w.done()` asserts that the count is positive
        if 0 < wg then some { place := .finished, counters, wg := wg - 1 } else none
  | .finished => none

def step (dag : Dag ω) (context : RunContext) (frame : Nat) : Option RunContext :=
  context.frames[frame]?.bind fun place =>
    (dag.move (frame == 0) context.counters context.wg place).map (context.advance frame)

/-- One call of `run`. -/
def run (dag : Dag ω) : Transition.System RunContext Nat :=
  .ofStep (· = RunContext.initial dag) dag.step

end MiniMarl.Dag
