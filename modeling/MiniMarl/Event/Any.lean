import MiniMarl.Data.Fallible
import MiniMarl.Data.Marking
import MiniMarl.Event.Step

namespace MiniMarl.Event

open Transition Data

/-! Events that depend on others.

`Event::any` hangs its result on the events it is given, and `signal` passes a
signal on to what hangs on an event. Events are numbered in the order of their
construction, and nobody waits: a notification finds no waiter.
-/

structure Shared where
  mode : Mode
  signalled : Bool
  deps : List Nat := []
deriving Repr

/-- All events, and the mutexes that the calling thread holds. -/
structure Network where
  shared : List Shared := []
  locked : List Nat := []
deriving Repr

inductive Fault where
  /-- The thread locks a mutex that it holds. -/
  | deadlock (event : Nat)
  /-- There is no such event. -/
  | dangling (event : Nat)
  /-- The recursion is deeper than the fuel. -/
  | unfinished
deriving DecidableEq, Repr

namespace Network

def lock (network : Network) (event : Nat) : Except Fault Network :=
  if event ∈ network.locked then .error (.deadlock event)
  else .ok { network with locked := event :: network.locked }

def unlock (network : Network) (event : Nat) : Network :=
  { network with locked := network.locked.erase event }

def find (network : Network) (event : Nat) : Except Fault Shared :=
  match network.shared[event]? with
  | some shared => .ok shared
  | none => .error (.dangling event)

def update (network : Network) (event : Nat) (change : Shared → Shared) : Network :=
  { network with shared := network.shared.modify event change }

/-- The constructor of `Event`. -/
def construct (network : Network) (mode : Mode) (initialState : Bool) : Network :=
  { network with shared := network.shared ++ [{ mode := mode, signalled := initialState }] }

/-- `Event::Shared::signal`. The locks of the events on the way are held
until the recursion returns. -/
def signal : Nat → Nat → Network → Except Fault Network
  | 0, _, _ => .error .unfinished
  | fuel + 1, event, network => do
      let network ← network.lock event
      let shared ← network.find event
      if shared.signalled then
        return network.unlock event
      let network := network.update event fun shared => { shared with signalled := true }
      let network ← shared.deps.foldlM (fun network dep => signal fuel dep network) network
      return network.unlock event

def clear (network : Network) (event : Nat) : Except Fault Network := do
  let network ← network.lock event
  let _ ← network.find event
  return (network.update event fun shared => { shared with signalled := false }).unlock event

def test (network : Network) (event : Nat) : Except Fault (Bool × Network) := do
  let network ← network.lock event
  let shared ← network.find event
  if !shared.signalled then
    return (false, network.unlock event)
  if shared.mode = .auto then
    return (true, (network.update event fun shared => { shared with signalled := false }).unlock event)
  return (true, network.unlock event)

/-- One round of the loop of `Event::any`: a listed event is locked while the
result is signalled and hung on it. -/
def hang (any : Nat) (network : Network) (event : Nat) : Except Fault Network := do
  let network ← network.lock event
  let shared ← network.find event
  let network ← if shared.signalled then network.signal network.shared.length any else pure network
  return (network.update event fun shared => { shared with deps := shared.deps ++ [any] }).unlock event

/-- `Event::any`, with the number of its result. -/
def any (network : Network) (mode : Mode) (list : List Nat) : Except Fault (Nat × Network) := do
  let any := network.shared.length
  let network ← list.foldlM (hang any) (network.construct mode false)
  return (any, network)

def isSignalled (network : Network) (event : Nat) : Bool := network.shared[event]?.any Shared.signalled

def deps (network : Network) (event : Nat) : List Nat := network.shared[event]?.elim [] Shared.deps

/-- What a signal leaves alone. -/
def shape (network : Network) : List (Mode × List Nat) :=
  network.shared.map fun shared => (shared.mode, shared.deps)

/-- An event hangs on earlier events only. -/
def Ordered (network : Network) : Prop :=
  ∀ event, ∀ dep ∈ network.deps event, event < dep ∧ dep < network.shared.length

variable {network after : Network} {event : Nat}

theorem length_of_shape (same : after.shape = network.shape) : after.shared.length = network.shared.length := by
  simpa [shape] using congrArg List.length same

theorem deps_eq_shape (network : Network) (event : Nat) : network.deps event = network.shape[event]?.elim [] Prod.snd := by
  simp only [deps, shape, List.getElem?_map]
  cases network.shared[event]? with
  | none => rfl
  | some shared => rfl

theorem deps_of_shape (same : after.shape = network.shape) (event : Nat) : after.deps event = network.deps event := by
  rw [deps_eq_shape, deps_eq_shape, same]

theorem Ordered.of_shape (ordered : network.Ordered) (same : after.shape = network.shape) : after.Ordered := by
  intro event dep member
  rw [deps_of_shape same] at member
  rw [length_of_shape same]
  exact ordered event dep member

/-- Every path along the dependencies leads to later events. -/
theorem Ordered.acyclic (ordered : network.Ordered) (event : Nat) :
    ¬Relation.TransGen (fun event dep => dep ∈ network.deps event) event event := by
  have later : ∀ {last}, Relation.TransGen (fun event dep => dep ∈ network.deps event) event last → event < last := by
    intro last path
    induction path with
    | single link => exact (ordered _ _ link).1
    | tail _ link ih => exact ih.trans (ordered _ _ link).1
  exact fun cycle => lt_irrefl event (later cycle)

/-- A traversal that starts at some events has returned. -/
structure Passes (network : Network) (starts : List Nat) (after : Network) : Prop where
  locked : after.locked = network.locked
  shape : after.shape = network.shape
  spread : Spread (fun event dep => dep ∈ network.deps event) starts (network.isSignalled ·) (after.isSignalled ·)

theorem Passes.nil : network.Passes [] network := ⟨rfl, rfl, .nil⟩

theorem Passes.cons {middle : Network} {starts : List Nat} (head : network.Passes [event] middle)
    (tail : middle.Passes starts after) : network.Passes (event :: starts) after where
  locked := tail.locked.trans head.locked
  shape := tail.shape.trans head.shape
  spread := by
    have rest := tail.spread
    simp only [deps_of_shape head.shape] at rest
    exact head.spread.cons rest

/-- The network inside the call of `signal`, before the loop over the dependencies. -/
def enter (network : Network) (event : Nat) : Network :=
  { shared := network.shared.modify event fun shared => { shared with signalled := true }
    locked := event :: network.locked }

theorem enter_shape (network : Network) (event : Nat) : (network.enter event).shape = network.shape := by
  apply List.ext_getElem?
  intro index
  simp only [shape, enter, List.getElem?_map, List.getElem?_modify]
  cases network.shared[index]? with
  | none => rfl
  | some shared => by_cases here : event = index <;> simp [here]

theorem enter_isSignalled (present : event < network.shared.length) (other : Nat) :
    (network.enter event).isSignalled other = true ↔ network.isSignalled other = true ∨ other = event := by
  simp only [isSignalled, enter, List.getElem?_modify]
  by_cases here : event = other
  · subst here
    simp [present]
  · simp [here, Ne.symm here]

theorem unlock_entered (network : Network) (event : Nat) (same : after.locked = event :: network.locked) :
    (after.unlock event).locked = network.locked := by
  simp [unlock, same]

theorem signal_marked (fuel : Nat) {shared : Shared} (free : event ∉ network.locked)
    (found : network.shared[event]? = some shared) (signalled : shared.signalled = true) :
    network.signal (fuel + 1) event = .ok network := by
  simp [signal, lock, free, find, found, signalled, unlock, bind, Except.bind, pure, Except.pure]

theorem signal_unmarked (fuel : Nat) {shared : Shared} (free : event ∉ network.locked)
    (found : network.shared[event]? = some shared) (unmarked : shared.signalled = false) :
    network.signal (fuel + 1) event =
      (shared.deps.foldlM (fun network dep => signal fuel dep network) (network.enter event)).map (·.unlock event) := by
  simp only [signal, lock, if_neg free, find, found, unmarked, bind, Except.bind, pure, Except.pure, Bool.false_eq_true, if_false]
  rfl

/-- The calls of the loop over the dependencies, each of which returns. -/
theorem signals_passes {starts : List Nat} {room : Nat}
    (visit : ∀ network : Network, network.Ordered → ∀ event < network.shared.length,
      network.shared.length ≤ room + event → (∀ held ∈ network.locked, held < event) →
      ∃ after, (∀ fuel ≥ room, network.signal fuel event = .ok after) ∧ network.Passes [event] after)
    (ordered : network.Ordered)
    (present : ∀ start ∈ starts, start < network.shared.length ∧ network.shared.length ≤ room + start)
    (below : ∀ start ∈ starts, ∀ held ∈ network.locked, held < start) :
    ∃ after, (∀ fuel ≥ room, starts.foldlM (fun network dep => signal fuel dep network) network = .ok after) ∧
      network.Passes starts after := by
  induction starts generalizing network with
  | nil => exact ⟨network, fun _ _ => rfl, .nil⟩
  | cons start starts ih =>
      obtain ⟨known, enough⟩ := present start List.mem_cons_self
      obtain ⟨middle, returned, head⟩ := visit network ordered start known enough (below start List.mem_cons_self)
      have size := length_of_shape head.shape
      obtain ⟨after, finished, tail⟩ := ih (ordered.of_shape head.shape)
        (fun start listed => size ▸ present start (List.mem_cons_of_mem _ listed))
        (fun start listed => head.locked ▸ below start (List.mem_cons_of_mem _ listed))
      refine ⟨after, ?_, head.cons tail⟩
      intro fuel sufficient
      simp only [List.foldlM_cons, returned fuel sufficient, bind, Except.bind]
      exact finished fuel sufficient

/-- A call of `signal` on an event that is later than the events whose mutexes
are held. The recursion goes to later events only, so it ends, and it never
comes back to one of them. -/
theorem signal_passes {room : Nat} (ordered : network.Ordered) (present : event < network.shared.length)
    (enough : network.shared.length ≤ room + event) (below : ∀ held ∈ network.locked, held < event) :
    ∃ after, (∀ fuel ≥ room, network.signal fuel event = .ok after) ∧ network.Passes [event] after := by
  induction room generalizing network event with
  | zero => omega
  | succ room ih =>
      have free : event ∉ network.locked := fun held => lt_irrefl event (below event held)
      have found : network.shared[event]? = some network.shared[event] := List.getElem?_eq_getElem present
      have successors : network.deps event = network.shared[event].deps := by simp [deps, found]
      cases signalled : network.shared[event].signalled with
      | true =>
          refine ⟨network, ?_, rfl, rfl, .stop (by simp [isSignalled, found, signalled])⟩
          intro fuel sufficient
          obtain ⟨fuel, rfl⟩ : ∃ less, fuel = less + 1 := ⟨fuel - 1, by omega⟩
          exact signal_marked fuel free found signalled
      | false =>
          have same := enter_shape network event
          have size := length_of_shape same
          obtain ⟨inner, returned, passes⟩ := signals_passes 
            (fun network ordered event present enough below => ih ordered present enough below)
            (ordered.of_shape same)
            (by
              intro dep listed
              obtain ⟨later, known⟩ := ordered event dep (successors ▸ listed)
              rw [size]
              omega)
            (by
              intro dep listed held locked
              obtain ⟨later, known⟩ := ordered event dep (successors ▸ listed)
              rcases List.mem_cons.mp locked with rfl | outer
              · exact later
              · exact (below held outer).trans later)
          refine ⟨inner.unlock event, ?_, unlock_entered network event passes.locked, passes.shape.trans same, ?_⟩
          · intro fuel sufficient
            obtain ⟨fuel, rfl⟩ : ∃ less, fuel = less + 1 := ⟨fuel - 1, by omega⟩
            rw [signal_unmarked fuel free found signalled, returned fuel (by omega)]
            rfl
          · have rest := passes.spread
            simp only [deps_of_shape same] at rest
            refine .enter ?_ (fun target => by rw [successors]) (fun other => enter_isSignalled present other) rest
            simp [isSignalled, found, signalled]

theorem deps_update_deps (network : Network) (present : event < network.shared.length) (any other : Nat) :
    (network.update event fun shared => { shared with deps := shared.deps ++ [any] }).deps other =
      if other = event then network.deps event ++ [any] else network.deps other := by
  simp only [deps, update, List.getElem?_modify]
  by_cases here : other = event
  · subst here
    simp [present]
  · simp [here, Ne.symm here]

theorem isSignalled_update_deps (network : Network) (any other : Nat) :
    (network.update event fun shared => { shared with deps := shared.deps ++ [any] }).isSignalled other =
      network.isSignalled other := by
  simp only [isSignalled, update, List.getElem?_modify]
  cases network.shared[other]? with
  | none => rfl
  | some shared => by_cases here : event = other <;> simp [here]

/-- The state between two rounds of the loop of `Event::any`: the result is
the last event, and nothing hangs on it yet. -/
structure Hanging (any : Nat) (network : Network) : Prop where
  ordered : network.Ordered
  unlocked : network.locked = []
  last : network.shared.length = any + 1

theorem Hanging.deps_nil {any : Nat} (hanging : Hanging any network) : network.deps any = [] := by
  apply List.eq_nil_iff_forall_not_mem.mpr
  intro dep member
  have bounds := hanging.ordered any dep member
  have last := hanging.last
  omega

/-- The result has no dependencies, so signalling it marks nothing else. -/
theorem Hanging.signal {any : Nat} (hanging : Hanging any network) (earlier : event < any) :
    ∃ after, ({ network with locked := [event] } : Network).signal network.shared.length any = .ok after ∧
      after.locked = [event] ∧ after.shape = network.shape ∧
      ∀ other, after.isSignalled other = true ↔ network.isSignalled other = true ∨ other = any := by
  have last := hanging.last
  have ordered : ({ network with locked := [event] } : Network).Ordered := hanging.ordered
  obtain ⟨after, returned, passes⟩ := signal_passes ordered (by simp [last]) (Nat.le_add_right network.shared.length any)
    (fun held locked => List.mem_singleton.mp locked ▸ earlier)
  refine ⟨after, returned _ le_rfl, passes.locked, passes.shape, ?_⟩
  intro other
  rw [passes.spread.marked_iff other]
  constructor
  · intro found
    rcases found with known | path
    · exact .inl known
    · refine .inr (path.eq_of_sink ?_)
      intro target link
      have member : target ∈ network.deps any := link
      rw [hanging.deps_nil] at member
      exact nomatch member
  · intro found
    rcases found with known | rfl
    · exact .inl known
    · by_cases known : network.isSignalled other = true
      · exact .inl known
      · exact .inr (.here known)

theorem hang_spec {any : Nat} (hanging : Hanging any network) (earlier : event < any) :
    ∃ after, hang any network event = .ok after ∧ Hanging any after ∧
      ∀ other, after.isSignalled other = true ↔
        network.isSignalled other = true ∨ other = any ∧ network.isSignalled event = true := by
  have last := hanging.last
  have present : event < network.shared.length := by omega
  have found : network.shared[event]? = some network.shared[event] := List.getElem?_eq_getElem present
  have known : network.isSignalled event = network.shared[event].signalled := by simp [isSignalled, found]
  -- the state before the dependency is pushed
  obtain ⟨inner, called, locked, same, marks⟩ :
      ∃ inner, (if network.shared[event].signalled then
          ({ network with locked := [event] } : Network).signal network.shared.length any
        else .ok { network with locked := [event] }) = .ok inner ∧ inner.locked = [event] ∧ inner.shape = network.shape ∧
        ∀ other, inner.isSignalled other = true ↔
          network.isSignalled other = true ∨ other = any ∧ network.isSignalled event = true := by
    cases signalled : network.shared[event].signalled with
    | true =>
        obtain ⟨inner, returned, locked, same, marks⟩ := hanging.signal earlier
        exact ⟨inner, by simpa using returned, locked, same, by simpa [known, signalled] using marks⟩
    | false =>
        refine ⟨{ network with locked := [event] }, rfl, rfl, rfl, ?_⟩
        intro other
        rw [known, signalled]
        simp [isSignalled]
  have size := length_of_shape same
  refine ⟨(inner.update event fun shared => { shared with deps := shared.deps ++ [any] }).unlock event, ?_, ?_, ?_⟩
  · simp only [hang, lock, hanging.unlocked, List.not_mem_nil, if_false, bind, Except.bind, find, found, pure, Except.pure]
    cases signalled : network.shared[event].signalled with
    | true =>
        rw [signalled, if_pos rfl] at called
        simp [called]
    | false =>
        rw [signalled, if_neg Bool.false_ne_true] at called
        cases called
        rfl
  · refine ⟨?_, by simp [unlock, update, locked], by simpa [unlock, update, size] using last⟩
    intro other dep member
    have pushed : dep ∈ if other = event then inner.deps event ++ [any] else inner.deps other := by
      rw [← deps_update_deps inner (size ▸ present)]
      exact member
    have bound : (inner.update event fun shared => { shared with deps := shared.deps ++ [any] }).shared.length = any + 1 := by
      simpa [update, size] using last
    change other < dep ∧ dep < (inner.update event _).shared.length
    rw [bound]
    by_cases here : other = event
    · subst here
      rw [if_pos rfl, deps_of_shape same] at pushed
      rcases List.mem_append.mp pushed with old | new
      · exact last ▸ hanging.ordered other dep old
      · rw [List.mem_singleton.mp new]
        omega
    · rw [if_neg here, deps_of_shape same] at pushed
      exact last ▸ hanging.ordered other dep pushed
  · intro other
    change (inner.update event _).isSignalled other = true ↔ _
    rw [isSignalled_update_deps]
    exact marks other

theorem hangs_spec {any : Nat} {list : List Nat} (hanging : Hanging any network) (earlier : ∀ event ∈ list, event < any) :
    ∃ after, list.foldlM (hang any) network = .ok after ∧ Hanging any after ∧
      (after.isSignalled any = true ↔
        network.isSignalled any = true ∨ ∃ event ∈ list, network.isSignalled event = true) := by
  induction list generalizing network with
  | nil => exact ⟨network, rfl, hanging, by simp⟩
  | cons event list ih =>
      obtain ⟨middle, called, still, marks⟩ := hang_spec hanging (earlier event List.mem_cons_self)
      obtain ⟨after, finished, done, found⟩ := ih still fun event listed => earlier event (List.mem_cons_of_mem _ listed)
      refine ⟨after, by simpa only [List.foldlM_cons, called, bind, Except.bind] using finished, done, ?_⟩
      -- no round signals a listed event
      have others : ∀ other ∈ list, middle.isSignalled other = true ↔ network.isSignalled other = true := by
        intro other listed
        have distinct : other ≠ any := (earlier other (List.mem_cons_of_mem _ listed)).ne
        simp [marks other, distinct]
      rw [found, marks any, List.exists_mem_cons_iff]
      constructor
      · intro seen
        rcases seen with (known | ⟨_, here⟩) | ⟨other, listed, signalled⟩
        · exact .inl known
        · exact .inr (.inl here)
        · exact .inr (.inr ⟨other, listed, (others other listed).mp signalled⟩)
      · intro seen
        rcases seen with known | here | ⟨other, listed, signalled⟩
        · exact .inl (.inl known)
        · exact .inl (.inr ⟨rfl, here⟩)
        · exact .inr ⟨other, listed, (others other listed).mpr signalled⟩

theorem deps_construct (network : Network) (mode : Mode) (initialState : Bool) (event : Nat) :
    (network.construct mode initialState).deps event = network.deps event := by
  simp only [deps, construct, List.getElem?_append]
  by_cases present : event < network.shared.length
  · rw [if_pos present]
  · have absent : network.shared[event]? = none := List.getElem?_eq_none (by omega)
    rw [if_neg present, absent]
    cases event - network.shared.length <;> rfl

theorem Ordered.construct (ordered : network.Ordered) (mode : Mode) (initialState : Bool) :
    (network.construct mode initialState).Ordered := by
  intro event dep member
  rw [deps_construct] at member
  obtain ⟨later, known⟩ := ordered event dep member
  refine ⟨later, ?_⟩
  simp only [Network.construct, List.length_append, List.length_singleton]
  omega

theorem isSignalled_construct (network : Network) (mode : Mode) (initialState : Bool) (event : Nat) :
    (network.construct mode initialState).isSignalled event =
      if event = network.shared.length then initialState else network.isSignalled event := by
  simp only [isSignalled, construct, List.getElem?_append]
  by_cases present : event < network.shared.length
  · rw [if_pos present, if_neg (by omega)]
  · have absent : network.shared[event]? = none := List.getElem?_eq_none (by omega)
    rw [if_neg present, absent]
    by_cases here : event = network.shared.length
    · simp [here]
    · have beyond : event - network.shared.length ≠ 0 := by omega
      simp [here, List.getElem?_eq_none (show [({ mode := mode, signalled := initialState } : Shared)].length ≤
        event - network.shared.length by simpa using Nat.one_le_iff_ne_zero.mpr beyond)]

/-- What holds between the calls. -/
structure Valid (network : Network) : Prop where
  ordered : network.Ordered
  unlocked : network.locked = []

theorem Valid.any (valid : network.Valid) (mode : Mode) {list : List Nat}
    (existing : ∀ event ∈ list, event < network.shared.length) :
    ∃ after, network.any mode list = .ok (network.shared.length, after) ∧ after.Valid ∧
      (after.isSignalled network.shared.length = true ↔ ∃ event ∈ list, network.isSignalled event = true) := by
  have hanging : Hanging network.shared.length (network.construct mode false) :=
    ⟨valid.ordered.construct mode false, valid.unlocked, by simp [construct]⟩
  obtain ⟨after, finished, done, found⟩ := hangs_spec hanging existing
  refine ⟨after, by simp [Network.any, finished, bind, Except.bind, pure, Except.pure], ⟨done.ordered, done.unlocked⟩, ?_⟩
  have listed : ∀ event ∈ list, (network.construct mode false).isSignalled event = network.isSignalled event := by
    intro event member
    rw [isSignalled_construct, if_neg (existing event member).ne]
  rw [found, isSignalled_construct, if_pos rfl]
  constructor
  · intro seen
    rcases seen with never | ⟨event, member, signalled⟩
    · cases never
    · exact ⟨event, member, listed event member ▸ signalled⟩
  · intro signals
    obtain ⟨event, member, signalled⟩ := signals
    exact .inr ⟨event, member, (listed event member).trans signalled⟩

theorem Valid.signal (valid : network.Valid) (present : event < network.shared.length) :
    ∃ after, (∀ fuel ≥ network.shared.length, network.signal fuel event = .ok after) ∧
      network.Passes [event] after ∧ after.Valid := by
  obtain ⟨after, returned, passes⟩ := signal_passes valid.ordered present (Nat.le_add_right network.shared.length event)
    (by simp [valid.unlocked])
  exact ⟨after, returned, passes, valid.ordered.of_shape passes.shape, passes.locked.trans valid.unlocked⟩

/-- A signal that is taken back leaves the dependencies alone. -/
theorem Valid.update (valid : network.Valid) (event : Nat) :
    (network.update event fun shared => { shared with signalled := false }).Valid := by
  refine ⟨valid.ordered.of_shape ?_, valid.unlocked⟩
  apply List.ext_getElem?
  intro index
  simp only [shape, Network.update, List.getElem?_map, List.getElem?_modify]
  cases network.shared[index]? with
  | none => rfl
  | some shared => by_cases here : event = index <;> simp [here]

inductive Label where
  | construct (mode : Mode) (initialState : Bool)
  | any (mode : Mode) (list : List Nat)
  | signal (event : Nat)
  | clear (event : Nat)
  | test (event : Nat)
deriving Repr

/-- One call, on events that exist. -/
def step (network : Network) : Label → Except Fault Network
  | .construct mode initialState => .ok (network.construct mode initialState)
  | .any mode list =>
      match list.find? (network.shared.length ≤ ·) with
      | some event => .error (.dangling event)
      | none => (network.any mode list).map Prod.snd
  | .signal event => network.signal network.shared.length event
  | .clear event => network.clear event
  | .test event => (network.test event).map Prod.snd

def system : System Network Label := .ofStep (· = {}) fun network label => (network.step label).toOption

theorem find_ok {shared : Shared} (found : network.find event = .ok shared) : event < network.shared.length := by
  by_contra absent
  simp [find, List.getElem?_eq_none (Nat.le_of_not_lt absent)] at found

/-- Every call but `signal` starts like this. -/
theorem Valid.lock (valid : network.Valid) (event : Nat) :
    network.lock event = .ok { network with locked := [event] } := by
  simp [Network.lock, valid.unlocked]

theorem unlock_locked (valid : network.Valid) (event : Nat) :
    ({ network with locked := [event] } : Network).unlock event = network := by
  cases network with
  | mk shared locked =>
      have unlocked : locked = [] := valid.unlocked
      simp [unlock, unlocked]

theorem Valid.present_of_signal (valid : network.Valid) {fuel : Nat} (done : network.signal fuel event = .ok after) :
    event < network.shared.length := by
  cases fuel with
  | zero => cases done
  | succ fuel =>
      simp only [Network.signal, valid.lock event, Except.ok_bind] at done
      obtain ⟨shared, found, _⟩ := Except.bind_eq_ok.mp done
      exact find_ok found

theorem Valid.step (valid : network.Valid) {label : Label} (done : network.step label = .ok after) : after.Valid := by
  cases label with
  | construct mode initialState =>
      cases done
      exact ⟨valid.ordered.construct mode initialState, valid.unlocked⟩
  | any mode list =>
      simp only [Network.step] at done
      cases missing : list.find? (network.shared.length ≤ ·) with
      | some event => simp [missing] at done
      | none =>
          have existing : ∀ event ∈ list, event < network.shared.length := by simpa using missing
          obtain ⟨result, called, still, _⟩ := valid.any mode existing
          simp only [missing, called, Except.map] at done
          cases done
          exact still
  | signal event =>
      have called : network.signal network.shared.length event = .ok after := done
      obtain ⟨result, returned, _, still⟩ := valid.signal (valid.present_of_signal called)
      rw [returned _ le_rfl] at called
      cases called
      exact still
  | clear event =>
      simp only [Network.step, Network.clear, valid.lock event, Except.ok_bind] at done
      obtain ⟨shared, _, cleared⟩ := Except.bind_eq_ok.mp done
      cases cleared
      exact unlock_locked (valid.update event) event ▸ valid.update event
  | test event =>
      simp only [Network.step, Network.test, valid.lock event] at done
      cases found : ({ network with locked := [event] } : Network).find event with
      | error fault => simp [found, Except.map, bind, Except.bind] at done
      | ok shared =>
          simp only [found, bind, Except.bind] at done
          split at done
          · cases done
            exact (unlock_locked valid event).symm ▸ valid
          · split at done
            · cases done
              exact unlock_locked (valid.update event) event ▸ valid.update event
            · cases done
              exact (unlock_locked valid event).symm ▸ valid

theorem valid_of_reachable (reachable : system.Reachable network) : network.Valid := by
  refine reachable.invariant ?_ ?_
  · intro network start
    subst start
    exact ⟨fun event dep member => (nomatch member), rfl⟩
  · intro network label after _ valid moved
    exact valid.step (Except.toOption_eq_some.mp moved)

/-- However the events came about, their dependencies have no cycle; a signal
returns, without a deadlock, and marks what it reaches through events that were
not signalled; `any` is signalled if a listed event is. -/
theorem signal_reaches_dependents (reachable : system.Reachable network) :
    (∀ event, ¬Relation.TransGen (fun event dep => dep ∈ network.deps event) event event) ∧
      (∀ event < network.shared.length, ∃ after,
        (∀ fuel ≥ network.shared.length, network.signal fuel event = .ok after) ∧
          after.locked = [] ∧ after.shape = network.shape ∧
          ∀ other, after.isSignalled other = true ↔ network.isSignalled other = true ∨
            Path (fun event dep => dep ∈ network.deps event) (network.isSignalled · = true) event other) ∧
      ∀ mode list, (∀ event ∈ list, event < network.shared.length) → ∃ after,
        network.any mode list = .ok (network.shared.length, after) ∧
          (after.isSignalled network.shared.length = true ↔ ∃ event ∈ list, network.isSignalled event = true) := by
  have valid := valid_of_reachable reachable
  refine ⟨valid.ordered.acyclic, ?_, ?_⟩
  · intro event present
    obtain ⟨after, returned, passes, still⟩ := valid.signal present
    exact ⟨after, returned, still.unlocked, passes.shape, passes.spread.marked_iff⟩
  · intro mode list existing
    obtain ⟨after, called, _, found⟩ := valid.any mode existing
    exact ⟨after, called, found⟩

/-- A diamond below the first event, whose second side hangs on it twice, and
an unrelated signal that is cleared again. -/
theorem signal_reaches_dependents_diamond : ∃ network after : Network,
    network.deps 0 = [2, 3, 3] ∧ network.signal 5 0 = .ok after ∧ after.isSignalled 4 = true ∧
      after.isSignalled 1 = false := by
  obtain ⟨network, reachable, seen⟩ := System.reachable_of_replay (· = ({} : Network))
    (fun network label => (network.step label).toOption) rfl
    [.construct .manual false, .construct .auto true, .any .auto [0, 1], .any .manual [0, 0], .any .auto [2, 3],
      .clear 2, .clear 4, .test 1]
    (fun network => decide (network.shared.length = 5 ∧ network.deps 0 = [2, 3, 3] ∧ network.deps 2 = [4] ∧
      ∀ event ∈ List.range 5, network.isSignalled event = false ∧ 1 ∉ network.deps event)) (by decide +kernel)
  obtain ⟨size, first, second, quiet⟩ := of_decide_eq_true seen
  simp only [List.mem_range] at quiet
  obtain ⟨_, signals, _⟩ := signal_reaches_dependents reachable
  obtain ⟨after, returned, _, _, marks⟩ := signals 0 (by omega)
  have unmarked : ∀ event < 5, ¬network.isSignalled event = true := fun event known => by simp [(quiet event known).1]
  refine ⟨network, after, first, returned 5 (by omega), ?_, ?_⟩
  · have left : Path (fun event dep => dep ∈ network.deps event) (network.isSignalled · = true) 0 2 :=
      .next (.here (unmarked 0 (by decide))) (by simp [first]) (unmarked 2 (by decide))
    exact (marks 4).mpr (.inr (left.next (by simp [second]) (unmarked 4 (by decide))))
  · apply Bool.eq_false_iff.mpr
    intro marked
    rcases (marks 1).mp marked with known | path
    · exact unmarked 1 (by decide) known
    · cases path with
      | @next vertex _ _ link _ =>
          have present : vertex < 5 := by
            by_contra beyond
            simp [deps, List.getElem?_eq_none (show network.shared.length ≤ vertex by omega)] at link
          exact (quiet vertex present).2 link

end Network

end MiniMarl.Event
