import MiniMarl.Transition
import MiniMarl.Progress
import MiniMarl.Data.Fallible
import MiniMarl.Data.OrderedSet
import MiniMarl.Data.Counting
import MiniMarl.Data.Marking
import MiniMarl.Data.Memory
import MiniMarl.Data.Arena
import MiniMarl.Data.Chain
import MiniMarl.WaitingFibers
import MiniMarl.Worker.State
import MiniMarl.Worker.Step
import MiniMarl.Worker.Invariant
import MiniMarl.Worker.Switching
import MiniMarl.Worker.Preservation
import MiniMarl.Worker.Effect
import MiniMarl.Worker.Reachable
import MiniMarl.Worker.Ledger
import MiniMarl.Worker.Drain
import MiniMarl.Worker.Sleep
import MiniMarl.Worker.LateNotify
import MiniMarl.Worker.Stacks
import MiniMarl.Worker.Progress
import MiniMarl.Scheduler.Step
import MiniMarl.Scheduler.Change
import MiniMarl.Scheduler.Conservation
import MiniMarl.Scheduler.Shutdown
import MiniMarl.Scheduler.Destruction
import MiniMarl.Scheduler.Indices
import MiniMarl.Scheduler.Binding
import MiniMarl.Scheduler.Unbinding
import MiniMarl.Scheduler.Progress
import MiniMarl.Scheduler.Joining
import MiniMarl.Dag.Builder
import MiniMarl.Dag.Graph
import MiniMarl.Dag.Run
import MiniMarl.Dag.Accounting
import MiniMarl.Dag.Invariant
import MiniMarl.Dag.Execution
import MiniMarl.ConditionVariable.Step
import MiniMarl.ConditionVariable.Invariant
import MiniMarl.ConditionVariable.Locks
import MiniMarl.ConditionVariable.Wakeup
import MiniMarl.ConditionVariable.Progress
import MiniMarl.ConditionVariable.Outcome
import MiniMarl.ConditionVariable.TimedWait
import MiniMarl.WaitGroup
import MiniMarl.WaitGroup.Progress
import MiniMarl.WaitGroup.Underflow
import MiniMarl.Parallelize
import MiniMarl.ConditionVariable.Monitor
import MiniMarl.ConditionVariable.NotifyOne
import MiniMarl.ConditionVariable.Guarded
import MiniMarl.ConditionVariable.Refinement
import MiniMarl.ConditionVariable.Simulation
import MiniMarl.ConditionVariable.WholeCalls
import MiniMarl.Event.Step
import MiniMarl.Event.AutoReset
import MiniMarl.Event.Deadline
import MiniMarl.Event.Any
import MiniMarl.OSFiber.Machine
import MiniMarl.OSFiber.Isolation
import MiniMarl.OSFiber.InitialStack
import MiniMarl.Allocator.Default
import MiniMarl.Allocator.Clients
import MiniMarl.Allocator.Layout
import MiniMarl.Allocator.MaxSize
import MiniMarl.Allocator.MakeUnique
import MiniMarl.Allocator.Tracked
import MiniMarl.Containers.Vector
import MiniMarl.Containers.VectorSpec
import MiniMarl.Containers.VectorAssign
import MiniMarl.Containers.VectorPool
import MiniMarl.Containers.List
import MiniMarl.Containers.ListSpec
import MiniMarl.Worker.Timeouts
import MiniMarl.Thread.Affinity
import MiniMarl.Thread.Mask
import MiniMarl.Thread.Union
