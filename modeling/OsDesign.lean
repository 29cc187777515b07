import OsDesign.Lib.Loops
import OsDesign.Lib.BitField
import OsDesign.Lib.ByteStore
import OsDesign.Lib.Runs
import OsDesign.Lib.Tally
import OsDesign.Lib.TailQueue
import OsDesign.Virt.PageTable
import OsDesign.Virt.Memory
import OsDesign.Virt.Frames
import OsDesign.Virt.Slots
import OsDesign.Virt.Switching
import OsDesign.Virt.Process
import OsDesign.Virt.PrivateMemory
import OsDesign.Virt.Observation
import OsDesign.Virt.LastByte
import OsDesign.Pthread.Queues
import OsDesign.Pthread.Release
import OsDesign.Pthread.Calls
import OsDesign.Pthread.Sched
import OsDesign.Pthread.Simulation
import OsDesign.Code.Library
import OsDesign.Pthread.Joiners
import OsDesign.Pthread.Ledger
import OsDesign.Pthread.Handles
import OsDesign.Pthread.Alone
import OsDesign.Pthread.Exclusion
import OsDesign.Pthread.Joining
import OsDesign.Pthread.Accounting
import OsDesign.Lib.CountedLock
import OsDesign.Preempt.Machine
import OsDesign.Preempt.Seats
import OsDesign.Preempt.Stages
import OsDesign.Preempt.Steps
import OsDesign.Preempt.Interleavings
import OsDesign.Preempt.Sharing
import OsDesign.Preempt.Waking
import OsDesign.Lib.Fifo
import OsDesign.Pthread.Dispatch
import OsDesign.Pthread.Ending
import OsDesign.Shm.Pages
import OsDesign.Shm.Allocations
import OsDesign.Virt.SlotConservation
import OsDesign.Virt.FrameInvariant
import OsDesign.Virt.Isolation
import OsDesign.Heap.Metadata
import OsDesign.Heap.Records
import OsDesign.Heap.Trunk
import OsDesign.Code.PerThreadHeap
import OsDesign.Heap.MyMalloc
import OsDesign.Heap.Trunks
import OsDesign.Heap.TrunkLayout
import OsDesign.Heap.HeapRuns
import OsDesign.Timer.Machine
import OsDesign.Timer.Spinlock
import OsDesign.Timer.Deadlock
import OsDesign.Timer.Threads
import OsDesign.Timer.Places
import OsDesign.Timer.Current
import OsDesign.Timer.Dequeue
import OsDesign.Alloc.Machine
import OsDesign.Alloc.Windows
import OsDesign.Alloc.Handles
import OsDesign.Alloc.Frames
import OsDesign.Alloc.FrameSteps
import OsDesign.Alloc.Eviction
import OsDesign.Alloc.Threads
import OsDesign.Alloc.Exclusive
import OsDesign.Alloc.Collisions
import OsDesign.Heap.LiveSlots
import OsDesign.Heap.FailedMalloc
import OsDesign.Virt.ThreadPages
import OsDesign.Heap.RecordHeap
import OsDesign.Heap.FreedRecords
import OsDesign.Heap.RecordCalls
import OsDesign.Heap.FirstFit
import OsDesign.Virt.Exhaustion
import OsDesign.Heap.RecordRuns
import OsDesign.Heap.WindowRecords
import OsDesign.Heap.WindowCalls
import OsDesign.Heap.FreeRuns
import OsDesign.Virt.FaultService
import OsDesign.Lib.Arrivals
import OsDesign.Pthread.WakingOrder
import OsDesign.Pthread.Refusals
import OsDesign.Pthread.FullTable
import OsDesign.Shm.RoundTrip
import OsDesign.Virt.EntryStates
import OsDesign.Lib.BlockStore
import OsDesign.Virt.SwapStore
import OsDesign.Shm.SizeRange
import OsDesign.Shm.Accesses
import OsDesign.Shm.AccessRuns
import OsDesign.Code.Creation
import OsDesign.Code.Publication
import OsDesign.Code.HeapReclaim
import OsDesign.Lib.Outcome
import OsDesign.Virt.Pointers
import OsDesign.Heap.Pointers
import OsDesign.Whole.State
import OsDesign.Pthread.NullCalls
import OsDesign.Whole.Served
import OsDesign.Whole.NullCurrent
import OsDesign.Lib.TwoRuns
import OsDesign.Pthread.Paging
import OsDesign.Pthread.StaleMu
import OsDesign.Whole.Contents
import OsDesign.Virt.OwnPages
import OsDesign.Heap.OwnHeap
import OsDesign.Heap.OwnCalls
import OsDesign.Heap.OwnBlocks
import OsDesign.Lib.Ideals
import OsDesign.Whole.Ideal
import OsDesign.Whole.Shows
import OsDesign.Whole.SideBySide
import OsDesign.Whole.Tracked
import OsDesign.Code.Lists
import OsDesign.Code.Versions
import OsDesign.Lib.LockedSum
import OsDesign.Benchmark.Machine
import OsDesign.Benchmark.Standing
import OsDesign.Benchmark.Statements
import OsDesign.Benchmark.Ending
import OsDesign.Benchmark.MainThread
import OsDesign.Benchmark.Runs
import OsDesign.Benchmark.VectorMultiply
import OsDesign.Benchmark.ExternalCal
import OsDesign.Benchmark.IdealLock
import OsDesign.Lib.Strides
import OsDesign.Lib.Projection
import OsDesign.Code.OwnRuns
import OsDesign.Lib.CString
import OsDesign.Lib.Clients
import OsDesign.Heap.SingleTrunk
import OsDesign.Test.Program
import OsDesign.Test.Threads
import OsDesign.Test.Library
import OsDesign.Test.Standing
import OsDesign.Test.MainThread
import OsDesign.Test.Runs
