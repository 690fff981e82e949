import Uvent.Lib.BitField
import Uvent.Lib.BitSmear
import Uvent.Lib.Lap
import Uvent.Lib.SwapPop
import Uvent.Net.StateWord
import Uvent.Queue.MpmcQueue
import Uvent.Queue.MpmcConcurrent
import Uvent.Timers.TimerWheel
import Uvent.Timers.Buckets
import Uvent.Timers.Effects
import Uvent.Timers.Invariant
import Uvent.Timers.Steps
import Uvent.Timers.Runs
import Uvent.Timers.Payloads
import Uvent.Timers.Firing
import Uvent.Timers.Sweep
import Uvent.Timers.ExactFiring
import Uvent.Timers.CancelOwnership
import Uvent.Timers.Release
import Uvent.Timers.NextExpiry
import Uvent.System.Thread
import Uvent.Tasks.Cancellation
import Uvent.Tasks.Frames
import Uvent.Lib.Interleave
import Uvent.Lib.Tally
import Uvent.Lib.Links
import Uvent.Queue.IntrusiveMpsc
import Uvent.Net.OwnerForwarding
import Uvent.Net.ReferenceBooks
import Uvent.Net.ForwardingSteps
import Uvent.Net.Conservation
import Uvent.Queue.SegmentedQueue
import Uvent.Queue.SegmentedInv
import Uvent.Queue.SegmentedRuns
import Uvent.Queue.SegmentedEmpty
import Uvent.Queue.SegmentedSize
import Uvent.Pool.CrossThread
import Uvent.Tasks.Kicks
import Uvent.Pool.NoLostWake
import Uvent.Sync.WaitList
import Uvent.Sync.AsyncMutex
import Uvent.Sync.Suspension
import Uvent.Sync.SuspensionInv
import Uvent.Sync.SuspensionRuns
import Uvent.Sync.ArmedWaits
import Uvent.Sync.MutexResumption
import Uvent.Sync.ResumedOnce
import Uvent.Sync.Publication
import Uvent.Sync.Calls
import Uvent.Lib.WakeLedger
import Uvent.Timers.SharedWheel
import Uvent.Net.WaiterBooks
import Uvent.Net.LostEdge
import Uvent.Net.LateParker
import Uvent.Net.Retirement
import Uvent.Net.ConnectBalance
import Uvent.Lib.Forest
import Uvent.Tasks.JoinTree
import Uvent.Tasks.JoinCounts
import Uvent.Tasks.JoinWakes
import Uvent.Tasks.JoinRuns
import Uvent.Lib.RefCount
import Uvent.Lib.SiblingList
import Uvent.Tasks.CancelTree
import Uvent.Tasks.TreeRefs
import Uvent.Tasks.TreeLedger
import Uvent.Tasks.TreeOwners
import Uvent.Tasks.TreeLists
import Uvent.Tasks.TreeWalks
import Uvent.Tasks.TreeWaits
import Uvent.Tasks.TreeRuns
import Uvent.Lib.Custody
import Uvent.Reclaim.Qsbr
import Uvent.Reclaim.QsbrRecords
import Uvent.Reclaim.QsbrBooks
import Uvent.Reclaim.GracePeriod
import Uvent.Reclaim.PollBatch
import Uvent.Reclaim.Hazard
import Uvent.Reclaim.HazardRecords
import Uvent.Reclaim.HazardBooks
import Uvent.Reclaim.HazardCover
import Uvent.Reclaim.HazardRuns
import Uvent.System.Drain
import Uvent.System.DrainRuns
import Uvent.Net.MultishotOp
import Uvent.Net.MultishotRecv
import Uvent.Net.ByteOrder
import Uvent.Net.RecvReferences
import Uvent.Net.HappyEyeballs
import Uvent.Net.HappyCounts
import Uvent.Net.HappyRace
import Uvent.Queue.Recycling
import Uvent.Queue.RecyclingOrder
import Uvent.Reclaim.HazardFrames
import Uvent.Queue.RecyclingMemory
import Uvent.Queue.RecyclingRuns
import Uvent.Queue.RecycledInUse
import Uvent.Timers.Termination
import Uvent.Timers.LazyMinimum
import Uvent.Timers.Sleep
import Uvent.Lib.RingBuffer
import Uvent.Queue.FastQueue
import Uvent.Queue.FastQueueList
import Uvent.Sync.AsyncBarrier
import Uvent.Sync.WaitGroup
import Uvent.Sync.BarrierPhases
import Uvent.Net.HangUp
import Uvent.Pool.TicketLock
import Uvent.Pool.TicketRuns
import Uvent.Net.DynamicBuffer
import Uvent.Net.ReadLoops
import Uvent.Queue.RecyclingFrames
import Uvent.Queue.SizeCalls
import Uvent.Queue.SizeInUse
import Uvent.Array.Locate
import Uvent.Array.LockFreeVector
import Uvent.Net.BufferCalls
import Uvent.Net.SegmentRuns
import Uvent.Net.WeaveTail
import Uvent.Array.Publication
import Uvent.Array.Handover
import Uvent.Array.VectorCalls
import Uvent.Array.VectorSequences
import Uvent.Sync.SuspensionShifts
import Uvent.Sync.WakeLines
import Uvent.Sync.CallSeats
import Uvent.Sync.SemaphoreWakes
import Uvent.Sync.Semaphore
import Uvent.Sync.Latches
import Uvent.Lib.PlaceAccounts
import Uvent.Queue.MpmcPlaces
import Uvent.Queue.SegmentedPlaces
import Uvent.Sync.ChannelAccounts
import Uvent.Sync.ChannelDrained
import Uvent.Lib.CallStack
import Uvent.Tasks.AwaitChains
