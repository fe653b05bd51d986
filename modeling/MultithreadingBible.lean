import MultithreadingBible.Lib.CondVar
import MultithreadingBible.GlueThread.Represent
import MultithreadingBible.CrudMgr.Lifecycle
import MultithreadingBible.CrudMgr.Requests
import MultithreadingBible.CrudMgr.Decisions
import MultithreadingBible.CrudMgr.NodeMachine
import MultithreadingBible.CrudMgr.Counted
import MultithreadingBible.CrudMgr.NodeInvariant
import MultithreadingBible.CrudMgr.ReadersWriters
import MultithreadingBible.CrudMgr.DeferredDelete
import MultithreadingBible.CrudMgr.ManyReaders
import MultithreadingBible.CrudMgr.Effects
import MultithreadingBible.CrudMgr.MgrMachine
import MultithreadingBible.RwLocks.Exclusion
import MultithreadingBible.RwLocks.NeutralWakeUps
import MultithreadingBible.AltLock.Alternation
import MultithreadingBible.AltLock.Bridge
import MultithreadingBible.RecLocks.RwLockRefinement
import MultithreadingBible.RecLocks.Mutex
import MultithreadingBible.Monitors.Exclusion
import MultithreadingBible.Lib.Ring
import MultithreadingBible.ThreadLib.Barrier
import MultithreadingBible.ThreadLib.BarrierRounds
import MultithreadingBible.ThreadLib.WaitQueue
import MultithreadingBible.ThreadLib.WaitQueueSignals
import MultithreadingBible.ThreadLib.Monitor
import MultithreadingBible.ThreadLib.MonitorSafety
import MultithreadingBible.ThreadLib.MonitorProgress
import MultithreadingBible.ThreadLib.MonitorLifecycle
import MultithreadingBible.ThreadLib.ThreadPool
import MultithreadingBible.ThreadLib.ThreadPoolCompletion
import MultithreadingBible.ThreadLib.ThreadPoolRuns
import MultithreadingBible.ThreadLib.ThreadPoolHandshake
import MultithreadingBible.CrudMgr.MgrLists
import MultithreadingBible.CrudMgr.MgrWakeUps
import MultithreadingBible.CrudMgr.MgrCounted
import MultithreadingBible.CrudMgr.MgrExclusive
import MultithreadingBible.CrudMgr.MgrRelease
import MultithreadingBible.ThreadLib.FifoQueue
import MultithreadingBible.ThreadLib.AssemblyLine
import MultithreadingBible.ThreadLib.AssemblyLineRuns
import MultithreadingBible.AssemblyLine.Pipeline
import MultithreadingBible.AssemblyLine.Flow
import MultithreadingBible.AssemblyLine.Queues
import MultithreadingBible.AssemblyLine.Conservation
import MultithreadingBible.AssemblyLine.Drain
import MultithreadingBible.Lib.RwLock
import MultithreadingBible.Lib.Scripts
import MultithreadingBible.StudentCrud.StudentList
import MultithreadingBible.StudentCrud.Machine
import MultithreadingBible.Lib.RefCounted
import MultithreadingBible.StudentCrud.Moves
import MultithreadingBible.StudentCrud.Locks
import MultithreadingBible.StudentCrud.Counting
import MultithreadingBible.StudentCrud.Safety
import MultithreadingBible.StudentCrud.WrapAround
import MultithreadingBible.CovidCenter.Machine
import MultithreadingBible.CovidCenter.Waiting
import MultithreadingBible.DiningPhilosophers.Machine
import MultithreadingBible.DiningPhilosophers.Spoons
import MultithreadingBible.DiningPhilosophers.Deadlock
import MultithreadingBible.MapReduceLib.Machine
import MultithreadingBible.MapReduceLib.Session
import MultithreadingBible.ProducerConsumer.Queue
import MultithreadingBible.ProducerConsumer.Completion
import MultithreadingBible.ProducerConsumer.FullOrEmpty
import MultithreadingBible.Semaphores.Sema
import MultithreadingBible.FifoWaitQueue.Machine
import MultithreadingBible.FifoWaitQueue.Order
import MultithreadingBible.FifoWaitQueue.Release
import MultithreadingBible.TrafficLight.Machine
import MultithreadingBible.TrafficLight.RedLight
import MultithreadingBible.Lib.Bits
import MultithreadingBible.ThreadPausing.Acknowledged
import MultithreadingBible.ThreadPausing.ByFlags
import MultithreadingBible.Lib.CString
import MultithreadingBible.NotifChain.Chain
import MultithreadingBible.NotifChain.RtTable
import MultithreadingBible.NotifChain.Entries
import MultithreadingBible.NotifChain.Represent
import MultithreadingBible.NotifChain.Operations
import MultithreadingBible.NotifChain.Notified
import MultithreadingBible.Lib.Recording
import MultithreadingBible.ThreadLib.MonitorAlternation
import MultithreadingBible.ThreadLib.BarrierEarly
import MultithreadingBible.RwLocks.Reconfigure
import MultithreadingBible.RecLocks.RwLockWakeUps
import MultithreadingBible.RecLocks.MutexWakeUps
import MultithreadingBible.AltLock.Turns
import MultithreadingBible.CovidCenter.Capacity
import MultithreadingBible.AssemblyLine.Teardown
import MultithreadingBible.ThreadLib.AssemblyLineCycles
import MultithreadingBible.ThreadLib.AssemblyLineRotation
import MultithreadingBible.MapReduceLib.Progress
import MultithreadingBible.NotifChain.Announced
import MultithreadingBible.NotifChain.RtMap
import MultithreadingBible.Tlv.Buffer
import MultithreadingBible.Tlv.Search
import MultithreadingBible.Tlv.RoundTrip
import MultithreadingBible.Lib.Segment
import MultithreadingBible.Lib.StableSort
import MultithreadingBible.ThreadLib.FifoRuns
import MultithreadingBible.GlueThread.PriorityInsert
import MultithreadingBible.LinkedList.LinkedListApi
import MultithreadingBible.LinkedList.Represent
import MultithreadingBible.LinkedList.Operations
import MultithreadingBible.LinkedList.Deletion
import MultithreadingBible.LinkedList.Sequence
import MultithreadingBible.LinkedList.Ordered
import MultithreadingBible.LinkedList.Copy
import MultithreadingBible.GlueThread.Sessions
import MultithreadingBible.Lib.Runs
import MultithreadingBible.Semaphores.StrictCounter
import MultithreadingBible.ThreadLib.EventPair
import MultithreadingBible.NotifChain.RtRaw
import MultithreadingBible.AssemblyLine.Completion
import MultithreadingBible.Lib.Clients
import MultithreadingBible.LockTests.Harness
import MultithreadingBible.LockTests.Alternating
import MultithreadingBible.LockTests.Customizable
import MultithreadingBible.LockTests.Recursive
import MultithreadingBible.ThreadLib.BarrierDemo
import MultithreadingBible.MapReduceLib.Termination
