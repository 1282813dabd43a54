import Aesd.Foundations.Machine
import Aesd.Foundations.Mutex
import Aesd.Foundations.Atomicity
import Aesd.Foundations.Variant
import Aesd.Foundations.Waiting
import Aesd.Foundations.Custody
import Aesd.Foundations.RingWindow
import Aesd.Foundations.Segments
import Aesd.Foundations.BlockHeap
import Aesd.Foundations.BlockLedger
import Aesd.Foundations.LineJournal
import Aesd.Foundations.LineSplitting
import Aesd.Driver.CircularBuffer
import Aesd.Driver.RingQueue
import Aesd.Driver.KernelMemory
import Aesd.Driver.CharDevice
import Aesd.Driver.DeviceView
import Aesd.Driver.WriteRefinement
import Aesd.Driver.DeviceRuns
import Aesd.Driver.DeviceJournal
import Aesd.Driver.StreamLaw
import Aesd.Driver.Splitting
import Aesd.Driver.MemorySafety
import Aesd.Driver.BlockOwnership
import Aesd.Driver.Disclosure
import Aesd.Driver.Lookup
import Aesd.Driver.Draining
import Aesd.Driver.Unloading
import Aesd.Driver.FailedWrites
import Aesd.Driver.UserFaults
import Aesd.Driver.CallStatements
import Aesd.Driver.LockDiscipline
import Aesd.Driver.Serialization
import Aesd.Driver.Specification
import Aesd.Driver.Progress
import Aesd.Server.Process
import Aesd.Server.ReceiveLoop
import Aesd.Server.ReadFile
import Aesd.Server.ThreadCallback
import Aesd.Server.DeviceSessions
import Aesd.Server.FileSessions
import Aesd.Server.SharedDevice
import Aesd.Server.Restarts
import Aesd.Server.ShortReads
import Aesd.Server.Disconnects
import Aesd.Server.ByteAccounting
import Aesd.Server.LengthBounds
import Aesd.Server.Threads
import Aesd.Server.Statements
import Aesd.Server.Moves
import Aesd.Server.Interleaving
import Aesd.Server.TimerDeadlock
import Aesd.Server.SessionCalls
import Aesd.Server.Interference
import Aesd.Server.Isolation
import Aesd.Server.ReceiveBuffer
import Aesd.Server.BufferSharing
import Aesd.Server.Reaping
import Aesd.Server.Shutdown
import Aesd.Server.Descriptors
import Aesd.Server.Waiting
import Aesd.Server.Accepting
import Aesd.Server.HeapLedger
import Aesd.Server.DescriptorLedger
import Aesd.Server.Hosting
import Aesd.Server.SessionRest
import Aesd.Server.SerialSessions
import Aesd.Server.SessionPackets
import Aesd.Server.InterleavedDevice
import Aesd.Server.Ticking
import Aesd.Server.TickedSessions
import Aesd.Server.InterleavedFile
import Aesd.Threading.Threadfunc
import Aesd.Threading.MutexRelease
import Aesd.Threading.Completion
import Aesd.Threading.LostMutex
import Aesd.Systemcalls.Runners
import Aesd.Systemcalls.Redirection
