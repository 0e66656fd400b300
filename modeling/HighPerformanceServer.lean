import HighPerformanceServer.RequestLine
import HighPerformanceServer.HeaderCuts
import HighPerformanceServer.HeaderPrint
import HighPerformanceServer.PostBody
import HighPerformanceServer.ThreadpoolRuns
import HighPerformanceServer.ThreadpoolReturns
import HighPerformanceServer.ThreadPoolQueue
import HighPerformanceServer.ThreadPoolShutdown
import HighPerformanceServer.Threads
import HighPerformanceServer.UseAfterFree
import HighPerformanceServer.Listening
import HighPerformanceServer.Ownership
import HighPerformanceServer.ClosedPeer
import HighPerformanceServer.Announce
import HighPerformanceServer.Transfers
import HighPerformanceServer.FileSize
import HighPerformanceServer.RequestLineSound
import HighPerformanceServer.RequestTarget
import HighPerformanceServer.HeaderBreaks
import HighPerformanceServer.HeaderEnds
import HighPerformanceServer.Sweep
import HighPerformanceServer.HeaderCase
import HighPerformanceServer.ThreadpoolAtomic
import HighPerformanceServer.ThreadPoolTruth
import HighPerformanceServer.ThreadPoolCreate
import HighPerformanceServer.MutexLock
import HighPerformanceServer.GetLine
import HighPerformanceServer.HeaderSlices
import HighPerformanceServer.Poolless
import HighPerformanceServer.ThreadPoolProgress
import HighPerformanceServer.ThreadpoolWakeups
import HighPerformanceServer.ThreadpoolDrain
import HighPerformanceServer.Placement
import HighPerformanceServer.Program
import HighPerformanceServer.Serialized
import HighPerformanceServer.Conversation
import HighPerformanceServer.Descriptors
import HighPerformanceServer.ThreadpoolSections
import HighPerformanceServer.Expiry
import HighPerformanceServer.ProgramProgress
import HighPerformanceServer.Quiescence
import HighPerformanceServer.ClientStream
import HighPerformanceServer.Crashes
