import AdvCppTP.Pipe.RoundTrip
import AdvCppTP.Pipe.Failures
import AdvCppTP.Pipe.Dialogue
import AdvCppTP.Coroutine.Create
import AdvCppTP.Shmem.Exclusion
import AdvCppTP.Descriptor.Ownership
import AdvCppTP.Http.Framing
import AdvCppTP.Http.Pipelining
import AdvCppTP.Http.QueryParams
import AdvCppTP.Http.ConnectionRead
import AdvCppTP.Http.Containment
import AdvCppTP.Http.Sweep
import AdvCppTP.Http.Dispatch
import AdvCppTP.Http.BodySlice
import AdvCppTP.Http.HeadSplit
import AdvCppTP.Http.Rendering
import AdvCppTP.Http.QueryReference
import AdvCppTP.Http.DecodeUrl
import AdvCppTP.Http.Positions
import AdvCppTP.Http.ContentLength
import AdvCppTP.Http.ClosedPeer
import AdvCppTP.Http.ResponseHeaders
import AdvCppTP.Http.Sending
import AdvCppTP.KVReader.FileGenerator
import AdvCppTP.KVReader.ForwardReader
import AdvCppTP.KVReader.WindowRequests
import AdvCppTP.KVReader.RandomWriter
import AdvCppTP.KVReader.IndexMaker
import AdvCppTP.Tcp.ConnectionTable
import AdvCppTP.Coroutine.Acts
import AdvCppTP.Coroutine.Completion
import AdvCppTP.Http.Expiry
import AdvCppTP.Http.Registration
import AdvCppTP.Http.Accepting
import AdvCppTP.Http.Segments
import AdvCppTP.Http.Workers
import AdvCppTP.Shmem.FailedCalls
import AdvCppTP.Shmem.FreeSpace
import AdvCppTP.Shmem.Grants
import AdvCppTP.Shmem.Interruption
import AdvCppTP.Shmem.Mappings
import AdvCppTP.Shmem.Linear
import AdvCppTP.Tcp.Deletion
import AdvCppTP.Tcp.Peers
import AdvCppTP.Tcp.ExactTransfers
import AdvCppTP.Tcp.EchoTraffic
import AdvCppTP.Tcp.EchoClient
import AdvCppTP.Http.Connect
import AdvCppTP.Logger.FileLogger
import AdvCppTP.Logger.Threads
import AdvCppTP.Process.ParseParams
import AdvCppTP.Process.Family
import AdvCppTP.Process.Transfers
