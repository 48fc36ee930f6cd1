import Mosec.BigEndian
import Mosec.Wire
import Mosec.Protocol
import Mosec.FrameReading
import Mosec.CodecAgreement
import Mosec.FrameAccounting
import Mosec.FrameSync
import Mosec.PayloadEnd
import Mosec.Transition
import Mosec.Custody
import Mosec.Tasks
import Mosec.TaskManager
import Mosec.Handlers
import Mosec.Connection
import Mosec.System
import Mosec.Places
import Mosec.Life
import Mosec.Moves
import Mosec.Ownership
import Mosec.Runs
import Mosec.FrameLengths
import Mosec.Locality
import Mosec.Refinement
import Mosec.Lives
import Mosec.Notifying
import Mosec.Serving
import Mosec.Routing
import Mosec.Responses
import Mosec.EventDelivery
import Mosec.IdWindow
import Mosec.Deadlock
import Mosec.Stages
import Mosec.Pipeline
import Mosec.Completion
import Mosec.StageRouting
import Mosec.Keeping
import Mosec.Owing
import Mosec.Leaks
import Mosec.Masking
import Mosec.Rejection
import Mosec.Enrolment
import Mosec.Accounting
import Mosec.Gauge
import Mosec.DoublyLinked
import Mosec.SieveCache
import Mosec.Sieve
import Mosec.SieveRep
import Mosec.SieveEviction
import Mosec.SieveRefinement
import Mosec.SieveInvariant
import Mosec.Program
import Mosec.MultiModel
import Mosec.ModelAccounting
import Mosec.ModelCaching
import Mosec.ModelCalls
import Mosec.ModelServing
import Mosec.TimedCalls
import Mosec.WorkerEnv
import Mosec.Isolation
import Mosec.RedisShm
import Mosec.RedisHandOver
import Mosec.Attempts
import Mosec.PyStr
import Mosec.Coordinator
import Mosec.Replies
import Mosec.Failures
import Mosec.Streaming
import Mosec.StreamMutex
import Mosec.StreamOrder
import Mosec.Registration
import Mosec.RouteTable
import Mosec.RequestPaths
import Mosec.DryRun
import Mosec.BatchIsolation
import Mosec.ErrorEvents
import Mosec.Batching
import Mosec.Reconnect
import Mosec.StreamFaults
import Mosec.FrameCut
import Mosec.OpenApi
import Mosec.SchemaPriority
import Mosec.SchemaOrder
import Mosec.ShmService
import Mosec.ShmReferences
import Mosec.ShmAccounting
import Mosec.ShmLedger
import Mosec.Potential
import Mosec.Workload
import Mosec.Draining
import Mosec.Progress
import Mosec.Shutdown
import Mosec.Graceful
import Mosec.Supervisor
import Mosec.Supervision
import Mosec.Restarts
import Mosec.FailStop
import Mosec.Halting
import Mosec.Stopping
import Mosec.Barrier
import Mosec.Launch
import Mosec.Startup
import Mosec.StartupProgress
import Mosec.Failover
import Mosec.Spared
import Mosec.Fulfilment
import Mosec.Faultless
import Mosec.EventStream
import Mosec.StreamWire
