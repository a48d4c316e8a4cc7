import PowerArbiter.Monitor.Program
import PowerArbiter.Monitor.Threads
import PowerArbiter.Monitor.Serial
import PowerArbiter.Monitor.Run
import PowerArbiter.Monitor.Linear
import PowerArbiter.Monitor.Replay
import PowerArbiter.Monitor.Footprint
import PowerArbiter.Wire.Codec
import PowerArbiter.Wire.Talk
import PowerArbiter.Records
import PowerArbiter.Syscall
import PowerArbiter.Dbase
import PowerArbiter.Controller
import PowerArbiter.Client
import PowerArbiter.Protocol
import PowerArbiter.Sock
import PowerArbiter.Session
import PowerArbiter.Daemon
import PowerArbiter.Kernel
import PowerArbiter.Mapping
import PowerArbiter.Proofs.Dbase
import PowerArbiter.Proofs.Controller
import PowerArbiter.Proofs.Containers
import PowerArbiter.Proofs.Discipline
import PowerArbiter.Proofs.Lifecycle
import PowerArbiter.Proofs.Refinement
import PowerArbiter.Proofs.Reserves
import PowerArbiter.Proofs.Taps
import PowerArbiter.Proofs.Rates
import PowerArbiter.Proofs.Ledger
import PowerArbiter.Proofs.Handlers
import PowerArbiter.Proofs.Grants
import PowerArbiter.Proofs.Rollback
import PowerArbiter.Proofs.Addressing
import PowerArbiter.Proofs.Daemon
import PowerArbiter.Proofs.Shutdown
import PowerArbiter.Proofs.Quit
import PowerArbiter.Proofs.Pass
import PowerArbiter.Proofs.Integrity
import PowerArbiter.Proofs.Quiescence
import PowerArbiter.Proofs.Sock
import PowerArbiter.Proofs.Session
import PowerArbiter.Proofs.Framing
import PowerArbiter.Proofs.Leak
import PowerArbiter.PAController
import PowerArbiter.Proofs.Lockstep
import PowerArbiter.Service
import PowerArbiter.Proofs.Resources
import PowerArbiter.Proofs.Manners
import PowerArbiter.Proofs.Endings
import PowerArbiter.Proofs.Shadow
import PowerArbiter.Proofs.Isolation
import PowerArbiter.Proofs.Conversation
import PowerArbiter.Proofs.Atomic
import PowerArbiter.Proofs.Names
import PowerArbiter.Proofs.Causes
import PowerArbiter.Proofs.RootReserve
import PowerArbiter.Proofs.Commands
import PowerArbiter.Proofs.Transfer
import PowerArbiter.Memory.Code
import PowerArbiter.Memory.Ring
import PowerArbiter.Uthash
import PowerArbiter.Proofs.Buckets
import PowerArbiter.Proofs.Expansion
import PowerArbiter.Proofs.Uthash
import PowerArbiter.Proofs.HashRuns
import PowerArbiter.Lists
import PowerArbiter.Proofs.Lists
import PowerArbiter.Monitor.Simulation
import PowerArbiter.Storage
import PowerArbiter.Proofs.Storage
import PowerArbiter.Proofs.InMemory
import PowerArbiter.Terminal
import PowerArbiter.Proofs.Terminal
import PowerArbiter.Memory.Holdings
import PowerArbiter.Init
import PowerArbiter.Proofs.Init
import PowerArbiter.Proofs.Teardown
