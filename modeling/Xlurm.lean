import Xlurm.Ledger.Basic
import Xlurm.Os.System
import Xlurm.Prog.Safe
import Xlurm.Ledger.Inv
import Xlurm.Refine.Contract
import Xlurm.Refine.Scheduler
import Xlurm.Model.Allocation
import Xlurm.Refine.Tick
import Xlurm.Refine.Daemon
import Xlurm.Refine.Worker
import Xlurm.Refine.Interference
import Xlurm.Refine.Executor
import Xlurm.Refine.Lock
import Xlurm.Refine.Handlers
import Xlurm.Refine.System
import Xlurm.Ledger.History
import Xlurm.Theorems.Cancellation
import Xlurm.Theorems.Exclusivity
import Xlurm.Ledger.Kept
import Xlurm.Ledger.Orphan
import Xlurm.Theorems.AtMostOnce
import Xlurm.Prog.Oracle
import Xlurm.Theorems.Accepted
import Xlurm.Theorems.Ghosts
import Xlurm.Theorems.Errors
import Xlurm.Theorems.Results
import Xlurm.Run.Tick
import Xlurm.Theorems.LifeCycle
import Xlurm.Theorems.Greedy
import Xlurm.Prog.Lockstep
import Xlurm.Theorems.Privacy
import Xlurm.Theorems.Allocation
import Xlurm.Theorems.Exclusions
import Xlurm.Theorems.Runnable
import Xlurm.Json.Codec
import Xlurm.Json.Format
import Xlurm.Model.Protocol
import Xlurm.Model.Wire
import Xlurm.Theorems.Wire
import Xlurm.Json.Size
import Xlurm.Model.Sizes
import Xlurm.Theorems.Bounded
import Xlurm.Theorems.Sizes
import Xlurm.Files.Replace
import Xlurm.Theorems.AtomicFiles
import Xlurm.Theorems.Artifacts
import Xlurm.Ledger.Peers
import Xlurm.Theorems.Integrity
import Xlurm.Ledger.Leaving
import Xlurm.Os.Clean
import Xlurm.Refine.Clean
import Xlurm.Theorems.Maintenance
import Xlurm.Refine.Spool
import Xlurm.Theorems.Cleanup
import Xlurm.Theorems.Info
import Xlurm.Theorems.Supervision
import Xlurm.Device.Ascend
import Xlurm.Device.Handles
import Xlurm.Device.Hcu
import Xlurm.Theorems.Monitors
import Xlurm.Device.Inventory
import Xlurm.Theorems.Refresh
import Xlurm.Theorems.Health
import Xlurm.Theorems.Nvidia
import Xlurm.Theorems.Chips
import Xlurm.Theorems.Names
import Xlurm.Theorems.Visibility
import Xlurm.Os.Client
import Xlurm.Ledger.Over
import Xlurm.Refine.Log
import Xlurm.Refine.Serving
import Xlurm.Theorems.Output
import Xlurm.Model.Cli
import Xlurm.Theorems.Queue
import Xlurm.Os.Host
import Xlurm.Os.Machine
import Xlurm.Refine.Processes
import Xlurm.Refine.Serve
import Xlurm.Refine.Machine
import Xlurm.Refine.Answers
import Xlurm.Refine.Clients
import Xlurm.Theorems.Daemons
import Xlurm.Unix.Cred
import Xlurm.Unix.Forest
import Xlurm.Os.Payload
import Xlurm.Refine.Payload
import Xlurm.Refine.Group
import Xlurm.Refine.Watcher
import Xlurm.Theorems.Payload
import Xlurm.Theorems.Progress
import Xlurm.Os.Home
import Xlurm.Theorems.Home
import Xlurm.Model.Sizes
import Xlurm.Theorems.Bounded
