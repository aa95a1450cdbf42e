/-
  Xlurm.Model.Daemon

  `daemon.rs` and `auth.rs`: authorization, `handle` with its ten request kinds,
  and the operations of the main loop in `serve`.

  `euid` is the daemon's effective uid.  `uid` and `gid` are what the kernel
  reports about the peer.  A response is sent, and may fail to be sent, after
  the request took effect; sending is the ghost event `answered`.
-/

import Xlurm.Model.Scheduler

namespace Xlurm

open Prog.Comp (call get modify throw attempt lift ensure)

/-- `auth::authorize`. -/
def authorize (uid : Nat) (owner : Owner) : Sched Unit :=
  ensure (uid = 0 ∨ uid = owner.uid)
    s!"permission denied: job belongs to {owner.name} (UID {owner.uid})"

/-- The ids of the running jobs, as `handle` lists them. -/
def Store.runningIds (store : Store) : List String :=
  (store.jobs.filter (·.state = .running)).map fun job => toString job.id

/-- The arm of `handle` for `Request::Log`. -/
def handleLog (uid id offset : Nat) : Sched Response := do
  let job ← getJob id
  authorize uid job.owner
  match ← call (Call.openLog id) with
  | .ok => do
      let bytes ← lift (← call (.readLog id offset (64 * 1024)))
      return .log bytes (offset + bytes.length)
  | .notFound => return .log [] offset
  | .error e => throw e

/-- The arm of `handle` for `Request::Exclude` and `Request::Include`. -/
def handleExclude (euid uid : Nat) (ids : List Nat) (excluded : Bool) : Sched Response := do
  ensure (uid = 0 ∨ uid = euid) "only the administrator may exclude or include devices"
  ensure (ids ≠ []) "device IDs must not be empty"
  setDevicesExcluded ids excluded
  return .ok

def handle (euid uid gid : Nat) : Request → Sched Response
  | .submit spec => do
      ensure (euid = 0 ∨ uid = euid) "only a root daemon can run jobs for other users"
      let owner ← lift (Owner.account uid gid (← call (.account uid gid)))
      let job ← submit spec owner
      return .job job
  | .queue => do
      let s ← get
      return .queue (s.store.jobs.map JobSummary.from)
  | .get id => do
      let job ← getJob id
      authorize uid job.owner
      return .job job
  | .cancel id => do
      let job ← getJob id
      authorize uid job.owner
      cancel id
      return .ok
  | .log id offset => handleLog uid id offset
  | .info => do
      let s ← get
      return .info s.info
  | .exclude ids => handleExclude euid uid ids true
  | .include ids => handleExclude euid uid ids false
  | .stop => do
      ensure (uid = 0 ∨ uid = euid) "only the administrator may stop or restart the scheduler"
      return .ok
  | .restart => do
      ensure (uid = 0 ∨ uid = euid) "only the administrator may stop or restart the scheduler"
      let s ← get
      ensure (s.store.runningIds = [])
        ("cannot restart while jobs are running: " ++ ", ".intercalate s.store.runningIds)
      return .ok

/-! ## The main loop -/

def note (event : Event) : Sched Unit := call (Call.note event)

/-- Whether `serve` goes on or returns. -/
inductive Next
  | loop
  | stop
  deriving DecidableEq

/-- `matches!(request, Request::Stop | Request::Restart)`. -/
def Request.stops : Request → Bool
  | stop | restart => true
  | _ => false

/-- The response that `serve` sends for the result of `handle`. -/
def Response.ofResult : Except Error Response → Response
  | .ok response => response
  | .error e => .error e

/-- The response to the request of an accepted connection in `serve`, and what follows. -/
def serveAnswer (euid uid gid : Nat) (request : Request) : Sched (Response × Next) := do
  let before ← get
  let response := Response.ofResult (← attempt (handle euid uid gid request))
  let after ← get
  note (.answered uid gid request response before.store after.store)
  return (response, if request.stops && response = .ok then .stop else .loop)

/-- One accepted connection of the request loop in `serve`. -/
def serveRequest (euid uid gid : Nat) (request : Request) : Sched Next := do
  let (_, next) ← serveAnswer euid uid gid request
  return next

def serveTick : Sched Unit := do
  tick
  note .ticked

/-- `if let Err(error) = scheduler.cleanup(now()) { eprintln!(…) }`. -/
def serveCleanup : Sched Unit := do
  let now ← call .now
  let s ← get
  note (.cleaning now s.store)
  let _ ← attempt (cleanup now)
  return ()

/-- One operation of the main loop; an error ends `serve`. -/
def serveOp (euid : Nat) (op : Op) : Sched Next := do
  let s ← get
  note (.began op s.store)
  match op with
  | .request uid gid request => serveRequest euid uid gid request
  | .tick => do
      serveTick
      return .loop
  | .cleanup => do
      serveCleanup
      return .loop
  | .refresh status monitoringErrors => do
      modify fun s => { s with inventory := { s.inventory with status, monitoringErrors } }
      return .loop

/-- A request of the main loop, with its response. -/
def answerOp (euid uid gid : Nat) (request : Request) : Sched (Response × Next) := do
  let s ← get
  note (.began (.request uid gid request) s.store)
  serveAnswer euid uid gid request

/-- `serve` after `Scheduler::new`, up to its main loop. -/
def serveStart (excluded : List Nat) : Sched Next := do
  excludeDevices excluded
  let s ← get
  note (.began .tick s.store)
  serveTick
  serveCleanup
  return .loop

/-- The main loop of `serve` over these operations; it ends with the first error and
    after an accepted `Stop` or `Restart`. -/
def serveLoop (euid : Nat) : List Op → Sched Next
  | [] => return .loop
  | op :: rest => do
      match ← serveOp euid op with
      | .loop => serveLoop euid rest
      | .stop => return .stop

/-- `serve` after `Scheduler::new`. -/
def serve (euid : Nat) (excluded : List Nat) (ops : List Op) : Sched Next := do
  match ← serveStart excluded with
  | .loop => serveLoop euid ops
  | .stop => return .stop

end Xlurm
