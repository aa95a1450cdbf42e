/-
  Xlurm.Os.Host

  The processes that share one state directory: `serve` of `daemon.rs` as a whole
  process, from the lock to the removal of the socket, and the commands `start`
  and `restart` of `cli.rs`.

  A process issues `HostCall`s.  The system calls of the scheduler inside `serve`
  are the calls `sys`; the others are about the daemon's lock, its socket, the
  connections and the child process.

  The loops take a bound on their iterations and hang when they reach it, as in
  `worker`; the bound is chosen freely when the process starts.
-/

import Xlurm.Os.System

namespace Xlurm

open Prog.Comp (throw attempt lift ensure)

/-! ## Calls -/

/-- What `listener.accept()` returns. -/
inductive Accepted
  | client
  | wouldBlock
  | error (e : Error)

/-- The arguments of `xlurm start`; what `--backend` finds is up to `discover`. -/
structure DaemonArgs where
  maxRunning : Nat
  excludeDeviceIds : List Nat

inductive HostCall
  /-- `Paths::initialize`. -/
  | initializePaths
  /-- `try_lock` on `daemon.lock`. -/
  | tryLock
  /-- Drop the lock file. -/
  | unlock
  | installSignals
  /-- `Inventory::discover`. -/
  | discover
  /-- `Scheduler::new` with the bound of `args`, which reads `state.json` if it sees one. -/
  | newScheduler (inventory : UniqueInventory) (args : DaemonArgs)
  /-- `socket.exists()`, which is false whenever `stat` fails. -/
  | socketExists
  | removeSocket
  /-- `UnixListener::bind`. -/
  | bind
  | setPermissions
  | setNonblocking
  /-- Drop the listener. -/
  | closeListener
  | interrupted
  | accept
  | setReadTimeout
  | setWriteTimeout
  /-- `auth::peer`. -/
  | peer
  | receive
  | sendError (e : Error)
  | sendResponse (response : Response)
  /-- `refreshed.elapsed() >= Duration::from_secs(2)`. -/
  | refreshDue
  /-- `scheduler.inventory.refresh()`: the new status and monitoring errors. -/
  | refresh
  /-- `cleaned.elapsed() >= Duration::from_secs(60)`. -/
  | cleanupDue
  | poll
  /-- Ghost: the main loop begins an operation. -/
  | begin (op : Op)
  /-- A system call of the scheduler or its executor. -/
  | sys (c : Sys)
  /-- Connect, check who owns the socket, and send the request. -/
  | connect (request : Request)
  /-- Receive the response. -/
  | response
  /-- Open `daemon.log` and find the program's own file. -/
  | openDaemonLog
  | spawnDaemon (args : DaemonArgs)
  /-- `child.try_wait()`: the status of a child that has exited. -/
  | tryWait
  /-- The 45 seconds are over. -/
  | deadline
  | killChild
  | waitChild
  | print (line : String)
  | sleep
  /-- Never answered. -/
  | hang

namespace HostCall

@[reducible] def Reply : HostCall → Type
  | initializePaths | installSignals | removeSocket | bind | setPermissions | setNonblocking
  | setReadTimeout | setWriteTimeout | poll | connect _ | openDaemonLog | spawnDaemon _
  | killChild | waitChild => Except Error Unit
  | tryLock => Except Error Bool
  | tryWait => Except Error (Option String)
  | unlock | closeListener | sendError _ | sendResponse _ | begin _ | print _ | sleep => Unit
  | discover => Except Error UniqueInventory
  | newScheduler _ _ => Except Error Scheduler
  | socketExists | interrupted | refreshDue | cleanupDue | deadline => Bool
  | accept => Accepted
  | peer => Except Error (Nat × Nat)
  | receive => Except Error Request
  | refresh => (String → Option String) × (String → Option String)
  | sys c => c.Reply
  | response => Except Error Response
  | hang => Empty

end HostCall

/-- A computation of one process. -/
abbrev Host (α : Type) := Prog.Comp Unit HostCall HostCall.Reply Error α

abbrev HostProg (α : Type) := Prog Unit HostCall HostCall.Reply (Except Error α)

/-- Issue one call. -/
def host (c : HostCall) : Host c.Reply := Prog.Comp.call c

def hang {α : Type} : Host α := do
  let never ← host .hang
  nomatch never

/-! ## The daemon -/

/-- The scheduler and its executor. -/
abbrev Daemon := Scheduler × ProcessExecutor

/-- A program of the scheduler. -/
abbrev Scheduled (α : Type) := Prog Daemon Sys Sys.Reply (Except Error α)

/-- The calls of the scheduler as calls of the process; an error ends `serve`. -/
def Scheduled.inline {α : Type} : Scheduled α → HostProg (Daemon × α)
  | .ret st (.ok a) => .ret () (.ok (st, a))
  | .ret _ (.error e) => .ret () (.error e)
  | .call _ c k => .call () (.sys c) fun r => inline (k r)

/-- The operations of the scheduler as a part of `serve`. -/
def scheduled {α : Type} (prog : Scheduled α) : Host (Daemon × α) := fun _ => prog.inline

/-- The calls with which the daemon `pid` carries out an operation. -/
def opCalls (euid pid : Nat) (op : Op) (st : Daemon) : DaemonProg :=
  (serveOp euid op st.1).interp (handler pid) st.2

/-- The calls for a request, which return its response. -/
def answerCalls (euid pid uid gid : Nat) (request : Request) (st : Daemon) :
    Scheduled (Response × Next) :=
  (answerOp euid uid gid request st.1).interp (handler pid) st.2

/-- The calls of `serve` between `Scheduler::new` and its socket. -/
def bootCalls (pid : Nat) (excluded : List Nat) (s : Scheduler) : DaemonProg :=
  (serveStart excluded s).interp (handler pid) .new

/-- One operation of the main loop that is not a request. -/
def operation (euid pid : Nat) (op : Op) (st : Daemon) : Host (Daemon × Next) := do
  host (.begin op)
  scheduled (opCalls euid pid op st)

/-- Read, handle and answer the request of an accepted client. -/
def serveClient (euid pid : Nat) (st : Daemon) : Host (Daemon × Next) := do
  lift (← host .setReadTimeout)
  lift (← host .setWriteTimeout)
  match ← host .peer with
  | .error e => do
      host (.sendError e)
      return (st, .loop)
  | .ok (uid, gid) =>
      match ← host .receive with
      | .error e => do
          host (.sendError e)
          return (st, .loop)
      | .ok request => do
          host (.begin (.request uid gid request))
          let (st, response, next) ← scheduled (answerCalls euid pid uid gid request st)
          -- A client disconnecting does not roll back an accepted submission.
          host (.sendResponse response)
          return (st, next)

/-- At most `n` clients, as long as one is waiting. -/
def serveClients (euid pid : Nat) : Nat → Daemon → Host (Daemon × Next)
  | 0, st => return (st, .loop)
  | n + 1, st => do
      match ← host .accept with
      | .wouldBlock => return (st, .loop)
      | .error e => throw e
      | .client =>
          match ← serveClient euid pid st with
          | (st, .loop) => serveClients euid pid n st
          | (st, .stop) => return (st, .stop)

/-- `if refreshed.elapsed() >= Duration::from_secs(2) { … }`. -/
def serveRefresh (euid pid : Nat) (st : Daemon) : Host Daemon := do
  if ← host .refreshDue then do
    let (status, monitoringErrors) ← host .refresh
    let (st, _) ← operation euid pid (.refresh status monitoringErrors) st
    return st
  else
    return st

/-- `if cleaned.elapsed() >= Duration::from_secs(60) { … }`. -/
def serveSweep (euid pid : Nat) (st : Daemon) : Host Daemon := do
  if ← host .cleanupDue then do
    let (st, _) ← operation euid pid .cleanup st
    return st
  else
    return st

/-- `while !crate::interrupted() { … }`. -/
def serveMain (euid pid : Nat) : Nat → Daemon → Host Unit
  | 0, _ => hang
  | fuel + 1, st => do
      if ← host .interrupted then
        return ()
      else
        -- Bound client work so a stream of submissions cannot starve execution.
        match ← serveClients euid pid 16 st with
        | (_, .stop) => return ()
        | (st, .loop) => do
            let st ← serveRefresh euid pid st
            let (st, _) ← operation euid pid .tick st
            let st ← serveSweep euid pid st
            lift (← host .poll)
            serveMain euid pid fuel st

/-- While the listener is open; the socket is removed by `SocketCleanup`. -/
def serveBound (euid pid fuel : Nat) (st : Daemon) : Host Unit := do
  lift (← host .setPermissions)
  lift (← host .setNonblocking)
  let result ← attempt (serveMain euid pid fuel st)
  let _ ← host .removeSocket
  lift result

/-- Take over the name of the socket, and serve. -/
def serveSocket (euid pid fuel : Nat) (st : Daemon) : Host Unit := do
  if ← host .socketExists then
    lift (← host .removeSocket)
  lift (← host .bind)
  let result ← attempt (serveBound euid pid fuel st)
  host .closeListener
  lift result

/-- While the lock is held. -/
def serveLocked (euid pid fuel : Nat) (args : DaemonArgs) : Host Unit := do
  lift (← host .installSignals)
  let inventory ← lift (← host .discover)
  let s ← lift (← host (.newScheduler inventory args))
  let (st, _) ← scheduled (bootCalls pid args.excludeDeviceIds s)
  serveSocket euid pid fuel st

/-- `daemon::serve` in the process `pid`. -/
def serveProcess (euid pid fuel : Nat) (args : DaemonArgs) : Host Unit := do
  lift (← host .initializePaths)
  if ← lift (← host .tryLock) then do
    let result ← attempt (serveLocked euid pid fuel args)
    host .unlock
    lift result
  else
    throw "xlurm daemon is already running"

/-! ## The commands of the administrator -/

/-- `daemon::request`. -/
def daemonRequest (request : Request) : Host Response := do
  lift (← host (.connect request))
  match ← lift (← host .response) with
  | .error e => throw e
  | response => return response

/-- `request(paths, &Request::Info).is_ok()`. -/
def infoAnswered : Host Bool := do
  match ← attempt (daemonRequest .info) with
  | .ok _ => return true
  | .error _ => return false

/-- The loop of `start` that waits for the new daemon. -/
def awaitDaemon : Nat → Host Unit
  | 0 => hang
  | fuel + 1 => do
      if ← infoAnswered then
        host (.print "xlurm started")
      else do
        match ← lift (← host .tryWait) with
        | some status => throw s!"daemon exited ({status}); see daemon.log"
        | none =>
            if ← host .deadline then do
              -- Never leave an unannounced daemon starting after reporting failure.
              lift (← host .killChild)
              lift (← host .waitChild)
              throw "daemon startup timed out; see daemon.log"
            else do
              host .sleep
              awaitDaemon fuel

def startCommand (fuel : Nat) (args : DaemonArgs) : Host Unit := do
  if ← infoAnswered then
    host (.print "xlurm is already running")
  else do
    ensure (0 < args.maxRunning) "max-running must be positive"
    lift (← host .initializePaths)
    lift (← host .openDaemonLog)
    lift (← host (.spawnDaemon args))
    awaitDaemon fuel

/-- The loop of `restart` that waits until the old daemon has released its lock. -/
def awaitUnlocked : Nat → Host Unit
  | 0 => hang
  | fuel + 1 => do
      if ← lift (← host .tryLock) then
        host .unlock
      else do
        ensure (!(← host .deadline))
          "daemon shutdown timed out; scheduler was stopped but not restarted"
        host .sleep
        awaitUnlocked fuel

def restartCommand (fuel : Nat) (args : DaemonArgs) : Host Unit := do
  let _ ← daemonRequest .restart
  awaitUnlocked fuel
  startCommand fuel args

end Xlurm
