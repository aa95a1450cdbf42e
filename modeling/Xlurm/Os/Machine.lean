/-
  Xlurm.Os.Machine

  A machine on which any number of `serve`, `start` and `restart` processes run
  at the same time, beside the workers and any number of other clients.

  `daemon.lock` has at most one holder.  The name of the socket leads to the
  listener that was bound to it, also when that listener is closed; a process that
  is killed leaves the name behind, but not its lock and its listener.

  `epoch`, `answers` and `begun` are ghost state: how often the lock was taken,
  the answers that were sent, and the operations that daemons began.  So are
  `unseen`, `read`, `decided` and `heard`: who did not see the name of the socket,
  how long the history was when a process had read a request, where it has the
  newest answer of a process, and the answers that a process has received.
-/

import Xlurm.Os.Host

namespace Xlurm

/-! ## The state of the machine -/

/-- A response as it was sent over a connection. -/
structure SentAnswer where
  conn : Nat
  /-- Ghost: how often the lock had been taken. -/
  epoch : Nat
  request : Request
  response : Response
  /-- Ghost: how long the history was when the daemon had read the request. -/
  read : Nat
  /-- Ghost: the number of the event that the answer comes from; an error of the connection
      comes from none. -/
  decided : Option Nat

structure Conn where
  uid : Nat
  gid : Nat
  request : Request
  /-- The listener it was made to. -/
  listener : Nat
  /-- Ghost: how often the lock had been taken when it was made. -/
  epoch : Nat
  /-- Ghost: how many answers had been sent when it was made. -/
  since : Nat
  answer : Option SentAnswer

/-- What a process was started as. -/
inductive Role
  | daemon (args : DaemonArgs)
  | start (args : DaemonArgs)
  | restart (args : DaemonArgs)

/-- The program of a role. -/
def Role.prog (euid pid fuel : Nat) : Role → HostProg Unit
  | daemon args => serveProcess euid pid fuel args ()
  | start args => startCommand fuel args ()
  | restart args => restartCommand fuel args ()

structure Process where
  pid : Nat
  uid : Nat
  gid : Nat
  role : Role
  /-- The process that waits for it. -/
  parent : Option Nat
  /-- It was killed, and does nothing any more. -/
  killed : Bool
  /-- It is gone, and its parent has not waited for it yet. -/
  exited : Bool
  prog : HostProg Unit
  /-- Ghost: how many answers had been sent when it started. -/
  since : Nat

/-- What a daemon begins. -/
inductive Mark
  | booted
  | began (op : Op)

structure Machine where
  world : World
  procs : List Process
  /-- Who holds `daemon.lock`. -/
  lock : Option Nat
  epoch : Nat
  /-- The listener that the name of the socket leads to. -/
  socket : Option Nat
  /-- How many listeners were ever bound. -/
  bound : Nat
  /-- The listener that a process has open. -/
  listener : Nat → Option Nat
  unseen : Nat → Bool
  conns : Nat → Option Conn
  /-- How many connections were ever made. -/
  made : Nat
  /-- The connection that a process made, or accepted last. -/
  conn : Nat → Option Nat
  /-- The connections that wait to be accepted, oldest first. -/
  backlog : List Nat
  read : Nat → Nat
  decided : Nat → Option Nat
  /-- Newest first. -/
  answers : List SentAnswer
  /-- Newest first. -/
  heard : Nat → List SentAnswer
  /-- Newest first. -/
  begun : List Mark

namespace Machine

def init : Machine where
  world := System.init.world
  procs := []
  lock := none
  epoch := 0
  socket := none
  bound := 0
  listener _ := none
  unseen _ := false
  conns _ := none
  made := 0
  conn _ := none
  backlog := []
  read _ := 0
  decided _ := none
  answers := []
  heard _ := []
  begun := []

/-- Change the process `pid`. -/
def update (m : Machine) (pid : Nat) (f : Process → Process) : Machine :=
  { m with procs := m.procs.map fun pr => if pr.pid = pid then f pr else pr }

/-- No worker and no process has this process id. -/
def pidFree (m : Machine) (pid : Nat) : Bool :=
  m.world.pidFree pid && !m.procs.any (·.pid == pid)

/-- The processes of the machine and the workers of `world` have different ids. -/
def admits (m : Machine) (world : World) : Bool :=
  m.procs.all fun pr => !world.pidInUse pr.pid

/-- Whether somebody listens on `l`. -/
def listening (m : Machine) (l : Nat) : Bool :=
  m.procs.any fun pr => m.listener pr.pid = some l

/-- A new process. -/
def spawned (m : Machine) (euid uid gid pid fuel : Nat) (parent : Option Nat) (role : Role) :
    Machine :=
  { m with
    procs :=
      { pid, uid, gid, role, parent, killed := false, exited := false
        prog := role.prog euid pid fuel, since := m.answers.length } :: m.procs
    unseen := Function.update m.unseen pid false
    heard := Function.update m.heard pid [] }

/-- Remove the process `pid`, which has been waited for. -/
def reaped (m : Machine) (pid : Nat) : Machine :=
  { m with procs := m.procs.filter (·.pid ≠ pid) }

/-- What the end of the process `pid` makes of `pr`: nobody waits for its children any
    more, and it is kept until its parent has waited for it. -/
def afterExit (pid : Nat) (pr : Process) : Option Process :=
  if pr.pid = pid then
    if pr.parent = none then none else some { pr with exited := true }
  else if pr.parent = some pid then
    if pr.exited then none else some { pr with parent := none }
  else some pr

/-- The end of the process `pid`.  Its files are closed; only the daemon that booted last
    has locks on jobs. -/
def exit (m : Machine) (pid : Nat) : Machine :=
  { m with
    world := if m.world.pid = pid then m.world.released .daemon else m.world
    procs := m.procs.filterMap (afterExit pid)
    lock := if m.lock = some pid then none else m.lock
    listener := Function.update m.listener pid none }

/-- A new connection to the listener `l`. -/
def connected (m : Machine) (uid gid l : Nat) (request : Request) : Machine :=
  { m with
    conns := Function.update m.conns m.made
      (some ⟨uid, gid, request, l, m.epoch, m.answers.length, none⟩)
    made := m.made + 1
    backlog := m.backlog ++ [m.made] }

/-- The first connection that waits for the listener `l`. -/
def waiting (m : Machine) (l : Nat) : Option Nat :=
  m.backlog.find? fun c => (m.conns c).any (·.listener == l)

/-- Send the answer `a` over its connection. -/
def answered (m : Machine) (conn : Conn) (a : SentAnswer) : Machine :=
  { m with
    conns := Function.update m.conns a.conn (some { conn with answer := some a })
    answers := a :: m.answers }

/-- The child of `pid`. -/
def child (m : Machine) (pid : Nat) : Option Process :=
  m.procs.find? (·.parent = some pid)

/-- The connection of the process `pid`. -/
def connOf (m : Machine) (pid : Nat) : Option (Nat × Conn) :=
  (m.conn pid).bind fun c => (m.conns c).map fun conn => (c, conn)

end Machine

/-- The answer of a scheduler to a request. -/
structure Decision where
  uid : Nat
  gid : Nat
  request : Request
  response : Response

/-- The answer that an event records. -/
def Event.decision : Event → Option Decision
  | answered uid gid request response _ _ => some ⟨uid, gid, request, response⟩
  | _ => none

/-- The answer that a call records. -/
def Sys.decision : Sys → Option Decision
  | note event => event.decision
  | _ => none

/-! ## System calls -/

namespace HostCall

/-- What the environment decides about a call. -/
@[reducible] def Raw : HostCall → Type
  | initializePaths | tryLock | installSignals | removeSocket | bind | setPermissions
  | setNonblocking | accept | setReadTimeout | setWriteTimeout | peer | receive | poll | connect _
  | response | openDaemonLog => Option Error
  | discover => Except Error UniqueInventory
  -- Whether `stat` fails.
  | newScheduler _ _ => Except Error Bool
  | socketExists => Bool
  | interrupted | refreshDue | cleanupDue | deadline => Bool
  -- Whether the client is still there.
  | sendError _ | sendResponse _ => Bool
  | refresh => (String → Option String) × (String → Option String)
  | sys c => c.Raw
  -- The process id of the child and the bound on its loops.
  | spawnDaemon _ => Except Error (Nat × Nat)
  -- The exit status.
  | tryWait => String
  | unlock | closeListener | begin _ | killChild | waitChild | print _ | sleep | hang => Unit

/-- A call that fails without effect if the environment says so. -/
def orFail {α : Type} (raw : Option Error) (m : Machine) (next : Except Error α × Machine) :
    Except Error α × Machine :=
  match raw with
  | some e => (.error e, m)
  | none => next

def enoent : Error := "No such file or directory (os error 2)"

/-- The scheduler of the process `pid` makes the call `c`. -/
def called (m : Machine) (pid : Nat) (c : Sys) (world : World) : Machine :=
  { m with
    world
    decided :=
      if c.decision.isSome then Function.update m.decided pid (some m.world.hist.length)
      else m.decided }

/-- A system call of the scheduler; a new worker gets an id that no process has. -/
def execSys (m : Machine) (pid : Nat) (c : Sys) (raw : c.Raw) : Option (c.Reply × Machine) :=
  match c.exec .daemon m.world raw with
  | some (r, world) => if m.admits world then some (r, called m pid c world) else none
  | none => none

/-- A scheduler is created in `world`. -/
def booted (m : Machine) (pid : Nat) (world : World) : Machine :=
  { m with
    world := { world with pid }.log .booted
    begun := .booted :: m.begun }

/-- One call of the process `pr`: its reply and the new machine, or `none` if it
    cannot happen now. -/
def exec (euid : Nat) (pr : Process) (m : Machine) :
    (c : HostCall) → c.Raw → Option (c.Reply × Machine)
  | initializePaths, raw | installSignals, raw | setPermissions, raw | setNonblocking, raw
  | setReadTimeout, raw | setWriteTimeout, raw | poll, raw | openDaemonLog, raw =>
      some (orFail raw m (.ok (), m))
  | tryLock, raw =>
      some <| orFail raw m <| match m.lock with
        | some _ => (.ok false, m)
        | none => (.ok true, { m with lock := some pr.pid, epoch := m.epoch + 1 })
  | unlock, _ => some ((), if m.lock = some pr.pid then { m with lock := none } else m)
  | discover, raw => some (raw, m)
  | newScheduler inventory args, raw =>
      match raw with
      | .error e => some (.error e, m)
      | .ok failed =>
          let blind := failed && (m.world.file .state).isSome
          let world := if blind then m.world.overlooked .state else m.world
          let state := if blind then none else (m.world.file .state).map (·.data)
          match Scheduler.new state inventory.toInventory args.maxRunning with
          | .error e => some (.error e, m)
          | .ok s => some (.ok s, booted m pr.pid world)
  | socketExists, failed =>
      if failed && m.socket.isSome then
        some (false, { m with unseen := Function.update m.unseen pr.pid true })
      else some (m.socket.isSome, m)
  | removeSocket, raw =>
      some <| orFail raw m <| match m.socket with
        | none => (.error enoent, m)
        | some _ => (.ok (), { m with socket := none })
  | bind, raw =>
      some <| orFail raw m <| match m.socket with
        | some _ => (.error "Address already in use (os error 98)", m)
        | none =>
            (.ok (), { m with
              socket := some m.bound
              bound := m.bound + 1
              listener := Function.update m.listener pr.pid (some m.bound) })
  | closeListener, _ => some ((), { m with listener := Function.update m.listener pr.pid none })
  | interrupted, b | refreshDue, b | cleanupDue, b | deadline, b => some (b, m)
  | accept, raw =>
      match raw, (m.listener pr.pid).bind m.waiting with
      | some e, _ => some (.error e, m)
      | none, none => some (.wouldBlock, m)
      | none, some c =>
          some (.client, { m with
            backlog := m.backlog.erase c
            conn := Function.update m.conn pr.pid (some c) })
  | peer, raw =>
      some <| orFail raw m <| match m.connOf pr.pid with
        | some (_, conn) => (.ok (conn.uid, conn.gid), m)
        | none => (.error "cannot authenticate Unix socket peer", m)
  | receive, raw =>
      some <| orFail raw m <| match m.connOf pr.pid with
        | some (_, conn) =>
            (.ok conn.request, { m with
              read := Function.update m.read pr.pid m.world.hist.length })
        | none => (.error "connection closed before complete message", m)
  | sendError e, delivered =>
      match delivered, m.connOf pr.pid with
      | true, some (c, conn) =>
          some ((), m.answered conn ⟨c, m.epoch, conn.request, .error e, m.read pr.pid, none⟩)
      | _, _ => some ((), m)
  | sendResponse answer, delivered =>
      match delivered, m.connOf pr.pid with
      | true, some (c, conn) =>
          some ((), m.answered conn
            ⟨c, m.epoch, conn.request, answer, m.read pr.pid, m.decided pr.pid⟩)
      | _, _ => some ((), m)
  | refresh, found => some (found, m)
  | begin op, _ => some ((), { m with begun := .began op :: m.begun })
  | sys c, raw => execSys m pr.pid c raw
  | connect request, raw =>
      some <| orFail raw m <| match m.socket with
        | none => (.error enoent, m)
        | some l =>
            if m.listening l then
              (.ok (), { m.connected pr.uid pr.gid l request with
                conn := Function.update m.conn pr.pid (some m.made) })
            else (.error "Connection refused (os error 111)", m)
  | response, raw =>
      match raw, (m.connOf pr.pid).bind (·.2.answer) with
      | some e, _ => some (.error e, m)
      | none, some a =>
          some (.ok a.response, { m with
            heard := Function.update m.heard pr.pid (a :: m.heard pr.pid) })
      | none, none => none
  | spawnDaemon args, raw =>
      match raw with
      | .error e => some (.error e, m)
      | .ok (pid, fuel) =>
          if m.pidFree pid then
            some (.ok (), m.spawned euid pr.uid pr.gid pid fuel (some pr.pid) (.daemon args))
          else none
  | tryWait, status =>
      match m.child pr.pid with
      | none => some (.error "No child processes (os error 10)", m)
      | some child =>
          if child.exited then some (.ok (some status), m.reaped child.pid)
          else some (.ok none, m)
  | killChild, _ =>
      match m.child pr.pid with
      | none => some (.error "No child processes (os error 10)", m)
      | some child => some (.ok (), m.update child.pid fun pr => { pr with killed := true })
  | waitChild, _ =>
      match m.child pr.pid with
      | none => some (.error "No child processes (os error 10)", m)
      | some child => if child.exited then some (.ok (), m.reaped child.pid) else none
  -- `println!` panics when stdout cannot be written: the action `exit` before this call.
  | print _, _ | sleep, _ => some ((), m)
  | hang, _ => none

end HostCall

/-! ## Actions -/

inductive MachineAction
  /-- Somebody starts a daemon, or one of the commands. -/
  | launch (uid gid pid fuel : Nat) (role : Role)
  /-- Any client connects and sends a request. -/
  | connect (uid gid : Nat) (request : Request)
  /-- The next call of a process. -/
  | process (pid : Nat) (env : (c : HostCall) → c.Raw)
  /-- A process exits or is killed. -/
  | exit (pid : Nat)
  /-- The next system call of a worker. -/
  | worker (pid : Nat) (env : (c : Sys) → c.Raw)
  /-- A worker exits or is killed. -/
  | kill (pid : Nat)
  /-- A worker's payload writes to its log. -/
  | output (pid : Nat) (bytes : List UInt8)

namespace Machine

def step (euid : Nat) (m : Machine) : MachineAction → Machine
  | .launch uid gid pid fuel role =>
      if m.pidFree pid then m.spawned euid uid gid pid fuel none role else m
  | .connect uid gid request =>
      match m.socket with
      | some l => if m.listening l then m.connected uid gid l request else m
      | none => m
  | .process pid env =>
      match m.procs.find? (·.pid == pid) with
      | some pr =>
          if pr.killed || pr.exited then m
          else
            match pr.prog with
            | .call _ c k =>
                match c.exec euid pr m (env c) with
                | some (r, m') => m'.update pid fun pr => { pr with prog := k r }
                | none => m
            | .ret _ _ => m
      | none => m
  | .exit pid => if m.procs.any fun pr => pr.pid == pid && !pr.exited then m.exit pid else m
  | .worker pid env =>
      if m.admits (System.workerStep m.world pid env) then
        { m with world := System.workerStep m.world pid env }
      else m
  | .kill pid => { m with world := m.world.killed pid }
  | .output pid bytes =>
      match m.world.workers.find? (·.pid == pid) with
      | some wk => { m with world := m.world.printed wk.job bytes }
      | none => m

/-- A run: any list of actions, oldest first. -/
def run (euid : Nat) (m : Machine) (actions : List MachineAction) : Machine :=
  actions.foldl (step euid) m

end Machine

end Xlurm
