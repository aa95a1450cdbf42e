/-
  Xlurm.Os.Payload

  A worker and the processes of its payload: what the new process does before it
  runs the job's command, how the worker watches the payload, and what
  `impl Drop for Running` leaves of it.

  The worker is `Xlurm.worker`, whose questions about its payload are answered here
  from a table of processes.  The processes of the payload do what they like: they
  fork, leave their group, change their ids as far as they may, and exit, all while
  the worker runs.  A process id is not used again as long as the worker lives.
-/

import Xlurm.Os.Worker
import Xlurm.Unix.Cred
import Xlurm.Unix.Forest

namespace Xlurm

open Prog.Comp (call lift)
open Unix (Cred Table)

/-! ## The new process -/

inductive ChildCall
  /-- `process_group(0)`. -/
  | setpgid
  | setgroups (groups : List Nat)
  /-- The real, the effective and the saved group id. -/
  | setresgid (gid : Nat)
  | setresuid (uid : Nat)
  | setNoNewPrivs
  | chdir (path : String)
  | setPdeathsig (signal : Nat)
  | getppid
  /-- `_exit`, which does not return. -/
  | exit (code : Nat)
  /-- Run the command; the program is over if that succeeds. -/
  | execvp

namespace ChildCall

@[reducible] def Reply : ChildCall → Type
  | setpgid | setgroups _ | setresgid _ | setresuid _ | setNoNewPrivs | chdir _ | setPdeathsig _
  | execvp => Except Error Unit
  | getppid => Nat
  | exit _ => Unit

end ChildCall

abbrev Child (α : Type) := Prog.Comp Unit ChildCall ChildCall.Reply Error α

abbrev ChildProg := Prog Unit ChildCall ChildCall.Reply (Except Error Unit)

/-- `command.pre_exec`; `parent` is the worker. -/
def preExec (command : Command) (parent : Nat) : Child Unit := do
  -- Drop supplementary, real/effective/saved IDs before entering any user-selected path.
  if command.privileged then do
    lift (← call (.setgroups command.groups))
    lift (← call (.setresgid command.owner.gid))
    lift (← call (.setresuid command.owner.uid))
  lift (← call .setNoNewPrivs)
  lift (← call (.chdir command.cwd))
  lift (← call (.setPdeathsig sigkill))
  if (← call .getppid) ≠ parent then
    call (ChildCall.exit 125)

/-- What the new process does until the job's command runs in it. -/
def childProg (command : Command) (parent : Nat) : Child Unit := do
  lift (← call .setpgid)
  preExec command parent
  lift (← call .execvp)

/-! ## The worker -/

/-- What `waitpid` for the group returns. -/
inductive Waited
  | child
  | interrupted
  | nobody

/-- The calls of a worker about its payload; `sys` are its other calls. -/
inductive PayCall
  | fork (command : Command)
  /-- Wait until the new process runs the command or reports an error. -/
  | awaitExec
  | tryWait
  /-- `kill(-pid, signal)`. -/
  | signal (signal : Nat)
  /-- `Child::wait`. -/
  | wait
  /-- `waitpid(-pid, NULL, 0)`. -/
  | waitGroup
  | sys (c : Sys)

namespace PayCall

@[reducible] def Reply : PayCall → Type
  | fork _ | awaitExec => Except Error Unit
  | tryWait => Except Error (Option ExitStatus)
  | signal _ | wait => Unit
  | waitGroup => Waited
  | sys c => c.Reply

end PayCall

/-- The loop of `drop`, which reaps adopted descendants in the payload group. -/
def reapGroup : Nat → Prog Unit PayCall PayCall.Reply Unit
  | 0 => .call () (.sys .hang) nofun
  | fuel + 1 => .call () .waitGroup fun
      | .child | .interrupted => reapGroup fuel
      | .nobody => .ret () ()

/-- `impl Drop for Running`. -/
def dropRunning (fuel : Nat) : Prog Unit PayCall PayCall.Reply Unit :=
  .call () (.signal sigkill) fun _ => .call () .wait fun _ => reapGroup fuel

/-- How the worker carries out what it asks for. -/
def payHandler (fuel : Nat) : (c : Sys) → Unit → Prog Unit PayCall PayCall.Reply c.Reply
  | .ask (.spawnPayload command), _ => .call () (.fork command) fun
      | .error e => .ret () (.error e)
      | .ok () => .call () .awaitExec fun r => .ret () r
  | .ask .tryWait, _ => .call () .tryWait fun r => .ret () r
  | .ask (.signal signal), _ => .call () (.signal signal) fun r => .ret () r
  | .ask .reap, _ => dropRunning fuel
  | c, _ => .call () (.sys c) fun r => .ret () r

abbrev WorkerProg := Prog (Unit × Unit) PayCall PayCall.Reply (Except Error Unit)

/-- `executor::worker` with the calls about its payload. -/
def workerProg (pid fuel id : Nat) : WorkerProg := (worker pid fuel id ()).interp (payHandler fuel) ()

/-! ## The state of a payload -/

/-- What a process of the payload is, besides its place in the table. -/
structure Image where
  cred : Cred
  /-- The signal it gets when its parent dies. -/
  pdeath : Option Nat
  /-- The directory that it was sent to; ghost: with which rights it went there. -/
  cwd : Option (String × Cred)
  /-- What is left to do before the job's command runs; `none` if it runs. -/
  prog : Option ChildProg
  /-- Ghost: the job's command has changed the signal. -/
  detached : Bool
  /-- Ghost: the process, or the one that it was forked from, has left the payload's group. -/
  left : Bool

/-- The pipe over which the new process reports an error. -/
inductive Pipe
  | open
  | failed (e : Error)
  | closed
  deriving DecidableEq

structure Payload where
  /-- The worker. -/
  pid : Nat
  cred : Cred
  /-- What is left of the worker's program; `none` if the worker is gone. -/
  prog : Option WorkerProg
  procs : Table Image
  /-- The process that was started for the job's command. -/
  leader : Option (Nat × Command)
  pipe : Pipe
  /-- The process ids that were ever given. -/
  used : List Nat
  /-- Ghost: the job, as the worker knew it when it started the payload. -/
  job : Option Job
  /-- Ghost: whose groups the worker had looked up when it started the payload, and the
      answer. -/
  found : Option (Owner × List Nat)
  /-- Ghost: the job's command has begun to run. -/
  execed : Bool
  /-- Ghost: a process has left its group. -/
  left : Bool

namespace Payload

def init (pid uid gid : Nat) (groups : List Nat) (fuel id : Nat) : Payload where
  pid
  cred := Cred.of uid gid groups false
  prog := some (workerProg pid fuel id)
  procs := []
  leader := none
  pipe := .open
  used := []
  job := none
  found := none
  execed := false
  left := false

/-- Who adopts the orphans. -/
def root (m : Payload) : Nat := if m.prog.isSome then m.pid else 1

def freePid (m : Payload) (pid : Nat) : Bool := pid ∉ m.used && pid ≠ m.pid && pid ≠ 1

/-- The process `pid`, unless it has exited or is about to. -/
def running (m : Payload) (pid : Nat) : Option (Unix.Proc Image) :=
  m.procs.find? fun p => p.pid = pid && !p.zombie && !p.killed

/-- The end of the process `pid`. -/
def exits (m : Payload) (pid heir : Nat) : Payload := { m with procs := m.procs.exit pid heir }

def forked (m : Payload) (p : Unix.Proc Image) : Payload :=
  { m with procs := p :: m.procs, used := p.pid :: m.used }

/-- The processes of the group that the worker can wait for. -/
def waitable (m : Payload) (pid : Nat) : Table Image :=
  m.procs.filter fun p => p.parent = m.pid && p.group = pid

end Payload

/-! ## Calls of the new process -/

def eperm : Error := "Operation not permitted (os error 1)"

namespace Image

/-- New credentials; a change of the effective ids clears the parent-death signal. -/
def setCred (image : Image) (cred : Cred) : Image :=
  { image with cred, pdeath := if image.cred.sameEffective cred then image.pdeath else none }

/-- A call that `EPERM` may refuse. -/
def become (image : Image) : Option Cred → Except Error Unit × Image
  | none => (.error eperm, image)
  | some cred => (.ok (), image.setCred cred)

/-- The same, when the job's command makes the call. -/
def becomes (image : Image) (cred : Option Cred) : Image :=
  let image' := (image.become cred).2
  { image' with detached := image.detached || image'.pdeath != image.pdeath }

end Image

namespace ChildCall

/-- Whether a call fails. -/
@[reducible] def Raw : ChildCall → Type
  | setpgid | setgroups _ | setresgid _ | setresuid _ | setNoNewPrivs | chdir _ | setPdeathsig _
  | execvp => Option Error
  | getppid | exit _ => Unit

/-- A call that fails without effect if the environment says so. -/
def orFail (raw : Option Error) (p : Unix.Proc Image)
    (next : Except Error Unit × Unix.Proc Image) : Except Error Unit × Unix.Proc Image :=
  match raw with
  | some e => (.error e, p)
  | none => next

def onImage (p : Unix.Proc Image) (next : Except Error Unit × Image) :
    Except Error Unit × Unix.Proc Image := (next.1, { p with data := next.2 })

/-- One call of the new process `p`. -/
def exec (p : Unix.Proc Image) : (c : ChildCall) → c.Raw → c.Reply × Unix.Proc Image
  | setpgid, raw => orFail raw p (.ok (), { p with group := p.pid })
  | setgroups groups, raw => orFail raw p (onImage p (p.data.become (p.data.cred.setgroups groups)))
  | setresgid gid, raw =>
      orFail raw p (onImage p (p.data.become (p.data.cred.setresgid gid gid gid)))
  | setresuid uid, raw =>
      orFail raw p (onImage p (p.data.become (p.data.cred.setresuid uid uid uid)))
  | setNoNewPrivs, raw =>
      orFail raw p (onImage p (.ok (), { p.data with cred := p.data.cred.setNoNewPrivs }))
  | chdir path, raw =>
      orFail raw p (onImage p (.ok (), { p.data with cwd := some (path, p.data.cred) }))
  | setPdeathsig signal, raw =>
      orFail raw p (onImage p (.ok (), { p.data with pdeath := some signal }))
  | getppid, _ => (p.parent, p)
  | exit _, _ => ((), { p with zombie := true })
  | execvp, raw => orFail raw p (onImage p (.ok (), { p.data with prog := none }))

end ChildCall

/-! ## Calls of the worker -/

namespace PayCall

/-- What the environment decides about a call; `none` if there is no answer yet. -/
@[reducible] def Raw : PayCall → Type
  | fork _ => Except Error Nat
  | tryWait => Except Error ExitStatus
  | waitGroup => Bool
  | sys c => Option c.Reply
  | awaitExec | signal _ | wait => Unit

/-- The reply to a call that is not about the payload. -/
def answer (m : Payload) : (c : Sys) → c.Reply → c.Reply
  | .ask .geteuid, _ => m.cred.euid
  | .ask .getegid, _ => m.cred.egid
  | _, r => r

/-- The worker has read its job, or looked up groups. -/
def learn (m : Payload) : (c : Sys) → c.Reply → Payload
  | .read _, .ok data => if m.leader.isNone then { m with job := data.job? } else m
  | .ask (.groups owner), .ok groups =>
      if m.leader.isNone then { m with found := some (owner, groups) } else m
  | _, _ => m

/-- One call of the worker: its reply and the new state, or `none` if it waits. -/
def exec (m : Payload) : (c : PayCall) → c.Raw → Option (c.Reply × Payload)
  | fork command, raw =>
      match raw with
      | .error e => some (.error e, m)
      | .ok pid =>
          if m.freePid pid then
            some (.ok (), { m.forked
                { pid, parent := m.pid, group := m.pid, killed := false, zombie := false
                  data := { cred := m.cred, pdeath := none, cwd := none
                            prog := some (childProg command m.pid ())
                            detached := false, left := false } } with
              leader := some (pid, command)
              pipe := .open })
          else none
  | awaitExec, _ =>
      match m.pipe, m.leader with
      | .closed, _ => some (.ok (), m)
      | .failed e, some (pid, _) =>
          if m.procs.any fun p => p.pid = pid && p.zombie then
            some (.error e, { m with procs := m.procs.reap pid })
          else none
      | _, _ => none
  | tryWait, raw =>
      match raw, m.leader with
      | .error e, _ => some (.error e, m)
      | .ok status, some (pid, _) =>
          match m.procs.find? (·.pid = pid) with
          -- The status of a child that was waited for is kept.
          | none => some (.ok (some status), m)
          | some p =>
              if p.zombie then some (.ok (some status), { m with procs := m.procs.reap pid })
              else some (.ok none, m)
      | .ok _, none => none
  | signal sig, _ =>
      match m.leader with
      | none => none
      | some (pid, _) =>
          some ((), if sig = sigkill then { m with procs := m.procs.killGroup pid } else m)
  | wait, _ =>
      match m.leader with
      | none => none
      | some (pid, _) =>
          match m.procs.find? (·.pid = pid) with
          | none => some ((), m)
          | some p => if p.zombie then some ((), { m with procs := m.procs.reap pid }) else none
  | waitGroup, interrupted =>
      match m.leader with
      | none => none
      | some (pid, _) =>
          if interrupted then some (.interrupted, m)
          else if m.waitable pid = [] then some (.nobody, m)
          else
            match (m.waitable pid).find? (·.zombie) with
            | some p => some (.child, { m with procs := m.procs.reap p.pid })
            | none => none
  | sys c, raw => raw.map fun r => (answer m c r, learn m c r)

end PayCall

/-! ## Actions -/

/-- What a process of the payload does while it runs the user's code. -/
inductive UserCall
  | fork (pid : Nat)
  /-- `setsid` or `setpgid`. -/
  | setpgid (group : Nat)
  | setgroups (groups : List Nat)
  | setresgid (rgid egid sgid : Nat)
  | setresuid (ruid euid suid : Nat)
  | setPdeathsig (signal : Option Nat)

inductive PayAction
  /-- The next call of the worker. -/
  | worker (env : (c : PayCall) → c.Raw)
  /-- The next call of the new process. -/
  | child (env : (c : ChildCall) → c.Raw)
  | user (pid : Nat) (c : UserCall)
  /-- A process exits, or a pending SIGKILL ends it. -/
  | exit (pid heir : Nat)
  /-- Another parent than the worker waits for a process. -/
  | reap (pid : Nat)
  /-- Somebody sends SIGKILL to a process. -/
  | kill (pid : Nat)
  /-- The worker exits or is killed. -/
  | workerDies

namespace Payload

def setImage (m : Payload) (pid : Nat) (image : Image) : Payload :=
  { m with procs := m.procs.update pid fun p => { p with data := image } }

/-- One call of the process `p` of the payload. -/
def userStep (m : Payload) (p : Unix.Proc Image) : UserCall → Payload
  | .fork pid =>
      if m.freePid pid then
        m.forked { p with pid, parent := p.pid, data := { p.data with pdeath := none } }
      else m
  | .setpgid group =>
      if p.group = group then m
      else
        { m with
          procs := m.procs.update p.pid fun p =>
            { p with group, data := { p.data with left := true } }
          left := true }
  | .setgroups groups => m.setImage p.pid (p.data.becomes (p.data.cred.setgroups groups))
  | .setresgid rgid egid sgid =>
      m.setImage p.pid (p.data.becomes (p.data.cred.setresgid rgid egid sgid))
  | .setresuid ruid euid suid =>
      m.setImage p.pid (p.data.becomes (p.data.cred.setresuid ruid euid suid))
  | .setPdeathsig signal => m.setImage p.pid { p.data with pdeath := signal, detached := true }

/-- The next call `c` of the new process `p`, which goes on with `k`. -/
def childStep (m : Payload) (p : Unix.Proc Image) (c : ChildCall) (k : c.Reply → ChildProg)
    (raw : c.Raw) : Payload :=
  let (r, p') := c.exec p raw
  if p'.zombie then { m.exits p.pid m.root with pipe := .closed }
  else if p'.data.prog.isNone then
    { m with procs := m.procs.update p.pid fun _ => p', pipe := .closed, execed := true }
  else
    { m with
      procs := m.procs.update p.pid fun _ => { p' with data := { p'.data with prog := some (k r) } } }

/-- The worker is gone: nobody waits for its children any more, and they get the signal that
    they have asked for. -/
def orphaned (m : Payload) : Payload :=
  { m with
    prog := none
    procs := m.procs.map fun p =>
      if p.parent = m.pid then
        { p with parent := 1, killed := p.killed || p.data.pdeath == some sigkill }
      else p }

def step (m : Payload) : PayAction → Payload
  | .worker env =>
      match m.prog with
      | some (.call _ c k) =>
          match c.exec m (env c) with
          | some (r, m') => { m' with prog := some (k r) }
          | none => m
      | _ => m
  | .child env =>
      match m.leader.bind fun leader => m.running leader.1 with
      | some p =>
          match p.data.prog with
          | some (.call _ c k) => m.childStep p c k (env c)
          | some (.ret _ (.error e)) => { m.exits p.pid m.root with pipe := .failed e }
          | some (.ret _ (.ok ())) => m
          | none => m
      | none => m
  | .user pid c =>
      match m.running pid with
      | some p => if p.data.prog.isNone then m.userStep p c else m
      | none => m
  | .exit pid heir =>
      match m.procs.find? fun p => p.pid = pid && !p.zombie with
      | some p =>
          if m.procs.mayInherit m.root pid heir then
            { m.exits pid heir with pipe := if p.data.prog.isSome then .closed else m.pipe }
          else m
      | none => m
  | .reap pid =>
      match m.procs.find? fun p => p.pid = pid && p.zombie with
      | some p => if p.parent = m.root && m.prog.isSome then m else { m with procs := m.procs.reap pid }
      | none => m
  | .kill pid => { m with procs := m.procs.update pid fun p => { p with killed := true } }
  | .workerDies => if m.prog.isSome then m.orphaned else m

/-- A run: any list of actions, oldest first. -/
def run (m : Payload) (actions : List PayAction) : Payload := actions.foldl step m

end Payload

end Xlurm
