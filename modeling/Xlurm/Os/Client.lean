/-
  Xlurm.Os.Client

  `follow` of `cli.rs`, which `xrun` calls after it has submitted its job: it
  asks the daemon for the job and for what is new in its log, again and again,
  until the job has a result and nothing is left to read.

  The client is a process of its own.  A request is one of its calls; in a
  `Session` the daemon of the system takes the request up between two of its
  operations, and anything may happen before the client sees the answer.
-/

import Xlurm.Os.System

namespace Xlurm

open Prog.Comp (call get modify throw lift)

/-! ## The client -/

inductive ClientCall
  /-- `crate::interrupted`. -/
  | interrupted
  /-- `daemon::request`. -/
  | request (request : Request)
  /-- A second or more has passed since `follow` began. -/
  | waitedSecond
  /-- `timestamp`, for a status line. -/
  | timestamp
  /-- `eprintln!`. -/
  | report (line : String)
  /-- Write to standard output and flush it. -/
  | write (bytes : List UInt8)
  | sleep

namespace ClientCall

@[reducible] def Reply : ClientCall → Type
  | interrupted => Bool
  | request _ => Except Error Response
  | waitedSecond => Bool
  | timestamp => String
  | report _ => Unit
  | write _ => Except Error Unit
  | sleep => Unit

end ClientCall

/-- The variables of `follow`. -/
structure Follow where
  offset : Nat
  cancelled : Bool
  waitingReported : Bool
  startedReported : Bool

abbrev Foreground (α : Type) := Prog.Comp Follow ClientCall ClientCall.Reply Error α

def Follow.new : Follow := ⟨0, false, false, false⟩

/-- `print_log_chunk`: whether there was anything to print. -/
def printLogChunk (id : Nat) : Foreground Bool := do
  let s ← get
  match ← lift (← call (.request (.log id s.offset))) with
  | .log bytes next => do
      lift (← call (.write bytes))
      modify fun s => { s with offset := next }
      return !bytes.isEmpty
  | _ => throw "unexpected log response"

/-- At most `n` chunks; whether the last one was empty. -/
def drain (id : Nat) : Nat → Foreground Bool
  | 0 => return false
  | n + 1 => do
      if ← printLogChunk id then drain id n else return true

/-- The first Ctrl-C cancels the job. -/
def forwardInterrupt (id : Nat) : Foreground Unit := do
  if ← call .interrupted then do
    let s ← get
    if !s.cancelled then do
      let _ ← lift (← call (.request (.cancel id)))
      modify fun s => { s with cancelled := true }

def reportWaiting (id : Nat) (job : Job) : Foreground Unit := do
  let s ← get
  if job.state = .pending ∧ s.waitingReported = false then do
    if ← call .waitedSecond then do
      let time ← call .timestamp
      call (ClientCall.report s!"[xlurm] {time} Job {id}: Waiting for resources...")
      modify fun s => { s with waitingReported := true }

def reportStarted (id : Nat) (job : Job) : Foreground Unit := do
  let s ← get
  if s.startedReported = false ∧ job.startedAt.isSome then do
    let time ← call .timestamp
    call (ClientCall.report s!"[xlurm] {time} Job {id}: Task started.")
    modify fun s => { s with startedReported := true }

/-- The end of a turn: the exit code, if the job was over before the log was drained. -/
def concludeTurn (job : Job) (drained : Bool) : Foreground (Option Int) :=
  match job.result, drained with
  | some result, true => do
      match result.error with
      | some error => call (ClientCall.report s!"xlurm: {error}")
      | none => pure ()
      return some result.exitCode
  | _, _ => do
      call ClientCall.sleep
      return none

/-- One turn of the loop in `follow`; a code ends the loop. -/
def followTurn (id : Nat) : Foreground (Option Int) := do
  forwardInterrupt id
  match ← lift (← call (.request (.get id))) with
  | .job job => do
      reportWaiting id job
      reportStarted id job
      let drained ← drain id 16
      concludeTurn job drained
  | _ => throw "unexpected response"

/-! ## Sessions -/

namespace ClientCall

/-- What the environment decides about a call.  A request gets its answer from the
    daemon; here it fails.  A `write` may fail after some of the bytes. -/
@[reducible] def Raw : ClientCall → Type
  | interrupted => Bool
  | request _ => Error
  | waitedSecond => Bool
  | timestamp => String
  | report _ => Unit
  | write _ => Option (Nat × Error)
  | sleep => Unit

/-- One call of the client, which has written `written` so far. -/
def exec (written : List UInt8) : (c : ClientCall) → c.Raw → c.Reply × List UInt8
  | interrupted, b => (b, written)
  | request _, e => (.error e, written)
  | waitedSecond, b => (b, written)
  | timestamp, time => (time, written)
  | report _, _ => ((), written)
  | write bytes, none => (.ok (), written ++ bytes)
  | write bytes, some (n, e) => (.error e, written ++ bytes.take n)
  | sleep, _ => ((), written)

end ClientCall

abbrev ClientProg := Prog Follow ClientCall ClientCall.Reply (Except Error (Option Int))

inductive Client
  | acting (prog : ClientProg)
  /-- The daemon has taken up the client's request; the history had `since` entries. -/
  | waiting (since : Nat) (request : Request) (k : Except Error Response → ClientProg)

structure Session where
  sys : System
  /-- What the client has written to its standard output. -/
  written : List UInt8
  client : Client

/-- The response that an event records. -/
def Event.response? : Event → Option Response
  | answered _ _ _ response _ _ => some response
  | _ => none

/-- The first response that was sent after the history had `since` entries. -/
def Hist.answer (since : Nat) (hist : Hist) : Option Response :=
  (hist.reverse.drop since).findSome? (·.event.response?)

/-- What `daemon::request` makes of a response. -/
def Response.received : Response → Except Error Response
  | .error e => .error e
  | response => .ok response

inductive Move
  /-- Anything that happens on the machine, other requests to the daemon included. -/
  | system (action : Action)
  /-- The daemon takes up the request of the client. -/
  | send
  /-- The client receives the answer. -/
  | receive
  /-- The next call of the client; a request, also one that was taken up, fails. -/
  | client (env : (c : ClientCall) → c.Raw)
  /-- The client begins the next turn of its loop. -/
  | turn

namespace Session

/-- The peer `uid`, `gid` begins to follow job `id`. -/
def start (sys : System) (id : Nat) : Session := ⟨sys, [], .acting (followTurn id .new)⟩

/-- One move; a move that is not possible changes nothing. -/
def step (euid uid gid id : Nat) (s : Session) : Move → Session
  | .system action => { s with sys := s.sys.step euid action }
  | .send =>
      match s.client, s.sys.daemon with
      | .acting (.call _ (.request request) k), some (.ret _ (.ok .loop)) =>
          { s with
            sys := s.sys.step euid (.begin (.request uid gid request))
            client := .waiting s.sys.world.hist.length request k }
      | _, _ => s
  | .receive =>
      match s.client with
      | .waiting since _ k =>
          match s.sys.world.hist.answer since with
          | some response => { s with client := .acting (k response.received) }
          | none => s
      | .acting _ => s
  | .client env =>
      match s.client with
      | .acting (.call _ c k) =>
          { s with
            written := (c.exec s.written (env c)).2
            client := .acting (k (c.exec s.written (env c)).1) }
      | .waiting _ request k => { s with client := .acting (k (.error (env (.request request)))) }
      | .acting (.ret _ _) => s
  | .turn =>
      match s.client with
      | .acting (.ret st (.ok none)) => { s with client := .acting (followTurn id st) }
      | _ => s

def run (euid uid gid id : Nat) (s : Session) (moves : List Move) : Session :=
  moves.foldl (step euid uid gid id) s

/-- The exit code with which `follow` has returned. -/
def code (s : Session) : Option Int :=
  match s.client with
  | .acting (.ret _ (.ok code)) => code
  | _ => none

end Session

end Xlurm
