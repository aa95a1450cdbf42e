/-
  Xlurm.Os.Calls

  The system calls that the daemon and its workers issue, with the contents of
  the files they write.

  A JSON file is written in several pieces, so a file under construction is told
  apart from a finished one: `Data.head` has the first part of a value's text,
  `Data.whole` all of it, and `Data.garbage` is any mixture of two writers.
-/

import Xlurm.Model.Scheduler

namespace Xlurm

/-! ## File contents -/

/-- The values that `write_json` stores. -/
inductive Value
  | store (store : Store)
  | job (job : Job)
  | outcome (outcome : Outcome)
  /-- The cancellation marker, `true`. -/
  | marker
  deriving DecidableEq

/-- One `write` of a JSON text: its first part, or the rest with the newline. -/
inductive Piece
  | head (value : Value)
  | tail (value : Value)

inductive Data
  /-- Plain bytes: a log, an empty lock file, a file just created. -/
  | bytes (bytes : List UInt8)
  | head (value : Value)
  | whole (value : Value)
  | garbage

namespace Data

def empty : Data := bytes []

/-- The content after one more piece is written at the end. -/
def append : Data → Piece → Data
  | bytes [], .head value => head value
  | head value, .tail value' => if value = value' then whole value else garbage
  | _, _ => garbage

/-- `serde_json::from_slice`, before it is told which type to expect. -/
def value? : Data → Option Value
  | whole value => some value
  | _ => none

@[simp] theorem empty_append_head (value : Value) : empty.append (.head value) = head value := rfl

@[simp] theorem head_append_tail (value : Value) : (head value).append (.tail value) = whole value := by
  simp [append]

@[simp] theorem value?_whole (value : Value) : (whole value).value? = some value := rfl

def job? (data : Data) : Option Job :=
  match data.value? with
  | some (.job job) => some job
  | _ => none

def outcome? (data : Data) : Option Outcome :=
  match data.value? with
  | some (.outcome outcome) => some outcome
  | _ => none

def store? (data : Data) : Option Store :=
  match data.value? with
  | some (.store store) => some store
  | _ => none

end Data

/-! ## System calls -/

/-- How a payload process ended. -/
inductive ExitStatus
  | exited (code : Nat)
  | signaled (signal : Nat)
  deriving DecidableEq

/-- What a worker starts for its job. -/
structure Command where
  argv : List String
  /-- Handed to `execve` as strings `key=value`. -/
  env : List (String × String)
  cwd : String
  owner : Owner
  groups : List Nat
  /-- Set the owner's ids and groups before running the command. -/
  privileged : Bool

/-- What a worker asks about itself and about its payload; any answer is possible. -/
inductive Ask
  /-- The lock descriptor was inherited and is closed on exec from now on. -/
  | inheritedLock
  | installSignals
  | enableSubreaper
  | account (uid gid : Nat)
  | geteuid
  | getegid
  | groups (owner : Owner)
  | spawnPayload (command : Command)
  | tryWait
  | interrupted
  /-- Whole seconds since the payload was started. -/
  | elapsedSecs
  /-- A second or more has passed since termination began. -/
  | graceOver
  | signal (signal : Nat)
  | sleep
  /-- `impl Drop for Running`: kill the payload's group and reap it. -/
  | reap

namespace Ask

@[reducible] def Reply : Ask → Type
  | inheritedLock => Except Error Unit
  | installSignals => Except Error Unit
  | enableSubreaper => Bool
  | account _ _ => Except Error String
  | geteuid => Nat
  | getegid => Nat
  | groups _ => Except Error (List Nat)
  | spawnPayload _ => Except Error Unit
  | tryWait => Except Error (Option ExitStatus)
  | interrupted => Bool
  | elapsedSecs => Nat
  | graceOver => Bool
  | signal _ => Unit
  | sleep => Unit
  | reap => Unit

end Ask

inductive Sys
  | now
  | isDir (path : String)
  | account (uid gid : Nat)
  /-- `fs::read_dir` on `jobs/`. -/
  | readDir
  /-- `fs::remove_file`. -/
  | unlink (path : Path)
  | openLog (id : Nat)
  | readLog (id offset limit : Nat)
  /-- Open for writing, create or truncate. -/
  | create (path : Path)
  | write (path : Path) (piece : Piece)
  | fsync (path : Path)
  | rename (source target : Path)
  /-- Open and sync the directory of a renamed file. -/
  | syncDir
  /-- Open (or create) a lock file and `flock(LOCK_EX | LOCK_NB)` it. -/
  | flock (path : Path)
  /-- Close a locked file. -/
  | close (path : Path)
  /-- Open for appending, create if missing. -/
  | openAppend (path : Path)
  /-- `File::try_clone`. -/
  | tryClone (path : Path)
  /-- Start a worker that inherits the lock of the job and gets its id. -/
  | spawn (job : Job)
  /-- Whether the worker of job `id`, a child of the daemon, has exited. -/
  | tryWait (id : Nat)
  /-- Wait until the worker of job `id` has exited. -/
  | wait (id : Nat)
  | pathExists (path : Path)
  /-- `fs::read`. -/
  | read (path : Path)
  | ask (question : Ask)
  /-- Never answered. -/
  | hang
  /-- Ghost event. -/
  | note (event : Event)

namespace Sys

@[reducible] def Reply : Sys → Type
  | now => Nat
  | isDir _ => Bool
  | account _ _ => Except Error String
  | readDir => Except Error (List (Except Error Path))
  | unlink _ => FileResult
  | openLog _ => FileResult
  | readLog _ _ _ => Except Error (List UInt8)
  | create _ => Except Error Unit
  | write _ _ => Except Error Unit
  | fsync _ => Except Error Unit
  | rename _ _ => Except Error Unit
  | syncDir => Except Error Unit
  | flock _ => Except Error Bool
  | close _ => Unit
  | openAppend _ => Except Error Unit
  | tryClone _ => Except Error Unit
  | spawn _ => Except Error Unit
  | tryWait _ => Except Error Bool
  | wait _ => Except Error Unit
  | pathExists _ => Bool
  | read _ => Except Error Data
  | ask question => question.Reply
  | hang => Empty
  | note _ => Unit

end Sys

/-- A computation of one process, with a private state in `τ`. -/
abbrev Proc (τ α : Type) := Prog.Comp τ Sys Sys.Reply Error α

end Xlurm
