/-
  Xlurm.Os.Executor

  `ProcessExecutor` of `executor.rs`: how the daemon starts, polls and cancels
  workers.

  Dropping the lock file at the end of `start` and `poll` is the call `close`;
  it happens on every path that has acquired the lock.
-/

import Xlurm.Os.Storage

namespace Xlurm

open Prog.Comp (call get modify lift throw attempt)

/-- The jobs whose `Child` handle is kept. -/
structure ProcessExecutor where
  children : List Nat

namespace ProcessExecutor

def new : ProcessExecutor := ⟨[]⟩

/-- `.context(text)?` on a result. -/
def context {α : Type} (text : Error) : Except Error α → Except Error α
  | .ok a => .ok a
  | .error e => .error (text ++ ": " ++ e)

/-- The part of `start` that runs while the lock is held. -/
def startLocked (pid : Nat) (job : Job) : Proc ProcessExecutor Unit := do
  writeJson pid (.job job.id .json) (.job job)
  lift (← call (.openAppend (.job job.id .log)))
  lift (← call (.tryClone (.job job.id .log)))
  lift (context "cannot start process executor worker" (← call (Sys.spawn job)))
  modify fun e => { e with children := job.id :: e.children }

def start (pid : Nat) (job : Job) : Proc ProcessExecutor Unit := do
  if ← tryLock (.job job.id .lock) then do
    let result ← attempt (startLocked pid job)
    call (Sys.close (.job job.id .lock))
    lift result
  else
    throw "worker already running"

/-- Forget the handle of job `id`. -/
def forget (id : Nat) : Proc ProcessExecutor Unit :=
  modify fun e => { e with children := e.children.filter (· ≠ id) }

/-- The part of `poll` that runs while the lock is held. -/
def pollLocked (id : Nat) : Proc ProcessExecutor Outcome := do
  let e ← get
  if id ∈ e.children then do
    forget id
    lift (← call (Sys.wait id))
  if ← call (Sys.pathExists (.job id .result)) then
    readJson Data.outcome? (.job id .result)
  else do
    let now ← call .now
    return failure "executor worker disappeared without an exit result" now

def poll (id : Nat) : Proc ProcessExecutor (Option Outcome) := do
  let e ← get
  if id ∈ e.children then do
    if ← lift (← call (Sys.tryWait id)) then
      forget id
  -- Do not release allocation until the worker has finished cleanup and
  -- closed its lock, even if the durable result is already visible.
  if ← tryLock (.job id .lock) then do
    let result ← attempt (pollLocked id)
    call (Sys.close (.job id .lock))
    let outcome ← lift result
    return some outcome
  else
    return none

def cancel (pid : Nat) (id : Nat) : Proc ProcessExecutor Unit :=
  writeJson pid (.job id .cancel) .marker

end ProcessExecutor

end Xlurm
