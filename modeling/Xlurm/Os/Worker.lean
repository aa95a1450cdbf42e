/-
  Xlurm.Os.Worker

  The worker process of `executor.rs`: the environment of the payload, the
  supervision loop, and the outcome that is written for the daemon.

  The loop takes a bound on its iterations.  A worker that reaches the bound
  hangs until it is killed; since the bound is chosen freely when the worker is
  started, runs of every length are covered.
-/

import Xlurm.Os.Storage

namespace Xlurm

open Prog.Comp (call lift throw attempt ensure)

/-! ## The payload's environment -/

/-- The devices of one kind, in allocation order. -/
def Job.devicesOf (job : Job) (kind : Kind) : List Device :=
  job.devices.filter (·.kind = kind)

/-- The values joined by commas, or `-1` if there are none. -/
def joinOrNone (values : List String) : String :=
  if values = [] then "-1" else ",".intercalate values

def visible (job : Job) (kind : Kind) : String :=
  joinOrNone ((job.devicesOf kind).map (·.visible))

def visibleIds (job : Job) (kind : Kind) : String :=
  joinOrNone ((job.devicesOf kind).map fun device => toString device.id)

/-- ROCR filters the physical devices first; HIP/CUDA address that reduced view. -/
def hcuRuntimeIds (job : Job) : String :=
  joinOrNone ((List.range (job.devicesOf .hcu).length).map toString)

def visibleForCuda (job : Job) : String :=
  if job.devicesOf .metax ≠ [] then visibleIds job .metax
  else if job.devicesOf .ppu ≠ [] then visible job .ppu
  else if job.devicesOf .hcu ≠ [] then hcuRuntimeIds job
  else visible job .nvidia

/-- `Command::env`. -/
def setEnv (env : List (String × String)) (name value : String) : List (String × String) :=
  (name, value) :: env.filter (·.1 ≠ name)

/-- `Command::env_remove`. -/
def removeEnv (env : List (String × String)) (name : String) : List (String × String) :=
  env.filter (·.1 ≠ name)

def payloadEnv (job : Job) (owner : Owner) : List (String × String) :=
  let env := setEnv job.spec.env "USER" owner.name
  let env := setEnv env "LOGNAME" owner.name
  let env := setEnv env "XLURM_JOB_ID" (toString job.id)
  let env := setEnv env "XLURM_SUBMIT_DIR" job.spec.cwd
  let env := setEnv env "CUDA_VISIBLE_DEVICES" (visibleForCuda job)
  let env := setEnv env "ASCEND_RT_VISIBLE_DEVICES" (visible job .ascend)
  let env := setEnv env "MUSA_VISIBLE_DEVICES" (visibleIds job .mthreads)
  let env := setEnv env "MTHREADS_VISIBLE_DEVICES" (visible job .mthreads)
  let env := setEnv env "MACA_VISIBLE_DEVICES" (visibleIds job .metax)
  let env := setEnv env "HIP_VISIBLE_DEVICES" (hcuRuntimeIds job)
  let env := setEnv env "ROCR_VISIBLE_DEVICES" (visibleIds job .hcu)
  let env := removeEnv env "ASCEND_DEVICE_ID"
  if job.devicesOf .ascend ≠ [] then setEnv env "ASCEND_DEVICE_ID" "0" else env

/-! ## Supervision -/

def sigterm : Nat := 15

def sigkill : Nat := 9

def ask (question : Ask) : Proc Unit question.Reply := call (Sys.ask question)

/-- Why the payload should be terminated now, if at all. -/
def terminationReason (job : Job) : Proc Unit (Option State) := do
  if ← call (Sys.pathExists (.job job.id .cancel)) then
    return some .cancelled
  if ← ask .interrupted then
    return some .cancelled
  match job.spec.timeLimit with
  | none => return none
  | some limit =>
      let elapsed ← ask .elapsedSecs
      return if limit ≤ elapsed then some .timedOut else none

/-- Begin termination when there is a reason and it has not begun yet. -/
def beginTermination (job : Job) : Option State → Proc Unit (Option State)
  | some state => return some state
  | none => do
      match ← terminationReason job with
      | none => return none
      | some reason => do
          ask (.signal sigterm)
          return some reason

/-- The loop that waits for the payload; returns why it was terminated, if it
    was, and how it exited. -/
def supervise (job : Job) : Nat → Option State → Proc Unit (Option State × ExitStatus)
  | 0, _ => do
      let never ← call Sys.hang
      nomatch never
  | fuel + 1, termination => do
      match ← lift (← ask .tryWait) with
      | some status => return (termination, status)
      | none => do
          let termination ← beginTermination job termination
          if termination.isSome then
            if ← ask .graceOver then
              ask (.signal sigkill)
          ask .sleep
          supervise job fuel termination

namespace ExitStatus

def success : ExitStatus → Bool
  | exited code => code == 0
  | signaled _ => false

/-- `status.code().unwrap_or(128 + status.signal().unwrap_or(0))`. -/
def code : ExitStatus → Int
  | exited code => code
  | signaled signal => 128 + signal

end ExitStatus

/-- The state that `execute` reports. -/
def outcomeState (termination : Option State) (status : ExitStatus) : State :=
  termination.getD (if status.success then .completed else .failed)

/-- The exit code that `execute` reports. -/
def outcomeCode (state : State) (status : ExitStatus) : Int :=
  match state with
  | .cancelled => 130
  | .timedOut => 124
  | _ => status.code

/-- The outcomes that `failure` and `execute` build. -/
inductive Outcome.Produced : Outcome → Prop
  | failure (message : Error) (now : Nat) : Produced (failure message now)
  | cancelled (now : Nat) : Produced (cancelledOutcome now)
  | exited (termination : Option State) (status : ExitStatus) (now : Nat)
      (h : ∀ state, termination = some state → state = .cancelled ∨ state = .timedOut) :
      Produced
        { state := outcomeState termination status
          exitCode := outcomeCode (outcomeState termination status) status
          finishedAt := now
          error := none }

/-- What the daemon relies on in a recorded outcome. -/
structure Outcome.Sound (outcome : Outcome) : Prop where
  terminal : outcome.state.terminal = true
  exitCode : outcome.exitCode = 0 ↔ outcome.state = .completed

theorem Outcome.Produced.sound {outcome : Outcome} (h : outcome.Produced) : outcome.Sound := by
  cases h with
  | failure message now => exact ⟨rfl, by simp [Xlurm.failure]⟩
  | cancelled now => exact ⟨rfl, by simp [cancelledOutcome]⟩
  | exited termination status now hstate =>
      cases termination with
      | some state =>
          rcases hstate state rfl with rfl | rfl
          · exact ⟨rfl, by simp [outcomeState, outcomeCode]⟩
          · exact ⟨rfl, by simp [outcomeState, outcomeCode]⟩
      | none =>
          cases status with
          | exited code =>
              by_cases hcode : code = 0
              · subst hcode
                exact ⟨rfl, by simp [outcomeState, outcomeCode, ExitStatus.success,
                  ExitStatus.code]⟩
              · refine ⟨?_, ?_⟩ <;>
                  simp [outcomeState, outcomeCode, ExitStatus.success, ExitStatus.code, hcode,
                    State.terminal]
          | signaled signal =>
              refine ⟨rfl, ?_⟩
              have hpos : (128 + (signal : Int)) ≠ 0 := by omega
              simp [outcomeState, outcomeCode, ExitStatus.success, ExitStatus.code, hpos]

/-- The command line: a batch script runs under `bash -c` with its name as `$0`. -/
def Submission.argv (spec : Submission) : List String :=
  match spec.script with
  | some script => ["bash", "-c", script, spec.name] ++ spec.command
  | none => spec.command

/-- `supplementary_groups`, which only root can assume. -/
def payloadGroups (euid : Nat) (owner : Owner) : Proc Unit (List Nat) :=
  if euid = 0 then do lift (← ask (.groups owner)) else pure []

/-- The checks and lookups of `execute` before it looks for a cancellation. -/
def prepare (job : Job) : Proc Unit Command := do
  let owner ← lift (Owner.account job.owner.uid job.owner.gid
    (← ask (.account job.owner.uid job.owner.gid)))
  ensure (owner.name = job.owner.name) "job owner's account changed since submission"
  let euid ← ask .geteuid
  let egid ← ask .getegid
  ensure (euid = 0 ∨ (owner.uid = euid ∧ owner.gid = egid))
    "executor cannot assume the submitting user's identity"
  let groups ← payloadGroups euid owner
  ensure ('\x00' ∉ job.spec.cwd.toList) "nul byte found in provided data"
  ensure (job.spec.argv ≠ []) "empty command"
  return { argv := job.spec.argv, env := payloadEnv job owner, cwd := job.spec.cwd, owner, groups
           privileged := euid = 0 }

def execute (fuel : Nat) (job : Job) : Proc Unit Outcome := do
  let command ← prepare job
  -- Cancellation may have arrived before this worker finished starting.
  if ← call (Sys.pathExists (.job job.id .cancel)) then do
    let now ← call .now
    return cancelledOutcome now
  match ← ask (.spawnPayload command) with
  | .error e => throw ("cannot execute " ++ command.argv.headD "" ++ ": " ++ e)
  | .ok () => do
      let result ← attempt (supervise job fuel none)
      -- A parent exiting does not give its background children ownership of a GPU.
      ask .reap
      let (termination, status) ← lift result
      let state := outcomeState termination status
      let now ← call .now
      return { state, exitCode := outcomeCode state status, finishedAt := now, error := none }

/-- The outcome of the job, be it an error of `execute`. -/
def executeOrFail (fuel : Nat) (job : Job) : Proc Unit Outcome := do
  match ← attempt (execute fuel job) with
  | .ok outcome => return outcome
  | .error e => do
      let now ← call .now
      return failure e now

/-- `executor::worker` up to the outcome. -/
def runJob (fuel id : Nat) : Proc Unit Outcome := do
  lift (← ask .inheritedLock)
  let job ← readJson Data.job? (.job id .json)
  lift (← ask .installSignals)
  ensure (← ask .enableSubreaper) "cannot enable child subreaper"
  executeOrFail fuel job

/-- `executor::worker` in the process `pid`. -/
def worker (pid fuel id : Nat) : Proc Unit Unit := do
  let result ← runJob fuel id
  writeJson pid (.job id .result) (.outcome result)

end Xlurm
