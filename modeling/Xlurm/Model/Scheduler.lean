/-
  Xlurm.Model.Scheduler

  `scheduler.rs`: the scheduler's state and its operations, as computations
  over the calls that it makes on its collaborators (the executor, `state.json`,
  the `jobs/` directory, the clock).

  `Scheduler<E>` is generic in its executor, so `start`, `poll` and `cancel` are
  calls here; `Xlurm.Os` implements them.  The state carried at every call is
  what `&mut self` holds at that moment.
-/

import Mathlib.Data.Finset.Basic
import Mathlib.Data.Finset.Dedup
import Mathlib.Data.List.Sort
import Xlurm.Model.Paths
import Xlurm.Model.Types
import Xlurm.Prog.Basic

namespace Xlurm

/-! ## State and calls -/

/-- The discovered devices and what the last refresh found out about them. -/
structure Inventory where
  devices : List Device
  status : String → Option String
  monitoringErrors : String → Option String

structure Scheduler where
  store : Store
  inventory : Inventory
  maxRunning : Nat
  excludedDevices : Finset String

/-- An operation that the daemon's main loop carries out. -/
inductive Op
  | request (uid gid : Nat) (request : Request)
  | tick
  | cleanup
  | refresh (status monitoringErrors : String → Option String)

/-- Ghost events: what a run did, for statements about whole runs.  No code
    reads them. -/
inductive Event
  /-- A daemon has loaded `state.json`. -/
  | booted
  /-- The main loop begins an operation; `mem` is the store in memory. -/
  | began (op : Op) (mem : Store)
  /-- A response is sent; `before` and `after` are the stores in memory. -/
  | answered (uid gid : Nat) (request : Request) (response : Response) (before after : Store)
  /-- `tick` returned `Ok`. -/
  | ticked
  /-- `cleanup` begins; `mem` is the store in memory. -/
  | cleaning (timestamp : Nat) (mem : Store)
  /-- `executor.start` is called. -/
  | started (job : Job)
  /-- A worker process exists for the job. -/
  | spawned (job : Job)
  /-- `executor.poll` returned `Ok`. -/
  | polled (id : Nat) (outcome : Option Outcome)

/-- The result of a file operation whose `NotFound` error is told apart. -/
inductive FileResult
  | ok
  | notFound
  | error (e : Error)
  deriving DecidableEq

inductive Call
  | now
  | isDir (path : String)
  /-- `write_json(state.json, store)`. -/
  | save (store : Store)
  | start (job : Job)
  | poll (id : Nat)
  | cancel (id : Nat)
  | readDir
  | removeFile (entry : Path)
  /-- The name of a local account. -/
  | account (uid gid : Nat)
  | openLog (id : Nat)
  /-- Seek to `offset` and read at most `limit` bytes of an open log. -/
  | readLog (id offset limit : Nat)
  | note (event : Event)

namespace Call

@[reducible] def Reply : Call → Type
  | now => Nat
  | isDir _ => Bool
  | save _ => Except Error Unit
  | start _ => Except Error Unit
  | poll _ => Except Error (Option Outcome)
  | cancel _ => Except Error Unit
  | readDir => Except Error (List (Except Error Path))
  | removeFile _ => FileResult
  | account _ _ => Except Error String
  | openLog _ => FileResult
  | readLog _ _ _ => Except Error (List UInt8)
  | note _ => Unit

end Call

abbrev Sched (α : Type) := Prog.Comp Scheduler Call Call.Reply Error α

open Prog.Comp (call get modify throw attempt lift ensure)

/-- `executor::failure`. -/
def failure (message : Error) (now : Nat) : Outcome where
  state := .failed
  exitCode := 1
  finishedAt := now
  error := some message

/-- `ids.iter().collect::<HashSet<_>>().len() == ids.len()`. -/
def distinct (ids : List Nat) : Bool := ids.dedup.length == ids.length

theorem distinct_iff (ids : List Nat) : distinct ids = true ↔ ids.Nodup := by
  rw [distinct, beq_iff_eq]
  constructor
  · intro h
    have heq : ids.dedup = ids := (List.dedup_sublist ids).eq_of_length h
    exact heq ▸ List.nodup_dedup ids
  · intro h
    rw [h.dedup]

/-! ## Allocation -/

/-- The kinds, in priority order, that have all requested ids. -/
def matchingKinds (spec : Submission) (devices : List Device) : List Kind :=
  (Kind.priority.filter fun kind => spec.kind.all (· == kind)).filter fun kind =>
    spec.deviceIds.any fun ids =>
      ids.all fun id => devices.any fun device => device.kind == kind && device.id == id

/-- One requested id: the first device of the kind with that id, unless reserved. -/
def exactDevice (kind : Kind) (devices : List Device) (reserved : Finset String) (id : Nat) :
    Option Device :=
  (devices.find? fun device => device.kind == kind && device.id == id).filter
    fun device => device.key ∉ reserved

/-- The first `spec.count` usable devices of one kind. -/
def pool (spec : Submission) (devices : List Device) (reserved : Finset String) (kind : Kind) :
    List Device :=
  (devices.filter fun device =>
    device.kind == kind && device.key ∉ reserved &&
      !spec.excludeDeviceIds.contains device.id).take spec.count

/-- The loop over `Kind::PRIORITY` in `allocate`. -/
def allocateAny (spec : Submission) (devices : List Device) (reserved : Finset String) :
    List Kind → Option (List Device)
  | [] => none
  | kind :: rest =>
      if spec.kind.any (· != kind) then
        allocateAny spec devices reserved rest
      else if (pool spec devices reserved kind).length = spec.count then
        some (pool spec devices reserved kind)
      else
        allocateAny spec devices reserved rest

def allocate (spec : Submission) (devices : List Device) (reserved : Finset String) :
    Option (List Device) :=
  match spec.deviceIds with
  | some ids =>
      match (matchingKinds spec devices).head? with
      | none => none
      | some kind =>
          (ids.mapM (exactDevice kind devices reserved)).filter (·.length == ids.length)
  | none =>
      if spec.count = 0 then some []
      else allocateAny spec devices reserved Kind.priority

/-! ## Excluding devices -/

/-- Every id has to name a device of the selected backends. -/
def ensureKnown (devices : List Device) : List Nat → Sched Unit
  | [] => pure ()
  | id :: rest => do
      ensure (devices.any (·.id == id))
        s!"excluded device ID {id} does not exist in the selected backends"
      ensureKnown devices rest

def setDevicesExcluded (ids : List Nat) (excluded : Bool) : Sched Unit := do
  ensure (distinct ids) "excluded device IDs must not contain duplicates"
  let s ← get
  ensureKnown s.inventory.devices ids
  let keys := (s.inventory.devices.filter (ids.contains ·.id)).map Device.key
  modify fun s => { s with
    excludedDevices := keys.foldl
      (fun excludedDevices key =>
        if excluded then insert key excludedDevices else excludedDevices.erase key)
      s.excludedDevices }

def excludeDevices (ids : List Nat) : Sched Unit := setDevicesExcluded ids true

/-! ## Saving and cleaning up -/

def historyRetentionSecs : Nat := 7 * 24 * 60 * 60

def save : Sched Unit := do
  let s ← get
  lift (← call (.save s.store))

/-- A terminal job whose age has reached the retention time. -/
def Job.expired (job : Job) (timestamp : Nat) : Bool :=
  job.state.terminal &&
    job.result.any fun result => historyRetentionSecs ≤ timestamp - result.finishedAt

/-- The set `expired` of `cleanup`. -/
def Store.expired (store : Store) (timestamp : Nat) : List Nat :=
  (store.jobs.filter (·.expired timestamp)).map (·.id)

/-- The directory loop of `cleanup`. -/
def removeArtifacts (expired : List Nat) : List (Except Error Path) → Sched Unit
  | [] => pure ()
  | entry :: rest => do
      let entry ← lift entry
      match parseJobFile entry.fileName.toList with
      | none => removeArtifacts expired rest
      | some (id, isJobFile) =>
          if expired.contains id && isJobFile then do
            match ← call (Call.removeFile entry) with
            | .ok | .notFound => removeArtifacts expired rest
            | .error e => throw e
          else
            removeArtifacts expired rest

def cleanup (timestamp : Nat) : Sched Unit := do
  let s ← get
  let expired := s.store.expired timestamp
  if expired = [] then
    return ()
  -- Delete artifacts before forgetting their IDs.
  let entries ← lift (← call .readDir)
  removeArtifacts expired entries
  let retained := s.store.retain expired
  lift (← call (.save retained))
  modify fun s => { s with store := retained }

/-! ## Submitting -/

/-- The checks on exact device ids; they pin the kind. -/
def checkDeviceIds (s : Scheduler) (spec : Submission) (ids : List Nat) : Sched Submission := do
  ensure (ids ≠ []) "device IDs must not be empty"
  ensure (spec.count = ids.length) "device count must match device IDs"
  ensure (distinct ids) "device IDs must not contain duplicates"
  ensure (spec.excludeDeviceIds = []) "-x cannot be combined with exact -i device IDs"
  match matchingKinds spec s.inventory.devices with
  | [] => throw "requested device IDs do not exist in the selected backend"
  | [kind] => do
      ensure (s.inventory.devices.all fun device =>
          device.kind != kind || !ids.contains device.id || device.key ∉ s.excludedDevices)
        "requested device IDs include a device disabled by the scheduler"
      return { spec with kind := some kind }
  | _ => throw "device IDs are ambiguous across backends; specify --device"

/-- `if let Some(ids) = &spec.device_ids { … }`. -/
def resolveSpec (s : Scheduler) (spec : Submission) : Sched Submission :=
  match spec.deviceIds with
  | some ids => checkDeviceIds s spec ids
  | none => return spec

/-- Append a new job. -/
def Scheduler.push (s : Scheduler) (job : Job) : Scheduler :=
  { s with store := ⟨job.id, s.store.jobs ++ [job]⟩ }

/-- Drop the last job; `next_id` stays. -/
def Scheduler.pop (s : Scheduler) : Scheduler :=
  { s with store := { s.store with jobs := s.store.jobs.dropLast } }

/-- Overwrite the job at position `i`. -/
def Scheduler.setJob (s : Scheduler) (i : Nat) (job : Job) : Scheduler :=
  { s with store := s.store.setJob i job }

/-- The checks of `submit` on the request; they pin the kind of exact ids. -/
def checkSubmission (spec : Submission) : Sched Submission := do
  ensure (spec.script.isSome ∨ spec.command ≠ []) "empty command"
  ensure (← call (.isDir spec.cwd)) "working directory does not exist"
  ensure (spec.timeLimit ≠ some 0) "time-limit must be positive"
  ensure (distinct spec.excludeDeviceIds) "excluded device IDs must not contain duplicates"
  let s ← get
  let spec ← resolveSpec s spec
  ensure (allocate spec s.inventory.devices s.excludedDevices).isSome
    s!"requested {spec.count} device(s), but no matching pool has enough enabled devices"
  return spec

def submit (spec : Submission) (owner : Owner) : Sched Job := do
  let spec ← checkSubmission spec
  let s ← get
  -- `checked_add` on a `u64`.
  ensure (s.store.nextId + 1 < 2 ^ 64) "job ID exhausted"
  let submittedAt ← call .now
  let job : Job :=
    { id := s.store.nextId + 1, owner, spec, state := .pending, devices := [], submittedAt
      startedAt := none, result := none }
  modify (·.push job)
  match ← attempt save with
  | .ok () => return job
  | .error e => do
      modify Scheduler.pop
      throw e

def getJob (id : Nat) : Sched Job := do
  let s ← get
  match s.store.jobs.find? (·.id == id) with
  | some job => return job
  | none => throw "job not found"

/-! ## Cancelling -/

def cancelledOutcome (now : Nat) : Outcome where
  state := .cancelled
  exitCode := 130
  finishedAt := now
  error := none

def cancel (id : Nat) : Sched Unit := do
  let s ← get
  match s.store.jobs.findIdx? (·.id == id) with
  | none => throw "job not found"
  | some i =>
      match s.store.jobs[i]? with
      | none => throw "job not found"
      | some job =>
          match job.state with
          | .pending => do
              let now ← call .now
              modify (·.setJob i
                { job with state := .cancelled, result := some (cancelledOutcome now) })
              save
          | .running => lift (← call (.cancel id))
          | _ => return ()

/-! ## Scheduling -/

/-- The poll loop of `tick`; returns whether a job changed. -/
def pollJobs : List Nat → Bool → Sched Bool
  | [], changed => return changed
  | i :: rest, changed => do
      let s ← get
      match s.store.jobs[i]? with
      | none => pollJobs rest changed
      | some job =>
          if job.state = .running then do
            match ← lift (← call (.poll job.id)) with
            | none => pollJobs rest changed
            | some outcome => do
                modify (·.setJob i { job with state := outcome.state, result := some outcome })
                pollJobs rest true
          else
            pollJobs rest changed

/-- The keys of the devices that `jobs` hold while running. -/
def runningKeys (jobs : List Job) : List String :=
  (jobs.filter (·.state = .running)).flatMap fun job => job.devices.map Device.key

/-- The devices that may not be allocated now: held by a running job, excluded
    by an administrator, or not reported idle. -/
def Scheduler.reserved (s : Scheduler) : Finset String :=
  (runningKeys s.store.jobs).toFinset ∪ s.excludedDevices ∪
    ((s.inventory.devices.filter fun device =>
      (s.inventory.status device.key).all (· != "idle")).map Device.key).toFinset

def runningCount (store : Store) : Nat := (store.jobs.filter (·.state = .running)).length

/-- The job count requested at a position. -/
def countAt (store : Store) (i : Nat) : Nat := (store.jobs[i]?.map (·.spec.count)).getD 0

/-- The positions of the pending jobs, larger requests first; the sort is stable
    (`sort_by_key` with `Reverse`). -/
def pendingOrder (store : Store) : List Nat :=
  ((List.range store.jobs.length).filter fun i =>
    store.jobs[i]?.any (·.state = .pending)).insertionSort
      fun i j => countAt store j ≤ countAt store i

/-- The start loop of `tick`. -/
def startJobs : List Nat → Finset String → Nat → Sched Unit
  | [], _, _ => return ()
  | i :: rest, reserved, running => do
      let s ← get
      if s.maxRunning ≤ running then
        return ()
      match s.store.jobs[i]? with
      | none => startJobs rest reserved running
      | some job =>
          match allocate job.spec s.inventory.devices reserved with
          | none => startJobs rest reserved running
          | some devices => do
              let now ← call .now
              let job := { job with devices, state := State.running, startedAt := some now }
              modify (·.setJob i job)
              -- Persist intent before spawning: restart never submits a running
              -- job twice, including a crash between fork and the first poll.
              save
              match ← call (Call.start job) with
              | .error e => do
                  let now ← call .now
                  modify (·.setJob i
                    { job with state := .failed, result := some (failure e now) })
                  save
                  startJobs rest reserved running
              | .ok () =>
                  startJobs rest (reserved ∪ (job.devices.map Device.key).toFinset) (running + 1)

def tick : Sched Unit := do
  let s ← get
  let changed ← pollJobs (List.range s.store.jobs.length) false
  if changed then
    save
  let s ← get
  startJobs (pendingOrder s.store) s.reserved (runningCount s.store)

/-! ## The device view -/

def Scheduler.info (s : Scheduler) : List DeviceView :=
  s.inventory.devices.map fun device =>
    let job := (s.store.jobs.find? fun job =>
      job.state == .running && job.devices.any (·.key == device.key)).map (·.id)
    { device, job
      monitoringError := s.inventory.monitoringErrors device.key
      status :=
        if device.key ∈ s.excludedDevices then "disabled"
        else if job.isSome then "allocated"
        else (s.inventory.status device.key).getD "unknown" }

end Xlurm
