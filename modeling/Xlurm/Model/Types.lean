/-
  Xlurm.Model.Types

  The records of `model.rs`: devices, submissions, jobs and their outcomes, the
  persisted store, and the requests and responses of the socket protocol.

  Unsigned integers are `Nat`; the one place where the code checks for overflow
  (job ids are 64-bit) does so explicitly.  Errors are the text that
  `format!("{error:#}")` prints.
-/

import Mathlib.Init

namespace Xlurm

/-- What `format!("{error:#}")` prints of an `anyhow::Error`. -/
abbrev Error := String

inductive Kind
  | nvidia | ascend | mthreads | metax | ppu | hcu
  deriving DecidableEq, Repr

namespace Kind

/-- `Kind::PRIORITY`: the order in which automatic selection tries the vendors. -/
def priority : List Kind := [nvidia, ascend, mthreads, metax, ppu, hcu]

/-- `impl Display for Kind`. -/
def display : Kind → String
  | nvidia => "nv"
  | ascend => "asc"
  | mthreads => "mtt"
  | metax => "mx"
  | ppu => "ppu"
  | hcu => "hcu"

theorem mem_priority (kind : Kind) : kind ∈ priority := by
  cases kind <;> decide

end Kind

structure Device where
  kind : Kind
  id : Nat
  name : String
  /-- Stable vendor-specific identifier used for allocation and visibility. -/
  visible : String
  npu : Option Nat
  chip : Option Nat
  deriving DecidableEq, Repr

/-- `Device::key`. -/
def Device.key (device : Device) : String :=
  device.kind.display ++ ":" ++ device.visible

structure Submission where
  command : List String
  cwd : String
  env : List (String × String)
  name : String
  count : Nat
  deviceIds : Option (List Nat)
  excludeDeviceIds : List Nat
  kind : Option Kind
  timeLimit : Option Nat
  script : Option String
  deriving DecidableEq, Repr

structure Owner where
  uid : Nat
  gid : Nat
  name : String
  deriving DecidableEq, Repr

/-- `auth::account`: the kernel's ids, with the name that the local accounts have for the uid. -/
def Owner.account (uid gid : Nat) (name : Except Error String) : Except Error Owner :=
  name.map fun name => ⟨uid, gid, name⟩

inductive State
  | pending | running | completed | failed | cancelled | timedOut
  deriving DecidableEq, Repr

/-- `State::terminal`. -/
def State.terminal : State → Bool
  | pending | running => false
  | completed | failed | cancelled | timedOut => true

structure Outcome where
  state : State
  exitCode : Int
  finishedAt : Nat
  error : Option String
  deriving DecidableEq, Repr

structure Job where
  id : Nat
  owner : Owner
  spec : Submission
  state : State
  devices : List Device
  submittedAt : Nat
  startedAt : Option Nat
  result : Option Outcome
  deriving DecidableEq, Repr

/-- Queue metadata deliberately excludes commands, scripts and environment. -/
structure JobSummary where
  id : Nat
  owner : Owner
  name : String
  state : State
  count : Nat
  deviceIds : Option (List Nat)
  kind : Option Kind
  devices : List Device
  submittedAt : Nat
  startedAt : Option Nat
  finishedAt : Option Nat
  deriving DecidableEq, Repr

/-- `impl From<&Job> for JobSummary`. -/
def JobSummary.from (job : Job) : JobSummary where
  id := job.id
  owner := job.owner
  name := job.spec.name
  state := job.state
  count := job.spec.count
  deviceIds := job.spec.deviceIds
  kind := job.spec.kind
  devices := job.devices
  submittedAt := job.submittedAt
  startedAt := job.startedAt
  finishedAt := job.result.map (·.finishedAt)

/-- The content of `state.json`. -/
structure Store where
  nextId : Nat
  jobs : List Job
  deriving DecidableEq, Repr

/-- `Store::default()`. -/
def Store.default : Store := ⟨0, []⟩

inductive Request
  | submit (spec : Submission)
  | queue
  | get (id : Nat)
  | cancel (id : Nat)
  | log (id offset : Nat)
  | info
  | stop
  | restart
  | exclude (ids : List Nat)
  | include (ids : List Nat)
  deriving DecidableEq, Repr

structure DeviceView where
  device : Device
  job : Option Nat
  /-- idle, busy (outside xlurm), unknown (probe failed), allocated, unhealthy,
      or disabled (excluded by the scheduler, even if already allocated). -/
  status : String
  monitoringError : Option String
  deriving DecidableEq, Repr

inductive Response
  | job (job : Job)
  | queue (jobs : List JobSummary)
  | log (bytes : List UInt8) (offset : Nat)
  | info (views : List DeviceView)
  | ok
  | error (message : Error)
  deriving DecidableEq

/-! ## Stores -/

namespace Store

/-- Overwrite the job at position `i`. -/
def setJob (store : Store) (i : Nat) (job : Job) : Store :=
  { store with jobs := store.jobs.set i job }

@[simp] theorem setJob_nextId (store : Store) (i : Nat) (job : Job) :
    (store.setJob i job).nextId = store.nextId := rfl

@[simp] theorem setJob_jobs (store : Store) (i : Nat) (job : Job) :
    (store.setJob i job).jobs = store.jobs.set i job := rfl

/-- The store without the jobs whose id is in `expired`. -/
def retain (store : Store) (expired : List Nat) : Store :=
  { store with jobs := store.jobs.filter fun job => !expired.contains job.id }

@[simp] theorem retain_nextId (store : Store) (expired : List Nat) :
    (store.retain expired).nextId = store.nextId := rfl

theorem mem_retain {store : Store} {expired : List Nat} {job : Job} :
    job ∈ (store.retain expired).jobs ↔ job ∈ store.jobs ∧ job.id ∉ expired := by
  simp [retain]

end Store

end Xlurm
