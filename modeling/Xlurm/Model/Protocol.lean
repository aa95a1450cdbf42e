/-
  Xlurm.Model.Protocol

  The serde formats of the types of `model.rs`.

  `Typed` says of a record what the Rust types of its fields guarantee: the
  widths of the integers, and the order of the environment, a `BTreeMap`.
-/

import Xlurm.Json.Format
import Xlurm.Model.Types

namespace Xlurm

open Json

def u32 : Format Nat := Format.unsigned 32 (by decide)

def u64 : Format Nat := Format.unsigned 64 (by decide)

/-- On a 64-bit machine. -/
def usize : Format Nat := u64

def optionU32 : Format (Option Nat) := u32.option (fun _ => nofun)

def optionU64 : Format (Option Nat) := u64.option (fun _ => nofun)

def optionString : Format (Option String) := Format.string.option (fun _ => nofun)

def listU32 : Format (List Nat) := u32.list

def optionListU32 : Format (Option (List Nat)) := listU32.option (fun _ => nofun)

def listString : Format (List String) := Format.string.list

/-- `#[serde(rename_all = "lowercase")]`. -/
def Kind.lowercase : Kind → String
  | nvidia => "nvidia"
  | ascend => "ascend"
  | mthreads => "mthreads"
  | metax => "metax"
  | ppu => "ppu"
  | hcu => "hcu"

def Kind.format : Format Kind :=
  Format.enumeration Kind.priority Kind.lowercase Kind.mem_priority
    (by intro a b; cases a <;> cases b <;> decide)

def optionKind : Format (Option Kind) := Kind.format.option (fun _ => nofun)

/-- `#[serde(rename_all = "SCREAMING_SNAKE_CASE")]`. -/
def State.screaming : State → String
  | pending => "PENDING"
  | running => "RUNNING"
  | completed => "COMPLETED"
  | failed => "FAILED"
  | cancelled => "CANCELLED"
  | timedOut => "TIMED_OUT"

def State.format : Format State :=
  Format.enumeration [.pending, .running, .completed, .failed, .cancelled, .timedOut]
    State.screaming (by intro a; cases a <;> decide) (by intro a b; cases a <;> cases b <;> decide)

/-! ## Devices -/

structure Device.Typed (device : Device) : Prop where
  id : device.id < 2 ^ 32
  npu : ∀ n ∈ device.npu, n < 2 ^ 32
  chip : ∀ n ∈ device.chip, n < 2 ^ 32

def Device.fields : List String := ["kind", "id", "name", "visible", "npu", "chip"]

def Device.format : Format Device where
  encode device := obj [("kind", Kind.format.encode device.kind), ("id", u32.encode device.id),
    ("name", Format.string.encode device.name), ("visible", Format.string.encode device.visible),
    ("npu", optionU32.encode device.npu), ("chip", optionU32.encode device.chip)]
  decode j := do
    let m ← members Device.fields false j
    return {
      kind := ← m.required Kind.format "kind"
      id := ← m.required u32 "id"
      name := ← m.required Format.string "name"
      visible := ← m.required Format.string "visible"
      npu := ← m.optional optionU32 "npu"
      chip := ← m.optional optionU32 "chip" }
  Valid := Device.Typed
  depth := 1
  native := by
    intro device h
    apply Native.obj
    simp only [List.mem_cons, List.not_mem_nil, or_false, forall_eq_or_imp, forall_eq]
    exact ⟨Kind.format.native _ trivial, u32.native _ h.id, Format.string.native _ trivial,
      Format.string.native _ trivial, optionU32.native _ h.npu, optionU32.native _ h.chip⟩
  round_trip := by
    intro device h
    have hlisted : Listed Device.fields false Device.fields := by decide
    rw [members_of_listed]
    · simp [Members.required, Members.optional, Members.get, Kind.format.round_trip _ trivial,
        u32.round_trip _ h.id, Format.string.round_trip _ trivial, optionU32.round_trip _ h.npu,
        optionU32.round_trip _ h.chip]
    · exact hlisted

/-! ## Submissions -/

structure Submission.Typed (spec : Submission) : Prop where
  env : Format.Sorted spec.env
  count : spec.count < 2 ^ 64
  deviceIds : ∀ ids ∈ spec.deviceIds, ∀ id ∈ ids, id < 2 ^ 32
  excludeDeviceIds : ∀ id ∈ spec.excludeDeviceIds, id < 2 ^ 32
  timeLimit : ∀ n ∈ spec.timeLimit, n < 2 ^ 64

def Submission.fields : List String :=
  ["command", "cwd", "env", "name", "count", "device_ids", "exclude_device_ids", "kind",
    "time_limit", "script"]

/-- `#[serde(deny_unknown_fields)]`. -/
def Submission.format : Format Submission where
  encode spec := obj (
    [("command", listString.encode spec.command), ("cwd", Format.string.encode spec.cwd),
      ("env", Format.string.map.encode spec.env), ("name", Format.string.encode spec.name),
      ("count", usize.encode spec.count)] ++
    fieldUnless spec.deviceIds.isNone "device_ids" (optionListU32.encode spec.deviceIds) ++
    fieldUnless spec.excludeDeviceIds.isEmpty "exclude_device_ids"
      (listU32.encode spec.excludeDeviceIds) ++
    [("kind", optionKind.encode spec.kind), ("time_limit", optionU64.encode spec.timeLimit),
      ("script", optionString.encode spec.script)])
  decode j := do
    let m ← members Submission.fields true j
    return {
      command := ← m.required listString "command"
      cwd := ← m.required Format.string "cwd"
      env := ← m.required Format.string.map "env"
      name := ← m.required Format.string "name"
      count := ← m.required usize "count"
      deviceIds := ← m.defaulted optionListU32 none "device_ids"
      excludeDeviceIds := ← m.defaulted listU32 [] "exclude_device_ids"
      kind := ← m.optional optionKind "kind"
      timeLimit := ← m.optional optionU64 "time_limit"
      script := ← m.optional optionString "script" }
  Valid := Submission.Typed
  depth := 2
  native := by
    intro spec h
    apply Native.obj
    simp only [List.forall_mem_append, List.forall_mem_cons]
    refine ⟨⟨⟨⟨?_, ?_, ?_, ?_, ?_, nofun⟩, ?_⟩, ?_⟩, ?_, ?_, ?_, nofun⟩
    · exact listString.native_le (fun _ _ => trivial) (by decide)
    · exact Format.string.native_le trivial (by decide)
    · exact Format.string.map.native_le ⟨h.env, fun _ _ => trivial⟩ (by decide)
    · exact Format.string.native_le trivial (by decide)
    · exact usize.native_le h.count (by decide)
    · exact native_fieldUnless _ _ (optionListU32.native_le h.deviceIds (by decide))
    · exact native_fieldUnless _ _ (listU32.native_le h.excludeDeviceIds (by decide))
    · exact optionKind.native_le (fun _ _ => trivial) (by decide)
    · exact optionU64.native_le h.timeLimit (by decide)
    · exact optionString.native_le (fun _ _ => trivial) (by decide)
  round_trip := by
    rintro ⟨command, cwd, env, name, count, deviceIds, excludeDeviceIds, kind, timeLimit, script⟩ h
    have hcommand := listString.round_trip command fun _ _ => trivial
    have henv := Format.string.map.round_trip env ⟨h.env, fun _ _ => trivial⟩
    have hcount := usize.round_trip count h.count
    have hids := optionListU32.round_trip deviceIds h.deviceIds
    have hexclude := listU32.round_trip excludeDeviceIds h.excludeDeviceIds
    have hkind := optionKind.round_trip kind fun _ _ => trivial
    have htime := optionU64.round_trip timeLimit h.timeLimit
    have hscript := optionString.round_trip script fun _ _ => trivial
    rw [members_of_listed]
    · cases deviceIds <;> cases excludeDeviceIds <;>
      simp [fieldUnless, Members.required, Members.optional, Members.defaulted, Members.get,
        Format.string.round_trip _ trivial, *]
    · cases deviceIds <;> cases excludeDeviceIds <;> simp [fieldUnless] <;> decide

/-! ## Jobs -/

structure Owner.Typed (owner : Owner) : Prop where
  uid : owner.uid < 2 ^ 32
  gid : owner.gid < 2 ^ 32

def Owner.fields : List String := ["uid", "gid", "name"]

def Owner.format : Format Owner where
  encode owner := obj [("uid", u32.encode owner.uid), ("gid", u32.encode owner.gid),
    ("name", Format.string.encode owner.name)]
  decode j := do
    let m ← members Owner.fields false j
    return {
      uid := ← m.required u32 "uid"
      gid := ← m.required u32 "gid"
      name := ← m.required Format.string "name" }
  Valid := Owner.Typed
  depth := 1
  native := by
    intro owner h
    apply Native.obj
    simp only [List.forall_mem_cons]
    refine ⟨?_, ?_, ?_, nofun⟩
    · exact u32.native _ h.uid
    · exact u32.native _ h.gid
    · exact Format.string.native _ trivial
  round_trip := by
    intro owner h
    have hlisted : Listed Owner.fields false Owner.fields := by decide
    rw [members_of_listed]
    · simp [Members.required, Members.get, u32.round_trip _ h.uid, u32.round_trip _ h.gid,
        Format.string.round_trip _ trivial]
    · exact hlisted

structure Outcome.Typed (outcome : Outcome) : Prop where
  exitCode : -2 ^ 31 ≤ outcome.exitCode ∧ outcome.exitCode < 2 ^ 31
  finishedAt : outcome.finishedAt < 2 ^ 64

def Outcome.fields : List String := ["state", "exit_code", "finished_at", "error"]

def Outcome.format : Format Outcome where
  encode outcome := obj [("state", State.format.encode outcome.state),
    ("exit_code", Format.int32.encode outcome.exitCode),
    ("finished_at", u64.encode outcome.finishedAt), ("error", optionString.encode outcome.error)]
  decode j := do
    let m ← members Outcome.fields false j
    return {
      state := ← m.required State.format "state"
      exitCode := ← m.required Format.int32 "exit_code"
      finishedAt := ← m.required u64 "finished_at"
      error := ← m.optional optionString "error" }
  Valid := Outcome.Typed
  depth := 1
  native := by
    intro outcome h
    apply Native.obj
    simp only [List.forall_mem_cons]
    refine ⟨?_, ?_, ?_, ?_, nofun⟩
    · exact State.format.native _ trivial
    · exact Format.int32.native _ h.exitCode
    · exact u64.native _ h.finishedAt
    · exact optionString.native _ fun _ _ => trivial
  round_trip := by
    intro outcome h
    have hlisted : Listed Outcome.fields false Outcome.fields := by decide
    have herror := optionString.round_trip outcome.error fun _ _ => trivial
    rw [members_of_listed]
    · simp [Members.required, Members.optional, Members.get, State.format.round_trip _ trivial,
        Format.int32.round_trip _ h.exitCode, u64.round_trip _ h.finishedAt, herror]
    · exact hlisted

def optionOutcome : Format (Option Outcome) := Outcome.format.option (fun _ => nofun)

def listDevice : Format (List Device) := Device.format.list

structure Job.Typed (job : Job) : Prop where
  id : job.id < 2 ^ 64
  owner : job.owner.Typed
  spec : job.spec.Typed
  devices : ∀ device ∈ job.devices, device.Typed
  submittedAt : job.submittedAt < 2 ^ 64
  startedAt : ∀ n ∈ job.startedAt, n < 2 ^ 64
  result : ∀ outcome ∈ job.result, outcome.Typed

def Job.fields : List String :=
  ["id", "owner", "spec", "state", "devices", "submitted_at", "started_at", "result"]

def Job.format : Format Job where
  encode job := obj [("id", u64.encode job.id), ("owner", Owner.format.encode job.owner),
    ("spec", Submission.format.encode job.spec), ("state", State.format.encode job.state),
    ("devices", listDevice.encode job.devices), ("submitted_at", u64.encode job.submittedAt),
    ("started_at", optionU64.encode job.startedAt), ("result", optionOutcome.encode job.result)]
  decode j := do
    let m ← members Job.fields false j
    return {
      id := ← m.required u64 "id"
      owner := ← m.required Owner.format "owner"
      spec := ← m.required Submission.format "spec"
      state := ← m.required State.format "state"
      devices := ← m.required listDevice "devices"
      submittedAt := ← m.required u64 "submitted_at"
      startedAt := ← m.optional optionU64 "started_at"
      result := ← m.optional optionOutcome "result" }
  Valid := Job.Typed
  depth := 3
  native := by
    intro job h
    apply Native.obj
    simp only [List.forall_mem_cons]
    refine ⟨?_, ?_, ?_, ?_, ?_, ?_, ?_, ?_, nofun⟩
    · exact u64.native_le h.id (by decide)
    · exact Owner.format.native_le h.owner (by decide)
    · exact Submission.format.native_le h.spec (by decide)
    · exact State.format.native_le trivial (by decide)
    · exact listDevice.native_le h.devices (by decide)
    · exact u64.native_le h.submittedAt (by decide)
    · exact optionU64.native_le h.startedAt (by decide)
    · exact optionOutcome.native_le h.result (by decide)
  round_trip := by
    intro job h
    have hlisted : Listed Job.fields false Job.fields := by decide
    rw [members_of_listed]
    · simp [Members.required, Members.optional, Members.get, u64.round_trip _ h.id,
        Owner.format.round_trip _ h.owner, Submission.format.round_trip _ h.spec,
        State.format.round_trip _ trivial, listDevice.round_trip _ h.devices,
        u64.round_trip _ h.submittedAt, optionU64.round_trip _ h.startedAt,
        optionOutcome.round_trip _ h.result]
    · exact hlisted

structure JobSummary.Typed (summary : JobSummary) : Prop where
  id : summary.id < 2 ^ 64
  owner : summary.owner.Typed
  count : summary.count < 2 ^ 64
  deviceIds : ∀ ids ∈ summary.deviceIds, ∀ id ∈ ids, id < 2 ^ 32
  devices : ∀ device ∈ summary.devices, device.Typed
  submittedAt : summary.submittedAt < 2 ^ 64
  startedAt : ∀ n ∈ summary.startedAt, n < 2 ^ 64
  finishedAt : ∀ n ∈ summary.finishedAt, n < 2 ^ 64

def JobSummary.fields : List String :=
  ["id", "owner", "name", "state", "count", "device_ids", "kind", "devices", "submitted_at",
    "started_at", "finished_at"]

def JobSummary.format : Format JobSummary where
  encode summary := obj (
    [("id", u64.encode summary.id), ("owner", Owner.format.encode summary.owner),
      ("name", Format.string.encode summary.name), ("state", State.format.encode summary.state),
      ("count", usize.encode summary.count)] ++
    fieldUnless summary.deviceIds.isNone "device_ids" (optionListU32.encode summary.deviceIds) ++
    [("kind", optionKind.encode summary.kind), ("devices", listDevice.encode summary.devices),
      ("submitted_at", u64.encode summary.submittedAt),
      ("started_at", optionU64.encode summary.startedAt),
      ("finished_at", optionU64.encode summary.finishedAt)])
  decode j := do
    let m ← members JobSummary.fields false j
    return {
      id := ← m.required u64 "id"
      owner := ← m.required Owner.format "owner"
      name := ← m.required Format.string "name"
      state := ← m.required State.format "state"
      count := ← m.required usize "count"
      deviceIds := ← m.defaulted optionListU32 none "device_ids"
      kind := ← m.defaulted optionKind none "kind"
      devices := ← m.required listDevice "devices"
      submittedAt := ← m.required u64 "submitted_at"
      startedAt := ← m.optional optionU64 "started_at"
      finishedAt := ← m.optional optionU64 "finished_at" }
  Valid := JobSummary.Typed
  depth := 3
  native := by
    intro summary h
    apply Native.obj
    simp only [List.forall_mem_append, List.forall_mem_cons]
    refine ⟨⟨⟨?_, ?_, ?_, ?_, ?_, nofun⟩, ?_⟩, ?_, ?_, ?_, ?_, ?_, nofun⟩
    · exact u64.native_le h.id (by decide)
    · exact Owner.format.native_le h.owner (by decide)
    · exact Format.string.native_le trivial (by decide)
    · exact State.format.native_le trivial (by decide)
    · exact usize.native_le h.count (by decide)
    · exact native_fieldUnless _ _ (optionListU32.native_le h.deviceIds (by decide))
    · exact optionKind.native_le (fun _ _ => trivial) (by decide)
    · exact listDevice.native_le h.devices (by decide)
    · exact u64.native_le h.submittedAt (by decide)
    · exact optionU64.native_le h.startedAt (by decide)
    · exact optionU64.native_le h.finishedAt (by decide)
  round_trip := by
    rintro ⟨id, owner, name, state, count, deviceIds, kind, devices, submittedAt, startedAt,
      finishedAt⟩ h
    have hid := u64.round_trip id h.id
    have howner := Owner.format.round_trip owner h.owner
    have hstate := State.format.round_trip state trivial
    have hcount := usize.round_trip count h.count
    have hids := optionListU32.round_trip deviceIds h.deviceIds
    have hkind := optionKind.round_trip kind fun _ _ => trivial
    have hdevices := listDevice.round_trip devices h.devices
    have hsubmitted := u64.round_trip submittedAt h.submittedAt
    have hstarted := optionU64.round_trip startedAt h.startedAt
    have hfinished := optionU64.round_trip finishedAt h.finishedAt
    rw [members_of_listed]
    · cases deviceIds <;>
      simp [fieldUnless, Members.required, Members.optional, Members.defaulted, Members.get,
        Format.string.round_trip _ trivial, *]
    · cases deviceIds <;> simp [fieldUnless] <;> decide

structure DeviceView.Typed (view : DeviceView) : Prop where
  device : view.device.Typed
  job : ∀ id ∈ view.job, id < 2 ^ 64

def DeviceView.fields : List String := ["device", "job", "status", "monitoring_error"]

def DeviceView.format : Format DeviceView where
  encode view := obj (
    [("device", Device.format.encode view.device), ("job", optionU64.encode view.job),
      ("status", Format.string.encode view.status)] ++
    fieldUnless view.monitoringError.isNone "monitoring_error"
      (optionString.encode view.monitoringError))
  decode j := do
    let m ← members DeviceView.fields false j
    return {
      device := ← m.required Device.format "device"
      job := ← m.optional optionU64 "job"
      status := ← m.required Format.string "status"
      monitoringError := ← m.defaulted optionString none "monitoring_error" }
  Valid := DeviceView.Typed
  depth := 2
  native := by
    intro view h
    apply Native.obj
    simp only [List.forall_mem_append, List.forall_mem_cons]
    refine ⟨⟨?_, ?_, ?_, nofun⟩, ?_⟩
    · exact Device.format.native_le h.device (by decide)
    · exact optionU64.native_le h.job (by decide)
    · exact Format.string.native_le trivial (by decide)
    · exact native_fieldUnless _ _ (optionString.native_le (fun _ _ => trivial) (by decide))
  round_trip := by
    rintro ⟨device, job, status, monitoringError⟩ h
    have hdevice := Device.format.round_trip device h.device
    have hjob := optionU64.round_trip job h.job
    have herror := optionString.round_trip monitoringError fun _ _ => trivial
    rw [members_of_listed]
    · cases monitoringError <;>
      simp [fieldUnless, Members.required, Members.optional, Members.defaulted, Members.get,
        Format.string.round_trip _ trivial, *]
    · cases monitoringError <;> simp [fieldUnless] <;> decide

/-! ## Files -/

def listJob : Format (List Job) := Job.format.list

structure Store.Typed (store : Store) : Prop where
  nextId : store.nextId < 2 ^ 64
  jobs : ∀ job ∈ store.jobs, job.Typed

def Store.fields : List String := ["next_id", "jobs"]

def Store.format : Format Store where
  encode store := obj [("next_id", u64.encode store.nextId), ("jobs", listJob.encode store.jobs)]
  decode j := do
    let m ← members Store.fields false j
    return { nextId := ← m.required u64 "next_id", jobs := ← m.required listJob "jobs" }
  Valid := Store.Typed
  depth := 5
  native := by
    intro store h
    apply Native.obj
    simp only [List.forall_mem_cons]
    exact ⟨u64.native_le h.nextId (by decide), listJob.native_le h.jobs (by decide), nofun⟩
  round_trip := by
    intro store h
    have hlisted : Listed Store.fields false Store.fields := by decide
    rw [members_of_listed]
    · simp [Members.required, Members.get, u64.round_trip _ h.nextId, listJob.round_trip _ h.jobs]
    · exact hlisted

/-- `bool`. -/
def bool : Format Bool where
  encode b := .bool b
  decode
    | .bool b => some b
    | _ => none
  Valid _ := True
  depth := 0
  native b _ := Native.bool 0 b
  round_trip _ _ := rfl

/-! ## Messages -/

/-- The fields of `Request::Log`. -/
def Request.logFields : List String := ["id", "offset"]

/-- The content of `Request::Log`. -/
def Request.logFormat : Format (Nat × Nat) where
  encode log := obj [("id", u64.encode log.1), ("offset", u64.encode log.2)]
  decode j := do
    let m ← members Request.logFields false j
    return (← m.required u64 "id", ← m.required u64 "offset")
  Valid log := log.1 < 2 ^ 64 ∧ log.2 < 2 ^ 64
  depth := 1
  native := by
    intro log h
    apply Native.obj
    simp only [List.forall_mem_cons]
    exact ⟨u64.native _ h.1, u64.native _ h.2, nofun⟩
  round_trip := by
    intro log h
    have hlisted : Listed Request.logFields false Request.logFields := by decide
    rw [members_of_listed]
    · simp [Members.required, Members.get, u64.round_trip _ h.1, u64.round_trip _ h.2]
    · exact hlisted

def Request.Typed : Request → Prop
  | .submit spec => spec.Typed
  | .get id | .cancel id => id < 2 ^ 64
  | .log id offset => id < 2 ^ 64 ∧ offset < 2 ^ 64
  | .exclude ids | .include ids => ∀ id ∈ ids, id < 2 ^ 32
  | .queue | .info | .stop | .restart => True

def Request.format : Format Request where
  encode
    | .submit spec => obj [("Submit", Submission.format.encode spec)]
    | .queue => str "Queue"
    | .get id => obj [("Get", u64.encode id)]
    | .cancel id => obj [("Cancel", u64.encode id)]
    | .log id offset => obj [("Log", Request.logFormat.encode (id, offset))]
    | .info => str "Info"
    | .stop => str "Stop"
    | .restart => str "Restart"
    | .exclude ids => obj [("Exclude", listU32.encode ids)]
    | .include ids => obj [("Include", listU32.encode ids)]
  decode := decodeVariant [("Submit", content Submission.format.decode Request.submit),
    ("Queue", bare Request.queue), ("Get", content u64.decode Request.get),
    ("Cancel", content u64.decode Request.cancel),
    ("Log", content Request.logFormat.decode fun log => Request.log log.1 log.2),
    ("Info", bare Request.info), ("Stop", bare Request.stop), ("Restart", bare Request.restart),
    ("Exclude", content listU32.decode Request.exclude),
    ("Include", content listU32.decode Request.include)]
  Valid := Request.Typed
  depth := 3
  native := by
    intro request h
    cases request with
    | submit spec => exact native_content Submission.format _ h (by decide)
    | queue | info | stop | restart => exact Native.str _ _
    | get id | cancel id => exact native_content u64 _ h (by decide)
    | log id offset => exact native_content Request.logFormat _ h (by decide)
    | exclude ids | «include» ids => exact native_content listU32 _ h (by decide)
  round_trip := by
    intro request h
    cases request with
    | queue | info | stop | restart => exact decodeVariant_bare (by simp)
    | submit spec => exact decodeVariant_content Submission.format _ (by simp) h
    | get id | cancel id => exact decodeVariant_content u64 _ (by simp) h
    | log id offset =>
        exact decodeVariant_content Request.logFormat (fun log => Request.log log.1 log.2) (by simp) h
    | exclude ids | «include» ids => exact decodeVariant_content listU32 _ (by simp) h

/-- The fields of `Response::Log`. -/
def Response.logFields : List String := ["bytes", "offset"]

/-- The content of `Response::Log`. -/
def Response.logFormat : Format (List UInt8 × Nat) where
  encode log := obj [("bytes", Format.byte.list.encode log.1), ("offset", u64.encode log.2)]
  decode j := do
    let m ← members Response.logFields false j
    return (← m.required Format.byte.list "bytes", ← m.required u64 "offset")
  Valid log := log.2 < 2 ^ 64
  depth := 2
  native := by
    intro log h
    apply Native.obj
    simp only [List.forall_mem_cons]
    refine ⟨?_, ?_, nofun⟩
    · exact Format.byte.list.native_le (fun _ _ => trivial) (by decide)
    · exact u64.native_le h (by decide)
  round_trip := by
    intro log h
    have hlisted : Listed Response.logFields false Response.logFields := by decide
    have hbytes := Format.byte.list.round_trip log.1 fun _ _ => trivial
    rw [members_of_listed]
    · simp [Members.required, Members.get, hbytes, u64.round_trip _ h]
    · exact hlisted

def listJobSummary : Format (List JobSummary) := JobSummary.format.list

def listDeviceView : Format (List DeviceView) := DeviceView.format.list

def Response.Typed : Response → Prop
  | .job found => found.Typed
  | .queue jobs => ∀ summary ∈ jobs, summary.Typed
  | .log _ offset => offset < 2 ^ 64
  | .info views => ∀ view ∈ views, view.Typed
  | .ok | .error _ => True

def Response.format : Format Response where
  encode
    | .job found => obj [("Job", Job.format.encode found)]
    | .queue jobs => obj [("Queue", listJobSummary.encode jobs)]
    | .log bytes offset => obj [("Log", Response.logFormat.encode (bytes, offset))]
    | .info views => obj [("Info", listDeviceView.encode views)]
    | .ok => str "Ok"
    | .error message => obj [("Error", Format.string.encode message)]
  decode := decodeVariant [("Job", content Job.format.decode Response.job),
    ("Queue", content listJobSummary.decode Response.queue),
    ("Log", content Response.logFormat.decode fun log => Response.log log.1 log.2),
    ("Info", content listDeviceView.decode Response.info), ("Ok", bare Response.ok),
    ("Error", content Format.string.decode Response.error)]
  Valid := Response.Typed
  depth := 5
  native := by
    intro response h
    cases response with
    | job found => exact native_content Job.format _ h (by decide)
    | queue jobs => exact native_content listJobSummary _ h (by decide)
    | log bytes offset => exact native_content Response.logFormat _ h (by decide)
    | info views => exact native_content listDeviceView _ h (by decide)
    | ok => exact Native.str _ _
    | error message => exact native_content Format.string _ trivial (by decide)
  round_trip := by
    intro response h
    cases response with
    | job found => exact decodeVariant_content Job.format _ (by simp) h
    | queue jobs => exact decodeVariant_content listJobSummary _ (by simp) h
    | log bytes offset =>
        exact decodeVariant_content Response.logFormat (fun log => Response.log log.1 log.2)
          (by simp) h
    | info views => exact decodeVariant_content listDeviceView _ (by simp) h
    | ok => exact decodeVariant_bare (by simp)
    | error message => exact decodeVariant_content Format.string _ (by simp) trivial

end Xlurm
