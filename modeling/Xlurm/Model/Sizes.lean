/-
  Xlurm.Model.Sizes

  How long the values of the protocol are when they are printed, and values whose
  texts have a bounded length.

  A job holds what one request had room for, the name of an account, devices from
  one inventory, and one outcome; so it is bounded although the store is not.
-/

import Xlurm.Json.Size
import Xlurm.Model.Scheduler
import Xlurm.Model.Wire

namespace Xlurm

open Json

/-! ## Values of a known size -/

theorem length_send {α : Type} {serde : Codec} (hcompact : ∀ j, serde.print j = utf8 (compact j))
    (format : Format α) (value : α) :
    (send serde format value).length = size (format.encode value) + 1 := by
  rw [send, List.length_append, hcompact]
  rfl

theorem size_u64_le {n : Nat} (h : n < 2 ^ 64) : size (u64.encode n) ≤ 20 :=
  size_num_le (by decide) (by omega)

theorem size_u32_le {n : Nat} (h : n < 2 ^ 32) : size (u32.encode n) ≤ 10 :=
  size_num_le (by decide) (by omega)

theorem size_optionU64_le {value : Option Nat} (h : ∀ n ∈ value, n < 2 ^ 64) :
    size (optionU64.encode value) ≤ 20 := by
  cases value with
  | none => decide
  | some n => exact size_u64_le (h n rfl)

theorem size_bytes_le (bytes : List UInt8) :
    size (Format.byte.list.encode bytes) ≤ bytes.length * 4 + 2 := by
  apply size_arr_le (Nat.le_of_eq (List.length_map _))
  intro j hj
  obtain ⟨b, _, rfl⟩ := List.mem_map.mp hj
  have hlt := b.toNat_lt
  exact size_num_le (by decide) (by omega)

/-- A field that may be left out. -/
theorem sum_fieldUnless_le (skip : Bool) (name : String) (j : Json) :
    ((fieldUnless skip name j).map entrySize).sum ≤ entrySize (name, j) := by
  cases skip with
  | true => exact Nat.zero_le _
  | false => exact Nat.le_of_eq (Nat.add_zero _)

theorem size_kind (kind : Option Kind) :
    4 ≤ size (optionKind.encode kind) ∧ size (optionKind.encode kind) ≤ 10 := by
  rcases kind with _ | kind
  · decide
  · cases kind <;> decide

theorem size_state (state : State) :
    8 ≤ size (State.format.encode state) ∧ size (State.format.encode state) ≤ 11 := by
  cases state <;> decide

/-- Pinning the kind changes one field. -/
theorem size_submission_kind (spec : Submission) (kind : Option Kind) :
    size (Submission.format.encode { spec with kind }) ≤
      size (Submission.format.encode spec) + 6 := by
  have hold := size_kind spec.kind
  have hnew := size_kind kind
  simp only [Submission.format, List.cons_append, size_obj_cons, List.map_append, List.map_cons,
    List.map_nil, List.sum_append, List.sum_cons, List.sum_nil, entrySize_mk]
  omega

/-! ## Responses -/

theorem size_response_job (job : Job) :
    size (Response.format.encode (.job job)) = size (Job.format.encode job) + 8 := by
  show size (obj [("Job", Job.format.encode job)]) = _
  have hname : textSize (quoted "Job") = 5 := by decide
  rw [size_content, hname]
  omega

theorem size_response_log (bytes : List UInt8) (offset : Nat) :
    size (Response.format.encode (.log bytes offset)) =
      size (Format.byte.list.encode bytes) + size (u64.encode offset) + 28 := by
  show size (obj [("Log", obj [("bytes", Format.byte.list.encode bytes),
    ("offset", u64.encode offset)])]) = _
  have hname : textSize (quoted "Log") = 5 := by decide
  have hbytes : textSize (quoted "bytes") = 7 := by decide
  have hoffset : textSize (quoted "offset") = 8 := by decide
  simp only [size_obj_cons, List.map_cons, List.map_nil, List.sum_cons, List.sum_nil,
    entrySize_mk, hname, hbytes, hoffset]
  omega

theorem size_response_info (views : List DeviceView) :
    size (Response.format.encode (.info views)) =
      size (arr (views.map DeviceView.format.encode)) + 9 := by
  show size (obj [("Info", arr (views.map DeviceView.format.encode))]) = _
  have hname : textSize (quoted "Info") = 6 := by decide
  rw [size_content, hname]
  omega

theorem size_response_error (message : Error) :
    size (Response.format.encode (.error message)) = size (str message) + 10 := by
  show size (obj [("Error", str message)]) = _
  have hname : textSize (quoted "Error") = 7 := by decide
  rw [size_content, hname]
  omega

/-- What a job takes in the answer to `Queue`, with the comma or bracket before it. -/
def summarySize (job : Job) : Nat := size (JobSummary.format.encode (JobSummary.from job)) + 1

theorem size_response_queue (jobs : List Job) :
    size (Response.format.encode (.queue (jobs.map JobSummary.from))) =
      (jobs.map summarySize).sum + if jobs = [] then 12 else 11 := by
  show size (obj [("Queue", arr ((jobs.map JobSummary.from).map JobSummary.format.encode))]) = _
  have hname : textSize (quoted "Queue") = 7 := by decide
  rw [size_content, hname, size_arr]
  cases jobs with
  | nil => rfl
  | cons job jobs =>
      -- Each summary counts what stands before it, so the closing bracket is left.
      have hsizes : (((job :: jobs).map JobSummary.from).map JobSummary.format.encode).map
          (fun j => size j + 1) = (job :: jobs).map summarySize := by
        simp [summarySize]
      rw [if_neg (by simp), if_neg (by simp), hsizes]
      omega

/-- The names of the fields alone are long. -/
theorem summarySize_ge (job : Job) : 142 ≤ summarySize job := by
  have hkeys : textSize (quoted "id") = 4 ∧ textSize (quoted "owner") = 7 ∧
      textSize (quoted "name") = 6 ∧ textSize (quoted "state") = 7 ∧
      textSize (quoted "count") = 7 ∧ textSize (quoted "kind") = 6 ∧
      textSize (quoted "devices") = 9 ∧ textSize (quoted "submitted_at") = 14 ∧
      textSize (quoted "started_at") = 12 ∧ textSize (quoted "finished_at") = 13 ∧
      textSize (quoted "uid") = 5 ∧ textSize (quoted "gid") = 5 := by decide
  have hkind := size_kind (JobSummary.from job).kind
  have hstate := size_state (JobSummary.from job).state
  simp only [summarySize, JobSummary.format, Owner.format, List.cons_append, size_obj_cons,
    List.map_append, List.map_cons, List.map_nil, List.sum_append, List.sum_cons, List.sum_nil,
    entrySize_mk, hkeys]
  omega

/-! ## Values with short texts -/

/-- The bound on a text of the inventory, printed. -/
def textLimit : Nat := 16 * 1024

/-- The bound on the number of devices. -/
def deviceLimit : Nat := 1024

/-- The bound on the text of an error, printed. -/
def errorLimit : Nat := 8 * 1024 * 1024

structure Owner.Bounded (owner : Owner) : Prop where
  uid : owner.uid < 2 ^ 32
  gid : owner.gid < 2 ^ 32
  /-- The buffer for the entry of an account. -/
  name : textSize owner.name.toList ≤ 1024 * 1024

/-- A submission from a request within the limit; a client may leave out fields that have
    defaults, and the scheduler may pin the kind. -/
structure Submission.Bounded (spec : Submission) : Prop where
  size_le : size (Submission.format.encode spec) ≤ requestLimit + 2048
  distinct : ∀ ids, spec.deviceIds = some ids → ids.Nodup

def Outcome.Bounded (outcome : Outcome) : Prop :=
  size (Outcome.format.encode outcome) ≤ errorLimit + 1024

structure Job.Bounded (job : Job) : Prop where
  id : job.id < 2 ^ 64
  owner : job.owner.Bounded
  spec : job.spec.Bounded
  few : job.devices.length ≤ deviceLimit
  devices : ∀ device ∈ job.devices, size (Device.format.encode device) ≤ textLimit
  submittedAt : job.submittedAt < 2 ^ 64
  startedAt : ∀ time ∈ job.startedAt, time < 2 ^ 64
  result : ∀ outcome ∈ job.result, outcome.Bounded

def Store.Bounded (store : Store) : Prop := ∀ job ∈ store.jobs, job.Bounded

structure Inventory.Bounded (inventory : Inventory) : Prop where
  few : inventory.devices.length ≤ deviceLimit
  devices : ∀ device ∈ inventory.devices, size (Device.format.encode device) ≤ textLimit
  nodup : (inventory.devices.map Device.key).Nodup
  status : ∀ key text, inventory.status key = some text → size (str text) ≤ textLimit
  errors : ∀ key text, inventory.monitoringErrors key = some text → size (str text) ≤ textLimit

def Error.Bounded (e : Error) : Prop := size (str e) ≤ errorLimit

structure Scheduler.Bounded (s : Scheduler) : Prop where
  store : s.store.Bounded
  inventory : s.inventory.Bounded

theorem Owner.Bounded.size_le {owner : Owner} (h : owner.Bounded) :
    size (Owner.format.encode owner) ≤ 6 * (1024 * 1024) + 45 := by
  have hu := size_u32_le h.uid
  have hg := size_u32_le h.gid
  have hname := size_str_le owner.name
  have hbound := h.name
  have hkeys : textSize (quoted "uid") = 5 ∧ textSize (quoted "gid") = 5 ∧
      textSize (quoted "name") = 6 := by decide
  show size (obj [("uid", u32.encode owner.uid), ("gid", u32.encode owner.gid),
    ("name", str owner.name)]) ≤ _
  simp only [size_obj_cons, List.map_cons, List.map_nil, List.sum_cons, List.sum_nil, entrySize_mk,
    hkeys]
  omega

theorem Job.Bounded.size_le {job : Job} (h : job.Bounded) :
    size (Job.format.encode job) ≤ 36 * (1024 * 1024) := by
  have hid := size_u64_le h.id
  have howner := h.owner.size_le
  have hspec := h.spec.size_le
  have hstate := (size_state job.state).2
  have hdevices : size (listDevice.encode job.devices) ≤ deviceLimit * (textLimit + 1) + 2 := by
    apply size_arr_le (by rw [List.length_map]; exact h.few)
    intro j hj
    obtain ⟨device, hdevice, rfl⟩ := List.mem_map.mp hj
    exact h.devices device hdevice
  have hsubmitted := size_u64_le h.submittedAt
  have hstarted := size_optionU64_le h.startedAt
  have hresult : size (optionOutcome.encode job.result) ≤ errorLimit + 1024 := by
    cases hresult : job.result with
    | none => decide
    | some outcome => exact h.result outcome hresult
  have hkeys : textSize (quoted "id") = 4 ∧ textSize (quoted "owner") = 7 ∧
      textSize (quoted "spec") = 6 ∧ textSize (quoted "state") = 7 ∧
      textSize (quoted "devices") = 9 ∧ textSize (quoted "submitted_at") = 14 ∧
      textSize (quoted "started_at") = 12 ∧ textSize (quoted "result") = 8 := by decide
  simp only [requestLimit, deviceLimit, textLimit, errorLimit] at hspec hdevices hresult
  simp only [Job.format, size_obj_cons, List.map_cons, List.map_nil, List.sum_cons, List.sum_nil,
    entrySize_mk, hkeys]
  omega

/-- An outcome without a text, or with the text of an error. -/
theorem Outcome.bounded_of {outcome : Outcome} (hexit : outcome.exitCode = 1 ∨ outcome.exitCode = 130)
    (hfinished : outcome.finishedAt < 2 ^ 64) (herror : ∀ e ∈ outcome.error, Error.Bounded e) :
    outcome.Bounded := by
  have hstate := (size_state outcome.state).2
  have hcode : size (Format.int32.encode outcome.exitCode) ≤ 3 := by
    rcases hexit with h | h <;> rw [h] <;> decide
  have hfinishedSize := size_u64_le hfinished
  have herrorSize : size (optionString.encode outcome.error) ≤ errorLimit := by
    cases houtcome : outcome.error with
    | none => decide
    | some e => exact herror e houtcome
  have hkeys : textSize (quoted "state") = 7 ∧ textSize (quoted "exit_code") = 11 ∧
      textSize (quoted "finished_at") = 13 ∧ textSize (quoted "error") = 7 := by decide
  simp only [Outcome.Bounded, Outcome.format, size_obj_cons, List.map_cons, List.map_nil,
    List.sum_cons, List.sum_nil, entrySize_mk, hkeys]
  omega

theorem Inventory.Bounded.size_view_le {inventory : Inventory} (h : inventory.Bounded)
    {view : DeviceView} (hdevice : view.device ∈ inventory.devices)
    (hjob : ∀ id ∈ view.job, id < 2 ^ 64) (hstatus : size (str view.status) ≤ textLimit)
    (herror : ∀ text ∈ view.monitoringError, size (str text) ≤ textLimit) :
    size (DeviceView.format.encode view) ≤ 3 * textLimit + 100 := by
  have hdeviceSize := h.devices _ hdevice
  have hjobSize := size_optionU64_le hjob
  have hkeys : textSize (quoted "device") = 8 ∧ textSize (quoted "job") = 5 ∧
      textSize (quoted "status") = 8 ∧ textSize (quoted "monitoring_error") = 18 := by decide
  have hstatusSize : size (Format.string.encode view.status) ≤ textLimit := hstatus
  have herrorSize : size (optionString.encode view.monitoringError) ≤ textLimit := by
    cases hmonitoring : view.monitoringError with
    | none => decide
    | some text => exact herror text hmonitoring
  have hfield := sum_fieldUnless_le view.monitoringError.isNone "monitoring_error"
    (optionString.encode view.monitoringError)
  rw [entrySize_mk, hkeys.2.2.2] at hfield
  simp only [DeviceView.format, List.cons_append, List.nil_append, size_obj_cons, List.map_cons,
    List.sum_cons, entrySize_mk, hkeys]
  omega

end Xlurm
