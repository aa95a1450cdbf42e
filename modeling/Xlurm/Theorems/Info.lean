/-
  Xlurm.Theorems.Info

  `xinfo` and the scheduler agree about which devices are free.

  `info` and `tick` compute availability separately: `info` gives a device one
  of several states, in an order of precedence, and `tick` collects the keys of
  the devices that it may not hand out.
-/

import Xlurm.Theorems.Exclusivity

namespace Xlurm

/-- The job is running and has the device with this key. -/
def Job.Holds (job : Job) (key : String) : Prop :=
  job.state = .running ∧ ∃ device ∈ job.devices, device.key = key

variable {s : Scheduler} {view : DeviceView} {device : Device}

/-! ## What `info` looks at -/

/-- The search of `info` for the job on a device. -/
def holder (jobs : List Job) (key : String) : Option Job :=
  jobs.find? fun job => job.state == .running && job.devices.any (·.key == key)

theorem holds_iff {job : Job} {key : String} :
    (job.state == .running && job.devices.any (·.key == key)) = true ↔ job.Holds key := by
  rw [Bool.and_eq_true, beq_iff_eq, List.any_eq_true]
  simp only [beq_iff_eq, Job.Holds]

theorem holder_eq_none_iff {jobs : List Job} {key : String} :
    holder jobs key = none ↔ ∀ job ∈ jobs, ¬ job.Holds key := by
  rw [holder, List.find?_eq_none]
  constructor
  · intro h job hj hholds
    exact h job hj (holds_iff.mpr hholds)
  · intro h job hj hfound
    exact h job hj (holds_iff.mp hfound)

theorem holds_of_holder {jobs : List Job} {key : String} {job : Job}
    (h : holder jobs key = some job) : job ∈ jobs ∧ job.Holds key := by
  rw [holder] at h
  have hfound := List.find?_some h
  exact ⟨List.mem_of_find?_eq_some h, holds_iff.mp hfound⟩

/-- Every view is that of an inventory device. -/
theorem mem_info (hview : view ∈ s.info) :
    view.device ∈ s.inventory.devices ∧
      view.job = (holder s.store.jobs view.device.key).map (·.id) ∧
      view.status =
        if view.device.key ∈ s.excludedDevices then "disabled"
        else if view.job.isSome then "allocated"
        else (s.inventory.status view.device.key).getD "unknown" := by
  obtain ⟨device, hdevice, rfl⟩ := List.mem_map.mp hview
  exact ⟨hdevice, rfl, rfl⟩

theorem info_devices (s : Scheduler) : s.info.map (·.device) = s.inventory.devices := by
  rw [Scheduler.info, List.map_map]
  exact List.map_id _

/-! ## What `tick` looks at -/

/-- A device is not reserved when nobody holds it, it is not excluded, and it was last seen
    idle. -/
theorem notMem_reserved (hdevice : device ∈ s.inventory.devices) :
    device.key ∉ s.reserved ↔
      (∀ job ∈ s.store.jobs, ¬ job.Holds device.key) ∧ device.key ∉ s.excludedDevices ∧
        s.inventory.status device.key = some "idle" := by
  have hbusy : device.key ∈ ((s.inventory.devices.filter fun d =>
      (s.inventory.status d.key).all (· != "idle")).map Device.key) ↔
      s.inventory.status device.key ≠ some "idle" := by
    have hall : ∀ status : Option String, status.all (· != "idle") = true ↔ status ≠ some "idle" := by
      rintro (_ | status)
      · simp
      · simp
    rw [List.mem_map]
    constructor
    · rintro ⟨d, hd, hkey⟩
      rw [← hkey]
      exact (hall _).mp (List.mem_filter.mp hd).2
    · intro hstatus
      exact ⟨device, List.mem_filter.mpr ⟨hdevice, (hall _).mpr hstatus⟩, rfl⟩
  have hheld : device.key ∈ runningKeys s.store.jobs ↔ ∃ job ∈ s.store.jobs, job.Holds device.key :=
    mem_runningKeys
  simp only [Scheduler.reserved, Finset.mem_union, List.mem_toFinset, hheld, hbusy, not_or,
    not_exists, not_and, not_not, and_assoc]

/-! ## Agreement -/

/-- `info` calls a device idle if and only if `tick` may hand it out. -/
theorem idle_iff (hview : view ∈ s.info) :
    view.status = "idle" ↔ view.device.key ∉ s.reserved := by
  obtain ⟨hdevice, hjob, hstatus⟩ := mem_info hview
  rw [notMem_reserved hdevice, ← holder_eq_none_iff, hstatus]
  -- The three cases of `info`, in its order of precedence.
  by_cases hexcluded : view.device.key ∈ s.excludedDevices
  · rw [if_pos hexcluded]
    exact iff_of_false (by decide) fun h => h.2.1 hexcluded
  · rw [if_neg hexcluded]
    cases hholder : holder s.store.jobs view.device.key with
    | some job =>
        rw [hholder] at hjob
        rw [hjob, Option.map_some, Option.isSome_some, if_pos rfl]
        exact iff_of_false (by decide) fun h => absurd h.1 (by simp)
    | none =>
        rw [hholder] at hjob
        rw [hjob, Option.map_none, Option.isSome_none, if_neg (by decide)]
        cases s.inventory.status view.device.key with
        | none => exact iff_of_false (by decide) fun h => absurd h.2.2 (by simp)
        | some status =>
            rw [Option.getD_some, Option.some.injEq]
            exact ⟨fun h => ⟨rfl, hexcluded, h⟩, fun h => h.2.2⟩

/-! ## The job that `info` names -/

/-- Running jobs share no device, and an id names one job. -/
theorem Inv.holds_unique {L : Ledger} {m : Store} (h : Inv L) (hm : L.mem = some m)
    {job other : Job} (hj : job ∈ m.jobs) (ho : other ∈ m.jobs) {key : String}
    (hholds : job.Holds key) (hholds' : other.Holds key) : other = job := by
  obtain ⟨hrun, d, hd, hkey⟩ := hholds
  obtain ⟨hrun', d', hd', hkey'⟩ := hholds'
  by_cases hid : other.id = job.id
  · exact (h.memOrdered m hm).eq_of_id ho hj hid
  · have hapart := h.apart other job (Or.inr ⟨m, hm, ho⟩) (Or.inr ⟨m, hm, hj⟩) hrun' hrun hid
    exact absurd (hkey'.trans hkey.symm) (hapart d' hd' d hd)

theorem Inv.named_iff {L : Ledger} (h : Inv L) (hm : L.mem = some s.store) (hview : view ∈ s.info)
    {job : Job} (hj : job ∈ s.store.jobs) :
    view.job = some job.id ↔ job.Holds view.device.key := by
  obtain ⟨_, hjob, _⟩ := mem_info hview
  rw [hjob, Option.map_eq_some_iff]
  constructor
  · rintro ⟨found, hfound, hid⟩
    obtain ⟨hmem, hholds⟩ := holds_of_holder hfound
    have hsame : found = job := (h.memOrdered _ hm).eq_of_id hmem hj hid
    rw [← hsame]
    exact hholds
  · intro hholds
    cases hfound : holder s.store.jobs view.device.key with
    | none => exact absurd hholds (holder_eq_none_iff.mp hfound job hj)
    | some found =>
        obtain ⟨hmem, hholds'⟩ := holds_of_holder hfound
        have hsame : found = job := h.holds_unique hm hj hmem hholds hholds'
        exact ⟨found, rfl, by rw [hsame]⟩

theorem unnamed_iff (hview : view ∈ s.info) :
    view.job = none ↔ ∀ job ∈ s.store.jobs, ¬ job.Holds view.device.key := by
  obtain ⟨_, hjob, _⟩ := mem_info hview
  rw [hjob, Option.map_eq_none_iff]
  exact holder_eq_none_iff

theorem exists_of_named (hview : view ∈ s.info) {id : Nat} (hid : view.job = some id) :
    ∃ job ∈ s.store.jobs, job.id = id := by
  obtain ⟨_, hjob, _⟩ := mem_info hview
  rw [hjob] at hid
  obtain ⟨found, hfound, hfoundid⟩ := Option.map_eq_some_iff.mp hid
  exact ⟨found, (holds_of_holder hfound).1, hfoundid⟩

/-! ## In every run -/

/-- In every state of every run: `info` has one view for each inventory device; it reports
    idle exactly the devices that `tick` would not reserve in that state; the job that it
    names is the only running job that holds the device, and it names none exactly when there
    is none. -/
theorem info_agrees (euid : Nat) (actions : List Action) :
    let sys := System.init.run euid actions
    (∀ s, sys.mem = some s → s.info.map (·.device) = s.inventory.devices) ∧
    (∀ s, sys.mem = some s → ∀ view ∈ s.info,
      (view.status = "idle" ↔ view.device.key ∉ s.reserved)) ∧
    (∀ s, sys.mem = some s → ∀ view ∈ s.info, ∀ job ∈ s.store.jobs,
      (view.job = some job.id ↔ job.Holds view.device.key) ∧
      ∀ other ∈ s.store.jobs, job.Holds view.device.key → other.Holds view.device.key →
        other = job) ∧
    (∀ s, sys.mem = some s → ∀ view ∈ s.info,
      (∀ id, view.job = some id → ∃ job ∈ s.store.jobs, job.id = id) ∧
      (view.job = none ↔ ∀ job ∈ s.store.jobs, ¬ job.Holds view.device.key)) := by
  intro sys
  have hinv : Inv sys.ledger := (System.init_good.run euid actions).reach.inv
  refine ⟨fun s _ => info_devices s, fun s _ view hview => idle_iff hview, ?_, ?_⟩
  · intro s hs view hview job hj
    have hmem : sys.ledger.mem = some s.store := System.ledger_mem hs
    exact ⟨hinv.named_iff hmem hview hj, fun other ho => hinv.holds_unique hmem hj ho⟩
  · intro s hs view hview
    exact ⟨fun id hid => exists_of_named hview hid, unnamed_iff hview⟩

end Xlurm
