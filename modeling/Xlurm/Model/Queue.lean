/-
  Xlurm.Model.Queue

  The order in which `tick` considers the pending jobs, and what the running jobs
  take away from the others: devices, and places under `max_running`.
-/

import Mathlib.Data.List.Pairwise
import Xlurm.Lists.Order
import Xlurm.Model.Store

namespace Xlurm

variable {store : Store} {s : Scheduler} {i j : Nat}

/-! ## The order of the queue -/

theorem pendingOrder_perm (store : Store) :
    (pendingOrder store).Perm ((List.range store.jobs.length).filter fun i =>
      store.jobs[i]?.any (·.state = .pending)) :=
  List.perm_insertionSort _ _

theorem pendingOrder_nodup (store : Store) : (pendingOrder store).Nodup :=
  (pendingOrder_perm store).nodup_iff.mpr (List.nodup_range.filter _)

theorem mem_pendingOrder :
    i ∈ pendingOrder store ↔ ∃ job, store.jobs[i]? = some job ∧ job.state = .pending := by
  rw [(pendingOrder_perm store).mem_iff, List.mem_filter, List.mem_range, Option.any_eq_true]
  constructor
  · rintro ⟨_, job, hi, hpend⟩
    exact ⟨job, hi, of_decide_eq_true hpend⟩
  · rintro ⟨job, hi, hpend⟩
    exact ⟨(List.getElem?_eq_some_iff.mp hi).1, job, hi, decide_eq_true hpend⟩

/-- The job at position `i` comes before the one at `j`: it requests more devices, or
    as many and was submitted earlier. -/
def Before (store : Store) (i j : Nat) : Prop :=
  countAt store j < countAt store i ∨ (countAt store j = countAt store i ∧ i < j)

/-- The pending jobs by decreasing count, equal counts in submission order. -/
structure IsQueue (store : Store) (order : List Nat) : Prop where
  pending : ∀ i, i ∈ order ↔ ∃ job, store.jobs[i]? = some job ∧ job.state = .pending
  sorted : order.Pairwise (Before store)

/-- The sort of `tick` is stable. -/
theorem pendingOrder_isQueue (store : Store) : IsQueue store (pendingOrder store) := by
  refine ⟨fun i => mem_pendingOrder, ?_⟩
  have hpositions : ((List.range store.jobs.length).filter fun i =>
      store.jobs[i]?.any (·.state = .pending)).Pairwise (· < ·) :=
    List.pairwise_lt_range.filter _
  -- The key is the count, and the larger one comes first.
  have hsorted := Lists.insertionSort_key (fun i => OrderDual.toDual (countAt store i)) hpositions
  refine List.Pairwise.imp ?_ hsorted
  rintro i j (hlt | ⟨heq, hij⟩)
  · exact Or.inl hlt
  · exact Or.inr ⟨(OrderDual.toDual_inj.mp heq).symm, hij⟩

/-- There is only one such order. -/
theorem IsQueue.unique {order order' : List Nat} (h : IsQueue store order)
    (h' : IsQueue store order') : order = order' := by
  -- `Before` is a strict order, and both lists hold the same positions.
  have hirrefl : ∀ i, ¬ Before store i i := by
    rintro i (hlt | ⟨_, hlt⟩)
    · exact Nat.lt_irrefl _ hlt
    · exact Nat.lt_irrefl _ hlt
  have hnodup : ∀ {order : List Nat}, order.Pairwise (Before store) → order.Nodup :=
    fun hsorted => hsorted.imp fun {i j} (hbefore : Before store i j) (heq : i = j) =>
      hirrefl i (heq ▸ hbefore)
  have hperm : order.Perm order' := by
    rw [List.perm_ext_iff_of_nodup (hnodup h.sorted) (hnodup h'.sorted)]
    exact fun i => (h.pending i).trans (h'.pending i).symm
  refine hperm.eq_of_pairwise ?_ h.sorted h'.sorted
  intro i j _ _ hij hji
  rcases hij with hij | ⟨_, hij⟩ <;> rcases hji with hji | ⟨_, hji⟩ <;> omega

/-! ## What running jobs hold -/

/-- The device is idle, not excluded, and no running job holds it. -/
structure Scheduler.Available (s : Scheduler) (device : Device) : Prop where
  idle : s.inventory.status device.key = some "idle"
  enabled : device.key ∉ s.excludedDevices
  unheld : ∀ job ∈ s.store.jobs, job.state = .running →
    ∀ held ∈ job.devices, held.key ≠ device.key

theorem mem_runningKeys {jobs : List Job} {key : String} :
    key ∈ runningKeys jobs ↔ ∃ job ∈ jobs, job.state = .running ∧
      ∃ device ∈ job.devices, device.key = key := by
  simp [runningKeys, List.mem_flatMap, and_assoc]

theorem mem_reserved_of_running {job : Job} (hj : job ∈ s.store.jobs)
    (hrun : job.state = .running) {device : Device} (hdevice : device ∈ job.devices) :
    device.key ∈ s.reserved := by
  have hkey : device.key ∈ runningKeys s.store.jobs :=
    mem_runningKeys.mpr ⟨job, hj, hrun, device, hdevice, rfl⟩
  exact Finset.mem_union_left _ (Finset.mem_union_left _ (List.mem_toFinset.mpr hkey))

/-- The devices that are not reserved are those that are available. -/
theorem not_mem_reserved_iff {device : Device} (hdevice : device ∈ s.inventory.devices) :
    device.key ∉ s.reserved ↔ s.Available device := by
  -- Status is looked up by key, so equal keys have equal status.
  have hbusy : device.key ∈ ((s.inventory.devices.filter fun device =>
      (s.inventory.status device.key).all (· != "idle")).map Device.key) ↔
      s.inventory.status device.key ≠ some "idle" := by
    rw [List.mem_map]
    constructor
    · rintro ⟨other, hother, hkey⟩
      have hstatus := (List.mem_filter.mp hother).2
      rw [← hkey]
      rintro heq
      simp [heq] at hstatus
    · intro hne
      refine ⟨device, List.mem_filter.mpr ⟨hdevice, ?_⟩, rfl⟩
      cases hstatus : s.inventory.status device.key with
      | none => rfl
      | some status =>
          rw [hstatus] at hne
          simpa using fun heq => hne (congrArg some heq)
  rw [Scheduler.reserved, Finset.mem_union, Finset.mem_union, List.mem_toFinset,
    List.mem_toFinset, hbusy, mem_runningKeys]
  constructor
  · intro h
    obtain ⟨h, hidle⟩ := not_or.mp h
    obtain ⟨hunheld, henabled⟩ := not_or.mp h
    refine ⟨not_not.mp hidle, henabled, ?_⟩
    exact fun job hj hrun held hheld heq => hunheld ⟨job, hj, hrun, held, hheld, heq⟩
  · rintro ⟨hidle, henabled, hunheld⟩ ((⟨job, hj, hrun, held, hheld, heq⟩ | hexcluded) | hstatus)
    · exact hunheld job hj hrun held hheld heq
    · exact henabled hexcluded
    · exact hstatus hidle

/-! ## Overwriting a job -/

section Overwrite

variable {job job' : Job}

@[simp] theorem setJob_maxRunning (s : Scheduler) (i : Nat) (job : Job) :
    (s.setJob i job).maxRunning = s.maxRunning := rfl

@[simp] theorem setJob_inventory (s : Scheduler) (i : Nat) (job : Job) :
    (s.setJob i job).inventory = s.inventory := rfl

@[simp] theorem setJob_excludedDevices (s : Scheduler) (i : Nat) (job : Job) :
    (s.setJob i job).excludedDevices = s.excludedDevices := rfl

theorem runningCount_setJob (hi : s.store.jobs[i]? = some job) (hnot : job.state ≠ .running) :
    runningCount (s.setJob i job').store =
      runningCount s.store + if job'.state = .running then 1 else 0 := by
  obtain ⟨hlt, rfl⟩ := List.getElem?_eq_some_iff.mp hi
  simp only [runningCount, ← List.countP_eq_length_filter, Scheduler.setJob, Store.setJob_jobs]
  rw [List.countP_set hlt]
  simp [hnot]

/-- Overwriting a running job makes room, if anything. -/
theorem runningCount_setJob_le (hi : s.store.jobs[i]? = some job) (hrun : job.state = .running) :
    runningCount (s.setJob i job').store ≤ runningCount s.store := by
  obtain ⟨hlt, rfl⟩ := List.getElem?_eq_some_iff.mp hi
  have hpos : 0 < s.store.jobs.countP (·.state = .running) :=
    List.countP_pos_iff.mpr ⟨_, List.getElem_mem hlt, decide_eq_true hrun⟩
  simp only [runningCount, ← List.countP_eq_length_filter, Scheduler.setJob, Store.setJob_jobs]
  rw [List.countP_set hlt, if_pos (decide_eq_true hrun)]
  split <;> omega

theorem mem_runningKeys_setJob (hi : s.store.jobs[i]? = some job) (hnot : job.state ≠ .running)
    {key : String} : key ∈ runningKeys (s.setJob i job').store.jobs ↔
      key ∈ runningKeys s.store.jobs ∨
        (job'.state = .running ∧ ∃ device ∈ job'.devices, device.key = key) := by
  have hlt := (List.getElem?_eq_some_iff.mp hi).choose
  rw [mem_runningKeys, mem_runningKeys]
  constructor
  · rintro ⟨other, hother, hrun, hkey⟩
    rcases Store.mem_setJob hother with rfl | hother
    · exact Or.inr ⟨hrun, hkey⟩
    · exact Or.inl ⟨other, hother, hrun, hkey⟩
  · rintro (⟨other, hother, hrun, hkey⟩ | ⟨hrun, hkey⟩)
    · have hne : other ≠ job := by
        rintro rfl
        exact hnot hrun
      exact ⟨other, Store.mem_setJob_of_ne hi hother hne, hrun, hkey⟩
    · exact ⟨job', List.mem_set hlt job', hrun, hkey⟩

theorem reserved_setJob (hi : s.store.jobs[i]? = some job) (hnot : job.state ≠ .running) :
    (s.setJob i job').reserved = s.reserved ∪
      if job'.state = .running then (job'.devices.map Device.key).toFinset else ∅ := by
  ext key
  have hkeys : key ∈ runningKeys (s.setJob i job').store.jobs ↔ _ :=
    mem_runningKeys_setJob hi hnot
  simp only [Scheduler.reserved, Finset.mem_union, List.mem_toFinset, hkeys, setJob_inventory,
    setJob_excludedDevices]
  by_cases hrun : job'.state = .running
  · simp only [hrun, true_and, if_true, List.mem_toFinset, List.mem_map]
    generalize (∃ device ∈ job'.devices, device.key = key) = held
    rw [or_right_comm (b := held), or_right_comm (b := held)]
  · simp only [hrun, false_and, or_false, if_false, Finset.notMem_empty]

end Overwrite

end Xlurm
