/-
  Xlurm.Model.Store

  Stores whose job ids grow along the list, and what overwriting, appending and
  forgetting a job keeps of that.
-/

import Mathlib.Data.List.Nodup
import Mathlib.Data.List.Pairwise
import Xlurm.Model.Scheduler

namespace Xlurm

/-- Job ids grow along the list, and none exceeds `next_id`. -/
structure Store.Ordered (store : Store) : Prop where
  increasing : store.jobs.Pairwise fun job job' => job.id < job'.id
  bounded : ∀ job ∈ store.jobs, job.id ≤ store.nextId

namespace Store.Ordered

theorem default : Store.default.Ordered := ⟨List.Pairwise.nil, by simp [Store.default]⟩

theorem ids_nodup {store : Store} (h : store.Ordered) : (store.jobs.map (·.id)).Nodup :=
  List.pairwise_map.mpr (h.increasing.imp fun hlt => Nat.ne_of_lt hlt)

/-- In an ordered store an id names one job. -/
theorem eq_of_id {store : Store} (h : store.Ordered) {job job' : Job} (hj : job ∈ store.jobs)
    (hj' : job' ∈ store.jobs) (hid : job.id = job'.id) : job = job' :=
  List.inj_on_of_nodup_map h.ids_nodup hj hj' hid

theorem retain {store : Store} (h : store.Ordered) (expired : List Nat) :
    (store.retain expired).Ordered where
  increasing := h.increasing.sublist List.filter_sublist
  bounded job hj := h.bounded job (Store.mem_retain.mp hj).1

theorem push {store : Store} (h : store.Ordered) {job : Job} (hid : job.id = store.nextId + 1) :
    Store.Ordered ⟨job.id, store.jobs ++ [job]⟩ where
  increasing := by
    rw [List.pairwise_append]
    refine ⟨h.increasing, List.pairwise_singleton _ _, ?_⟩
    intro old hold new hnew
    rw [List.mem_singleton] at hnew
    subst hnew
    have hle := h.bounded old hold
    omega
  bounded old hold := by
    rcases List.mem_append.mp hold with hold | hold
    · have hle := h.bounded old hold
      show old.id ≤ job.id
      omega
    · rw [List.mem_singleton.mp hold]

theorem pop {nextId : Nat} {jobs : List Job} {job : Job}
    (h : Store.Ordered ⟨nextId, jobs ++ [job]⟩) : Store.Ordered ⟨nextId, jobs⟩ where
  increasing := (List.pairwise_append.mp h.increasing).1
  bounded old hold := h.bounded old (List.mem_append_left _ hold)

/-- Only the ids matter. -/
theorem of_ids {store store' : Store} (h : store.Ordered)
    (hids : store'.jobs.map (·.id) = store.jobs.map (·.id))
    (hle : store.nextId ≤ store'.nextId) : store'.Ordered := by
  refine ⟨?_, ?_⟩
  · have hp := List.pairwise_map.mpr h.increasing
    rw [← hids] at hp
    exact List.pairwise_map.mp hp
  · intro job hj
    have hmem : job.id ∈ store.jobs.map (·.id) := hids ▸ List.mem_map_of_mem hj
    obtain ⟨old, hold, heq⟩ := List.mem_map.mp hmem
    have hbound := h.bounded old hold
    omega

theorem setJob {store : Store} (h : store.Ordered) {i : Nat} {job job' : Job}
    (hi : store.jobs[i]? = some job) (hid : job'.id = job.id) : (store.setJob i job').Ordered := by
  obtain ⟨hlt, rfl⟩ := List.getElem?_eq_some_iff.mp hi
  have hlt' : i < (store.jobs.map (·.id)).length := by simpa using hlt
  have hsame := List.set_getElem_self hlt'
  rw [List.getElem_map] at hsame
  refine h.of_ids ?_ (Nat.le_refl _)
  rw [Store.setJob_jobs, List.map_set, hid, hsame]

end Store.Ordered

theorem Store.mem_setJob {store : Store} {i : Nat} {job' job₁ : Job}
    (h : job₁ ∈ (store.setJob i job').jobs) : job₁ = job' ∨ job₁ ∈ store.jobs :=
  (List.mem_or_eq_of_mem_set h).symm

/-- Overwriting a position keeps every other job. -/
theorem Store.mem_setJob_of_ne {store : Store} {i : Nat} {job job' job₁ : Job}
    (hi : store.jobs[i]? = some job) (hj : job₁ ∈ store.jobs) (hne : job₁ ≠ job) :
    job₁ ∈ (store.setJob i job').jobs := by
  obtain ⟨k, hk, rfl⟩ := List.mem_iff_getElem.mp hj
  have hik : i ≠ k := by
    intro heq
    subst heq
    rw [List.getElem?_eq_getElem hk] at hi
    exact hne (Option.some.inj hi)
  rw [List.mem_iff_getElem]
  refine ⟨k, by simpa using hk, ?_⟩
  simp only [Store.setJob_jobs]
  rw [List.getElem_set_ne hik]

/-! ## Finding and forgetting jobs -/

theorem id_of_findIdx? {jobs : List Job} {id i : Nat} {job : Job}
    (hfind : jobs.findIdx? (·.id == id) = some i) (hi : jobs[i]? = some job) : job.id = id := by
  obtain ⟨hlt, hid, _⟩ := List.findIdx?_eq_some_iff_getElem.mp hfind
  rw [List.getElem?_eq_getElem hlt] at hi
  cases hi
  exact beq_iff_eq.mp hid

/-- A job that runs is not expired. -/
theorem Store.notMem_expired {store : Store} (h : store.Ordered) {job : Job}
    (hj : job ∈ store.jobs) (hrun : job.state = .running) (timestamp : Nat) :
    job.id ∉ store.expired timestamp := by
  intro hmem
  obtain ⟨old, hold, hid⟩ := List.mem_map.mp hmem
  obtain ⟨hold, hexp⟩ := List.mem_filter.mp hold
  have heq : old = job := h.eq_of_id hold hj hid
  subst heq
  simp [Job.expired, hrun, State.terminal] at hexp

theorem Store.mem_retain_expired {store : Store} (h : store.Ordered) {job : Job}
    (hj : job ∈ store.jobs) (hrun : job.state = .running) (timestamp : Nat) :
    job ∈ (store.retain (store.expired timestamp)).jobs :=
  Store.mem_retain.mpr ⟨hj, Store.notMem_expired h hj hrun timestamp⟩

end Xlurm
