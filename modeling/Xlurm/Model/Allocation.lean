/-
  Xlurm.Model.Allocation

  What `allocate` returns, and how it depends on the reserved devices.

  An allocation consists of devices of one kind that are not reserved, as many
  as requested; and reserving fewer devices never makes an allocation impossible.
-/

import Mathlib.Data.List.Forall2
import Xlurm.Model.Scheduler

namespace Xlurm

/-! ## Collecting options -/

section Collect

variable {α β : Type} {f : α → Option β}

theorem mapM_eq_some_iff {xs : List α} {ys : List β} :
    xs.mapM f = some ys ↔ List.Forall₂ (fun x y => f x = some y) xs ys := by
  induction xs generalizing ys with
  | nil =>
      rw [List.mapM_nil, List.forall₂_nil_left_iff]
      exact ⟨fun h => (Option.some.inj h).symm, fun h => h ▸ rfl⟩
  | cons x xs ih =>
      rw [List.mapM_cons]
      constructor
      · intro h
        obtain ⟨y, hy, h⟩ := Option.bind_eq_some_iff.mp h
        obtain ⟨ys', hys', h⟩ := Option.bind_eq_some_iff.mp h
        cases h
        exact List.Forall₂.cons hy (ih.mp hys')
      · rintro (_ | ⟨hy, hys⟩)
        exact Option.bind_eq_some_iff.mpr
          ⟨_, hy, Option.bind_eq_some_iff.mpr ⟨_, ih.mpr hys, rfl⟩⟩

theorem mapM_isSome_iff {xs : List α} : (xs.mapM f).isSome ↔ ∀ x ∈ xs, (f x).isSome := by
  induction xs with
  | nil => simp
  | cons x xs ih =>
      rw [List.mapM_cons, List.forall_mem_cons, ← ih]
      cases f x <;> cases xs.mapM f <;> simp

end Collect

/-! ## Exact ids -/

variable {spec : Submission} {devices : List Device} {reserved reserved' : Finset String}
  {kind : Kind} {selected : List Device}

theorem exactDevice_eq_some {id : Nat} {device : Device}
    (h : exactDevice kind devices reserved id = some device) :
    device ∈ devices ∧ device.kind = kind ∧ device.id = id ∧ device.key ∉ reserved := by
  obtain ⟨hfind, hfree⟩ := Option.filter_eq_some_iff.mp h
  have hmatch := List.find?_some hfind
  rw [Bool.and_eq_true, beq_iff_eq, beq_iff_eq] at hmatch
  exact ⟨List.mem_of_find?_eq_some hfind, hmatch.1, hmatch.2, of_decide_eq_true hfree⟩

theorem exactDevice_antitone {id : Nat} (h : reserved ⊆ reserved')
    (hsome : (exactDevice kind devices reserved' id).isSome) :
    (exactDevice kind devices reserved id).isSome := by
  obtain ⟨device, hdevice⟩ := Option.isSome_iff_exists.mp hsome
  obtain ⟨hfind, _⟩ := Option.filter_eq_some_iff.mp hdevice
  have hfree := (exactDevice_eq_some hdevice).2.2.2
  rw [Option.isSome_iff_exists]
  refine ⟨device, Option.filter_eq_some_iff.mpr ⟨hfind, decide_eq_true ?_⟩⟩
  exact fun hmem => hfree (h hmem)

/-! ## Pools -/

theorem mem_pool {device : Device} (h : device ∈ pool spec devices reserved kind) :
    device ∈ devices ∧ device.kind = kind ∧ device.key ∉ reserved ∧
      device.id ∉ spec.excludeDeviceIds := by
  have hmem := List.mem_filter.mp (List.mem_of_mem_take h)
  simpa [and_assoc] using hmem

theorem pool_length_antitone (h : reserved ⊆ reserved')
    (hfull : (pool spec devices reserved' kind).length = spec.count) :
    (pool spec devices reserved kind).length = spec.count := by
  have hsub : (devices.filter fun device => device.kind == kind && device.key ∉ reserved' &&
        !spec.excludeDeviceIds.contains device.id).Sublist
      (devices.filter fun device => device.kind == kind && device.key ∉ reserved &&
        !spec.excludeDeviceIds.contains device.id) := by
    refine List.monotone_filter_right devices fun device hdevice => ?_
    simp only [Bool.and_eq_true, decide_eq_true_eq] at hdevice ⊢
    exact ⟨⟨hdevice.1.1, fun hmem => hdevice.1.2 (h hmem)⟩, hdevice.2⟩
  have hle := hsub.length_le
  simp only [pool, List.length_take] at hfull ⊢
  omega

theorem allocateAny_eq_some {kinds : List Kind}
    (h : allocateAny spec devices reserved kinds = some selected) :
    ∃ kind ∈ kinds, spec.kind.all (· == kind) = true ∧
      selected = pool spec devices reserved kind ∧ selected.length = spec.count := by
  induction kinds with
  | nil => cases h
  | cons kind rest ih =>
      rw [allocateAny] at h
      split at h
      · obtain ⟨kind', hmem, hrest⟩ := ih h
        exact ⟨kind', List.mem_cons_of_mem _ hmem, hrest⟩
      · rename_i hkind
        split at h
        · rename_i hlen
          cases h
          refine ⟨kind, List.mem_cons_self, ?_, rfl, hlen⟩
          cases hspec : spec.kind with
          | none => rfl
          | some wanted => simpa [hspec] using hkind
        · obtain ⟨kind', hmem, hrest⟩ := ih h
          exact ⟨kind', List.mem_cons_of_mem _ hmem, hrest⟩

theorem allocateAny_antitone (h : reserved ⊆ reserved') {kinds : List Kind}
    (hsome : (allocateAny spec devices reserved' kinds).isSome) :
    (allocateAny spec devices reserved kinds).isSome := by
  induction kinds with
  | nil => cases hsome
  | cons kind rest ih =>
      rw [allocateAny] at hsome ⊢
      split
      · rename_i hkind
        rw [if_pos hkind] at hsome
        exact ih hsome
      · rename_i hkind
        rw [if_neg hkind] at hsome
        split
        · rfl
        · rename_i hlen
          rw [if_neg fun hfull => hlen (pool_length_antitone h hfull)] at hsome
          exact ih hsome

/-! ## Allocations -/

theorem allocate_exact_eq_some {ids : List Nat} (hids : spec.deviceIds = some ids)
    (h : allocate spec devices reserved = some selected) :
    ∃ kind, (matchingKinds spec devices).head? = some kind ∧
      List.Forall₂ (fun id device => exactDevice kind devices reserved id = some device)
        ids selected := by
  simp only [allocate, hids] at h
  split at h
  · cases h
  · rename_i kind hkind
    obtain ⟨hmap, _⟩ := Option.filter_eq_some_iff.mp h
    exact ⟨kind, hkind, mapM_eq_some_iff.mp hmap⟩

/-- Allocated devices exist, are not reserved, and are of one kind. -/
theorem allocate_devices (h : allocate spec devices reserved = some selected) :
    ∃ kind, ∀ device ∈ selected,
      device ∈ devices ∧ device.key ∉ reserved ∧ device.kind = kind := by
  cases hids : spec.deviceIds with
  | some ids =>
      obtain ⟨kind, _, hall⟩ := allocate_exact_eq_some hids h
      refine ⟨kind, fun device hdevice => ?_⟩
      obtain ⟨i, hi, rfl⟩ := List.mem_iff_getElem.mp hdevice
      have hi' : i < ids.length := hall.length_eq ▸ hi
      have hexact := hall.get hi' hi
      obtain ⟨hmem, hkind, _, hfree⟩ := exactDevice_eq_some hexact
      exact ⟨hmem, hfree, hkind⟩
  | none =>
      simp only [allocate, hids] at h
      split at h
      · cases h
        exact ⟨.nvidia, by rintro _ ⟨⟩⟩
      · obtain ⟨kind, _, _, rfl, _⟩ := allocateAny_eq_some h
        refine ⟨kind, fun device hdevice => ?_⟩
        obtain ⟨hmem, hkind, hfree, _⟩ := mem_pool hdevice
        exact ⟨hmem, hfree, hkind⟩

theorem allocate_free (h : allocate spec devices reserved = some selected) :
    ∀ device ∈ selected, device.key ∉ reserved := by
  obtain ⟨_, hall⟩ := allocate_devices h
  exact fun device hdevice => (hall device hdevice).2.1

/-- An allocation has the requested size. -/
theorem allocate_length (h : allocate spec devices reserved = some selected)
    (hcount : ∀ ids, spec.deviceIds = some ids → spec.count = ids.length) :
    selected.length = spec.count := by
  cases hids : spec.deviceIds with
  | some ids =>
      obtain ⟨kind, _, hall⟩ := allocate_exact_eq_some hids h
      rw [hcount ids hids, hall.length_eq]
  | none =>
      simp only [allocate, hids] at h
      split at h
      · rename_i hzero
        cases h
        exact hzero.symm
      · obtain ⟨_, _, _, _, hlen⟩ := allocateAny_eq_some h
        exact hlen

/-- Reserving fewer devices never makes an allocation impossible. -/
theorem allocate_antitone (h : reserved ⊆ reserved')
    (hsome : (allocate spec devices reserved').isSome) :
    (allocate spec devices reserved).isSome := by
  cases hids : spec.deviceIds with
  | some ids =>
      obtain ⟨selected, hselected⟩ := Option.isSome_iff_exists.mp hsome
      obtain ⟨kind, hkind, hall⟩ := allocate_exact_eq_some hids hselected
      have hexact : ∀ id ∈ ids, (exactDevice kind devices reserved id).isSome := by
        intro id hid
        obtain ⟨i, hi, rfl⟩ := List.mem_iff_getElem.mp hid
        have hi' : i < selected.length := hall.length_eq ▸ hi
        have hget : exactDevice kind devices reserved' ids[i] = some selected[i] := hall.get hi hi'
        refine exactDevice_antitone h ?_
        rw [hget]
        rfl
      obtain ⟨selected', hselected'⟩ := Option.isSome_iff_exists.mp (mapM_isSome_iff.mpr hexact)
      have hlen := (mapM_eq_some_iff.mp hselected').length_eq
      simp [allocate, hids, hkind, hselected', hlen]
  | none =>
      simp only [allocate, hids] at hsome ⊢
      split
      · rfl
      · rename_i hzero
        rw [if_neg hzero] at hsome
        exact allocateAny_antitone h hsome

end Xlurm
