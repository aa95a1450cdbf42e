/-
  Xlurm.Theorems.Allocation

  `allocate` is sound and complete: it answers with the first vendor, in the order
  of `Kind::PRIORITY`, that can serve the request, and refuses only when none can.
-/

import Mathlib.Data.List.Nodup
import Xlurm.Model.Allocation

namespace Xlurm

/-! ## The first element with a property -/

section FirstIn

variable {α : Type} {p : α → Prop} {xs : List α} {x : α}

/-- `x` is the first element of `xs` with property `p`. -/
def FirstIn (p : α → Prop) (xs : List α) (x : α) : Prop :=
  ∃ before after, xs = before ++ x :: after ∧ p x ∧ ∀ y ∈ before, ¬ p y

theorem firstIn_iff_find? [DecidablePred p] :
    FirstIn p xs x ↔ xs.find? (fun y => decide (p y)) = some x := by
  rw [List.find?_eq_some_iff_append]
  constructor
  · rintro ⟨before, after, hxs, hx, hbefore⟩
    exact ⟨decide_eq_true hx, before, after, hxs, fun y hy => by simpa using hbefore y hy⟩
  · rintro ⟨hx, before, after, hxs, hbefore⟩
    exact ⟨before, after, hxs, of_decide_eq_true hx, fun y hy => by simpa using hbefore y hy⟩

theorem FirstIn.unique {y : α} (hx : FirstIn p xs x) (hy : FirstIn p xs y) : x = y := by
  classical
  exact Option.some.inj ((firstIn_iff_find?.mp hx).symm.trans (firstIn_iff_find?.mp hy))

theorem exists_firstIn (h : ∃ y ∈ xs, p y) : ∃ x, FirstIn p xs x := by
  classical
  obtain ⟨y, hy, hpy⟩ := h
  have hsome : (xs.find? fun y => decide (p y)).isSome :=
    List.find?_isSome.mpr ⟨y, hy, decide_eq_true hpy⟩
  obtain ⟨x, hx⟩ := Option.isSome_iff_exists.mp hsome
  exact ⟨x, firstIn_iff_find?.mpr hx⟩

end FirstIn

/-! ## What a request asks for -/

/-- A vendor that the submission permits. -/
def Submission.Allows (spec : Submission) (kind : Kind) : Prop :=
  ∀ wanted, spec.kind = some wanted → wanted = kind

/-- The devices of one vendor, in inventory order, that are neither reserved nor
    excluded by the submission. -/
def usable (spec : Submission) (devices : List Device) (reserved : Finset String)
    (kind : Kind) : List Device :=
  devices.filter fun device =>
    device.kind = kind ∧ device.key ∉ reserved ∧ device.id ∉ spec.excludeDeviceIds

/-- Permitted, and with enough usable devices. -/
def Suffices (spec : Submission) (devices : List Device) (reserved : Finset String)
    (kind : Kind) : Prop :=
  spec.Allows kind ∧ spec.count ≤ (usable spec devices reserved kind).length

/-- Permitted, and with a device of every requested id. -/
def HasIds (spec : Submission) (devices : List Device) (ids : List Nat) (kind : Kind) : Prop :=
  spec.Allows kind ∧ ∀ id ∈ ids, ∃ device ∈ devices, device.kind = kind ∧ device.id = id

/-- None of the vendor's devices with these ids is reserved. -/
def IdsFree (devices : List Device) (reserved : Finset String) (ids : List Nat)
    (kind : Kind) : Prop :=
  ∀ device ∈ devices, device.kind = kind → device.id ∈ ids → device.key ∉ reserved

variable {spec : Submission} {devices : List Device} {reserved reserved' : Finset String}
  {kind : Kind} {selected : List Device} {ids : List Nat}

instance : DecidablePred spec.Allows := fun kind =>
  decidable_of_iff (spec.kind.all (· == kind) = true) (by
    cases h : spec.kind <;> simp [Submission.Allows, h])

instance : DecidablePred (Suffices spec devices reserved) := fun _ =>
  inferInstanceAs (Decidable (_ ∧ _))

instance : DecidablePred (HasIds spec devices ids) := fun _ =>
  inferInstanceAs (Decidable (_ ∧ _))

/-! ## Requests for a number of devices -/

theorem pool_eq_take :
    pool spec devices reserved kind = (usable spec devices reserved kind).take spec.count := by
  rw [pool, usable]
  congr 2
  funext device
  simp [Bool.and_assoc, Bool.beq_eq_decide_eq]

theorem any_ne_iff : spec.kind.any (· != kind) = true ↔ ¬ spec.Allows kind := by
  cases h : spec.kind <;> simp [Submission.Allows, h]

/-- The loop of `allocate` finds the first vendor that suffices. -/
theorem allocateAny_eq_find? (kinds : List Kind) :
    allocateAny spec devices reserved kinds =
      (kinds.find? fun kind => decide (Suffices spec devices reserved kind)).map
        (pool spec devices reserved) := by
  induction kinds with
  | nil => rfl
  | cons kind rest ih =>
      rw [allocateAny, List.find?_cons]
      by_cases hallowed : spec.Allows kind
      · rw [if_neg (fun h => any_ne_iff.mp h hallowed)]
        have hlen : (pool spec devices reserved kind).length = spec.count ↔
            Suffices spec devices reserved kind := by
          rw [pool_eq_take, List.length_take, min_eq_left_iff]
          exact ⟨fun h => ⟨hallowed, h⟩, And.right⟩
        by_cases hfull : Suffices spec devices reserved kind
        · rw [if_pos (hlen.mpr hfull), decide_eq_true hfull]
          rfl
        · rw [if_neg (fun h => hfull (hlen.mp h)), decide_eq_false hfull]
          exact ih
      · rw [if_pos (any_ne_iff.mpr hallowed), decide_eq_false (fun h => hallowed h.1)]
        exact ih

theorem exists_allowed (spec : Submission) : ∃ kind, spec.Allows kind := by
  cases h : spec.kind with
  | none => exact ⟨.nvidia, by simp [Submission.Allows, h]⟩
  | some wanted => exact ⟨wanted, by simp [Submission.Allows, h]⟩

theorem exists_suffices_of_zero (h : spec.count = 0) :
    ∃ kind, Suffices spec devices reserved kind := by
  obtain ⟨kind, hallowed⟩ := exists_allowed spec
  exact ⟨kind, hallowed, by omega⟩

/-- Without ids, an allocation is made from the first vendor that suffices. -/
theorem allocate_any_iff (hids : spec.deviceIds = none) :
    allocate spec devices reserved = some selected ↔
      ∃ kind, FirstIn (Suffices spec devices reserved) Kind.priority kind ∧
        selected = (usable spec devices reserved kind).take spec.count := by
  have hfirst : (∃ kind, FirstIn (Suffices spec devices reserved) Kind.priority kind ∧
        selected = (usable spec devices reserved kind).take spec.count) ↔
      allocateAny spec devices reserved Kind.priority = some selected := by
    rw [allocateAny_eq_find?, Option.map_eq_some_iff]
    simp only [firstIn_iff_find?, pool_eq_take, eq_comm]
  simp only [hfirst, allocate, hids]
  by_cases hzero : spec.count = 0
  -- Nothing is requested: every permitted vendor suffices, with no device.
  · rw [if_pos hzero]
    have hsome : ∃ kind, Suffices spec devices reserved kind := exists_suffices_of_zero hzero
    obtain ⟨kind, hkind⟩ := hsome
    obtain ⟨first, hfound⟩ := exists_firstIn ⟨kind, kind.mem_priority, hkind⟩
    rw [allocateAny_eq_find?, firstIn_iff_find?.mp hfound]
    simp [pool_eq_take, hzero]
  · rw [if_neg hzero]

/-! ## Requests for exact devices -/

theorem matchingKinds_head? (hids : spec.deviceIds = some ids) :
    (matchingKinds spec devices).head? =
      Kind.priority.find? fun kind => decide (HasIds spec devices ids kind) := by
  rw [matchingKinds, List.filter_filter, List.head?_filter]
  congr 1
  funext kind
  rw [Bool.eq_iff_iff, decide_eq_true_iff]
  cases h : spec.kind <;> simp [hids, HasIds, Submission.Allows, h, and_comm]

/-- With unique ids, the first device with an id is the only one. -/
theorem exactDevice_eq_some_iff {id : Nat} {device : Device}
    (hunique : (devices.map fun device => (device.kind, device.id)).Nodup) :
    exactDevice kind devices reserved id = some device ↔
      device ∈ devices ∧ device.kind = kind ∧ device.id = id ∧ device.key ∉ reserved := by
  constructor
  · exact exactDevice_eq_some
  · rintro ⟨hmem, hkind, hid, hfree⟩
    refine Option.filter_eq_some_iff.mpr ⟨?_, decide_eq_true hfree⟩
    have hsome : (devices.find? fun other => other.kind == kind && other.id == id).isSome :=
      List.find?_isSome.mpr ⟨device, hmem, by simp [hkind, hid]⟩
    obtain ⟨other, hother⟩ := Option.isSome_iff_exists.mp hsome
    have hmatch := List.find?_some hother
    rw [Bool.and_eq_true, beq_iff_eq, beq_iff_eq] at hmatch
    have heq : other = device :=
      List.inj_on_of_nodup_map hunique (List.mem_of_find?_eq_some hother) hmem
        (Prod.ext (hmatch.1.trans hkind.symm) (hmatch.2.trans hid.symm))
    exact heq ▸ hother

/-- With ids, an allocation is made from the first vendor that has them all. -/
theorem allocate_exact_iff (hids : spec.deviceIds = some ids) :
    allocate spec devices reserved = some selected ↔
      ∃ kind, FirstIn (HasIds spec devices ids) Kind.priority kind ∧
        List.Forall₂ (fun id device => exactDevice kind devices reserved id = some device)
          ids selected := by
  simp only [firstIn_iff_find?, ← matchingKinds_head? hids]
  constructor
  · exact allocate_exact_eq_some hids
  · rintro ⟨kind, hkind, hall⟩
    simp [allocate, hids, hkind, mapM_eq_some_iff.mpr hall, hall.length_eq]

theorem selected_ids
    (hall : List.Forall₂ (fun id device => exactDevice kind devices reserved id = some device)
      ids selected) :
    selected.map (·.id) = ids ∧ ∀ device ∈ selected, device ∈ devices ∧ device.kind = kind := by
  induction hall with
  | nil => exact ⟨rfl, by rintro _ ⟨⟩⟩
  | @cons id device ids selected hdevice _ ih =>
      obtain ⟨hmem, hkind, hid, _⟩ := exactDevice_eq_some hdevice
      refine ⟨by rw [List.map_cons, hid, ih.1], ?_⟩
      exact List.forall_mem_cons.mpr ⟨⟨hmem, hkind⟩, ih.2⟩

/-- The vendor's devices with the ids can all be handed out iff none is reserved. -/
theorem exists_selected_iff
    (hunique : (devices.map fun device => (device.kind, device.id)).Nodup)
    (hhas : HasIds spec devices ids kind) :
    (∃ selected, List.Forall₂
        (fun id device => exactDevice kind devices reserved id = some device) ids selected) ↔
      IdsFree devices reserved ids kind := by
  simp only [← mapM_eq_some_iff, ← Option.isSome_iff_exists, mapM_isSome_iff]
  constructor
  · intro hsome device hmem hkind hid
    obtain ⟨found, hfound⟩ := Option.isSome_iff_exists.mp (hsome device.id hid)
    obtain ⟨hfmem, hfkind, hfid, hfree⟩ := exactDevice_eq_some hfound
    have heq : found = device :=
      List.inj_on_of_nodup_map hunique hfmem hmem (Prod.ext (hfkind.trans hkind.symm) hfid)
    exact heq ▸ hfree
  · intro hfree id hid
    obtain ⟨device, hmem, hkind, rfl⟩ := hhas.2 id hid
    rw [(exactDevice_eq_some_iff hunique).mpr ⟨hmem, hkind, rfl, hfree device hmem hkind hid⟩]
    rfl

/-! ## Distinctness -/

theorem allocate_nodup (hkeys : (devices.map Device.key).Nodup)
    (hdistinct : ∀ ids, spec.deviceIds = some ids → ids.Nodup)
    (h : allocate spec devices reserved = some selected) : selected.Nodup := by
  cases hids : spec.deviceIds with
  | some ids =>
      obtain ⟨kind, _, hall⟩ := (allocate_exact_iff hids).mp h
      refine List.Nodup.of_map (·.id) ?_
      rw [(selected_ids hall).1]
      exact hdistinct ids hids
  | none =>
      obtain ⟨kind, _, rfl⟩ := (allocate_any_iff hids).mp h
      exact ((hkeys.of_map _).filter _).sublist (List.take_sublist _ _)

/-- An allocation stays within one permitted vendor. -/
theorem allocate_allowed (h : allocate spec devices reserved = some selected) :
    ∃ kind, spec.Allows kind ∧ ∀ device ∈ selected, device.kind = kind := by
  cases hids : spec.deviceIds with
  | some ids =>
      obtain ⟨kind, ⟨_, _, _, hhas, _⟩, hall⟩ := (allocate_exact_iff hids).mp h
      exact ⟨kind, hhas.1, fun device hdevice => ((selected_ids hall).2 device hdevice).2⟩
  | none =>
      obtain ⟨kind, ⟨_, _, _, hsuffices, _⟩, rfl⟩ := (allocate_any_iff hids).mp h
      refine ⟨kind, hsuffices.1, fun device hdevice => ?_⟩
      have hmem := List.mem_filter.mp (List.mem_of_mem_take hdevice)
      exact (of_decide_eq_true hmem.2).1

/-! ## The main result -/

/-- Whatever `allocate` returns is part of the inventory, of one permitted vendor,
    without repetition and free; without ids it succeeds iff nothing is requested or
    a permitted vendor has enough usable devices, and takes the first ones of the
    first such vendor; with ids it succeeds iff the first permitted vendor that has
    them all has them free, and returns them in the requested order; and it succeeds
    for every subset of a reserved set for which it succeeds. -/
theorem allocation_sound_complete (spec : Submission) (devices : List Device)
    (reserved : Finset String) (hkeys : (devices.map Device.key).Nodup)
    (hunique : (devices.map fun device => (device.kind, device.id)).Nodup)
    (hdistinct : ∀ ids, spec.deviceIds = some ids → ids.Nodup) :
    (∀ selected, allocate spec devices reserved = some selected →
      (∀ device ∈ selected, device ∈ devices ∧ device.key ∉ reserved) ∧ selected.Nodup ∧
        ∃ kind, spec.Allows kind ∧ ∀ device ∈ selected, device.kind = kind) ∧
    (spec.deviceIds = none →
      ((allocate spec devices reserved).isSome ↔
        spec.count = 0 ∨ ∃ kind, Suffices spec devices reserved kind) ∧
      ∀ selected, allocate spec devices reserved = some selected →
        ∃ kind, FirstIn (Suffices spec devices reserved) Kind.priority kind ∧
          selected = (usable spec devices reserved kind).take spec.count) ∧
    (∀ ids, spec.deviceIds = some ids →
      ((allocate spec devices reserved).isSome ↔
        ∃ kind, FirstIn (HasIds spec devices ids) Kind.priority kind ∧
          IdsFree devices reserved ids kind) ∧
      ∀ selected, allocate spec devices reserved = some selected →
        selected.map (·.id) = ids ∧
          ∃ kind, FirstIn (HasIds spec devices ids) Kind.priority kind ∧
            ∀ device ∈ selected, device ∈ devices ∧ device.kind = kind) ∧
    ∀ fewer ⊆ reserved, (allocate spec devices reserved).isSome →
      (allocate spec devices fewer).isSome := by
  refine ⟨fun selected h => ?_, fun hids => ⟨?_, fun selected => (allocate_any_iff hids).mp⟩,
    fun ids hids => ⟨?_, fun selected h => ?_⟩, fun fewer hfewer => allocate_antitone hfewer⟩
  -- Soundness.
  · obtain ⟨_, hall⟩ := allocate_devices h
    exact ⟨fun device hdevice => ⟨(hall device hdevice).1, (hall device hdevice).2.1⟩,
      allocate_nodup hkeys hdistinct h, allocate_allowed h⟩
  -- A number of devices: some vendor suffices iff a first one does.
  · rw [Option.isSome_iff_exists]
    constructor
    · rintro ⟨selected, h⟩
      obtain ⟨kind, ⟨_, _, _, hkind, _⟩, _⟩ := (allocate_any_iff hids).mp h
      exact Or.inr ⟨kind, hkind⟩
    · intro h
      have hexists : ∃ kind, Suffices spec devices reserved kind :=
        h.elim exists_suffices_of_zero id
      obtain ⟨kind, hkind⟩ := hexists
      obtain ⟨first, hfirst⟩ := exists_firstIn ⟨kind, kind.mem_priority, hkind⟩
      exact ⟨_, (allocate_any_iff hids).mpr ⟨first, hfirst, rfl⟩⟩
  -- Exact devices: the first vendor that has them decides.
  · rw [Option.isSome_iff_exists]
    constructor
    · rintro ⟨selected, h⟩
      obtain ⟨kind, hfirst, hall⟩ := (allocate_exact_iff hids).mp h
      have hhas : HasIds spec devices ids kind := hfirst.choose_spec.choose_spec.2.1
      exact ⟨kind, hfirst, (exists_selected_iff hunique hhas).mp ⟨selected, hall⟩⟩
    · rintro ⟨kind, hfirst, hfree⟩
      have hhas : HasIds spec devices ids kind := hfirst.choose_spec.choose_spec.2.1
      obtain ⟨selected, hall⟩ := (exists_selected_iff hunique hhas).mpr hfree
      exact ⟨selected, (allocate_exact_iff hids).mpr ⟨kind, hfirst, hall⟩⟩
  · obtain ⟨kind, hfirst, hall⟩ := (allocate_exact_iff hids).mp h
    obtain ⟨hselected, hmem⟩ := selected_ids hall
    exact ⟨hselected, kind, hfirst, hmem⟩

/-- Two vendors, and the only device of the first is reserved. -/
theorem allocation_sound_complete_mixed :
    let devices : List Device :=
      [⟨.nvidia, 0, "gpu", "GPU-a", none, none⟩, ⟨.ascend, 0, "npu", "0", some 0, none⟩]
    let spec : Submission := ⟨["true"], "/", [], "test", 1, none, [], none, none, none⟩
    allocate spec devices {"nv:GPU-a"} = some (devices.drop 1) ∧
      ∀ fewer ⊆ ({"nv:GPU-a"} : Finset String), (allocate spec devices fewer).isSome := by
  intro devices spec
  have hsome : allocate spec devices {"nv:GPU-a"} = some (devices.drop 1) := by decide
  obtain ⟨_, _, _, hfewer⟩ := allocation_sound_complete spec devices {"nv:GPU-a"} (by decide)
    (by decide) (by rintro ids ⟨⟩)
  exact ⟨hsome, fun fewer h => hfewer fewer h (by rw [hsome]; rfl)⟩

end Xlurm
