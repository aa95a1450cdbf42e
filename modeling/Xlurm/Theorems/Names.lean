/-
  Xlurm.Theorems.Names

  Device keys are distinct over every inventory, and ids within every vendor,
  with one exception.

  The ids of NVIDIA devices are read from a column of text that nothing checks:
  `validate` compares the keys, which are made of the UUIDs.
-/

import Mathlib.Data.List.Nodup
import Xlurm.Model.Allocation
import Xlurm.Theorems.Chips
import Xlurm.Theorems.Nvidia

namespace Xlurm

open Prog (Spec)
open Prog.Comp

variable {ω : Vendor} {kind : Kind} {devices : List Device}

/-! ## The discovery of one vendor -/

/-- Devices of one kind with different keys. -/
structure OfKind (kind : Kind) (devices : List Device) : Prop where
  kind : ∀ device ∈ devices, device.kind = kind
  keys : (devices.map Device.key).Nodup

/-- They have different ids as well. -/
structure Distinct (kind : Kind) (devices : List Device) : Prop extends OfKind kind devices where
  ids : (devices.map (·.id)).Nodup

/-- Ids that determine the identifiers are as different as these. -/
theorem OfKind.distinct (h : OfKind kind devices)
    (hids : ∀ a ∈ devices, ∀ b ∈ devices, a.id = b.id → a.visible = b.visible) :
    Distinct kind devices := by
  refine ⟨h, ?_⟩
  have hvisible : (devices.map (·.visible)).Nodup := (nodup_key_iff h.kind).mp h.keys
  apply (List.Nodup.of_map _ hvisible).map_on
  intro a ha b hb heq
  exact List.inj_on_of_nodup_map hvisible ha hb (hids a ha b hb heq)

/-- Devices that are numbered by a loop. -/
theorem numbered_yields {f : Nat → Driver Device} (count : Nat)
    (hf : ∀ id, Yields (fun device => device.id = id ∧ device.kind = kind) (f id)) :
    Yields (Distinct kind) (do
      let devices ← each f (List.range count)
      lift (validate devices)) := by
  refine (each_yields fun id _ => hf id).bind fun devices hdevices => Yields.lift fun ds hds => ?_
  obtain ⟨rfl, -, hkeys⟩ := validate_eq_ok.mp hds
  have hkind : ∀ device ∈ ds, device.kind = kind := by
    intro device hdevice
    obtain ⟨id, -, -, hkind⟩ := exists_of_mem_right hdevices hdevice
    exact hkind
  have hids : ds.map (·.id) = List.range count := by
    rw [← List.forall₂_eq_eq_eq, List.forall₂_map_left_iff]
    exact (hdevices.imp fun _ _ h => h.1).flip
  refine ⟨⟨hkind, hkeys⟩, ?_⟩
  rw [hids]
  exact List.nodup_range

theorem HandleLib.discover_yields (lib : HandleLib) (uuid : Nat → Driver String) :
    Yields (Distinct lib.kind) (lib.discover uuid) := by
  apply Yields.of_rest
  intro out
  apply Yields.of_rest
  intro _
  apply numbered_yields
  intro id
  apply Yields.of_rest
  intro handle
  apply Yields.of_rest
  intro visible
  apply Yields.of_rest
  intro name
  exact Yields.pure ⟨rfl, rfl⟩

theorem Smi.discover_yields : Yields (Distinct .hcu) Smi.discover := by
  apply Yields.of_rest
  intro count
  apply numbered_yields
  intro id
  apply Yields.of_rest
  intro out
  apply Yields.of_rest
  intro _
  exact Yields.pure ⟨rfl, rfl⟩

theorem Api.discover_yields : Yields (Distinct .ascend) Api.discover := by
  apply Yields.of_rest
  intro list
  apply Yields.of_rest
  intro ids
  -- The identifier is the printed id.
  have hone : ∀ id : Int, Yields (fun device =>
      device.visible = toString (device.id : Int) ∧ device.kind = .ascend) (Api.discoverOne id) := by
    intro id
    refine (Yields.ensure _ _).bind fun _ hnonneg => ?_
    apply Yields.of_rest
    intro info
    apply Yields.of_rest
    intro name
    apply Yields.pure
    refine ⟨?_, rfl⟩
    show toString id = toString (id.toNat : Int)
    rw [Int.toNat_of_nonneg hnonneg]
  refine (each_yields fun id _ => hone id).bind fun found hfound => Yields.lift fun ds hds => ?_
  obtain ⟨rfl, -, hkeys⟩ := validate_eq_ok.mp hds
  have hdevice : ∀ device ∈ found.insertionSort fun a b => a.id ≤ b.id,
      device.visible = toString (device.id : Int) ∧ device.kind = .ascend := by
    intro device hdevice
    rw [List.mem_insertionSort] at hdevice
    obtain ⟨id, -, h⟩ := exists_of_mem_right hfound hdevice
    exact h
  apply OfKind.distinct ⟨fun device h => (hdevice device h).2, hkeys⟩
  intro a ha b hb heq
  rw [(hdevice a ha).1, (hdevice b hb).1, heq]

theorem Legacy.toU32_inj {card card' : Int} (h : -2 ^ 31 ≤ card ∧ card < 2 ^ 31)
    (h' : -2 ^ 31 ≤ card' ∧ card' < 2 ^ 31) (heq : Legacy.toU32 card = Legacy.toU32 card') :
    card = card' := by
  simp only [Legacy.toU32] at heq
  omega

theorem Legacy.discover_yields : Yields (Distinct .ascend) Legacy.discover := by
  intro ω s tr devices h
  have hrun : wp (Spec.oracle Unit ω) Legacy.discover _ () tr := Legacy.discover_wp
  obtain ⟨report, -, hchips, hkeys⟩ := wp_oracle.mp hrun devices h
  have hkind : ∀ device ∈ devices, device.kind = .ascend := by
    intro device hdevice
    obtain ⟨card, -, hchip⟩ := exists_of_mem_right hchips hdevice
    exact hchip.kind
  apply OfKind.distinct ⟨hkind, hkeys⟩
  intro a ha b hb heq
  obtain ⟨card, hcard, hchip⟩ := exists_of_mem_right hchips ha
  obtain ⟨card', hcard', hchip'⟩ := exists_of_mem_right hchips hb
  rw [hchip.id, hchip'.id] at heq
  rw [hchip.visible, hchip'.visible,
    Legacy.toU32_inj (report.bounds card hcard) (report.bounds card' hcard') heq]

/-! ## The indexes of NVIDIA devices -/

/-- The first column of the output. -/
def indexes (text : String) : List (Option Nat) :=
  (inventoryLines text).map fun line => parseU32 (Text.trim (line.takeWhile (· ≠ ',')))

theorem Row.index {line : List Char} {device : Device} (h : Row line device) :
    parseU32 (Text.trim (line.takeWhile (· ≠ ','))) = some device.id := by
  obtain ⟨hindex, -, hid, -⟩ := h
  rename_i index uuid name id
  have hcolumn : (index ++ ',' :: (uuid ++ ',' :: name)).takeWhile (· ≠ ',') = index := by
    rw [List.takeWhile_append_of_pos]
    · simp
    · intro c hc
      rw [decide_eq_true_iff]
      rintro rfl
      exact hindex hc
  rw [hcolumn]
  exact hid

theorem indexes_of_rows {text : String} (h : List.Forall₂ Row (inventoryLines text) devices) :
    indexes text = (devices.map (·.id)).map some := by
  rw [indexes, List.map_map, ← List.forall₂_eq_eq_eq, List.forall₂_map_left_iff,
    List.forall₂_map_right_iff]
  exact h.imp fun _ _ hrow => hrow.index

/-- The ids are different exactly if the column is. -/
theorem nvidia_ids_iff {text : String} (h : parseNvidia text = .ok devices) :
    (devices.map (·.id)).Nodup ↔ (indexes text).Nodup := by
  obtain ⟨hrows, -, -⟩ := parseNvidia_eq_ok.mp h
  rw [indexes_of_rows hrows]
  exact (List.nodup_map_iff (Option.some_injective Nat)).symm

theorem nvidia_ofKind {text : String} (h : parseNvidia text = .ok devices) :
    OfKind .nvidia devices := by
  obtain ⟨hrows, -, hvisible⟩ := parseNvidia_eq_ok.mp h
  have hkind : ∀ device ∈ devices, device.kind = .nvidia := by
    intro device hdevice
    obtain ⟨line, -, hrow⟩ := exists_of_mem_right hrows hdevice
    exact hrow.kind
  exact ⟨hkind, (nodup_key_iff hkind).mpr hvisible⟩

/-! ## The whole inventory -/

theorem Kind.display_inj {a b : Kind} (h : a.display = b.display) : a = b := by
  cases a <;> cases b <;> first | rfl | exact absurd h (by decide)

theorem Kind.colon_notMem_display (kind : Kind) : ':' ∉ kind.display.toList := by
  cases kind <;> decide

/-- The kind is the part of a key before its first colon. -/
theorem kind_eq_of_key {a b : Device} (h : a.key = b.key) : a.kind = b.kind := by
  have hkey : ∀ device : Device, Text.splitOnce ':' device.key.toList =
      some (device.kind.display.toList, device.visible.toList) := by
    intro device
    have hchars : device.key.toList =
        device.kind.display.toList ++ ':' :: device.visible.toList := by
      rw [Device.key, String.toList_append, String.toList_append, List.append_assoc]
      rfl
    rw [hchars]
    exact Text.splitOnce_append device.kind.colon_notMem_display
  have hsplit := hkey a
  rw [h, hkey b, Option.some.injEq, Prod.mk.injEq] at hsplit
  exact (Kind.display_inj (String.toList_injective hsplit.1)).symm

theorem Backend.nodup_kinds (backend : Backend) : backend.kinds.Nodup := by
  cases backend with
  | auto => decide
  | only kind => exact List.Nodup.filter _ (by decide)
  | none => exact List.nodup_nil

/-- An inventory has the devices of all vendors whose discovery succeeded. -/
theorem discoverKinds_eq_ok {backend : Backend} {found : Kind → Except Error (List Device)}
    {kinds : List Kind} (h : discoverKinds backend found kinds = .ok devices) :
    devices = kinds.flatMap fun kind => (found kind).toOption.getD [] := by
  induction kinds generalizing devices with
  | nil =>
      cases h
      rfl
  | cons kind kinds ih =>
      rw [discoverKinds] at h
      rw [List.flatMap_cons]
      cases hfound : found kind with
      | ok here =>
          rw [hfound] at h
          dsimp only at h
          cases hrest : discoverKinds backend found kinds with
          | ok rest =>
              rw [hrest] at h
              cases h
              rw [← ih hrest]
              rfl
          | error e =>
              rw [hrest] at h
              cases h
      | error e =>
          rw [hfound] at h
          dsimp only at h
          split at h
          · exact ih h
          · cases h

/-- The devices of one kind are those its vendor found. -/
theorem filter_kind {found : Kind → List Device} (hkind : ∀ k, ∀ device ∈ found k, device.kind = k)
    {kinds : List Kind} (hnodup : kinds.Nodup) (kind : Kind) :
    (kinds.flatMap found).filter (·.kind = kind) = if kind ∈ kinds then found kind else [] := by
  induction kinds with
  | nil => rfl
  | cons k kinds ih =>
      rw [List.nodup_cons] at hnodup
      rw [List.flatMap_cons, List.filter_append, ih hnodup.2]
      by_cases hk : kind = k
      · subst hk
        have hall : (found kind).filter (·.kind = kind) = found kind := by
          rw [List.filter_eq_self]
          intro device hdevice
          exact decide_eq_true (hkind kind device hdevice)
        rw [hall, if_neg hnodup.1, if_pos List.mem_cons_self, List.append_nil]
      · have hnone : (found k).filter (·.kind = kind) = [] := by
          rw [List.filter_eq_nil_iff]
          intro device hdevice
          rw [decide_eq_true_iff, hkind k device hdevice]
          exact Ne.symm hk
        rw [hnone, List.nil_append]
        simp only [List.mem_cons, hk, false_or]

theorem nodup_keys {found : Kind → List Device} (hfound : ∀ k, OfKind k (found k))
    {kinds : List Kind} (hnodup : kinds.Nodup) :
    ((kinds.flatMap found).map Device.key).Nodup := by
  rw [List.map_flatMap, List.nodup_flatMap]
  refine ⟨fun k _ => (hfound k).keys, hnodup.imp ?_⟩
  intro k k' hne key hkey hkey'
  obtain ⟨device, hdevice, rfl⟩ := List.mem_map.mp hkey
  obtain ⟨device', hdevice', heq⟩ := List.mem_map.mp hkey'
  apply hne
  rw [← (hfound k).kind device hdevice, ← (hfound k').kind device' hdevice']
  exact (kind_eq_of_key heq).symm

theorem bind_eq_ok {α β : Type} {x : Except Error α} {f : α → Except Error β} {b : β}
    (h : x >>= f = .ok b) : ∃ a, x = .ok a ∧ f a = .ok b := by
  cases x with
  | ok a => exact ⟨a, rfl, h⟩
  | error e => cases h

/-- Of what a driver discovers, only the ids of NVIDIA devices may be the same. -/
theorem Drivers.found_distinct (drivers : Drivers) (h : drivers.found kind = .ok devices) :
    Distinct kind devices ∨ kind = .nvidia ∧ ∃ text, drivers.nvidia = .ok text ∧
      parseNvidia text = .ok devices := by
  cases kind with
  | nvidia =>
      right
      obtain ⟨text, htext, hparse⟩ := bind_eq_ok h
      exact ⟨rfl, text, htext, hparse⟩
  | ascend =>
      left
      obtain ⟨⟨dcmi, ω⟩, -, hvalue⟩ := bind_eq_ok h
      cases dcmi with
      | api => exact Api.discover_yields ω () [] devices hvalue
      | legacy => exact Legacy.discover_yields ω () [] devices hvalue
  | mthreads =>
      left
      obtain ⟨ω, -, hvalue⟩ := bind_eq_ok h
      exact Mtml.lib.discover_yields _ ω () [] devices hvalue
  | metax =>
      left
      obtain ⟨ω, -, hvalue⟩ := bind_eq_ok h
      exact Mxsml.lib.discover_yields _ ω () [] devices hvalue
  | ppu =>
      left
      obtain ⟨ω, -, hvalue⟩ := bind_eq_ok h
      exact Hgml.lib.discover_yields _ ω () [] devices hvalue
  | hcu =>
      left
      obtain ⟨ω, -, hvalue⟩ := bind_eq_ok h
      exact Smi.discover_yields ω () [] devices hvalue

/-- What one vendor adds to the inventory. -/
def Drivers.added (drivers : Drivers) (kind : Kind) : List Device :=
  (drivers.found kind).toOption.getD []

theorem Drivers.added_ofKind (drivers : Drivers) (kind : Kind) :
    OfKind kind (drivers.added kind) := by
  rw [added]
  cases hfound : drivers.found kind with
  | error e => exact ⟨by rintro _ ⟨⟩, List.nodup_nil⟩
  | ok devices =>
      rcases drivers.found_distinct hfound with hdistinct | ⟨rfl, text, -, hparse⟩
      · exact hdistinct.toOfKind
      · exact nvidia_ofKind hparse

/-- The condition: the index column of an output that is accepted has no duplicates. -/
def Drivers.IndexesDiffer (drivers : Drivers) : Prop :=
  ∀ text devices, drivers.nvidia = .ok text → parseNvidia text = .ok devices →
    (indexes text).Nodup

theorem Drivers.added_ids_iff (drivers : Drivers) (kind : Kind) :
    ((drivers.added kind).map (·.id)).Nodup ↔ (kind = .nvidia → drivers.IndexesDiffer) := by
  rw [added]
  cases hfound : drivers.found kind with
  | error e =>
      refine iff_of_true List.nodup_nil ?_
      rintro rfl text devices htext hparse
      have hok : drivers.found .nvidia = .ok devices := by
        show drivers.nvidia >>= parseNvidia = .ok devices
        rw [htext]
        exact hparse
      rw [hok] at hfound
      cases hfound
  | ok devices =>
      show (devices.map (·.id)).Nodup ↔ _
      by_cases hkind : kind = .nvidia
      · subst hkind
        obtain ⟨text, htext, hparse⟩ := bind_eq_ok hfound
        rw [nvidia_ids_iff hparse]
        constructor
        · rintro hnodup - text' devices' htext' -
          rw [htext] at htext'
          cases htext'
          exact hnodup
        · intro h
          exact h rfl text devices htext hparse
      · refine iff_of_true ?_ fun h => absurd h hkind
        rcases drivers.found_distinct hfound with hdistinct | ⟨rfl, -⟩
        · exact hdistinct.ids
        · exact absurd rfl hkind

/-! ## Names -/

/-- Keys, and ids within a kind, name one device each, which an exact request allocates. -/
structure Unambiguous (devices : List Device) : Prop where
  keys : (devices.map Device.key).Nodup
  ids : ∀ kind, ((devices.filter (·.kind = kind)).map (·.id)).Nodup
  /-- An id that some device of the kind has is that of exactly one. -/
  named : ∀ device ∈ devices, ∃! named, named ∈ devices ∧ named.kind = device.kind ∧
    named.id = device.id
  /-- A request for the id and the kind is given the device, if it is not reserved. -/
  reached : ∀ device ∈ devices, ∀ (spec : Submission) (reserved : Finset String),
    spec.kind = some device.kind → spec.deviceIds = some [device.id] → device.key ∉ reserved →
      allocate spec devices reserved = some [device]

theorem eq_of_kind_id (hids : ∀ kind, ((devices.filter (·.kind = kind)).map (·.id)).Nodup)
    {a b : Device} (ha : a ∈ devices) (hb : b ∈ devices) (hkind : a.kind = b.kind)
    (hid : a.id = b.id) : a = b := by
  apply List.inj_on_of_nodup_map (hids b.kind) _ _ hid
  · exact List.mem_filter.mpr ⟨ha, decide_eq_true hkind⟩
  · exact List.mem_filter.mpr ⟨hb, decide_eq_true rfl⟩

/-- An exact request is given the device it names. -/
theorem allocate_named (hids : ∀ kind, ((devices.filter (·.kind = kind)).map (·.id)).Nodup)
    {device : Device} (hdevice : device ∈ devices) {spec : Submission} {reserved : Finset String}
    (hkind : spec.kind = some device.kind) (hid : spec.deviceIds = some [device.id])
    (hfree : device.key ∉ reserved) : allocate spec devices reserved = some [device] := by
  have hkinds : Kind.priority.filter (fun kind => spec.kind.all (· == kind)) = [device.kind] := by
    rw [hkind]
    cases device.kind <;> rfl
  have hsome : (devices.any fun d => d.kind == device.kind && d.id == device.id) = true := by
    rw [List.any_eq_true]
    exact ⟨device, hdevice, by simp⟩
  have hmatching : matchingKinds spec devices = [device.kind] := by
    rw [matchingKinds, hkinds, hid]
    simp [hsome]
  have hfind : (devices.find? fun d => d.kind == device.kind && d.id == device.id) =
      some device := by
    rw [List.any_eq_true] at hsome
    obtain ⟨found, hfound⟩ := Option.isSome_iff_exists.mp (List.find?_isSome.mpr hsome)
    have hmatch := List.find?_some hfound
    rw [Bool.and_eq_true, beq_iff_eq, beq_iff_eq] at hmatch
    have hmem := List.mem_of_find?_eq_some hfound
    rw [hfound, eq_of_kind_id hids hmem hdevice hmatch.1 hmatch.2]
  have hexact : exactDevice device.kind devices reserved device.id = some device := by
    rw [exactDevice, hfind]
    simp [hfree]
  simp [allocate, hid, hmatching, hexact]

theorem unambiguous_iff (hkeys : (devices.map Device.key).Nodup) :
    Unambiguous devices ↔ ∀ kind, ((devices.filter (·.kind = kind)).map (·.id)).Nodup := by
  constructor
  · intro h
    exact h.ids
  · intro hids
    refine ⟨hkeys, hids, ?_, ?_⟩
    · intro device hdevice
      refine ⟨device, ⟨hdevice, rfl, rfl⟩, ?_⟩
      rintro other ⟨hother, hkind, hid⟩
      exact eq_of_kind_id hids hother hdevice hkind hid
    · intro device hdevice spec reserved hkind hid hfree
      exact allocate_named hids hdevice hkind hid hfree

/-- Every inventory is unambiguous exactly if NVIDIA is not looked for, or the index column of
    the output of `nvidia-smi` has no duplicates. -/
theorem names_unambiguous_iff (backend : Backend) (drivers : Drivers) (devices : List Device)
    (h : discover backend drivers.found = .ok devices) :
    Unambiguous devices ↔ (.nvidia ∈ backend.kinds → drivers.IndexesDiffer) := by
  have hdevices : devices = backend.kinds.flatMap drivers.added := discoverKinds_eq_ok h
  have hkeys : (devices.map Device.key).Nodup := by
    rw [hdevices]
    exact nodup_keys drivers.added_ofKind backend.nodup_kinds
  have hfilter : ∀ kind, devices.filter (·.kind = kind) =
      if kind ∈ backend.kinds then drivers.added kind else [] := by
    intro kind
    rw [hdevices]
    exact filter_kind (fun k => (drivers.added_ofKind k).kind) backend.nodup_kinds kind
  rw [unambiguous_iff hkeys]
  constructor
  · intro hids hnvidia
    have hnodup := hids .nvidia
    rw [hfilter, if_pos hnvidia] at hnodup
    exact (drivers.added_ids_iff .nvidia).mp hnodup rfl
  · intro hdiffer kind
    rw [hfilter]
    split
    · rename_i hmem
      rw [drivers.added_ids_iff]
      rintro rfl
      exact hdiffer hmem
    · exact List.nodup_nil

/-! ## Two outputs -/

/-- Only `nvidia-smi` is there. -/
def onlyNvidia (text : String) : Drivers where
  nvidia := .ok text
  ascend := .error "no DCMI"
  mthreads := .error "no MTML"
  metax := .error "no MXSML"
  ppu := .error "no HGML"
  hcu := .error "no SMI"

/-- Two cards. -/
def twoCards (index : Nat) : List Device :=
  [⟨.nvidia, 0, "H100", "GPU-a", none, none⟩, ⟨.nvidia, index, "H100", "GPU-b", none, none⟩]

theorem twoIndexes_unambiguous : Unambiguous (twoCards 1) ↔ (.nvidia ∈ Backend.auto.kinds →
    (onlyNvidia "0, GPU-a, H100\n1, GPU-b, H100\n").IndexesDiffer) :=
  names_unambiguous_iff .auto _ (twoCards 1) (by decide +kernel)

/-- Two cards with one index are accepted. -/
theorem sameIndex_ambiguous :
    ¬ ∀ (backend : Backend) (drivers : Drivers) (devices : List Device),
      discover backend drivers.found = .ok devices → Unambiguous devices := by
  intro h
  have hunambiguous := h .auto (onlyNvidia "0, GPU-a, H100\n0, GPU-b, H100\n") (twoCards 0)
    (by decide +kernel)
  exact absurd (hunambiguous.ids .nvidia) (by decide)

end Xlurm
