/-
  Xlurm.Theorems.Monitors

  A driver call that reports nothing never means idle, with one exception.

  MTML is asked for a process count that starts at 0, where the other bindings
  start from a value that is no count of idle devices: a library that returns
  success without writing the count makes the device idle.
-/

import Xlurm.Device.Ascend
import Xlurm.Device.Handles
import Xlurm.Device.Hcu

namespace Xlurm

open Prog (Spec)
open Prog.Comp

variable {ω : Vendor} {tr : Asked} {device : Device}

/-! ## What vouches for an idle device -/

/-- The bindings that report the status of one device. -/
inductive Monitor
  | dcmiV2 | legacy | mtml | mxsml | hgml
  deriving DecidableEq

namespace Monitor

def status : Monitor → Device → Driver String
  | dcmiV2 => Api.status
  | legacy => Legacy.status
  | mtml => Mtml.status
  | mxsml => Mxsml.status
  | hgml => Hgml.status

/-- The function that reports the health or the availability. -/
def health : Monitor → Option String
  | dcmiV2 => some "dcmiv2_get_device_health"
  | legacy => some "dcmi_get_device_health"
  | mxsml => some "mxSmlGetDeviceUnavailableReason"
  | mtml | hgml => none

/-- The function that reports the UUID. -/
def uuid : Monitor → Option String
  | dcmiV2 | legacy => none
  | mtml => some "mtmlDeviceGetUUID"
  | mxsml => some "mxSmlExDeviceGetUUID"
  | hgml => some "hgmlDeviceGetUUID"

/-- The function that reports how many processes there are. -/
def processes : Monitor → String
  | dcmiV2 => "dcmiv2_get_device_resource_info"
  | legacy => "dcmi_get_device_resource_info"
  | mtml => "mtmlDeviceCountProcessMemoryUsages"
  | mxsml => "mxSmlExDeviceGetComputeRunningProcesses"
  | hgml => "hgmlDeviceGetComputeRunningProcesses_v2"

end Monitor

/-- The number, or the count, was written and is zero. -/
def Shape.IsZero : (shape : Shape) → shape.Out → Prop
  | int, out => out = some 0
  | uint, out => out = some 0
  | bytes, _ => False
  | ints, out => out.2 = some 0
  | uints, out => out.2 = some 0

/-- The text in a buffer of 128 bytes. -/
def Shape.text : (shape : Shape) → shape.Out → Option String
  | bytes, out => (cText "" (buffer out 128 0)).toOption
  | int, _ | uint, _ | ints, _ | uints, _ => none

/-- The function `name` was called, and every call of it gave what it should. -/
def Asked.Shows (tr : Asked) (name : String) (P : (shape : Shape) → shape.Out → Prop) : Prop :=
  (∃ e ∈ tr, e.1.name = name) ∧ ∀ e ∈ tr, e.1.name = name → P e.1.shape e.2.out

/-- The library itself has said that nobody uses the device. -/
structure Vouched (m : Monitor) (device : Device) (tr : Asked) : Prop where
  succeeded : ∀ e ∈ tr, e.2.code = 0
  healthy : ∀ name, m.health = some name → tr.Shows name Shape.IsZero
  same : ∀ name, m.uuid = some name →
    tr.Shows name fun shape out => shape.text out = some device.visible
  unused : tr.Shows m.processes Shape.IsZero

namespace Asked

variable {called name : String} {args : List Int} {shape : Shape} {answer : Returned shape.Out}
  {P : (shape : Shape) → shape.Out → Prop}

theorem shows_here (hname : called = name) (hP : P shape answer.out)
    (hrest : ∀ e ∈ tr, e.1.name ≠ name) : Shows (asked called args shape answer :: tr) name P := by
  refine ⟨⟨_, List.mem_cons_self, hname⟩, ?_⟩
  intro e he heq
  rcases List.mem_cons.mp he with rfl | he
  · exact hP
  · exact absurd heq (hrest e he)

theorem shows_skip (hname : called ≠ name) (h : Shows tr name P) :
    Shows (asked called args shape answer :: tr) name P := by
  obtain ⟨⟨e₁, he₁, hname₁⟩, hall⟩ := h
  refine ⟨⟨e₁, List.mem_cons_of_mem _ he₁, hname₁⟩, ?_⟩
  intro e he heq
  rcases List.mem_cons.mp he with rfl | he
  · exact absurd heq hname
  · exact hall e he heq

end Asked

/-- A value that starts from something else was written. -/
theorem written {α : Type} {out : Option α} {initial a : α} (h : out.getD initial = a)
    (hinitial : initial ≠ a) : out = some a := by
  cases out with
  | none => exact absurd h hinitial
  | some b => rw [← h, Option.getD_some]

/-! ## DCMI -/

theorem dcmiStatus_idle {health processes : String} {address : List Int} {initial : Int32}
    (hinitial : initial ≠ 0) :
    wp (Spec.oracle Unit ω) (dcmiStatus health processes address initial) (fun _ r tr' =>
      r = .ok "idle" → tr' = tr ++ [asked health address .uint ⟨0, some 0⟩,
        asked processes address .int ⟨0, some 0⟩]) () tr := by
  rw [dcmiStatus, wp_bind]
  apply wp_invoke
  · intro health' _
    rw [andThen_ok]
    dsimp only
    rw [wp_bind, wp_ensure]
    refine ⟨fun _ => ?_, fun _ => by rintro ⟨⟩⟩
    rw [andThen_ok]
    split
    · intro h
      simp at h
    · rename_i hgood
      -- The buffer starts with another value, so the driver has written this one.
      have hhealth : health' = some 0 := written (Decidable.not_not.mp hgood) (by decide)
      rw [wp_bind]
      apply wp_withContext
      apply wp_invoke
      · intro count _
        refine ⟨?_, by rintro _ ⟨⟩⟩
        rintro _ ⟨⟩
        rw [andThen_ok]
        rw [wp_bind, wp_ensure]
        refine ⟨fun _ => ?_, fun _ => by rintro ⟨⟩⟩
        rw [andThen_ok, wp_pure]
        split
        · rename_i hzero
          intro _
          rw [hhealth, written hzero hinitial, List.append_assoc]
          rfl
        · intro h
          simp at h
      · intro e tr'
        exact ⟨(by rintro _ ⟨⟩), fun _ _ => by rintro ⟨⟩⟩
  · rintro e tr' ⟨⟩

theorem toCInt_wp {message : String} {n : Nat} {Q : Unit → Except Error Int → Asked → Prop}
    (hok : Q () (.ok n) tr) (herr : ∀ e, Q () (.error e) tr) :
    wp (Spec.oracle Unit ω) (toCInt message n) Q () tr := by
  rw [toCInt, wp_bind, wp_ensure]
  exact ⟨fun _ => hok, fun _ => herr _⟩

/-- The calls for an idle device, in both bindings. -/
theorem dcmi_vouched {m : Monitor} {health : String} {address : List Int}
    (hhealth : m.health = some health) (huuid : m.uuid = none) (hne : health ≠ m.processes) :
    Vouched m device [asked health address .uint ⟨0, some 0⟩,
      asked m.processes address .int ⟨0, some 0⟩] where
  succeeded := by simp [asked]
  healthy name hname := by
    obtain rfl : health = name := Option.some.inj (hhealth.symm.trans hname)
    exact Asked.shows_here rfl rfl (by simpa [asked] using hne.symm)
  same name hname := by
    rw [huuid] at hname
    cases hname
  unused := Asked.shows_skip hne (Asked.shows_here rfl rfl (by simp))

/-! ## Handles and UUIDs -/

variable {lib : HandleLib}

theorem wp_text {operation : String} {handle : Nat} {Q : Unit → Except Error String → Asked → Prop}
    (hok : ∀ out value, ω.answer tr operation [handle] .bytes = ⟨0, out⟩ →
      cText operation (buffer out 128 0) = .ok value → value ≠ "" →
      Q () (.ok value) (tr ++ [asked operation [handle] .bytes ⟨0, out⟩]))
    (herr : ∀ e tr', Q () (.error e) tr') :
    wp (Spec.oracle Unit ω) (lib.text operation handle) Q () tr := by
  rw [HandleLib.text, wp_bind]
  apply wp_invoke
  · intro out hanswer
    rw [andThen_ok, wp_bind, wp_lift]
    cases htext : cText operation (buffer out 128 0) with
    | error e => exact herr _ _
    | ok value =>
        rw [andThen_ok, wp_bind, wp_ensure]
        exact ⟨fun hne => hok out value hanswer htext hne, fun _ => herr _ _⟩
  · exact herr

/-- A way to read the UUID of a device. -/
def ReadsUuid (lib : HandleLib) (uuid : Nat → Driver String) : Prop :=
  ∀ (ω : Vendor) (handle : Nat) (tr : Asked) (Q : Unit → Except Error String → Asked → Prop),
    (∀ out value, ω.answer tr lib.uuid [handle] .bytes = ⟨0, out⟩ →
      cText lib.uuid (buffer out 128 0) = .ok value → value ≠ "" →
      Q () (.ok value) (tr ++ [asked lib.uuid [handle] .bytes ⟨0, out⟩])) →
    (∀ e tr', Q () (.error e) tr') → wp (Spec.oracle Unit ω) (uuid handle) Q () tr

theorem readsUuid_text : ReadsUuid lib (lib.text lib.uuid) :=
  fun _ _ _ _ hok herr => wp_text hok herr

theorem readsUuid_checked (starts : List String) : ReadsUuid lib (lib.checkedUuid starts) := by
  intro ω handle tr Q hok herr
  rw [HandleLib.checkedUuid, wp_bind]
  apply wp_text
  · intro out value hanswer htext hne
    rw [andThen_ok, wp_bind, wp_ensure]
    exact ⟨fun _ => hok out value hanswer htext hne, fun _ => herr _ _⟩
  · exact herr

/-- The calls of `sameDevice`. -/
def HandleLib.identified (lib : HandleLib) (device : Device) (handle : Nat)
    (out : Nat → Option UInt8) : Asked :=
  [asked lib.handle [device.id] .uint ⟨0, some handle⟩, asked lib.uuid [handle] .bytes ⟨0, out⟩]

/-- The library has a handle for the device, and still the same UUID. -/
structure HandleLib.Identifies (lib : HandleLib) (ω : Vendor) (device : Device) (handle : Nat)
    (out : Nat → Option UInt8) : Prop where
  found : ω.answer [] lib.handle [device.id] .uint = ⟨0, some handle⟩
  nonnull : handle ≠ 0
  uuid : ω.answer [asked lib.handle [device.id] .uint ⟨0, some handle⟩] lib.uuid [handle] .bytes =
    ⟨0, out⟩
  text : cText lib.uuid (buffer out 128 0) = .ok device.visible
  nonempty : device.visible ≠ ""

theorem wp_sameDevice {uuid : Nat → Driver String} (huuid : ReadsUuid lib uuid)
    {Q : Unit → Except Error Nat → Asked → Prop}
    (hok : ∀ handle out, lib.Identifies ω device handle out →
      Q () (.ok handle) (lib.identified device handle out))
    (herr : ∀ e tr', Q () (.error e) tr') :
    wp (Spec.oracle Unit ω) (lib.sameDevice uuid device) Q () [] := by
  rw [HandleLib.sameDevice, HandleLib.deviceHandle, wp_bind, wp_bind]
  apply wp_invoke
  · intro out hhandle
    rw [andThen_ok, wp_bind, wp_ensure]
    refine ⟨fun hnonnull => ?_, fun _ => herr _ _⟩
    -- A handle that was not written is null.
    obtain ⟨handle, rfl⟩ : ∃ handle, out = some handle := by
      cases out with
      | none => exact absurd rfl hnonnull
      | some handle => exact ⟨handle, rfl⟩
    rw [andThen_ok, wp_pure, andThen_ok, wp_bind]
    apply huuid
    · intro bytes value hanswer htext hne
      rw [andThen_ok, wp_bind, wp_ensure]
      refine ⟨?_, fun _ => herr _ _⟩
      rintro rfl
      exact hok handle bytes ⟨hhandle, hnonnull, hanswer, htext, hne⟩
    · exact herr
  · exact herr

theorem occupancy_idle {operation : String} {handle : Nat} :
    wp (Spec.oracle Unit ω) (lib.occupancy operation handle) (fun _ r tr' => r = .ok "idle" →
      ∃ pids, tr' = tr ++ [asked operation [handle] .uints ⟨0, (pids, some 0)⟩]) () tr := by
  rw [HandleLib.occupancy, wp_bind]
  apply wp_invoke
  · intro processes _
    rw [andThen_ok]
    dsimp only
    rw [wp_bind, wp_ensure]
    refine ⟨fun _ => ?_, fun _ => by rintro ⟨⟩⟩
    rw [andThen_ok, wp_bind, wp_ensure]
    refine ⟨fun _ => ?_, fun _ => by rintro ⟨⟩⟩
    rw [andThen_ok, wp_pure]
    split
    · rename_i hzero
      intro _
      refine ⟨processes.1, ?_⟩
      rw [← written hzero (by decide)]
    · intro h
      simp at h
  · rintro e tr' ⟨⟩

theorem Mxsml.queryStatus_idle :
    wp (Spec.oracle Unit ω) (Mxsml.queryStatus device) (fun _ r tr' => r = .ok "idle" →
      ∃ handle out pids, Mxsml.lib.Identifies ω device handle out ∧
        tr' = Mxsml.lib.identified device handle out ++
          [asked "mxSmlGetDeviceUnavailableReason" [device.id] .int ⟨0, some 0⟩,
            asked "mxSmlExDeviceGetComputeRunningProcesses" [handle] .uints
              ⟨0, (pids, some 0)⟩]) () [] := by
  rw [Mxsml.queryStatus, wp_bind]
  apply wp_sameDevice (readsUuid_checked _)
  · intro handle out hidentifies
    rw [andThen_ok, wp_bind]
    apply wp_invoke
    · intro reason _
      rw [andThen_ok]
      dsimp only
      rw [wp_bind, wp_ensure]
      refine ⟨fun _ => ?_, fun _ => by rintro ⟨⟩⟩
      rw [andThen_ok]
      split
      · intro h
        simp at h
      · rename_i hgood
        have hreason : reason = some 0 := written (Decidable.not_not.mp hgood) (by decide)
        apply wp_mono occupancy_idle
        rintro _ r tr' hidle hr
        obtain ⟨pids, rfl⟩ := hidle hr
        refine ⟨handle, out, pids, hidentifies, ?_⟩
        rw [hreason, List.append_assoc]
        rfl
    · rintro e tr' ⟨⟩
  · rintro e tr' ⟨⟩

theorem Hgml.queryStatus_idle :
    wp (Spec.oracle Unit ω) (Hgml.queryStatus device) (fun _ r tr' => r = .ok "idle" →
      ∃ handle out pids, Hgml.lib.Identifies ω device handle out ∧
        tr' = Hgml.lib.identified device handle out ++
          [asked "hgmlDeviceGetComputeRunningProcesses_v2" [handle] .uints
            ⟨0, (pids, some 0)⟩]) () [] := by
  rw [Hgml.queryStatus, wp_bind]
  apply wp_sameDevice (readsUuid_checked _)
  · intro handle out hidentifies
    rw [andThen_ok]
    apply wp_mono occupancy_idle
    rintro _ r tr' hidle hr
    obtain ⟨pids, rfl⟩ := hidle hr
    exact ⟨handle, out, pids, hidentifies, rfl⟩
  · rintro e tr' ⟨⟩

/-- MTML counts the processes itself; its count may not have been written. -/
theorem Mtml.queryStatus_idle :
    wp (Spec.oracle Unit ω) (Mtml.queryStatus device) (fun _ r tr' => r = .ok "idle" →
      ∃ handle out count, Mtml.lib.Identifies ω device handle out ∧
        ω.answer (Mtml.lib.identified device handle out) "mtmlDeviceCountProcessMemoryUsages"
          [handle] .uint = ⟨0, count⟩ ∧ (count = some 0 ∨ count = none) ∧
        tr' = Mtml.lib.identified device handle out ++
          [asked "mtmlDeviceCountProcessMemoryUsages" [handle] .uint ⟨0, count⟩]) () [] := by
  rw [Mtml.queryStatus, wp_bind]
  apply wp_sameDevice readsUuid_text
  · intro handle out hidentifies
    rw [andThen_ok, wp_bind]
    apply wp_invoke
    · intro count hanswer
      rw [andThen_ok]
      dsimp only
      rw [wp_bind, wp_ensure]
      refine ⟨fun _ => ?_, fun _ => by rintro ⟨⟩⟩
      rw [andThen_ok, wp_pure]
      split
      · rename_i hzero
        intro _
        refine ⟨handle, out, count, hidentifies, hanswer, ?_, rfl⟩
        cases count with
        | none => exact Or.inr rfl
        | some n => exact Or.inl (congrArg some hzero)
      · intro h
        simp at h
    · rintro e tr' ⟨⟩
  · rintro e tr' ⟨⟩

/-! ## All monitors -/

/-- What the library has said, if the monitor reports the device as idle. -/
def Monitor.FailsClosed (m : Monitor) (ω : Vendor) (device : Device) : Prop :=
  ((m.status device ()).run ω []).value = .ok "idle" →
    Vouched m device ((m.status device ()).run ω []).trace

/-- MTML returns success for the process count of the device, and has not written it. -/
def Mtml.Silent (ω : Vendor) (device : Device) : Prop :=
  ∃ handle out, Mtml.lib.Identifies ω device handle out ∧
    ω.answer (Mtml.lib.identified device handle out) "mtmlDeviceCountProcessMemoryUsages"
      [handle] .uint = ⟨0, none⟩

theorem Monitor.failsClosed_of_wp {m : Monitor}
    (h : wp (Spec.oracle Unit ω) (m.status device) (fun _ r tr' =>
      r = .ok "idle" → Vouched m device tr') () []) : m.FailsClosed ω device :=
  wp_oracle.mp h

/-- The UUID is not read a second time. -/
theorem HandleLib.Identifies.same {lib : HandleLib} {handle : Nat} {out : Nat → Option UInt8}
    {rest : Asked} (h : lib.Identifies ω device handle out) (hne : lib.handle ≠ lib.uuid)
    (hrest : ∀ e ∈ rest, e.1.name ≠ lib.uuid) :
    (lib.identified device handle out ++ rest).Shows lib.uuid
      fun shape out => shape.text out = some device.visible := by
  apply Asked.shows_skip hne
  apply Asked.shows_here rfl _ hrest
  show (cText "" (buffer out 128 0)).toOption = some device.visible
  rw [cText_toOption "" lib.uuid, h.text]
  rfl

theorem mxsml_failsClosed : Monitor.mxsml.FailsClosed ω device := by
  apply Monitor.failsClosed_of_wp
  apply wp_orUnknown (by decide)
  apply wp_mono Mxsml.queryStatus_idle
  rintro _ r tr' hidle hr
  obtain ⟨handle, out, pids, hidentifies, rfl⟩ := hidle hr
  constructor
  · simp [HandleLib.identified, asked]
  · rintro name ⟨⟩
    apply Asked.shows_skip (by decide)
    apply Asked.shows_skip (by decide)
    exact Asked.shows_here rfl rfl (by simp [asked])
  · rintro name ⟨⟩
    exact hidentifies.same (by decide) (by simp [asked, Mxsml.lib])
  · apply Asked.shows_skip (by decide)
    apply Asked.shows_skip (by decide)
    apply Asked.shows_skip (by decide)
    exact Asked.shows_here rfl rfl (by simp)

theorem hgml_failsClosed : Monitor.hgml.FailsClosed ω device := by
  apply Monitor.failsClosed_of_wp
  apply wp_orUnknown (by decide)
  apply wp_mono Hgml.queryStatus_idle
  rintro _ r tr' hidle hr
  obtain ⟨handle, out, pids, hidentifies, rfl⟩ := hidle hr
  constructor
  · simp [HandleLib.identified, asked]
  · rintro name ⟨⟩
  · rintro name ⟨⟩
    exact hidentifies.same (by decide) (by simp [asked, Hgml.lib])
  · apply Asked.shows_skip (by decide)
    apply Asked.shows_skip (by decide)
    exact Asked.shows_here rfl rfl (by simp)

theorem dcmiV2_failsClosed : Monitor.dcmiV2.FailsClosed ω device := by
  apply Monitor.failsClosed_of_wp
  show wp _ (Api.status device) _ _ _
  rw [Api.status, wp_bind]
  apply toCInt_wp
  · rw [andThen_ok]
    apply wp_mono (dcmiStatus_idle (by decide))
    intro _ r tr' hidle hr
    rw [hidle hr]
    exact dcmi_vouched rfl rfl (by decide)
  · rintro e ⟨⟩

theorem legacy_failsClosed : Monitor.legacy.FailsClosed ω device := by
  apply Monitor.failsClosed_of_wp
  show wp _ (Legacy.status device) _ _ _
  rw [Legacy.status, wp_bind]
  apply toCInt_wp
  · rw [andThen_ok, wp_bind]
    apply toCInt_wp
    · rw [andThen_ok]
      apply wp_mono (dcmiStatus_idle (by decide))
      intro _ r tr' hidle hr
      rw [hidle hr]
      exact dcmi_vouched rfl rfl (by decide)
    · rintro e ⟨⟩
  · rintro e ⟨⟩

/-- A silent library makes the device idle. -/
theorem Mtml.silent_idle {handle : Nat} {out : Nat → Option UInt8}
    (h : Mtml.lib.Identifies ω device handle out)
    (hsilent : ω.answer (Mtml.lib.identified device handle out)
      "mtmlDeviceCountProcessMemoryUsages" [handle] .uint = ⟨0, none⟩) :
    wp (Spec.oracle Unit ω) (Mtml.status device) (fun _ r tr' => r = .ok "idle" ∧
      tr' = Mtml.lib.identified device handle out ++
        [asked "mtmlDeviceCountProcessMemoryUsages" [handle] .uint ⟨0, none⟩]) () [] := by
  rw [Mtml.status, orUnknown, wp_bind, wp_attempt, Mtml.queryStatus, wp_bind,
    HandleLib.sameDevice, wp_bind, HandleLib.deviceHandle, wp_bind]
  apply wp_invoke_ok h.found
  rw [andThen_ok, wp_bind, wp_ensure]
  refine ⟨fun _ => ?_, fun hnull => absurd h.nonnull hnull⟩
  rw [andThen_ok, wp_pure, andThen_ok, wp_bind, HandleLib.text, wp_bind]
  apply wp_invoke_ok h.uuid
  rw [andThen_ok, wp_bind, h.text, wp_lift, andThen_ok, wp_bind, wp_ensure]
  refine ⟨fun _ => ?_, fun hempty => absurd h.nonempty hempty⟩
  rw [andThen_ok, wp_pure, andThen_ok, wp_bind, wp_ensure]
  refine ⟨fun _ => ?_, fun hother => absurd rfl hother⟩
  rw [andThen_ok, wp_pure, andThen_ok, wp_bind]
  apply wp_invoke_ok hsilent
  rw [andThen_ok]
  dsimp only
  rw [wp_bind, wp_ensure]
  exact ⟨fun _ => ⟨rfl, rfl⟩, fun hlarge => absurd (Nat.zero_le _) hlarge⟩

theorem mtml_failsClosed_iff : Monitor.mtml.FailsClosed ω device ↔ ¬ Mtml.Silent ω device := by
  constructor
  · rintro h ⟨handle, out, hidentifies, hsilent⟩
    obtain ⟨hvalue, htrace⟩ := wp_oracle.mp (Mtml.silent_idle hidentifies hsilent)
    have hunused := (h hvalue).unused.2 (asked "mtmlDeviceCountProcessMemoryUsages" [handle] .uint
      ⟨0, none⟩)
    rw [show ((Monitor.mtml.status device ()).run ω []).trace = _ from htrace] at hunused
    cases hunused (List.mem_append_right _ (List.mem_singleton_self _)) rfl
  · intro hsilent
    apply Monitor.failsClosed_of_wp
    apply wp_orUnknown (by decide)
    apply wp_mono Mtml.queryStatus_idle
    rintro _ r tr' hidle hr
    obtain ⟨handle, out, count, hidentifies, hanswer, hcount, rfl⟩ := hidle hr
    rcases hcount with rfl | rfl
    · constructor
      · simp [HandleLib.identified, asked]
      · rintro name ⟨⟩
      · rintro name ⟨⟩
        exact hidentifies.same (by decide) (by simp [asked, Mtml.lib])
      · apply Asked.shows_skip (by decide)
        apply Asked.shows_skip (by decide)
        exact Asked.shows_here rfl rfl (by simp)
    · exact absurd ⟨handle, out, hidentifies, hanswer⟩ hsilent

/-! ## HCU -/

namespace Smi

/-- Process `pid` has between 1 and 64 devices, and device `i` is none of them. -/
structure Spares (total i pid : Nat) (ids : List Nat) (own : Asked) : Prop where
  process : pid ≠ 0
  answered : ∃ gpus, own = [asked "rsmi_compute_process_gpus_get" [pid] .uints ⟨0, gpus⟩] ∧
    1 ≤ gpus.2.getD 64 ∧ gpus.2.getD 64 ≤ 64 ∧ ids = buffer gpus.1 (gpus.2.getD 64) (2 ^ 32 - 1)
  below : ∀ id ∈ ids, id < total
  other : i ∉ ids

/-- All that vouches for device `i`. -/
def Vouches (i : Nat) (tr : Asked) : Prop :=
  ∃ total processes lists rest,
    tr = asked "rsmi_num_monitor_devices" [] .uint ⟨0, some total⟩ ::
      asked "rsmi_compute_process_info_get" [] .uints ⟨0, processes⟩ :: rest ∧
    1 ≤ total ∧ total ≤ 64 ∧ processes.2.getD 4096 ≤ 4096 ∧
    Each (Spares total i) (buffer processes.1 (processes.2.getD 4096) 0) lists rest

/-- The devices of a process, before one of them is looked for. -/
def Reports (total pid : Nat) (ids : List Nat) (own : Asked) : Prop :=
  ∀ i, i ∉ ids → Spares total i pid ids own

theorem processDevices_reports (total pid : Nat) :
    wp (Spec.oracle Unit ω) (processDevices total pid) (fun _ r tr' =>
      ∀ ids, r = .ok ids → ∃ own, tr' = tr ++ own ∧ Reports total pid ids own) () tr := by
  rw [processDevices, wp_bind, wp_ensure]
  refine ⟨fun hpid => ?_, fun _ => by rintro _ ⟨⟩⟩
  rw [andThen_ok, wp_bind]
  apply wp_invoke
  · intro gpus _
    rw [andThen_ok]
    dsimp only
    rw [wp_bind, wp_ensure]
    refine ⟨fun hcount => ?_, fun _ => by rintro _ ⟨⟩⟩
    rw [andThen_ok, wp_lift, take_buffer _ _ hcount.2]
    split
    · rintro _ ⟨⟩
    · rename_i hfind
      rintro ids ⟨⟩
      refine ⟨_, rfl, fun i hi => ⟨Nat.pos_iff_ne_zero.mp hpid, ?_, ?_, hi⟩⟩
      · exact ⟨gpus, rfl, hcount.1, hcount.2, rfl⟩
      · intro id hid
        have hbelow := List.find?_eq_none.mp hfind id hid
        simpa using hbelow
  · rintro e tr' _ ⟨⟩

theorem busyDevices_vouches (i : Nat) :
    wp (Spec.oracle Unit ω) busyDevices (fun _ r tr' =>
      ∀ busy, r = .ok busy → i ∉ busy → Vouches i tr') () [] := by
  rw [busyDevices, wp_bind, deviceCount, wp_bind]
  apply wp_invoke
  · intro count _
    rw [andThen_ok]
    dsimp only
    rw [wp_bind, wp_ensure]
    refine ⟨fun htotal => ?_, fun _ => by rintro _ ⟨⟩⟩
    -- A count that was not written is no count of devices.
    obtain ⟨total, rfl⟩ : ∃ total, count = some total := by
      cases count with
      | none => exact absurd htotal.1 (by decide)
      | some total => exact ⟨total, rfl⟩
    rw [andThen_ok, wp_pure, andThen_ok, wp_bind]
    apply wp_invoke
    · intro processes _
      rw [andThen_ok]
      rw [wp_bind, wp_ensure]
      refine ⟨fun hprocesses => ?_, fun _ => by rintro _ ⟨⟩⟩
      rw [andThen_ok, take_buffer _ _ hprocesses, Option.getD_some]
      apply wp_bind_of (wp_each fun pid _ tr => processDevices_reports total pid)
      · rintro _ lists tr' hlists
        obtain ⟨rest, rfl, heach⟩ := hlists lists rfl
        rw [wp_pure]
        rintro busy ⟨⟩ hi
        refine ⟨total, processes, lists, rest, rfl, htotal.1, htotal.2, hprocesses, ?_⟩
        apply heach.imp
        intro pid ids own hids hreports
        apply hreports
        intro hmem
        apply hi
        rw [List.mem_toFinset]
        exact List.mem_flatten_of_mem hids hmem
      · rintro _ e tr' _ _ ⟨⟩
    · rintro e tr' _ ⟨⟩
  · rintro e tr' _ ⟨⟩

end Smi

/-! ## The law -/

/-- A device is reported idle only where the library vouches for it, unless MTML returns
    success for a process count that it does not write. -/
theorem monitors_failClosed (m : Monitor) (ω : Vendor) (device : Device) (i : Nat) :
    (m.FailsClosed ω device ↔ ¬ (m = .mtml ∧ Mtml.Silent ω device)) ∧
    ∀ busy, ((Smi.busyDevices ()).run ω []).value = .ok busy → i ∉ busy →
      Smi.Vouches i ((Smi.busyDevices ()).run ω []).trace := by
  constructor
  · cases m with
    | mtml => exact mtml_failsClosed_iff.trans (not_congr (by simp))
    | dcmiV2 => exact iff_of_true dcmiV2_failsClosed (by rintro ⟨⟨⟩, _⟩)
    | legacy => exact iff_of_true legacy_failsClosed (by rintro ⟨⟨⟩, _⟩)
    | mxsml => exact iff_of_true mxsml_failsClosed (by rintro ⟨⟨⟩, _⟩)
    | hgml => exact iff_of_true hgml_failsClosed (by rintro ⟨⟨⟩, _⟩)
  · exact wp_oracle.mp (Smi.busyDevices_vouches i)

/-! ## The exception -/

/-- An MTML library that knows one device and never writes a process count. -/
def silentMtml : Vendor := fun _ f =>
  match f with
  | ⟨name, _, .uint⟩ => ⟨0, if name = Mtml.lib.handle then some 1 else none⟩
  | ⟨_, _, .bytes⟩ => ⟨0, fun i => some (if i = 0 then 71 else 0)⟩
  | ⟨_, _, .int⟩ => ⟨0, none⟩
  | ⟨_, _, .ints⟩ => ⟨0, (fun _ => none, none)⟩
  | ⟨_, _, .uints⟩ => ⟨0, (fun _ => none, none)⟩

/-- It makes its device idle. -/
theorem silentMtml_not_failsClosed :
    ¬ ∀ (m : Monitor) (ω : Vendor) (device : Device), m.FailsClosed ω device := by
  intro h
  apply mtml_failsClosed_iff.mp (h .mtml silentMtml ⟨.mthreads, 0, "MTT", "G", none, none⟩)
  exact ⟨1, _, ⟨rfl, by decide, rfl, by decide, by decide⟩, rfl⟩

end Xlurm
