/-
  Xlurm.Device.Ascend

  The two DCMI bindings of `device/ascend.rs`: what they ask the library when
  they discover devices, and for the status of one.
-/

import Mathlib.Data.List.Sort
import Xlurm.Device.Driver

namespace Xlurm

open Prog.Comp (call lift throw attempt ensure)

/-- `c_uint::MAX`. -/
def cUintMax : Nat := 2 ^ 32 - 1

/-- `c_int::try_from` with a context; the text of the conversion's own error is left out. -/
def toCInt (message : String) (n : Nat) : Driver Int := do
  ensure (n < 2 ^ 31) message
  return n

/-- The name of a chip ends at its first null byte, if there is one; the position in the error
    of an invalid text is left out. -/
def chipName (bytes : List UInt8) : Except Error String :=
  match Json.ofUtf8 (bytes.takeWhile (· ≠ 0)) with
  | some cs => .ok (String.ofList cs)
  | none => .error "invalid DCMI chip name"

/-- The queries that both bindings make, in their order.  They differ in the functions, in
    how a device is addressed, and in the count that they start from. -/
def dcmiStatus (health processes : String) (address : List Int) (initial : Int32) :
    Driver String := do
  let health := (← invoke "DCMI" health address .uint).getD cUintMax
  ensure (health ≠ cUintMax) "DCMI returned no health value"
  if health ≠ 0 then
    return "unhealthy"
  let count := (← withContext "cannot determine Ascend process occupancy"
    (invoke "DCMI" processes address .int)).getD initial
  ensure (0 ≤ count ∧ count ≤ 64) ("DCMI returned invalid process count " ++ toString count)
  return if count = 0 then "idle" else "busy"

/-- Check a count, and take the first `count` entries of a list of 64. -/
def counted (what : String) (list : (Nat → Option Int32) × Option Int32) : Driver (List Int) := do
  let count := (list.2.getD 0).toInt
  ensure (1 ≤ count ∧ count ≤ 64) ("invalid DCMI " ++ what ++ " count " ++ toString count)
  return ((buffer list.1 64 0).take count.toNat).map Int32.toInt

namespace Api

def status (device : Device) : Driver String := do
  let id ← toCInt "invalid DCMI logical ID" device.id
  dcmiStatus "dcmiv2_get_device_health" "dcmiv2_get_device_resource_info" [id] (-1)

/-- One turn of the loop of `discover`. -/
def discoverOne (id : Int) : Driver Device := do
  ensure (0 ≤ id) ("invalid DCMI logical ID " ++ toString id)
  let info ← invoke "DCMI" "dcmiv2_get_device_chip_info" [id] .bytes
  let name ← lift (chipName (buffer info 32 0))
  return { kind := .ascend, id := id.toNat, visible := toString id, name, npu := none, chip := none }

def discover : Driver (List Device) := do
  let ids ← counted "device" (← invoke "DCMI" "dcmiv2_get_device_list" [] .ints)
  let devices ← each discoverOne ids
  lift (validate (devices.insertionSort fun a b => a.id ≤ b.id))

end Api

namespace Legacy

/-- A device that was not discovered as a chip of a card is the first chip of its own. -/
def status (device : Device) : Driver String := do
  let card ← toCInt "invalid DCMI card ID" (device.npu.getD device.id)
  let chip ← toCInt "invalid DCMI chip ID" (device.chip.getD 0)
  dcmiStatus "dcmi_get_device_health" "dcmi_get_device_resource_info" [card, chip] 64

def cardIds : Driver (List Int) := do
  counted "card" (← invoke "DCMI" "dcmi_get_card_list" [] .ints)

/-- `as u32`. -/
def toU32 (n : Int) : Nat := (n % 2 ^ 32).toNat

/-- One turn of the loop of `discover`. -/
def discoverOne (card : Int) : Driver Device := do
  let count := ((← invoke "DCMI" "dcmi_get_device_num_in_card" [card] .int).getD 0).toInt
  ensure (0 < count ∧ count ≤ 64) ("invalid DCMI device count " ++ toString count)
  let device : Int := 0
  let info ← invoke "DCMI" "dcmi_get_device_chip_info" [card, device] .bytes
  let name ← lift (chipName (buffer info 32 0))
  return { kind := .ascend, id := toU32 card, visible := toString card, name
           npu := some (toU32 card), chip := some (toU32 device) }

def discover : Driver (List Device) := do
  let devices ← each discoverOne (← cardIds)
  lift (validate devices)

end Legacy

/-- The binding that could be loaded. -/
inductive Dcmi
  | api | legacy
  deriving DecidableEq

def Dcmi.discover : Dcmi → Driver (List Device)
  | api => Api.discover
  | legacy => Legacy.discover

def Dcmi.status : Dcmi → Device → Driver String
  | api => Api.status
  | legacy => Legacy.status

end Xlurm
