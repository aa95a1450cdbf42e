/-
  Xlurm.Device.Hcu

  The HCU SMI binding of `device/hcu.rs`: discovery, and which devices are in use.
-/

import Mathlib.Data.Finset.Insert
import Xlurm.Device.Driver

namespace Xlurm.Smi

open Prog.Comp (call lift throw attempt ensure)

def deviceCount : Driver Nat := do
  let count := (← invoke "HCU SMI" "rsmi_num_monitor_devices" [] .uint).getD 0
  ensure (1 ≤ count ∧ count ≤ 64) ("invalid HCU device count " ++ toString count)
  return count

/-- `{uid:016x}`. -/
def hex16 (uid : Nat) : String :=
  let digits := Nat.toDigits 16 uid
  String.ofList (List.replicate (16 - digits.length) '0' ++ digits)

/-- One turn of the loop of `discover`. -/
def discoverOne (id : Nat) : Driver Device := do
  let uid := (← invoke "HCU SMI" "rsmi_dev_unique_id_get" [id] .uint).getD 0
  ensure (uid ≠ 0 ∧ uid ≠ 2 ^ 64 - 1) ("invalid HCU unique ID for device " ++ toString id)
  return { kind := .hcu, id, name := "HCU", visible := hex16 uid, npu := none, chip := none }

def discover : Driver (List Device) := do
  let devices ← each discoverOne (List.range (← deviceCount))
  lift (validate devices)

/-- The devices of one process. -/
def processDevices (deviceCount pid : Nat) : Driver (List Nat) := do
  ensure (0 < pid) "invalid HCU process ID"
  let gpus ← invoke "HCU SMI" "rsmi_compute_process_gpus_get" [pid] .uints
  let count := gpus.2.getD 64
  ensure (1 ≤ count ∧ count ≤ 64) ("invalid HCU process device count " ++ toString count)
  let ids := (buffer gpus.1 64 (2 ^ 32 - 1)).take count
  lift (match ids.find? (deviceCount ≤ ·) with
    | some id => .error ("invalid HCU process device index " ++ toString id)
    | none => .ok ids)

/-- Fixed bounded buffers avoid count/fill races and unbounded driver allocations.
    Insufficient space or a process disappearing during lookup fails closed. -/
def busyDevices : Driver (Finset Nat) := do
  let deviceCount ← deviceCount
  let processes ← invoke "HCU SMI" "rsmi_compute_process_info_get" [] .uints
  let count := processes.2.getD 4096
  ensure (count ≤ 4096) ("invalid HCU process count " ++ toString count)
  let busy ← each (processDevices deviceCount) ((buffer processes.1 4096 0).take count)
  return busy.flatten.toFinset

end Xlurm.Smi
