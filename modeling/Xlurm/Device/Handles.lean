/-
  Xlurm.Device.Handles

  MTML, MXSML and HGML (`device/mthreads.rs`, `metax.rs` and `ppu.rs`): libraries
  that address a device by a handle, which they give for its index.

  The three modules share their shape.  They differ in the UUIDs they accept, in
  the availability that only MXSML is asked for, and in how they count processes.
-/

import Xlurm.Device.Driver
import Xlurm.Text.Basic

namespace Xlurm

open Prog.Comp (call lift throw attempt ensure)

/-- What is different in the texts and names of the three modules. -/
structure HandleLib where
  kind : Kind
  /-- The library, in the errors of `check`. -/
  api : String
  /-- The vendor, in all other errors. -/
  vendor : String
  count : String
  handle : String
  uuid : String
  name : String

/-- The handle of device `id`. -/
def HandleLib.deviceHandle (lib : HandleLib) (id : Nat) : Driver Nat := do
  let handle := (← invoke lib.api lib.handle [id] .uint).getD 0
  ensure (handle ≠ 0) ("null " ++ lib.vendor ++ " device handle for index " ++ toString id)
  return handle

/-- A text of at most 127 bytes, not empty. -/
def HandleLib.text (lib : HandleLib) (operation : String) (handle : Nat) : Driver String := do
  let bytes ← invoke lib.api operation [handle] .bytes
  let value ← lift (cText operation (buffer bytes 128 0))
  ensure (value ≠ "") ("empty " ++ operation ++ " response")
  return value

/-- One turn of the loop of `discover`. -/
def HandleLib.discoverOne (lib : HandleLib) (uuid : Nat → Driver String) (id : Nat) :
    Driver Device := do
  let handle ← lib.deviceHandle id
  let visible ← uuid handle
  let name ← lib.text lib.name handle
  return { kind := lib.kind, id, visible, name, npu := none, chip := none }

def HandleLib.discover (lib : HandleLib) (uuid : Nat → Driver String) : Driver (List Device) := do
  let count := (← invoke lib.api lib.count [] .uint).getD 0
  ensure (1 ≤ count ∧ count ≤ 64)
    ("invalid " ++ lib.vendor ++ " device count " ++ toString count)
  let devices ← each (lib.discoverOne uuid) (List.range count)
  lift (validate devices)

/-- The handle of a device, if its index still means the same device. -/
def HandleLib.sameDevice (lib : HandleLib) (uuid : Nat → Driver String) (device : Device) :
    Driver Nat := do
  let handle ← lib.deviceHandle device.id
  let current ← uuid handle
  -- Fail closed if an index now names another device after a driver reset.
  ensure (current = device.visible)
    (lib.vendor ++ " UUID changed for index " ++ toString device.id)
  return handle

/-- MXSML and HGML list the processes. A single bounded call avoids a count/fill race.
    Insufficient capacity, invalid counts, or malformed entries are unknown, never idle. -/
def HandleLib.occupancy (lib : HandleLib) (operation : String) (handle : Nat) : Driver String := do
  let processes ← invoke lib.api operation [handle] .uints
  let count := processes.2.getD 4096
  ensure (count ≤ 4096) ("invalid " ++ lib.vendor ++ " process count " ++ toString count)
  ensure (∀ pid ∈ (buffer processes.1 4096 0).take count, 0 < pid)
    ("invalid " ++ lib.vendor ++ " process ID")
  return if count = 0 then "idle" else "busy"

/-- A UUID has one of these prefixes, and no blanks. -/
def HandleLib.checkedUuid (lib : HandleLib) (starts : List String) (handle : Nat) :
    Driver String := do
  let uuid ← lib.text lib.uuid handle
  ensure (starts.any (fun start => start.toList.isPrefixOf uuid.toList) ∧
      uuid.toList.any Text.isWhitespace = false)
    ("invalid " ++ lib.vendor ++ " UUID " ++ uuid)
  return uuid

namespace Mtml

def lib : HandleLib where
  kind := .mthreads
  api := "MTML"
  vendor := "MTML"
  count := "mtmlLibraryCountDevice"
  handle := "mtmlLibraryInitDeviceByIndex"
  uuid := "mtmlDeviceGetUUID"
  name := "mtmlDeviceGetName"

def discover : Driver (List Device) := lib.discover (lib.text lib.uuid)

def queryStatus (device : Device) : Driver String := do
  let handle ← lib.sameDevice (lib.text lib.uuid) device
  let count := (← invoke lib.api "mtmlDeviceCountProcessMemoryUsages" [handle] .uint).getD 0
  ensure (count ≤ 4096) ("invalid MTML process count " ++ toString count)
  return if count = 0 then "idle" else "busy"

def status (device : Device) : Driver String := orUnknown (queryStatus device)

end Mtml

namespace Mxsml

def lib : HandleLib where
  kind := .metax
  api := "MXSML"
  vendor := "MetaX"
  count := "mxSmlExDeviceGetCount"
  handle := "mxSmlExGetDeviceHandleByIndex"
  uuid := "mxSmlExDeviceGetUUID"
  name := "mxSmlExDeviceGetName"

def uuid : Nat → Driver String := lib.checkedUuid ["GPU-"]

def discover : Driver (List Device) := lib.discover uuid

def queryStatus (device : Device) : Driver String := do
  let handle ← lib.sameDevice uuid device
  let reason := (← invoke lib.api "mxSmlGetDeviceUnavailableReason" [device.id] .int).getD (-1)
  ensure (0 ≤ reason) "missing MetaX availability status"
  if reason ≠ 0 then
    return "unhealthy"
  lib.occupancy "mxSmlExDeviceGetComputeRunningProcesses" handle

def status (device : Device) : Driver String := orUnknown (queryStatus device)

end Mxsml

namespace Hgml

def lib : HandleLib where
  kind := .ppu
  api := "HGML"
  vendor := "PPU"
  count := "hgmlDeviceGetCount_v2"
  handle := "hgmlDeviceGetHandleByIndex_v2"
  uuid := "hgmlDeviceGetUUID"
  name := "hgmlDeviceGetName"

def uuid : Nat → Driver String := lib.checkedUuid ["GPU-", "PPU-"]

def discover : Driver (List Device) := lib.discover uuid

def queryStatus (device : Device) : Driver String := do
  let handle ← lib.sameDevice uuid device
  lib.occupancy "hgmlDeviceGetComputeRunningProcesses_v2" handle

def status (device : Device) : Driver String := orUnknown (queryStatus device)

end Hgml

end Xlurm
