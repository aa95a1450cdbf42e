/-
  Xlurm.Device.Inventory

  `device/mod.rs`: what the texts of `nvidia-smi` and `hy-smi` mean, how the
  inventory is discovered, and how a refresh computes the status of its devices
  from what its probes report.
-/

import Mathlib.Logic.Function.Basic
import Xlurm.Device.Ascend
import Xlurm.Device.Handles
import Xlurm.Device.Hcu
import Xlurm.Model.Paths
import Xlurm.Model.Scheduler
import Xlurm.Text.Basic

namespace Xlurm

/-! ## The texts -/

/-- Why `str::parse` refuses digits, after those that make up `value`. -/
def parseIntError (bound value : Nat) : List Char → Error
  | [] => "number too large to fit in target type"
  | c :: cs =>
      if c.isDigit then
        let next := 10 * value + (c.toNat - '0'.toNat)
        if bound ≤ next then "number too large to fit in target type"
        else parseIntError bound next cs
      else "invalid digit found in string"

/-- `parse::<u32>()`. -/
def parseId (cs : List Char) : Except Error Nat :=
  match parseU32 cs, cs with
  | some id, _ => .ok id
  | none, [] => .error "cannot parse integer from empty string"
  | none, ['+'] => .error "invalid digit found in string"
  | none, '+' :: cs => .error (parseIntError (2 ^ 32) 0 cs)
  | none, cs => .error (parseIntError (2 ^ 32) 0 cs)

/-- One turn of the loop of `parse_nvidia`. -/
def parseNvidiaLine (line : List Char) : Except Error Device := do
  match (Text.splitn ',' 3 line).map Text.trim with
  | [index, uuid, name] =>
      if "GPU-".toList.isPrefixOf uuid then
        let id ← parseId index
        .ok { kind := .nvidia, id, visible := String.ofList uuid, name := String.ofList name
              npu := none, chip := none }
      else .error "invalid nvidia-smi inventory"
  | _ => .error "invalid nvidia-smi inventory"

/-- The lines that are not blank. -/
def inventoryLines (text : String) : List (List Char) :=
  (Text.lines text.toList).filter fun line => !Text.isBlank line

def parseNvidia (text : String) : Except Error (List Device) := do
  let devices ← (inventoryLines text).mapM parseNvidiaLine
  validate devices

/-- What one line says about a card: nothing, or its number and whether it is healthy. A line
    that cannot be read is an error. -/
def hcuHealthLine (line : List Char) : Option (Option (Nat × Bool)) :=
  match Text.splitOnce ':' (Text.trim line) with
  | none => some none
  | some (card, status) =>
      match Text.stripPrefix "HCU[".toList (Text.trim card) with
      | none => some none
      | some card => do
          let id ← parseU32 (Text.trimEndMatches (· = ']') card)
          let status := Text.trim (Text.afterLast ':' status)
          if status = [] then none
          else some (some (id, Text.eqIgnoreAsciiCase status "healthy".toList))

/-- The lines of `hcu_health_status`, on the map of the lines before them. -/
def hcuHealthLines : List (List Char) → List (Nat × Bool) → Option (List (Nat × Bool))
  | [], health => some health
  | line :: lines, health => do
      match ← hcuHealthLine line with
      | none => hcuHealthLines lines health
      -- `insert` replaces what an earlier line said about the card.
      | some (id, healthy) => hcuHealthLines lines ((id, healthy) :: health.filter (·.1 ≠ id))

/-- The map, as a list of its entries. -/
def hcuHealthStatus (text : String) : Option (List (Nat × Bool)) := do
  let health ← hcuHealthLines (Text.lines text.toList) []
  if health = [] then none else some health

/-! ## Discovery -/

/-- What a start finds: the output of `nvidia-smi`, and each library that could be loaded. -/
structure Drivers where
  nvidia : Except Error String
  ascend : Except Error (Dcmi × Vendor)
  mthreads : Except Error Vendor
  metax : Except Error Vendor
  ppu : Except Error Vendor
  hcu : Except Error Vendor

/-- What the driver of one vendor discovers. -/
def discovered (x : Driver (List Device)) (ω : Vendor) : Except Error (List Device) :=
  ((x ()).run ω []).value

/-- The `match` on the kind in `Inventory::discover`. -/
def Drivers.found (drivers : Drivers) : Kind → Except Error (List Device)
  | .nvidia => do parseNvidia (← drivers.nvidia)
  | .ascend => do
      let (dcmi, ω) ← drivers.ascend
      discovered dcmi.discover ω
  | .mthreads => do discovered Mtml.discover (← drivers.mthreads)
  | .metax => do discovered Mxsml.discover (← drivers.metax)
  | .ppu => do discovered Hgml.discover (← drivers.ppu)
  | .hcu => do discovered Smi.discover (← drivers.hcu)

/-- The backends of the command line. -/
inductive Backend
  | auto
  | only (kind : Kind)
  | none
  deriving DecidableEq

/-- The kinds that `discover` looks for. -/
def Backend.kinds : Backend → List Kind
  | auto => Kind.priority
  | only kind => Kind.priority.filter (· = kind)
  | none => []

/-- The loop of `discover`: `found` is what the discovery of each vendor returns. -/
def discoverKinds (backend : Backend) (found : Kind → Except Error (List Device)) :
    List Kind → Except Error (List Device)
  | [] => .ok []
  | kind :: kinds =>
      match found kind with
      | .ok devices => do
          let rest ← discoverKinds backend found kinds
          .ok (devices ++ rest)
      | .error e => if backend = .auto then discoverKinds backend found kinds else .error e

/-- The devices of `Inventory::discover`. -/
def discover (backend : Backend) (found : Kind → Except Error (List Device)) :
    Except Error (List Device) :=
  discoverKinds backend found backend.kinds

/-! ## Refresh -/

/-- What the probes of one refresh report. A driver that was not loaded is `none`. -/
structure Probes where
  nvidia : Except Error String
  ascend : Option (Device → Except Error String)
  mthreads : Option (Device → String)
  metax : Option (Device → String)
  ppu : Option (Device → String)
  hcu : Option (Except Error (Finset Nat))
  hcuHealth : Except Error String

/-- What a refresh changes, and the lines it logs. -/
structure Monitoring where
  status : String → Option String
  monitoringErrors : String → Option String
  log : List String

/-- `"busy"`, `"idle"`, or `"unknown"`. -/
def occupancyStatus : Option Bool → String
  | some true => "idle"
  | some false => "busy"
  | none => "unknown"

/-- Whether no process is on the device, if the output of `nvidia-smi` is what it should be. -/
def nvidiaIdle (nvidiaBusy : Except Error String) (device : Device) : Option Bool :=
  match nvidiaBusy with
  | .error _ => none
  | .ok text =>
      let lines := (Text.lines text.toList).map Text.trim
      if lines.all fun line => line == [] || "GPU-".toList.isPrefixOf line then
        some (!lines.any (· == device.visible.toList))
      else none

/-- The status of an HCU device. -/
def hcuStatus (busy : Except Error (Finset Nat)) (health : Option (List (Nat × Bool)))
    (device : Device) : String :=
  let healthy := health.bind (·.lookup device.id)
  let processIdle := match busy with
    | .ok busy => some (device.id ∉ busy : Bool)
    | .error _ => none
  if healthy = some false then "unhealthy"
  else occupancyStatus (if healthy = some true then processIdle else none)

/-- The probe of an Ascend device. -/
def ascendStatus (ascend : Option (Device → Except Error String)) (device : Device) :
    Except Error String :=
  match ascend with
  | none => .error "DCMI unavailable"
  | some status => status device

/-- `HashMap::insert`, and `remove`. -/
def setKey (m : String → Option String) (key : String) (value : Option String) :
    String → Option String := Function.update m key value

/-- The Ascend branch of the loop. -/
def refreshAscend (result : Except Error String) (key : String) (m : Monitoring) : Monitoring :=
  match result with
  | .ok status =>
      { status := setKey m.status key status
        monitoringErrors := setKey m.monitoringErrors key none
        log := if (m.monitoringErrors key).isSome then
            m.log ++ [key ++ ": monitoring recovered (" ++ status ++ ")"]
          else m.log }
  | .error e =>
      if m.monitoringErrors key = some e then { m with status := setKey m.status key "unknown" }
      else
        { status := setKey m.status key "unknown"
          monitoringErrors := setKey m.monitoringErrors key e
          log := m.log ++ [key ++ ": " ++ e] }

/-- One turn of the loop of `refresh`. -/
def refreshDevice (probes : Probes) (device : Device) (m : Monitoring) : Monitoring :=
  let set status := { m with status := setKey m.status device.key (some status) }
  match device.kind with
  | .nvidia => set (occupancyStatus (nvidiaIdle probes.nvidia device))
  | .ascend => refreshAscend (ascendStatus probes.ascend device) device.key m
  | .mthreads => set (match probes.mthreads with | none => "unknown" | some status => status device)
  | .metax => set (match probes.metax with | none => "unknown" | some status => status device)
  | .ppu => set (match probes.ppu with | none => "unknown" | some status => status device)
  | .hcu =>
      let busy := probes.hcu.getD (.error "HCU SMI unavailable")
      let health := match probes.hcuHealth with
        | .ok text => hcuHealthStatus text
        | .error _ => none
      set (hcuStatus busy health device)

/-- `refresh`, with the lines it logs. -/
def Inventory.refresh (probes : Probes) (inventory : Inventory) : Inventory × List String :=
  let m := inventory.devices.foldl (fun m device => refreshDevice probes device m)
    ⟨inventory.status, inventory.monitoringErrors, []⟩
  ({ inventory with status := m.status, monitoringErrors := m.monitoringErrors }, m.log)

end Xlurm
