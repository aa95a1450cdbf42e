/-
  Xlurm.Theorems.Refresh

  A refresh is fail-closed and forgets old readings.

  The keys of an inventory are unique, so the turn of the loop for one device
  leaves the entries of all others alone: what is in the maps afterwards is what
  the device's own turn has put there, from the probes of this refresh.
-/

import Xlurm.Device.Inventory

namespace Xlurm

variable {probes : Probes} {device : Device} {devices : List Device} {m m' : Monitoring}
  {key : String}

/-! ## What the probes say -/

/-- Why the probe of an Ascend device has failed, if it has. -/
def Probes.failure (probes : Probes) (device : Device) : Option Error :=
  match ascendStatus probes.ascend device with
  | .ok _ => none
  | .error e => some e

/-- What a driver that may not have been loaded reports. -/
def driverStatus (driver : Option (Device → String)) (device : Device) : String :=
  (driver.map fun status => status device).getD "unknown"

/-- The status of a device, from the probes alone. -/
def Probes.deviceStatus (probes : Probes) (device : Device) : String :=
  match device.kind with
  | .nvidia => occupancyStatus (nvidiaIdle probes.nvidia device)
  | .ascend =>
      match ascendStatus probes.ascend device with
      | .ok status => status
      | .error _ => "unknown"
  | .mthreads => driverStatus probes.mthreads device
  | .metax => driverStatus probes.metax device
  | .ppu => driverStatus probes.ppu device
  | .hcu =>
      hcuStatus (probes.hcu.getD (.error "HCU SMI unavailable"))
        (probes.hcuHealth.toOption.bind hcuHealthStatus) device

/-- The driver is loaded and reports the device as idle. -/
def reportsIdle (driver : Option (Device → String)) (device : Device) : Prop :=
  ∃ status, driver = some status ∧ status device = "idle"

/-- Why a device may be called idle. -/
def Probes.ShowsIdle (probes : Probes) (device : Device) : Prop :=
  match device.kind with
  | .nvidia => ∃ text, probes.nvidia = .ok text ∧ ∀ line ∈ Text.lines text.toList,
      (Text.isBlank line = false → "GPU-".toList.isPrefixOf (Text.trim line) = true) ∧
        Text.trim line ≠ device.visible.toList
  | .ascend => ∃ status, probes.ascend = some status ∧ status device = .ok "idle"
  | .mthreads => reportsIdle probes.mthreads device
  | .metax => reportsIdle probes.metax device
  | .ppu => reportsIdle probes.ppu device
  | .hcu => (∃ text health, probes.hcuHealth = .ok text ∧ hcuHealthStatus text = some health ∧
        health.lookup device.id = some true) ∧
      ∃ busy, probes.hcu = some (.ok busy) ∧ device.id ∉ busy

/-- The lines that are logged for a device, after `before` as its monitoring error. -/
def Probes.logged (probes : Probes) (device : Device) (before : Option Error) : List String :=
  if device.kind = .ascend then
    match ascendStatus probes.ascend device with
    | .ok status =>
        if before.isSome then [device.key ++ ": monitoring recovered (" ++ status ++ ")"] else []
    | .error e => if before = some e then [] else [device.key ++ ": " ++ e]
  else []

/-! ## One turn of the loop -/

theorem setKey_same (map : String → Option String) (key : String) (value : Option String) :
    setKey map key value key = value := Function.update_self ..

theorem setKey_of_ne (map : String → Option String) {key key' : String} (value : Option String)
    (h : key' ≠ key) : setKey map key value key' = map key' := Function.update_of_ne h ..

/-- What one turn does, from what was there before. -/
structure Turn (probes : Probes) (device : Device) (m m' : Monitoring) : Prop where
  status : m'.status = setKey m.status device.key (some (probes.deviceStatus device))
  errors : m'.monitoringErrors =
    if device.kind = .ascend then setKey m.monitoringErrors device.key (probes.failure device)
    else m.monitoringErrors
  log : m'.log = m.log ++ probes.logged device (m.monitoringErrors device.key)

theorem refreshAscend_turn (hkind : device.kind = .ascend) :
    Turn probes device m (refreshAscend (ascendStatus probes.ascend device) device.key m) := by
  cases hresult : ascendStatus probes.ascend device with
  -- A status is shown, and a stored error is forgotten.
  | ok status =>
      have hstatus : probes.deviceStatus device = status := by
        rw [Probes.deviceStatus, hkind]
        simp only [hresult]
      have hfailure : probes.failure device = none := by
        rw [Probes.failure, hresult]
      constructor
      · rw [hstatus]
        rfl
      · rw [if_pos hkind, hfailure]
        rfl
      · rw [Probes.logged, if_pos hkind, hresult]
        show (if _ then _ else _) = _
        split
        · rfl
        · exact (List.append_nil _).symm
  -- A failed query is shown as unknown; its text is logged when it is a new one.
  | error e =>
      have hstatus : probes.deviceStatus device = "unknown" := by
        rw [Probes.deviceStatus, hkind]
        simp only [hresult]
      have hfailure : probes.failure device = some e := by
        rw [Probes.failure, hresult]
      rw [refreshAscend]
      by_cases hsame : m.monitoringErrors device.key = some e
      -- The text is what was stored before, so nothing is stored or logged.
      · rw [if_pos hsame]
        constructor
        · rw [hstatus]
        · rw [if_pos hkind, hfailure, ← hsame]
          exact (Function.update_eq_self _ _).symm
        · rw [Probes.logged, if_pos hkind, hresult, hsame]
          show m.log = m.log ++ if some e = some e then [] else _
          rw [if_pos rfl, List.append_nil]
      · rw [if_neg hsame]
        constructor
        · rw [hstatus]
        · rw [if_pos hkind, hfailure]
        · rw [Probes.logged, if_pos hkind, hresult]
          show _ = m.log ++ if _ then [] else _
          rw [if_neg hsame]

/-- The turn of a device of any other vendor. -/
theorem setStatus_turn (hkind : device.kind ≠ .ascend) :
    Turn probes device m
      { m with status := setKey m.status device.key (some (probes.deviceStatus device)) } := by
  constructor
  · rfl
  · rw [if_neg hkind]
  · rw [Probes.logged, if_neg hkind, List.append_nil]

theorem refreshDevice_turn (probes : Probes) (device : Device) (m : Monitoring) :
    Turn probes device m (refreshDevice probes device m) := by
  by_cases hascend : device.kind = .ascend
  · have hturn : refreshDevice probes device m =
        refreshAscend (ascendStatus probes.ascend device) device.key m := by
      rw [refreshDevice, hascend]
    rw [hturn]
    exact refreshAscend_turn hascend
  · have hturn : refreshDevice probes device m =
        { m with status := setKey m.status device.key (some (probes.deviceStatus device)) } := by
      cases hkind : device.kind with
      | ascend => exact absurd hkind hascend
      | nvidia => simp only [refreshDevice, Probes.deviceStatus, hkind]
      | mthreads => cases h : probes.mthreads <;>
          simp [refreshDevice, Probes.deviceStatus, hkind, h, driverStatus]
      | metax => cases h : probes.metax <;>
          simp [refreshDevice, Probes.deviceStatus, hkind, h, driverStatus]
      | ppu => cases h : probes.ppu <;>
          simp [refreshDevice, Probes.deviceStatus, hkind, h, driverStatus]
      | hcu => cases h : probes.hcuHealth <;>
          simp [refreshDevice, Probes.deviceStatus, hkind, h, Except.toOption]
    rw [hturn]
    exact setStatus_turn hascend

/-! ## The loop -/

/-- What the loop leaves behind. -/
structure Refreshed (probes : Probes) (devices : List Device) (m m' : Monitoring) : Prop where
  status : ∀ device ∈ devices, m'.status device.key = some (probes.deviceStatus device)
  errors : ∀ device ∈ devices, device.kind = .ascend →
    m'.monitoringErrors device.key = probes.failure device
  others : ∀ key, key ∉ devices.map (·.key) →
    m'.status key = m.status key ∧ m'.monitoringErrors key = m.monitoringErrors key
  log : m'.log = m.log ++
    devices.flatMap fun device => probes.logged device (m.monitoringErrors device.key)

theorem Turn.other (h : Turn probes device m m') (hne : key ≠ device.key) :
    m'.status key = m.status key ∧ m'.monitoringErrors key = m.monitoringErrors key := by
  rw [h.status, h.errors]
  refine ⟨setKey_of_ne _ _ hne, ?_⟩
  split
  · exact setKey_of_ne _ _ hne
  · rfl

theorem refresh_loop (probes : Probes) (hkeys : (devices.map (·.key)).Nodup) (m : Monitoring) :
    Refreshed probes devices m
      (devices.foldl (fun m device => refreshDevice probes device m) m) := by
  induction devices generalizing m with
  | nil =>
      constructor
      · simp
      · simp
      · simp
      · simp
  | cons device devices ih =>
      rw [List.map_cons, List.nodup_cons] at hkeys
      obtain ⟨hfresh, hkeys⟩ := hkeys
      have hturn := refreshDevice_turn probes device m
      rw [List.foldl_cons]
      generalize refreshDevice probes device m = m₁ at hturn ⊢
      have hrest := ih hkeys m₁
      -- The rest of the loop leaves the entries of `device` alone.
      have hkept := hrest.others device.key hfresh
      -- Its turn left the errors of all others alone.
      have hbefore : ∀ other ∈ devices,
          m₁.monitoringErrors other.key = m.monitoringErrors other.key := by
        intro other hother
        apply (hturn.other _).2
        intro heq
        exact hfresh (heq ▸ List.mem_map_of_mem hother)
      constructor
      · intro other hother
        rcases List.mem_cons.mp hother with rfl | hother
        · rw [hkept.1, hturn.status, setKey_same]
        · exact hrest.status other hother
      · intro other hother hkind
        rcases List.mem_cons.mp hother with rfl | hother
        · rw [hkept.2, hturn.errors, if_pos hkind, setKey_same]
        · exact hrest.errors other hother hkind
      · intro key hkey
        rw [List.map_cons, List.mem_cons, not_or] at hkey
        obtain ⟨hstatus, herrors⟩ := hrest.others key hkey.2
        obtain ⟨hstatus₁, herrors₁⟩ := hturn.other hkey.1
        exact ⟨hstatus.trans hstatus₁, herrors.trans herrors₁⟩
      · rw [hrest.log, hturn.log, List.flatMap_cons, List.append_assoc]
        congr 2
        apply List.flatMap_congr
        intro other hother
        rw [hbefore other hother]

/-! ## What idle means -/

theorem occupancyStatus_idle {idle : Option Bool} (h : occupancyStatus idle = "idle") :
    idle = some true := by
  rcases idle with _ | _ | _
  · exact absurd h (by decide)
  · exact absurd h (by decide)
  · rfl

theorem nvidiaIdle_shows (h : nvidiaIdle probes.nvidia device = some true) :
    ∃ text, probes.nvidia = .ok text ∧ ∀ line ∈ Text.lines text.toList,
      (Text.isBlank line = false → "GPU-".toList.isPrefixOf (Text.trim line) = true) ∧
        Text.trim line ≠ device.visible.toList := by
  cases hprobe : probes.nvidia with
  | error e =>
      unfold nvidiaIdle at h
      rw [hprobe] at h
      cases h
  | ok text =>
      refine ⟨text, rfl, fun line hline => ?_⟩
      have hmem : Text.trim line ∈ (Text.lines text.toList).map Text.trim :=
        List.mem_map_of_mem hline
      unfold nvidiaIdle at h
      rw [hprobe] at h
      dsimp only at h
      split at h
      · rename_i hall
        have hline' := List.all_eq_true.mp hall _ hmem
        have hnone : ((Text.lines text.toList).map Text.trim).any
            (· == device.visible.toList) = false := by
          simpa using h
        constructor
        · intro hblank
          rw [Text.isBlank] at hblank
          rw [hblank, Bool.false_or] at hline'
          exact hline'
        · intro heq
          rw [List.any_eq_false] at hnone
          exact hnone _ hmem (beq_iff_eq.mpr heq)
      · cases h

theorem driverStatus_idle {driver : Option (Device → String)}
    (h : driverStatus driver device = "idle") : reportsIdle driver device := by
  cases driver with
  | none => exact absurd h (show "unknown" ≠ "idle" by decide)
  | some status => exact ⟨status, rfl, h⟩

theorem hcuStatus_idle {busy : Except Error (Finset Nat)} {health : Option (List (Nat × Bool))}
    (h : hcuStatus busy health device = "idle") :
    (∃ map, health = some map ∧ map.lookup device.id = some true) ∧
      ∃ ids, busy = .ok ids ∧ device.id ∉ ids := by
  unfold hcuStatus at h
  dsimp only at h
  split at h
  · exact absurd h (by decide)
  · have hidle := occupancyStatus_idle h
    split at hidle
    · rename_i hhealthy
      obtain ⟨map, hmap, hlookup⟩ := Option.bind_eq_some_iff.mp hhealthy
      refine ⟨⟨map, hmap, hlookup⟩, ?_⟩
      cases busy with
      | error e => cases hidle
      | ok ids => exact ⟨ids, rfl, by simpa using hidle⟩
    · cases hidle

/-- A device is idle only for a reason that this refresh's probes show. -/
theorem deviceStatus_idle (h : probes.deviceStatus device = "idle") :
    probes.ShowsIdle device := by
  unfold Probes.deviceStatus at h
  unfold Probes.ShowsIdle
  -- Each vendor has its own probe.
  cases hkind : device.kind with
  | nvidia =>
      rw [hkind] at h
      exact nvidiaIdle_shows (occupancyStatus_idle h)
  | ascend =>
      rw [hkind] at h
      dsimp only at h ⊢
      cases hresult : ascendStatus probes.ascend device with
      | error e =>
          rw [hresult] at h
          exact absurd h (show "unknown" ≠ "idle" by decide)
      | ok status =>
          rw [hresult] at h
          obtain rfl : status = "idle" := h
          unfold ascendStatus at hresult
          cases hdriver : probes.ascend with
          | none =>
              rw [hdriver] at hresult
              cases hresult
          | some driver =>
              rw [hdriver] at hresult
              exact ⟨driver, rfl, hresult⟩
  | mthreads =>
      rw [hkind] at h
      exact driverStatus_idle h
  | metax =>
      rw [hkind] at h
      exact driverStatus_idle h
  | ppu =>
      rw [hkind] at h
      exact driverStatus_idle h
  | hcu =>
      rw [hkind] at h
      obtain ⟨⟨health, hhealth, hlookup⟩, busy, hbusy, hfree⟩ := hcuStatus_idle h
      constructor
      · cases htool : probes.hcuHealth with
        | error e =>
            rw [htool] at hhealth
            cases hhealth
        | ok text =>
            rw [htool] at hhealth
            exact ⟨text, health, rfl, hhealth, hlookup⟩
      · cases hdriver : probes.hcu with
        | none =>
            rw [hdriver] at hbusy
            cases hbusy
        | some result =>
            rw [hdriver, Option.getD_some] at hbusy
            exact ⟨busy, by rw [hbusy], hfree⟩

/-! ## Refreshes in a row -/

/-- Refresh with each of these probes, one after the other; the lines are kept apart. -/
def Inventory.refreshes : List Probes → Inventory → Inventory × List (List String)
  | [], inventory => (inventory, [])
  | probes :: rest, inventory =>
      let (inventory, log) := inventory.refresh probes
      let (inventory, logs) := Inventory.refreshes rest inventory
      (inventory, log :: logs)

theorem refresh_refreshed (probes : Probes) (inventory : Inventory)
    (hkeys : (inventory.devices.map (·.key)).Nodup) :
    Refreshed probes inventory.devices ⟨inventory.status, inventory.monitoringErrors, []⟩
      ⟨(inventory.refresh probes).1.status, (inventory.refresh probes).1.monitoringErrors,
        (inventory.refresh probes).2⟩ :=
  refresh_loop probes hkeys _

/-- The monitoring errors of Ascend devices before the refresh with number `i`. -/
def errorBefore (ps : List Probes) (inventory : Inventory) (i : Nat) (device : Device) :
    Option Error :=
  match i with
  | 0 => inventory.monitoringErrors device.key
  | i + 1 => (ps[i]?).bind fun probes => probes.failure device

/-- What a sequence of refreshes leaves behind and logs. -/
structure Ran (ps : List Probes) (inventory : Inventory) (run : Inventory × List (List String)) :
    Prop where
  devices : run.1.devices = inventory.devices
  errors : ∀ device ∈ inventory.devices, device.kind = .ascend →
    run.1.monitoringErrors device.key = errorBefore ps inventory ps.length device
  logs : run.2 = ps.mapIdx fun i probes =>
    inventory.devices.flatMap fun device => probes.logged device (errorBefore ps inventory i device)

theorem Probes.logged_of_ne (probes : Probes) {before before' : Option Error}
    (h : device.kind = .ascend → before = before') :
    probes.logged device before = probes.logged device before' := by
  by_cases hkind : device.kind = .ascend
  · rw [h hkind]
  · rw [Probes.logged, Probes.logged, if_neg hkind, if_neg hkind]

theorem refreshes_ran (ps : List Probes) (inventory : Inventory)
    (hkeys : (inventory.devices.map (·.key)).Nodup) :
    Ran ps inventory (Inventory.refreshes ps inventory) := by
  induction ps generalizing inventory with
  | nil =>
      constructor
      · rfl
      · intro device _ _
        rfl
      · rfl
  | cons probes rest ih =>
      have hfirst := refresh_refreshed probes inventory hkeys
      have hrest := ih (inventory.refresh probes).1 hkeys
      -- What the rest of the run starts from is what the first refresh has failed with.
      have hbefore : ∀ i, ∀ device ∈ inventory.devices, device.kind = .ascend →
          errorBefore rest (inventory.refresh probes).1 i device =
            errorBefore (probes :: rest) inventory (i + 1) device := by
        intro i device hdevice hkind
        cases i with
        | zero => exact hfirst.errors device hdevice hkind
        | succ i => rfl
      constructor
      · exact hrest.devices
      · intro device hdevice hkind
        exact (hrest.errors device hdevice hkind).trans (hbefore _ device hdevice hkind)
      · show (inventory.refresh probes).2 ::
          (Inventory.refreshes rest (inventory.refresh probes).1).2 = _
        rw [hrest.logs, List.mapIdx_cons]
        refine congrArg₂ List.cons hfirst.log ?_
        rw [List.mapIdx_eq_mapIdx_iff]
        intro i hi
        apply List.flatMap_congr
        intro device hdevice
        exact Probes.logged_of_ne _ (hbefore i device hdevice)

theorem refreshes_concat (ps : List Probes) (last : Probes) (inventory : Inventory) :
    (Inventory.refreshes (ps ++ [last]) inventory).1 =
      ((Inventory.refreshes ps inventory).1.refresh last).1 := by
  induction ps generalizing inventory with
  | nil => rfl
  | cons probes rest ih => exact ih (inventory.refresh probes).1

theorem errorBefore_concat (ps : List Probes) (last : Probes) (inventory : Inventory)
    (device : Device) :
    errorBefore (ps ++ [last]) inventory (ps ++ [last]).length device = last.failure device := by
  rw [List.length_append, List.length_singleton]
  show ((ps ++ [last])[ps.length]?).bind _ = _
  rw [List.getElem?_concat_length]
  rfl

theorem deviceStatus_failed (hkind : device.kind = .ascend)
    (h : (probes.failure device).isSome = true) : probes.deviceStatus device = "unknown" := by
  unfold Probes.failure at h
  unfold Probes.deviceStatus
  rw [hkind]
  cases hresult : ascendStatus probes.ascend device with
  | ok status =>
      rw [hresult] at h
      cases h
  | error e => rfl

/-- Nothing is logged while the error, or its absence, stays the same. -/
theorem logged_eq_nil_iff (hkind : device.kind = .ascend) {before : Option Error} :
    probes.logged device before = [] ↔ before = probes.failure device := by
  rw [Probes.logged, if_pos hkind, Probes.failure]
  cases ascendStatus probes.ascend device with
  | ok status =>
      cases before with
      | none => exact iff_of_true rfl rfl
      | some e => exact iff_of_false (by rintro ⟨⟩) (by rintro ⟨⟩)
  | error e =>
      by_cases hsame : before = some e
      · simp [hsame]
      · simp [hsame]

/-- After any refreshes, every status is from the probes of the last one, idle only for a
    reason they show, and so is every monitoring error; what is logged is what changed. -/
theorem refreshes_fail_closed (inventory : Inventory)
    (hkeys : (inventory.devices.map (·.key)).Nodup) (ps : List Probes) (last : Probes) :
    (∀ device ∈ inventory.devices,
      (Inventory.refreshes (ps ++ [last]) inventory).1.status device.key =
          some (last.deviceStatus device) ∧
        (last.deviceStatus device = "idle" → last.ShowsIdle device)) ∧
    (∀ device ∈ inventory.devices, device.kind = .ascend →
      (Inventory.refreshes (ps ++ [last]) inventory).1.monitoringErrors device.key =
          last.failure device ∧
        ((last.failure device).isSome = true → last.deviceStatus device = "unknown")) ∧
    (Inventory.refreshes (ps ++ [last]) inventory).2 = (ps ++ [last]).mapIdx (fun i probes =>
      inventory.devices.flatMap fun device =>
        probes.logged device (errorBefore (ps ++ [last]) inventory i device)) ∧
    ∀ (probes : Probes) (device : Device) (before : Option Error), device.kind = .ascend →
      (probes.logged device before = [] ↔ before = probes.failure device) := by
  have hran := refreshes_ran (ps ++ [last]) inventory hkeys
  have hdevices := (refreshes_ran ps inventory hkeys).devices
  have hlast := refresh_refreshed last (Inventory.refreshes ps inventory).1 (hdevices ▸ hkeys)
  refine ⟨fun device hdevice => ⟨?_, deviceStatus_idle⟩, fun device hdevice hkind => ⟨?_, ?_⟩,
    hran.logs, fun probes device before hkind => logged_eq_nil_iff hkind⟩
  · rw [refreshes_concat]
    exact hlast.status device (hdevices ▸ hdevice)
  · rw [hran.errors device hdevice hkind, errorBefore_concat]
  · exact deviceStatus_failed hkind

/-- One Ascend device. -/
def oneAscend : Inventory :=
  ⟨[⟨.ascend, 0, "Ascend", "0", some 0, some 0⟩], fun _ => none, fun _ => none⟩

/-- The driver answers `result`; no other vendor is there. -/
def ascendProbes (result : Except Error String) : Probes where
  nvidia := .error "no nvidia-smi"
  ascend := some fun _ => result
  mthreads := none
  metax := none
  ppu := none
  hcu := none
  hcuHealth := .error "no hy-smi"

/-- An error is logged once, and its end is logged. -/
theorem oneAscend_logs :
    (Inventory.refreshes ([ascendProbes (.error "lost"), ascendProbes (.error "lost")] ++
        [ascendProbes (.ok "idle")]) oneAscend).2 =
      [["asc:0: lost"], [], ["asc:0: monitoring recovered (idle)"]] := by
  rw [(refreshes_fail_closed oneAscend (by decide) _ _).2.2.1]
  decide

end Xlurm
