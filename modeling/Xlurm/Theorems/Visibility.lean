/-
  Xlurm.Theorems.Visibility

  A task sees exactly its devices: what the variables for each vendor say in the
  environment of the payload, whatever was submitted for them.

  No submitted key is checked.  One that goes on after `ASCEND_DEVICE_ID=` is
  another key for the map and that variable for the payload, and
  `env_remove` leaves it there.
-/

import Mathlib.Data.List.Forall2
import Xlurm.Os.Worker
import Xlurm.Prog.Safe
import Xlurm.Text.Basic
import Xlurm.Unix.Environ

namespace Xlurm

open Prog.Comp
open Unix (Alone envp getenv)

variable {job job' : Job} {devices : List Device} {kind : Kind}

/-! ## The variables -/

/-- The variables that list devices. -/
inductive Variable
  | cuda | ascendRt | musa | mthreads | maca | hip | rocr
  deriving DecidableEq

/-- How a variable names the devices that it lists. -/
inductive Form
  /-- The identifiers of the vendor. -/
  | identifiers
  /-- The indices in the inventory. -/
  | indices
  /-- The positions in the list of another variable. -/
  | positions
  deriving DecidableEq

namespace Variable

def name : Variable → String
  | cuda => "CUDA_VISIBLE_DEVICES"
  | ascendRt => "ASCEND_RT_VISIBLE_DEVICES"
  | musa => "MUSA_VISIBLE_DEVICES"
  | mthreads => "MTHREADS_VISIBLE_DEVICES"
  | maca => "MACA_VISIBLE_DEVICES"
  | hip => "HIP_VISIBLE_DEVICES"
  | rocr => "ROCR_VISIBLE_DEVICES"

/-- The vendors that a variable belongs to, and how it names their devices. -/
def form : Variable → Kind → Option Form
  | cuda, .nvidia | cuda, .ppu => some .identifiers
  | cuda, .metax => some .indices
  | cuda, .hcu => some .positions
  | ascendRt, .ascend => some .identifiers
  | musa, .mthreads => some .indices
  | mthreads, .mthreads => some .identifiers
  | maca, .metax => some .indices
  | hip, .hcu => some .positions
  | rocr, .hcu => some .indices
  | _, _ => none

end Variable

/-- The entries for these devices, in their order. -/
def Form.entries : Form → List Device → List String
  | identifiers, devices => devices.map (·.visible)
  | indices, devices => devices.map fun device => toString device.id
  | positions, devices => (List.range devices.length).map toString

/-- `split(',')`. -/
def entries (value : String) : List String := (value.toList.splitOn ',').map String.ofList

/-- What a task sees that was given these devices, all of one kind. -/
structure Sees (kind : Kind) (devices : List Device) (strings : List String) : Prop where
  /-- Its vendor's variables list the devices. -/
  own : ∀ v form, Variable.form v kind = some form → devices ≠ [] →
    ∃ value, getenv strings v.name = some value ∧ entries value = form.entries devices
  /-- The positions in HIP and CUDA lead to the indices in ROCR. -/
  positions : ∀ v, Variable.form v kind = some .positions → devices ≠ [] →
    ∃ view rocr, getenv strings v.name = some view ∧
      getenv strings Variable.rocr.name = some rocr ∧
      List.Forall₂ (fun entry device => ∃ i : Nat, entry = toString i ∧
        (entries rocr)[i]? = some (toString device.id)) (entries view) devices
  /-- All other variables name no device. -/
  others : ∀ v, Variable.form v kind = none ∨ devices = [] → getenv strings v.name = some "-1"
  ascend : getenv strings "ASCEND_DEVICE_ID" =
    if ∃ device ∈ devices, device.kind = .ascend then some "0" else none

/-! ## Looking up -/

theorem lookup_removeEnv (env : List (String × String)) (removed name : String) :
    (removeEnv env removed).lookup name = if name = removed then none else env.lookup name :=
  Text.lookup_erase env removed name

theorem lookup_setEnv (env : List (String × String)) (set value name : String) :
    (setEnv env set value).lookup name = if name = set then some value else env.lookup name :=
  Text.lookup_insert env set name value

theorem alone_setEnv {env : List (String × String)} {set value name : String} :
    Alone (setEnv env set value) name ↔ name = set ∨ Alone env name := by
  unfold Alone setEnv
  constructor
  · intro h
    by_cases hname : name = set
    · exact Or.inl hname
    · refine Or.inr fun entry hentry hkey => ?_
      have hmem : entry ∈ (set, value) :: env.filter (·.1 ≠ set) := by
        apply List.mem_cons_of_mem
        rw [List.mem_filter, hkey]
        exact ⟨hentry, decide_eq_true hname⟩
      have hlookup := h entry hmem hkey
      rwa [Text.lookup_insert, if_neg hname] at hlookup
  · intro h entry hentry hkey
    rw [Text.lookup_insert]
    rcases List.mem_cons.mp hentry with rfl | hrest
    · rw [if_pos hkey.symm]
    · obtain ⟨hmem, hne⟩ := List.mem_filter.mp hrest
      rw [hkey, decide_eq_true_iff] at hne
      rw [if_neg hne]
      exact h.resolve_left hne entry hmem hkey

theorem Alone.removeEnv {env : List (String × String)} {removed name : String}
    (h : Alone env name) (hne : name ≠ removed) : Alone (removeEnv env removed) name := by
  intro entry hentry hkey
  rw [lookup_removeEnv, if_neg hne]
  exact h entry (List.mem_of_mem_filter hentry) hkey

theorem forall_setEnv {P : String → Prop} {env : List (String × String)} {set : String}
    (value : String) (h : P set) :
    (∀ entry ∈ setEnv env set value, P entry.1) ↔ ∀ entry ∈ env, P entry.1 := by
  unfold setEnv
  rw [List.forall_mem_cons, List.forall_mem_filter]
  constructor
  · rintro ⟨-, hrest⟩ entry hentry
    by_cases hkey : entry.1 = set
    · rwa [hkey]
    · exact hrest entry hentry (decide_eq_true hkey)
  · intro henv
    exact ⟨h, fun entry hentry _ => henv entry hentry⟩

theorem forall_removeEnv {P : String → Prop} {env : List (String × String)} {removed : String}
    (h : P removed) :
    (∀ entry ∈ removeEnv env removed, P entry.1) ↔ ∀ entry ∈ env, P entry.1 := by
  unfold removeEnv
  rw [List.forall_mem_filter]
  constructor
  · intro hrest entry hentry
    by_cases hkey : entry.1 = removed
    · rwa [hkey]
    · exact hrest entry hentry (decide_eq_true hkey)
  · intro henv entry hentry _
    exact henv entry hentry

/-- What the code puts into a variable. -/
def Variable.value (job : Job) : Variable → String
  | cuda => visibleForCuda job
  | ascendRt => visible job .ascend
  | musa => visibleIds job .mthreads
  | mthreads => visible job .mthreads
  | maca => visibleIds job .metax
  | hip => hcuRuntimeIds job
  | rocr => visibleIds job .hcu

theorem lookup_payloadEnv (job : Job) (owner : Owner) (v : Variable) :
    (payloadEnv job owner).lookup v.name = some (v.value job) := by
  have hend : ∀ env : List (String × String), (if job.devicesOf .ascend ≠ [] then
      setEnv env "ASCEND_DEVICE_ID" "0" else env).lookup v.name = env.lookup v.name := by
    intro env
    split
    · rw [lookup_setEnv, if_neg]
      cases v <;> decide
    · rfl
  rw [payloadEnv, hend, lookup_removeEnv]
  cases v <;> simp [Variable.name, Variable.value, lookup_setEnv]

theorem lookup_ascendDeviceId (job : Job) (owner : Owner) :
    (payloadEnv job owner).lookup "ASCEND_DEVICE_ID" =
      if job.devicesOf .ascend ≠ [] then some "0" else none := by
  rw [payloadEnv]
  split
  · rw [lookup_setEnv, if_pos rfl]
  · rw [lookup_removeEnv, if_pos rfl]

/-- The payload is shown what the code puts into a variable, whatever was submitted. -/
theorem getenv_payloadEnv (job : Job) (owner : Owner) (v : Variable) :
    getenv (envp (payloadEnv job owner)) v.name = some (v.value job) := by
  have hend : ∀ env : List (String × String), Alone env v.name → Alone (if
      job.devicesOf .ascend ≠ [] then setEnv env "ASCEND_DEVICE_ID" "0" else env) v.name := by
    intro env h
    split
    · exact alone_setEnv.mpr (Or.inr h)
    · exact h
  apply Unix.getenv_envp
  · cases v <;> decide
  · apply hend
    apply Alone.removeEnv
    · cases v <;> simp [alone_setEnv, Variable.name]
    · cases v <;> decide
  · exact lookup_payloadEnv job owner v

/-- No key of these is the name, followed by `=`. -/
def Undisguised (env : List (String × String)) (name : String) : Prop :=
  ∀ entry ∈ env, ¬ (name ++ "=").toList <+: entry.1.toList

theorem getenv_ascendDeviceId (job : Job) (owner : Owner) :
    (job.devicesOf .ascend ≠ [] →
      getenv (envp (payloadEnv job owner)) "ASCEND_DEVICE_ID" = some "0") ∧
    (job.devicesOf .ascend = [] →
      (getenv (envp (payloadEnv job owner)) "ASCEND_DEVICE_ID" = none ↔
        Undisguised job.spec.env "ASCEND_DEVICE_ID")) := by
  constructor
  · intro hascend
    apply Unix.getenv_envp (by decide)
    · rw [payloadEnv, if_pos hascend]
      exact alone_setEnv.mpr (Or.inl rfl)
    · rw [lookup_ascendDeviceId, if_pos hascend]
  · intro hascend
    rw [Unix.getenv_envp_eq_none (by decide)
      (by rw [lookup_ascendDeviceId, if_neg (not_not.mpr hascend)])]
    unfold payloadEnv Undisguised
    rw [if_neg (not_not.mpr hascend)]
    -- None of the names that the code sets or removes goes on after the `=`.
    rw [forall_removeEnv (P := fun key => ¬ ("ASCEND_DEVICE_ID" ++ "=").toList <+: key.toList)
      (by decide)]
    repeat rw [forall_setEnv (P := fun key =>
      ¬ ("ASCEND_DEVICE_ID" ++ "=").toList <+: key.toList) _ (by decide)]

/-- The values depend on the devices only. -/
theorem Variable.value_congr (h : job.devices = job'.devices) (v : Variable) :
    v.value job = v.value job' := by
  have hdevices : job.devicesOf = job'.devicesOf := by
    funext kind
    rw [Job.devicesOf, h, Job.devicesOf]
  cases v <;> simp only [value, visibleForCuda, visible, visibleIds, hcuRuntimeIds, hdevices]

/-! ## The values -/

theorem entries_joinOrNone {values : List String} (hne : values ≠ [])
    (h : ∀ value ∈ values, ',' ∉ value.toList) : entries (joinOrNone values) = values := by
  have hsplit : ([','].intercalate (values.map String.toList)).splitOn ',' =
      values.map String.toList := by
    apply List.splitOn_intercalate
    · intro cs hcs
      obtain ⟨value, hvalue, rfl⟩ := List.mem_map.mp hcs
      exact h value hvalue
    · rwa [ne_eq, List.map_eq_nil_iff]
  rw [joinOrNone, if_neg hne, entries, String.toList_intercalate]
  show (([','].intercalate (values.map String.toList)).splitOn ',').map String.ofList = values
  rw [hsplit, List.map_map]
  simp

theorem comma_notMem_toString (n : Nat) : ',' ∉ (toString n).toList := by
  intro hmem
  rw [Nat.toString_eq_repr, Nat.toList_repr] at hmem
  exact absurd (isDigit_of_mem_toDigits hmem) (by decide)

theorem comma_notMem_entries (form : Form) (h : ∀ device ∈ devices, ',' ∉ device.visible.toList) :
    ∀ entry ∈ form.entries devices, ',' ∉ entry.toList := by
  intro entry hentry
  cases form with
  | identifiers =>
      obtain ⟨device, hdevice, rfl⟩ := List.mem_map.mp hentry
      exact h device hdevice
  | indices =>
      obtain ⟨device, -, rfl⟩ := List.mem_map.mp hentry
      exact comma_notMem_toString device.id
  | positions =>
      obtain ⟨i, -, rfl⟩ := List.mem_map.mp hentry
      exact comma_notMem_toString i

theorem entries_ne_nil (form : Form) (h : devices ≠ []) : form.entries devices ≠ [] := by
  cases form with
  | identifiers => simpa [Form.entries] using h
  | indices => simpa [Form.entries] using h
  | positions => simpa [Form.entries] using h

theorem devicesOf_eq (hkind : ∀ device ∈ job.devices, device.kind = kind) (k : Kind) :
    job.devicesOf k = if k = kind then job.devices else [] := by
  rw [Job.devicesOf]
  split
  · rename_i h
    rw [List.filter_eq_self]
    intro device hdevice
    rw [decide_eq_true_iff, hkind device hdevice, h]
  · rename_i h
    rw [List.filter_eq_nil_iff]
    intro device hdevice
    rw [decide_eq_true_iff, hkind device hdevice]
    exact Ne.symm h

/-- The variables of the vendor list the devices, and all others none. -/
theorem value_eq (hkind : ∀ device ∈ job.devices, device.kind = kind) (v : Variable) :
    v.value job = match v.form kind with
      | some form => joinOrNone (form.entries job.devices)
      | none => "-1" := by
  have hof := devicesOf_eq hkind
  -- The chain of CUDA tests for the devices of each vendor in turn.
  by_cases hempty : job.devices = []
  · have hnone : ∀ k, job.devicesOf k = [] := by
      intro k
      rw [hof, hempty, ite_self]
    cases v <;> cases kind <;>
      simp [Variable.value, Variable.form, visibleForCuda, visible, visibleIds, hcuRuntimeIds,
        hnone, hempty, Form.entries, joinOrNone]
  · cases v <;> cases kind <;>
      simp [Variable.value, Variable.form, visibleForCuda, visible, visibleIds, hcuRuntimeIds,
        hof, hempty, Form.entries, joinOrNone]

example (job : Job) (h : job.devices = [⟨.hcu, 1, "HCU", "b", none, none⟩,
    ⟨.hcu, 0, "HCU", "a", none, none⟩]) :
    Variable.rocr.value job = "1,0" ∧ Variable.hip.value job = "0,1" ∧
      Variable.cuda.value job = "0,1" ∧ Variable.maca.value job = "-1" := by
  simp only [Variable.value, visibleForCuda, visible, visibleIds, hcuRuntimeIds, Job.devicesOf, h]
  decide

/-! ## The payload -/

theorem payloadEnv_sees_iff (owner : Owner) (hkind : ∀ device ∈ job.devices, device.kind = kind)
    (hcomma : ∀ device ∈ job.devices, ',' ∉ device.visible.toList) :
    Sees kind job.devices (envp (payloadEnv job owner)) ↔
      (∃ device ∈ job.devices, device.kind = .ascend) ∨
        Undisguised job.spec.env "ASCEND_DEVICE_ID" := by
  have hascend : job.devicesOf .ascend ≠ [] ↔ ∃ device ∈ job.devices, device.kind = .ascend := by
    rw [Job.devicesOf, ne_eq, List.filter_eq_nil_iff]
    simp
  -- A variable of the vendor lists its devices, in order.
  have hlists : ∀ v form, Variable.form v kind = some form → job.devices ≠ [] →
      ∃ value, getenv (envp (payloadEnv job owner)) v.name = some value ∧
        entries value = form.entries job.devices := by
    intro v form hform hne
    refine ⟨_, getenv_payloadEnv job owner v, ?_⟩
    rw [value_eq hkind, hform]
    exact entries_joinOrNone (entries_ne_nil form hne) (comma_notMem_entries form hcomma)
  constructor
  · intro h
    have hid := h.ascend
    by_cases hany : ∃ device ∈ job.devices, device.kind = .ascend
    · exact Or.inl hany
    · rw [if_neg hany] at hid
      exact Or.inr (((getenv_ascendDeviceId job owner).2 (not_not.mp (mt hascend.mp hany))).mp hid)
  intro hcond
  refine ⟨hlists, ?_, ?_, ?_⟩
  -- Indices count the devices that ROCr leaves visible.
  · intro v hform hne
    have hrocr : Variable.form .rocr kind = some .indices := by
      cases v <;> cases kind <;> first | rfl | cases hform
    obtain ⟨view, hview, hentries⟩ := hlists v _ hform hne
    obtain ⟨rocr, hlookup, hindices⟩ := hlists .rocr _ hrocr hne
    refine ⟨view, rocr, hview, hlookup, ?_⟩
    rw [hentries, hindices]
    simp only [Form.entries]
    rw [List.forall₂_map_left_iff, List.forall₂_iff_get]
    refine ⟨List.length_range, ?_⟩
    intro i hi hi'
    refine ⟨i, ?_, ?_⟩
    · simp
    · simp [hi']
  -- A variable of another vendor hides everything.
  · intro v hother
    rw [getenv_payloadEnv, value_eq hkind]
    rcases hother with hform | hempty
    · rw [hform]
    · rw [hempty]
      cases v.form kind with
      | none => rfl
      | some form => cases form <;> rfl
  · split
    · rename_i hany
      exact (getenv_ascendDeviceId job owner).1 (hascend.mpr hany)
    · rename_i hany
      exact ((getenv_ascendDeviceId job owner).2 (not_not.mp (mt hascend.mp hany))).mpr
        (hcond.resolve_left hany)

/-- The calls of `execute`: what is spawned has the environment of the job. -/
def SpawnsEnv (job : Job) (c : Sys) : Prop :=
  ∀ command, c = .ask (.spawnPayload command) → ∃ owner, command.env = payloadEnv job owner

/-- Only calls of this kind. -/
abbrev KeepsEnv {α : Type} (job : Job) (x : Proc Unit α) : Prop :=
  Keeps (Prog.Spec.calls Unit (SpawnsEnv job)) (fun _ _ => True) x

theorem KeepsEnv.call {c : Sys} (hc : SpawnsEnv job c) :
    KeepsEnv job (Prog.Comp.call c : Proc Unit c.Reply) :=
  Keeps.call (fun _ _ _ => hc) fun _ _ _ _ _ _ => trivial

theorem KeepsEnv.ask {question : Ask} (h : ∀ command, question ≠ .spawnPayload command) :
    KeepsEnv job (Xlurm.ask question) := by
  apply KeepsEnv.call
  rintro command heq
  exact absurd (Sys.ask.inj heq) (h command)

/-- The first part does not matter for what is returned. -/
theorem KeepsEnv.andThen {α β : Type} {P : β → Prop} {x : Proc Unit α} {f : α → Proc Unit β}
    (hx : KeepsEnv job x)
    (hf : ∀ a, wp (Prog.Spec.calls Unit (SpawnsEnv job)) (f a)
      (fun _ r _ => ∀ b, r = .ok b → P b) () ()) :
    wp (Prog.Spec.calls Unit (SpawnsEnv job)) (x >>= f)
      (fun _ r _ => ∀ b, r = .ok b → P b) () () := by
  apply hx.wp_bind trivial
  · intro _ a _ _
    exact hf a
  · rintro _ _ _ _ _ ⟨⟩

theorem prepare_env (job : Job) :
    wp (Prog.Spec.calls Unit (SpawnsEnv job)) (prepare job)
      (fun _ r _ => ∀ command, r = .ok command → ∃ owner, command.env = payloadEnv job owner)
      () () := by
  have hgroups : ∀ euid owner, KeepsEnv job (payloadGroups euid owner) := by
    intro euid owner
    unfold payloadGroups
    split
    · exact (KeepsEnv.ask (by rintro _ ⟨⟩)).bind fun _ => Keeps.lift _
    · exact Keeps.pure _
  refine (KeepsEnv.ask (by rintro _ ⟨⟩)).andThen fun _ => ?_
  refine KeepsEnv.andThen (Keeps.lift _) fun owner => ?_
  refine KeepsEnv.andThen (Keeps.ensure _ _) fun _ => ?_
  refine (KeepsEnv.ask (by rintro _ ⟨⟩)).andThen fun euid => ?_
  refine (KeepsEnv.ask (by rintro _ ⟨⟩)).andThen fun _ => ?_
  refine KeepsEnv.andThen (Keeps.ensure _ _) fun _ => ?_
  refine (hgroups euid owner).andThen fun _ => ?_
  refine KeepsEnv.andThen (Keeps.ensure _ _) fun _ => ?_
  refine KeepsEnv.andThen (Keeps.ensure _ _) fun _ => ?_
  rintro _ ⟨⟩
  exact ⟨owner, rfl⟩

theorem terminationReason_env (job job' : Job) : KeepsEnv job (terminationReason job') := by
  refine (KeepsEnv.call (by rintro _ ⟨⟩)).bind fun cancelled => ?_
  cases cancelled with
  | true => exact Keeps.pure _
  | false =>
      refine (KeepsEnv.ask (by rintro _ ⟨⟩)).bind fun interrupted => ?_
      cases interrupted with
      | true => exact Keeps.pure _
      | false =>
          cases job'.spec.timeLimit with
          | none => exact Keeps.pure _
          | some limit => exact (KeepsEnv.ask (by rintro _ ⟨⟩)).bind fun _ => Keeps.pure _

theorem beginTermination_env (job job' : Job) (termination : Option State) :
    KeepsEnv job (beginTermination job' termination) := by
  cases termination with
  | some state => exact Keeps.pure _
  | none =>
      refine (terminationReason_env job job').bind fun reason => ?_
      cases reason with
      | none => exact Keeps.pure _
      | some reason => exact (KeepsEnv.ask (by rintro _ ⟨⟩)).bind fun _ => Keeps.pure _

theorem supervise_env (job job' : Job) (fuel : Nat) (termination : Option State) :
    KeepsEnv job (supervise job' fuel termination) := by
  induction fuel generalizing termination with
  | zero =>
      exact (KeepsEnv.call (by rintro _ ⟨⟩)).bind fun never => nomatch never
  | succ fuel ih =>
      refine (KeepsEnv.ask (by rintro _ ⟨⟩)).bind fun reply =>
        (Keeps.lift _).bind fun status => ?_
      cases status with
      | some status => exact Keeps.pure _
      | none =>
          refine (beginTermination_env job job' termination).bind fun termination' => ?_
          have hrest : KeepsEnv job (ask .sleep >>= fun _ => supervise job' fuel termination') :=
            (KeepsEnv.ask (by rintro _ ⟨⟩)).bind fun _ => ih termination'
          dsimp only
          split
          · refine (KeepsEnv.ask (by rintro _ ⟨⟩)).bind fun late => ?_
            cases late with
            | false => exact hrest
            | true => exact (KeepsEnv.ask (by rintro _ ⟨⟩)).bind fun _ => hrest
          · exact hrest

theorem execute_env (fuel : Nat) (job : Job) : KeepsEnv job (execute fuel job) := by
  intro _ _ _
  apply wp_bind_of (prepare_env job)
  · intro _ command _ henv
    refine (?_ : KeepsEnv job _) () () trivial
    refine (KeepsEnv.call (by rintro _ ⟨⟩)).bind fun cancelled => ?_
    cases cancelled with
    | true => exact (KeepsEnv.call (by rintro _ ⟨⟩)).bind fun _ => Keeps.pure _
    | false =>
        have hspawn : SpawnsEnv job (.ask (.spawnPayload command)) := by
          rintro _ ⟨⟩
          exact henv command rfl
        refine (KeepsEnv.call hspawn).bind fun reply => ?_
        cases reply with
        | error e => exact Keeps.throw _
        | ok =>
            exact (supervise_env job job fuel none).attempt.bind fun _ =>
              (KeepsEnv.ask (by rintro _ ⟨⟩)).bind fun _ => (Keeps.lift _).bind fun _ =>
              (KeepsEnv.call (by rintro _ ⟨⟩)).bind fun _ => Keeps.pure _
  · exact fun _ _ _ _ => trivial

/-- `execute` asks for this payload, if its other calls are answered so. -/
def Spawned (fuel : Nat) (job : Job) (command : Command) : Prop :=
  (execute fuel job ()).Issues (.ask (.spawnPayload command))

theorem Spawned.env {fuel : Nat} {command : Command} (h : Spawned fuel job command) :
    ∃ owner, command.env = payloadEnv job owner :=
  Prog.Safe.issues (execute_env fuel job () () trivial) h command rfl

/-- `true`, submitted with this environment. -/
def Job.submittedWith (env : List (String × String)) (devices : List Device) : Job where
  id := 7
  owner := ⟨1000, 100, "user"⟩
  spec := { command := ["true"], cwd := "/", env, name := "true", count := devices.length
            deviceIds := none, excludeDeviceIds := [], kind := none, timeLimit := none
            script := none }
  state := .running
  devices
  submittedAt := 0
  startedAt := none
  result := none

/-- Its payload, under the account that submitted it. -/
def Job.payloadOf (job : Job) : Command where
  argv := job.spec.argv
  env := payloadEnv job job.owner
  cwd := job.spec.cwd
  owner := job.owner
  groups := []
  privileged := false

theorem Job.submittedWith_spawned (env : List (String × String)) (devices : List Device) :
    Spawned 1 (.submittedWith env devices) (submittedWith env devices).payloadOf := by
  unfold Spawned execute prepare payloadGroups
  -- The account, the effective ids, and no cancellation.
  refine .later (.ok "user") (.later 1000 (.later 100 ?_))
  simp only [submittedWith, Prog.seq, ensure, reduceCtorEq, and_self, or_true,
    if_true, if_false, String.reduceToList, List.mem_cons, Char.reduceEq, List.not_mem_nil,
    or_self, not_false_eq_true, Submission.argv, ne_eq, List.cons_ne_self, decide_false]
  exact .later false (.here () _)

end Xlurm
