/-
  Xlurm.Theorems.Exclusions

  A device is excluded iff the last successful command about its id excluded it,
  whatever else the daemon does, and no tick starts a job on an excluded device.
-/

import Mathlib.Data.List.Nodup
import Xlurm.Model.Allocation
import Xlurm.Os.System
import Xlurm.Run.Ops
import Xlurm.Theorems.LifeCycle

namespace Xlurm

open Prog.Comp

/-! ## Commands -/

/-- Exclude the devices with these ids, or include them again. -/
structure Selection where
  excluded : Bool
  ids : List Nat

/-- What an `Exclude` or `Include` request commands. -/
def Request.command? : Request → Option Selection
  | exclude ids => some ⟨true, ids⟩
  | «include» ids => some ⟨false, ids⟩
  | _ => none

/-- The commands that were answered with `Ok`, oldest first. -/
def commands (tr : Calls) : List Selection :=
  tr.filterMap fun
    | ⟨.note (.answered _ _ request .ok _ _), _⟩ => request.command?
    | _ => none

/-- The last command about `id` excluded it. -/
def Excluded (commands : List Selection) (id : Nat) : Prop :=
  ((commands.filter fun command => id ∈ command.ids).getLast?).map (·.excluded) = some true

/-- Distinct ids of existing devices. -/
def Names (devices : List Device) (ids : List Nat) : Prop :=
  ids.Nodup ∧ ∀ id ∈ ids, ∃ device ∈ devices, device.id = id

instance (devices : List Device) (ids : List Nat) : Decidable (Names devices ids) :=
  inferInstanceAs (Decidable (_ ∧ _))

/-- The command line of the daemon, `--exclude`, is the first command if it is valid. -/
def startup (devices : List Device) (excluded : List Nat) : List Selection :=
  if Names devices excluded then [⟨true, excluded⟩] else []

instance (commands : List Selection) (id : Nat) : Decidable (Excluded commands id) :=
  inferInstanceAs (Decidable (_ = _))

section Commands

variable {cs : List Selection} {command : Selection} {id : Nat}

theorem not_excluded_nil : ¬ Excluded [] id := by rintro ⟨⟩

theorem excluded_concat :
    Excluded (cs ++ [command]) id ↔
      if id ∈ command.ids then command.excluded = true else Excluded cs id := by
  by_cases hmem : id ∈ command.ids
  · simp [Excluded, List.filter_append, hmem]
  · simp [Excluded, List.filter_append, hmem]

theorem commands_append (tr tr' : Calls) : commands (tr ++ tr') = commands tr ++ commands tr' :=
  List.filterMap_append

/-- Only the ghost events of the main loop carry commands. -/
theorem commands_eq_nil {own : Calls} (h : ∀ event r, ⟨.note event, r⟩ ∉ own) :
    commands own = [] := by
  rw [commands, List.filterMap_eq_nil_iff]
  rintro ⟨c, r⟩ hmem
  cases c with
  | note event => exact absurd hmem (h event r)
  | _ => rfl

theorem commands_of_only {α : Type} {P : Call → Prop} {x : Sched α} (hx : Only P x)
    (hP : ∀ event, ¬ P (.note event)) (ω : Env) (s : Scheduler) (tr : Calls) :
    commands ((x s).run ω tr).trace = commands tr := by
  obtain ⟨own, hown, hcalls⟩ := hx ω s tr
  have hnil : commands own = [] :=
    commands_eq_nil fun event r hmem => hP event (hcalls _ _ hmem)
  rw [hown, commands_append, hnil, List.append_nil]

end Commands

/-! ## One command -/

variable {ω : Env} {s : Scheduler} {tr : Calls} {ids : List Nat}

theorem ensureKnown_run (devices : List Device) (ids : List Nat) (ω : Env) (s : Scheduler)
    (tr : Calls) :
    ((ensureKnown devices ids s).run ω tr).value = .ok () ↔
      ∀ id ∈ ids, ∃ device ∈ devices, device.id = id := by
  induction ids with
  | nil => exact ⟨fun _ => by rintro _ ⟨⟩, fun _ => rfl⟩
  | cons id rest ih =>
      rw [ensureKnown, run_bind, run_ensure, List.forall_mem_cons, ← ih]
      by_cases hany : devices.any (·.id == id) = true
      · rw [if_pos hany]
        simp only [List.any_eq_true, beq_iff_eq] at hany
        exact (and_iff_right hany).symm
      · rw [if_neg hany]
        simp only [List.any_eq_true, beq_iff_eq] at hany
        exact ⟨nofun, fun h => absurd h.1 hany⟩

/-- The state after a valid command. -/
def Scheduler.commanded (s : Scheduler) (command : Selection) : Scheduler :=
  { s with
    excludedDevices :=
      ((s.inventory.devices.filter (command.ids.contains ·.id)).map Device.key).foldl
        (fun excludedDevices key =>
          if command.excluded then insert key excludedDevices else excludedDevices.erase key)
        s.excludedDevices }

/-- A list with a duplicate or unknown id is refused as a whole. -/
theorem setDevicesExcluded_run (command : Selection) :
    wp (Prog.Spec.oracle Scheduler ω) (setDevicesExcluded command.ids command.excluded)
      (fun s' r tr' => tr' = tr ∧
        if Names s.inventory.devices command.ids then r = .ok () ∧ s' = s.commanded command
        else s' = s ∧ ∃ e, r = .error e) s tr := by
  rw [setDevicesExcluded, wp_bind, wp_ensure, distinct_iff]
  constructor
  · intro hnodup
    rw [andThen_ok, wp_bind, wp_get, andThen_ok, wp_bind, wp_oracle]
    have hquiet := ensureKnown_quiet s.inventory.devices command.ids ω s tr
    have hsilent : ((ensureKnown s.inventory.devices command.ids s).run ω tr).trace = tr := by
      obtain ⟨own, hown, hnone⟩ :=
        ensureKnown_only (P := fun _ => False) s.inventory.devices command.ids ω s tr
      cases own with
      | nil => rw [hown, List.append_nil]
      | cons call own => exact (hnone call.1 call.2 List.mem_cons_self).elim
    have hvalue := ensureKnown_run s.inventory.devices command.ids ω s tr
    rw [hquiet, hsilent]
    cases hresult : ((ensureKnown s.inventory.devices command.ids s).run ω tr).value with
    | ok =>
        rw [andThen_ok, wp_modify, if_pos ⟨hnodup, hvalue.mp hresult⟩]
        exact ⟨rfl, rfl, rfl⟩
    | error e =>
        rw [andThen_error, if_neg]
        · exact ⟨rfl, rfl, e, rfl⟩
        · intro hnames
          rw [hvalue.mpr hnames.2] at hresult
          cases hresult
  · intro hdup
    rw [andThen_error, if_neg fun hnames => hdup hnames.1]
    exact ⟨rfl, rfl, _, rfl⟩

/-- A valid command decides about the devices that it names and about no other. -/
theorem mem_commanded {command : Selection} (hkeys : (s.inventory.devices.map Device.key).Nodup)
    {device : Device} (hmem : device ∈ s.inventory.devices) :
    device.key ∈ (s.commanded command).excludedDevices ↔
      if device.id ∈ command.ids then command.excluded = true
      else device.key ∈ s.excludedDevices := by
  have hnamed : device.key ∈ (s.inventory.devices.filter (command.ids.contains ·.id)).map
      Device.key ↔ device.id ∈ command.ids := by
    rw [List.mem_map]
    constructor
    · rintro ⟨other, hother, hkey⟩
      obtain ⟨hother, hid⟩ := List.mem_filter.mp hother
      obtain rfl := List.inj_on_of_nodup_map hkeys hother hmem hkey
      simpa using hid
    · intro hid
      exact ⟨device, List.mem_filter.mpr ⟨hmem, by simpa using hid⟩, rfl⟩
  have hfold : ∀ (keys : List String) (set : Finset String),
      device.key ∈ keys.foldl (fun set key =>
          if command.excluded then insert key set else set.erase key) set ↔
        if device.key ∈ keys then command.excluded = true else device.key ∈ set := by
    intro keys
    induction keys with
    | nil => simp
    | cons key rest ih =>
        intro set
        rw [List.foldl_cons, ih]
        cases hflag : command.excluded <;> by_cases hrest : device.key ∈ rest <;>
          by_cases hkey : device.key = key <;> simp [hrest, hkey]
  rw [Scheduler.commanded, hfold]
  simp only [hnamed]

/-- The answer to a command; nothing but the exclusions changes, and no call is made. -/
theorem handle_command (euid uid gid : Nat) {request : Request} {command : Selection}
    (h : request.command? = some command) :
    wp (Prog.Spec.oracle Scheduler ω) (handle euid uid gid request) (fun s' r tr' => tr' = tr ∧
      ((r = .ok .ok ∧ Names s.inventory.devices command.ids ∧ s' = s.commanded command) ∨
        (s' = s ∧ ∃ e, r = .error e))) s tr := by
  have hexclude : wp (Prog.Spec.oracle Scheduler ω)
      (handleExclude euid uid command.ids command.excluded) (fun s' r tr' => tr' = tr ∧
        ((r = .ok .ok ∧ Names s.inventory.devices command.ids ∧ s' = s.commanded command) ∨
          (s' = s ∧ ∃ e, r = .error e))) s tr := by
    rw [handleExclude, wp_bind, wp_ensure]
    refine ⟨fun _ => ?_, fun _ => ⟨rfl, Or.inr ⟨rfl, _, rfl⟩⟩⟩
    rw [andThen_ok, wp_bind, wp_ensure]
    refine ⟨fun _ => ?_, fun _ => ⟨rfl, Or.inr ⟨rfl, _, rfl⟩⟩⟩
    rw [andThen_ok]
    refine wp_bind_of (setDevicesExcluded_run command) ?_ ?_
    · rintro s₁ _ tr₁ ⟨rfl, hresult⟩
      split at hresult
      · exact ⟨rfl, Or.inl ⟨rfl, ‹_›, hresult.2⟩⟩
      · obtain ⟨_, _, ⟨⟩⟩ := hresult
    · rintro s₁ e tr₁ ⟨rfl, hresult⟩
      split at hresult
      · cases hresult.1
      · exact ⟨rfl, Or.inr ⟨hresult.1, e, rfl⟩⟩
  cases request with
  | exclude ids | «include» ids =>
      cases h
      exact hexclude
  | _ => cases h

/-! ## The other operations -/

/-- Other requests leave the exclusions alone. -/
theorem handle_settings (euid uid gid : Nat) {request : Request} (h : request.command? = none) :
    wp (Prog.Spec.oracle Scheduler ω) (handle euid uid gid request)
      (fun s' _ _ => SameSettings s s') s tr := by
  have hquiet : ∀ {x : Sched Response}, Quiet x →
      wp (Prog.Spec.oracle Scheduler ω) x (fun s' _ _ => SameSettings s s') s tr := by
    intro x hx
    rw [wp_oracle, hx]
    exact SameSettings.refl s
  have hsame : ∀ (_ : Error) (_ : Calls), SameSettings s s := fun _ _ => SameSettings.refl s
  cases request with
  | submit spec =>
      refine wp_quiet (Quiet.ensure _ _) (fun _ tr₁ => ?_) hsame
      refine wp_quiet (Quiet.call _) (fun _ tr₂ => ?_) hsame
      refine wp_quiet (Quiet.lift _) (fun _ tr₃ => ?_) hsame
      exact wp_bind_of (submit_submits spec _) (fun _ _ _ h => SameSettings.of_submits h)
        fun _ _ _ h => SameSettings.of_submits h
  | cancel id =>
      refine wp_quiet (getJob_quiet id) (fun _ tr₁ => ?_) hsame
      refine wp_quiet (Quiet.ensure _ _) (fun _ tr₂ => ?_) hsame
      exact wp_bind_of (cancel_cancels id) (fun _ _ _ h => SameSettings.of_cancels h)
        fun _ _ _ h => SameSettings.of_cancels h
  | queue | info => exact hquiet (Quiet.get.bind fun _ => Quiet.pure _)
  | get id =>
      exact hquiet ((getJob_quiet id).bind fun _ => (Quiet.ensure _ _).bind fun _ => Quiet.pure _)
  | log id offset => exact hquiet (handleLog_quiet uid id offset)
  | stop => exact hquiet ((Quiet.ensure _ _).bind fun _ => Quiet.pure _)
  | restart =>
      exact hquiet ((Quiet.ensure _ _).bind fun _ => Quiet.get.bind fun _ =>
        (Quiet.ensure _ _).bind fun _ => Quiet.pure _)
  | exclude ids | «include» ids => cases h

/-! ## The main loop -/

section Loop

variable {devices : List Device} {cs : List Selection}

/-- The exclusions are those that the commands `cs` and then those of the trace ask for. -/
structure Tracks (devices : List Device) (cs : List Selection) (s : Scheduler) (tr : Calls) :
    Prop where
  inventory : s.inventory.devices = devices
  excluded : ∀ device ∈ devices,
    device.key ∈ s.excludedDevices ↔ Excluded (cs ++ commands tr) device.id

namespace Tracks

/-- No command, and the exclusions stay. -/
theorem same {s' : Scheduler} {tr' : Calls} (h : Tracks devices cs s tr)
    (hs : SameSettings s s') (htr : commands tr' = commands tr) : Tracks devices cs s' tr' := by
  refine ⟨hs.devices.trans h.inventory, fun device hdevice => ?_⟩
  rw [hs.excludedDevices, htr]
  exact h.excluded device hdevice

/-- A valid command. -/
theorem commanded {command : Selection} {cs' : List Selection} {tr' : Calls}
    (h : Tracks devices cs s tr) (hkeys : (devices.map Device.key).Nodup)
    (hcs : cs' ++ commands tr' = cs ++ commands tr ++ [command]) :
    Tracks devices cs' (s.commanded command) tr' := by
  refine ⟨h.inventory, fun device hdevice => ?_⟩
  rw [mem_commanded (h.inventory ▸ hkeys) (h.inventory ▸ hdevice), hcs, excluded_concat,
    h.excluded device hdevice]

end Tracks

theorem commands_note {uid gid : Nat} {request : Request} {response : Response}
    {before after : Store} (tr : Calls) :
    commands (tr ++ [⟨.note (.answered uid gid request response before after), ()⟩]) =
      commands tr ++ if response = .ok then request.command?.toList else [] := by
  rw [commands_append]
  congr 1
  split_ifs with hok
  · subst hok
    cases hc : request.command? with
    | none => exact List.filterMap_cons_none hc
    | some command => exact List.filterMap_cons_some hc
  · cases response with
    | ok => exact absurd rfl hok
    | _ => rfl

/-- A request: the exclusions change iff a command is answered with `Ok`. -/
theorem serveRequest_tracks (euid uid gid : Nat) (request : Request)
    (hkeys : (devices.map Device.key).Nodup) (h : Tracks devices cs s tr) :
    wp (Prog.Spec.oracle Scheduler ω) (serveRequest euid uid gid request)
      (fun s' _ tr' => Tracks devices cs s' tr') s tr := by
  have hhandle : wp (Prog.Spec.oracle Scheduler ω) (attempt (handle euid uid gid request))
      (fun s' r tr' => ∃ result, r = .ok result ∧ ∀ event,
        event = Event.answered uid gid request (Response.ofResult result) s.store s'.store →
          Tracks devices cs s' (tr' ++ [⟨.note event, ()⟩])) s tr := by
    rw [wp_attempt]
    cases hc : request.command? with
    | none =>
        have hsame := wp_oracle.mp (handle_settings euid uid gid hc :
          wp (Prog.Spec.oracle Scheduler ω) _ _ s tr)
        have hnotes : commands ((handle euid uid gid request s).run ω tr).trace = commands tr :=
          commands_of_only (handle_requests euid uid gid request) (fun _ => nofun) ω s tr
        rw [wp_oracle]
        refine ⟨_, rfl, ?_⟩
        rintro event rfl
        refine h.same hsame ?_
        rw [commands_note, hnotes, hc, Option.toList_none, ite_self, List.append_nil]
    | some command =>
        refine wp_mono (handle_command euid uid gid hc) ?_
        rintro s' r tr' ⟨rfl, ⟨rfl, _, rfl⟩ | ⟨rfl, e, rfl⟩⟩
        · refine ⟨_, rfl, ?_⟩
          rintro event rfl
          refine h.commanded hkeys ?_
          rw [commands_note, hc, List.append_assoc]
          rfl
        · refine ⟨_, rfl, ?_⟩
          rintro event rfl
          refine h.same (SameSettings.refl _) ?_
          rw [commands_note]
          exact List.append_nil _
  rw [serveRequest, wp_bind, serveAnswer, wp_bind, wp_get, andThen_ok]
  refine wp_bind_of hhandle ?_ ?_
  · rintro s' result tr' ⟨_, ⟨⟩, htracks⟩
    dsimp only
    rw [wp_bind, wp_get, andThen_ok, note, wp_bind, wp_oracle_call, andThen_ok]
    exact htracks _ rfl
  · rintro s' e tr' ⟨_, ⟨⟩, _⟩

theorem upkeep_tracks {α : Type} {x : Sched α} (hx : Upkeep x)
    (hs : SameSettings s ((x s).run ω tr).state) (h : Tracks devices cs s tr) :
    wp (Prog.Spec.oracle Scheduler ω) x (fun s' _ tr' => Tracks devices cs s' tr') s tr := by
  rw [wp_oracle]
  exact h.same hs (commands_of_only hx (fun _ => nofun) ω s tr)

/-- A ghost event that is no answer. -/
theorem Tracks.note {event : Event} {r : Unit} (h : Tracks devices cs s tr)
    (hevent : commands [⟨.note event, r⟩] = []) :
    Tracks devices cs s (tr ++ [⟨.note event, r⟩]) := by
  refine h.same (SameSettings.refl s) ?_
  rw [commands_append, hevent, List.append_nil]

theorem note_tracks {event : Event} (hevent : commands [⟨.note event, ()⟩] = [])
    (h : Tracks devices cs s tr) :
    wp (Prog.Spec.oracle Scheduler ω) (note event) (fun s' _ tr' => Tracks devices cs s' tr')
      s tr := by
  rw [note, wp_oracle_call]
  exact h.note hevent

theorem serveTick_tracks (h : Tracks devices cs s tr) :
    wp (Prog.Spec.oracle Scheduler ω) serveTick (fun s' _ tr' => Tracks devices cs s' tr') s tr :=
  wp_bind_of (upkeep_tracks tick_upkeep (tick_settings ω s tr) h) (fun _ _ _ h => note_tracks rfl h)
    fun _ _ _ h => h

theorem serveCleanup_tracks (h : Tracks devices cs s tr) :
    wp (Prog.Spec.oracle Scheduler ω) serveCleanup
      (fun s' _ tr' => Tracks devices cs s' tr') s tr := by
  rw [serveCleanup, wp_bind, wp_oracle_call, andThen_ok]
  generalize ω tr .now = now
  have hnow : Tracks devices cs s (tr ++ [⟨.now, now⟩]) := by
    refine h.same (SameSettings.refl s) ?_
    rw [commands_append]
    exact List.append_nil _
  rw [wp_bind, wp_get, andThen_ok, note, wp_bind, wp_oracle_call, andThen_ok, wp_bind, wp_attempt]
  exact upkeep_tracks (cleanup_upkeep now) (cleanup_settings now ω s _) (hnow.note rfl)

theorem serveOp_tracks (euid : Nat) (op : Op) (hkeys : (devices.map Device.key).Nodup)
    (h : Tracks devices cs s tr) :
    wp (Prog.Spec.oracle Scheduler ω) (serveOp euid op)
      (fun s' _ tr' => Tracks devices cs s' tr') s tr := by
  have hbegan : Tracks devices cs s (tr ++ [⟨.note (.began op s.store), ()⟩]) := h.note rfl
  unfold serveOp
  rw [wp_bind, wp_get, andThen_ok, note, wp_bind, wp_oracle_call, andThen_ok]
  cases op with
  | request uid gid request => exact serveRequest_tracks euid uid gid request hkeys hbegan
  | tick => exact wp_bind_of (serveTick_tracks hbegan) (fun _ _ _ h => h) fun _ _ _ h => h
  | cleanup => exact wp_bind_of (serveCleanup_tracks hbegan) (fun _ _ _ h => h) fun _ _ _ h => h
  | refresh status monitoringErrors =>
      rw [wp_bind, wp_modify]
      exact hbegan.same ⟨rfl, rfl, rfl⟩ rfl

theorem serveLoop_tracks (euid : Nat) (ops : List Op) (hkeys : (devices.map Device.key).Nodup)
    (h : Tracks devices cs s tr) :
    wp (Prog.Spec.oracle Scheduler ω) (serveLoop euid ops)
      (fun s' _ tr' => Tracks devices cs s' tr') s tr := by
  induction ops generalizing s tr with
  | nil => exact h
  | cons op rest ih =>
      refine wp_bind_of (serveOp_tracks euid op hkeys h) ?_ fun _ _ _ h => h
      rintro s₁ next tr₁ h₁
      cases next with
      | loop => exact ih h₁
      | stop => exact h₁

end Loop

/-! ## Ticks -/

/-- A job of before, or a running one with its devices and a polled outcome. -/
def Carried (s : Scheduler) (job : Job) : Prop :=
  job ∈ s.store.jobs ∨
    ∃ old ∈ s.store.jobs, old.state = .running ∧ job.id = old.id ∧ job.devices = old.devices

theorem Polls.carried {todo : List Nat} {s s' : Scheduler} {changed : Bool}
    {polls : List (Nat × PollReply)} {r : Except Error Bool}
    (h : Polls todo s changed polls s' r) : ∀ job ∈ s'.store.jobs, Carried s job := by
  induction h with
  | done | failed => exact fun job hj => Or.inl hj
  | skip _ _ ih => exact ih
  | waiting _ _ _ ih => exact ih
  | @finished i rest s changed polls s' r job outcome at_i running _ ih =>
      have hmem : job ∈ s.store.jobs := List.mem_of_getElem? at_i
      intro job' hj'
      rcases ih job' hj' with hj' | ⟨old, hold, hrun, hid, hdevices⟩
      · rcases Store.mem_setJob hj' with rfl | hj'
        · exact Or.inr ⟨job, hmem, running, rfl, rfl⟩
        · exact Or.inl hj'
      · rcases Store.mem_setJob hold with rfl | hold
        · exact Or.inr ⟨job, hmem, running, hid, hdevices⟩
        · exact Or.inr ⟨old, hold, hrun, hid, hdevices⟩

/-- A job on devices that are not reserved. -/
def Job.Outside (job : Job) (reserved : Finset String) : Prop :=
  ∀ device ∈ job.devices, device.key ∉ reserved

theorem Job.Outside.mono {job : Job} {reserved reserved' : Finset String}
    (h : job.Outside reserved') (hsub : reserved ⊆ reserved') : job.Outside reserved :=
  fun device hdevice hmem => h device hdevice (hsub hmem)

theorem Job.Outside.of_setJob {s : Scheduler} {i : Nat} {job₁ job : Job}
    {reserved : Finset String} (hout : job₁.Outside reserved)
    (hj : job ∈ (s.setJob i job₁).store.jobs) : job ∈ s.store.jobs ∨ job.Outside reserved := by
  rcases Store.mem_setJob hj with rfl | hj
  · exact Or.inr hout
  · exact Or.inl hj

/-- The start loop hands out only devices that are not reserved. -/
theorem Starts.outside {todo : List Nat} {reserved : Finset String} {running : Nat}
    {s s' : Scheduler} {starts : List (Job × StartReply)} {r : Except Error Unit}
    (h : Starts todo reserved running s starts s' r) :
    (∀ job ∈ s'.store.jobs, job ∈ s.store.jobs ∨ job.Outside reserved) ∧
      ∀ job r, (job, r) ∈ starts → job.Outside reserved := by
  induction h with
  | done | full => exact ⟨fun job hj => Or.inl hj, by rintro _ _ ⟨⟩⟩
  | skip _ _ _ ih => exact ih
  | unsaved now e _ at_i free =>
      exact ⟨fun job hj => Job.Outside.of_setJob (allocate_free free) hj, by rintro _ _ ⟨⟩⟩
  | refusedUnsaved now e later e' _ at_i free =>
      refine ⟨fun job hj => Job.Outside.of_setJob (allocate_free free) hj, fun job r hmem => ?_⟩
      cases List.mem_singleton.mp hmem
      exact allocate_free free
  | started now _ at_i free _ ih =>
      -- The later jobs stay outside a larger set.
      refine ⟨fun job hj => ?_, fun job r hmem => ?_⟩
      · rcases ih.1 job hj with hj | hout
        · exact Job.Outside.of_setJob (allocate_free free) hj
        · exact Or.inr (hout.mono Finset.subset_union_left)
      · rcases List.mem_cons.mp hmem with heq | hmem
        · cases heq
          exact allocate_free free
        · exact (ih.2 job r hmem).mono Finset.subset_union_left
  | refused now e later _ at_i free _ ih =>
      refine ⟨fun job hj => ?_, fun job r hmem => ?_⟩
      · rcases ih.1 job hj with hj | hout
        · exact Job.Outside.of_setJob (allocate_free free) hj
        · exact Or.inr hout
      · rcases List.mem_cons.mp hmem with heq | hmem
        · cases heq
          exact allocate_free free
        · exact ih.2 job r hmem

theorem excluded_subset_reserved (s : Scheduler) : s.excludedDevices ⊆ s.reserved :=
  fun _ hkey => Finset.mem_union_left _ (Finset.mem_union_right _ hkey)

/-- A tick makes no job run on an excluded device. -/
theorem Ticks.outside {s s₁ s' : Scheduler} {polls : List (Nat × PollReply)}
    {starts : List (Job × StartReply)} {r : Except Error Unit}
    (h : Ticks s s₁ polls starts s' r) :
    (∀ job ∈ s'.store.jobs, Carried s job ∨ job.Outside s.excludedDevices) ∧
      ∀ job r, (job, r) ∈ starts → job.Outside s.excludedDevices := by
  obtain ⟨⟨_, hpolls⟩, ⟨rfl, rfl, _⟩ | hgo⟩ := h
  · exact ⟨fun job hj => Or.inl (hpolls.carried job hj), by rintro _ _ ⟨⟩⟩
  · have hsub : s.excludedDevices ⊆ s₁.reserved :=
      hpolls.jobsOnly.excludedDevices ▸ excluded_subset_reserved s₁
    refine ⟨fun job hj => ?_, fun job r hmem => (hgo.outside.2 job r hmem).mono hsub⟩
    rcases hgo.outside.1 job hj with hj | hout
    · exact Or.inl (hpolls.carried job hj)
    · exact Or.inr (hout.mono hsub)

/-! ## The main result -/

theorem serve_tracks {devices : List Device} (euid : Nat) (excluded : List Nat) (ops : List Op)
    (hdevices : s.inventory.devices = devices) (hkeys : (devices.map Device.key).Nodup)
    (hnone : s.excludedDevices = ∅) :
    wp (Prog.Spec.oracle Scheduler ω) (serve euid excluded ops)
      (fun s' _ tr' => Tracks devices (startup devices excluded) s' tr') s [] := by
  subst hdevices
  -- Nothing is excluded before the command line is read.
  have hnew : Tracks s.inventory.devices [] s [] := by
    refine ⟨rfl, fun device _ => ?_⟩
    rw [hnone]
    exact iff_of_false (Finset.notMem_empty _) not_excluded_nil
  have hstart : wp (Prog.Spec.oracle Scheduler ω) (serveStart excluded) (fun s' _ tr' =>
      Tracks s.inventory.devices (startup s.inventory.devices excluded) s' tr') s [] := by
    rw [serveStart, excludeDevices]
    refine wp_bind_of (setDevicesExcluded_run ⟨true, excluded⟩) ?_ ?_
    · rintro s₁ _ tr₁ ⟨rfl, hresult⟩
      split at hresult
      · rename_i hnames
        have hstarted : Tracks s.inventory.devices (startup s.inventory.devices excluded) s₁ [] := by
          rw [hresult.2]
          refine hnew.commanded hkeys ?_
          rw [startup, if_pos hnames]
          rfl
        rw [wp_bind, wp_get, andThen_ok, note, wp_bind, wp_oracle_call, andThen_ok]
        refine wp_bind_of (serveTick_tracks (hstarted.note rfl)) ?_ fun _ _ _ h => h
        intro s₂ _ tr₂ h₂
        exact wp_bind_of (serveCleanup_tracks h₂) (fun _ _ _ h => h) fun _ _ _ h => h
      · obtain ⟨_, _, ⟨⟩⟩ := hresult
    -- An invalid list on the command line ends the daemon.
    · rintro s₁ e tr₁ ⟨rfl, hresult⟩
      split at hresult
      · cases hresult.1
      · rename_i hnames
        rw [hresult.1, startup, if_neg hnames]
        exact hnew
  refine wp_bind_of hstart ?_ fun _ _ _ h => h
  rintro s₁ next tr₁ h₁
  cases next with
  | loop => exact serveLoop_tracks euid ops hkeys h₁
  | stop => exact h₁

/-- For a daemon that was started with any `--exclude` list, and after any operations: a
    device is excluded iff the last successful command that names its id was to exclude
    it.  A command changes nothing but the exclusions, and nothing at all if its list has
    a duplicate or an unknown id.  After a tick, every running job was running before on
    its devices, or none of them is excluded, and no other job was started. -/
theorem exclusions_last_command (euid : Nat) (ω : Env) (state : Option Data)
    (inventory : UniqueInventory) (maxRunning : Nat) (s₀ : Scheduler)
    (hnew : Scheduler.new state inventory.toInventory maxRunning = .ok s₀)
    (excluded : List Nat) (ops : List Op) :
    (let done := (serve euid excluded ops s₀).run ω []
      ∀ device ∈ inventory.devices, device.key ∈ done.state.excludedDevices ↔
        Excluded (startup inventory.devices excluded ++ commands done.trace) device.id) ∧
    (∀ (s : Scheduler) (tr : Calls) (uid gid : Nat) (request : Request) (command : Selection),
      request.command? = some command →
        let answer := (handle euid uid gid request s).run ω tr
        answer.state.store = s.store ∧ answer.trace = tr ∧
          (¬ Names s.inventory.devices command.ids →
            answer.state = s ∧ ∃ e, answer.value = .error e)) ∧
    ∀ (s : Scheduler) (tr : Calls), ∃ own, ((tick s).run ω tr).trace = tr ++ own ∧
      (∀ job ∈ ((tick s).run ω tr).state.store.jobs, job.state = .running →
        (∃ old ∈ s.store.jobs, old.state = .running ∧ job.id = old.id ∧
          job.devices = old.devices) ∨ job.Outside s.excludedDevices) ∧
      ∀ job r, ⟨.start job, r⟩ ∈ own → job.Outside s.excludedDevices := by
  obtain ⟨_, hinventory, _, hnone⟩ := Scheduler.new_ok hnew
  have hdevices : s₀.inventory.devices = inventory.devices :=
    congrArg Inventory.devices hinventory
  refine ⟨?_, fun s tr uid gid request command hcommand => ?_, fun s tr => ?_⟩
  -- The last command.
  · exact (wp_oracle.mp (serve_tracks euid excluded ops hdevices inventory.nodup hnone)).excluded
  -- One command.
  · obtain ⟨htrace, hanswer⟩ := wp_oracle.mp (handle_command euid uid gid hcommand :
      wp (Prog.Spec.oracle Scheduler ω) _ _ s tr)
    refine ⟨?_, htrace, fun hinvalid => ?_⟩
    · rcases hanswer with ⟨_, _, hstate⟩ | ⟨hstate, _⟩
      · rw [hstate]
        rfl
      · rw [hstate]
    · rcases hanswer with ⟨_, hnames, _⟩ | hrefused
      · exact absurd hnames hinvalid
      · exact hrefused
  -- One tick.
  · obtain ⟨own, hown, hticks⟩ := tick_ticks ω s tr
    obtain ⟨hjobs, hstarts⟩ := hticks.outside
    refine ⟨own, hown, fun job hj hrun => ?_, fun job r hmem =>
      hstarts job r (mem_startCalls.mpr hmem)⟩
    rcases hjobs job hj with (hold | hold) | hout
    · exact Or.inl ⟨job, hold, hrun, rfl, rfl⟩
    · exact Or.inl hold
    · exact Or.inr hout

/-- Two vendors with the same ids. -/
def UniqueInventory.mixed : UniqueInventory where
  devices := [⟨.nvidia, 0, "gpu", "GPU-a", Option.none, Option.none⟩,
    ⟨.ascend, 0, "npu", "0", some 0, Option.none⟩]
  status _ := some "idle"
  monitoringErrors _ := Option.none
  nodup := by decide

set_option maxRecDepth 10000 in
/-- Both devices are excluded; the list with an unknown id does not bring them back. -/
theorem exclusions_last_command_vendors :
    let ops := [.request 0 0 (.include [0]), .request 0 0 (.exclude [0]), .tick,
      .request 0 0 (.include [0, 7])]
    let s₀ : Scheduler := ⟨Store.default, UniqueInventory.mixed.toInventory, 1, ∅⟩
    ∀ device ∈ UniqueInventory.mixed.devices,
      device.key ∈ ((serve 0 [0] ops s₀).run instantWorkers []).state.excludedDevices := by
  intro ops s₀ device hdevice
  obtain ⟨hiff, _⟩ :=
    exclusions_last_command 0 instantWorkers none UniqueInventory.mixed 1 s₀ rfl [0] ops
  refine (hiff device hdevice).mpr ?_
  have hid : device.id = 0 := by
    revert device
    decide
  rw [hid]
  decide

end Xlurm
