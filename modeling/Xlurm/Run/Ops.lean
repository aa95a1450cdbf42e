/-
  Xlurm.Run.Ops

  What the operations of the scheduler do to its state, in any environment: the
  checks and the reading requests change nothing, and the others make one of a
  few changes.  And which calls they make.
-/

import Xlurm.Model.Daemon
import Xlurm.Model.Store
import Xlurm.Run.Tick

namespace Xlurm

open Prog.Comp

variable {ω : Env} {s : Scheduler} {tr : Calls}

/-! ## Parts that change nothing -/

theorem checkDeviceIds_quiet (s : Scheduler) (spec : Submission) (ids : List Nat) :
    Quiet (checkDeviceIds s spec ids) := by
  refine (Quiet.ensure _ _).bind fun _ => (Quiet.ensure _ _).bind fun _ =>
    (Quiet.ensure _ _).bind fun _ => (Quiet.ensure _ _).bind fun _ => ?_
  split
  · exact Quiet.throw _
  · exact (Quiet.ensure _ _).bind fun _ => Quiet.pure _
  · exact Quiet.throw _

theorem checkSubmission_quiet (spec : Submission) : Quiet (checkSubmission spec) := by
  refine (Quiet.ensure _ _).bind fun _ => (Quiet.call _).bind fun _ =>
    (Quiet.ensure _ _).bind fun _ => (Quiet.ensure _ _).bind fun _ =>
    (Quiet.ensure _ _).bind fun _ => Quiet.get.bind fun s => ?_
  refine Quiet.bind ?_ fun _ => (Quiet.ensure _ _).bind fun _ => Quiet.pure _
  unfold resolveSpec
  split
  · exact checkDeviceIds_quiet _ _ _
  · exact Quiet.pure _

theorem getJob_quiet (id : Nat) : Quiet (getJob id) := by
  refine Quiet.get.bind fun s => ?_
  split
  · exact Quiet.pure _
  · exact Quiet.throw _

theorem ensureKnown_quiet (devices : List Device) (ids : List Nat) :
    Quiet (ensureKnown devices ids) := by
  induction ids with
  | nil => exact Quiet.pure _
  | cons id rest ih => exact (Quiet.ensure _ _).bind fun _ => ih

theorem handleLog_quiet (uid id offset : Nat) : Quiet (handleLog uid id offset) := by
  refine (getJob_quiet id).bind fun job => (Quiet.ensure _ _).bind fun _ =>
    (Quiet.call (Call.openLog id)).bind fun reply => ?_
  split
  · exact (Quiet.call _).bind fun _ => (Quiet.lift _).bind fun _ => Quiet.pure _
  · exact Quiet.pure _
  · exact Quiet.throw _

theorem save_quiet : Quiet save :=
  Quiet.get.bind fun _ => (Quiet.call _).bind fun _ => Quiet.lift _

theorem removeArtifacts_quiet (expired : List Nat) (entries : List (Except Error Path)) :
    Quiet (removeArtifacts expired entries) := by
  induction entries with
  | nil => exact Quiet.pure _
  | cons entry rest ih =>
      refine (Quiet.lift entry).bind fun path => ?_
      split
      · exact ih
      · split
        · refine (Quiet.call (Call.removeFile path)).bind fun reply => ?_
          split
          · exact ih
          · exact ih
          · exact Quiet.throw _
        · exact ih

/-! ## `submit` -/

/-- Exact ids come with a count that matches them. -/
def Submission.Sized (spec : Submission) : Prop :=
  ∀ ids, spec.deviceIds = some ids → spec.count = ids.length

/-- A job as `submit` appends it. -/
structure Job.Fresh (job : Job) : Prop where
  pending : job.state = .pending
  devices : job.devices = []
  startedAt : job.startedAt = none
  result : job.result = none
  sized : job.spec.Sized

/-- What `submit` does: nothing, or it only draws an id, or it appends a job. -/
inductive Submits (owner : Owner) (s : Scheduler) : Scheduler → Except Error Job → Prop
  | refused (e : Error) : Submits owner s s (.error e)
  | unsaved (e : Error) :
      Submits owner s { s with store := ⟨s.store.nextId + 1, s.store.jobs⟩ } (.error e)
  | accepted (job : Job) (id : job.id = s.store.nextId + 1) (howner : job.owner = owner)
      (fresh : job.Fresh) : Submits owner s (s.push job) (.ok job)

/-- What the checks make of a submission: they pin the kind of exact ids. -/
structure Resolved (s : Scheduler) (spec spec' : Submission) : Prop where
  same : spec' = { spec with kind := spec'.kind }
  count : spec'.count = spec.count
  deviceIds : spec'.deviceIds = spec.deviceIds
  excludeDeviceIds : spec'.excludeDeviceIds = spec.excludeDeviceIds
  sized : spec'.Sized
  distinct : ∀ ids, spec.deviceIds = some ids → ids.Nodup
  exclusive : ∀ ids, spec.deviceIds = some ids → spec.excludeDeviceIds = []
  pinned : ∀ ids, spec.deviceIds = some ids →
    ∃ kind ∈ matchingKinds spec s.inventory.devices, spec'.kind = some kind
  unpinned : spec.deviceIds = none → spec'.kind = spec.kind

/-- And the enabled devices suffice for it. -/
structure Admitted (s : Scheduler) (spec spec' : Submission) : Prop
    extends Resolved s spec spec' where
  room : (allocate spec' s.inventory.devices s.excludedDevices).isSome

theorem checkDeviceIds_resolved (s₀ : Scheduler) (spec : Submission) (ids : List Nat)
    (hids : spec.deviceIds = some ids) :
    wp (Prog.Spec.oracle Scheduler ω) (checkDeviceIds s₀ spec ids) (fun _ r _ =>
      ∀ spec', r = .ok spec' → Resolved s₀ spec spec') s tr := by
  have hno : ∀ (e : Error) (spec' : Submission),
      (Except.error e : Except Error Submission) = .ok spec' → Resolved s₀ spec spec' := by
    rintro e spec' ⟨⟩
  have heq : ∀ {ids'}, spec.deviceIds = some ids' → ids = ids' :=
    fun hids' => Option.some.inj (hids.symm.trans hids')
  rw [checkDeviceIds, wp_bind, wp_ensure]
  refine ⟨fun _ => ?_, fun _ => hno _⟩
  rw [andThen_ok, wp_bind, wp_ensure]
  refine ⟨fun hcount => ?_, fun _ => hno _⟩
  rw [andThen_ok, wp_bind, wp_ensure]
  refine ⟨fun hdistinct => ?_, fun _ => hno _⟩
  rw [andThen_ok, wp_bind, wp_ensure]
  refine ⟨fun hexclusive => ?_, fun _ => hno _⟩
  rw [andThen_ok]
  split
  · exact hno _
  -- The only case that is accepted: one kind has all the ids.
  · rename_i kind hkinds
    rw [wp_bind, wp_ensure]
    refine ⟨fun _ => ?_, fun _ => hno _⟩
    rw [andThen_ok, wp_pure]
    rintro spec' ⟨⟩
    refine ⟨rfl, rfl, rfl, rfl, fun ids' hids' => heq hids' ▸ hcount, fun ids' hids' => ?_,
      fun _ _ => hexclusive, fun _ _ => ⟨kind, hkinds ▸ List.mem_singleton_self kind, rfl⟩, fun hnone => ?_⟩
    · exact heq hids' ▸ (distinct_iff ids).mp hdistinct
    · rw [hnone] at hids
      cases hids
  · exact hno _

theorem checkSubmission_admitted (spec : Submission) :
    wp (Prog.Spec.oracle Scheduler ω) (checkSubmission spec) (fun s' r _ =>
      s' = s ∧ ∀ spec', r = .ok spec' → Admitted s spec spec') s tr := by
  have hno : ∀ (e : Error) (_ : Calls), s = s ∧ ∀ (spec' : Submission),
      (Except.error e : Except Error Submission) = .ok spec' → Admitted s spec spec' :=
    fun _ _ => ⟨rfl, nofun⟩
  refine wp_quiet (Quiet.ensure _ _) (fun _ tr₁ => ?_) hno
  refine wp_quiet (Quiet.call _) (fun _ tr₂ => ?_) hno
  refine wp_quiet (Quiet.ensure _ _) (fun _ tr₃ => ?_) hno
  refine wp_quiet (Quiet.ensure _ _) (fun _ tr₄ => ?_) hno
  refine wp_quiet (Quiet.ensure _ _) (fun _ tr₅ => ?_) hno
  rw [wp_bind, wp_get, andThen_ok]
  have hresolve : wp (Prog.Spec.oracle Scheduler ω) (resolveSpec s spec) (fun s' r _ =>
      s' = s ∧ ∀ spec', r = .ok spec' → Resolved s spec spec') s tr₅ := by
    unfold resolveSpec
    split
    · rename_i ids hids
      rw [wp_oracle]
      exact ⟨checkDeviceIds_quiet s spec ids ω s tr₅,
        wp_oracle.mp (checkDeviceIds_resolved s spec ids hids)⟩
    · rename_i hids
      rw [wp_pure]
      refine ⟨rfl, ?_⟩
      rintro spec' ⟨⟩
      exact ⟨rfl, rfl, rfl, rfl, by simp [Submission.Sized, hids], by simp [hids], by simp [hids],
        by simp [hids], fun _ => rfl⟩
  refine wp_bind_of hresolve ?_ fun _ e tr' h => ⟨h.1, nofun⟩
  rintro s₁ spec₁ tr₆ ⟨rfl, hresolved⟩
  rw [wp_bind, wp_ensure]
  refine ⟨fun hroom => ?_, fun _ => hno _ tr₆⟩
  rw [andThen_ok, wp_pure]
  refine ⟨rfl, ?_⟩
  rintro spec' ⟨⟩
  exact ⟨hresolved spec₁ rfl, hroom⟩

/-- A job that `submit` accepts: the submitted one, with a kind pinned if it names ids, and
    with what the clock said. -/
structure Accepts (ω : Env) (s : Scheduler) (spec : Submission) (owner : Owner) (job : Job) :
    Prop where
  admitted : Admitted s spec job.spec
  fresh : job.Fresh
  owner : job.owner = owner
  id_lt : job.id < 2 ^ 64
  submittedAt : ∃ tr, job.submittedAt = ω tr .now

/-- What `submit` does to the scheduler, and which jobs it accepts. -/
theorem submit_wp_oracle (spec : Submission) (owner : Owner) :
    wp (Prog.Spec.oracle Scheduler ω) (submit spec owner) (fun s' r _ =>
      Submits owner s s' r ∧ ∀ job, r = .ok job → Accepts ω s spec owner job) s tr := by
  have hrefused : ∀ e : Error, Submits owner s s (.error e) ∧
      ∀ job, (Except.error e : Except Error Job) = .ok job → Accepts ω s spec owner job :=
    fun e => ⟨Submits.refused e, by rintro _ ⟨⟩⟩
  rw [submit]
  refine wp_bind_of (checkSubmission_admitted spec) ?_ ?_
  · rintro s₁ spec₁ tr₁ ⟨rfl, hadmitted⟩
    have h := hadmitted spec₁ rfl
    rw [wp_bind, wp_get, andThen_ok, wp_bind, wp_ensure]
    refine ⟨fun hid => ?_, fun _ => hrefused _⟩
    rw [andThen_ok, wp_bind, wp_oracle_call, andThen_ok]
    dsimp only
    rw [wp_bind, wp_modify, andThen_ok, wp_bind, wp_attempt, wp_save_oracle]
    generalize ω _ (.save _) = saved
    cases saved with
    | ok _ =>
        rw [andThen_ok, wp_pure]
        refine ⟨Submits.accepted _ rfl rfl ⟨rfl, rfl, rfl, rfl, h.sized⟩, ?_⟩
        rintro job ⟨⟩
        exact ⟨h, ⟨rfl, rfl, rfl, rfl, h.sized⟩, rfl, hid, ⟨tr₁, rfl⟩⟩
    | error e =>
        rw [andThen_ok, wp_bind, wp_modify, andThen_ok, wp_throw]
        -- The job is taken back, its id is not.
        have hpop : ∀ job : Job, (s₁.push job).pop =
            { s₁ with store := ⟨job.id, s₁.store.jobs⟩ } := by
          intro job
          simp [Scheduler.push, Scheduler.pop]
        rw [hpop]
        exact ⟨Submits.unsaved e, by rintro _ ⟨⟩⟩
  · rintro s₁ e tr₁ ⟨rfl, _⟩
    exact hrefused e

theorem submit_submits (spec : Submission) (owner : Owner) :
    wp (Prog.Spec.oracle Scheduler ω) (submit spec owner) (fun s' r _ => Submits owner s s' r)
      s tr :=
  wp_mono (submit_wp_oracle spec owner) fun _ _ _ h => h.1

theorem submit_accepts (spec : Submission) (owner : Owner) :
    wp (Prog.Spec.oracle Scheduler ω) (submit spec owner) (fun _ r _ =>
      ∀ job, r = .ok job → Accepts ω s spec owner job) s tr :=
  wp_mono (submit_wp_oracle spec owner) fun _ _ _ h => h.2

/-! ## `cancel` -/

/-- The store with the cancelled job that `cancel` tries to save. -/
def Scheduler.cancelled (s : Scheduler) (i : Nat) (job : Job) (now : Nat) : Scheduler :=
  s.setJob i { job with state := .cancelled, result := some (cancelledOutcome now) }

/-- What `cancel` does: nothing, or it cancels the pending job. -/
inductive Cancels (id : Nat) (s : Scheduler) : Scheduler → Prop
  | same : Cancels id s s
  | cancelled {i job} (now : Nat) (at_i : s.store.jobs[i]? = some job) (hid : job.id = id)
      (pending : job.state = .pending) : Cancels id s (s.cancelled i job now)

theorem cancel_cancels (id : Nat) :
    wp (Prog.Spec.oracle Scheduler ω) (cancel id) (fun s' _ _ => Cancels id s s') s tr := by
  rw [cancel, wp_bind, wp_get, andThen_ok]
  have hquiet : ∀ x : Sched Unit, Quiet x → wp (Prog.Spec.oracle Scheduler ω) x
      (fun s' _ _ => Cancels id s s') s tr := by
    intro x hx
    rw [wp_oracle, hx]
    exact Cancels.same
  split
  · exact hquiet _ (Quiet.throw _)
  · rename_i i hidx
    split
    · exact hquiet _ (Quiet.throw _)
    · rename_i job hi
      have hid : job.id = id := id_of_findIdx? hidx hi
      split
      · rename_i hpend
        -- Whatever the save returns, the job stays cancelled in memory.
        rw [wp_bind, wp_oracle_call, andThen_ok, wp_bind, wp_modify, andThen_ok, wp_save_oracle]
        exact Cancels.cancelled _ hi hid hpend
      · exact hquiet _ ((Quiet.call _).bind fun _ => Quiet.lift _)
      · exact hquiet _ (Quiet.pure _)

/-! ## The others -/

/-- Excluding devices does not touch the jobs. -/
theorem setDevicesExcluded_store (ids : List Nat) (excluded : Bool) :
    wp (Prog.Spec.oracle Scheduler ω) (setDevicesExcluded ids excluded) (fun s' _ _ =>
      s'.store = s.store ∧ s'.inventory = s.inventory ∧ s'.maxRunning = s.maxRunning) s tr := by
  refine wp_quiet (Quiet.ensure _ _) (fun _ tr₁ => ?_) fun _ _ => ⟨rfl, rfl, rfl⟩
  rw [wp_bind, wp_get, andThen_ok]
  refine wp_quiet (ensureKnown_quiet _ _) (fun _ tr₂ => ?_) fun _ _ => ⟨rfl, rfl, rfl⟩
  rw [wp_modify]
  exact ⟨rfl, rfl, rfl⟩

/-- `cleanup` does nothing or forgets the expired jobs. -/
theorem cleanup_store (timestamp : Nat) :
    wp (Prog.Spec.oracle Scheduler ω) (cleanup timestamp) (fun s' _ _ =>
      s' = s ∨ s' = { s with store := s.store.retain (s.store.expired timestamp) }) s tr := by
  rw [cleanup, wp_bind, wp_get, andThen_ok]
  dsimp only
  split
  · exact Or.inl rfl
  · refine wp_quiet (Quiet.call _) (fun entries tr₁ => ?_) fun _ _ => Or.inl rfl
    refine wp_quiet (Quiet.lift _) (fun entries tr₂ => ?_) fun _ _ => Or.inl rfl
    refine wp_quiet (removeArtifacts_quiet _ _) (fun _ tr₃ => ?_) fun _ _ => Or.inl rfl
    refine wp_quiet (Quiet.call _) (fun reply tr₄ => ?_) fun _ _ => Or.inl rfl
    refine wp_quiet (Quiet.lift _) (fun _ tr₅ => ?_) fun _ _ => Or.inl rfl
    rw [wp_modify]
    exact Or.inr rfl

/-! ## Requests that only read -/

theorem handle_queue (euid uid gid : Nat) (ω : Env) (s : Scheduler) (tr : Calls) :
    (handle euid uid gid .queue s).run ω tr =
      ⟨tr, s, .ok (.queue (s.store.jobs.map JobSummary.from))⟩ := rfl

/-! ## What only commands change -/

/-- The devices, the exclusions and the limit stay as they are. -/
structure SameSettings (s s' : Scheduler) : Prop where
  devices : s'.inventory.devices = s.inventory.devices
  excludedDevices : s'.excludedDevices = s.excludedDevices
  maxRunning : s'.maxRunning = s.maxRunning

namespace SameSettings

theorem refl (s : Scheduler) : SameSettings s s := ⟨rfl, rfl, rfl⟩

theorem trans {s s' s'' : Scheduler} (h : SameSettings s s') (h' : SameSettings s' s'') :
    SameSettings s s'' where
  devices := h'.devices.trans h.devices
  excludedDevices := h'.excludedDevices.trans h.excludedDevices
  maxRunning := h'.maxRunning.trans h.maxRunning

theorem of_jobsOnly {s s' : Scheduler} (h : JobsOnly s s') : SameSettings s s' :=
  ⟨congrArg Inventory.devices h.inventory, h.excludedDevices, h.maxRunning⟩

theorem of_submits {owner : Owner} {s s' : Scheduler} {r : Except Error Job}
    (h : Submits owner s s' r) : SameSettings s s' := by
  cases h <;> exact ⟨rfl, rfl, rfl⟩

theorem of_cancels {id : Nat} {s s' : Scheduler} (h : Cancels id s s') : SameSettings s s' := by
  cases h <;> exact ⟨rfl, rfl, rfl⟩

end SameSettings

theorem tick_settings (ω : Env) (s : Scheduler) (tr : Calls) :
    SameSettings s ((tick s).run ω tr).state := by
  obtain ⟨own, _, hticks⟩ := tick_ticks ω s tr
  exact SameSettings.of_jobsOnly hticks.jobsOnly

theorem cleanup_settings (timestamp : Nat) (ω : Env) (s : Scheduler) (tr : Calls) :
    SameSettings s ((cleanup timestamp s).run ω tr).state := by
  rcases wp_oracle.mp (cleanup_store timestamp : wp (Prog.Spec.oracle Scheduler ω) _ _ s tr)
    with hstate | hstate
  · rw [hstate]
    exact SameSettings.refl s
  · rw [hstate]
    exact ⟨rfl, rfl, rfl⟩

/-! ## Calls -/

/-- The calls that requests make. -/
def Call.ofRequest : Call → Bool
  | now | isDir _ | save _ | cancel _ | account _ _ | openLog _ | readLog _ _ _ => true
  | start _ | poll _ | readDir | removeFile _ | note _ => false

/-- The calls that ticks and cleanups make. -/
def Call.ofUpkeep : Call → Bool
  | now | save _ | start _ | poll _ | readDir | removeFile _ => true
  | isDir _ | cancel _ | account _ _ | openLog _ | readLog _ _ _ | note _ => false

abbrev Requests {α : Type} (x : Sched α) : Prop := Only (fun c : Call => c.ofRequest = true) x

abbrev Upkeep {α : Type} (x : Sched α) : Prop := Only (fun c : Call => c.ofUpkeep = true) x

theorem save_only {P : Call → Prop} (hP : ∀ store, P (.save store)) : Only P save :=
  Only.get.bind fun _ => (Only.call (hP _)).bind fun _ => Only.lift _

section Only

variable {P : Call → Prop}

theorem checkDeviceIds_only (s : Scheduler) (spec : Submission) (ids : List Nat) :
    Only P (checkDeviceIds s spec ids) := by
  refine (Only.ensure _ _).bind fun _ => (Only.ensure _ _).bind fun _ =>
    (Only.ensure _ _).bind fun _ => (Only.ensure _ _).bind fun _ => ?_
  split
  · exact Only.throw _
  · exact (Only.ensure _ _).bind fun _ => Only.pure _
  · exact Only.throw _

theorem checkSubmission_only (spec : Submission) (hdir : P (.isDir spec.cwd)) :
    Only P (checkSubmission spec) := by
  refine (Only.ensure _ _).bind fun _ => (Only.call hdir).bind fun _ =>
    (Only.ensure _ _).bind fun _ => (Only.ensure _ _).bind fun _ =>
    (Only.ensure _ _).bind fun _ => Only.get.bind fun s => ?_
  refine Only.bind ?_ fun _ => (Only.ensure _ _).bind fun _ => Only.pure _
  unfold resolveSpec
  split
  · exact checkDeviceIds_only _ _ _
  · exact Only.pure _

theorem getJob_only (id : Nat) : Only P (getJob id) := by
  refine Only.get.bind fun s => ?_
  split
  · exact Only.pure _
  · exact Only.throw _

theorem handleLog_only (uid id offset : Nat) (hopen : P (.openLog id))
    (hread : P (.readLog id offset (64 * 1024))) : Only P (handleLog uid id offset) := by
  refine (getJob_only id).bind fun job => (Only.ensure _ _).bind fun _ =>
    (Only.call hopen).bind fun reply => ?_
  split
  · exact (Only.call hread).bind fun _ => (Only.lift _).bind fun _ => Only.pure _
  · exact Only.pure _
  · exact Only.throw _

end Only

theorem submit_requests (spec : Submission) (owner : Owner) : Requests (submit spec owner) := by
  refine (checkSubmission_only spec (by rfl)).bind fun _ => Only.get.bind fun _ =>
    (Only.ensure _ _).bind fun _ => (Only.call (by rfl)).bind fun _ => (Only.modify _).bind fun _ =>
    (save_only fun _ => by rfl).attempt.bind fun r => ?_
  cases r with
  | ok => exact Only.pure _
  | error e => exact (Only.modify _).bind fun _ => Only.throw _

theorem cancel_requests (id : Nat) : Requests (cancel id) := by
  refine Only.get.bind fun s => ?_
  split
  · exact Only.throw _
  · split
    · exact Only.throw _
    · split
      · exact (Only.call (by rfl)).bind fun _ => (Only.modify _).bind fun _ => save_only fun _ => by rfl
      · exact (Only.call (by rfl)).bind fun _ => Only.lift _
      · exact Only.pure _

theorem ensureKnown_only {P : Call → Prop} (devices : List Device) (ids : List Nat) :
    Only P (ensureKnown devices ids) := by
  induction ids with
  | nil => exact Only.pure _
  | cons id rest ih => exact (Only.ensure _ _).bind fun _ => ih

theorem setDevicesExcluded_only {P : Call → Prop} (ids : List Nat) (excluded : Bool) :
    Only P (setDevicesExcluded ids excluded) :=
  (Only.ensure _ _).bind fun _ => Only.get.bind fun _ =>
    (ensureKnown_only _ _).bind fun _ => Only.modify _

theorem handleExclude_only {P : Call → Prop} (euid uid : Nat) (ids : List Nat)
    (excluded : Bool) : Only P (handleExclude euid uid ids excluded) :=
  (Only.ensure _ _).bind fun _ => (Only.ensure _ _).bind fun _ =>
    (setDevicesExcluded_only _ _).bind fun _ => Only.pure _

theorem handle_requests (euid uid gid : Nat) (request : Request) :
    Requests (handle euid uid gid request) := by
  cases request with
  | submit spec =>
      exact (Only.ensure _ _).bind fun _ => (Only.call (by rfl)).bind fun _ => (Only.lift _).bind
        fun _ => (submit_requests _ _).bind fun _ => Only.pure _
  | queue | info => exact Only.get.bind fun _ => Only.pure _
  | get id =>
      exact (getJob_only id).bind fun _ => (Only.ensure _ _).bind fun _ => Only.pure _
  | cancel id =>
      exact (getJob_only id).bind fun _ => (Only.ensure _ _).bind fun _ =>
        (cancel_requests id).bind fun _ => Only.pure _
  | log id offset => exact handleLog_only uid id offset (by rfl) (by rfl)
  | exclude ids | «include» ids => exact handleExclude_only _ _ _ _
  | stop => exact (Only.ensure _ _).bind fun _ => Only.pure _
  | restart =>
      exact (Only.ensure _ _).bind fun _ => Only.get.bind fun _ => (Only.ensure _ _).bind
        fun _ => Only.pure _

theorem pollJobs_upkeep (todo : List Nat) (changed : Bool) : Upkeep (pollJobs todo changed) := by
  induction todo generalizing changed with
  | nil => exact Only.pure _
  | cons i rest ih =>
      refine Only.get.bind fun s => ?_
      split
      · exact ih _
      · split
        · refine (Only.call (by rfl)).bind fun _ => (Only.lift _).bind fun outcome => ?_
          cases outcome with
          | none => exact ih _
          | some outcome => exact (Only.modify _).bind fun _ => ih _
        · exact ih _

theorem startJobs_upkeep (todo : List Nat) (reserved : Finset String) (running : Nat) :
    Upkeep (startJobs todo reserved running) := by
  induction todo generalizing reserved running with
  | nil => exact Only.pure _
  | cons i rest ih =>
      refine Only.get.bind fun s => ?_
      split
      · exact Only.pure _
      · split
        · exact ih _ _
        · split
          · exact ih _ _
          · refine (Only.call (by rfl)).bind fun _ => (Only.modify _).bind fun _ =>
              (save_only fun _ => by rfl).bind fun _ => (Only.call (by rfl)).bind fun reply => ?_
            cases reply with
            | ok => exact ih _ _
            | error e =>
                exact (Only.call (by rfl)).bind fun _ => (Only.modify _).bind fun _ =>
                  (save_only fun _ => by rfl).bind fun _ => ih _ _

theorem tick_upkeep : Upkeep tick := by
  refine Only.get.bind fun s => (pollJobs_upkeep _ _).bind fun changed => ?_
  have hgo : Upkeep (do
      let s ← get
      startJobs (pendingOrder s.store) s.reserved (runningCount s.store)) :=
    Only.get.bind fun s => startJobs_upkeep _ _ _
  cases changed with
  | false => exact hgo
  | true => exact (save_only fun _ => by rfl).bind fun _ => hgo

theorem removeArtifacts_upkeep (expired : List Nat) (entries : List (Except Error Path)) :
    Upkeep (removeArtifacts expired entries) := by
  induction entries with
  | nil => exact Only.pure _
  | cons entry rest ih =>
      refine (Only.lift entry).bind fun path => ?_
      split
      · exact ih
      · split
        · refine (Only.call (by rfl)).bind fun reply => ?_
          split
          · exact ih
          · exact ih
          · exact Only.throw _
        · exact ih

theorem cleanup_upkeep (timestamp : Nat) : Upkeep (cleanup timestamp) := by
  refine Only.get.bind fun s => ?_
  dsimp only
  split
  · exact Only.pure _
  · exact (Only.call (by rfl)).bind fun _ => (Only.lift _).bind fun _ =>
      (removeArtifacts_upkeep _ _).bind fun _ => (Only.call (by rfl)).bind fun _ =>
      (Only.lift _).bind fun _ => Only.modify _

end Xlurm
