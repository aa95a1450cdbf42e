/-
  Xlurm.Theorems.Runnable

  What `submit` accepts can be run: once the machine is idle and no more devices are
  excluded, the job starts as soon as its turn comes.  And what no set of enabled
  devices can satisfy is not accepted.
-/

import Mathlib.Data.Finset.Lattice.Lemmas
import Xlurm.Refine.System
import Xlurm.Theorems.Allocation
import Xlurm.Theorems.Exclusions
import Xlurm.Theorems.LifeCycle

namespace Xlurm

open Prog.Comp

/-! ## A job over the operations -/

/-- The same job, whatever happened to it. -/
def Job.SameTask (job job' : Job) : Prop := job'.id = job.id ∧ job'.spec = job.spec

theorem Job.SameTask.refl (job : Job) : job.SameTask job := ⟨rfl, rfl⟩

theorem Job.SameTask.trans {job job' job'' : Job} (h : job.SameTask job')
    (h' : job'.SameTask job'') : job.SameTask job'' :=
  ⟨h'.1.trans h.1, h'.2.trans h.2⟩

theorem Polls.tasks {todo : List Nat} {s s' : Scheduler} {changed : Bool}
    {polls : List (Nat × PollReply)} {r : Except Error Bool}
    (h : Polls todo s changed polls s' r) : Pointwise Job.SameTask s s' := by
  induction h with
  | done | failed => exact Pointwise.refl Job.SameTask.refl _
  | skip _ _ ih | waiting _ _ _ ih => exact ih
  | finished outcome at_i _ _ ih => exact ih.of_setJob at_i fun _ h => h

theorem Starts.tasks {todo : List Nat} {reserved : Finset String} {running : Nat}
    {s s' : Scheduler} {starts : List (Job × StartReply)} {r : Except Error Unit}
    (h : Starts todo reserved running s starts s' r) : Pointwise Job.SameTask s s' := by
  induction h with
  | done | full => exact Pointwise.refl Job.SameTask.refl _
  | skip _ _ _ ih => exact ih
  | unsaved now e _ at_i _ => exact Pointwise.setJob Job.SameTask.refl at_i ⟨rfl, rfl⟩
  | refusedUnsaved now e later e' _ at_i _ =>
      exact Pointwise.setJob Job.SameTask.refl at_i ⟨rfl, rfl⟩
  | started now _ at_i _ _ ih => exact ih.of_setJob at_i fun _ h => h
  | refused now e later _ at_i _ _ ih => exact ih.of_setJob at_i fun _ h => h

theorem Ticks.tasks {s s₁ s' : Scheduler} {polls : List (Nat × PollReply)}
    {starts : List (Job × StartReply)} {r : Except Error Unit}
    (h : Ticks s s₁ polls starts s' r) : Pointwise Job.SameTask s s' := by
  obtain ⟨⟨_, hpolls⟩, ⟨_, rfl, _⟩ | hgo⟩ := h
  · exact hpolls.tasks
  · exact hpolls.tasks.trans hgo.tasks fun _ _ _ => Job.SameTask.trans

/-- Every job of `m'` is one of `m` or has a new id. -/
structure Tasks (m m' : Store) : Prop where
  nextId : m.nextId ≤ m'.nextId
  jobs : ∀ job' ∈ m'.jobs, (∃ job ∈ m.jobs, job.SameTask job') ∨ m.nextId < job'.id

namespace Tasks

variable {m m' m'' : Store}

theorem of_subset (hnext : m.nextId ≤ m'.nextId) (hjobs : ∀ job ∈ m'.jobs, job ∈ m.jobs) :
    Tasks m m' :=
  ⟨hnext, fun job hj => Or.inl ⟨job, hjobs job hj, Job.SameTask.refl job⟩⟩

theorem refl (m : Store) : Tasks m m := of_subset (Nat.le_refl _) fun _ hj => hj

theorem trans (h : Tasks m m') (h' : Tasks m' m'') : Tasks m m'' := by
  refine ⟨Nat.le_trans h.nextId h'.nextId, fun job'' hj'' => ?_⟩
  rcases h'.jobs job'' hj'' with ⟨job', hj', hsame'⟩ | hlt
  · rcases h.jobs job' hj' with ⟨job, hj, hsame⟩ | hlt
    · exact Or.inl ⟨job, hj, hsame.trans hsame'⟩
    · exact Or.inr (hsame'.1 ▸ hlt)
  · exact Or.inr (Nat.lt_of_le_of_lt h.nextId hlt)

theorem of_submits {owner : Owner} {s s' : Scheduler} {r : Except Error Job}
    (h : Submits owner s s' r) : Tasks s.store s'.store := by
  cases h with
  | refused e => exact refl _
  | unsaved e => exact of_subset (Nat.le_succ _) fun _ hj => hj
  | accepted job hid howner fresh =>
      have hlt : s.store.nextId < job.id := by omega
      refine ⟨Nat.le_of_lt hlt, fun job' hj => ?_⟩
      rcases List.mem_append.mp hj with hj | hj
      · exact Or.inl ⟨job', hj, Job.SameTask.refl job'⟩
      · exact Or.inr (List.mem_singleton.mp hj ▸ hlt)

theorem of_cancels {id : Nat} {s s' : Scheduler} (h : Cancels id s s') :
    Tasks s.store s'.store := by
  cases h with
  | same => exact refl _
  | cancelled now at_i hid pending =>
      refine ⟨Nat.le_refl _, fun job' hj => ?_⟩
      rcases Store.mem_setJob hj with rfl | hj
      · exact Or.inl ⟨_, List.mem_of_getElem? at_i, rfl, rfl⟩
      · exact Or.inl ⟨job', hj, Job.SameTask.refl job'⟩

/-- The job with an id is the same one as before. -/
theorem same (h : Tasks m m') (hm : m.Ordered) {job job' : Job} (hj : job ∈ m.jobs)
    (hj' : job' ∈ m'.jobs) (hid : job'.id = job.id) : job.SameTask job' := by
  rcases h.jobs job' hj' with ⟨old, hold, hsame⟩ | hlt
  · have heq : old = job := hm.eq_of_id hold hj (hsame.1.symm.trans hid)
    exact heq ▸ hsame
  · have hle := hm.bounded job hj
    omega

end Tasks

/-! ## One operation -/

/-- What every operation keeps. -/
structure Persists (s s' : Scheduler) : Prop where
  devices : s'.inventory.devices = s.inventory.devices
  maxRunning : s'.maxRunning = s.maxRunning
  ordered : s.store.Ordered → s'.store.Ordered
  tasks : Tasks s.store s'.store

theorem Persists.refl (s : Scheduler) : Persists s s := ⟨rfl, rfl, id, Tasks.refl _⟩

theorem Persists.trans {s s' s'' : Scheduler} (h : Persists s s') (h' : Persists s' s'') :
    Persists s s'' where
  devices := h'.devices.trans h.devices
  maxRunning := h'.maxRunning.trans h.maxRunning
  ordered hord := h'.ordered (h.ordered hord)
  tasks := h.tasks.trans h'.tasks

theorem Submits.persists {owner : Owner} {s s' : Scheduler} {r : Except Error Job}
    (h : Submits owner s s' r) : Persists s s' := by
  have hs := SameSettings.of_submits h
  have hevolves : Evolves [] (.submit .noop owner) s.store s'.store := Evolves.submit h
  exact ⟨hs.devices, hs.maxRunning, hevolves.ordered, Tasks.of_submits h⟩

theorem Submits.mem {owner : Owner} {s s' : Scheduler} {job : Job}
    (h : Submits owner s s' (.ok job)) : job ∈ s'.store.jobs := by
  cases h with
  | accepted => exact List.mem_append_right _ List.mem_cons_self

variable {ω : Env}

theorem SchedOp.persists (op : SchedOp) (st : Scheduler × Calls) :
    Persists st.1 (op.run ω st).1 := by
  -- Only `submit` brings in a job, and no operation changes what a job asks for.
  cases op with
  | submit spec owner =>
      have h := wp_oracle.mp (submit_submits spec owner :
        wp (Prog.Spec.oracle Scheduler ω) _ _ st.1 st.2)
      exact h.persists
  | cancel id =>
      have h := wp_oracle.mp (cancel_cancels id : wp (Prog.Spec.oracle Scheduler ω) _ _ st.1 st.2)
      have hs := SameSettings.of_cancels h
      have hevolves : Evolves [] (.cancel id) st.1.store _ := Evolves.cancel h
      exact ⟨hs.devices, hs.maxRunning, hevolves.ordered, Tasks.of_cancels h⟩
  | tick =>
      obtain ⟨own, _, hticks⟩ := tick_ticks ω st.1 st.2
      have hs := hticks.jobsOnly
      have hids := hticks.tasks.ids fun _ _ h => h.1
      refine ⟨congrArg Inventory.devices hs.inventory, hs.maxRunning,
        fun hord => hord.of_ids hids (Nat.le_of_eq hs.nextId.symm),
        Nat.le_of_eq hs.nextId.symm, fun job' hj => Or.inl ?_⟩
      exact hticks.tasks.mem hj
  | setDevicesExcluded ids excluded =>
      obtain ⟨hstore, hinventory, hmax⟩ := wp_oracle.mp (setDevicesExcluded_store ids excluded :
        wp (Prog.Spec.oracle Scheduler ω) _ _ st.1 st.2)
      exact ⟨congrArg Inventory.devices hinventory, hmax, fun hord => hstore ▸ hord,
        hstore ▸ Tasks.refl _⟩
  | cleanup timestamp =>
      have hs := cleanup_settings timestamp ω st.1 st.2
      have hstore : ((Xlurm.cleanup timestamp st.1).run ω st.2).state.store = st.1.store ∨
          ((Xlurm.cleanup timestamp st.1).run ω st.2).state.store =
            st.1.store.retain (st.1.store.expired timestamp) := by
        rcases wp_oracle.mp (cleanup_store timestamp :
          wp (Prog.Spec.oracle Scheduler ω) _ _ st.1 st.2) with hstate | hstate
        · exact Or.inl (congrArg Scheduler.store hstate)
        · exact Or.inr (congrArg Scheduler.store hstate)
      refine ⟨hs.devices, hs.maxRunning, fun hord => ?_, ?_⟩
      · rcases hstore with hstore | hstore
        · exact hstore ▸ hord
        · exact hstore ▸ hord.retain _
      · rcases hstore with hstore | hstore
        · exact hstore ▸ Tasks.refl _
        · exact hstore ▸ Tasks.of_subset (Nat.le_refl _) fun _ hj => (Store.mem_retain.mp hj).1
  | refresh status monitoringErrors => exact ⟨rfl, rfl, id, Tasks.refl _⟩

theorem runOps_persists (ops : List SchedOp) (st : Scheduler × Calls) :
    Persists st.1 (runOps ω ops st).1 := by
  induction ops generalizing st with
  | nil => exact Persists.refl _
  | cons op rest ih => exact (op.persists st).trans (ih (op.run ω st))

/-! ## The tick that starts the job -/

section Start

variable {s s' : Scheduler} {tr : Calls}

/-- A save or a poll that fails. -/
def Failed (c : Σ c : Call, c.Reply) : Prop :=
  (∃ store e, c = ⟨.save store, .error e⟩) ∨ ∃ id e, c = ⟨.poll id, .error e⟩

theorem failed_save {store : Store} (r : Except Error Unit) (e : Error) (hr : r = .error e) :
    Failed ⟨.save store, r⟩ := Or.inl ⟨store, e, by rw [hr]⟩

theorem failed_poll {id : Nat} (r : PollReply) (e : Error) (hr : r = .error e) :
    Failed ⟨.poll id, r⟩ := Or.inr ⟨id, e, by rw [hr]⟩

theorem save_failsBy : FailsBy Failed save :=
  FailsBy.get.bind fun _ => FailsBy.reply failed_save

theorem pollJobs_failsBy (todo : List Nat) (changed : Bool) :
    FailsBy Failed (pollJobs todo changed) := by
  induction todo generalizing changed with
  | nil => exact FailsBy.pure _
  | cons i rest ih =>
      refine FailsBy.get.bind fun s => ?_
      split
      · exact ih _
      · split
        · refine FailsBy.call_lift failed_poll fun outcome => ?_
          cases outcome with
          | none => exact ih _
          | some outcome => exact (FailsBy.modify _).bind fun _ => ih _
        · exact ih _

theorem startJobs_failsBy (todo : List Nat) (reserved : Finset String) (running : Nat) :
    FailsBy Failed (startJobs todo reserved running) := by
  induction todo generalizing reserved running with
  | nil => exact FailsBy.pure _
  | cons i rest ih =>
      refine FailsBy.get.bind fun s => ?_
      split
      · exact FailsBy.pure _
      · split
        · exact ih _ _
        · split
          · exact ih _ _
          · refine (FailsBy.call _).bind fun _ => (FailsBy.modify _).bind fun _ =>
              save_failsBy.bind fun _ => (FailsBy.call _).bind fun reply => ?_
            -- A refused start is recorded; it does not end the tick.
            cases reply with
            | ok => exact ih _ _
            | error e =>
                exact (FailsBy.call _).bind fun _ => (FailsBy.modify _).bind fun _ =>
                  save_failsBy.bind fun _ => ih _ _

/-- A tick fails only when a save or a poll fails. -/
theorem tick_failsBy : FailsBy Failed tick := by
  refine FailsBy.get.bind fun s => (pollJobs_failsBy _ _).bind fun changed => ?_
  have hgo : FailsBy Failed (do
      let s ← get
      startJobs (pendingOrder s.store) s.reserved (runningCount s.store)) :=
    FailsBy.get.bind fun s => startJobs_failsBy _ _ _
  cases changed with
  | false => exact hgo
  | true => exact save_failsBy.bind fun _ => hgo

/-- Without running jobs nothing is polled. -/
theorem Polls.none_running {todo : List Nat} {changed : Bool} {polls : List (Nat × PollReply)}
    {r : Except Error Bool} (h : Polls todo s changed polls s' r)
    (hnone : ∀ job ∈ s.store.jobs, job.state ≠ .running) : s' = s ∧ polls = [] := by
  induction h with
  | done => exact ⟨rfl, rfl⟩
  | skip _ _ ih => exact ih hnone
  | failed _ at_i running => exact absurd running (hnone _ (List.mem_of_getElem? at_i))
  | waiting at_i running => exact absurd running (hnone _ (List.mem_of_getElem? at_i))
  | finished _ at_i running => exact absurd running (hnone _ (List.mem_of_getElem? at_i))

/-- On an idle machine only the excluded devices are reserved. -/
theorem reserved_of_idle (hnone : ∀ job ∈ s.store.jobs, job.state ≠ .running)
    (hidle : ∀ device ∈ s.inventory.devices, s.inventory.status device.key = some "idle") :
    s.reserved = s.excludedDevices := by
  have hkeys : runningKeys s.store.jobs = [] := by
    rw [runningKeys, List.filter_eq_nil_iff.mpr]
    · rfl
    · intro job hj
      simpa using hnone job hj
  have hbusy : (s.inventory.devices.filter fun device =>
      (s.inventory.status device.key).all (· != "idle")) = [] := by
    rw [List.filter_eq_nil_iff]
    intro device hdevice
    simp [hidle device hdevice]
  rw [Scheduler.reserved, hkeys, hbusy]
  simp

theorem runningCount_of_none (hnone : ∀ job ∈ s.store.jobs, job.state ≠ .running) :
    runningCount s.store = 0 := by
  rw [runningCount, List.filter_eq_nil_iff.mpr]
  · rfl
  · intro job hj
    simpa using hnone job hj

/-- The first job of the queue starts if it fits. -/
theorem Starts.first {i : Nat} {rest : List Nat} {reserved : Finset String} {running : Nat}
    {starts : List (Job × StartReply)} {job : Job}
    (h : Starts (i :: rest) reserved running s starts s' (.ok ())) (hi : s.store.jobs[i]? = some job)
    (hnotMem : i ∉ rest) (hroom : running < s.maxRunning)
    (hfits : (allocate job.spec s.inventory.devices reserved).isSome)
    (hstart : ∀ started r, (started, r) ∈ starts → started.id = job.id → r = .ok ()) :
    ∃ devices now, allocate job.spec s.inventory.devices reserved = some devices ∧
      s'.store.jobs[i]? = some (job.marked devices now) := by
  have hlt := (List.getElem?_eq_some_iff.mp hi).choose
  have hsame : ∀ {job'}, s.store.jobs[i]? = some job' → job' = job :=
    fun hi' => Option.some.inj (hi'.symm.trans hi)
  cases h with
  | full hfull => omega
  | skip _ hnone _ =>
      rw [hnone job hi] at hfits
      cases hfits
  | @started _ _ _ _ _ job' devices _ _ _ now _ at_i free go =>
      obtain rfl := hsame at_i
      refine ⟨devices, now, free, (go.untouched hnotMem).trans ?_⟩
      exact List.getElem?_set_self hlt
  | @refused _ _ _ _ _ job' devices _ _ _ now e later _ at_i free go =>
      obtain rfl := hsame at_i
      cases hstart _ _ List.mem_cons_self rfl

end Start

/-! ## What an allocation is good for -/

/-- These devices, none of them reserved, are what the submission asks for. -/
structure Serves (devices : List Device) (reserved : Finset String) (spec : Submission)
    (selected : List Device) : Prop where
  nodup : selected.Nodup
  free : ∀ device ∈ selected, device ∈ devices ∧ device.key ∉ reserved
  oneKind : ∃ kind, spec.Allows kind ∧ ∀ device ∈ selected, device.kind = kind
  count : selected.length = spec.count
  permitted : ∀ device ∈ selected, device.id ∉ spec.excludeDeviceIds
  exactly : ∀ ids, spec.deviceIds = some ids → selected.map (·.id) = ids

theorem allows_of_matching {spec : Submission} {devices : List Device} {kind : Kind}
    (h : kind ∈ matchingKinds spec devices) : spec.Allows kind := by
  have hall := (List.mem_filter.mp (List.mem_filter.mp h).1).2
  intro wanted hwanted
  rw [hwanted] at hall
  exact eq_of_beq hall

variable {s : Scheduler} {spec spec' : Submission} {reserved : Finset String}
  {selected : List Device}

/-- What the accepted submission allows, the submitted one does. -/
theorem Resolved.allows (h : Resolved s spec spec') {kind : Kind} (hallows : spec'.Allows kind) :
    spec.Allows kind := by
  cases hids : spec.deviceIds with
  | none =>
      rw [Submission.Allows, ← h.unpinned hids]
      exact hallows
  | some ids =>
      obtain ⟨pinned, hmem, hkind⟩ := h.pinned ids hids
      exact hallows pinned hkind ▸ allows_of_matching hmem

theorem Resolved.serves (h : Resolved s spec spec')
    (hkeys : (s.inventory.devices.map Device.key).Nodup)
    (halloc : allocate spec' s.inventory.devices reserved = some selected) :
    Serves s.inventory.devices reserved spec selected where
  nodup := by
    refine allocate_nodup hkeys (fun ids hids => ?_) halloc
    exact h.distinct ids (h.deviceIds ▸ hids)
  free := by
    obtain ⟨_, hall⟩ := allocate_devices halloc
    exact fun device hdevice => ⟨(hall device hdevice).1, (hall device hdevice).2.1⟩
  oneKind := by
    obtain ⟨kind, hallows, hkind⟩ := allocate_allowed halloc
    exact ⟨kind, h.allows hallows, hkind⟩
  count := (allocate_length halloc h.sized).trans h.count
  permitted := by
    cases hids : spec.deviceIds with
    | some ids =>
        rw [h.exclusive ids hids]
        exact fun device _ => List.not_mem_nil
    | none =>
        obtain ⟨kind, _, rfl⟩ := (allocate_any_iff (h.deviceIds.trans hids)).mp halloc
        intro device hdevice
        have husable := of_decide_eq_true (List.mem_filter.mp (List.mem_of_mem_take hdevice)).2
        exact h.excludeDeviceIds ▸ husable.2.2
  exactly ids hids := by
    obtain ⟨kind, _, hall⟩ := (allocate_exact_iff (h.deviceIds.trans hids)).mp halloc
    exact (selected_ids hall).1

/-- Exact ids are served with the kind that was pinned. -/
theorem Resolved.pinned_kind (h : Resolved s spec spec') {ids : List Nat}
    (hids : spec.deviceIds = some ids)
    (halloc : allocate spec' s.inventory.devices reserved = some selected) :
    ∃ kind, spec'.kind = some kind ∧ ∀ device ∈ selected, device.kind = kind := by
  obtain ⟨pinned, _, hpinned⟩ := h.pinned ids hids
  obtain ⟨kind, hallows, hkind⟩ := allocate_allowed halloc
  exact ⟨pinned, hpinned, fun device hdevice => (hallows pinned hpinned) ▸ hkind device hdevice⟩

/-! ## The main result -/

/-- No job runs and every device is reported idle. -/
structure Scheduler.Idle (s : Scheduler) : Prop where
  none_running : ∀ job ∈ s.store.jobs, job.state ≠ .running
  idle : ∀ device ∈ s.inventory.devices, s.inventory.status device.key = some "idle"

/-- A tick on an idle machine starts the job at the head of the queue if it fits. -/
theorem tick_starts_first {s : Scheduler} {tr own : Calls} {i : Nat} {rest : List Nat} {job : Job}
    (hidle : s.Idle) (hqueue : pendingOrder s.store = i :: rest)
    (hi : s.store.jobs[i]? = some job) (hpos : 0 < s.maxRunning)
    (hfits : (allocate job.spec s.inventory.devices s.excludedDevices).isSome)
    (hown : ((tick s).run ω tr).trace = tr ++ own)
    (hsaves : ∀ store r, ⟨.save store, r⟩ ∈ own → r = .ok ())
    (hstart : ∀ started r, ⟨.start started, r⟩ ∈ own → started.id = job.id → r = .ok ()) :
    ∃ devices now, allocate job.spec s.inventory.devices s.excludedDevices = some devices ∧
      ((tick s).run ω tr).state.store.jobs[i]? = some (job.marked devices now) := by
  obtain ⟨own', hown', hticks⟩ := tick_ticks ω s tr
  obtain rfl : own = own' := List.append_cancel_left (hown.symm.trans hown')
  obtain ⟨_, hpolls⟩ := hticks.polls
  obtain ⟨hsame, hnopolls⟩ := hpolls.none_running hidle.none_running
  -- Nothing is polled and every save succeeds, so the tick does not fail.
  have hok : ((tick s).run ω tr).value = .ok () := by
    obtain ⟨own', hown', hfails⟩ := tick_failsBy ω s tr
    obtain rfl : own = own' := List.append_cancel_left (hown.symm.trans hown')
    cases hvalue : ((tick s).run ω tr).value with
    | ok => rfl
    | error e =>
        obtain ⟨c, hc, ⟨store, e', rfl⟩ | ⟨id, e', rfl⟩⟩ := hfails e hvalue
        · cases hsaves store _ hc
        · have hpolled := mem_pollCalls.mpr hc
          rw [hnopolls] at hpolled
          cases hpolled
  have hgo : Starts (i :: rest) s.excludedDevices 0 s (startCalls own) ((tick s).run ω tr).state
      (.ok ()) := by
    rcases hticks.starts with ⟨_, _, e, herror⟩ | hgo
    · rw [hok] at herror
      cases herror
    · rw [hsame, hok, hqueue, reserved_of_idle hidle.none_running hidle.idle,
        runningCount_of_none hidle.none_running] at hgo
      exact hgo
  have hnotMem : i ∉ rest := (List.nodup_cons.mp (hqueue ▸ pendingOrder_nodup s.store)).1
  exact hgo.first hi hnotMem hpos hfits fun started r hmem =>
    hstart started r (mem_startCalls.mp hmem)

/-- For a daemon on any `state.json` that the program wrote, after any operations, and
    for any submission.  If it is accepted: in every later state in which the machine is
    idle, no more devices are excluded and the job is next, a tick whose saves and whose
    start of the job succeed makes it run on devices that serve the submission; with exact
    ids these are of the kind that was pinned.  If no enabled devices serve the
    submission, it is refused. -/
theorem accepted_can_run (euid : Nat) (actions : List Action) (inventory : UniqueInventory)
    (maxRunning : Nat) (s₀ : Scheduler)
    (hnew : Scheduler.new (((System.init.run euid actions).world.file .state).map (·.data))
      inventory.toInventory maxRunning = .ok s₀)
    (ω : Env) (earlier : List SchedOp) (spec : Submission) (owner : Owner) :
    let s := (runOps ω earlier (s₀, [])).1
    let done := (submit spec owner s).run ω (runOps ω earlier (s₀, [])).2
    (∀ job, done.value = .ok job → ∀ (later : List SchedOp) (own : Calls) i rest pending,
      let st := runOps ω later (done.state, done.trace)
      let ticked := (tick st.1).run ω st.2
      st.1.Idle → st.1.excludedDevices ⊆ s.excludedDevices →
      pendingOrder st.1.store = i :: rest → st.1.store.jobs[i]? = some pending →
      pending.id = job.id → ticked.trace = st.2 ++ own →
      (∀ store r, ⟨.save store, r⟩ ∈ own → r = .ok ()) →
      (∀ started r, ⟨.start started, r⟩ ∈ own → started.id = job.id → r = .ok ()) →
      ∃ running ∈ ticked.state.store.jobs, running.id = job.id ∧ running.state = .running ∧
        Serves inventory.devices st.1.excludedDevices spec running.devices ∧
        ∀ ids, spec.deviceIds = some ids →
          ∃ kind, job.spec.kind = some kind ∧ ∀ device ∈ running.devices, device.kind = kind) ∧
    ((∀ selected, ¬ Serves inventory.devices s.excludedDevices spec selected) →
      ∃ e, done.value = .error e) := by
  intro s done
  obtain ⟨hpos, hinventory, hmax, _⟩ := Scheduler.new_ok hnew
  have hordered₀ : s₀.store.Ordered := by
    rw [Scheduler.new_store hnew]
    exact (run_reach euid actions).inv.diskOrdered
  have hearlier : Persists s₀ s := runOps_persists earlier (s₀, [])
  have hdevices : s.inventory.devices = inventory.devices := by
    rw [hearlier.devices, hinventory]
  have hkeys : (s.inventory.devices.map Device.key).Nodup := hdevices ▸ inventory.nodup
  have hsubmits := wp_oracle.mp (submit_submits spec owner :
    wp (Prog.Spec.oracle Scheduler ω) _ _ s (runOps ω earlier (s₀, [])).2)
  have hadmitted := wp_oracle.mp (submit_accepts spec owner :
    wp (Prog.Spec.oracle Scheduler ω) _ _ s (runOps ω earlier (s₀, [])).2)
  constructor
  · intro job hjob later own i rest pending st ticked hidle hsub hqueue hi hid hown hsaves hstart
    have hadmit : Admitted s spec job.spec := (hadmitted job hjob).admitted
    have hpush : job ∈ done.state.store.jobs := Submits.mem (hjob ▸ hsubmits)
    have hlater : Persists done.state st.1 := runOps_persists later (done.state, done.trace)
    have hkept : Persists s st.1 := hsubmits.persists.trans hlater
    -- The waiting job is the accepted one.
    have hordered : done.state.store.Ordered :=
      hsubmits.persists.ordered (hearlier.ordered hordered₀)
    obtain ⟨_, hspec⟩ := hlater.tasks.same hordered hpush (List.mem_of_getElem? hi) hid
    have hroom : (allocate pending.spec st.1.inventory.devices st.1.excludedDevices).isSome := by
      rw [hspec, hkept.devices]
      exact allocate_antitone hsub hadmit.room
    have hmax' : st.1.maxRunning = maxRunning := by
      rw [hkept.maxRunning, hearlier.maxRunning, hmax]
    obtain ⟨devices, now, halloc, hrunning⟩ := tick_starts_first hidle hqueue hi
      (hmax' ▸ hpos) hroom hown hsaves (fun started r hmem h => hstart started r hmem (h.trans hid))
    rw [hspec, hkept.devices] at halloc
    refine ⟨pending.marked devices now, List.mem_of_getElem? hrunning, hid, rfl, ?_, ?_⟩
    · exact hdevices ▸ hadmit.serves hkeys halloc
    · exact fun ids hids => hadmit.pinned_kind hids halloc
  · intro hnone
    cases hvalue : done.value with
    | error e => exact ⟨e, rfl⟩
    | ok job =>
        have hadmit : Admitted s spec job.spec := (hadmitted job hvalue).admitted
        obtain ⟨selected, halloc⟩ := Option.isSome_iff_exists.mp hadmit.room
        exact absurd (hdevices ▸ hadmit.serves hkeys halloc) (hnone selected)

/-! ## A request for one device -/

/-- Device 0 of one of two vendors is requested by its id. -/
def Job.exact : Job where
  id := 1
  owner := ⟨1000, 1000, "user"⟩
  spec := { Submission.noop with count := 1, deviceIds := some [0], kind := some .ascend }
  state := .pending
  devices := []
  submittedAt := 5
  startedAt := none
  result := none

/-- A daemon of a machine with two devices. -/
def Scheduler.mixed (store : Store) : Scheduler := ⟨store, UniqueInventory.mixed.toInventory, 1, ∅⟩

set_option maxRecDepth 10000 in
theorem submit_exact :
    (submit Job.exact.spec Job.exact.owner (.mixed .default)).run instantWorkers [] =
      ⟨[⟨.isDir "/", true⟩, ⟨.now, 5⟩, ⟨.save ⟨1, [.exact]⟩, .ok ()⟩], .mixed ⟨1, [.exact]⟩,
        .ok .exact⟩ := rfl

theorem exact_idle : (Scheduler.mixed ⟨1, [.exact]⟩).Idle := by
  refine ⟨?_, fun _ _ => rfl⟩
  intro job hj
  rw [List.mem_singleton.mp hj]
  exact nofun

/-- It is accepted, and then gets the device. -/
theorem accepted_can_run_exact :
    let done := (submit Job.exact.spec Job.exact.owner (.mixed .default)).run instantWorkers []
    ∃ running ∈ ((tick done.state).run instantWorkers done.trace).state.store.jobs,
      running.state = .running ∧
        Serves UniqueInventory.mixed.devices ∅ Job.exact.spec running.devices := by
  have hrun := (accepted_can_run 0 [] UniqueInventory.mixed 1 (.mixed .default) rfl instantWorkers
    [] Job.exact.spec Job.exact.owner).1
  simp only [runOps, List.foldl_nil, submit_exact] at hrun ⊢
  obtain ⟨own, hown, hanswers⟩ := Prog.run_trace instantWorkers (tick (.mixed ⟨1, [.exact]⟩))
    [⟨.isDir "/", true⟩, ⟨.now, 5⟩, ⟨.save ⟨1, [.exact]⟩, .ok ()⟩]
  -- Every save and every start succeeds here.
  obtain ⟨running, hmem, _, hstate, hserves, _⟩ := hrun .exact rfl [] own 0 [] .exact exact_idle
    (Finset.Subset.refl _) rfl rfl rfl hown
    (fun store r hmem => (hanswers _ _ hmem).elim fun _ h => h)
    (fun started r hmem _ => (hanswers _ _ hmem).elim fun _ h => h)
  exact ⟨running, hmem, hstate, hserves⟩

end Xlurm
