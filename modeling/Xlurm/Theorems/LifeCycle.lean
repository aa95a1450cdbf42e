/-
  Xlurm.Theorems.LifeCycle

  The life of a job under the operations of one scheduler: which way its state
  may go, and how its fields agree with its state between two operations.
-/

import Xlurm.Model.Allocation
import Xlurm.Model.Queue
import Xlurm.Os.System
import Xlurm.Run.Ops

namespace Xlurm

open Prog.Comp

/-! ## Runs of operations -/

/-- The operations of `Scheduler` that its owner calls. -/
inductive SchedOp
  | submit (spec : Submission) (owner : Owner)
  | cancel (id : Nat)
  | tick
  | setDevicesExcluded (ids : List Nat) (excluded : Bool)
  | cleanup (timestamp : Nat)
  | refresh (status monitoringErrors : String → Option String)

/-- The scheduler and the calls made so far, after `x`. -/
def after {α : Type} (ω : Env) (x : Sched α) (st : Scheduler × Calls) : Scheduler × Calls :=
  (((x st.1).run ω st.2).state, ((x st.1).run ω st.2).trace)

def SchedOp.run (ω : Env) : SchedOp → Scheduler × Calls → Scheduler × Calls
  | submit spec owner => after ω (Xlurm.submit spec owner)
  | cancel id => after ω (Xlurm.cancel id)
  | tick => after ω Xlurm.tick
  | setDevicesExcluded ids excluded => after ω (Xlurm.setDevicesExcluded ids excluded)
  | cleanup timestamp => after ω (Xlurm.cleanup timestamp)
  | refresh status monitoringErrors => after ω (modify fun s =>
      { s with inventory := { s.inventory with status, monitoringErrors } } : Sched Unit)

/-- The state after all the operations, whether they succeed or fail. -/
def runOps (ω : Env) (ops : List SchedOp) (st : Scheduler × Calls) : Scheduler × Calls :=
  ops.foldl (fun st op => op.run ω st) st

/-- A scheduler without a `state.json`. -/
def Scheduler.fresh (inventory : Inventory) (maxRunning : Nat) (excludedDevices : Finset String) :
    Scheduler :=
  ⟨Store.default, inventory, maxRunning, excludedDevices⟩

/-- Polls report only outcomes that a worker or `failure` builds. -/
def Env.Honest (ω : Env) : Prop :=
  ∀ tr id outcome, ω tr (.poll id) = .ok (some outcome) → outcome.Produced

/-! ## Moves of a job -/

namespace Job

/-- `allocate` gave these devices to the job. -/
def Allotted (job : Job) (devices : List Device) : Prop :=
  ∃ all reserved, allocate job.spec all reserved = some devices

/-- The four ways in which an operation, with the calls `own`, changes a job. -/
inductive Moves (own : Calls) : SchedOp → Job → Job → Prop
  | start {job devices} (now : Nat) (pending : job.state = .pending)
      (allotted : job.Allotted devices) : Moves own .tick job (job.marked devices now)
  | failedStart {job devices} (now : Nat) (e : Error) (later : Nat)
      (pending : job.state = .pending) (allotted : job.Allotted devices)
      (refused : ⟨.start (job.marked devices now), .error e⟩ ∈ own) :
      Moves own .tick job ((job.marked devices now).refused e later)
  | finish {job} (outcome : Outcome) (running : job.state = .running)
      (polled : ⟨.poll job.id, .ok (some outcome)⟩ ∈ own) (produced : outcome.Produced) :
      Moves own .tick job (job.finished outcome)
  | cancel {job} (now : Nat) (pending : job.state = .pending) :
      Moves own (.cancel job.id) job
        { job with state := .cancelled, result := some (cancelledOutcome now) }

/-- What never changes in the life of a job. -/
structure Keeps (job job' : Job) : Prop where
  id : job'.id = job.id
  owner : job'.owner = job.owner
  spec : job'.spec = job.spec
  submittedAt : job'.submittedAt = job.submittedAt
  started : job.state ≠ .pending →
    job'.devices = job.devices ∧ job'.startedAt = job.startedAt ∧ job'.state ≠ .pending
  terminal : job.state.terminal = true → job' = job

/-- How the fields of a job agree with its state. -/
structure WellFormed (job : Job) : Prop where
  pending : job.state = .pending →
    job.devices = [] ∧ job.startedAt = none ∧ job.result = none
  running : job.state = .running →
    job.startedAt.isSome ∧ job.result = none ∧ job.devices.length = job.spec.count ∧
      ∃ kind, ∀ device ∈ job.devices, device.kind = kind
  terminal : job.state.terminal = true →
    ∃ outcome, job.result = some outcome ∧ outcome.state = job.state ∧
      (outcome.exitCode = 0 ↔ job.state = .completed)
  sized : job.spec.Sized

namespace Keeps

theorem refl (job : Job) : job.Keeps job :=
  ⟨rfl, rfl, rfl, rfl, fun h => ⟨rfl, rfl, h⟩, fun _ => rfl⟩

theorem trans {job job' job'' : Job} (h : job.Keeps job') (h' : job'.Keeps job'') :
    job.Keeps job'' where
  id := h'.id.trans h.id
  owner := h'.owner.trans h.owner
  spec := h'.spec.trans h.spec
  submittedAt := h'.submittedAt.trans h.submittedAt
  started hstate := by
    obtain ⟨hdevices, hstarted, hstate'⟩ := h.started hstate
    obtain ⟨hdevices', hstarted', hstate''⟩ := h'.started hstate'
    exact ⟨hdevices'.trans hdevices, hstarted'.trans hstarted, hstate''⟩
  terminal hterm := by
    have heq := h.terminal hterm
    subst heq
    exact h'.terminal hterm

end Keeps

theorem Fresh.wellFormed {job : Job} (h : job.Fresh) : job.WellFormed where
  pending _ := ⟨h.devices, h.startedAt, h.result⟩
  running hrun := by
    rw [h.pending] at hrun
    cases hrun
  terminal hterm := by
    rw [h.pending] at hterm
    cases hterm
  sized := h.sized

/-- The devices of an allocation are as many as requested and of one kind. -/
theorem WellFormed.allotted {job : Job} {devices : List Device} (h : job.WellFormed)
    (hall : job.Allotted devices) :
    devices.length = job.spec.count ∧ ∃ kind, ∀ device ∈ devices, device.kind = kind := by
  obtain ⟨all, reserved, halloc⟩ := hall
  obtain ⟨kind, hkind⟩ := allocate_devices halloc
  exact ⟨allocate_length halloc h.sized, kind, fun device hdevice => (hkind device hdevice).2.2⟩

namespace Moves

variable {own own' : Calls} {op : SchedOp} {job job' : Job}

theorem keeps (h : Moves own op job job') : job.Keeps job' := by
  have hpend : job.state = .pending → ¬ job.state.terminal = true := by
    intro hpend hterm
    rw [hpend] at hterm
    cases hterm
  cases h with
  | start now pending | failedStart now e later pending | cancel now pending =>
      exact ⟨rfl, rfl, rfl, rfl, fun h => absurd pending h, fun h => absurd h (hpend pending)⟩
  | finish outcome running polled produced =>
      refine ⟨rfl, rfl, rfl, rfl, fun _ => ⟨rfl, rfl, ?_⟩, fun hterm => ?_⟩
      · intro hstate
        have hterm := produced.sound.terminal
        rw [show outcome.state = .pending from hstate] at hterm
        cases hterm
      · rw [running] at hterm
        cases hterm

/-- A changed job is not pending any more. -/
theorem not_pending (h : Moves own op job job') : job'.state ≠ .pending := by
  cases h with
  | start | failedStart | cancel => exact State.noConfusion
  | finish outcome running polled produced =>
      intro hstate
      have hterm := produced.sound.terminal
      rw [show outcome.state = .pending from hstate] at hterm
      cases hterm

theorem wellFormed (h : Moves own op job job') (hwf : job.WellFormed) : job'.WellFormed := by
  cases h with
  | start now pending allotted =>
      obtain ⟨hlen, hkind⟩ := hwf.allotted allotted
      obtain ⟨_, _, hresult⟩ := hwf.pending pending
      exact ⟨by rintro ⟨⟩, fun _ => ⟨rfl, hresult, hlen, hkind⟩, by rintro ⟨⟩, hwf.sized⟩
  | failedStart now e later pending allotted refused =>
      have hsound := (Outcome.Produced.failure e later).sound
      exact ⟨by rintro ⟨⟩, by rintro ⟨⟩, fun _ => ⟨_, rfl, rfl, hsound.exitCode⟩, hwf.sized⟩
  | finish outcome running polled produced =>
      have hsound := produced.sound
      refine ⟨?_, ?_, fun _ => ⟨_, rfl, rfl, hsound.exitCode⟩, hwf.sized⟩
      · intro hstate
        have hterm := hsound.terminal
        rw [show outcome.state = .pending from hstate] at hterm
        cases hterm
      · intro hstate
        have hterm := hsound.terminal
        rw [show outcome.state = .running from hstate] at hterm
        cases hterm
  | cancel now pending =>
      have hsound := (Outcome.Produced.cancelled now).sound
      exact ⟨by rintro ⟨⟩, by rintro ⟨⟩, fun _ => ⟨_, rfl, rfl, hsound.exitCode⟩, hwf.sized⟩

end Moves

end Job

/-! ## The jobs of a scheduler, position by position -/

/-- The jobs of `s'` are those of `s`, each changed as `R` allows. -/
structure Pointwise (R : Job → Job → Prop) (s s' : Scheduler) : Prop where
  length : s'.store.jobs.length = s.store.jobs.length
  jobs : ∀ (i : Nat) (job' : Job), s'.store.jobs[i]? = some job' →
    ∃ job, s.store.jobs[i]? = some job ∧ R job job'

namespace Pointwise

variable {R S T : Job → Job → Prop} {s s' s'' : Scheduler} {i : Nat} {job job₁ : Job}

theorem refl (hR : ∀ job, R job job) (s : Scheduler) : Pointwise R s s :=
  ⟨rfl, fun _ job' hi => ⟨job', hi, hR job'⟩⟩

theorem trans (h : Pointwise R s s') (h' : Pointwise S s' s'')
    (hT : ∀ job job' job'', R job job' → S job' job'' → T job job'') : Pointwise T s s'' := by
  refine ⟨h'.length.trans h.length, ?_⟩
  intro i job'' hi''
  obtain ⟨job', hi', hS⟩ := h'.jobs i job'' hi''
  obtain ⟨job, hi, hR⟩ := h.jobs i job' hi'
  exact ⟨job, hi, hT job job' job'' hR hS⟩

/-- A position was overwritten first. -/
theorem of_setJob (h : Pointwise R (s.setJob i job₁) s') (hi : s.store.jobs[i]? = some job)
    (hR : ∀ job', R job₁ job' → R job job') : Pointwise R s s' := by
  refine ⟨h.length.trans List.length_set, ?_⟩
  intro k job' hk
  obtain ⟨old, hold, hrel⟩ := h.jobs k job' hk
  have hlt := (List.getElem?_eq_some_iff.mp hi).choose
  by_cases heq : i = k
  · subst heq
    have hself : (s.setJob i job₁).store.jobs[i]? = some job₁ := List.getElem?_set_self hlt
    rw [hself] at hold
    cases hold
    exact ⟨job, hi, hR job' hrel⟩
  · have hother : (s.setJob i job₁).store.jobs[k]? = s.store.jobs[k]? := List.getElem?_set_ne heq
    exact ⟨old, hother ▸ hold, hrel⟩

theorem setJob (hR : ∀ job, R job job) (hi : s.store.jobs[i]? = some job) (hjob : R job job₁) :
    Pointwise R s (s.setJob i job₁) := by
  refine ⟨List.length_set, ?_⟩
  intro k job' hk
  have hlt := (List.getElem?_eq_some_iff.mp hi).choose
  by_cases heq : i = k
  · subst heq
    have hself : (s.setJob i job₁).store.jobs[i]? = some job₁ := List.getElem?_set_self hlt
    rw [hself] at hk
    cases hk
    exact ⟨job, hi, hjob⟩
  · have hother : (s.setJob i job₁).store.jobs[k]? = s.store.jobs[k]? := List.getElem?_set_ne heq
    exact ⟨job', hother ▸ hk, hR job'⟩

theorem mem (h : Pointwise R s s') {job' : Job} (hj : job' ∈ s'.store.jobs) :
    ∃ job ∈ s.store.jobs, R job job' := by
  obtain ⟨i, hi⟩ := List.mem_iff_getElem?.mp hj
  obtain ⟨job, hjob, hR⟩ := h.jobs i job' hi
  exact ⟨job, List.mem_of_getElem? hjob, hR⟩

theorem ids (h : Pointwise R s s') (hid : ∀ job job', R job job' → job'.id = job.id) :
    s'.store.jobs.map (·.id) = s.store.jobs.map (·.id) := by
  refine List.ext_getElem (by simpa using h.length) ?_
  intro i hi' hi
  rw [List.length_map] at hi hi'
  obtain ⟨job, hjob, hR⟩ := h.jobs i _ (List.getElem?_eq_getElem hi')
  rw [List.getElem?_eq_getElem hi] at hjob
  cases hjob
  rw [List.getElem_map, List.getElem_map]
  exact hid _ _ hR

end Pointwise

/-! ## The moves of a tick -/

section Tick

variable {own : Calls} {s s' : Scheduler}

/-- A job after polling: recorded if its outcome was polled. -/
def Job.Recorded (own : Calls) (job job' : Job) : Prop :=
  job' = job ∨ ∃ outcome : Outcome, job.state = .running ∧ outcome.Produced ∧
    ⟨.poll job.id, .ok (some outcome)⟩ ∈ own ∧ job' = job.finished outcome

/-- A job after the start loop: only a pending one may have moved. -/
def Job.Served (own : Calls) (job job' : Job) : Prop :=
  job' = job ∨ (job.state = .pending ∧ job.Moves own .tick job')

/-- A recorded job does not change any more. -/
theorem Job.Recorded.finished {job job' : Job} {outcome : Outcome} (hproduced : outcome.Produced)
    (h : (job.finished outcome).Recorded own job') : job' = job.finished outcome := by
  rcases h with h | ⟨_, hrun, _⟩
  · exact h
  · have hterm := hproduced.sound.terminal
    rw [show outcome.state = .running from hrun] at hterm
    cases hterm

theorem Polls.recorded {todo : List Nat} {changed : Bool} {polls : List (Nat × PollReply)}
    {r : Except Error Bool} (h : Polls todo s changed polls s' r)
    (hpolls : ∀ id outcome, (id, .ok (some outcome)) ∈ polls →
      ⟨.poll id, .ok (some outcome)⟩ ∈ own ∧ outcome.Produced) :
    Pointwise (Job.Recorded own) s s' := by
  have hrefl : ∀ job : Job, job.Recorded own job := fun _ => Or.inl rfl
  induction h with
  | done => exact Pointwise.refl hrefl _
  | failed => exact Pointwise.refl hrefl _
  | skip _ _ ih => exact ih hpolls
  | waiting _ _ _ ih =>
      exact ih fun id outcome hmem => hpolls id outcome (List.mem_cons_of_mem _ hmem)
  | @finished i rest s changed polls s' r job outcome at_i running _ ih =>
      obtain ⟨hmem, hproduced⟩ := hpolls job.id outcome List.mem_cons_self
      have hrest := ih fun id outcome hmem => hpolls id outcome (List.mem_cons_of_mem _ hmem)
      refine hrest.of_setJob at_i fun job' hrec => ?_
      exact Or.inr ⟨outcome, running, hproduced, hmem, hrec.finished hproduced⟩

/-- A job that was served keeps its place. -/
theorem Job.Served.moved {job job₁ job' : Job} (hpend : job.state = .pending)
    (hmove : job.Moves own .tick job₁) (h : job₁.Served own job') : job.Served own job' := by
  rcases h with rfl | ⟨hpend₁, _⟩
  · exact Or.inr ⟨hpend, hmove⟩
  · exact absurd hpend₁ hmove.not_pending

theorem Starts.served {todo : List Nat} {reserved : Finset String} {running : Nat}
    {starts : List (Job × StartReply)} {r : Except Error Unit}
    (h : Starts todo reserved running s starts s' r) (hq : Queued todo s)
    (hstarts : ∀ job r, (job, r) ∈ starts → ⟨.start job, r⟩ ∈ own) :
    Pointwise (Job.Served own) s s' := by
  have hrefl : ∀ job : Job, job.Served own job := fun _ => Or.inl rfl
  induction h with
  | done | full => exact Pointwise.refl hrefl _
  | skip _ _ _ ih => exact ih hq.tail hstarts
  | unsaved now e _ at_i free =>
      have hpend := hq.head at_i
      exact Pointwise.setJob hrefl at_i (Or.inr ⟨hpend, Job.Moves.start now hpend ⟨_, _, free⟩⟩)
  | started now _ at_i free _ ih =>
      have hpend := hq.head at_i
      have hrest := ih (hq.setJob _) fun job r hmem => hstarts job r (List.mem_cons_of_mem _ hmem)
      refine hrest.of_setJob at_i fun job' hserved => ?_
      exact hserved.moved hpend (Job.Moves.start now hpend ⟨_, _, free⟩)
  | refused now e later _ at_i free _ ih =>
      have hcall := hstarts _ _ List.mem_cons_self
      have hmove := Job.Moves.failedStart now e later (hq.head at_i) ⟨_, _, free⟩ hcall
      have hrest := ih (hq.setJob _) fun job r hmem => hstarts job r (List.mem_cons_of_mem _ hmem)
      exact hrest.of_setJob at_i fun job' hserved => hserved.moved (hq.head at_i) hmove
  | refusedUnsaved now e later e' _ at_i free =>
      have hcall := hstarts _ _ List.mem_cons_self
      have hmove := Job.Moves.failedStart now e later (hq.head at_i) ⟨_, _, free⟩ hcall
      exact Pointwise.setJob hrefl at_i (Or.inr ⟨hq.head at_i, hmove⟩)

/-- Over a whole tick a job moves at most once. -/
theorem Ticks.moved {s₁ : Scheduler} {r : Except Error Unit}
    (h : Ticks s s₁ (pollCalls own) (startCalls own) s' r)
    (hpolls : ∀ id outcome, ⟨.poll id, .ok (some outcome)⟩ ∈ own → outcome.Produced) :
    Pointwise (fun job job' => job' = job ∨ job.Moves own .tick job') s s' := by
  obtain ⟨⟨_, hpolled⟩, hgo⟩ := h
  have hrec : Pointwise (Job.Recorded own) s s₁ := hpolled.recorded fun id outcome hmem =>
    ⟨mem_pollCalls.mp hmem, hpolls id outcome (mem_pollCalls.mp hmem)⟩
  have hserved : Pointwise (Job.Served own) s₁ s' := by
    rcases hgo with ⟨_, rfl, _⟩ | hgo
    · exact Pointwise.refl (fun _ => Or.inl rfl) _
    · exact hgo.served (Queued.pendingOrder s₁) fun job r hmem => mem_startCalls.mp hmem
  refine hrec.trans hserved ?_
  rintro job job₁ job' (rfl | ⟨outcome, hrun, hproduced, hmem, rfl⟩) hserved
  · rcases hserved with rfl | ⟨_, hmove⟩
    · exact Or.inl rfl
    · exact Or.inr hmove
  · have hmove := Job.Moves.finish outcome hrun hmem hproduced
    rcases hserved with rfl | ⟨hpend, _⟩
    · exact Or.inr hmove
    · exact absurd hpend hmove.not_pending

end Tick

/-! ## One operation -/

/-- What an operation with the calls `own` does to the store: it changes jobs by moves,
    forgets some, and adds new ones with new ids. -/
structure Evolves (own : Calls) (op : SchedOp) (m m' : Store) : Prop where
  nextId : m.nextId ≤ m'.nextId
  ordered : m.Ordered → m'.Ordered
  jobs : ∀ job' ∈ m'.jobs, (∃ job ∈ m.jobs, job' = job ∨ job.Moves own op job') ∨
    (m.nextId < job'.id ∧ job'.Fresh ∧ ∃ spec, op = .submit spec job'.owner)

namespace Evolves

variable {own : Calls} {op : SchedOp} {m m' : Store}

theorem same (own : Calls) (op : SchedOp) (m : Store) : Evolves own op m m :=
  ⟨Nat.le_refl _, id, fun job' hj => Or.inl ⟨job', hj, Or.inl rfl⟩⟩

theorem submit {spec : Submission} {owner : Owner} {s s' : Scheduler} {r : Except Error Job}
    (h : Submits owner s s' r) : Evolves own (.submit spec owner) s.store s'.store := by
  cases h with
  | refused e => exact same _ _ _
  | unsaved e =>
      refine ⟨Nat.le_succ _, fun hord => ?_, fun job' hj => Or.inl ⟨job', hj, Or.inl rfl⟩⟩
      exact ⟨hord.increasing, fun job hj => Nat.le_succ_of_le (hord.bounded job hj)⟩
  | accepted job hid howner fresh =>
      have hlt : s.store.nextId < job.id := by omega
      refine ⟨Nat.le_of_lt hlt, fun hord => hord.push hid, fun job' hj => ?_⟩
      rcases List.mem_append.mp hj with hj | hj
      · exact Or.inl ⟨job', hj, Or.inl rfl⟩
      · obtain rfl := List.mem_singleton.mp hj
        exact Or.inr ⟨hlt, fresh, spec, by rw [howner]⟩

theorem cancel {id : Nat} {s s' : Scheduler} (h : Cancels id s s') :
    Evolves own (.cancel id) s.store s'.store := by
  cases h with
  | same => exact same _ _ _
  | @cancelled i job now at_i hid pending =>
      subst hid
      refine ⟨Nat.le_refl _, fun hord => hord.setJob at_i rfl, fun job' hj => ?_⟩
      rcases Store.mem_setJob hj with rfl | hj
      · exact Or.inl ⟨job, List.mem_of_getElem? at_i, Or.inr (Job.Moves.cancel now pending)⟩
      · exact Or.inl ⟨job', hj, Or.inl rfl⟩

theorem retain (op : SchedOp) (m : Store) (expired : List Nat) :
    Evolves own op m (m.retain expired) :=
  ⟨Nat.le_refl _, fun hord => hord.retain expired, fun job' hj =>
    Or.inl ⟨job', (Store.mem_retain.mp hj).1, Or.inl rfl⟩⟩

theorem tick {s s' : Scheduler} (hkept : JobsOnly s s')
    (h : Pointwise (fun job job' => job' = job ∨ job.Moves own .tick job') s s') :
    Evolves own .tick s.store s'.store := by
  refine ⟨Nat.le_of_eq hkept.nextId.symm, fun hord => ?_, fun job' hj => Or.inl (h.mem hj)⟩
  refine hord.of_ids (h.ids ?_) (Nat.le_of_eq hkept.nextId.symm)
  rintro job job' (rfl | hmove)
  · rfl
  · exact hmove.keeps.id

end Evolves

variable {ω : Env}

theorem SchedOp.evolves (hω : ω.Honest) (op : SchedOp) (st : Scheduler × Calls) :
    ∃ own, (op.run ω st).2 = st.2 ++ own ∧ Evolves own op st.1.store (op.run ω st).1.store := by
  have htrace : ∀ {α : Type} (x : Sched α), ∃ own, (after ω x st).2 = st.2 ++ own ∧
      ∀ i r, ⟨i, r⟩ ∈ own → ∃ tr, r = ω tr i :=
    fun x => Prog.run_trace ω (x st.1) st.2
  cases op with
  | submit spec owner =>
      obtain ⟨own, hown, _⟩ := htrace (Xlurm.submit spec owner)
      exact ⟨own, hown, Evolves.submit (wp_oracle.mp (submit_submits spec owner))⟩
  | cancel id =>
      obtain ⟨own, hown, _⟩ := htrace (Xlurm.cancel id)
      exact ⟨own, hown, Evolves.cancel (wp_oracle.mp (cancel_cancels id))⟩
  | tick =>
      obtain ⟨own, hown, hanswers⟩ := htrace Xlurm.tick
      obtain ⟨own', hown', hticks⟩ := tick_ticks ω st.1 st.2
      obtain rfl : own = own' := List.append_cancel_left (hown.symm.trans hown')
      refine ⟨own, hown, Evolves.tick hticks.jobsOnly (hticks.moved ?_)⟩
      -- What a worker reports is honest by assumption.
      intro id outcome hmem
      obtain ⟨tr, hreply⟩ := hanswers _ _ hmem
      exact hω tr id outcome hreply.symm
  | setDevicesExcluded ids excluded =>
      obtain ⟨own, hown, _⟩ := htrace (Xlurm.setDevicesExcluded ids excluded)
      have hstore := (wp_oracle.mp (setDevicesExcluded_store ids excluded :
        wp (Prog.Spec.oracle Scheduler ω) _ _ st.1 st.2)).1
      refine ⟨own, hown, ?_⟩
      show Evolves own _ st.1.store ((Xlurm.setDevicesExcluded ids excluded st.1).run ω st.2).state.store
      rw [hstore]
      exact Evolves.same _ _ _
  | cleanup timestamp =>
      obtain ⟨own, hown, _⟩ := htrace (Xlurm.cleanup timestamp)
      refine ⟨own, hown, ?_⟩
      show Evolves own _ st.1.store ((Xlurm.cleanup timestamp st.1).run ω st.2).state.store
      -- A cleanup that fails before the save leaves the store as it is.
      rcases wp_oracle.mp (cleanup_store timestamp :
        wp (Prog.Spec.oracle Scheduler ω) _ _ st.1 st.2) with hstate | hstate
      · rw [hstate]
        exact Evolves.same _ _ _
      · rw [hstate]
        exact Evolves.retain _ _ _
  | refresh status monitoringErrors =>
      exact ⟨[], (List.append_nil _).symm, Evolves.same _ _ _⟩

/-! ## Runs -/

/-- Ordered, and every job agrees with its state. -/
structure Store.Sound (m : Store) : Prop where
  ordered : m.Ordered
  wellFormed : ∀ job ∈ m.jobs, job.WellFormed

theorem Evolves.sound {own : Calls} {op : SchedOp} {m m' : Store} (h : Evolves own op m m')
    (hm : m.Sound) : m'.Sound := by
  refine ⟨h.ordered hm.ordered, fun job' hj => ?_⟩
  rcases h.jobs job' hj with ⟨job, hjob, rfl | hmove⟩ | ⟨_, fresh, _⟩
  · exact hm.wellFormed _ hjob
  · exact hmove.wellFormed (hm.wellFormed job hjob)
  · exact fresh.wellFormed

theorem runOps_sound (hω : ω.Honest) (ops : List SchedOp) (st : Scheduler × Calls)
    (hst : st.1.store.Sound) : (runOps ω ops st).1.store.Sound := by
  induction ops generalizing st with
  | nil => exact hst
  | cons op rest ih =>
      obtain ⟨own, _, hevolves⟩ := op.evolves hω st
      exact ih (op.run ω st) (hevolves.sound hst)

/-- Over any number of operations: every job is one of before or has a new id. -/
structure Lasting (m m' : Store) : Prop where
  nextId : m.nextId ≤ m'.nextId
  jobs : ∀ job' ∈ m'.jobs, (∃ job ∈ m.jobs, job.Keeps job') ∨ m.nextId < job'.id

namespace Lasting

variable {m m' m'' : Store}

theorem refl (m : Store) : Lasting m m :=
  ⟨Nat.le_refl _, fun job' hj => Or.inl ⟨job', hj, Job.Keeps.refl job'⟩⟩

theorem trans (h : Lasting m m') (h' : Lasting m' m'') : Lasting m m'' := by
  refine ⟨Nat.le_trans h.nextId h'.nextId, fun job'' hj'' => ?_⟩
  rcases h'.jobs job'' hj'' with ⟨job', hj', hkeeps'⟩ | hlt
  · rcases h.jobs job' hj' with ⟨job, hj, hkeeps⟩ | hlt
    · exact Or.inl ⟨job, hj, hkeeps.trans hkeeps'⟩
    · exact Or.inr (hkeeps'.id ▸ hlt)
  · exact Or.inr (Nat.lt_of_le_of_lt h.nextId hlt)

theorem of_evolves {own : Calls} {op : SchedOp} (h : Evolves own op m m') : Lasting m m' := by
  refine ⟨h.nextId, fun job' hj => ?_⟩
  rcases h.jobs job' hj with ⟨job, hjob, rfl | hmove⟩ | ⟨hlt, _⟩
  · exact Or.inl ⟨_, hjob, Job.Keeps.refl _⟩
  · exact Or.inl ⟨job, hjob, hmove.keeps⟩
  · exact Or.inr hlt

/-- A job is still the same one as long as it has its id. -/
theorem keeps (h : Lasting m m') (hm : m.Ordered) {job job' : Job} (hj : job ∈ m.jobs)
    (hj' : job' ∈ m'.jobs) (hid : job'.id = job.id) : job.Keeps job' := by
  rcases h.jobs job' hj' with ⟨old, hold, hkeeps⟩ | hlt
  · have heq : old = job := hm.eq_of_id hold hj (hkeeps.id.symm.trans hid)
    exact heq ▸ hkeeps
  · have hle := hm.bounded job hj
    omega

end Lasting

theorem runOps_lasting (hω : ω.Honest) (ops : List SchedOp) (st : Scheduler × Calls) :
    Lasting st.1.store (runOps ω ops st).1.store := by
  induction ops generalizing st with
  | nil => exact Lasting.refl _
  | cons op rest ih =>
      obtain ⟨own, _, hevolves⟩ := op.evolves hω st
      exact (Lasting.of_evolves hevolves).trans (ih (op.run ω st))

/-- After any operations of a fresh scheduler: the fields of every job agree with its
    state; the next operation adds fresh jobs and changes the others by the four
    moves at most; and whatever comes later, a job keeps its owner, spec and times,
    from its start on its devices, and once it is over everything. -/
theorem life_cycle (ω : Env) (hω : ω.Honest) (inventory : Inventory) (maxRunning : Nat)
    (excludedDevices : Finset String) (ops : List SchedOp) :
    let st := runOps ω ops (Scheduler.fresh inventory maxRunning excludedDevices, [])
    (∀ job ∈ st.1.store.jobs, job.WellFormed) ∧
    (∀ op : SchedOp, ∃ own, (op.run ω st).2 = st.2 ++ own ∧
      ∀ job' ∈ (op.run ω st).1.store.jobs,
        (∃ job ∈ st.1.store.jobs, job' = job ∨ job.Moves own op job') ∨
        ((∀ job ∈ st.1.store.jobs, job.id ≠ job'.id) ∧ job'.Fresh ∧
          ∃ spec, op = .submit spec job'.owner)) ∧
    (∀ later : List SchedOp, ∀ job ∈ st.1.store.jobs,
      ∀ job' ∈ (runOps ω later st).1.store.jobs, job'.id = job.id → job.Keeps job') := by
  intro st
  have hfresh : (Scheduler.fresh inventory maxRunning excludedDevices).store.Sound :=
    ⟨Store.Ordered.default, by rintro job ⟨⟩⟩
  have hsound : st.1.store.Sound := runOps_sound hω ops _ hfresh
  refine ⟨hsound.wellFormed, ?_, ?_⟩
  · intro op
    obtain ⟨own, hown, hevolves⟩ := op.evolves hω st
    refine ⟨own, hown, fun job' hj => ?_⟩
    rcases hevolves.jobs job' hj with hold | ⟨hlt, hnew⟩
    · exact Or.inl hold
    · refine Or.inr ⟨fun job hjob hid => ?_, hnew⟩
      have hle := hsound.ordered.bounded job hjob
      omega
  · intro later job hj job' hj' hid
    exact (runOps_lasting hω later st).keeps hsound.ordered hj hj' hid

/-! ## A run -/

/-- Workers finish at once and successfully. -/
def instantWorkers : Env := fun _ c =>
  match c with
  | .now => 5
  | .isDir _ => true
  | .save _ | .start _ | .cancel _ => .ok ()
  | .poll _ => .ok (some ⟨.completed, 0, 9, none⟩)
  | .readDir => .ok []
  | .removeFile _ | .openLog _ => .ok
  | .account _ _ => .ok "user"
  | .readLog _ _ _ => .ok []
  | .note _ => ()

theorem instantWorkers_honest : instantWorkers.Honest := by
  intro tr id outcome h
  have heq : (⟨.completed, 0, 9, none⟩ : Outcome) = outcome := Option.some.inj (Except.ok.inj h)
  subst heq
  exact Outcome.Produced.exited none (.exited 0) 9 (by rintro _ ⟨⟩)

/-- A job is submitted, started, and found to be completed. -/
theorem life_cycle_completed :
    let st := runOps instantWorkers [.submit .noop ⟨1000, 1000, "user"⟩, .tick, .tick]
      (Scheduler.fresh ⟨[], fun _ => none, fun _ => none⟩ 1 ∅, [])
    st.1.store.jobs.map (·.state) = [.completed] ∧ ∀ job ∈ st.1.store.jobs, job.WellFormed :=
  ⟨by decide, (life_cycle instantWorkers instantWorkers_honest _ 1 ∅ _).1⟩

end Xlurm
