/-
  Xlurm.Theorems.Progress

  Once nobody submits any more, the queue drains: as long as workers finish, every job
  that the enabled devices suffice for comes to its end, whatever its size and its place
  in the queue.

  The measure counts two for a pending job and one for a running one.  A tick that has
  nothing to wait for lowers it, and no operation but `submit` raises it.
-/

import Mathlib.Algebra.GroupWithZero.Nat
import Mathlib.Algebra.Order.BigOperators.Group.List
import Mathlib.Algebra.Order.Group.Nat
import Xlurm.Theorems.Runnable

namespace Xlurm

open Prog.Comp

/-! ## The measure -/

/-- The moves that are left for a job. -/
def Job.load (job : Job) : Nat :=
  match job.state with
  | .pending => 2
  | .running => 1
  | _ => 0

def Scheduler.load (s : Scheduler) : Nat := (s.store.jobs.map Job.load).sum

variable {s s₁ s' : Scheduler} {job job' : Job} {R : Job → Job → Prop} {ω : Env}

theorem Job.load_terminal (h : job.state.terminal = true) : job.load = 0 := by
  unfold load
  cases hstate : job.state with
  | pending | running =>
      rw [hstate] at h
      cases h
  | _ => rfl

theorem Outcome.Produced.load {outcome : Outcome} (h : outcome.Produced) :
    (job.finished outcome).load = 0 :=
  Job.load_terminal h.sound.terminal

theorem Job.Moves.load_lt {own : Calls} {op : SchedOp} (h : job.Moves own op job') :
    job'.load < job.load := by
  cases h with
  | start now pending => simp [load, marked, pending]
  | failedStart now e later pending => simp [load, refused, pending]
  | finish outcome running polled produced =>
      rw [produced.load]
      simp [load, running]
  | cancel now pending => simp [load, pending]

theorem sum_load_le {jobs jobs' : List Job} (hlength : jobs'.length = jobs.length)
    (hle : ∀ (i : Nat) (job' : Job), jobs'[i]? = some job' →
      ∃ job, jobs[i]? = some job ∧ job'.load ≤ job.load) :
    (jobs'.map Job.load).sum ≤ (jobs.map Job.load).sum ∧
      ((∃ (i : Nat) (job job' : Job), jobs[i]? = some job ∧ jobs'[i]? = some job' ∧
          job'.load < job.load) →
        (jobs'.map Job.load).sum < (jobs.map Job.load).sum) := by
  induction jobs' generalizing jobs with
  | nil =>
      refine ⟨Nat.zero_le _, ?_⟩
      rintro ⟨i, job, job', _, hi', _⟩
      cases hi'
  | cons first rest ih =>
      cases jobs with
      | nil => cases hlength
      | cons job jobs =>
          obtain ⟨hrest, hless⟩ := ih (Nat.succ.inj hlength) fun i job' hi => hle (i + 1) job' hi
          obtain ⟨_, hjob, hfirst⟩ := hle 0 first rfl
          cases hjob
          simp only [List.map_cons, List.sum_cons]
          refine ⟨Nat.add_le_add hfirst hrest, ?_⟩
          rintro ⟨i, old, new, hold, hnew, hlt⟩
          cases i with
          | zero =>
              cases hold
              cases hnew
              exact Nat.add_lt_add_of_lt_of_le hlt hrest
          | succ i => exact Nat.add_lt_add_of_le_of_lt hfirst (hless ⟨i, old, new, hold, hnew, hlt⟩)

namespace Pointwise

theorem load_le (h : Pointwise R s s') (hR : ∀ job job', R job job' → job'.load ≤ job.load) :
    s'.load ≤ s.load := by
  refine (sum_load_le h.length fun i job' hi => ?_).1
  obtain ⟨job, hjob, hrel⟩ := h.jobs i job' hi
  exact ⟨job, hjob, hR job job' hrel⟩

theorem load_lt (h : Pointwise R s s') (hR : ∀ job job', R job job' → job'.load ≤ job.load)
    (hlt : ∃ (i : Nat) (job job' : Job), s.store.jobs[i]? = some job ∧
      s'.store.jobs[i]? = some job' ∧ job'.load < job.load) : s'.load < s.load := by
  refine (sum_load_le h.length fun i job' hi => ?_).2 hlt
  obtain ⟨job, hjob, hrel⟩ := h.jobs i job' hi
  exact ⟨job, hjob, hR job job' hrel⟩

/-- A position that is taken stays taken. -/
theorem forward (h : Pointwise R s s') {i : Nat} (hi : s.store.jobs[i]? = some job) :
    ∃ job', s'.store.jobs[i]? = some job' ∧ R job job' := by
  have hlt : i < s'.store.jobs.length := by
    rw [h.length]
    exact (List.getElem?_eq_some_iff.mp hi).choose
  obtain ⟨old, hold, hrel⟩ := h.jobs i _ (List.getElem?_eq_getElem hlt)
  rw [hi] at hold
  cases hold
  exact ⟨_, List.getElem?_eq_getElem hlt, hrel⟩

end Pointwise

theorem moved_load {own : Calls} {op : SchedOp} (h : job' = job ∨ job.Moves own op job') :
    job'.load ≤ job.load := by
  rcases h with rfl | hmove
  · exact Nat.le_refl _
  · exact Nat.le_of_lt hmove.load_lt

/-! ## A tick that has nothing to wait for -/

/-- An outcome that was polled is recorded. -/
theorem Polls.load_lt {own : Calls} {todo : List Nat} {changed : Bool}
    {polls : List (Nat × PollReply)} {r : Except Error Bool} {id : Nat} {outcome : Outcome}
    (h : Polls todo s changed polls s' r) (hmem : (id, .ok (some outcome)) ∈ polls)
    (hpolls : ∀ id outcome, (id, .ok (some outcome)) ∈ polls →
      ⟨.poll id, .ok (some outcome)⟩ ∈ own ∧ outcome.Produced) :
    ∃ (i : Nat) (job job' : Job), s.store.jobs[i]? = some job ∧ s'.store.jobs[i]? = some job' ∧
      job'.load < job.load := by
  induction h with
  | done => cases hmem
  | failed => simp at hmem
  | skip _ _ ih => exact ih hmem hpolls
  | waiting _ _ _ ih =>
      refine ih ((List.mem_cons.mp hmem).resolve_left nofun) fun id outcome h => ?_
      exact hpolls id outcome (List.mem_cons_of_mem _ h)
  | @finished i rest s changed polls s' r job found at_i running go ih =>
      obtain ⟨_, hproduced⟩ := hpolls job.id found List.mem_cons_self
      have hlt := (List.getElem?_eq_some_iff.mp at_i).choose
      have hself : (s.setJob i (job.finished found)).store.jobs[i]? = some (job.finished found) :=
        List.getElem?_set_self hlt
      obtain ⟨job', hjob', hrec⟩ := (go.recorded fun id outcome h =>
        hpolls id outcome (List.mem_cons_of_mem _ h)).forward hself
      refine ⟨i, job, job', at_i, hjob', ?_⟩
      rw [hrec.finished hproduced, hproduced.load]
      simp [Job.load, running]

/-- If some waiting job fits, one is started. -/
theorem Starts.load_lt {todo : List Nat} {reserved : Finset String} {running : Nat}
    {starts : List (Job × StartReply)} {r : Except Error Unit}
    (h : Starts todo reserved running s starts s' r) (hq : Queued todo s)
    (hroom : running < s.maxRunning) {i : Nat} (hi : i ∈ todo) (hjob : s.store.jobs[i]? = some job)
    (hfits : (allocate job.spec s.inventory.devices reserved).isSome) :
    ∃ (i : Nat) (job job' : Job), s.store.jobs[i]? = some job ∧ s'.store.jobs[i]? = some job' ∧
      job'.load < job.load := by
  have hset : ∀ {k : Nat} {old new : Job} (s : Scheduler), s.store.jobs[k]? = some old →
      (s.setJob k new).store.jobs[k]? = some new :=
    fun s hold => List.getElem?_set_self (List.getElem?_eq_some_iff.mp hold).choose
  induction h with
  | done => cases hi
  | full hfull => exact absurd hfull (Nat.not_le_of_lt hroom)
  | @skip k rest reserved running s starts s' r _ hnone _ ih =>
      rcases List.mem_cons.mp hi with rfl | hi
      · rw [hnone job hjob] at hfits
        cases hfits
      · exact ih hq.tail hroom hi hjob hfits
  | @unsaved k rest reserved running s old devices now e _ at_k =>
      refine ⟨k, old, old.marked devices now, at_k, hset s at_k, ?_⟩
      simp [Job.load, Job.marked, hq.head at_k]
  | @started k rest reserved running s old devices starts s' r now _ at_k _ go =>
      refine ⟨k, old, old.marked devices now, at_k, (go.untouched hq.notMem).trans (hset s at_k), ?_⟩
      simp [Job.load, Job.marked, hq.head at_k]
  | @refused k rest reserved running s old devices starts s' r now e later _ at_k _ go =>
      refine ⟨k, old, (old.marked devices now).refused e later, at_k,
        (go.untouched hq.notMem).trans (hset s at_k), ?_⟩
      simp [Job.load, Job.refused, hq.head at_k]
  | @refusedUnsaved k rest reserved running s old devices now e later e' _ at_k =>
      refine ⟨k, old, (old.marked devices now).refused e later, at_k, hset s at_k, ?_⟩
      simp [Job.load, Job.refused, hq.head at_k]

/-! ## Operations -/

/-- The tick makes these calls. -/
def Calling (ω : Env) (st : Scheduler × Calls) (own : Calls) : Prop :=
  ((tick st.1).run ω st.2).trace = st.2 ++ own

/-- A tick that succeeds and has nothing to wait for: it finds that a worker has finished, or
    no job runs, every device is reported idle, and only devices among `excluded` are excluded. -/
def Fruitful (ω : Env) (excluded : Finset String) (st : Scheduler × Calls) : Prop :=
  ((tick st.1).run ω st.2).value = .ok () ∧
    ((∃ own, Calling ω st own ∧ ∃ id outcome, ⟨.poll id, .ok (some outcome)⟩ ∈ own) ∨
      (st.1.Idle ∧ st.1.excludedDevices ⊆ excluded))

/-- Every job that the devices outside `excluded` suffice for is over. -/
def Scheduler.Drained (s : Scheduler) (excluded : Finset String) : Prop :=
  ∀ job ∈ s.store.jobs, (allocate job.spec s.inventory.devices excluded).isSome →
    job.state.terminal = true

theorem tick_moved (hω : ω.Honest) (st : Scheduler × Calls) {own : Calls} (hown : Calling ω st own) :
    Ticks st.1 (afterPolls ω st.1 st.2) (pollCalls own) (startCalls own)
        ((tick st.1).run ω st.2).state ((tick st.1).run ω st.2).value ∧
      ∀ id outcome, ⟨.poll id, .ok (some outcome)⟩ ∈ own → outcome.Produced := by
  obtain ⟨own', hown', hticks⟩ := tick_ticks ω st.1 st.2
  obtain rfl : own = own' := List.append_cancel_left (hown.symm.trans hown')
  refine ⟨hticks, fun id outcome hmem => ?_⟩
  obtain ⟨own', hown'', hanswers⟩ := Prog.run_trace ω (tick st.1) st.2
  obtain rfl : own = own' := List.append_cancel_left (hown.symm.trans hown'')
  obtain ⟨tr, hreply⟩ := hanswers _ _ hmem
  exact hω tr id outcome hreply.symm

/-- A fruitful tick makes progress, unless there is nothing left to do. -/
theorem tick_load_lt (hω : ω.Honest) {st : Scheduler × Calls} {excluded : Finset String}
    (hpos : 0 < st.1.maxRunning) (hfruitful : Fruitful ω excluded st)
    (hdrained : ¬ st.1.Drained excluded) :
    ((tick st.1).run ω st.2).state.load < st.1.load := by
  have hle : ∀ {own : Calls} (job job' : Job), job' = job ∨ job.Moves own .tick job' →
      job'.load ≤ job.load := fun _ _ => moved_load
  obtain ⟨hok, ⟨own, hown, id, outcome, hmem⟩ | ⟨hidle, hexcluded⟩⟩ := hfruitful
  · obtain ⟨⟨⟨_, hpolls⟩, hgo⟩, hproduced⟩ := tick_moved hω st hown
    have hpolled : ∀ id outcome, (id, .ok (some outcome)) ∈ pollCalls own →
        ⟨.poll id, .ok (some outcome)⟩ ∈ own ∧ outcome.Produced :=
      fun id outcome h => ⟨mem_pollCalls.mp h, hproduced id outcome (mem_pollCalls.mp h)⟩
    have hfirst : (afterPolls ω st.1 st.2).load < st.1.load := by
      refine (hpolls.recorded hpolled).load_lt ?_ (hpolls.load_lt (mem_pollCalls.mpr hmem) hpolled)
      rintro job job' (rfl | ⟨outcome, _, hproduced, _, rfl⟩)
      · exact Nat.le_refl _
      · rw [hproduced.load]
        exact Nat.zero_le _
    refine Nat.lt_of_le_of_lt ?_ hfirst
    rcases hgo with ⟨_, hsame, _⟩ | hgo
    · rw [hsame]
    · refine (hgo.served (Queued.pendingOrder _) fun job r h => mem_startCalls.mp h).load_le ?_
      rintro job job' (rfl | ⟨_, hmove⟩)
      · exact Nat.le_refl _
      · exact Nat.le_of_lt hmove.load_lt
  · obtain ⟨own, hown, hticks⟩ := tick_ticks ω st.1 st.2
    obtain ⟨_, hproduced⟩ := tick_moved hω st hown
    obtain ⟨_, hpolls⟩ := hticks.polls
    obtain ⟨hsame, _⟩ := hpolls.none_running hidle.none_running
    -- Nothing runs, so some job that fits is pending.
    simp only [Scheduler.Drained, not_forall] at hdrained
    obtain ⟨job, hj, hfits, hopen⟩ := hdrained
    obtain ⟨i, hi⟩ := List.mem_iff_getElem?.mp hj
    have hpending : job.state = .pending := by
      cases hstate : job.state with
      | pending => rfl
      | running => exact absurd hstate (hidle.none_running job hj)
      | _ =>
          rw [hstate] at hopen
          exact absurd rfl hopen
    have hgo : Starts (pendingOrder st.1.store) st.1.excludedDevices 0 st.1 (startCalls own)
        ((tick st.1).run ω st.2).state (.ok ()) := by
      rcases hticks.starts with ⟨_, _, e, herror⟩ | hgo
      · rw [hok] at herror
        cases herror
      · rw [hsame, hok, reserved_of_idle hidle.none_running hidle.idle,
          runningCount_of_none hidle.none_running] at hgo
        exact hgo
    refine (hticks.moved hproduced).load_lt hle ?_
    exact hgo.load_lt (Queued.pendingOrder _) hpos (mem_pendingOrder.mpr ⟨job, hi, hpending⟩) hi
      (allocate_antitone hexcluded hfits)

theorem Scheduler.load_eq (h : s'.store = s.store) : s'.load = s.load := by
  rw [load, load, h]

/-- No operation but `submit` raises the measure. -/
theorem SchedOp.load_le (hω : ω.Honest) {op : SchedOp} (hop : ∀ spec owner, op ≠ .submit spec owner)
    (st : Scheduler × Calls) : (op.run ω st).1.load ≤ st.1.load := by
  cases op with
  | submit spec owner => exact absurd rfl (hop spec owner)
  | cancel id =>
      have h := wp_oracle.mp (cancel_cancels id : wp (Prog.Spec.oracle Scheduler ω) _ _ st.1 st.2)
      show ((Xlurm.cancel id st.1).run ω st.2).state.load ≤ _
      generalize ((Xlurm.cancel id st.1).run ω st.2).state = s' at h ⊢
      cases h with
      | same => exact Nat.le_refl _
      | @cancelled i job now at_i _ _ =>
          have hpoint : Pointwise (fun job job' => job'.load ≤ job.load) st.1
              (st.1.cancelled i job now) := by
            refine Pointwise.setJob (fun job => Nat.le_refl _) at_i ?_
            exact Nat.le_trans (Nat.le_of_eq (Job.load_terminal rfl)) (Nat.zero_le _)
          exact hpoint.load_le fun _ _ h => h
  | tick =>
      obtain ⟨own, hown, hticks⟩ := tick_ticks ω st.1 st.2
      exact (hticks.moved (tick_moved hω st hown).2).load_le fun _ _ => moved_load
  | setDevicesExcluded ids excluded =>
      have hstore := (wp_oracle.mp (setDevicesExcluded_store ids excluded :
        wp (Prog.Spec.oracle Scheduler ω) _ _ st.1 st.2)).1
      exact Nat.le_of_eq (Scheduler.load_eq hstore)
  | cleanup timestamp =>
      rcases wp_oracle.mp (cleanup_store timestamp :
        wp (Prog.Spec.oracle Scheduler ω) _ _ st.1 st.2) with hstate | hstate
      · exact Nat.le_of_eq (Scheduler.load_eq (congrArg Scheduler.store hstate))
      · show ((Xlurm.cleanup timestamp st.1).run ω st.2).state.load ≤ _
        rw [hstate]
        exact List.Sublist.sum_le_sum (List.filter_sublist.map _) fun _ _ => Nat.zero_le _
  | refresh status monitoringErrors => exact Nat.le_refl _

/-- What is drained stays so until somebody submits. -/
theorem SchedOp.drained (hω : ω.Honest) {op : SchedOp} (hop : ∀ spec owner, op ≠ .submit spec owner)
    {st : Scheduler × Calls} {excluded : Finset String} (h : st.1.Drained excluded) :
    (op.run ω st).1.Drained excluded := by
  obtain ⟨own, _, hevolves⟩ := op.evolves hω st
  intro job' hj' hfits
  rw [(op.persists st).devices] at hfits
  rcases hevolves.jobs job' hj' with ⟨job, hj, rfl | hmove⟩ | ⟨_, _, spec, hsubmit⟩
  · exact h job' hj hfits
  · have hterminal := h job hj (hmove.keeps.spec ▸ hfits)
    rw [hmove.keeps.terminal hterminal]
    exact hterminal
  · exact absurd hsubmit (hop _ _)

/-- At least `n` of the ticks among the operations are fruitful. -/
def FruitfulTicks (ω : Env) (excluded : Finset String) :
    Nat → List SchedOp → Scheduler × Calls → Prop
  | 0, _, _ => True
  | _ + 1, [], _ => False
  | n + 1, op :: rest, st =>
      FruitfulTicks ω excluded (n + 1) rest (op.run ω st) ∨
        (op = .tick ∧ Fruitful ω excluded st ∧ FruitfulTicks ω excluded n rest (op.run ω st))

theorem runOps_drained (hω : ω.Honest) {excluded : Finset String} (ops : List SchedOp)
    (hops : ∀ spec owner, .submit spec owner ∉ ops) {st : Scheduler × Calls}
    (h : st.1.Drained excluded) : (runOps ω ops st).1.Drained excluded := by
  induction ops generalizing st with
  | nil => exact h
  | cons op rest ih =>
      have hop : ∀ spec owner, op ≠ .submit spec owner := by
        rintro spec owner rfl
        exact hops spec owner List.mem_cons_self
      exact ih (fun spec owner hmem => hops spec owner (List.mem_cons_of_mem _ hmem))
        (op.drained hω hop h)

/-- Without moves left, every job is over. -/
theorem Scheduler.drained_of_load (h : s.load = 0) (excluded : Finset String) :
    s.Drained excluded := by
  intro job hj _
  have hle : job.load ≤ s.load :=
    List.single_le_sum (fun _ _ => Nat.zero_le _) _ (List.mem_map_of_mem hj)
  cases hstate : job.state with
  | pending | running =>
      simp only [Job.load, hstate] at hle
      omega
  | _ => rfl

theorem drains_of_load (hω : ω.Honest) {excluded : Finset String} (ops : List SchedOp)
    (hops : ∀ spec owner, .submit spec owner ∉ ops) {st : Scheduler × Calls}
    (hpos : 0 < st.1.maxRunning) {n : Nat} (hload : st.1.load ≤ n)
    (hticks : FruitfulTicks ω excluded n ops st) : (runOps ω ops st).1.Drained excluded := by
  induction ops generalizing st n with
  | nil =>
      cases n with
      | zero => exact Scheduler.drained_of_load (Nat.le_zero.mp hload) excluded
      | succ n => exact hticks.elim
  | cons op rest ih =>
      have hop : ∀ spec owner, op ≠ .submit spec owner := by
        rintro spec owner rfl
        exact hops spec owner List.mem_cons_self
      have hrest : ∀ spec owner, .submit spec owner ∉ rest :=
        fun spec owner hmem => hops spec owner (List.mem_cons_of_mem _ hmem)
      have hpos' : 0 < (op.run ω st).1.maxRunning := (op.persists st).maxRunning ▸ hpos
      by_cases hdrained : st.1.Drained excluded
      · exact runOps_drained hω rest hrest (op.drained hω hop hdrained)
      cases n with
      | zero => exact absurd (Scheduler.drained_of_load (Nat.le_zero.mp hload) excluded) hdrained
      | succ n =>
          rcases hticks with hticks | ⟨rfl, hfruitful, hticks⟩
          · exact ih hrest hpos' (Nat.le_trans (op.load_le hω hop st) hload) hticks
          · have hlt := tick_load_lt hω hpos hfruitful hdrained
            exact ih hrest hpos' (Nat.le_of_lt_succ (Nat.lt_of_lt_of_le hlt hload)) hticks

/-- For every state of a scheduler and all operations after it.  If nothing more is submitted,
    as many fruitful ticks as there are moves left bring every job to its end that the devices
    which stay enabled suffice for. -/
theorem queue_drains (ω : Env) (hω : ω.Honest) (excluded : Finset String) (ops : List SchedOp)
    (hops : ∀ spec owner, .submit spec owner ∉ ops) (st : Scheduler × Calls)
    (hpos : 0 < st.1.maxRunning) (hticks : FruitfulTicks ω excluded st.1.load ops st) :
    (runOps ω ops st).1.Drained excluded :=
  drains_of_load hω ops hops hpos (Nat.le_refl _) hticks

/-- The request for one device, started by the first tick and found to be over by the second. -/
theorem queue_drains_exact :
    (runOps instantWorkers [.tick, .tick] (.mixed ⟨1, [.exact]⟩, [])).1.Drained ∅ := by
  refine queue_drains instantWorkers instantWorkers_honest ∅ [.tick, .tick] (by simp)
    (.mixed ⟨1, [.exact]⟩, []) (by decide) ?_
  refine Or.inr ⟨rfl, ⟨rfl, Or.inr ⟨exact_idle, Finset.Subset.refl _⟩⟩, Or.inr ⟨rfl, ⟨rfl, ?_⟩, trivial⟩⟩
  refine Or.inl ⟨_, rfl, 1, ⟨.completed, 0, 9, none⟩, List.mem_cons_self⟩

end Xlurm
