/-
  Xlurm.Run.Tick

  What the two loops of `tick` do, as relations between the state before, the
  calls to the executor with their replies, and the state after.

  A run of the program against any environment is in the relation; what holds
  of all ticks is proved by induction on it, without looking at the program.
-/

import Xlurm.Model.Queue
import Xlurm.Prog.Oracle

namespace Xlurm

open Prog.Comp

abbrev Calls := Prog.Trace Call Call.Reply

abbrev Env := Prog.Oracle Call Call.Reply

abbrev StartReply := Except Error Unit

abbrev PollReply := Except Error (Option Outcome)

/-- The jobs handed to `executor.start`, each with the reply. -/
def startCalls (tr : Calls) : List (Job × StartReply) :=
  tr.filterMap fun
    | ⟨.start job, r⟩ => some (job, r)
    | _ => none

/-- The calls of `executor.poll`, each with the reply. -/
def pollCalls (tr : Calls) : List (Nat × PollReply) :=
  tr.filterMap fun
    | ⟨.poll id, r⟩ => some (id, r)
    | _ => none

theorem startCalls_append (tr tr' : Calls) :
    startCalls (tr ++ tr') = startCalls tr ++ startCalls tr' :=
  List.filterMap_append

theorem pollCalls_append (tr tr' : Calls) :
    pollCalls (tr ++ tr') = pollCalls tr ++ pollCalls tr' :=
  List.filterMap_append

theorem mem_startCalls {tr : Calls} {job : Job} {r : StartReply} :
    (job, r) ∈ startCalls tr ↔ ⟨.start job, r⟩ ∈ tr := by
  rw [startCalls, List.mem_filterMap]
  constructor
  · rintro ⟨⟨c, r'⟩, hmem, h⟩
    cases c <;> cases h
    exact hmem
  · exact fun hmem => ⟨_, hmem, rfl⟩

theorem mem_pollCalls {tr : Calls} {id : Nat} {r : PollReply} :
    (id, r) ∈ pollCalls tr ↔ ⟨.poll id, r⟩ ∈ tr := by
  rw [pollCalls, List.mem_filterMap]
  constructor
  · rintro ⟨⟨c, r'⟩, hmem, h⟩
    cases c <;> cases h
    exact hmem
  · exact fun hmem => ⟨_, hmem, rfl⟩

/-! ## The jobs that a tick writes -/

namespace Job

/-- The outcome that a poll reported is recorded. -/
def finished (job : Job) (outcome : Outcome) : Job :=
  { job with state := outcome.state, result := some outcome }

/-- The intent to start on these devices is recorded. -/
def marked (job : Job) (devices : List Device) (now : Nat) : Job :=
  { job with devices, state := .running, startedAt := some now }

/-- The executor refused to start the marked job. -/
def refused (job : Job) (e : Error) (now : Nat) : Job :=
  { job with state := .failed, result := some (failure e now) }

end Job

/-! ## The poll loop -/

/-- The poll loop over the positions `todo`: the calls it makes, the state it
    leads to and how it ends. -/
inductive Polls : List Nat → Scheduler → Bool → List (Nat × PollReply) → Scheduler →
    Except Error Bool → Prop
  | done (s : Scheduler) (changed : Bool) : Polls [] s changed [] s (.ok changed)
  | skip {i rest s changed polls s' r} (idle : ∀ job, s.store.jobs[i]? = some job →
      job.state ≠ .running) (go : Polls rest s changed polls s' r) :
      Polls (i :: rest) s changed polls s' r
  | failed {i rest s changed job} (e : Error) (at_i : s.store.jobs[i]? = some job)
      (running : job.state = .running) :
      Polls (i :: rest) s changed [(job.id, .error e)] s (.error e)
  | waiting {i rest s changed polls s' r job} (at_i : s.store.jobs[i]? = some job)
      (running : job.state = .running) (go : Polls rest s changed polls s' r) :
      Polls (i :: rest) s changed ((job.id, .ok none) :: polls) s' r
  | finished {i rest s changed polls s' r job} (outcome : Outcome)
      (at_i : s.store.jobs[i]? = some job) (running : job.state = .running)
      (go : Polls rest (s.setJob i (job.finished outcome)) true polls s' r) :
      Polls (i :: rest) s changed ((job.id, .ok (some outcome)) :: polls) s' r

variable {ω : Env} {s s' : Scheduler} {tr tr' : Calls}

/-- The poll loop was run: it only polls, and these are its calls. -/
def PollsRun (todo : List Nat) (s : Scheduler) (changed : Bool) (tr : Calls) (s' : Scheduler)
    (r : Except Error Bool) (tr' : Calls) : Prop :=
  ∃ own, tr' = tr ++ own ∧ startCalls own = [] ∧ Polls todo s changed (pollCalls own) s' r

namespace PollsRun

variable {i : Nat} {rest : List Nat} {changed : Bool} {r : Except Error Bool}

theorem skip (hidle : ∀ job, s.store.jobs[i]? = some job → job.state ≠ .running)
    (h : PollsRun rest s changed tr s' r tr') : PollsRun (i :: rest) s changed tr s' r tr' := by
  obtain ⟨own, htr, hstarts, hpolls⟩ := h
  exact ⟨own, htr, hstarts, hpolls.skip hidle⟩

/-- Calls before the loop goes on. -/
theorem after {first : Calls} (hstarts : startCalls first = [])
    (h : PollsRun rest s changed (tr ++ first) s' r tr') :
    ∃ own, tr' = tr ++ (first ++ own) ∧ startCalls (first ++ own) = [] ∧
      pollCalls (first ++ own) = pollCalls first ++ pollCalls own ∧
      Polls rest s changed (pollCalls own) s' r := by
  obtain ⟨own, htr, hown, hpolls⟩ := h
  refine ⟨own, htr.trans (List.append_assoc _ _ _), ?_, pollCalls_append _ _, hpolls⟩
  rw [startCalls_append, hstarts, hown, List.append_nil]

end PollsRun

theorem pollJobs_polls (todo : List Nat) (changed : Bool) :
    wp (Prog.Spec.oracle Scheduler ω) (pollJobs todo changed)
      (PollsRun todo s changed tr) s tr := by
  -- One case of `Polls` for each way through the body of the loop.
  induction todo generalizing s tr changed with
  | nil => exact ⟨[], (List.append_nil tr).symm, rfl, Polls.done s changed⟩
  | cons i rest ih =>
      rw [pollJobs, wp_bind, wp_get, andThen_ok]
      split
      · rename_i hnone
        refine wp_mono (ih changed) fun s' r tr' hrest => hrest.skip fun job hi => ?_
        rw [hnone] at hi
        cases hi
      · rename_i job hi
        split
        · rename_i hrun
          rw [wp_bind, wp_oracle_call, andThen_ok]
          generalize ω tr (.poll job.id) = reply
          cases reply with
          | error e => exact ⟨_, rfl, rfl, Polls.failed e hi hrun⟩
          | ok reply =>
              rw [wp_bind, wp_lift, andThen_ok]
              cases reply with
              | none =>
                  refine wp_mono (ih changed) fun s' r tr' hrest => ?_
                  obtain ⟨own, htr, hstarts, heq, hpolls⟩ := hrest.after (by rfl)
                  refine ⟨_, htr, hstarts, ?_⟩
                  rw [heq]
                  exact hpolls.waiting hi hrun
              | some outcome =>
                  rw [wp_bind, wp_modify, andThen_ok]
                  refine wp_mono (ih true) fun s' r tr' hrest => ?_
                  obtain ⟨own, htr, hstarts, heq, hpolls⟩ := hrest.after (by rfl)
                  refine ⟨_, htr, hstarts, ?_⟩
                  rw [heq]
                  exact Polls.finished outcome hi hrun hpolls
        · rename_i hrun
          refine wp_mono (ih changed) fun s' r tr' hrest => hrest.skip fun job' hi' => ?_
          rw [hi] at hi'
          cases hi'
          exact hrun

/-! ## The start loop -/

/-- The start loop over the positions `todo`, with the keys it regards as reserved
    and the number of jobs it counts as running. -/
inductive Starts : List Nat → Finset String → Nat → Scheduler → List (Job × StartReply) →
    Scheduler → Except Error Unit → Prop
  | done (reserved : Finset String) (running : Nat) (s : Scheduler) :
      Starts [] reserved running s [] s (.ok ())
  | full {todo reserved running s} (full : s.maxRunning ≤ running) :
      Starts todo reserved running s [] s (.ok ())
  | skip {i rest reserved running s starts s' r} (room : running < s.maxRunning)
      (none : ∀ job, s.store.jobs[i]? = some job →
        allocate job.spec s.inventory.devices reserved = none)
      (go : Starts rest reserved running s starts s' r) :
      Starts (i :: rest) reserved running s starts s' r
  | unsaved {i rest reserved running s job devices} (now : Nat) (e : Error)
      (room : running < s.maxRunning) (at_i : s.store.jobs[i]? = some job)
      (free : allocate job.spec s.inventory.devices reserved = some devices) :
      Starts (i :: rest) reserved running s [] (s.setJob i (job.marked devices now)) (.error e)
  | started {i rest reserved running s job devices starts s' r} (now : Nat)
      (room : running < s.maxRunning) (at_i : s.store.jobs[i]? = some job)
      (free : allocate job.spec s.inventory.devices reserved = some devices)
      (go : Starts rest (reserved ∪ (devices.map Device.key).toFinset) (running + 1)
        (s.setJob i (job.marked devices now)) starts s' r) :
      Starts (i :: rest) reserved running s ((job.marked devices now, .ok ()) :: starts) s' r
  | refused {i rest reserved running s job devices starts s' r} (now : Nat) (e : Error)
      (later : Nat) (room : running < s.maxRunning) (at_i : s.store.jobs[i]? = some job)
      (free : allocate job.spec s.inventory.devices reserved = some devices)
      (go : Starts rest reserved running
        (s.setJob i ((job.marked devices now).refused e later)) starts s' r) :
      Starts (i :: rest) reserved running s ((job.marked devices now, .error e) :: starts) s' r
  | refusedUnsaved {i rest reserved running s job devices} (now : Nat) (e : Error) (later : Nat)
      (e' : Error) (room : running < s.maxRunning) (at_i : s.store.jobs[i]? = some job)
      (free : allocate job.spec s.inventory.devices reserved = some devices) :
      Starts (i :: rest) reserved running s [(job.marked devices now, .error e)]
        (s.setJob i ((job.marked devices now).refused e later)) (.error e')

/-- The start loop was run: it does not poll, and these are its starts. -/
def StartsRun (todo : List Nat) (reserved : Finset String) (running : Nat) (s : Scheduler)
    (tr : Calls) (s' : Scheduler) (r : Except Error Unit) (tr' : Calls) : Prop :=
  ∃ own, tr' = tr ++ own ∧ pollCalls own = [] ∧
    Starts todo reserved running s (startCalls own) s' r

/-- Calls before the loop goes on. -/
theorem StartsRun.after {todo : List Nat} {reserved : Finset String} {running : Nat}
    {r : Except Error Unit} {first : Calls} (hpolls : pollCalls first = [])
    (h : StartsRun todo reserved running s (tr ++ first) s' r tr') :
    ∃ own, tr' = tr ++ (first ++ own) ∧ pollCalls (first ++ own) = [] ∧
      startCalls (first ++ own) = startCalls first ++ startCalls own ∧
      Starts todo reserved running s (startCalls own) s' r := by
  obtain ⟨own, htr, hown, hstarts⟩ := h
  refine ⟨own, htr.trans (List.append_assoc _ _ _), ?_, startCalls_append _ _, hstarts⟩
  rw [pollCalls_append, hpolls, hown, List.append_nil]

theorem wp_save_oracle {Q : Scheduler → Except Error Unit → Calls → Prop} :
    wp (Prog.Spec.oracle Scheduler ω) save Q s tr ↔
      Q s (ω tr (.save s.store)) (tr ++ [⟨.save s.store, ω tr (.save s.store)⟩]) := by
  rw [save, wp_bind, wp_get, andThen_ok, wp_bind, wp_oracle_call, andThen_ok, wp_lift]

theorem setJob_setJob (s : Scheduler) (i : Nat) (job job' : Job) :
    (s.setJob i job).setJob i job' = s.setJob i job' := by
  simp only [Scheduler.setJob, Store.setJob, List.set_set]

theorem startJobs_starts (todo : List Nat) (reserved : Finset String) (running : Nat) :
    wp (Prog.Spec.oracle Scheduler ω) (startJobs todo reserved running)
      (StartsRun todo reserved running s tr) s tr := by
  induction todo generalizing s tr reserved running with
  | nil => exact ⟨[], (List.append_nil tr).symm, rfl, Starts.done reserved running s⟩
  | cons i rest ih =>
      rw [startJobs, wp_bind, wp_get, andThen_ok]
      dsimp only
      split
      · rename_i hfull
        exact ⟨[], (List.append_nil tr).symm, rfl, Starts.full hfull⟩
      · rename_i hroom
        have hroom : running < s.maxRunning := Nat.lt_of_not_le hroom
        -- Two ways to pass over a position: there is no job, or no devices for it.
        have hskip : (∀ job, s.store.jobs[i]? = some job →
              allocate job.spec s.inventory.devices reserved = none) →
            wp (Prog.Spec.oracle Scheduler ω) (startJobs rest reserved running)
              (StartsRun (i :: rest) reserved running s tr) s tr := by
          intro hnone
          refine wp_mono (ih reserved running) ?_
          rintro s' r tr' ⟨own, htr, hpolls, hstarts⟩
          exact ⟨own, htr, hpolls, hstarts.skip hroom hnone⟩
        split
        · rename_i hi
          refine hskip fun job hjob => ?_
          rw [hi] at hjob
          cases hjob
        · rename_i job hi
          split
          · rename_i halloc
            refine hskip fun job' hjob => ?_
            rw [hi] at hjob
            cases hjob
            exact halloc
          · rename_i devices halloc
            rw [wp_bind, wp_oracle_call, andThen_ok]
            generalize ω tr .now = now
            rw [wp_bind, wp_modify, andThen_ok, wp_bind, wp_save_oracle]
            generalize ω _ (.save _) = saved
            cases saved with
            | error e =>
                refine ⟨_, List.append_assoc _ _ _, rfl, ?_⟩
                exact Starts.unsaved now e hroom hi halloc
            | ok _ =>
                rw [andThen_ok, wp_bind, wp_oracle_call, andThen_ok]
                generalize ω _ (.start _) = reply
                cases reply with
                | ok _ =>
                    simp only [List.append_assoc]
                    refine wp_mono (ih _ _) ?_
                    rintro s' r tr' hrest
                    obtain ⟨own, htr, hpolls, heq, hstarts⟩ := hrest.after (by rfl)
                    refine ⟨_, htr, hpolls, ?_⟩
                    rw [heq]
                    exact Starts.started now hroom hi halloc hstarts
                | error e =>
                    rw [wp_bind, wp_oracle_call, andThen_ok]
                    generalize ω _ .now = later
                    rw [wp_bind, wp_modify, andThen_ok, wp_bind, wp_save_oracle]
                    generalize ω _ (.save _) = saved'
                    -- The failed job overwrites the marked one, which no later round sees.
                    rw [setJob_setJob]
                    simp only [List.append_assoc]
                    cases saved' with
                    | error e' =>
                        refine ⟨_, rfl, rfl, ?_⟩
                        exact Starts.refusedUnsaved now e later e' hroom hi halloc
                    | ok _ =>
                        refine wp_mono (ih _ _) ?_
                        rintro s' r tr' hrest
                        obtain ⟨own, htr, hpolls, heq, hstarts⟩ := hrest.after (by rfl)
                        refine ⟨_, htr, hpolls, ?_⟩
                        rw [heq]
                        exact Starts.refused now e later hroom hi halloc hstarts

/-! ## What a tick keeps -/

/-- Only the jobs may have changed. -/
structure JobsOnly (s s' : Scheduler) : Prop where
  nextId : s'.store.nextId = s.store.nextId
  inventory : s'.inventory = s.inventory
  maxRunning : s'.maxRunning = s.maxRunning
  excludedDevices : s'.excludedDevices = s.excludedDevices

namespace JobsOnly

theorem refl (s : Scheduler) : JobsOnly s s := ⟨rfl, rfl, rfl, rfl⟩

theorem trans {s s' s'' : Scheduler} (h : JobsOnly s s') (h' : JobsOnly s' s'') :
    JobsOnly s s'' where
  nextId := h'.nextId.trans h.nextId
  inventory := h'.inventory.trans h.inventory
  maxRunning := h'.maxRunning.trans h.maxRunning
  excludedDevices := h'.excludedDevices.trans h.excludedDevices

theorem after_setJob {s s' : Scheduler} {i : Nat} {job : Job} (h : JobsOnly (s.setJob i job) s') :
    JobsOnly s s' := ⟨h.nextId, h.inventory, h.maxRunning, h.excludedDevices⟩

end JobsOnly

theorem Polls.jobsOnly {todo : List Nat} {s s' : Scheduler} {changed : Bool}
    {polls : List (Nat × PollReply)} {r : Except Error Bool}
    (h : Polls todo s changed polls s' r) : JobsOnly s s' := by
  induction h with
  | done s => exact JobsOnly.refl s
  | failed => exact JobsOnly.refl _
  | skip _ _ ih => exact ih
  | waiting _ _ _ ih => exact ih
  | finished _ _ _ _ ih => exact ih.after_setJob

theorem Starts.jobsOnly {todo : List Nat} {reserved : Finset String} {running : Nat}
    {s s' : Scheduler} {starts : List (Job × StartReply)} {r : Except Error Unit}
    (h : Starts todo reserved running s starts s' r) : JobsOnly s s' := by
  induction h with
  | done _ _ s => exact JobsOnly.refl s
  | full => exact JobsOnly.refl _
  | unsaved => exact (JobsOnly.refl _).after_setJob
  | refusedUnsaved => exact (JobsOnly.refl _).after_setJob
  | skip _ _ _ ih => exact ih
  | started _ _ _ _ _ ih => exact ih.after_setJob
  | refused _ _ _ _ _ _ _ ih => exact ih.after_setJob

/-! ## The positions that the start loop has to visit -/

/-- The positions `todo` are distinct, and their jobs are pending. -/
structure Queued (todo : List Nat) (s : Scheduler) : Prop where
  nodup : todo.Nodup
  pending : ∀ i ∈ todo, ∀ job, s.store.jobs[i]? = some job → job.state = .pending

namespace Queued

variable {i : Nat} {rest : List Nat} {s : Scheduler}

theorem pendingOrder (s : Scheduler) : Queued (pendingOrder s.store) s := by
  refine ⟨pendingOrder_nodup _, ?_⟩
  intro i hi job hjob
  obtain ⟨job', hjob', hpend⟩ := mem_pendingOrder.mp hi
  rw [hjob] at hjob'
  cases hjob'
  exact hpend

theorem head (h : Queued (i :: rest) s) {job : Job} (hi : s.store.jobs[i]? = some job) :
    job.state = .pending :=
  h.pending i List.mem_cons_self job hi

theorem notMem (h : Queued (i :: rest) s) : i ∉ rest := (List.nodup_cons.mp h.nodup).1

theorem tail (h : Queued (i :: rest) s) : Queued rest s :=
  ⟨(List.nodup_cons.mp h.nodup).2, fun k hk => h.pending k (List.mem_cons_of_mem i hk)⟩

/-- The other positions stay as they are. -/
theorem setJob (h : Queued (i :: rest) s) (job' : Job) : Queued rest (s.setJob i job') := by
  refine ⟨h.tail.nodup, ?_⟩
  intro k hk job hjob
  have hne : i ≠ k := by
    rintro rfl
    exact h.notMem hk
  have hother : (s.setJob i job').store.jobs[k]? = s.store.jobs[k]? := List.getElem?_set_ne hne
  exact h.tail.pending k hk job (hother ▸ hjob)

end Queued

/-- The start loop leaves all other positions alone. -/
theorem Starts.untouched {todo : List Nat} {reserved : Finset String} {running : Nat}
    {s s' : Scheduler} {starts : List (Job × StartReply)} {r : Except Error Unit}
    (h : Starts todo reserved running s starts s' r) {k : Nat} (hk : k ∉ todo) :
    s'.store.jobs[k]? = s.store.jobs[k]? := by
  have hset : ∀ {i : Nat} {rest : List Nat} (s : Scheduler) (job : Job), k ∉ i :: rest →
      (s.setJob i job).store.jobs[k]? = s.store.jobs[k]? := by
    intro i rest s job hk
    have hne : i ≠ k := by
      rintro rfl
      exact hk List.mem_cons_self
    exact List.getElem?_set_ne hne
  induction h with
  | done | full => rfl
  | unsaved | refusedUnsaved => exact hset _ _ hk
  | skip _ _ _ ih => exact ih fun hmem => hk (List.mem_cons_of_mem _ hmem)
  | started _ _ _ _ _ ih | refused _ _ _ _ _ _ _ ih =>
      exact (ih fun hmem => hk (List.mem_cons_of_mem _ hmem)).trans (hset _ _ hk)

/-! ## The whole tick -/

/-- The state that the start loop of a tick begins with, if it begins. -/
def afterPolls (ω : Env) (s : Scheduler) (tr : Calls) : Scheduler :=
  ((pollJobs (List.range s.store.jobs.length) false s).run ω tr).state

/-- A tick from `s` with these calls; `s₁` is the state after polling.  It ends there
    if a poll fails or the outcomes cannot be saved. -/
structure Ticks (s s₁ : Scheduler) (polls : List (Nat × PollReply))
    (starts : List (Job × StartReply)) (s' : Scheduler) (r : Except Error Unit) : Prop where
  polls : ∃ r₁, Polls (List.range s.store.jobs.length) s false polls s₁ r₁
  starts : (starts = [] ∧ s' = s₁ ∧ ∃ e, r = .error e) ∨
    Starts (pendingOrder s₁.store) s₁.reserved (runningCount s₁.store) s₁ starts s' r

/-- The start loop of a tick that has polled. -/
theorem Ticks.go {s s₁ : Scheduler} {first : Calls}
    {r₁ : Except Error Bool} (hstarts : startCalls first = [])
    (hpolls : Polls (List.range s.store.jobs.length) s false (pollCalls first) s₁ r₁) :
    wp (Prog.Spec.oracle Scheduler ω)
      (startJobs (pendingOrder s₁.store) s₁.reserved (runningCount s₁.store))
      (fun s' r tr' => ∃ own, tr' = tr ++ own ∧
        Ticks s s₁ (pollCalls own) (startCalls own) s' r) s₁ (tr ++ first) := by
  refine wp_mono (startJobs_starts _ _ _) ?_
  rintro s' r tr' ⟨own, htr, hown, hgo⟩
  refine ⟨first ++ own, htr.trans (List.append_assoc _ _ _), ⟨r₁, ?_⟩, Or.inr ?_⟩
  · rw [pollCalls_append, hown, List.append_nil]
    exact hpolls
  · rw [startCalls_append, hstarts, List.nil_append]
    exact hgo

theorem Ticks.jobsOnly {s s₁ s' : Scheduler} {polls : List (Nat × PollReply)}
    {starts : List (Job × StartReply)} {r : Except Error Unit}
    (h : Ticks s s₁ polls starts s' r) : JobsOnly s s' := by
  obtain ⟨⟨_, hpolls⟩, ⟨_, rfl, _⟩ | hgo⟩ := h
  · exact hpolls.jobsOnly
  · exact hpolls.jobsOnly.trans hgo.jobsOnly

theorem tick_ticks (ω : Env) (s : Scheduler) (tr : Calls) :
    ∃ own, ((tick s).run ω tr).trace = tr ++ own ∧
      Ticks s (afterPolls ω s tr) (pollCalls own) (startCalls own) ((tick s).run ω tr).state
        ((tick s).run ω tr).value := by
  have hpolls := wp_oracle.mp
    (pollJobs_polls (List.range s.store.jobs.length) false : wp (Prog.Spec.oracle Scheduler ω)
      _ (PollsRun _ s false tr) s tr)
  have hwp : wp (Prog.Spec.oracle Scheduler ω) tick (fun s' r tr' => ∃ own, tr' = tr ++ own ∧
      Ticks s (afterPolls ω s tr) (pollCalls own) (startCalls own) s' r) s tr := by
    rw [tick, wp_bind, wp_get, andThen_ok, wp_bind, wp_oracle]
    obtain ⟨own, htr, hown, hgo⟩ := hpolls
    rw [htr]
    cases hvalue : (Prog.run ω (pollJobs (List.range s.store.jobs.length) false s) tr).value with
    -- A failed poll ends the tick before anything is saved.
    | error e => exact ⟨own, rfl, ⟨_, hgo⟩, Or.inl ⟨hown, rfl, e, rfl⟩⟩
    | ok changed =>
        cases changed with
        | false => exact Ticks.go hown hgo
        | true =>
            rw [andThen_ok, if_pos rfl, wp_bind, wp_save_oracle, List.append_assoc]
            generalize ω _ (.save _) = saved
            have hstarts : startCalls (own ++ [⟨.save (afterPolls ω s tr).store, saved⟩]) = [] := by
              rw [startCalls_append, hown]
              rfl
            have hpolls : pollCalls (own ++ [⟨.save (afterPolls ω s tr).store, saved⟩]) =
                pollCalls own := by
              rw [pollCalls_append]
              exact List.append_nil _
            cases saved with
            | error e => exact ⟨_, rfl, ⟨_, hpolls ▸ hgo⟩, Or.inl ⟨hstarts, rfl, e, rfl⟩⟩
            | ok _ => exact Ticks.go hstarts (hpolls ▸ hgo)
  exact wp_oracle.mp hwp

end Xlurm
