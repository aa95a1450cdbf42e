/-
  Xlurm.Theorems.Greedy

  Which jobs a tick starts, and that no available device is left to a pending job
  that could use it.
-/

import Mathlib.Data.Finset.Lattice.Lemmas
import Mathlib.Data.List.Forall2
import Xlurm.Model.Allocation
import Xlurm.Run.Tick
import Xlurm.Theorems.LifeCycle

namespace Xlurm

open Prog.Comp

/-! ## The reference -/

/-- The jobs that are to be started with the devices they are given: go through the
    queue, and while fewer than `limit` jobs run give each the allocation that is
    possible without the keys in `held`.  `replies` says which starts succeed; the
    devices of the others stay available. -/
def greedy (devices : List Device) (limit : Nat) :
    List Job → List StartReply → Finset String → Nat → List (Job × List Device)
  | [], _, _, _ => []
  | job :: queue, replies, held, running =>
      if limit ≤ running then []
      else
        match allocate job.spec devices held with
        | none => greedy devices limit queue replies held running
        | some selected =>
            (job, selected) ::
              match replies with
              | [] => []
              | .ok _ :: replies =>
                  greedy devices limit queue replies
                    (held ∪ (selected.map Device.key).toFinset) (running + 1)
              | .error _ :: replies => greedy devices limit queue replies held running

/-- The call of `executor.start` that hands these devices to this job. -/
def Grants (grant : Job × List Device) (call : Job × StartReply) : Prop :=
  ∃ now, call.1 = grant.1.marked grant.2 now

/-- The jobs of a queue of positions. -/
def Store.queue (store : Store) (order : List Nat) : List Job :=
  order.filterMap fun i => store.jobs[i]?

variable {s s' s₁ : Scheduler} {todo : List Nat} {reserved : Finset String} {running : Nat}
  {polls : List (Nat × PollReply)} {starts : List (Job × StartReply)} {r : Except Error Unit}

section Reference

variable {devices : List Device} {limit : Nat} {job : Job} {queue : List Job}
  {replies : List StartReply} {selected : List Device}

theorem greedy_full (h : limit ≤ running) :
    greedy devices limit queue replies reserved running = [] := by
  cases queue with
  | nil => rfl
  | cons job queue => rw [greedy, if_pos h]

theorem greedy_none (h : running < limit) (hnone : allocate job.spec devices reserved = none) :
    greedy devices limit (job :: queue) replies reserved running =
      greedy devices limit queue replies reserved running := by
  rw [greedy, if_neg (Nat.not_le_of_lt h), hnone]

theorem greedy_ok (h : running < limit)
    (hsome : allocate job.spec devices reserved = some selected) :
    greedy devices limit (job :: queue) (.ok () :: replies) reserved running =
      (job, selected) :: greedy devices limit queue replies
        (reserved ∪ (selected.map Device.key).toFinset) (running + 1) := by
  rw [greedy, if_neg (Nat.not_le_of_lt h), hsome]

theorem greedy_error (h : running < limit) (e : Error)
    (hsome : allocate job.spec devices reserved = some selected) :
    greedy devices limit (job :: queue) (.error e :: replies) reserved running =
      (job, selected) :: greedy devices limit queue replies reserved running := by
  rw [greedy, if_neg (Nat.not_le_of_lt h), hsome]

end Reference

/-! ## The start loop -/

/-- The loop starts what the reference says; `store` is the store it began with. -/
theorem Starts.greedy {store : Store} (h : Starts todo reserved running s starts s' r)
    (hok : r = .ok ()) (hq : Queued todo s)
    (hsame : ∀ i ∈ todo, s.store.jobs[i]? = store.jobs[i]?) :
    List.Forall₂ Grants (greedy s.inventory.devices s.maxRunning (store.queue todo)
      (starts.map Prod.snd) reserved running) starts := by
  -- the positions behind the head are not touched by writing the head
  have hrest : ∀ {i : Nat} {rest : List Nat} {s : Scheduler} (job' : Job),
      Queued (i :: rest) s → (∀ k ∈ i :: rest, s.store.jobs[k]? = store.jobs[k]?) →
      ∀ k ∈ rest, (s.setJob i job').store.jobs[k]? = store.jobs[k]? := by
    intro i rest s job' hq hsame k hk
    have hne : i ≠ k := by
      rintro rfl
      exact hq.notMem hk
    have hother : (s.setJob i job').store.jobs[k]? = s.store.jobs[k]? := List.getElem?_set_ne hne
    rw [hother]
    exact hsame k (List.mem_cons_of_mem i hk)
  have hqueue : ∀ {i : Nat} {rest : List Nat} {s : Scheduler} {job : Job},
      (∀ k ∈ i :: rest, s.store.jobs[k]? = store.jobs[k]?) → s.store.jobs[i]? = some job →
      store.queue (i :: rest) = job :: store.queue rest := by
    intro i rest s job hsame hi
    have hat : store.jobs[i]? = some job := (hsame i List.mem_cons_self).symm.trans hi
    rw [Store.queue, List.filterMap_cons, hat]
    rfl
  induction h with
  | done => exact List.Forall₂.nil
  | full hfull =>
      rw [greedy_full hfull]
      exact List.Forall₂.nil
  | unsaved | refusedUnsaved => cases hok
  | @skip i rest reserved running s starts s' r room none go ih =>
      have hgo := ih hok hq.tail fun k hk => hsame k (List.mem_cons_of_mem i hk)
      cases hi : s.store.jobs[i]? with
      | none =>
          have hat : store.jobs[i]? = Option.none := (hsame i List.mem_cons_self).symm.trans hi
          have hqueue : store.queue (i :: rest) = store.queue rest := by
            rw [Store.queue, List.filterMap_cons, hat]
            rfl
          rw [hqueue]
          exact hgo
      | some job =>
          rw [hqueue hsame hi, greedy_none room (none job hi)]
          exact hgo
  | started now room at_i free go ih =>
      rw [hqueue hsame at_i, List.map_cons, greedy_ok room free]
      exact List.Forall₂.cons ⟨now, rfl⟩ (ih hok (hq.setJob _) (hrest _ hq hsame))
  | refused now e later room at_i free go ih =>
      rw [hqueue hsame at_i, List.map_cons, greedy_error room e free]
      exact List.Forall₂.cons ⟨now, rfl⟩ (ih hok (hq.setJob _) (hrest _ hq hsame))

/-- What the loop keeps: its accumulators are those of the state. -/
structure Serving (todo : List Nat) (reserved : Finset String) (running : Nat) (s : Scheduler) :
    Prop extends Queued todo s where
  reserved : reserved = s.reserved
  running : running = runningCount s.store

namespace Serving

variable {i : Nat} {rest : List Nat} {job : Job}

theorem first (s : Scheduler) :
    Serving (pendingOrder s.store) s.reserved (runningCount s.store) s :=
  ⟨Queued.pendingOrder s, rfl, rfl⟩

theorem skip (h : Serving (i :: rest) reserved running s) : Serving rest reserved running s :=
  ⟨h.toQueued.tail, h.reserved, h.running⟩

/-- The head of the queue does not run. -/
theorem head_ne_running (h : Serving (i :: rest) reserved running s)
    (hi : s.store.jobs[i]? = some job) : job.state ≠ .running := by
  rw [h.toQueued.head hi]
  exact State.noConfusion

theorem started (h : Serving (i :: rest) reserved running s) (hi : s.store.jobs[i]? = some job)
    (devices : List Device) (now : Nat) :
    Serving rest (reserved ∪ (devices.map Device.key).toFinset) (running + 1)
      (s.setJob i (job.marked devices now)) where
  toQueued := h.toQueued.setJob _
  reserved := by
    have hrun : (job.marked devices now).state = .running := rfl
    rw [reserved_setJob hi (h.head_ne_running hi), if_pos hrun, ← h.reserved]
    rfl
  running := by
    have hrun : (job.marked devices now).state = .running := rfl
    rw [runningCount_setJob hi (h.head_ne_running hi), if_pos hrun, ← h.running]

theorem refused (h : Serving (i :: rest) reserved running s) (hi : s.store.jobs[i]? = some job)
    (devices : List Device) (now : Nat) (e : Error) (later : Nat) :
    Serving rest reserved running (s.setJob i ((job.marked devices now).refused e later)) where
  toQueued := h.toQueued.setJob _
  reserved := by
    rw [reserved_setJob hi (h.head_ne_running hi), if_neg State.noConfusion, ← h.reserved]
    exact (Finset.union_empty _).symm
  running := by
    rw [runningCount_setJob hi (h.head_ne_running hi), if_neg State.noConfusion, ← h.running,
      Nat.add_zero]

end Serving

/-- Over the loop, more and more is reserved. -/
theorem Starts.reserved_subset (h : Starts todo reserved running s starts s' r)
    (hok : r = .ok ()) (hv : Serving todo reserved running s) : s.reserved ⊆ s'.reserved := by
  induction h with
  | done | full => exact Finset.Subset.refl _
  | unsaved | refusedUnsaved => cases hok
  | skip _ _ _ ih => exact ih hok hv.skip
  | @started _ _ _ _ _ job devices _ _ _ now _ at_i _ _ ih =>
      have hnext := hv.started at_i devices now
      have hgo := ih hok hnext
      rw [← hnext.reserved, hv.reserved] at hgo
      exact Finset.union_subset_left hgo
  | @refused _ _ _ _ _ job devices _ _ _ now e later _ at_i _ _ ih =>
      have hnext := hv.refused at_i devices now e later
      have hgo := ih hok hnext
      rw [← hnext.reserved, hv.reserved] at hgo
      exact hgo

/-- When the loop ends with room for another job, nothing that it passed over fits. -/
theorem Starts.conserving (h : Starts todo reserved running s starts s' r) (hok : r = .ok ())
    (hv : Serving todo reserved running s) (hroom : runningCount s'.store < s.maxRunning) :
    ∀ i ∈ todo, ∀ job, s'.store.jobs[i]? = some job → job.state = .pending →
      allocate job.spec s.inventory.devices s'.reserved = none := by
  induction h with
  | done => rintro i ⟨⟩
  | full hfull =>
      rw [hv.running] at hfull
      omega
  | unsaved | refusedUnsaved => cases hok
  | @skip i rest reserved running s starts s' r room none go ih =>
      intro k hk job hjob hpend
      rcases List.mem_cons.mp hk with rfl | hk
      · have hat : s.store.jobs[k]? = some job := (go.untouched hv.toQueued.notMem).symm.trans hjob
        have hsub : reserved ⊆ s'.reserved := hv.reserved ▸ go.reserved_subset hok hv.skip
        -- it did not fit when it was its turn, and less is available now
        refine Option.not_isSome_iff_eq_none.mp fun hsome => ?_
        have hfit := allocate_antitone hsub hsome
        rw [none job hat] at hfit
        cases hfit
      · exact ih hok hv.skip hroom k hk job hjob hpend
  | @started i rest reserved running s job devices starts s' r now room at_i free go ih =>
      intro k hk other hother hpend
      have hnext := hv.started at_i devices now
      rcases List.mem_cons.mp hk with rfl | hk
      · have hlt := (List.getElem?_eq_some_iff.mp at_i).choose
        have hat : (s.setJob k (job.marked devices now)).store.jobs[k]? = some other :=
          (go.untouched hv.toQueued.notMem).symm.trans hother
        have hself : (s.setJob k (job.marked devices now)).store.jobs[k]? =
            some (job.marked devices now) := List.getElem?_set_self hlt
        rw [hself] at hat
        cases hat
        cases hpend
      · exact ih hok hnext hroom k hk other hother hpend
  | @refused i rest reserved running s job devices starts s' r now e later room at_i free go ih =>
      intro k hk other hother hpend
      have hnext := hv.refused at_i devices now e later
      rcases List.mem_cons.mp hk with rfl | hk
      · have hlt := (List.getElem?_eq_some_iff.mp at_i).choose
        have hat : (s.setJob k ((job.marked devices now).refused e later)).store.jobs[k]? =
            some other := (go.untouched hv.toQueued.notMem).symm.trans hother
        have hself : (s.setJob k ((job.marked devices now).refused e later)).store.jobs[k]? =
            some ((job.marked devices now).refused e later) := List.getElem?_set_self hlt
        rw [hself] at hat
        cases hat
        cases hpend
      · exact ih hok hnext hroom k hk other hother hpend

/-- The loop fills the places under `max_running` and no more. -/
theorem Starts.runningCount_le (h : Starts todo reserved running s starts s' r)
    (hv : Serving todo reserved running s) :
    runningCount s'.store ≤ max (runningCount s.store) s.maxRunning := by
  have hmark : ∀ {i : Nat} {rest : List Nat} {reserved : Finset String} {running : Nat}
      {s : Scheduler} {job : Job} (devices : List Device) (now : Nat),
      Serving (i :: rest) reserved running s → s.store.jobs[i]? = some job →
      running < s.maxRunning →
      runningCount (s.setJob i (job.marked devices now)).store ≤ s.maxRunning := by
    intro i rest reserved running s job devices now hv hi room
    have hnext := (hv.started hi devices now).running
    omega
  induction h with
  | done | full => exact Nat.le_max_left _ _
  | unsaved now e room at_i free => exact Nat.le_trans (hmark _ now hv at_i room) (Nat.le_max_right _ _)
  | skip _ _ _ ih => exact ih hv.skip
  | @started _ _ _ _ s job devices _ _ _ now room at_i _ _ ih =>
      have hgo := ih (hv.started at_i devices now)
      have hle := hmark devices now hv at_i room
      rw [setJob_maxRunning] at hgo
      omega
  | @refused _ _ _ _ s job devices _ _ _ now e later room at_i _ _ ih =>
      have hnext := hv.refused at_i devices now e later
      have hgo := ih hnext
      have heq := hnext.running
      have hrunning := hv.running
      rw [setJob_maxRunning] at hgo
      omega
  | @refusedUnsaved _ _ _ _ s job devices now e later e' room at_i free =>
      have heq := (hv.refused at_i devices now e later).running
      have hrunning := hv.running
      omega

/-- A started job runs afterwards, one that failed to start has failed. -/
theorem Starts.served_jobs (h : Starts todo reserved running s starts s' r) (hq : Queued todo s) :
    ∀ job reply, (job, reply) ∈ starts →
      (reply = .ok () → job ∈ s'.store.jobs) ∧
        ∀ e, reply = .error e → ∃ later, job.refused e later ∈ s'.store.jobs := by
  -- what was written at the head of the queue is still there at the end
  have hkept : ∀ {i : Nat} {rest : List Nat} {reserved : Finset String} {running : Nat}
      {s s' : Scheduler} {starts : List (Job × StartReply)} {r : Except Error Unit} {job₁ : Job}
      (job' : Job), i ∉ rest → s.store.jobs[i]? = some job₁ →
      Starts rest reserved running (s.setJob i job') starts s' r → job' ∈ s'.store.jobs := by
    intro i rest reserved running s s' starts r job₁ job' hnot hi go
    have hlt := (List.getElem?_eq_some_iff.mp hi).choose
    have hself : (s.setJob i job').store.jobs[i]? = some job' := List.getElem?_set_self hlt
    exact List.mem_of_getElem? ((go.untouched hnot).trans hself)
  induction h with
  | done | full | unsaved => rintro job reply ⟨⟩
  | skip _ _ _ ih => exact ih hq.tail
  | started now room at_i free go ih =>
      intro job reply hmem
      rcases List.mem_cons.mp hmem with heq | hmem
      · cases heq
        exact ⟨fun _ => hkept _ hq.notMem at_i go, by rintro e ⟨⟩⟩
      · exact ih (hq.setJob _) job reply hmem
  | refused now e later room at_i free go ih =>
      intro job reply hmem
      rcases List.mem_cons.mp hmem with heq | hmem
      · cases heq
        refine ⟨by rintro ⟨⟩, ?_⟩
        rintro e' ⟨⟩
        exact ⟨later, hkept _ hq.notMem at_i go⟩
      · exact ih (hq.setJob _) job reply hmem
  | refusedUnsaved now e later e' room at_i free =>
      intro job reply hmem
      cases List.mem_singleton.mp hmem
      refine ⟨by rintro ⟨⟩, ?_⟩
      rintro e'' ⟨⟩
      have hlt := (List.getElem?_eq_some_iff.mp at_i).choose
      exact ⟨later, List.mem_set hlt _⟩

/-- A full or useless queue starts nothing. -/
theorem Starts.nothing (h : Starts todo reserved running s starts s' r)
    (hidle : s.maxRunning ≤ running ∨ ∀ i ∈ todo, ∀ job, s.store.jobs[i]? = some job →
      allocate job.spec s.inventory.devices reserved = none) : starts = [] := by
  have hhead : ∀ {i : Nat} {rest : List Nat} {reserved : Finset String} {running : Nat}
      {s : Scheduler} {job : Job} {devices : List Device}, running < s.maxRunning →
      s.store.jobs[i]? = some job → allocate job.spec s.inventory.devices reserved = some devices →
      ¬ (s.maxRunning ≤ running ∨ ∀ k ∈ i :: rest, ∀ job, s.store.jobs[k]? = some job →
        allocate job.spec s.inventory.devices reserved = none) := by
    rintro i rest reserved running s job devices room hi free (hfull | hnone)
    · omega
    · rw [hnone i List.mem_cons_self job hi] at free
      cases free
  induction h with
  | done | full | unsaved => rfl
  | skip _ _ _ ih =>
      exact ih (hidle.imp_right fun hnone k hk => hnone k (List.mem_cons_of_mem _ hk))
  | started now room at_i free => exact absurd hidle (hhead room at_i free)
  | refused now e later room at_i free => exact absurd hidle (hhead room at_i free)
  | refusedUnsaved now e later e' room at_i free => exact absurd hidle (hhead room at_i free)

/-! ## The poll loop -/

theorem Polls.runningCount_le {changed : Bool} {r : Except Error Bool}
    (h : Polls todo s changed polls s' r) : runningCount s'.store ≤ runningCount s.store := by
  induction h with
  | done | failed => exact Nat.le_refl _
  | skip _ _ ih => exact ih
  | waiting _ _ _ ih => exact ih
  | finished _ at_i running _ ih => exact Nat.le_trans ih (runningCount_setJob_le at_i running)

/-- While no worker has finished, polling changes nothing. -/
theorem Polls.nothing {changed : Bool} {r : Except Error Bool}
    (h : Polls todo s changed polls s' r)
    (hnone : ∀ id outcome, (id, .ok (some outcome)) ∉ polls) : s' = s := by
  induction h with
  | done | failed => rfl
  | skip _ _ ih => exact ih hnone
  | waiting _ _ _ ih => exact ih fun id outcome hmem => hnone id outcome (List.mem_cons_of_mem _ hmem)
  | finished outcome => exact absurd List.mem_cons_self (hnone _ outcome)

/-! ## The whole tick -/

theorem Ticks.runningCount_le (h : Ticks s s₁ polls starts s' r) :
    runningCount s'.store ≤ max (runningCount s.store) s.maxRunning := by
  obtain ⟨⟨_, hpolls⟩, hgo⟩ := h
  have hle := hpolls.runningCount_le
  have hmax := hpolls.jobsOnly.maxRunning
  rcases hgo with ⟨_, rfl, _⟩ | hgo
  · exact Nat.le_trans hle (Nat.le_max_left _ _)
  · have hstarts := hgo.runningCount_le (Serving.first s₁)
    omega

/-- Work conservation: with room for another job, no pending job fits the devices
    that are left. -/
theorem Ticks.conserving (h : Ticks s s₁ polls starts s' (.ok ()))
    (hroom : runningCount s'.store < s.maxRunning) :
    ∀ job ∈ s'.store.jobs, job.state = .pending →
      allocate job.spec s.inventory.devices s'.reserved = none := by
  obtain ⟨⟨_, hpolls⟩, ⟨_, _, e, herror⟩ | hgo⟩ := h
  · cases herror
  · intro job hj hpend
    obtain ⟨i, hi⟩ := List.mem_iff_getElem?.mp hj
    have hqueued : i ∈ pendingOrder s₁.store := by
      by_contra hnot
      have hat : s₁.store.jobs[i]? = some job := (hgo.untouched hnot).symm.trans hi
      exact hnot (mem_pendingOrder.mpr ⟨job, hat, hpend⟩)
    have hnone := hgo.conserving rfl (Serving.first s₁)
      (hpolls.jobsOnly.maxRunning.symm ▸ hroom) i hqueued job hi hpend
    rw [← hpolls.jobsOnly.inventory]
    exact hnone

/-- After a tick that went through, another one starts nothing until a worker
    finishes. -/
theorem Ticks.again {s₂ s'' : Scheduler} {polls' : List (Nat × PollReply)}
    {starts' : List (Job × StartReply)} {r' : Except Error Unit}
    (h : Ticks s s₁ polls starts s' (.ok ())) (h' : Ticks s' s₂ polls' starts' s'' r')
    (hnone : ∀ id outcome, (id, .ok (some outcome)) ∉ polls') : starts' = [] := by
  obtain ⟨⟨_, hpolls⟩, ⟨hnil, _⟩ | hgo⟩ := h'
  · exact hnil
  · obtain rfl : s₂ = s' := hpolls.nothing hnone
    refine hgo.nothing ?_
    by_cases hroom : runningCount s₂.store < s.maxRunning
    · right
      intro i hi job hjob
      obtain ⟨job', hjob', hpend⟩ := mem_pendingOrder.mp hi
      rw [hjob] at hjob'
      cases hjob'
      have hfit := h.conserving hroom job (List.mem_of_getElem? hjob) hpend
      rw [h.jobsOnly.inventory]
      exact hfit
    · left
      rw [h.jobsOnly.maxRunning]
      omega

/-- A tick never has more jobs running than `max_running`, unless there were more
    before.  A tick that returns `Ok` starts the jobs of the greedy reference, in its
    order and on its devices, and leaves each running or failed; while there is room
    for another job, no pending one fits the devices that are left; and a second tick
    starts nothing as long as no worker finishes.  Reserved, at the beginning and at the
    end, are the keys of the devices that are not available. -/
theorem tick_greedy (ω : Env) (s : Scheduler) (tr : Calls) :
    let polled := afterPolls ω s tr
    let done := (tick s).run ω tr
    ∃ own, done.trace = tr ++ own ∧
    runningCount done.state.store ≤ max (runningCount s.store) s.maxRunning ∧
    (∀ device ∈ s.inventory.devices,
      (device.key ∉ polled.reserved ↔ polled.Available device) ∧
      (device.key ∉ done.state.reserved ↔ done.state.Available device)) ∧
    (done.value = .ok () →
      (∃ order, IsQueue polled.store order ∧
        List.Forall₂ Grants (greedy s.inventory.devices s.maxRunning (polled.store.queue order)
          ((startCalls own).map Prod.snd) polled.reserved (runningCount polled.store))
          (startCalls own)) ∧
      (∀ job reply, (job, reply) ∈ startCalls own →
        (reply = .ok () → job ∈ done.state.store.jobs) ∧
          ∀ e, reply = .error e → ∃ later, job.refused e later ∈ done.state.store.jobs) ∧
      (runningCount done.state.store < s.maxRunning →
        ∀ job ∈ done.state.store.jobs, job.state = .pending →
          allocate job.spec s.inventory.devices done.state.reserved = none) ∧
      (∀ (ω' : Env) (tr' : Calls),
        (∀ tr id outcome, ω' tr (.poll id) ≠ .ok (some outcome)) →
        ∃ own', ((tick done.state).run ω' tr').trace = tr' ++ own' ∧ startCalls own' = [])) := by
  intro polled done
  obtain ⟨own, hown, hticks⟩ := tick_ticks ω s tr
  obtain ⟨_, hpolls⟩ := hticks.polls
  refine ⟨own, hown, hticks.runningCount_le, fun device hdevice => ⟨?_, ?_⟩, fun hok => ?_⟩
  · exact not_mem_reserved_iff (hpolls.jobsOnly.inventory.symm ▸ hdevice)
  · exact not_mem_reserved_iff (hticks.jobsOnly.inventory.symm ▸ hdevice)
  have hticks : Ticks s polled (pollCalls own) (startCalls own) done.state (.ok ()) := hok ▸ hticks
  have hgo : Starts (pendingOrder polled.store) polled.reserved (runningCount polled.store) polled
      (startCalls own) done.state (.ok ()) := by
    -- The start loop is skipped only by an error of the polls or the first save.
    rcases hticks.starts with ⟨_, _, e, herror⟩ | hgo
    · cases herror
    · exact hgo
  refine ⟨⟨pendingOrder polled.store, pendingOrder_isQueue _, ?_⟩,
    hgo.served_jobs (Queued.pendingOrder polled), hticks.conserving, ?_⟩
  · rw [← hpolls.jobsOnly.inventory, ← hpolls.jobsOnly.maxRunning]
    exact hgo.greedy rfl (Queued.pendingOrder polled) fun _ _ => rfl
  -- The second tick is described by the same relation, from the state of the first.
  · intro ω' tr' hnone
    obtain ⟨own', hown', hanswers⟩ := Prog.run_trace ω' (tick done.state) tr'
    obtain ⟨own'', hown'', hticks'⟩ := tick_ticks ω' done.state tr'
    obtain rfl : own' = own'' := List.append_cancel_left (hown'.symm.trans hown'')
    refine ⟨own', hown', hticks.again hticks' fun id outcome hmem => ?_⟩
    obtain ⟨tr'', hreply⟩ := hanswers _ _ (mem_pollCalls.mp hmem)
    exact hnone tr'' id outcome hreply.symm

/-! ## A tick -/

def Job.asking (id count : Nat) : Job where
  id := id
  owner := ⟨1000, 1000, "user"⟩
  spec := { Submission.noop with count }
  state := .pending
  devices := []
  submittedAt := 5
  startedAt := none
  result := none

/-- Three cards, and three jobs that ask for two, two and one of them. -/
def Scheduler.crowded : Scheduler where
  store := ⟨3, [.asking 1 2, .asking 2 2, .asking 3 1]⟩
  inventory :=
    { devices := [⟨.nvidia, 0, "gpu", "GPU-a", none, none⟩,
        ⟨.nvidia, 1, "gpu", "GPU-b", none, none⟩, ⟨.nvidia, 2, "gpu", "GPU-c", none, none⟩]
      status := fun _ => some "idle"
      monitoringErrors := fun _ => none }
  maxRunning := 3
  excludedDevices := ∅

set_option maxRecDepth 10000 in
/-- The third job is started before the second, which fits no more. -/
theorem tick_greedy_crowded :
    let done := (tick .crowded).run instantWorkers []
    (startCalls done.trace).map (fun call => (call.1.id, call.1.devices.map (·.visible))) =
        [(1, ["GPU-a", "GPU-b"]), (3, ["GPU-c"])] ∧
      ∀ job ∈ done.state.store.jobs, job.state = .pending →
        allocate job.spec Scheduler.crowded.inventory.devices done.state.reserved = none := by
  intro done
  obtain ⟨_, _, _, _, hok⟩ := tick_greedy instantWorkers .crowded []
  refine ⟨by decide +kernel, ?_⟩
  have hroom : runningCount done.state.store < Scheduler.crowded.maxRunning := by decide +kernel
  exact (hok rfl).2.2.1 hroom

end Xlurm
