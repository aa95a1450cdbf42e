/-
  Xlurm.Theorems.AtMostOnce

  A job is handed to the executor at most once in its life, and only after its
  start is on disk; a job whose worker was lost is found out by the next tick.
-/

import Xlurm.Ledger.Orphan
import Xlurm.Refine.System

namespace Xlurm

/-- Job `id` runs on disk, but no worker is alive for it and there is no result. -/
structure System.LeftBehind (sys : System) (id : Nat) : Prop where
  running : ∃ job ∈ sys.world.disk.jobs, job.id = id ∧ job.state = .running
  dead : ∀ wk ∈ sys.world.workers, wk.job.id ≠ id
  unfinished : sys.world.file (.job id .result) = none

variable {sys : System} {L₀ : Ledger} {id : Nat}

/-- A running daemon at rest is outside of a tick and has polled or started what runs. -/
theorem idle_at_rest (hgood : sys.Good L₀) (hrest : sys.AtRest) {m : Store}
    (hm : sys.ledger.mem = some m) : Idle m sys.world.view := by
  cases hd : sys.daemon with
  | none =>
      simp only [System.ledger, System.mem, hd] at hm
      cases hm
  | some prog =>
      obtain ⟨st, rfl⟩ := hrest prog hd
      simp only [System.Good, hd] at hgood
      simp only [System.ledger, System.mem, hd] at hm
      cases hm
      exact hgood.2.2 rfl

/-- Between two operations all stored versions of a job that runs on disk run. -/
theorem stored_running (hgood : sys.Good L₀) (hrest : sys.AtRest) {job : Job}
    (hj : job ∈ sys.world.disk.jobs) (hrun : job.state = .running) {job' : Job}
    (hj' : sys.ledger.Stored job') (hid : job'.id = job.id) : job' = job := by
  have hinv := hgood.reach.inv
  rcases hj' with hj' | ⟨m, hm, hj'⟩
  · exact hinv.diskOrdered.eq_of_id hj' hj hid
  · have hidle : Idle m sys.world.view := idle_at_rest hgood hrest hm
    exact (hinv.memOrdered m hm).eq_of_id hj' (hidle.mem job hj hrun) hid

theorem System.LeftBehind.orphaned (h : sys.LeftBehind id) (hgood : sys.Good L₀)
    (hrest : sys.AtRest) : Orphaned sys.ledger id := by
  obtain ⟨job, hj, rfl, hrun⟩ := h.running
  have hinv := hgood.reach.inv
  have hstored : ∀ job', sys.ledger.Stored job' → job'.id = job.id → job' = job :=
    fun job' hj' hid => stored_running hgood hrest hj hrun hj' hid
  refine ⟨?_, ?_, ⟨⟨job, hj, rfl⟩, ?_⟩, ?_, ?_, ?_, ?_⟩
  · intro job' hj'
    obtain ⟨wk, hwk, rfl⟩ := List.mem_map.mp hj'
    exact h.dead wk hwk
  · intro o hpub
    have hsome := hgood.sound.files.published job.id o hpub job hj rfl hrun
    rw [h.unfinished] at hsome
    cases hsome
  · intro m hm
    exact ⟨job, (idle_at_rest hgood hrest hm).mem job hj hrun, rfl⟩
  · intro job' hj' hid
    rw [hstored job' hj' hid]
    exact Or.inl hrun
  · intro _ job' hj' hid
    rw [hstored job' hj' hid]
    exact hrun
  · intro m hm hopen
    have hclosed : sys.ledger.view.hist.tickOpen = false := (idle_at_rest hgood hrest hm).closed
    rw [hclosed] at hopen
    cases hopen
  · intro m hm _ _ _ _ _ _
    exact (idle_at_rest hgood hrest hm).closed

theorem System.LeftBehind.barred (h : sys.LeftBehind id) (hgood : sys.Good L₀)
    (hrest : sys.AtRest) : Barred sys.ledger id := by
  obtain ⟨job, hj, rfl, hrun⟩ := h.running
  have hinv := hgood.reach.inv
  refine ⟨⟨?_, hinv.diskOrdered.bounded job hj⟩, ?_⟩
  · intro job' hj' hid
    rw [stored_running hgood hrest hj hrun hj' hid, hrun]
    simp
  · intro m hm job' hj' hid hrun'
    have hset := (idle_at_rest hgood hrest hm).settled job' hj' hrun'
    exact Or.inl (hid ▸ hset)

/-- What is on disk when a job is handed to the executor. -/
theorem started_on_disk {L : Ledger} (hr : Reach Ledger.init L) {e : Entry} (he : e ∈ L.view.hist)
    {job : Job} (hev : e.event = .started job) : job ∈ e.disk.jobs ∧ job.state = .running := by
  obtain ⟨newer, older, heq⟩ := List.append_of_mem he
  obtain ⟨L₁, L₂, _, hs, _, hadd, _⟩ := hr.added_init heq
  obtain ⟨m, _, _, legit, hentry⟩ := hs.logged hadd hev (by simp) (by simp)
  cases legit with
  | started _ running _ disk =>
      have hdisk : e.disk = L₁.view.disk := by rw [hentry]
      rw [hdisk]
      exact ⟨disk, running⟩

/-- At-most-once execution, in every run.  `executor.start` is called at most once
    for a job, and then the job runs on disk, on the same devices.  Once a job is
    left behind while the daemon is down or between two operations, it is never
    started again, and the first tick that goes through has made it failed. -/
theorem started_at_most_once (euid : Nat) (actions : List Action) :
    let sys := System.init.run euid actions
    sys.world.hist.started.Nodup ∧ sys.world.hist.spawned.Nodup ∧
    (∀ e ∈ sys.world.hist, ∀ job, e.event = .started job →
      job ∈ e.disk.jobs ∧ job.state = .running) ∧
    ∀ id, sys.AtRest → sys.LeftBehind id → ∀ later : List Action,
      ∃ new : Hist, (sys.run euid later).world.hist = new ++ sys.world.hist ∧ id ∉ new.started ∧
        ∀ (newer : Hist) (e : Entry) (older : Hist), new = newer ++ e :: older →
          e.event = .ticked → (∀ e' ∈ older, e'.event ≠ .ticked) →
          ∃ job ∈ e.disk.jobs, job.id = id ∧ job.state = .failed ∧
            ∃ now, job.result = some (disappeared now) := by
  intro sys
  have hgood : sys.Good Ledger.init := System.init_good.run euid actions
  have hinv : Inv sys.ledger := hgood.reach.inv
  refine ⟨hinv.started_nodup, hinv.spawned_nodup,
    fun e he job hev => started_on_disk hgood.reach he hev, ?_⟩
  intro id hrest hleft later
  -- the rest of the run, as a run from where the job was left behind
  have hreach : Reach sys.ledger (sys.run euid later).ledger :=
    ((hgood.rebase hrest).run euid later).reach
  obtain ⟨new, hnew⟩ := hreach.hist_suffix
  have hhist : (sys.run euid later).world.hist = new ++ sys.world.hist := hnew.symm
  refine ⟨new, hhist, ?_, ?_⟩
  · have hnodup : (sys.run euid later).ledger.view.hist.started.Nodup := hreach.inv.started_nodup
    have hold := ((hleft.barred hgood hrest).run hinv hreach).2
    intro hid
    have happend : (sys.run euid later).ledger.view.hist.started =
        Hist.started new ++ sys.world.hist.started := by
      show Hist.ids Event.starts (sys.run euid later).world.hist = _
      rw [hhist, Hist.ids_append]
    rw [happend] at hnodup hold
    have hearly : id ∈ sys.world.hist.started := hold (List.mem_append_left _ hid)
    exact (List.nodup_append.mp hnodup).2.2 id hid id hearly rfl
  · rintro newer e older rfl hev hfirst
    have hsplit : (sys.run euid later).ledger.view.hist =
        newer ++ e :: (older ++ sys.ledger.view.hist) := by
      rw [← hnew, List.append_assoc, List.cons_append]
    exact (hleft.orphaned hgood hrest).found hinv hreach hsplit hev hfirst

/-- The job is started; then its worker is killed and the daemon crashes. -/
def abandoned : List Action :=
  submitted ++ [.begin .tick] ++ List.replicate 25 (.daemon Sys.fair) ++ [.kill 100, .crash]

set_option maxRecDepth 10000 in
/-- The daemon that is booted next does not start the job again, and its first tick
    finds that it has failed. -/
theorem abandoned_found :
    ∃ new : Hist, (System.run 0 (System.init.run 0 abandoned) ([.boot 1 .none 1 []] ++
        List.replicate 30 (.daemon Sys.fair))).world.hist =
          new ++ (System.init.run 0 abandoned).world.hist ∧ 1 ∉ new.started ∧
      ∀ (newer : Hist) (e : Entry) (older : Hist), new = newer ++ e :: older →
        e.event = .ticked → (∀ e' ∈ older, e'.event ≠ .ticked) →
        ∃ job ∈ e.disk.jobs, job.id = 1 ∧ job.state = .failed ∧
          ∃ now, job.result = some (disappeared now) := by
  have hdown : (System.init.run 0 abandoned).daemon.isSome = false := by decide
  have hrest : (System.init.run 0 abandoned).AtRest := by
    intro prog hprog
    rw [hprog] at hdown
    cases hdown
  have hleft : (System.init.run 0 abandoned).LeftBehind 1 :=
    ⟨by decide, by decide, by rfl⟩
  exact (started_at_most_once 0 abandoned).2.2.2 1 hrest hleft _

end Xlurm
