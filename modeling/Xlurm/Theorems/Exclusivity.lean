/-
  Xlurm.Theorems.Exclusivity

  No device is ever given to two jobs, whatever crashes and restarts happen in
  between.
-/

import Xlurm.Refine.System

namespace Xlurm

/-- The store in memory and the persisted one, whichever exist. -/
def System.Stored (sys : System) (job : Job) : Prop := sys.ledger.Stored job

/-- In every state of every run, a live worker's job runs on disk with the devices
    that the worker was started with, and running jobs, hence live workers, have
    no device in common. -/
theorem devices_exclusive (euid : Nat) (actions : List Action) :
    let sys := System.init.run euid actions
    (∀ wk ∈ sys.world.workers, wk.job ∈ sys.world.disk.jobs ∧ wk.job.state = .running ∧
      ∀ job ∈ sys.world.disk.jobs, job.id = wk.job.id → job = wk.job) ∧
    (∀ job job', sys.Stored job → sys.Stored job' → job.state = .running →
      job'.state = .running → job.id ≠ job'.id → Apart job.devices job'.devices) ∧
    (∀ wk ∈ sys.world.workers, ∀ wk' ∈ sys.world.workers, wk.pid ≠ wk'.pid →
      Apart wk.job.devices wk'.job.devices) := by
  intro sys
  have hgood : sys.Good Ledger.init := System.init_good.run euid actions
  have hinv : Inv sys.ledger := hgood.reach.inv
  have hlive : ∀ wk ∈ sys.world.workers, wk.job.state = .running ∧
      wk.job ∈ sys.world.disk.jobs := by
    intro wk hwk
    obtain ⟨hrun, hdisk, _⟩ := hinv.live wk.job (List.mem_map_of_mem hwk)
    exact ⟨hrun, hdisk⟩
  refine ⟨?_, hinv.apart, ?_⟩
  · intro wk hwk
    obtain ⟨hrun, hdisk⟩ := hlive wk hwk
    exact ⟨hdisk, hrun, fun job hj hid => hinv.diskOrdered.eq_of_id hj hdisk hid⟩
  · intro wk hwk wk' hwk' hpid
    have hid : wk.job.id ≠ wk'.job.id := by
      intro heq
      have hsame := List.inj_on_of_nodup_map hgood.sound.files.ids hwk hwk' heq
      exact hpid (congrArg Worker.pid hsame)
    obtain ⟨hrun, hdisk⟩ := hlive wk hwk
    obtain ⟨hrun', hdisk'⟩ := hlive wk' hwk'
    exact hinv.apart wk.job wk'.job (Or.inl hdisk) (Or.inl hdisk') hrun hrun' hid

end Xlurm
