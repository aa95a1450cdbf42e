/-
  Xlurm.Theorems.Artifacts

  No file of a job outlives the job's record in `state.json`.

  A file of a job is made only while the job runs on disk.  An id leaves the
  persisted store in one way, the save of a cleanup, and that save comes after a
  sweep of the whole directory in which every file of the id was deleted or was
  not there.  No worker of a finished job is left to make another one.
-/

import Xlurm.Refine.System

namespace Xlurm

variable {sys : System} {id : Nat} {ext : Ext}

/-- A file of a job, and the job that a store still has. -/
structure System.Tracked (sys : System) (id : Nat) (ext : Ext) : Prop where
  /-- The id is present in the persisted store. -/
  disk : ∃ job ∈ sys.world.disk.jobs, job.id = id
  /-- A running daemon has it too. -/
  mem : ∀ s, sys.mem = some s → ∃ job ∈ s.store.jobs, job.id = id
  /-- A cleanup that forgets the id takes the file for one of its own. -/
  name : parseJobFile (Path.job id ext).fileName.toList = some (id, true)

theorem System.Good.tracked (h : sys.Good Ledger.init) {f : File}
    (hf : sys.world.file (.job id ext) = some f) : sys.Tracked id ext := by
  have hinv : Inv sys.ledger := h.reach.inv
  obtain ⟨hbegun, hfits⟩ := h.sound.files.artifacts id ext f hf
  obtain ⟨job, hjob, hid, hstate⟩ := hbegun
  refine ⟨⟨job, hjob, hid⟩, ?_, ?_⟩
  · intro s hs
    have hmem : sys.ledger.mem = some s.store := System.ledger_mem hs
    -- What is on disk and no longer pending was never taken off the store in memory.
    obtain ⟨job', hjob', hid', _⟩ := hinv.covered s.store hmem job hjob hstate
    exact ⟨job', hjob', hid'.trans hid⟩
  · have hlt : id < 2 ^ 64 := hid ▸ hinv.bounded job (Or.inl hjob)
    rw [parseJobFile_fileName, if_pos hlt, hfits.isJobExtension]

/-- No orphaned artifacts.  In every state of every run, with any operations, failing
    calls, killed workers and crashes, each file that exists for a job id belongs to an
    id that the persisted store has, and a later cleanup finds the job and the file. -/
theorem artifacts_tracked (euid : Nat) (actions : List Action) (id : Nat) (ext : Ext) :
    let sys := System.init.run euid actions
    sys.world.file (.job id ext) = none ∨ sys.Tracked id ext := by
  intro sys
  have hgood : sys.Good Ledger.init := System.init_good.run euid actions
  cases hf : sys.world.file (.job id ext) with
  | none => exact Or.inl rfl
  | some f => exact Or.inr (hgood.tracked hf)

end Xlurm
