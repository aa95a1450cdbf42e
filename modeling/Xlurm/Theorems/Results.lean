/-
  Xlurm.Theorems.Results

  What is recorded for a job that had a worker: the result that the worker
  renamed into place, or that it disappeared if there was none.

  `poll` asks `Path::exists` whether there is a result, and a failed `stat` is a
  worker that disappeared.
-/

import Xlurm.Ledger.History
import Xlurm.Refine.System

namespace Xlurm

variable {L L' : Ledger}

/-- A stored job that had a worker runs, or has the outcome that a poll reported. -/
def Recorded (L : Ledger) : Prop :=
  ∀ job, L.Stored job → job.id ∈ L.view.hist.spawned → job.state = .running ∨
    ∃ outcome, job.result = some outcome ∧ job.state = outcome.state ∧
      ∃ e ∈ L.view.hist, e.event = .polled job.id (some outcome)

theorem Recorded.init : Recorded Ledger.init := by
  rintro job (hj | ⟨_, ⟨⟩, _⟩)
  cases hj

/-- More history. -/
theorem Recorded.grow (hr : Recorded L) {job : Job} (hj : L.Stored job)
    (hspawned : job.id ∈ L.view.hist.spawned) {hist : Hist} (hsub : L.view.hist ⊆ hist) :
    job.state = .running ∨ ∃ outcome, job.result = some outcome ∧ job.state = outcome.state ∧
      ∃ e ∈ hist, e.event = .polled job.id (some outcome) := by
  rcases hr job hj hspawned with hrun | ⟨outcome, hres, hstate, e, he, hev⟩
  · exact Or.inl hrun
  · exact Or.inr ⟨outcome, hres, hstate, e, hsub he, hev⟩

theorem Recorded.step (h : Inv L) (hs : Step L L') (hr : Recorded L) : Recorded L' := by
  intro job hj hspawned
  have hset := Hist.started_settled (h.spawned_started_step hs job.id hspawned)
  have hnot : job.state ≠ .pending := (h.past_step hs job.id hset).pending job hj rfl
  rcases hs.stored hj with hold | ⟨hpend, _⟩ | ⟨m, job₁, hm, hj₁, change, hsame⟩
  · rcases hs.ids_hist hspawned with hsp | ⟨_, event, _, _, hev, legit⟩ |
      ⟨m, job₁, hm, hnow, running, mem, disk, _, _, hmem⟩ | hboot
    · exact hr.grow hold hsp hs.hist_subset
    · cases legit <;> cases hev
    -- the job that gets its worker now
    · have hid : job.id = job₁.id := (Option.some.inj hnow).symm
      have hsame : job = job₁ := by
        rcases hj with hj | ⟨m', hm', hj⟩
        · exact (h.diskOrdered_step hs).eq_of_id hj disk hid
        · obtain rfl : m' = m := Option.some.inj (hm'.symm.trans (hmem.trans hm))
          exact (h.memOrdered m' hm).eq_of_id hj mem hid
      exact Or.inl (hsame ▸ running)
    · cases hboot
  · exact absurd hpend hnot
  -- the job was past before, so the change records a poll
  · rw [hsame, change.id_eq] at hspawned
    have hset₁ := Hist.started_settled (h.spawned_started _ hspawned)
    have hnot₁ := (h.past _ hset₁).pending job₁ (Or.inr ⟨m, hm, hj₁⟩) rfl
    rw [hsame]
    cases change with
    | cancel now pending => exact absurd pending hnot₁
    | mark devices now pending => exact absurd pending hnot₁
    | fail outcome running opening unspawned => exact absurd hspawned unspawned
    | record outcome running polled => exact Or.inr ⟨outcome, rfl, rfl, polled⟩

/-- A poll reports an outcome only when the worker is gone. -/
theorem polled_alone (hr : Reach Ledger.init L) {e : Entry} (he : e ∈ L.view.hist) {id : Nat}
    {outcome : Outcome} (hev : e.event = .polled id (some outcome)) : id ∉ e.live := by
  obtain ⟨newer, older, heq⟩ := List.append_of_mem he
  obtain ⟨L₁, L₂, _, hs, _, hadd, _⟩ := hr.added_init heq
  obtain ⟨m, _, _, legit, hentry⟩ := hs.logged hadd hev (by simp) (by simp)
  cases legit with
  | polled _ _ running waiting finished =>
      intro hlive
      rw [hentry] at hlive
      obtain ⟨job, hj, hid⟩ := List.mem_map.mp hlive
      exact (finished outcome rfl).1 job hj hid

/-- `outcome` is the one published result of job `id`, or there is none and its worker
    disappeared. -/
def View.Exact (v : View) (id : Nat) (outcome : Outcome) : Prop :=
  ((id, outcome) ∈ v.published ∧ ∀ o, (id, o) ∈ v.published → o = outcome) ∨
    ((∀ o, (id, o) ∉ v.published) ∧ ∃ now, outcome = disappeared now)

theorem View.Reports.exact {v : View} {id : Nat} {outcome : Outcome} (h : v.Reports id outcome)
    (hseen : .job id .result ∉ v.misread) : v.Exact id outcome :=
  h.imp_right fun ⟨hnone, hnow⟩ => ⟨hnone.resolve_right hseen, hnow⟩

/-- The worker of job 1 ends while no daemon runs; the next one polls in its first tick. -/
def unattended (env : (c : Sys) → c.Raw) : List Action :=
  startedNoop ++ [.crash] ++ List.replicate 30 (.worker 100 Sys.fair) ++
    [.kill 100, .boot 1 .none 1 []] ++ List.replicate 20 (.daemon env)

def Outcome.success : Outcome where
  state := .completed
  exitCode := 0
  finishedAt := 5
  error := none

end Xlurm
