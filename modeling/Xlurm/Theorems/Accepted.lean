/-
  Xlurm.Theorems.Accepted

  Accepted jobs: their ids grow over the whole run and are never reused, and
  the job is in every store until a cleanup removes it.
-/

import Xlurm.Ledger.Kept
import Xlurm.Refine.System
import Xlurm.Run.Ops

namespace Xlurm

open Prog.Comp

/-! ## The last id -/

/-- When the ids are exhausted, `submit` fails and changes nothing. -/
theorem submit_exhausted {s : Scheduler} (hlast : s.store.nextId + 1 = 2 ^ 64)
    (spec : Submission) (owner : Owner) (ω : Prog.Oracle Call Call.Reply)
    (tr : Prog.Trace Call Call.Reply) :
    (∃ e, ((submit spec owner s).run ω tr).value = .error e) ∧
      ((submit spec owner s).run ω tr).state = s := by
  have hwp : wp (Prog.Spec.oracle Scheduler ω) (submit spec owner) (fun s' r _ =>
      (∃ e, r = .error e) ∧ s' = s) s tr := by
    refine wp_quiet (checkSubmission_quiet spec) ?_ fun e _ => ⟨⟨e, rfl⟩, rfl⟩
    intro spec' tr'
    rw [wp_bind, wp_get, andThen_ok, wp_bind, wp_ensure]
    refine ⟨fun hlt => ?_, fun _ => ⟨⟨_, rfl⟩, rfl⟩⟩
    omega
  exact wp_oracle.mp hwp

/-! ## Whole runs -/

/-- The store has exactly one job with the id of `job`, with the same owner and the
    same spec. -/
def Store.Keeps (store : Store) (job : Job) : Prop :=
  ∃ job' ∈ store.jobs, job'.id = job.id ∧ job'.owner = job.owner ∧ job'.spec = job.spec ∧
    ∀ other ∈ store.jobs, other.id = job.id → other = job'

theorem Store.Ordered.keeps {store : Store} (h : store.Ordered) {job : Job}
    (hhas : store.Has job.id)
    (hsame : ∀ job' ∈ store.jobs, job'.id = job.id → job'.owner = job.owner ∧
      job'.spec = job.spec) : store.Keeps job := by
  obtain ⟨job', hj, hid⟩ := hhas
  obtain ⟨howner, hspec⟩ := hsame job' hj hid
  refine ⟨job', hj, hid, howner, hspec, ?_⟩
  intro other hother hother_id
  exact h.eq_of_id hother hj (hother_id.trans hid.symm)

/-- In every run the ids of accepted submissions grow, the stores are ordered, an
    accepted job is in both stores until a cleanup that found it expired takes it
    off the disk, and no id is drawn beyond the 64-bit range. -/
theorem accepted_kept (euid : Nat) (actions : List Action) :
    let sys := System.init.run euid actions
    sys.world.hist.accepted.Pairwise (· > ·) ∧
    sys.world.disk.Ordered ∧ (∀ s, sys.mem = some s → s.store.Ordered) ∧
    (∀ (newer : Hist) (e : Entry) (older : Hist) uid gid spec job before after,
      sys.world.hist = newer ++ e :: older →
      e.event = .answered uid gid (.submit spec) (.job job) before after →
        (sys.world.disk.Keeps job ∧ ∀ s, sys.mem = some s → s.store.Keeps job) ∨
          newer.Removed sys.world.disk job.id) ∧
    (∀ (s : Scheduler) spec owner ω tr, s.store.nextId + 1 = 2 ^ 64 →
      (∃ e, ((submit spec owner s).run ω tr).value = .error e) ∧
        ((submit spec owner s).run ω tr).state = s) := by
  intro sys
  have hreach : Reach Ledger.init sys.ledger := run_reach euid actions
  have hinv : Inv sys.ledger := hreach.inv
  have hmem : ∀ s, sys.mem = some s → sys.ledger.mem = some s.store := fun _ => System.ledger_mem
  refine ⟨hinv.accepted_sorted, hinv.diskOrdered, fun s hs => hinv.memOrdered _ (hmem s hs), ?_,
    fun s spec owner ω tr hlast => submit_exhausted hlast spec owner ω tr⟩
  intro newer e older uid gid spec job before after heq hev
  -- The run is cut at the answer: `Kept` holds after it and in every later state.
  obtain ⟨L₁, L₂, h₁, hs, hold, hadd, h₂⟩ := hreach.added_init heq
  have hkept₂ : Kept L₂.view.hist job L₂ := Kept.answered hs h₁.inv hadd hev
  have hkept : Kept L₂.view.hist job sys.ledger := by
    refine hkept₂.run (h₁.inv.step hs) ?_ h₂
    intro e' rest timestamp mem hhead hcleaning
    -- The answer itself is no cleanup.
    obtain rfl := (List.cons.inj (hadd.symm.trans hhead)).1
    rw [hev] at hcleaning
    cases hcleaning
  obtain ⟨newer', hnewer', hpresent⟩ := hkept.present
  have hnewer : newer = newer' := by
    rw [hadd, hold] at hnewer'
    exact List.append_cancel_right (heq.symm.trans hnewer')
  rcases hpresent with hholds | hremoved
  · refine Or.inl ⟨hinv.diskOrdered.keeps hholds.disk fun job' hj => hkept.same job' (Or.inl hj), ?_⟩
    intro s hs'
    exact (hinv.memOrdered _ (hmem s hs')).keeps (hholds.mem _ (hmem s hs')) fun job' hj =>
      hkept.same job' (Or.inr ⟨_, hmem s hs', hj⟩)
  · exact Or.inr (hnewer ▸ hremoved)

end Xlurm
