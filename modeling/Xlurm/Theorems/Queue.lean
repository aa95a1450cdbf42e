/-
  Xlurm.Theorems.Queue

  What `xqueue` lists: the latest of the jobs that match, at most a hundred, and
  the running ones first unless all jobs are asked for.
-/

import Xlurm.Lists.Order
import Xlurm.Model.Cli
import Xlurm.Os.Client
import Xlurm.Refine.System
import Xlurm.Run.Ops

namespace Xlurm

/-! ## The view -/

/-- The job is asked for. -/
def Listed (all : Bool) (job : JobSummary) : Prop := all = true ∨ job.state.terminal = false

/-- The jobs that are not over. -/
def activeJobs (jobs : List JobSummary) : List JobSummary :=
  jobs.filter fun job => !job.state.terminal

variable {all : Bool} {jobs shown shown' : List JobSummary} {job : JobSummary}

theorem mem_listed :
    (job ∈ jobs.filter fun job => all || !job.state.terminal) ↔ job ∈ jobs ∧ Listed all job := by
  rw [List.mem_filter, Bool.or_eq_true, Bool.not_eq_true', Listed]

theorem activeJobs_idem (jobs : List JobSummary) : activeJobs (activeJobs jobs) = activeJobs jobs := by
  rw [activeJobs, activeJobs, List.filter_filter]
  simp only [Bool.and_self]

/-- A job that is not over and does not run is pending. -/
theorem pending_iff (h : job.state.terminal = false) :
    (job.state != .running) = true ↔ job.state = .pending := by
  cases hstate : job.state <;> simp_all [State.terminal]

theorem visibleQueueJobs_all (jobs : List JobSummary) :
    visibleQueueJobs jobs true = jobs.rtake 100 := by
  show ((jobs.reverse.filter fun _ => true).take 100).reverse = _
  rw [Lists.reverse_take_filter_reverse, List.filter_true]

theorem visibleQueueJobs_active (jobs : List JobSummary) :
    visibleQueueJobs jobs false = ((activeJobs jobs).rtake 100).insertionSort
      fun a b => (a.state != .running) ≤ (b.state != .running) := by
  rw [activeJobs, ← Lists.reverse_take_filter_reverse]
  rfl

/-- Each of the latest jobs is in the view once. -/
theorem visibleQueueJobs_perm (jobs : List JobSummary) (all : Bool) :
    (visibleQueueJobs jobs all).Perm
      ((jobs.filter fun job => all || !job.state.terminal).rtake 100) := by
  cases all with
  | true =>
      show (visibleQueueJobs jobs true).Perm ((jobs.filter fun _ => true).rtake 100)
      rw [visibleQueueJobs_all, List.filter_true]
  | false =>
      rw [visibleQueueJobs_active]
      exact List.perm_insertionSort _ _

/-- The sort moves the running jobs to the front; the others are pending. -/
theorem visibleQueueJobs_split (jobs : List JobSummary) :
    visibleQueueJobs jobs false =
      (((activeJobs jobs).rtake 100).filter fun job => job.state = .running) ++
        ((activeJobs jobs).rtake 100).filter fun job => job.state = .pending := by
  have hactive : ∀ job ∈ (activeJobs jobs).rtake 100, job.state.terminal = false := by
    intro job hjob
    have hmem := (Lists.rtake_suffix _ _).subset hjob
    rw [activeJobs, List.mem_filter, Bool.not_eq_true'] at hmem
    exact hmem.2
  rw [visibleQueueJobs_active, Lists.insertionSort_bool]
  congr 1
  · apply List.filter_congr
    intro job _
    simp
  · apply List.filter_congr
    intro job hjob
    simp only [pending_iff (hactive job hjob)]

/-- The queue view.  With `all` it is the end of the list, at most a hundred jobs; otherwise
    it is the end of the list of the active jobs, the running ones before the pending ones and
    each group in the order of the list.  The jobs that are over do not matter for it. -/
theorem queue_view (jobs : List JobSummary) :
    (visibleQueueJobs jobs true <:+ jobs ∧
      (visibleQueueJobs jobs true).length = min 100 jobs.length) ∧
    (∃ latest, latest <:+ activeJobs jobs ∧ latest.length = min 100 (activeJobs jobs).length ∧
      (visibleQueueJobs jobs false).Perm latest ∧
      visibleQueueJobs jobs false =
        (latest.filter fun job => job.state = .running) ++
          latest.filter fun job => job.state = .pending) ∧
    visibleQueueJobs jobs false = visibleQueueJobs (activeJobs jobs) false := by
  have hall : visibleQueueJobs jobs true <:+ jobs ∧
      (visibleQueueJobs jobs true).length = min 100 jobs.length := by
    rw [visibleQueueJobs_all]
    exact ⟨Lists.rtake_suffix _ _, Lists.length_rtake _ _⟩
  have hover : visibleQueueJobs jobs false = visibleQueueJobs (activeJobs jobs) false := by
    rw [visibleQueueJobs_active, visibleQueueJobs_active, activeJobs_idem]
  refine ⟨hall, ⟨(activeJobs jobs).rtake 100, ?_, ?_, ?_, ?_⟩, hover⟩
  · exact Lists.rtake_suffix _ _
  · exact Lists.length_rtake _ _
  · exact visibleQueueJobs_perm jobs false
  · exact visibleQueueJobs_split jobs

/-! ## In submission order -/

/-- The order of the view. -/
def Above (all : Bool) (a b : JobSummary) : Prop :=
  (all = false ∧ a.state = .running ∧ b.state = .pending) ∨
    ((all = true ∨ a.state = b.state) ∧ a.id < b.id)

theorem Above.asymm {a b : JobSummary} (hab : Above all a b) (hba : Above all b a) : False := by
  -- The groups are not mixed.
  have hgroup : ∀ {a b : JobSummary},
      all = false ∧ a.state = .running ∧ b.state = .pending → ¬ Above all b a := by
    rintro a b ⟨rfl, ha, hb⟩ (⟨_, hb', _⟩ | ⟨heq | heq, _⟩)
    · exact absurd (hb.symm.trans hb') (by decide)
    · exact absurd heq (by decide)
    · exact absurd (hb.symm.trans (heq.trans ha)) (by decide)
  rcases hab with hrun | ⟨hsame, hlt⟩
  · exact hgroup hrun hba
  · rcases hba with hrun | ⟨_, hgt⟩
    · exact hgroup hrun (Or.inr ⟨hsame, hlt⟩)
    · omega

/-- What a view of jobs with ids is for: a job that is asked for is there, or a hundred newer
    ones are. -/
structure IsView (all : Bool) (jobs shown : List JobSummary) : Prop where
  listed : ∀ job ∈ shown, job ∈ jobs ∧ Listed all job
  bounded : shown.length ≤ 100
  ordered : shown.Pairwise (Above all)
  newest : ∀ job ∈ jobs, Listed all job →
    job ∈ shown ∨ (shown.length = 100 ∧ ∀ other ∈ shown, job.id < other.id)

namespace IsView

theorem nodup (h : IsView all jobs shown) : shown.Nodup := by
  refine h.ordered.imp ?_
  rintro a b hab rfl
  exact hab.asymm hab

theorem subset (h : IsView all jobs shown) (h' : IsView all jobs shown') : shown ⊆ shown' := by
  intro job hjob
  obtain ⟨hmem, hlisted⟩ := h.listed job hjob
  rcases h'.newest job hmem hlisted with hin | ⟨hfull, hnewer⟩
  · exact hin
  -- Otherwise `shown` has room for the hundred of `shown'` beside `job`.
  · by_contra hout
    have hall : ∀ other ∈ shown', other ∈ shown := by
      intro other hother
      obtain ⟨hmem', hlisted'⟩ := h'.listed other hother
      rcases h.newest other hmem' hlisted' with hin | ⟨_, holder⟩
      · exact hin
      · have hlt := hnewer other hother
        have hgt := holder job hjob
        omega
    have hsub : job :: shown' ⊆ shown := List.cons_subset.mpr ⟨hjob, hall⟩
    have hnodup : (job :: shown').Nodup := List.nodup_cons.mpr ⟨hout, h'.nodup⟩
    have hlength := (List.subperm_of_subset hnodup hsub).length_le
    have hbound := h.bounded
    rw [List.length_cons] at hlength
    omega

/-- There is only one such view. -/
theorem unique (h : IsView all jobs shown) (h' : IsView all jobs shown') : shown = shown' := by
  have hperm : shown.Perm shown' := by
    rw [List.perm_ext_iff_of_nodup h.nodup h'.nodup]
    exact fun job => ⟨fun hjob => h.subset h' hjob, fun hjob => h'.subset h hjob⟩
  refine hperm.eq_of_pairwise ?_ h.ordered h'.ordered
  intro a b _ _ hab hba
  exact (hab.asymm hba).elim

end IsView

theorem visibleQueueJobs_ordered (all : Bool) (hids : jobs.Pairwise fun a b => a.id < b.id) :
    (visibleQueueJobs jobs all).Pairwise (Above all) := by
  cases all with
  | true =>
      rw [visibleQueueJobs_all]
      have hlatest := hids.sublist (Lists.rtake_suffix jobs 100).sublist
      exact hlatest.imp fun hlt => Or.inr ⟨Or.inl rfl, hlt⟩
  | false =>
      have hlatest := (hids.filter fun job => !job.state.terminal).sublist
        (Lists.rtake_suffix _ 100).sublist
      have hstate : ∀ {state : State} {job : JobSummary},
          (job ∈ ((activeJobs jobs).rtake 100).filter fun job => job.state = state) →
          job.state = state :=
        fun hjob => of_decide_eq_true (List.mem_filter.mp hjob).2
      have hgroup : ∀ state : State, (((activeJobs jobs).rtake 100).filter fun job =>
          job.state = state).Pairwise (Above false) := by
        intro state
        apply (hlatest.filter _).imp_of_mem
        intro a b ha hb hlt
        exact Or.inr ⟨Or.inr ((hstate ha).trans (hstate hb).symm), hlt⟩
      rw [visibleQueueJobs_split, List.pairwise_append]
      refine ⟨hgroup .running, hgroup .pending, ?_⟩
      intro a ha b hb
      exact Or.inl ⟨rfl, hstate ha, hstate hb⟩

theorem visibleQueueJobs_isView (all : Bool) (hids : jobs.Pairwise fun a b => a.id < b.id) :
    IsView all jobs (visibleQueueJobs jobs all) := by
  have hperm := visibleQueueJobs_perm jobs all
  have hlisted := hids.filter fun job => all || !job.state.terminal
  refine ⟨?_, ?_, visibleQueueJobs_ordered all hids, ?_⟩
  · intro job hjob
    exact mem_listed.mp ((Lists.rtake_suffix _ _).subset (hperm.mem_iff.mp hjob))
  · rw [hperm.length_eq, Lists.length_rtake]
    exact Nat.min_le_left _ _
  · intro job hjob hmatch
    rw [hperm.mem_iff, hperm.length_eq]
    rcases Lists.mem_rtake_or hlisted (mem_listed.mpr ⟨hjob, hmatch⟩) 100 with hin | ⟨hfull, hlt⟩
    · exact Or.inl hin
    · exact Or.inr ⟨hfull, fun other hother => hlt other (hperm.mem_iff.mp hother)⟩

/-! ## In every run -/

/-- In every state of every run, what `xqueue` lists when the daemon answers it is the view of
    the jobs in memory. -/
theorem queue_listed (euid : Nat) (actions : List Action) :
    let sys := System.init.run euid actions
    ∀ s, sys.mem = some s → ∀ (uid gid : Nat) (ω : Env) (tr : Calls) (all : Bool), ∃ shown,
      queueListing (Response.ofResult
        ((handle euid uid gid .queue s).run ω tr).value).received all = .ok shown ∧
      IsView all (s.store.jobs.map JobSummary.from) shown := by
  intro sys s hs uid gid ω tr all
  have hinv : Inv sys.ledger := (System.init_good.run euid actions).reach.inv
  have hmem : sys.ledger.mem = some s.store := System.ledger_mem hs
  have hids : (s.store.jobs.map JobSummary.from).Pairwise fun a b => a.id < b.id :=
    List.pairwise_map.mpr (hinv.memOrdered _ hmem).increasing
  refine ⟨visibleQueueJobs (s.store.jobs.map JobSummary.from) all, ?_,
    visibleQueueJobs_isView all hids⟩
  rw [handle_queue]
  rfl

end Xlurm
