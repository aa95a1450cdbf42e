/-
  Xlurm.Ledger.History

  From the state of the ledger to its history: every entry was added by a step,
  and what holds then can be carried on to the end of the run.
-/

import Xlurm.Ledger.Inv

namespace Xlurm

open Relation (ReflTransGen)

variable {L₀ L L' L'' : Ledger} {e : Entry} {newer older : Hist}

/-! ## Runs and entries -/

theorem Inv.steps (h : Inv L₀) (hs : ReflTransGen Step L₀ L) : Inv L := by
  induction hs with
  | refl => exact h
  | tail _ hstep ih => exact ih.step hstep

namespace Reach

theorem trans (h : Reach L₀ L) (h' : Reach L L') : Reach L₀ L' :=
  ⟨h'.inv, h.steps.trans h'.steps⟩

/-- An invariant of the steps holds at the end if it holds at the beginning. -/
theorem keeps {I : Ledger → Prop} (h : Reach L₀ L) (h₀ : Inv L₀) (hI : I L₀)
    (hstep : ∀ L L', Inv L → Step L L' → I L → I L') : I L := by
  have hsteps := h.steps
  clear h
  induction hsteps with
  | refl => exact hI
  | tail hs hnext ih => exact hstep _ _ (h₀.steps hs) hnext ih

/-- The history of an earlier state is still there. -/
theorem hist_suffix (h : Reach L₀ L) : L₀.view.hist <:+ L.view.hist := by
  have hsteps := h.steps
  clear h
  induction hsteps with
  | refl => exact List.suffix_refl _
  | tail _ hnext ih =>
      rcases hnext.hist with heq | ⟨e, heq⟩
      · rw [heq]
        exact ih
      · rw [heq]
        exact ih.trans (List.suffix_cons _ _)

/-- Every entry of the run from `L₀` was added by one of its steps. -/
theorem added (h : Reach L₀ L) (h₀ : Inv L₀) (hsuffix : L₀.view.hist <:+ older)
    (heq : L.view.hist = newer ++ e :: older) :
    ∃ L₁ L₂, Reach L₀ L₁ ∧ Step L₁ L₂ ∧ L₁.view.hist = older ∧
      L₂.view.hist = e :: L₁.view.hist ∧ Reach L₂ L := by
  obtain ⟨_, hsteps⟩ := h
  -- Induction on the run: its last step added `e`, or `e` lies in the run before it.
  induction hsteps generalizing newer with
  | refl =>
      have hlen := hsuffix.length_le
      rw [heq, List.length_append, List.length_cons] at hlen
      omega
  | @tail b c hs hnext ih =>
      have hb := h₀.steps hs
      rcases hnext.hist with hsame | ⟨e', hadd⟩
      · obtain ⟨L₁, L₂, h₁, hstep, hold, hnew, h₂⟩ :=
          ih (hsame ▸ heq : b.view.hist = newer ++ e :: older) hb
        exact ⟨L₁, L₂, h₁, hstep, hold, hnew, h₂.step hnext⟩
      · cases newer with
        | nil =>
            rw [hadd, List.nil_append] at heq
            obtain ⟨rfl, hold⟩ := List.cons.inj heq
            exact ⟨b, c, ⟨hb, hs⟩, hnext, hold, hadd, Reach.refl (hb.step hnext)⟩
        | cons e₁ newer =>
            rw [hadd, List.cons_append] at heq
            obtain ⟨L₁, L₂, h₁, hstep, hold, hnew, h₂⟩ := ih (List.cons.inj heq).2 hb
            exact ⟨L₁, L₂, h₁, hstep, hold, hnew, h₂.step hnext⟩

/-- The same for a run from the empty ledger, where every entry counts. -/
theorem added_init (h : Reach Ledger.init L) (heq : L.view.hist = newer ++ e :: older) :
    ∃ L₁ L₂, Reach Ledger.init L₁ ∧ Step L₁ L₂ ∧ L₁.view.hist = older ∧
      L₂.view.hist = e :: L₁.view.hist ∧ Reach L₂ L :=
  h.added Inv.init (List.nil_suffix) heq

end Reach

/-! ## Jobs that will not be started -/

/-- Job `id` will not be started any more: it is not pending anywhere, and where
    it runs in memory the executor knows about it, or did not get it for this
    operation. -/
structure Barred (L : Ledger) (id : Nat) : Prop where
  past : L.Past id
  running : ∀ m, L.mem = some m → ∀ job ∈ m.jobs, job.id = id → job.state = .running →
    id ∈ L.view.hist.settled ∨ ¬ L.view.hist.PendingAtOpening id

namespace Hist

/-- Only the beginning of an operation, or a restart, makes a job newly pending at
    the opening. -/
theorem PendingAtOpening.cons {hist : Hist} {id : Nat}
    (h : PendingAtOpening (e :: hist) id) :
    hist.PendingAtOpening id ∨ ∃ op mem, e.event = .began op mem ∧
      ∃ job ∈ mem.jobs, job.id = id ∧ job.state = .pending := by
  obtain ⟨mem, live, hopen, hjob⟩ := h
  cases hev : e.event with
  | began op m =>
      simp only [opening, hev] at hopen
      cases hopen
      exact Or.inr ⟨op, _, rfl, hjob⟩
  | booted =>
      simp only [opening, hev] at hopen
      cases hopen
  | _ =>
      simp only [opening, hev] at hopen
      exact Or.inl ⟨mem, live, hopen, hjob⟩

end Hist

namespace Barred

variable {id : Nat}

/-- A barred job stays barred. -/
theorem step (h : Inv L) (hs : Step L L') (hb : Barred L id) : Barred L' id := by
  have hpast := h.past_keep hs hb.past
  refine ⟨hpast, ?_⟩
  intro m' hm' job hj hid hrun
  -- Without a new entry nothing changes; a new entry only adds to what the executor knows,
  -- and a new operation finds no pending version of the job.
  have keep : ∀ m, L.mem = some m → job ∈ m.jobs → L'.view.hist = L.view.hist →
      id ∈ L'.view.hist.settled ∨ ¬ L'.view.hist.PendingAtOpening id := by
    intro m hm hj hhist
    rw [hhist]
    exact hb.running m hm job hj hid hrun
  have grow : ∀ m e, L.mem = some m → job ∈ m.jobs → L'.view.hist = e :: L.view.hist →
      (∀ op mem, e.event = .began op mem → mem = m) →
      id ∈ L'.view.hist.settled ∨ ¬ L'.view.hist.PendingAtOpening id := by
    intro m e hm hj hhist hbegan
    rw [hhist]
    rcases hb.running m hm job hj hid hrun with hset | hopen
    · exact Or.inl (Hist.mem_ids_cons.mpr (Or.inr hset))
    · refine Or.inr fun hpend => ?_
      rcases hpend.cons with hold | ⟨op, mem, hev, job₁, hj₁, hid₁, hstate⟩
      · exact hopen hold
      · obtain rfl := hbegan op mem hev
        exact hb.past.pending job₁ (Or.inr ⟨mem, hm, hj₁⟩) hid₁ hstate
  cases hs with
  | die | publish | misread => exact keep m' hm' hj rfl
  | log m v event legit =>
      cases hm'
      refine grow m' _ rfl hj rfl ?_
      rintro op mem rfl
      cases legit
      rfl
  | spawn m v job₁ =>
      cases hm'
      exact grow m' _ rfl hj rfl (by rintro _ _ ⟨⟩)
  | save m v => cases hm'; exact keep m' rfl hj rfl
  | saveRetained m v => cases hm'; exact keep m' rfl hj rfl
  | retain m v =>
      cases hm'
      exact keep m rfl (Store.mem_retain.mp hj).1 rfl
  | push m v job₁ uid gid spec disk live rest head next pending =>
      cases hm'
      rcases List.mem_append.mp hj with hj | hj
      · exact keep m rfl hj rfl
      · rw [List.mem_singleton.mp hj, pending] at hrun
        cases hrun
  | pop nextId jobs v job₁ =>
      cases hm'
      exact keep _ rfl (List.mem_append_left _ hj) rfl
  | set m v i job₁ job' at_i change =>
      cases hm'
      rcases Store.mem_setJob hj with rfl | hj
      -- only a pending job is marked
      · obtain ⟨hpend, _⟩ := h.marked rfl change hrun
        have hstored : Ledger.Stored ⟨some m, v⟩ job₁ :=
          Or.inr ⟨m, rfl, List.mem_of_getElem? at_i⟩
        exact absurd hpend (hb.past.pending job₁ hstored (change.id_eq ▸ hid))
      · exact keep m rfl hj rfl
  | crash => cases hm'
  | boot v =>
      refine Or.inr ?_
      rintro ⟨mem, live, hopen, _⟩
      cases hopen

/-- A step does not start a barred job. -/
theorem unstarted (hs : Step L L') (hb : Barred L id) (hid : id ∈ L'.view.hist.started) :
    id ∈ L.view.hist.started := by
  rcases hs.ids_hist hid with hid | ⟨m, event, hm, rfl, hstart, legit⟩ |
    ⟨m, job, _, hstart, _⟩ | hstart
  · exact hid
  · cases legit with
    | started job running mem disk opening unsettled =>
        obtain rfl : job.id = id := Option.some.inj hstart
        rcases hb.running m hm job mem rfl running with hset | hopen
        · exact absurd hset unsettled
        · exact absurd opening hopen
    | _ => cases hstart
  · cases hstart
  · cases hstart

/-- A barred job is not started in the rest of the run. -/
theorem run (hb : Barred L id) (h : Inv L) (hr : Reach L L') :
    Barred L' id ∧ (id ∈ L'.view.hist.started → id ∈ L.view.hist.started) := by
  refine hr.keeps (I := fun L' => Barred L' id ∧
    (id ∈ L'.view.hist.started → id ∈ L.view.hist.started)) h ⟨hb, fun hid => hid⟩ ?_
  rintro L₁ L₂ h₁ hs ⟨hb₁, hold⟩
  exact ⟨hb₁.step h₁ hs, fun hid => hold (hb₁.unstarted hs hid)⟩

end Barred

end Xlurm
