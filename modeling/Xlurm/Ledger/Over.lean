/-
  Xlurm.Ledger.Over

  Jobs that are over.  A job with a result has reached a terminal state, and as
  long as no other daemon is booted, memory keeps that result for it and it gets
  no worker any more.
-/

import Xlurm.Ledger.History

namespace Xlurm

variable {L L' : Ledger} {id : Nat} {outcome : Outcome}

/-! ## Results -/

/-- Only jobs that are over have a result. -/
def Ledger.Concluded (L : Ledger) : Prop :=
  ∀ job, L.Stored job → job.result ≠ none → job.state.terminal = true

/-- A change gives a result to a job that is over now, or none. -/
theorem Ledger.Concluded.change (h : Inv L) (hc : L.Concluded) {m : Store} (hm : L.mem = some m)
    {job job' : Job} (hj : job ∈ m.jobs) (change : Change L.view m job job')
    (hresult : job'.result ≠ none) : job'.state.terminal = true := by
  cases change with
  | cancel | fail => rfl
  | record outcome running polled =>
      obtain ⟨e, he, hev⟩ := polled
      exact (h.reports e he job.id outcome hev).2.sound.terminal
  | mark devices now pending =>
      -- a pending job has no result to keep
      have hterm := hc job (Or.inr ⟨m, hm, hj⟩) hresult
      rw [pending] at hterm
      cases hterm

theorem Ledger.Concluded.step (h : Inv L) (hs : Step L L') (hc : L.Concluded) : L'.Concluded := by
  intro job' hj hresult
  rcases hs.stored hj with hold | ⟨_, _, _, _, _, hnone⟩ | ⟨m, job, hm, hjob, change, _⟩
  · exact hc job' hold hresult
  · exact absurd hnone hresult
  · exact hc.change h hm hjob change hresult

theorem Reach.concluded (h : Reach Ledger.init L) : L.Concluded := by
  apply h.keeps Inv.init
  · rintro job (hj | ⟨_, ⟨⟩, _⟩)
    exact absurd hj List.not_mem_nil
  · intro L₁ L₂ h₁ hs hc
    exact hc.step h₁ hs

/-! ## Boots -/

def Event.isBoot : Event → Bool
  | booted => true
  | _ => false

/-- How often a daemon was booted. -/
def Hist.boots (hist : Hist) : Nat := hist.countP (·.event.isBoot)

theorem Hist.boots_append (newer older : Hist) :
    Hist.boots (newer ++ older) = newer.boots + older.boots := List.countP_append

theorem Step.boots_le (hs : Step L L') : L.view.hist.boots ≤ L'.view.hist.boots := by
  rcases hs.hist with hsame | ⟨e, hadd⟩
  · rw [hsame]
  · rw [hadd, Hist.boots, Hist.boots, List.countP_cons]
    exact Nat.le_add_right _ _

/-! ## Jobs that are over -/

/-- Job `id` has no worker, and memory has no other result for it than `outcome`. -/
structure Ledger.Over (L : Ledger) (id : Nat) (outcome : Outcome) : Prop where
  idle : ∀ job ∈ L.view.live, job.id ≠ id
  drawn : ∀ m, L.mem = some m → id ≤ m.nextId
  mem : ∀ m, L.mem = some m → ∀ job ∈ m.jobs, job.id = id →
    job.state.terminal = true ∧ job.result = some outcome

theorem Change.not_terminal {v : View} {m : Store} {job job' : Job} (h : Change v m job job') :
    job.state.terminal = false := by
  cases h with
  | cancel _ pending | mark _ _ pending => rw [pending]; rfl
  | record _ running | fail _ running => rw [running]; rfl

/-- A job in memory that has a result is over. -/
theorem Ledger.Over.of_mem (h : Inv L) (hc : L.Concluded) {m : Store} (hm : L.mem = some m)
    {job : Job} (hj : job ∈ m.jobs) (hresult : job.result = some outcome) :
    L.Over job.id outcome := by
  have hterm : job.state.terminal = true := by
    apply hc job (Or.inr ⟨m, hm, hj⟩)
    rw [hresult]
    exact Option.some_ne_none outcome
  have same : ∀ other ∈ m.jobs, other.id = job.id → other = job := fun other hother hid =>
    (h.memOrdered m hm).eq_of_id hother hj hid
  refine ⟨?_, ?_, ?_⟩
  · intro live hlive hid
    obtain rfl : live = job := same live (h.liveMem m hm live hlive) hid
    rw [(h.live live hlive).1] at hterm
    cases hterm
  · intro m' hm'
    obtain rfl : m = m' := Option.some.inj (hm.symm.trans hm')
    exact (h.memOrdered m hm).bounded job hj
  · intro m' hm' other hother hid
    obtain rfl : m = m' := Option.some.inj (hm.symm.trans hm')
    rw [same other hother hid]
    exact ⟨hterm, hresult⟩

theorem Ledger.Over.step (hs : Step L L')
    (hboots : L'.view.hist.boots = L.view.hist.boots) (ho : L.Over id outcome) :
    L'.Over id outcome := by
  cases hs with
  | die mem v live sub => exact ⟨fun job hj => ho.idle job (sub.subset hj), ho.drawn, ho.mem⟩
  | publish | misread | log | save | saveRetained => exact ⟨ho.idle, ho.drawn, ho.mem⟩
  | spawn m v job running mem =>
      refine ⟨?_, ho.drawn, ho.mem⟩
      intro other hother hid
      rcases List.mem_cons.mp hother with rfl | hother
      -- only running jobs get a worker
      · obtain ⟨hterm, _⟩ := ho.mem m rfl other mem hid
        rw [running] at hterm
        cases hterm
      · exact ho.idle other hother hid
  | retain m v timestamp =>
      refine ⟨ho.idle, ?_, ?_⟩
      · rintro _ ⟨⟩
        exact ho.drawn m rfl
      · rintro _ ⟨⟩ job hj
        exact ho.mem m rfl job (Store.mem_retain.mp hj).1
  -- A submission draws a new id: `id` was drawn before.
  | push m v job uid gid spec disk live rest head next =>
      have hdrawn := ho.drawn m rfl
      refine ⟨ho.idle, ?_, ?_⟩
      · rintro _ ⟨⟩
        show id ≤ job.id
        omega
      · rintro _ ⟨⟩ other hother hid
        rcases List.mem_append.mp hother with hother | hother
        · exact ho.mem m rfl other hother hid
        · rw [List.mem_singleton.mp hother] at hid
          omega
  | pop nextId jobs v job =>
      refine ⟨ho.idle, ?_, ?_⟩
      · rintro _ ⟨⟩
        exact ho.drawn ⟨nextId, jobs ++ [job]⟩ rfl
      · rintro _ ⟨⟩ other hother
        exact ho.mem _ rfl other (List.mem_append_left _ hother)
  | set m v i job job' at_i change =>
      refine ⟨ho.idle, ?_, ?_⟩
      · rintro _ ⟨⟩
        exact ho.drawn m rfl
      · rintro _ ⟨⟩ other hother hid
        rcases Store.mem_setJob hother with rfl | hother
        -- nothing changes a job that is over
        · rw [change.id_eq] at hid
          obtain ⟨hterm, _⟩ := ho.mem m rfl job (List.mem_of_getElem? at_i) hid
          rw [change.not_terminal] at hterm
          cases hterm
        · exact ho.mem m rfl other hother hid
  -- Between two daemons nothing is in memory.
  | crash m v =>
      refine ⟨ho.idle, ?_, ?_⟩
      · rintro _ ⟨⟩
      · rintro _ ⟨⟩
  -- A boot would have been counted.
  | boot v =>
      simp only [View.log, Hist.boots, List.countP_cons, Event.isBoot, if_true] at hboots
      omega

/-- A job that is over stays so while the same daemon runs, and after its end. -/
theorem Ledger.Over.run (ho : L.Over id outcome) (h : Inv L) (hr : Reach L L')
    (hboots : L'.view.hist.boots = L.view.hist.boots) : L'.Over id outcome := by
  have hrun : L.view.hist.boots ≤ L'.view.hist.boots ∧
      (L'.view.hist.boots = L.view.hist.boots → L'.Over id outcome) := by
    apply hr.keeps (I := fun L' => L.view.hist.boots ≤ L'.view.hist.boots ∧
      (L'.view.hist.boots = L.view.hist.boots → L'.Over id outcome)) h
    · exact ⟨Nat.le_refl _, fun _ => ho⟩
    · rintro L₁ L₂ _ hs ⟨hle, hover⟩
      have hle' := hs.boots_le
      refine ⟨Nat.le_trans hle hle', ?_⟩
      intro heq
      apply (hover (by omega)).step hs
      omega
  exact hrun.2 hboots

/-! ## What a `Get` has shown -/

/-- A `Get` for job `id` was answered with `job`, and no daemon was booted since. -/
def Hist.Shown (id : Nat) (job : Job) (hist : Hist) : Prop :=
  ∃ (newer : Hist) (e : Entry) (older : Hist) (uid gid : Nat) (before after : Store),
    hist = newer ++ e :: older ∧ newer.boots = 0 ∧
      e.event = .answered uid gid (.get id) (.job job) before after ∧
      job ∈ after.jobs ∧ job.id = id

theorem Hist.Shown.mono {hist hist' : Hist} {job : Job} (h : hist.Shown id job)
    (hsuffix : hist <:+ hist') (hboots : hist'.boots = hist.boots) : hist'.Shown id job := by
  obtain ⟨new, rfl⟩ := hsuffix
  obtain ⟨newer, e, older, uid, gid, before, after, rfl, hzero, hev, hj, hid⟩ := h
  rw [Hist.boots_append] at hboots
  refine ⟨new ++ newer, e, older, uid, gid, before, after, ?_, ?_, hev, hj, hid⟩
  · rw [List.append_assoc]
  · rw [Hist.boots_append]
    omega

/-- What a `Get` has shown of a job that is over stays so. -/
theorem Reach.over (h : Reach Ledger.init L) {job : Job} (hshown : L.view.hist.Shown id job)
    (hresult : job.result = some outcome) : L.Over id outcome := by
  obtain ⟨newer, e, older, uid, gid, before, after, heq, hzero, hev, hj, rfl⟩ := hshown
  obtain ⟨L₁, L₂, h₁, hs, hold, hadd, h₂⟩ := h.added_init heq
  obtain ⟨m, hm, hL₂, legit, _⟩ := hs.logged hadd hev (by simp) (by simp)
  have hreach₂ : Reach Ledger.init L₂ := h₁.step hs
  have hmem : L₂.mem = some after := by
    rw [hL₂]
    cases legit
    rfl
  have hover : L₂.Over job.id outcome :=
    Ledger.Over.of_mem hreach₂.inv hreach₂.concluded hmem hj hresult
  apply hover.run hreach₂.inv h₂
  rw [heq, hadd, hold, Hist.boots_append, hzero, Nat.zero_add]

end Xlurm
