/-
  Xlurm.Ledger.Orphan

  A job that runs on disk without a worker and without a result: until a tick
  goes through it can only be found out, and that tick finds it out.
-/

import Xlurm.Ledger.Kept

namespace Xlurm

variable {L₀ L L' : Ledger} {id : Nat}

/-- The job still counts as running, or the executor has found its worker gone. -/
def Job.Lost (job : Job) : Prop :=
  job.state = .running ∨
    (job.state = .failed ∧ ∃ now, job.result = some (disappeared now))

theorem Job.Lost.not_pending {job : Job} (h : job.Lost) : job.state ≠ .pending := by
  rcases h with h | ⟨h, _⟩ <;> simp [h]

/-- Job `id` was left behind, and no tick has gone through since. -/
structure Orphaned (L : Ledger) (id : Nat) : Prop where
  dead : ∀ job ∈ L.view.live, job.id ≠ id
  unpublished : ∀ o, (id, o) ∉ L.view.published
  holds : L.Holds id
  lost : ∀ job, L.Stored job → job.id = id → job.Lost
  /-- Outside of a tick nobody has found it out yet. -/
  running : L.view.hist.tickOpen = false → ∀ job, L.Stored job → job.id = id →
    job.state = .running
  /-- The tick under way began after the job was left behind. -/
  opening : ∀ m, L.mem = some m → L.view.hist.tickOpen = true →
    ¬ L.view.hist.PendingAtOpening id ∧ ¬ L.view.hist.LiveAtOpening id
  cleaning : ∀ m, L.mem = some m → ∀ timestamp mem disk live rest,
    L.view.hist = ⟨.cleaning timestamp mem, disk, live⟩ :: rest →
      L.view.hist.tickOpen = false

namespace Hist

variable {e : Entry} {hist : Hist}

/-- Only three kinds of entries open or close a tick. -/
theorem tickOpen_cons (hbooted : e.event ≠ .booted) (hticked : e.event ≠ .ticked)
    (hbegan : ∀ m, e.event ≠ .began .tick m) : tickOpen (e :: hist) = hist.tickOpen := by
  cases hev : e.event with
  | booted => exact absurd hev hbooted
  | ticked => exact absurd hev hticked
  | began op m =>
      cases op with
      | tick => exact absurd hev (hbegan m)
      | _ => simp only [tickOpen, hev]
  | _ => simp only [tickOpen, hev]

/-- Only two kinds of entries change the opening. -/
theorem opening_cons (hbooted : e.event ≠ .booted) (hbegan : ∀ op m, e.event ≠ .began op m) :
    opening (e :: hist) = hist.opening := by
  cases hev : e.event with
  | booted => exact absurd hev hbooted
  | began op m => exact absurd hev (hbegan op m)
  | _ => simp only [opening, hev]

end Hist

namespace Orphaned

/-! ## What a step preserves -/

/-- The stored versions of the job: they change only when a poll finds it gone. -/
theorem lost_step (h : Inv L) (hs : Step L L') (ho : Orphaned L id) (job' : Job)
    (hj : L'.Stored job') (hid : job'.id = id) :
    job'.Lost ∧ (L.Stored job' ∨ L.view.hist.tickOpen = true) := by
  rcases hs.stored hj with hj | ⟨_, m, hm, hnext, _⟩ | ⟨m, job, hm, hj, change, _⟩
  · exact ⟨ho.lost job' hj hid, Or.inl hj⟩
  -- a new job has a new id
  · obtain ⟨old, hold, hold_id⟩ := ho.holds.mem m hm
    have hle := (h.memOrdered m hm).bounded old hold
    omega
  · have hstored : L.Stored job := Or.inr ⟨m, hm, hj⟩
    have hjob : job.id = id := change.id_eq ▸ hid
    have hlost := ho.lost job hstored hjob
    cases change with
    | cancel now pending => exact absurd pending hlost.not_pending
    | mark devices now pending => exact absurd pending hlost.not_pending
    | fail outcome running opening unspawned ticking =>
        rw [hjob] at opening
        exact absurd opening (ho.opening m hm ticking).1
    | record outcome running polled ticking =>
        obtain ⟨e, he, heq⟩ := polled
        rcases (h.reports e he job.id outcome heq).1 with ⟨hpub, _⟩ | ⟨_, now, rfl⟩
        · rw [hjob] at hpub
          exact absurd hpub (ho.unpublished outcome)
        · exact ⟨Or.inr ⟨rfl, now, rfl⟩, Or.inr ticking⟩

theorem dead_step (hs : Step L L') (ho : Orphaned L id) (job : Job)
    (hj : job ∈ L'.view.live) : job.id ≠ id := by
  cases hs with
  | die mem v live sub => exact ho.dead job (sub.subset hj)
  | spawn m v job₁ running mem disk started unspawned unfinished opening ticking =>
      rcases List.mem_cons.mp hj with rfl | hj
      · rintro rfl
        exact (ho.opening m rfl ticking).1 opening
      · exact ho.dead job hj
  | _ => exact ho.dead job hj

theorem unpublished_step (hs : Step L L') (ho : Orphaned L id) (o : Outcome) :
    (id, o) ∉ L'.view.published := by
  cases hs with
  | publish mem v id' outcome live first produced =>
      intro hmem
      rcases List.mem_cons.mp hmem with heq | hmem
      · obtain ⟨job, hlive, hid⟩ := live
        cases heq
        exact ho.dead job hlive hid
      · exact ho.unpublished o hmem
  | _ => exact ho.unpublished o

theorem holds_step (h : Inv L) (hs : Step L L') (ho : Orphaned L id) : L'.Holds id := by
  rcases ho.holds.step hs with hholds | ⟨m, timestamp, disk, live, rest, head, hsame, hexp, hlost⟩ |
    ⟨job, hj, hid, hpend, _⟩
  · exact hholds
  -- a cleanup only removes jobs that do not run
  · cases hs with
    | saveRetained m' v timestamp' disk' live' rest' head' =>
        obtain ⟨old, hold, rfl⟩ := ho.holds.mem m' rfl
        have hclosed := ho.cleaning m' rfl _ _ _ _ _ head'
        have hrun := ho.running hclosed old (Or.inr ⟨m', rfl, hold⟩) rfl
        have hkept := Store.mem_retain_expired (h.memOrdered m' rfl) hold hrun timestamp'
        exact absurd ⟨old, hkept, rfl⟩ hlost
    | save m' v => exact absurd (ho.holds.mem m' rfl) hlost
    | log | spawn | boot => exact absurd hsame (List.cons_ne_self _ _)
    | _ => exact absurd ho.holds.disk hlost
  · exact absurd hpend (ho.lost job hj hid).not_pending

/-- An entry that leaves the tick and the opening alone. -/
theorem opening_keep {e : Entry} {m : Store} (ho : Orphaned L id) (hm : L.mem = some m)
    (hhist : L'.view.hist = e :: L.view.hist) (hbooted : e.event ≠ .booted)
    (hticked : e.event ≠ .ticked) (hbegan : ∀ op m, e.event ≠ .began op m)
    (hopen : L'.view.hist.tickOpen = true) :
    ¬ L'.view.hist.PendingAtOpening id ∧ ¬ L'.view.hist.LiveAtOpening id := by
  rw [hhist, Hist.tickOpen_cons hbooted hticked (hbegan .tick)] at hopen
  obtain ⟨hpend, hlive⟩ := ho.opening m hm hopen
  have hsame : Hist.opening (e :: L.view.hist) = L.view.hist.opening :=
    Hist.opening_cons hbooted hbegan
  rw [hhist]
  exact ⟨fun h => hpend (h.congr hsame.symm), fun h => hlive (h.congr hsame.symm)⟩

theorem opening_step (hs : Step L L') (ho : Orphaned L id)
    (hticked : ∀ e, L'.view.hist = e :: L.view.hist → e.event ≠ .ticked) (m' : Store)
    (hm' : L'.mem = some m') (hopen : L'.view.hist.tickOpen = true) :
    ¬ L'.view.hist.PendingAtOpening id ∧ ¬ L'.view.hist.LiveAtOpening id := by
  cases hs with
  | die mem v live sub => exact ho.opening m' hm' hopen
  | publish | misread => exact ho.opening m' hm' hopen
  | log m v event legit =>
      have hadd : (v.log event).hist = ⟨event, v.disk, v.live.map (·.id)⟩ :: v.hist := rfl
      cases legit with
      -- A tick that begins now finds the job running and its worker gone.
      | began op closed =>
          refine ⟨?_, ?_⟩
          · rintro ⟨mem, live, heq, job, hj, hid, hpend⟩
            cases heq
            exact (ho.lost job (Or.inr ⟨m, rfl, hj⟩) hid).not_pending hpend
          · rintro ⟨mem, live, heq, hmem⟩
            cases heq
            obtain ⟨job, hj, hid⟩ := List.mem_map.mp hmem
            exact ho.dead job hj hid
      | ticked => exact absurd rfl (hticked _ hadd)
      | answered | cleaning | started | polled =>
          exact ho.opening_keep rfl hadd (by simp) (by simp) (by simp) hopen
  | spawn m v job =>
      have hadd : (View.log { v with live := job :: v.live } (.spawned job)).hist =
          ⟨.spawned job, v.disk, (job :: v.live).map (·.id)⟩ :: v.hist := rfl
      exact ho.opening_keep rfl hadd (by simp) (by simp) (by simp) hopen
  | boot v =>
      refine ⟨?_, ?_⟩
      · rintro ⟨mem, live, heq, _⟩
        cases heq
      · rintro ⟨mem, live, heq, _⟩
        cases heq
  | crash => cases hm'
  | save m v => exact ho.opening m rfl hopen
  | saveRetained m v => exact ho.opening m rfl hopen
  | retain m v => exact ho.opening m rfl hopen
  | push m v => exact ho.opening m rfl hopen
  | pop nextId jobs v job => exact ho.opening _ rfl hopen
  | set m v => exact ho.opening m rfl hopen

theorem tickOpen_step (hs : Step L L')
    (hticked : ∀ e, L'.view.hist = e :: L.view.hist → e.event ≠ .ticked)
    (hclosed : L'.view.hist.tickOpen = false) : L.view.hist.tickOpen = false := by
  rcases hs.hist with hsame | ⟨e, hadd⟩
  · exact hsame ▸ hclosed
  · rw [hadd] at hclosed
    have hnot := hticked e hadd
    cases hev : e.event with
    | booted => simp [Hist.tickOpen, hev] at hclosed
    | ticked => exact absurd hev hnot
    | began op m =>
        cases op with
        | tick => simp [Hist.tickOpen, hev] at hclosed
        | _ => simpa [Hist.tickOpen, hev] using hclosed
    | _ => simpa [Hist.tickOpen, hev] using hclosed

theorem cleaning_step (hs : Step L L') (ho : Orphaned L id) (m' : Store)
    (hm' : L'.mem = some m') (timestamp : Nat) (mem disk : Store) (live : List Nat) (rest : Hist)
    (head : L'.view.hist = ⟨.cleaning timestamp mem, disk, live⟩ :: rest) :
    L'.view.hist.tickOpen = false := by
  cases hs with
  | log m v event legit =>
      obtain ⟨hentry, _⟩ := List.cons.inj head
      cases hentry
      cases legit with
      | cleaning _ closed => exact closed
  | spawn | boot =>
      obtain ⟨hentry, _⟩ := List.cons.inj head
      cases hentry
  | crash => cases hm'
  | die | publish | misread => exact ho.cleaning m' hm' _ _ _ _ _ head
  | save m v => exact ho.cleaning m rfl _ _ _ _ _ head
  | saveRetained m v => exact ho.cleaning m rfl _ _ _ _ _ head
  | retain m v => exact ho.cleaning m rfl _ _ _ _ _ head
  | push m v => exact ho.cleaning m rfl _ _ _ _ _ head
  | pop nextId jobs v job => exact ho.cleaning _ rfl _ _ _ _ _ head
  | set m v => exact ho.cleaning m rfl _ _ _ _ _ head

/-- An orphan stays one until a tick goes through. -/
theorem step (h : Inv L) (hs : Step L L') (ho : Orphaned L id)
    (hticked : ∀ e, L'.view.hist = e :: L.view.hist → e.event ≠ .ticked) :
    Orphaned L' id where
  dead := ho.dead_step hs
  unpublished := ho.unpublished_step hs
  holds := ho.holds_step h hs
  lost job hj hid := (ho.lost_step h hs job hj hid).1
  running hclosed job hj hid := by
    have hopen := tickOpen_step hs hticked hclosed
    rcases (ho.lost_step h hs job hj hid).2 with hold | hticking
    · exact ho.running hopen job hold hid
    · rw [hopen] at hticking
      cases hticking
  opening := ho.opening_step hs hticked
  cleaning := ho.cleaning_step hs

/-! ## The next tick -/

/-- Until then, along a run. -/
theorem run (h₀ : Inv L₀) (ho : Orphaned L₀ id) (hr : Reach L₀ L) {newer : Hist}
    (hhist : L.view.hist = newer ++ L₀.view.hist) (hticked : ∀ e ∈ newer, e.event ≠ .ticked) :
    Orphaned L id := by
  have hrun : ∃ newer, L.view.hist = newer ++ L₀.view.hist ∧
      ((∀ e ∈ newer, e.event ≠ .ticked) → Orphaned L id) := by
    refine hr.keeps (I := fun L => ∃ newer, L.view.hist = newer ++ L₀.view.hist ∧
      ((∀ e ∈ newer, e.event ≠ .ticked) → Orphaned L id)) h₀ ⟨[], rfl, fun _ => ho⟩ ?_
    rintro L₁ L₂ h₁ hs ⟨newer, hnewer, ih⟩
    -- The claim carries its own list of new entries, so that the induction can grow it.
    rcases hs.hist with hsame | ⟨e, hadd⟩
    · refine ⟨newer, hsame.trans hnewer, fun hnot => (ih hnot).step h₁ hs ?_⟩
      intro e hadd
      exact absurd (hadd.symm.trans hsame) (List.cons_ne_self _ _)
    · refine ⟨e :: newer, by rw [hadd, hnewer, List.cons_append], fun hnot => ?_⟩
      have hold : Orphaned L₁ id := ih fun e' he' => hnot e' (List.mem_cons_of_mem _ he')
      refine hold.step h₁ hs ?_
      intro e' hadd'
      obtain rfl := (List.cons.inj (hadd.symm.trans hadd')).1
      exact hnot e List.mem_cons_self
  obtain ⟨newer', hnewer', himp⟩ := hrun
  have heq : newer = newer' := List.append_cancel_right (hhist.symm.trans hnewer')
  exact himp (heq ▸ hticked)

/-- The first tick that goes through finds the orphan. -/
theorem found (h₀ : Inv L₀) (ho : Orphaned L₀ id) (hr : Reach L₀ L) {newer older : Hist}
    {e : Entry} (heq : L.view.hist = newer ++ e :: (older ++ L₀.view.hist))
    (hticked : e.event = .ticked) (hfirst : ∀ e' ∈ older, e'.event ≠ .ticked) :
    ∃ job ∈ e.disk.jobs, job.id = id ∧ job.state = .failed ∧
      ∃ now, job.result = some (disappeared now) := by
  obtain ⟨L₁, L₂, h₁, hs, hold, hadd, _⟩ := hr.added h₀ (List.suffix_append _ _) heq
  have ho₁ : Orphaned L₁ id := ho.run h₀ h₁ hold hfirst
  obtain ⟨m, hm, _, legit, he⟩ := hs.logged hadd hticked (by simp) (by simp)
  obtain ⟨job, hj, hid⟩ := ho₁.holds.disk
  have hlost := ho₁.lost job (Or.inl hj) hid
  have hdisk : e.disk = L₁.view.disk := by rw [he]
  rw [hdisk]
  cases legit with
  | ticked ticking running =>
      rcases hlost with hrun | ⟨hfailed, hresult⟩
      -- a job that still runs was polled, or started, by this tick
      · obtain ⟨hpend, hlive⟩ := ho₁.opening m hm ticking
        rcases running job hj hrun with hopen | hopen
        · exact absurd (hid ▸ hopen) hpend
        · exact absurd (hid ▸ hopen) hlive
      · exact ⟨job, hj, hid, hfailed, hresult⟩

end Orphaned

end Xlurm
