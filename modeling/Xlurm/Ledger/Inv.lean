/-
  Xlurm.Ledger.Inv

  The invariant of the job ledger and its preservation.

  What one step can do to the stored jobs and to the history is said once, in
  the inversion lemmas at the top; every part of the invariant is then a short
  case analysis.
-/

import Mathlib.Data.List.Nodup
import Xlurm.Ledger.Basic
import Xlurm.Model.Store

namespace Xlurm

/-! ## What a change keeps -/

namespace Change

variable {v : View} {m : Store} {job job' : Job}

theorem id_eq (h : Change v m job job') : job'.id = job.id := by
  cases h <;> rfl

theorem owner_eq (h : Change v m job job') : job'.owner = job.owner := by
  cases h <;> rfl

theorem spec_eq (h : Change v m job job') : job'.spec = job.spec := by
  cases h <;> rfl

end Change

/-! ## What a step does -/

namespace Step

variable {L L' : Ledger}

/-- A stored job was stored before the step, or is new, or is a changed job. -/
theorem stored (hs : Step L L') {job' : Job} (hj : L'.Stored job') :
    L.Stored job' ∨
      (job'.state = .pending ∧
        ∃ m, L.mem = some m ∧ job'.id = m.nextId + 1 ∧ job'.id < 2 ^ 64 ∧ job'.result = none) ∨
      ∃ m job, L.mem = some m ∧ job ∈ m.jobs ∧ Change L.view m job job' ∧
        L'.view = L.view := by
  cases hs with
  | die | publish | misread | log | spawn => exact Or.inl hj
  | save m v =>
      rcases hj with hj | hj
      · exact Or.inl (Or.inr ⟨m, rfl, hj⟩)
      · exact Or.inl (Or.inr hj)
  | saveRetained m v =>
      rcases hj with hj | hj
      · exact Or.inl (Or.inr ⟨m, rfl, (Store.mem_retain.mp hj).1⟩)
      · exact Or.inl (Or.inr hj)
  | retain m v =>
      rcases hj with hj | ⟨_, ⟨⟩, hj⟩
      · exact Or.inl (Or.inl hj)
      · exact Or.inl (Or.inr ⟨m, rfl, (Store.mem_retain.mp hj).1⟩)
  -- The new job, which is pending.
  | push m v job uid gid spec disk live rest head next pending owner bounded fresh =>
      rcases hj with hj | ⟨_, ⟨⟩, hj⟩
      · exact Or.inl (Or.inl hj)
      · rcases List.mem_append.mp hj with hj | hj
        · exact Or.inl (Or.inr ⟨m, rfl, hj⟩)
        · rw [List.mem_singleton.mp hj]
          exact Or.inr (Or.inl ⟨pending, m, rfl, next, bounded, fresh⟩)
  | pop nextId jobs v job =>
      rcases hj with hj | ⟨_, ⟨⟩, hj⟩
      · exact Or.inl (Or.inl hj)
      · exact Or.inl (Or.inr ⟨_, rfl, List.mem_append_left _ hj⟩)
  -- The changed job, in place of an old one.
  | set m v i job job₁ at_i change =>
      rcases hj with hj | ⟨_, ⟨⟩, hj⟩
      · exact Or.inl (Or.inl hj)
      · rcases Store.mem_setJob hj with rfl | hj
        · exact Or.inr (Or.inr ⟨m, job, rfl, List.mem_of_getElem? at_i, change, rfl⟩)
        · exact Or.inl (Or.inr ⟨m, rfl, hj⟩)
  | crash m v =>
      rcases hj with hj | ⟨_, ⟨⟩, _⟩
      exact Or.inl (Or.inl hj)
  | boot v =>
      rcases hj with hj | ⟨_, ⟨⟩, hj⟩
      · exact Or.inl (Or.inl hj)
      · exact Or.inl (Or.inl hj)

/-- A step makes at most one job that was not stored before. -/
theorem stored_unique (hs : Step L L') {a b : Job} (ha : L'.Stored a) (hb : L'.Stored b)
    (ha' : ¬ L.Stored a) (hb' : ¬ L.Stored b) : a = b := by
  cases hs with
  -- Only `push` and `set` bring in a version that was not stored, and each brings in one.
  | push m v job uid gid spec disk live rest head next pending =>
      have new : ∀ x, Ledger.Stored ⟨some ⟨job.id, m.jobs ++ [job]⟩, v⟩ x →
          ¬ Ledger.Stored ⟨some m, v⟩ x → x = job := by
        rintro x (hx | ⟨_, ⟨⟩, hx⟩) hold
        · exact absurd (Or.inl hx) hold
        · rcases List.mem_append.mp hx with hx | hx
          · exact absurd (Or.inr ⟨m, rfl, hx⟩) hold
          · exact List.mem_singleton.mp hx
      rw [new a ha ha', new b hb hb']
  | set m v i job job' at_i change =>
      have new : ∀ x, Ledger.Stored ⟨some (m.setJob i job'), v⟩ x →
          ¬ Ledger.Stored ⟨some m, v⟩ x → x = job' := by
        rintro x (hx | ⟨_, ⟨⟩, hx⟩) hold
        · exact absurd (Or.inl hx) hold
        · rcases Store.mem_setJob hx with rfl | hx
          · rfl
          · exact absurd (Or.inr ⟨m, rfl, hx⟩) hold
      rw [new a ha ha', new b hb hb']
  | die | publish | misread | log | spawn => exact absurd ha ha'
  | save m v =>
      rcases ha with ha | ha
      · exact absurd (Or.inr ⟨m, rfl, ha⟩) ha'
      · exact absurd (Or.inr ha) ha'
  | saveRetained m v =>
      rcases ha with ha | ha
      · exact absurd (Or.inr ⟨m, rfl, (Store.mem_retain.mp ha).1⟩) ha'
      · exact absurd (Or.inr ha) ha'
  | retain m v =>
      rcases ha with ha | ⟨_, ⟨⟩, ha⟩
      · exact absurd (Or.inl ha) ha'
      · exact absurd (Or.inr ⟨m, rfl, (Store.mem_retain.mp ha).1⟩) ha'
  | pop nextId jobs v job =>
      rcases ha with ha | ⟨_, ⟨⟩, ha⟩
      · exact absurd (Or.inl ha) ha'
      · exact absurd (Or.inr ⟨_, rfl, List.mem_append_left _ ha⟩) ha'
  | crash m v =>
      rcases ha with ha | ⟨_, ⟨⟩, _⟩
      exact absurd (Or.inl ha) ha'
  | boot v =>
      rcases ha with ha | ⟨_, ⟨⟩, ha⟩
      · exact absurd (Or.inl ha) ha'
      · exact absurd (Or.inl ha) ha'

/-- A step adds at most one entry. -/
theorem hist (hs : Step L L') :
    L'.view.hist = L.view.hist ∨ ∃ e, L'.view.hist = e :: L.view.hist := by
  cases hs with
  | log | spawn | boot => exact Or.inr ⟨_, rfl⟩
  | _ => exact Or.inl rfl

theorem hist_subset (hs : Step L L') : L.view.hist ⊆ L'.view.hist := by
  rcases hs.hist with hsame | ⟨e, hadd⟩
  · rw [hsame]
    exact List.Subset.refl _
  · rw [hadd]
    exact List.subset_cons_self _ _

theorem misread_subset (hs : Step L L') : L.view.misread ⊆ L'.view.misread := by
  cases hs with
  | misread mem v path => exact List.subset_cons_self _ _
  | _ => exact List.Subset.refl _

/-- What an added entry says, and when it is added. -/
theorem added (hs : Step L L') {e : Entry} (heq : L'.view.hist = e :: L.view.hist) :
    (∃ m, L.mem = some m ∧ L' = ⟨some m, L.view.log e.event⟩ ∧ Legit L.view m e.event ∧
      e = ⟨e.event, L.view.disk, L.view.live.map (·.id)⟩) ∨
    (∃ m job, L.mem = some m ∧ e.event = .spawned job ∧ L'.mem = some m ∧
      L'.view.disk = L.view.disk ∧ e.disk = L.view.disk ∧ job.id ∈ L.view.hist.started ∧
      job.id ∉ L.view.hist.spawned) ∨
    (L.mem = none ∧ e.event = .booted ∧ e.disk = L.view.disk ∧
      L' = ⟨some L.view.disk, L.view.log .booted⟩) := by
  cases hs with
  | log m v event legit =>
      obtain rfl : _ = e := (List.cons.inj heq).1
      exact Or.inl ⟨m, rfl, rfl, legit, rfl⟩
  | spawn m v job running mem disk started unspawned =>
      obtain rfl : _ = e := (List.cons.inj heq).1
      exact Or.inr (Or.inl ⟨m, job, rfl, rfl, rfl, rfl, rfl, started, unspawned⟩)
  | boot v =>
      obtain rfl : _ = e := (List.cons.inj heq).1
      exact Or.inr (Or.inr ⟨rfl, rfl, rfl, rfl⟩)
  | _ => exact absurd heq.symm (List.cons_ne_self _ _)

/-- Besides boots and new workers, only the daemon adds entries. -/
theorem logged (hs : Step L L') {e : Entry} (heq : L'.view.hist = e :: L.view.hist) {event : Event}
    (hev : e.event = event) (hspawned : ∀ job, event ≠ .spawned job) (hbooted : event ≠ .booted) :
    ∃ m, L.mem = some m ∧ L' = ⟨some m, L.view.log event⟩ ∧ Legit L.view m event ∧
      e = ⟨event, L.view.disk, L.view.live.map (·.id)⟩ := by
  subst hev
  rcases hs.added heq with hlog | ⟨_, job, _, hev, _⟩ | ⟨_, hev, _⟩
  · exact hlog
  · exact absurd hev (hspawned job)
  · exact absurd hev hbooted

/-- A relation between the ids of earlier and later events is kept if an id that is
    added has it to all earlier ones. -/
theorem ids_pairwise (hs : Step L L') {f : Event → Option Nat} {R : Nat → Nat → Prop}
    (h : (L.view.hist.ids f).Pairwise R)
    (hnew : ∀ e, L'.view.hist = e :: L.view.hist → ∀ id, f e.event = some id →
      ∀ old ∈ L.view.hist.ids f, R id old) : (L'.view.hist.ids f).Pairwise R := by
  rcases hs.hist with hsame | ⟨e, hadd⟩
  · rw [hsame]
    exact h
  · rw [hadd, Hist.ids_cons]
    cases hid : f e.event with
    | none => exact h
    | some id => exact List.pairwise_cons.mpr ⟨hnew e hadd id hid, h⟩

/-- What the history gains, if anything, was legitimate. -/
theorem ids_hist (hs : Step L L') {f : Event → Option Nat} {id : Nat}
    (hid : id ∈ L'.view.hist.ids f) :
    id ∈ L.view.hist.ids f ∨
      (∃ m event, L.mem = some m ∧ L' = ⟨some m, L.view.log event⟩ ∧ f event = some id ∧
        Legit L.view m event) ∨
      (∃ m job, L.mem = some m ∧ f (.spawned job) = some id ∧ job.state = .running ∧
        job ∈ m.jobs ∧ job ∈ L'.view.disk.jobs ∧ job.id ∈ L.view.hist.started ∧
        job.id ∉ L.view.hist.spawned ∧ L'.mem = L.mem) ∨
      f .booted = some id := by
  cases hs with
  | log m v event legit =>
      rcases (View.mem_ids_log _ _).mp hid with hid | hid
      · exact Or.inr (Or.inl ⟨m, event, rfl, rfl, hid, legit⟩)
      · exact Or.inl hid
  | spawn m v job running mem disk started unspawned =>
      rcases (View.mem_ids_log _ _).mp hid with hid | hid
      · exact Or.inr (Or.inr (Or.inl
          ⟨m, job, rfl, hid, running, mem, disk, started, unspawned, rfl⟩))
      · exact Or.inl hid
  | boot v =>
      rcases (View.mem_ids_log _ _).mp hid with hid | hid
      · exact Or.inr (Or.inr (Or.inr hid))
      · exact Or.inl hid
  | _ => exact Or.inl hid

end Step

/-! ## The invariant -/

/-- The store has the job, and it is not pending. -/
def Store.Begun (store : Store) (id : Nat) : Prop :=
  ∃ job ∈ store.jobs, job.id = id ∧ job.state ≠ .pending

/-- What holds in every reachable ledger. -/
structure Inv (L : Ledger) : Prop where
  diskOrdered : L.view.disk.Ordered
  memOrdered : ∀ m, L.mem = some m → m.Ordered
  nextId_le : ∀ m, L.mem = some m → L.view.disk.nextId ≤ m.nextId
  /-- A job that was handed to the executor is never pending again. -/
  past : ∀ id ∈ L.view.hist.settled, L.Past id
  /-- Running jobs do not share devices. -/
  apart : ∀ job job', L.Stored job → L.Stored job' → job.state = .running →
    job'.state = .running → job.id ≠ job'.id → Apart job.devices job'.devices
  /-- What the executor knows about is on disk. -/
  saved : ∀ m, L.mem = some m → ∀ job ∈ m.jobs, job.state = .running →
    job.id ∈ L.view.hist.settled → job ∈ L.view.disk.jobs
  started_nodup : L.view.hist.started.Nodup
  spawned_nodup : L.view.hist.spawned.Nodup
  spawned_started : ∀ id ∈ L.view.hist.spawned, id ∈ L.view.hist.started
  /-- A live worker's job is running, in memory and on disk. -/
  live : ∀ job ∈ L.view.live, job.state = .running ∧ job ∈ L.view.disk.jobs ∧
    job.id ∈ L.view.hist.spawned ∧ job.id ∉ L.view.hist.finished
  liveMem : ∀ m, L.mem = some m → ∀ job ∈ L.view.live, job ∈ m.jobs
  published : ∀ id outcome, (id, outcome) ∈ L.view.published →
    id ∈ L.view.hist.spawned ∧ outcome.Produced
  published_unique : ∀ id o o', (id, o) ∈ L.view.published → (id, o') ∈ L.view.published → o = o'
  reports : ∀ e ∈ L.view.hist, ∀ id outcome, e.event = .polled id (some outcome) →
    L.view.Reports id outcome ∧ outcome.Produced
  /-- The ids of accepted submissions grow, and are not drawn again. -/
  accepted : ∀ id ∈ L.view.hist.accepted, id ≤ L.view.disk.nextId
  accepted_sorted : L.view.hist.accepted.Pairwise (· > ·)
  /-- A published result is the one that gets recorded, if it was seen. -/
  result : ∀ job, L.Stored job → .job job.id .result ∉ L.view.misread →
    ∀ outcome, (job.id, outcome) ∈ L.view.published →
      job.state = .running ∨ job.result = some outcome
  bounded : ∀ job, L.Stored job → job.id < 2 ^ 64
  /-- Memory knows every job that has been started. -/
  covered : ∀ m, L.mem = some m → ∀ job ∈ L.view.disk.jobs, job.state ≠ .pending →
    m.Begun job.id

namespace Hist

theorem started_settled {hist : Hist} {id : Nat} (h : id ∈ hist.started) : id ∈ hist.settled := by
  obtain ⟨e, he, heq⟩ := List.mem_filterMap.mp h
  refine List.mem_filterMap.mpr ⟨e, he, ?_⟩
  cases hev : e.event <;> rw [hev] at heq <;> first | exact heq | cases heq

/-- A job counts as finished when a poll has reported an outcome for it. -/
theorem mem_finished {hist : Hist} {id : Nat} :
    id ∈ hist.finished ↔ ∃ e ∈ hist, ∃ outcome, e.event = .polled id (some outcome) := by
  constructor
  · intro h
    obtain ⟨e, he, heq⟩ := List.mem_filterMap.mp h
    refine ⟨e, he, ?_⟩
    cases hev : e.event with
    | polled id' outcome =>
        rw [hev] at heq
        cases outcome with
        | none => cases heq
        | some outcome =>
            cases heq
            exact ⟨outcome, rfl⟩
    | _ => rw [hev] at heq; cases heq
  · rintro ⟨e, he, outcome, heq⟩
    exact List.mem_filterMap.mpr ⟨e, he, by rw [heq]; rfl⟩

end Hist

theorem Inv.init : Inv Ledger.init where
  diskOrdered := Store.Ordered.default
  memOrdered := by rintro _ ⟨⟩
  nextId_le := by rintro _ ⟨⟩
  past := by rintro _ ⟨⟩
  apart := by
    rintro job _ (hj | ⟨_, ⟨⟩, _⟩)
    exact absurd hj List.not_mem_nil
  saved := by rintro _ ⟨⟩
  started_nodup := List.nodup_nil
  spawned_nodup := List.nodup_nil
  spawned_started := by rintro _ ⟨⟩
  live := by rintro _ ⟨⟩
  liveMem := by rintro _ ⟨⟩
  published := by rintro _ _ ⟨⟩
  published_unique := by rintro _ _ _ ⟨⟩
  reports := by rintro _ ⟨⟩
  accepted := by rintro _ ⟨⟩
  accepted_sorted := List.Pairwise.nil
  result := by rintro _ _ _ _ ⟨⟩
  bounded := by
    rintro job (hj | ⟨_, ⟨⟩, _⟩)
    exact absurd hj List.not_mem_nil
  covered := by rintro _ ⟨⟩

namespace Inv

variable {L L' : Ledger}

/-! ### Ids -/

theorem diskOrdered_step (h : Inv L) (hs : Step L L') : L'.view.disk.Ordered := by
  cases hs with
  | save m v => exact h.memOrdered m rfl
  | saveRetained m v timestamp => exact (h.memOrdered m rfl).retain _
  | _ => exact h.diskOrdered

theorem memOrdered_step (h : Inv L) (hs : Step L L') (m' : Store) (hm' : L'.mem = some m') :
    m'.Ordered := by
  cases hs with
  | retain m v => cases hm'; exact (h.memOrdered m rfl).retain _
  | push m v job uid gid spec disk live rest head next =>
      cases hm'
      exact (h.memOrdered m rfl).push next
  | pop nextId jobs v job => cases hm'; exact (h.memOrdered _ rfl).pop
  | set m v i job job' at_i change =>
      cases hm'
      exact (h.memOrdered m rfl).setJob at_i change.id_eq
  | crash => cases hm'
  | boot v => cases hm'; exact h.diskOrdered
  | _ => exact h.memOrdered m' hm'

theorem nextId_le_step (h : Inv L) (hs : Step L L') (m' : Store) (hm' : L'.mem = some m') :
    L'.view.disk.nextId ≤ m'.nextId := by
  cases hs with
  | save m v => cases hm'; exact Nat.le_refl _
  | saveRetained m v => cases hm'; exact Nat.le_refl _
  | push m v job uid gid spec disk live rest head next =>
      cases hm'
      have hle := h.nextId_le m rfl
      show v.disk.nextId ≤ job.id
      simp only at hle
      omega
  | pop nextId jobs v job => cases hm'; exact h.nextId_le ⟨nextId, jobs ++ [job]⟩ rfl
  | retain m v | set m v => cases hm'; exact h.nextId_le m rfl
  | crash => cases hm'
  | boot v => cases hm'; exact Nat.le_refl _
  | _ => exact h.nextId_le m' hm'

/-- `next_id` on disk never goes back. -/
theorem disk_nextId_step (h : Inv L) (hs : Step L L') :
    L.view.disk.nextId ≤ L'.view.disk.nextId := by
  cases hs with
  | save m v => exact h.nextId_le m rfl
  | saveRetained m v => exact h.nextId_le m rfl
  | _ => exact Nat.le_refl _

/-! ### Jobs that are past -/

theorem past_keep (h : Inv L) (hs : Step L L') {id : Nat} (hp : L.Past id) : L'.Past id where
  pending job' hj hid := by
    rcases hs.stored hj with hj | ⟨_, m, hm, hnext, _⟩ | ⟨m, job, hm, hj, change, _⟩
    · exact hp.pending job' hj hid
    -- A new job's id is above everything drawn, so it is not `id`.
    · have hle := h.nextId_le m hm
      have hdrawn := hp.drawn
      omega
    · have hold : job.state ≠ .pending :=
        hp.pending job (Or.inr ⟨m, hm, hj⟩) (change.id_eq ▸ hid)
      cases change with
      -- A recorded state is terminal, and the other changes do not lead back either.
      | record outcome running polled =>
          obtain ⟨e, he, heq⟩ := polled
          have hsound := (h.reports e he job.id outcome heq).2.sound.terminal
          intro hpend
          simp only at hpend
          rw [hpend] at hsound
          cases hsound
      | cancel now pending => exact absurd pending hold
      | mark devices now pending => exact absurd pending hold
      | fail => simp
  drawn := Nat.le_trans hp.drawn (h.disk_nextId_step hs)

theorem past_of_running (h : Inv L) {m : Store} (hm : L.mem = some m) {job : Job}
    (hmem : job ∈ m.jobs) (hdisk : job ∈ L.view.disk.jobs) (hrun : job.state = .running) :
    L.Past job.id where
  pending job' hj hid := by
    have heq : job' = job := by
      rcases hj with hj | ⟨m', hm', hj⟩
      · exact h.diskOrdered.eq_of_id hj hdisk hid
      · rw [hm] at hm'
        cases hm'
        exact (h.memOrdered m hm).eq_of_id hj hmem hid
    rw [heq, hrun]
    simp
  drawn := h.diskOrdered.bounded job hdisk

theorem past_step (h : Inv L) (hs : Step L L') (id : Nat) (hid : id ∈ L'.view.hist.settled) :
    L'.Past id := by
  rcases hs.ids_hist hid with hid | ⟨m, event, hm, rfl, hset, legit⟩ | ⟨m, job, _, hset, _⟩ | hset
  · exact h.past_keep hs (h.past id hid)
  -- A job that is handed out now is running in memory and on disk.
  · refine h.past_keep hs ?_
    cases legit with
    | started job running mem disk =>
        cases hset
        exact h.past_of_running hm mem disk running
    | polled id' outcome running =>
        cases hset
        obtain ⟨job, hmem, rfl, hrun, hdisk⟩ := running
        exact h.past_of_running hm hmem hdisk hrun
    | _ => cases hset
  · cases hset
  · cases hset

/-! ### Running jobs -/

/-- A change that makes a job running marks a pending one, on free devices. -/
theorem marked (h : Inv L) {m : Store} (hm : L.mem = some m) {job job' : Job}
    (change : Change L.view m job job') (hrun : job'.state = .running) :
    job.state = .pending ∧
      ∀ other, L.Stored other → other.state = .running → Apart job'.devices other.devices := by
  cases change with
  | cancel => cases hrun
  | fail => cases hrun
  | record outcome running polled =>
      obtain ⟨e, he, heq⟩ := polled
      have hterm := (h.reports e he job.id outcome heq).2.sound.terminal
      simp only at hrun
      -- A recorded state is terminal.
      rw [hrun] at hterm
      cases hterm
  | mark devices now pending opening free synced =>
      refine ⟨pending, ?_⟩
      rintro other (hother | ⟨m', hm', hother⟩) hstate
      · exact free other (synced other hother hstate) hstate
      · rw [hm] at hm'
        cases hm'
        exact free other hother hstate

/-- A newly stored job that runs was just marked. -/
theorem fresh_running (h : Inv L) (hs : Step L L') {job' : Job} (hj : L'.Stored job')
    (hnew : ¬ L.Stored job') (hrun : job'.state = .running) :
    ∃ m job, L.mem = some m ∧ job ∈ m.jobs ∧ Change L.view m job job' ∧ job.state = .pending ∧
      ∀ other, L.Stored other → other.state = .running → Apart job'.devices other.devices := by
  rcases hs.stored hj with hj | ⟨hpend, _⟩ | ⟨m, job, hm, hj, change, _⟩
  · exact absurd hj hnew
  · rw [hrun] at hpend
    cases hpend
  · obtain ⟨hpend, happart⟩ := h.marked hm change hrun
    exact ⟨m, job, hm, hj, change, hpend, happart⟩

theorem apart_step (h : Inv L) (hs : Step L L') (a b : Job) (ha : L'.Stored a) (hb : L'.Stored b)
    (hra : a.state = .running) (hrb : b.state = .running) (hne : a.id ≠ b.id) :
    Apart a.devices b.devices := by
  by_cases hoa : L.Stored a
  · by_cases hob : L.Stored b
    · exact h.apart a b hoa hob hra hrb hne
    · obtain ⟨_, _, _, _, _, _, hfree⟩ := h.fresh_running hs hb hob hrb
      exact (hfree a hoa hra).symm
  · by_cases hob : L.Stored b
    · obtain ⟨_, _, _, _, _, _, hfree⟩ := h.fresh_running hs ha hoa hra
      exact hfree b hob hrb
    · exact absurd (congrArg Job.id (hs.stored_unique ha hb hoa hob)) hne

theorem saved_step (h : Inv L) (hs : Step L L') (m' : Store) (hm' : L'.mem = some m') (job : Job)
    (hj : job ∈ m'.jobs) (hrun : job.state = .running) (hset : job.id ∈ L'.view.hist.settled) :
    job ∈ L'.view.disk.jobs := by
  cases hs with
  | die | publish | misread => exact h.saved m' hm' job hj hrun hset
  | log m v event legit =>
      cases hm'
      rcases (View.mem_ids_log _ _).mp hset with hset | hset
      · cases legit with
        | started job₁ running mem disk =>
            have hid : job₁.id = job.id := Option.some.inj hset
            exact (h.memOrdered m' rfl).eq_of_id hj mem hid.symm ▸ disk
        | polled id outcome running =>
            obtain ⟨job₁, hmem, hid, _, hdisk⟩ := running
            have hid' : id = job.id := Option.some.inj hset
            exact (h.memOrdered m' rfl).eq_of_id hj hmem (hid.trans hid').symm ▸ hdisk
        | _ => cases hset
      · exact h.saved m' rfl job hj hrun hset
  | spawn m v job₁ =>
      cases hm'
      rcases (View.mem_ids_log _ _).mp hset with hset | hset
      · cases hset
      · exact h.saved m' rfl job hj hrun hset
  | save m v => cases hm'; exact hj
  -- Running jobs do not expire.
  | saveRetained m v timestamp =>
      cases hm'
      exact Store.mem_retain_expired (h.memOrdered m' rfl) hj hrun timestamp
  | retain m v timestamp =>
      cases hm'
      exact h.saved m rfl job (Store.mem_retain.mp hj).1 hrun hset
  | push m v job₁ uid gid spec disk live rest head next pending =>
      cases hm'
      rcases List.mem_append.mp hj with hj | hj
      · exact h.saved m rfl job hj hrun hset
      · rw [List.mem_singleton.mp hj, pending] at hrun
        cases hrun
  | pop nextId jobs v job₁ =>
      cases hm'
      exact h.saved _ rfl job (List.mem_append_left _ hj) hrun hset
  | set m v i job₁ job' at_i change =>
      cases hm'
      rcases Store.mem_setJob hj with rfl | hj
      -- The job was pending, so it has not been handed out.
      · obtain ⟨hpend, _⟩ := h.marked rfl change hrun
        have hpast := h.past job.id hset
        exact absurd hpend (hpast.pending job₁
          (Or.inr ⟨m, rfl, List.mem_of_getElem? at_i⟩) change.id_eq.symm)
      · exact h.saved m rfl job hj hrun hset
  | crash => cases hm'
  | boot v => cases hm'; exact hj

/-! ### Workers -/

theorem started_nodup_step (h : Inv L) (hs : Step L L') : L'.view.hist.started.Nodup := by
  refine hs.ids_pairwise h.started_nodup ?_
  rintro e hadd id hid old hold rfl
  rcases hs.added hadd with ⟨m, _, _, legit, _⟩ | ⟨_, _, _, hev, _⟩ | ⟨_, hev, _⟩
  · generalize e.event = event at hid legit
    cases legit with
    | started job running mem disk opening unsettled =>
        cases hid
        exact unsettled (Hist.started_settled hold)
    | _ => cases hid
  · rw [hev] at hid
    cases hid
  · rw [hev] at hid
    cases hid

theorem spawned_nodup_step (h : Inv L) (hs : Step L L') : L'.view.hist.spawned.Nodup := by
  refine hs.ids_pairwise h.spawned_nodup ?_
  rintro e hadd id hid old hold rfl
  rcases hs.added hadd with ⟨m, _, _, legit, _⟩ | ⟨_, job, _, hev, _, _, _, _, unspawned⟩ |
    ⟨_, hev, _⟩
  · generalize e.event = event at hid legit
    cases legit <;> cases hid
  · rw [hev] at hid
    cases hid
    exact unspawned hold
  · rw [hev] at hid
    cases hid

/-- The history only grows. -/
theorem ids_keep (hs : Step L L') {f : Event → Option Nat} {id : Nat}
    (hid : id ∈ L.view.hist.ids f) : id ∈ L'.view.hist.ids f := by
  cases hs with
  | log m v event => exact (View.mem_ids_log v event).mpr (Or.inr hid)
  | spawn m v job => exact (View.mem_ids_log _ _).mpr (Or.inr hid)
  | boot v => exact (View.mem_ids_log v _).mpr (Or.inr hid)
  | _ => exact hid

theorem spawned_started_step (h : Inv L) (hs : Step L L') (id : Nat)
    (hid : id ∈ L'.view.hist.spawned) : id ∈ L'.view.hist.started := by
  rcases hs.ids_hist hid with hid | ⟨m, event, _, rfl, hspawn, legit⟩ |
    ⟨m, job, _, hspawn, _, _, _, hstarted, _⟩ | hspawn
  · exact ids_keep hs (h.spawned_started id hid)
  · cases legit <;> cases hspawn
  · cases hspawn
    exact ids_keep hs hstarted
  · cases hspawn

theorem live_step (h : Inv L) (hs : Step L L') (job : Job) (hj : job ∈ L'.view.live) :
    job.state = .running ∧ job ∈ L'.view.disk.jobs ∧ job.id ∈ L'.view.hist.spawned ∧
      job.id ∉ L'.view.hist.finished := by
  cases hs with
  | die mem v live sub => exact h.live job (sub.subset hj)
  | log m v event legit =>
      obtain ⟨hrun, hdisk, hspawned, hfin⟩ := h.live job hj
      refine ⟨hrun, hdisk, (View.mem_ids_log v event).mpr (Or.inr hspawned), ?_⟩
      rw [View.mem_ids_log]
      -- A poll that reports an outcome has found no live worker.
      rintro (hnew | hold)
      · cases legit with
        | polled id outcome running waiting finished =>
            cases outcome with
            | none => cases hnew
            | some outcome =>
                have hid : id = job.id := Option.some.inj hnew
                exact (finished outcome rfl).1 job hj hid.symm
        | _ => cases hnew
      · exact hfin hold
  | spawn m v job₁ running mem disk started unspawned unfinished =>
      have hfin : ∀ job₂ : Job, job₂.id ∉ v.hist.finished →
          job₂.id ∉ (View.log { v with live := job₁ :: v.live } (.spawned job₁)).hist.finished := by
        intro job₂ hold
        rw [View.mem_ids_log]
        rintro (hnew | hmem)
        · cases hnew
        · exact hold hmem
      rcases List.mem_cons.mp hj with rfl | hj
      · exact ⟨running, disk, (View.mem_ids_log _ _).mpr (Or.inl rfl), hfin _ unfinished⟩
      · obtain ⟨hrun, hdisk, hspawned, hfin'⟩ := h.live job hj
        exact ⟨hrun, hdisk, (View.mem_ids_log _ _).mpr (Or.inr hspawned), hfin _ hfin'⟩
  | save m v =>
      obtain ⟨hrun, _, hrest⟩ := h.live job hj
      exact ⟨hrun, h.liveMem m rfl job hj, hrest⟩
  | saveRetained m v timestamp =>
      obtain ⟨hrun, _, hrest⟩ := h.live job hj
      exact ⟨hrun, Store.mem_retain_expired (h.memOrdered m rfl) (h.liveMem m rfl job hj) hrun
        timestamp, hrest⟩
  | boot v =>
      obtain ⟨hrun, hdisk, hspawned, hfin⟩ := h.live job hj
      -- The worker outlives the daemon; nothing that it relies on is in memory.
      refine ⟨hrun, hdisk, (View.mem_ids_log v _).mpr (Or.inr hspawned), ?_⟩
      rw [View.mem_ids_log]
      rintro (hnew | hold)
      · cases hnew
      · exact hfin hold
  | _ => exact h.live job hj

/-- A step does not change the job of a live worker in memory. -/
theorem live_unchanged (h : Inv L) {m : Store} {job job' : Job}
    (hlive : job ∈ L.view.live) : ¬ Change L.view m job job' := by
  intro change
  obtain ⟨hrun, _, hspawned, hfin⟩ := h.live job hlive
  cases change with
  | cancel now pending | mark devices now pending =>
      rw [hrun] at pending
      cases pending
  | record outcome running polled =>
      obtain ⟨e, he, heq⟩ := polled
      exact hfin (Hist.mem_finished.mpr ⟨e, he, outcome, heq⟩)
  | fail outcome running opening unspawned => exact unspawned hspawned

theorem liveMem_step (h : Inv L) (hs : Step L L') (m' : Store) (hm' : L'.mem = some m')
    (job : Job) (hj : job ∈ L'.view.live) : job ∈ m'.jobs := by
  cases hs with
  | die mem v live sub => exact h.liveMem m' hm' job (sub.subset hj)
  | spawn m v job₁ running mem =>
      cases hm'
      rcases List.mem_cons.mp hj with rfl | hj
      · exact mem
      · exact h.liveMem _ rfl job hj
  | retain m v timestamp =>
      cases hm'
      exact Store.mem_retain_expired (h.memOrdered m rfl) (h.liveMem m rfl job hj)
        (h.live job hj).1 timestamp
  | push m v job₁ =>
      cases hm'
      exact List.mem_append_left _ (h.liveMem m rfl job hj)
  | pop nextId jobs v job₁ pending =>
      cases hm'
      rcases List.mem_append.mp (h.liveMem _ rfl job hj) with hmem | hmem
      · exact hmem
      -- What is taken back is a pending job; a worker's job is running.
      · have hrun := (h.live job hj).1
        rw [List.mem_singleton.mp hmem, pending] at hrun
        cases hrun
  | set m v i job₁ job' at_i change =>
      cases hm'
      refine Store.mem_setJob_of_ne at_i (h.liveMem m rfl job hj) ?_
      rintro rfl
      exact h.live_unchanged hj change
  | crash => cases hm'
  | boot v => cases hm'; exact (h.live job hj).2.1
  | _ => exact h.liveMem m' hm' job hj

/-! ### Results -/

theorem published_step (h : Inv L) (hs : Step L L') (id : Nat) (outcome : Outcome)
    (hp : (id, outcome) ∈ L'.view.published) :
    id ∈ L'.view.hist.spawned ∧ outcome.Produced := by
  have keep : (id, outcome) ∈ L.view.published → id ∈ L'.view.hist.spawned ∧ outcome.Produced :=
    fun hold => ⟨ids_keep hs (h.published id outcome hold).1, (h.published id outcome hold).2⟩
  cases hs with
  | publish mem v id₁ outcome₁ live first produced =>
      rcases List.mem_cons.mp hp with heq | hp
      · cases heq
        obtain ⟨job, hlive, rfl⟩ := live
        exact ⟨(h.live job hlive).2.2.1, produced⟩
      · exact keep hp
  | _ => exact keep hp

theorem published_unique_step (h : Inv L) (hs : Step L L') (id : Nat) (o o' : Outcome)
    (ho : (id, o) ∈ L'.view.published) (ho' : (id, o') ∈ L'.view.published) : o = o' := by
  -- A worker publishes only while there is no result of its job (`first`).
  cases hs with
  | publish mem v id₁ outcome₁ live first produced =>
      rcases List.mem_cons.mp ho with heq | hold <;> rcases List.mem_cons.mp ho' with heq' | hold'
      · cases heq
        cases heq'
        rfl
      · cases heq
        exact absurd hold' (first o')
      · cases heq'
        exact absurd hold (first o)
      · exact h.published_unique id o o' hold hold'
  | _ => exact h.published_unique id o o' ho ho'

/-- A published result of a finished job stays the only one. -/
theorem reports_keep (h : Inv L) (hs : Step L L') {id : Nat} {outcome : Outcome}
    (hfin : id ∈ L.view.hist.finished) (hr : L.view.Reports id outcome) :
    L'.view.Reports id outcome := by
  cases hs with
  | publish mem v id₁ outcome₁ live first produced =>
      -- Only a live worker publishes, and a finished job has none.
      have hne : id₁ ≠ id := by
        rintro rfl
        obtain ⟨job, hlive, rfl⟩ := live
        exact (h.live job hlive).2.2.2 hfin
      rcases hr with ⟨hmem, honly⟩ | ⟨hnone, hfall⟩
      · refine Or.inl ⟨List.mem_cons_of_mem _ hmem, fun o ho => ?_⟩
        rcases List.mem_cons.mp ho with heq | ho
        · cases heq; exact absurd rfl hne
        · exact honly o ho
      · refine Or.inr ⟨hnone.imp_left fun hnone o ho => ?_, hfall⟩
        rcases List.mem_cons.mp ho with heq | ho
        · cases heq; exact absurd rfl hne
        · exact hnone o ho
  | misread mem v path =>
      exact hr.imp_right fun ⟨hnone, hfall⟩ => ⟨hnone.imp_right (List.mem_cons_of_mem _), hfall⟩
  | _ => exact hr

theorem reports_step (h : Inv L) (hs : Step L L') (e : Entry) (he : e ∈ L'.view.hist) (id : Nat)
    (outcome : Outcome) (heq : e.event = .polled id (some outcome)) :
    L'.view.Reports id outcome ∧ outcome.Produced := by
  have keep : e ∈ L.view.hist → L'.view.Reports id outcome ∧ outcome.Produced := fun hold =>
    ⟨h.reports_keep hs (Hist.mem_finished.mpr ⟨e, hold, outcome, heq⟩)
      (h.reports e hold id outcome heq).1, (h.reports e hold id outcome heq).2⟩
  cases hs with
  | log m v event legit =>
      rcases List.mem_cons.mp he with rfl | he
      · cases legit with
        | polled id₁ outcome₁ running waiting finished =>
            cases heq
            exact (finished outcome rfl).2
        | _ => cases heq
      · exact keep he
  | spawn m v job =>
      rcases List.mem_cons.mp he with rfl | he
      · cases heq
      · exact keep he
  | boot v =>
      rcases List.mem_cons.mp he with rfl | he
      · cases heq
      · exact keep he
  | _ => exact keep he

/-- A change of a job with a published result records that result. -/
theorem result_change (h : Inv L) {m : Store} (hm : L.mem = some m) {job job' : Job}
    (hj : job ∈ m.jobs) (change : Change L.view m job job') {outcome : Outcome}
    (hseen : .job job.id .result ∉ L.view.misread)
    (hp : (job.id, outcome) ∈ L.view.published) : job'.result = some outcome := by
  have hspawned := (h.published job.id outcome hp).1
  have hpast := h.past job.id (Hist.started_settled (h.spawned_started job.id hspawned))
  have hnot : job.state ≠ .pending := hpast.pending job (Or.inr ⟨m, hm, hj⟩) rfl
  cases change with
  | cancel now pending => exact absurd pending hnot
  | mark devices now pending => exact absurd pending hnot
  | fail outcome running opening unspawned => exact absurd hspawned unspawned
  | record outcome₁ running polled =>
      obtain ⟨e, he, heq⟩ := polled
      rcases (h.reports e he job.id outcome₁ heq).1 with ⟨_, honly⟩ | ⟨hnone | hmissed, _⟩
      · rw [honly outcome hp]
      · exact absurd hp (hnone outcome)
      · exact absurd hmissed hseen

theorem result_step (h : Inv L) (hs : Step L L') (job : Job) (hj : L'.Stored job)
    (hseen' : .job job.id .result ∉ L'.view.misread) (outcome : Outcome)
    (hp : (job.id, outcome) ∈ L'.view.published) :
    job.state = .running ∨ job.result = some outcome := by
  have hseen : .job job.id .result ∉ L.view.misread := fun h => hseen' (hs.misread_subset h)
  rcases hs.stored hj with hold | ⟨hpend, m, hm, hnext, _⟩ | ⟨m, job₁, hm, hj₁, change, hsame⟩
  -- The job was stored before; only a live worker publishes.
  · cases hs with
    | publish mem v id₁ outcome₁ live first produced =>
        rcases List.mem_cons.mp hp with heq | hp
        · obtain ⟨job₂, hlive, hid⟩ := live
          cases heq
          obtain ⟨hrun, hdisk, _, _⟩ := h.live job₂ hlive
          rcases hold with hold | ⟨m, hm, hold⟩
          · rw [h.diskOrdered.eq_of_id hold hdisk hid.symm]
            exact Or.inl hrun
          · rw [(h.memOrdered m hm).eq_of_id hold (h.liveMem m hm job₂ hlive) hid.symm]
            exact Or.inl hrun
        · exact h.result job hold hseen outcome hp
    | _ => exact h.result job hold hseen outcome hp
  -- A new job has a new id.
  · have hspawned := (h.published_step hs job.id outcome hp).1
    have hset := Hist.started_settled (h.spawned_started_step hs job.id hspawned)
    exact absurd hpend ((h.past_step hs job.id hset).pending job hj rfl)
  · rw [hsame, change.id_eq] at hp
    rw [change.id_eq] at hseen
    exact Or.inr (h.result_change hm hj₁ change hseen hp)

/-! ### Accepted submissions -/

/-- An answered submission names a job on disk, newer than all accepted before. -/
theorem accepted_new {m : Store} {event : Event} {id : Nat} (legit : Legit L.view m event)
    (hid : event.accepts = some id) :
    (∃ job ∈ L.view.disk.jobs, job.id = id) ∧ ∀ old ∈ L.view.hist.accepted, old < id := by
  cases legit with
  | answered uid gid request response before disk live rest head answer =>
      cases request with
      | submit spec =>
          cases response with
          | job job =>
              obtain ⟨_, hdisk, hnewest⟩ := answer.accepted spec job rfl rfl
              cases hid
              exact ⟨⟨job, hdisk, rfl⟩, hnewest⟩
          | _ => cases hid
      | _ => cases hid
  | _ => cases hid

theorem accepted_step (h : Inv L) (hs : Step L L') (id : Nat)
    (hid : id ∈ L'.view.hist.accepted) : id ≤ L'.view.disk.nextId := by
  rcases hs.ids_hist hid with hid | ⟨m, event, _, rfl, hacc, legit⟩ |
    ⟨m, job, _, hacc, _⟩ | hacc
  · exact Nat.le_trans (h.accepted id hid) (h.disk_nextId_step hs)
  · obtain ⟨⟨job, hdisk, rfl⟩, _⟩ := accepted_new legit hacc
    exact h.diskOrdered.bounded job hdisk
  · cases hacc
  · cases hacc

theorem accepted_sorted_step (h : Inv L) (hs : Step L L') :
    L'.view.hist.accepted.Pairwise (· > ·) := by
  refine hs.ids_pairwise h.accepted_sorted ?_
  intro e hadd id hid old hold
  rcases hs.added hadd with ⟨m, _, _, legit, _⟩ | ⟨_, _, _, hev, _⟩ | ⟨_, hev, _⟩
  · exact (accepted_new legit hid).2 old hold
  · rw [hev] at hid
    cases hid
  · rw [hev] at hid
    cases hid

/-! ### Jobs on disk -/

theorem bounded_step (h : Inv L) (hs : Step L L') (job' : Job) (hj : L'.Stored job') :
    job'.id < 2 ^ 64 := by
  rcases hs.stored hj with hold | ⟨_, _, _, _, hbounded, _⟩ | ⟨m, job, hm, hold, change, _⟩
  · exact h.bounded job' hold
  · exact hbounded
  · rw [change.id_eq]
    exact h.bounded job (Or.inr ⟨m, hm, hold⟩)

/-- No change makes a job pending again. -/
theorem not_pending_change (h : Inv L) {m : Store} {job job' : Job}
    (change : Change L.view m job job') : job'.state ≠ .pending := by
  cases change with
  | record outcome running polled =>
      obtain ⟨e, he, heq⟩ := polled
      have hterm := (h.reports e he job.id outcome heq).2.sound.terminal
      intro hpend
      simp only at hpend
      rw [hpend] at hterm
      cases hterm
  | _ => simp

theorem covered_step (h : Inv L) (hs : Step L L') (m' : Store) (hm' : L'.mem = some m')
    (job : Job) (hj : job ∈ L'.view.disk.jobs) (hbegun : job.state ≠ .pending) :
    m'.Begun job.id := by
  cases hs with
  | save m v =>
      cases hm'
      exact ⟨job, hj, rfl, hbegun⟩
  | saveRetained m v =>
      cases hm'
      exact ⟨job, (Store.mem_retain.mp hj).1, rfl, hbegun⟩
  | retain m v timestamp disk live rest head saved =>
      cases hm'
      rw [saved] at hj
      exact ⟨job, hj, rfl, hbegun⟩
  | push m v job₁ =>
      cases hm'
      obtain ⟨old, hold, hid, hstate⟩ := h.covered m rfl job hj hbegun
      exact ⟨old, List.mem_append_left _ hold, hid, hstate⟩
  | pop nextId jobs v job₁ pending =>
      cases hm'
      obtain ⟨old, hold, hid, hstate⟩ := h.covered _ rfl job hj hbegun
      rcases List.mem_append.mp hold with hold | hold
      · exact ⟨old, hold, hid, hstate⟩
      -- What is taken back is pending.
      · rw [List.mem_singleton.mp hold] at hstate
        exact absurd pending hstate
  | set m v i job₁ job₂ at_i change =>
      cases hm'
      obtain ⟨old, hold, hid, hstate⟩ := h.covered m rfl job hj hbegun
      by_cases heq : old = job₁
      · have hlt := (List.getElem?_eq_some_iff.mp at_i).choose
        refine ⟨job₂, List.mem_set hlt job₂, ?_, h.not_pending_change change⟩
        rw [change.id_eq, ← heq, hid]
      · exact ⟨old, Store.mem_setJob_of_ne at_i hold heq, hid, hstate⟩
  | crash => cases hm'
  | boot v =>
      cases hm'
      exact ⟨job, hj, rfl, hbegun⟩
  | _ => exact h.covered m' hm' job hj hbegun

/-! ### Runs -/

theorem step (h : Inv L) (hs : Step L L') : Inv L' where
  diskOrdered := h.diskOrdered_step hs
  memOrdered := h.memOrdered_step hs
  nextId_le := h.nextId_le_step hs
  past := h.past_step hs
  apart := h.apart_step hs
  saved := h.saved_step hs
  started_nodup := h.started_nodup_step hs
  spawned_nodup := h.spawned_nodup_step hs
  spawned_started := h.spawned_started_step hs
  live := h.live_step hs
  liveMem := h.liveMem_step hs
  published := h.published_step hs
  published_unique := h.published_unique_step hs
  reports := h.reports_step hs
  accepted := h.accepted_step hs
  accepted_sorted := h.accepted_sorted_step hs
  result := h.result_step hs
  bounded := h.bounded_step hs
  covered := h.covered_step hs

end Inv

/-- `L` satisfies the invariant and is reached from `L₀`. -/
structure Reach (L₀ L : Ledger) : Prop where
  inv : Inv L
  steps : Relation.ReflTransGen Step L₀ L

namespace Reach

variable {L₀ L L' : Ledger}

theorem refl (h : Inv L) : Reach L L := ⟨h, .refl⟩

theorem step (h : Reach L₀ L) (hs : Step L L') : Reach L₀ L' :=
  ⟨h.inv.step hs, h.steps.tail hs⟩

end Reach

end Xlurm
