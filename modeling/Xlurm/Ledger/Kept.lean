/-
  Xlurm.Ledger.Kept

  What happens to a job in the stores: it stays until a cleanup that found it
  expired takes it off the disk.
-/

import Xlurm.Ledger.History

namespace Xlurm

variable {L₀ L L' : Ledger} {id : Nat}

/-! ## Ids in a store -/

/-- The store has a job with this id. -/
def Store.Has (store : Store) (id : Nat) : Prop := ∃ job ∈ store.jobs, job.id = id

namespace Store.Has

variable {store : Store}

theorem push (h : store.Has id) (job : Job) : Store.Has ⟨job.id, store.jobs ++ [job]⟩ id := by
  obtain ⟨old, hold, hid⟩ := h
  exact ⟨old, List.mem_append_left _ hold, hid⟩

theorem setJob (h : store.Has id) {i : Nat} {job job' : Job} (hi : store.jobs[i]? = some job)
    (hid : job'.id = job.id) : (store.setJob i job').Has id := by
  obtain ⟨old, hold, rfl⟩ := h
  by_cases heq : old = job
  · have hlt := (List.getElem?_eq_some_iff.mp hi).choose
    exact ⟨job', List.mem_set hlt job', by rw [hid, heq]⟩
  · exact ⟨old, Store.mem_setJob_of_ne hi hold heq, rfl⟩

theorem retain (h : store.Has id) {expired : List Nat} (hid : id ∉ expired) :
    (store.retain expired).Has id := by
  obtain ⟨old, hold, rfl⟩ := h
  exact ⟨old, Store.mem_retain.mpr ⟨hold, hid⟩, rfl⟩

theorem notMem_of_retain {expired : List Nat} (h : (store.retain expired).Has id) :
    id ∉ expired := by
  obtain ⟨old, hold, rfl⟩ := h
  exact (Store.mem_retain.mp hold).2

end Store.Has

/-! ## Ids in the ledger -/

/-- The job is on disk, and in memory if a daemon runs. -/
structure Ledger.Holds (L : Ledger) (id : Nat) : Prop where
  disk : L.view.disk.Has id
  mem : ∀ m, L.mem = some m → m.Has id

/-- How a job can get lost: to a cleanup, or as a submission that is taken back. -/
theorem Ledger.Holds.step (h : L.Holds id) (hs : Step L L') :
    L'.Holds id ∨
    (∃ m timestamp disk live rest, L.view.hist = ⟨.cleaning timestamp m, disk, live⟩ :: rest ∧
      L'.view.hist = L.view.hist ∧ id ∈ m.expired timestamp ∧ ¬ L'.view.disk.Has id) ∨
    (∃ job, L.Stored job ∧ job.id = id ∧ job.state = .pending ∧ id ∉ L.view.hist.accepted) := by
  cases hs with
  | die | publish | misread | log | spawn => exact Or.inl ⟨h.disk, h.mem⟩
  | save m v =>
      have hm := h.mem m rfl
      exact Or.inl ⟨hm, fun _ heq => Option.some.inj heq ▸ hm⟩
  | saveRetained m v timestamp disk live rest head =>
      by_cases hexp : id ∈ m.expired timestamp
      · refine Or.inr (Or.inl ⟨m, timestamp, disk, live, rest, head, rfl, hexp, ?_⟩)
        exact fun hhas => hhas.notMem_of_retain hexp
      · exact Or.inl ⟨(h.mem m rfl).retain hexp, h.mem⟩
  -- What memory forgets here has left the disk already (`saved`).
  | retain m v timestamp disk live rest head saved =>
      have hdisk := h.disk
      rw [saved] at hdisk
      have hkept := (h.mem m rfl).retain hdisk.notMem_of_retain
      exact Or.inl ⟨h.disk, fun _ heq => Option.some.inj heq ▸ hkept⟩
  | push m v job =>
      have hm := (h.mem m rfl).push job
      exact Or.inl ⟨h.disk, fun _ heq => Option.some.inj heq ▸ hm⟩
  | pop nextId jobs v job pending unanswered =>
      by_cases hid : job.id = id
      · have hstored : Ledger.Stored ⟨some ⟨nextId, jobs ++ [job]⟩, v⟩ job :=
          Or.inr ⟨_, rfl, List.mem_append_right _ (List.mem_singleton_self _)⟩
        exact Or.inr (Or.inr ⟨job, hstored, hid, pending, hid ▸ unanswered⟩)
      · obtain ⟨old, hold, hold_id⟩ := h.mem _ rfl
        have hkept : Store.Has ⟨nextId, jobs⟩ id := by
          rcases List.mem_append.mp hold with hold | hold
          · exact ⟨old, hold, hold_id⟩
          · rw [List.mem_singleton.mp hold] at hold_id
            exact absurd hold_id hid
        exact Or.inl ⟨h.disk, fun _ heq => Option.some.inj heq ▸ hkept⟩
  | set m v i job job' at_i change =>
      have hm := (h.mem m rfl).setJob at_i change.id_eq
      exact Or.inl ⟨h.disk, fun _ heq => Option.some.inj heq ▸ hm⟩
  | crash => exact Or.inl ⟨h.disk, by rintro _ ⟨⟩⟩
  | boot v => exact Or.inl ⟨h.disk, fun _ heq => Option.some.inj heq ▸ h.disk⟩

/-! ## Removal by a cleanup -/

/-- In the history `newer`, a cleanup found job `id` expired and took it off the
    disk: the next entry, or `disk` as it is now, does not show it. -/
def Hist.Removed (newer : Hist) (disk : Store) (id : Nat) : Prop :=
  ∃ (later : Hist) (e : Entry) (earlier : Hist) (timestamp : Nat) (mem : Store),
    newer = later ++ e :: earlier ∧ e.event = .cleaning timestamp mem ∧
      id ∈ mem.expired timestamp ∧ ¬ ((later.getLast?.map (·.disk)).getD disk).Has id

theorem Hist.Removed.cons {newer : Hist} {disk disk' : Store} (h : newer.Removed disk id)
    {e : Entry} (he : e.disk = disk) : Hist.Removed (e :: newer) disk' id := by
  obtain ⟨later, c, earlier, timestamp, mem, rfl, hev, hexp, hlost⟩ := h
  refine ⟨e :: later, c, earlier, timestamp, mem, rfl, hev, hexp, ?_⟩
  cases later with
  | nil =>
      rw [← he] at hlost
      exact hlost
  | cons e' later => exact hlost

/-- What became of the accepted job `job` since the history was `older`. -/
structure Kept (older : Hist) (job : Job) (L : Ledger) : Prop where
  accepted : job.id ∈ L.view.hist.accepted
  same : ∀ job', L.Stored job' → job'.id = job.id → job'.owner = job.owner ∧ job'.spec = job.spec
  present : ∃ newer, L.view.hist = newer ++ older ∧
    (L.Holds job.id ∨ newer.Removed L.view.disk job.id)

namespace Kept

variable {older : Hist} {job : Job}

theorem same_step (h : Inv L) (hs : Step L L') (hk : Kept older job L) (job' : Job)
    (hj : L'.Stored job') (hid : job'.id = job.id) :
    job'.owner = job.owner ∧ job'.spec = job.spec := by
  rcases hs.stored hj with hj | ⟨_, m, hm, hnext, _⟩ | ⟨m, job₁, hm, hj, change, _⟩
  · exact hk.same job' hj hid
  -- a new job has a new id
  · have haccepted := h.accepted job.id hk.accepted
    have hle := h.nextId_le m hm
    omega
  · obtain ⟨howner, hspec⟩ := hk.same job₁ (Or.inr ⟨m, hm, hj⟩) (change.id_eq ▸ hid)
    exact ⟨change.owner_eq.trans howner, change.spec_eq.trans hspec⟩

/-- Between two entries only a save can bring a removed job back, and it does so in
    both stores. -/
theorem removed_step (hs : Step L L') (hhist : L'.view.hist = L.view.hist) {newer : Hist}
    (hnewer : L.view.hist = newer ++ older) (hr : newer.Removed L.view.disk id) :
    L'.Holds id ∨ newer.Removed L'.view.disk id := by
  obtain ⟨later, c, earlier, timestamp, mem, heq, hev, hexp, hlost⟩ := hr
  cases later with
  | cons e later => exact Or.inr ⟨e :: later, c, earlier, timestamp, mem, heq, hev, hexp, hlost⟩
  | nil =>
      -- The cleanup entry is the newest one, so the disk as it is now is what counts.
      have stays : ¬ L'.view.disk.Has id → newer.Removed L'.view.disk id := fun hnot =>
        ⟨[], c, earlier, timestamp, mem, heq, hev, hexp, hnot⟩
      cases hs with
      | save m v =>
          by_cases hhas : m.Has id
          · exact Or.inl ⟨hhas, fun _ hm => Option.some.inj hm ▸ hhas⟩
          · exact Or.inr (stays hhas)
      | saveRetained m v timestamp' disk live rest head =>
          -- The same cleanup saves again: its list of expired jobs is the one in the entry.
          have hc : c = ⟨.cleaning timestamp' m, disk, live⟩ := by
            rw [heq] at hnewer
            exact (List.cons.inj (hnewer.symm.trans head)).1
          rw [hc] at hev
          cases hev
          exact Or.inr (stays fun hhas => hhas.notMem_of_retain hexp)
      | log | spawn | boot => exact absurd hhist (List.cons_ne_self _ _)
      | _ => exact Or.inr (stays hlost)

theorem step (h : Inv L) (hs : Step L L') (hold : ∀ e rest timestamp mem, older = e :: rest →
    e.event ≠ .cleaning timestamp mem) (hk : Kept older job L) : Kept older job L' := by
  refine ⟨Inv.ids_keep hs hk.accepted, same_step h hs hk, ?_⟩
  obtain ⟨newer, hnewer, hpresent⟩ := hk.present
  rcases hs.hist with hsame | ⟨e, hadd⟩
  · refine ⟨newer, hsame.trans hnewer, ?_⟩
    rcases hpresent with hholds | hremoved
    · rcases hholds.step hs with hholds' | ⟨m, timestamp, disk, live, rest, head, _, hexp, hlost⟩ |
        ⟨_, _, hid, _, hnot⟩
      · exact Or.inl hholds'
      -- the cleanup that loses the job began after the submission
      · rw [hnewer] at head
        cases newer with
        | nil => exact absurd rfl (hold _ rest timestamp m head)
        | cons c earlier =>
            obtain ⟨hc, _⟩ := List.cons.inj head
            exact Or.inr ⟨[], c, earlier, timestamp, m, rfl, by rw [hc], hexp, hlost⟩
      · exact absurd hk.accepted hnot
    · exact removed_step hs hsame hnewer hremoved
  · have hdisk : e.disk = L.view.disk := by
      rcases hs.added hadd with ⟨_, _, _, _, he⟩ | ⟨_, _, _, _, _, _, he, _⟩ | ⟨_, _, he, _⟩
      · rw [he]
      · exact he
      · exact he
    refine ⟨e :: newer, by rw [hadd, hnewer, List.cons_append], ?_⟩
    rcases hpresent with hholds | hremoved
    · rcases hholds.step hs with hholds' | ⟨_, _, _, _, _, _, hsame, _⟩ | ⟨_, _, hid, _, hnot⟩
      · exact Or.inl hholds'
      · exact absurd (hadd.symm.trans hsame) (List.cons_ne_self _ _)
      · exact absurd hk.accepted hnot
    · exact Or.inr (hremoved.cons hdisk)

/-- From the answer on, an accepted job is kept. -/
theorem run (h : Inv L) (hold : ∀ e rest timestamp mem, older = e :: rest →
    e.event ≠ .cleaning timestamp mem) (hk : Kept older job L) (hr : Reach L L') :
    Kept older job L' :=
  hr.keeps h hk fun _ _ h₁ hs hk₁ => hk₁.step h₁ hs hold

end Kept

/-- The answer to a submission: the job is in both stores. -/
theorem Kept.answered (hs : Step L L') (h : Inv L) {e : Entry}
    (hadd : L'.view.hist = e :: L.view.hist) {uid gid : Nat} {spec : Submission} {job : Job}
    {before after : Store}
    (hev : e.event = .answered uid gid (.submit spec) (.job job) before after) :
    Kept L'.view.hist job L' := by
  obtain ⟨m, hm, hL', legit, _⟩ := hs.logged hadd hev (by simp) (by simp)
  cases legit with
  | answered _ _ _ _ _ disk live rest head answer =>
      obtain ⟨hmem, hdisk, _⟩ := answer.accepted spec job rfl rfl
      subst hL'
      refine ⟨(View.mem_ids_log _ _).mpr (Or.inl rfl), ?_, [], rfl, Or.inl ⟨⟨job, hdisk, rfl⟩, ?_⟩⟩
      · rintro job' (hj | ⟨_, heq, hj⟩) hid
        · rw [h.diskOrdered.eq_of_id hj hdisk hid]
          exact ⟨rfl, rfl⟩
        · cases heq
          rw [(h.memOrdered _ hm).eq_of_id hj hmem hid]
          exact ⟨rfl, rfl⟩
      · rintro _ ⟨⟩
        exact ⟨job, hmem, rfl⟩

end Xlurm
