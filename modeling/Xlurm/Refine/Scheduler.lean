/-
  Xlurm.Refine.Scheduler

  The operations of the scheduler keep to the ledger.

  Between two operations of the main loop memory and disk agree on the running
  jobs (`Synced`), and every running job has been handed to the executor
  (`Idle`).  Each operation is shown to take only steps of the ledger and to
  lead back to such a state; a failing `tick` need not, since it ends the daemon.
-/

import Xlurm.Refine.Contract

namespace Xlurm

open Prog.Comp

/-! ## Between two operations -/

/-- Memory and disk agree on the running jobs. -/
structure Synced (m : Store) (v : View) : Prop where
  mem : ∀ job ∈ v.disk.jobs, job.state = .running → job ∈ m.jobs
  disk : ∀ job ∈ m.jobs, job.state = .running → job ∈ v.disk.jobs
  drawn : ∀ job ∈ m.jobs, job.id ≤ v.disk.nextId

structure Idle (m : Store) (v : View) : Prop extends Synced m v where
  closed : v.hist.tickOpen = false
  settled : ∀ job ∈ m.jobs, job.state = .running → job.id ∈ v.hist.settled
  staying : v.hist.leaving = false

variable {L₀ : Ledger} {s : Scheduler} {m : Store}

section View

variable {v v' : View}

theorem Synced.congr (h : Synced m v) (hdisk : v'.disk = v.disk) : Synced m v' := by
  refine ⟨?_, ?_, ?_⟩ <;> rw [hdisk]
  · exact h.mem
  · exact h.disk
  · exact h.drawn

theorem Idle.congr (h : Idle m v) (hdisk : v'.disk = v.disk) (hhist : v'.hist = v.hist) :
    Idle m v' where
  toSynced := h.toSynced.congr hdisk
  closed := hhist ▸ h.closed
  settled := hhist ▸ h.settled
  staying := hhist ▸ h.staying

/-- A store that has just been saved. -/
theorem Synced.of_eq (hm : m.Ordered) (h : v.disk = m) : Synced m v := by
  subst h
  exact ⟨fun _ hj _ => hj, fun _ hj _ => hj, hm.bounded⟩

end View

variable {v v' : Scene}

/-! ## `submit` -/

theorem checkDeviceIds_calm (spec : Submission) (ids : List Nat) :
    Calm L₀ (checkDeviceIds s spec ids) := by
  unfold checkDeviceIds
  refine (Calm.ensure _ _).bind fun _ => (Calm.ensure _ _).bind fun _ =>
    (Calm.ensure _ _).bind fun _ => (Calm.ensure _ _).bind fun _ => ?_
  split
  · exact Calm.throw _
  · exact (Calm.ensure _ _).bind fun _ => Calm.pure _
  · exact Calm.throw _

theorem checkSubmission_calm (spec : Submission) : Calm L₀ (checkSubmission spec) := by
  unfold checkSubmission
  refine (Calm.ensure _ _).bind fun _ => (Calm.call _ rfl).bind fun _ =>
    (Calm.ensure _ _).bind fun _ => (Calm.ensure _ _).bind fun _ =>
    (Calm.ensure _ _).bind fun _ => Calm.get.bind fun s =>
    Calm.bind ?_ fun _ => (Calm.ensure _ _).bind fun _ => Calm.pure _
  unfold resolveSpec
  split
  · exact checkDeviceIds_calm _ _
  · exact Calm.pure _

/-- What `submit` leaves behind. -/
structure Submitted (before : Store) (v : View) (m : Store) (r : Except Error Job) (v' : View) :
    Prop where
  idle : Idle m v'
  hist : v'.hist = v.hist
  ok : ∀ job, r = .ok job → job ∈ m.jobs ∧ job ∈ v'.disk.jobs ∧ before.nextId < job.id
  error : ∀ e, r = .error e → m.jobs = before.jobs

/-- An operation that was refused before it changed anything. -/
theorem Submitted.refused {e : Error} (hi : Idle m v) (hm : Meanwhile v v') :
    Submitted m v m (.error e) v' where
  idle := hi.congr hm.disk hm.hist
  hist := hm.hist
  ok := by rintro _ ⟨⟩
  error _ _ := rfl

theorem push_ordered (h : Inv ⟨some m, v⟩) {job : Job} (hid : job.id = m.nextId + 1) :
    Store.Ordered ⟨job.id, m.jobs ++ [job]⟩ :=
  (h.memOrdered m rfl).push hid

/-- Memory with one more pending job is as idle as before, whether it was saved or not. -/
theorem Idle.pushed (hi : Idle m v) (hinv : Inv ⟨some m, v⟩) {job : Job}
    (hid : job.id = m.nextId + 1) (hpend : job.state = .pending) (hhist : v'.hist = v.hist)
    (hdisk : v'.disk = ⟨job.id, m.jobs ++ [job]⟩) : Idle ⟨job.id, m.jobs ++ [job]⟩ v' where
  toSynced := Synced.of_eq (push_ordered hinv hid) hdisk
  closed := hhist ▸ hi.closed
  settled old hold hrun := by
    rcases List.mem_append.mp hold with hold | hold
    · rw [hhist]
      exact hi.settled old hold hrun
    · rw [List.mem_singleton.mp hold, hpend] at hrun
      cases hrun
  staying := hhist ▸ hi.staying

/-- A submission that is taken back leaves memory idle, wherever its save failed. -/
theorem Idle.popped (hi : Idle m v) (hinv : Inv ⟨some m, v⟩) {job : Job}
    (hid : job.id = m.nextId + 1) (hpend : job.state = .pending) (hhist : v'.hist = v.hist)
    (hdisk : v'.disk = ⟨job.id, m.jobs ++ [job]⟩ ∨ v'.disk = v.disk) :
    Idle ⟨job.id, m.jobs⟩ v' := by
  rcases hdisk with hdisk | hdisk
  · have hfull := hi.pushed hinv hid hpend hhist hdisk
    refine ⟨⟨?_, ?_, ?_⟩, hfull.closed, ?_, hfull.staying⟩
    · intro old hold hrun
      rw [hdisk] at hold
      rcases List.mem_append.mp hold with hold | hold
      · exact hold
      · rw [List.mem_singleton.mp hold, hpend] at hrun
        cases hrun
    · exact fun old hold => hfull.disk old (List.mem_append_left _ hold)
    · exact fun old hold => hfull.drawn old (List.mem_append_left _ hold)
    · exact fun old hold => hfull.settled old (List.mem_append_left _ hold)
  · have hold := hi.congr hdisk hhist
    exact ⟨⟨hold.mem, hold.disk, hold.drawn⟩, hold.closed, hold.settled, hold.staying⟩

/-- `submit` appends a pending job and saves it, or leaves the jobs as they were. -/
theorem submit_wp {uid gid : Nat} {spec₀ : Submission} {disk : Store} {live : List Nat}
    {rest : Hist} (spec : Submission) {owner : Owner} (howner : owner.uid = uid ∧ owner.gid = gid)
    (hr : Reach L₀ ⟨some s.store, v⟩) (hi : Idle s.store v)
    (haccepted : ∀ id ∈ v.hist.accepted, id ≤ s.store.nextId)
    (head : v.hist = ⟨.began (.request uid gid (.submit spec₀)) s.store, disk, live⟩ :: rest) :
    wp (contract L₀) (submit spec owner) (fun s' r v' =>
      Reach L₀ ⟨some s'.store, v'⟩ ∧ Submitted s.store v s'.store r v') s v := by
  refine wp_calm_bind (checkSubmission_calm spec) hr ?_ ?_
  · intro s₁ spec v₁ hstore hm hr₁
    rw [wp_bind, wp_get, andThen_ok, wp_bind, wp_ensure]
    refine ⟨fun hbounded => ?_, fun _ => ?_⟩
    · rw [andThen_ok, wp_bind]
      refine wp_calm (Calm.call .now rfl) hr₁ ?_
      -- The clock is asked, and other processes may move, but the store stays.
      rintro s₂ (e | now) v₂ hstore₂ hm₂ hr₂
      · refine ⟨hr₂, ?_⟩
        rw [hstore₂, hstore]
        exact Submitted.refused hi (hm.trans hm₂)
      · rw [andThen_ok, wp_bind, wp_modify, andThen_ok, wp_bind, wp_attempt]
        have hs : s₂.store = s.store := hstore₂.trans hstore
        have hm' : Meanwhile v v₂ := hm.trans hm₂
        have hi₂ : Idle s₂.store v₂ := hs ▸ hi.congr hm'.disk hm'.hist
        generalize hjob : (Job.mk (s₁.store.nextId + 1) owner spec .pending [] now none none) = job
        have hid : job.id = s₂.store.nextId + 1 := by rw [← hjob, hstore₂]
        have hpend : job.state = .pending := by rw [← hjob]
        have hr₃ : Reach L₀ ⟨some (s₂.push job).store, v₂⟩ :=
          hr₂.step (Step.push s₂.store v₂ job uid gid spec₀ disk live rest
            (hm'.hist.trans (hs ▸ head)) hid hpend (hjob ▸ howner) (hjob ▸ hbounded)
            (by rw [← hjob]))
        refine wp_save hr₃ ?_
        rintro (e | ⟨⟨⟩⟩) v₃ hr₄ hsaved
        -- The save failed, before or after the new file was in place.
        · have hpop : (s₂.push job).pop.store = ⟨job.id, s₂.store.jobs⟩ := by
            simp [Scheduler.push, Scheduler.pop]
          -- No answer has named the id: it is larger than every accepted one.
          have hun : job.id ∉ v₃.hist.accepted := by
            intro hmem
            rw [hsaved.hist, hm'.hist] at hmem
            have hle := haccepted job.id hmem
            rw [hid, hs] at hle
            omega
          simp only [andThen_ok, wp_bind, wp_modify, wp_throw]
          refine ⟨?_, ?_⟩
          · rw [hpop]
            have hbegan := (hsaved.hist.trans hm'.hist).trans (hs ▸ head)
            exact hr₄.step (Step.pop job.id s₂.store.jobs v₃ job hpend hun
              ⟨uid, gid, spec₀, s₂.store, disk, live, rest, hbegan, rfl⟩)
          · rw [hpop]
            refine ⟨hi₂.popped hr₂.inv hid hpend hsaved.hist hsaved.disk,
              hsaved.hist.trans hm'.hist, by rintro _ ⟨⟩, fun _ _ => ?_⟩
            rw [hs]
        -- The save succeeded: the job is on disk and in memory, and its id is the last one drawn.
        · have hdisk := hsaved.ok rfl
          refine ⟨hr₄, hi₂.pushed hr₂.inv hid hpend hsaved.hist hdisk,
            hsaved.hist.trans hm'.hist, ?_, by rintro _ ⟨⟩⟩
          rintro _ ⟨⟩
          rw [hdisk]
          refine ⟨List.mem_append_right _ (List.mem_singleton_self _),
            List.mem_append_right _ (List.mem_singleton_self _), ?_⟩
          rw [hid, hs]
          omega
    · refine ⟨hr₁, ?_⟩
      rw [hstore]
      exact Submitted.refused hi hm
  · intro s₁ e v₁ hstore hm hr₁
    refine ⟨hr₁, ?_⟩
    rw [hstore]
    exact Submitted.refused hi hm

/-! ## `cancel` -/

/-- A job that is pending neither in memory nor on disk stays so. -/
theorem Ledger.Past.of_mem (hinv : Inv ⟨some m, v⟩) {job : Job} (hj : job ∈ m.jobs)
    (hmem : job.state ≠ .pending) (hdrawn : job.id ≤ v.disk.nextId)
    (hdisk : ∀ other ∈ v.disk.jobs, other.id = job.id → other.state ≠ .pending) :
    Ledger.Past ⟨some m, v⟩ job.id where
  pending other hother hid := by
    rcases hother with hother | ⟨_, ⟨⟩, hother⟩
    · exact hdisk other hother hid
    · rw [(hinv.memOrdered m rfl).eq_of_id hother hj hid]
      exact hmem
  drawn := hdrawn

/-- Only a pending job changes: the running ones stay in memory and on disk. -/
theorem Idle.cancelled (hi : Idle m v) (hinv : Inv ⟨some m, v⟩) {i : Nat} {job job' : Job}
    (hat : m.jobs[i]? = some job) (hpend : job.state = .pending) (hid : job'.id = job.id)
    (hstate : job'.state = .cancelled) (hhist : v'.hist = v.hist)
    (hdisk : v'.disk = m.setJob i job' ∨ v'.disk = v.disk) : Idle (m.setJob i job') v' := by
  have hrunning : ∀ other ∈ (m.setJob i job').jobs, other.state = .running → other ∈ m.jobs := by
    intro other hother hrun
    rcases Store.mem_setJob hother with rfl | hother
    · rw [hstate] at hrun
      cases hrun
    · exact hother
  have hsettled : ∀ other ∈ (m.setJob i job').jobs, other.state = .running →
      other.id ∈ v'.hist.settled := by
    intro other hother hrun
    rw [hhist]
    exact hi.settled other (hrunning other hother hrun) hrun
  have hkeep : ∀ other ∈ m.jobs, other.state = .running → other ∈ (m.setJob i job').jobs := by
    intro other hother hrun
    refine Store.mem_setJob_of_ne hat hother ?_
    rintro rfl
    rw [hpend] at hrun
    cases hrun
  -- The save may have failed, before or after the new file was in place.
  rcases hdisk with hdisk | hdisk
  · exact ⟨Synced.of_eq ((hinv.memOrdered m rfl).setJob hat hid) hdisk, hhist ▸ hi.closed,
      hsettled, hhist ▸ hi.staying⟩
  · refine ⟨⟨?_, ?_, ?_⟩, hhist ▸ hi.closed, hsettled, hhist ▸ hi.staying⟩
    · intro other hother hrun
      exact hkeep other (hi.mem other (hdisk ▸ hother) hrun) hrun
    · intro other hother hrun
      exact hdisk ▸ hi.disk other (hrunning other hother hrun) hrun
    · intro other hother
      rw [hdisk]
      rcases Store.mem_setJob hother with rfl | hother
      · rw [hid]
        exact hi.drawn job (List.mem_of_getElem? hat)
      · exact hi.drawn other hother

/-- What `cancel` leaves behind. -/
structure Cancelled (id : Nat) (before : Store) (v : View) (m : Store) (r : Except Error Unit)
    (v' : View) : Prop where
  idle : Idle m v'
  hist : v'.hist = v.hist
  ok : r = .ok () → Ledger.Past ⟨some m, v'⟩ id ∨
    ((∃ job ∈ before.jobs, job.id = id ∧ job.state.terminal = true) ∧
      ∃ job ∈ v.disk.jobs, job.id = id ∧ job.state = .pending)

/-- A cancelled job is past, unless it was terminal in memory and pending on disk. -/
theorem cancel_wp (id : Nat) (hr : Reach L₀ ⟨some s.store, v⟩) (hi : Idle s.store v)
    (hmay : ∀ job ∈ s.store.jobs, job.id = id → v.hist.MayCancel job) :
    wp (contract L₀) (cancel id) (fun s' r v' =>
      Reach L₀ ⟨some s'.store, v'⟩ ∧ Cancelled id s.store v s'.store r v') s v := by
  have hrefuse : ∀ e : Error, Cancelled id s.store v s.store (.error e) v :=
    fun e => ⟨hi, rfl, by rintro ⟨⟩⟩
  rw [cancel, wp_bind, wp_get, andThen_ok]
  split
  · exact ⟨hr, hrefuse _⟩
  · rename_i i hfind
    split
    · exact ⟨hr, hrefuse _⟩
    · rename_i job hat
      have hid : job.id = id := id_of_findIdx? hfind hat
      have hmem : job ∈ s.store.jobs := List.mem_of_getElem? hat
      have hinv := hr.inv
      split
      -- Pending: cancelled in memory, then saved.
      · rename_i hpend
        rw [wp_bind]
        refine wp_calm (Calm.call .now rfl) hr ?_
        rintro s₁ (e | now) v₁ hstore hm hr₁
        · exact ⟨hr₁, by rw [hstore]; exact ⟨hi.congr hm.disk hm.hist, hm.hist, by rintro ⟨⟩⟩⟩
        · rw [andThen_ok, wp_bind, wp_modify, andThen_ok]
          have hi₁ : Idle s₁.store v₁ := hstore ▸ hi.congr hm.disk hm.hist
          have hat₁ : s₁.store.jobs[i]? = some job := hstore ▸ hat
          have hmay₁ : v₁.hist.MayCancel job := hm.hist ▸ hmay job hmem hid
          have change : Change v₁ s₁.store job _ := Change.cancel now hpend hmay₁
          generalize hjob' : ({ job with
            state := .cancelled, result := some (cancelledOutcome now) } : Job) = job' at change ⊢
          have hid' : job'.id = id := change.id_eq.trans hid
          have hstate : job'.state = .cancelled := by rw [← hjob']
          have hr₂ := hr₁.step (Step.set s₁.store v₁ i job job' hat₁ change)
          refine wp_save hr₂ ?_
          intro r v₂ hr₃ hsaved
          refine ⟨hr₃, hi₁.cancelled hr₁.inv hat₁ hpend change.id_eq hstate hsaved.hist
            hsaved.disk, hsaved.hist.trans hm.hist, fun hok => Or.inl ?_⟩
          have hlt := (List.getElem?_eq_some_iff.mp hat₁).choose
          have hnew : job' ∈ (s₁.setJob i job').store.jobs := List.mem_set hlt job'
          have hdisk := hsaved.ok hok
          have hordered := hr₃.inv.memOrdered _ rfl
          rw [← hid']
          refine Ledger.Past.of_mem hr₃.inv hnew (by rw [hstate]; simp) ?_ ?_
          · rw [hdisk]
            exact hordered.bounded job' hnew
          · intro other hother hoid
            rw [hdisk] at hother
            rw [hordered.eq_of_id hother hnew hoid, hstate]
            simp
      -- Running: the executor is told.
      · rename_i hrun
        have hdisk := hi.disk job hmem hrun
        rw [wp_bind, wp_call]
        refine ⟨⟨hr, job, hmem, hid, hrun, hdisk, hmay job hmem hid⟩, ?_⟩
        rintro r v₁ ⟨hr₁, hm⟩
        have hm : Meanwhile v v₁ := hm
        have hdone : Cancelled id s.store v s.store (.ok ()) v₁ := by
          refine ⟨hi.congr hm.disk hm.hist, hm.hist, fun _ => Or.inl ?_⟩
          rw [← hid]
          exact hr₁.inv.past_of_running rfl hmem (hm.disk ▸ hdisk) hrun
        rw [andThen_ok, wp_lift]
        rcases r with e | r
        · exact ⟨hr₁, hdone.idle, hdone.hist, by rintro ⟨⟩⟩
        · exact ⟨hr₁, hdone.idle, hdone.hist, fun _ => hdone.ok rfl⟩
      -- Terminal already: nothing is done.
      · rename_i hnp hnr
        refine ⟨hr, hi, rfl, fun _ => ?_⟩
        by_cases hdisk : ∃ other ∈ v.disk.jobs, other.id = id ∧ other.state = .pending
        · refine Or.inr ⟨⟨job, hmem, hid, ?_⟩, hdisk⟩
          cases hstate : job.state with
          | pending => exact absurd hstate hnp
          | running => exact absurd hstate hnr
          | _ => rfl
        · refine Or.inl ?_
          rw [← hid]
          refine Ledger.Past.of_mem hinv hmem hnp (hi.drawn job hmem) ?_
          intro other hother hoid hpend
          exact hdisk ⟨other, hother, hoid.trans hid, hpend⟩

/-! ## `cleanup` -/

/-- What the directory loop has done.  When it comes to its end, every entry was read and
    the listed files of expired jobs are gone. -/
structure Swept (expired : List Nat) (entries : List (Except Error Path)) (v : Scene)
    (r : Except Error Unit) (v' : Scene) : Prop where
  meanwhile : Meanwhile v v'
  tidy : v.Tidy v'
  readable : r = .ok () → ∀ e, .error e ∉ entries
  gone : r = .ok () → ∀ id ext, .ok (.job id ext) ∈ entries → id ∈ expired → id < 2 ^ 64 →
    ext.Fits → v'.files (.job id ext) = false

/-- The parser knows every extension that the program uses. -/
theorem Ext.Fits.isJobExtension {ext : Ext} (h : ext.Fits) :
    isJobExtension ext.suffix.toList = true := by
  rw [isJobExtension_suffix]
  cases ext with
  | tmp pid => exact decide_eq_true h
  | json | log | lock | result | cancel => rfl

section Sweep

variable {expired : List Nat} {entry : Except Error Path} {rest : List (Except Error Path)}
  {r : Except Error Unit} {e : Error} {path : Path}

theorem Swept.failed (hm : Meanwhile v v') (ht : v.Tidy v') :
    Swept expired (entry :: rest) v (.error e) v' :=
  ⟨hm, ht, by rintro ⟨⟩, by rintro ⟨⟩⟩

/-- One more entry before the others, which were swept from `v₁` on. -/
theorem Swept.cons {v₁ : Scene} (hm : Meanwhile v v₁) (ht : v.Tidy v₁)
    (hgone : ∀ id ext, path = .job id ext → id ∈ expired → id < 2 ^ 64 → ext.Fits →
      v₁.Dormant id ∧ v₁.files path = false) (h : Swept expired rest v₁ r v') :
    Swept expired (.ok path :: rest) v r v' where
  meanwhile := hm.trans h.meanwhile
  tidy := ht.trans hm h.tidy
  readable hr e hmem := by
    rcases List.mem_cons.mp hmem with heq | hmem
    · cases heq
    · exact h.readable hr e hmem
  gone hr id ext hmem hid hlt hfits := by
    rcases List.mem_cons.mp hmem with heq | hmem
    · cases heq
      -- the entry itself: its file was gone before the others were looked at
      obtain ⟨hdormant, habsent⟩ := hgone id ext rfl hid hlt hfits
      exact h.tidy id hdormant ext habsent
    · exact h.gone hr id ext hmem hid hlt hfits

/-- After a whole sweep of everything there is, expired jobs have no files. -/
theorem Swept.forgotten {entries : List (Except Error Path)}
    (h : Swept expired entries v (.ok ()) v') (hexpired : ∀ id ∈ expired, v.Dormant id)
    (hlt : ∀ id ∈ expired, id < 2 ^ 64)
    (hlisted : (∀ e, .error e ∉ entries) → ∀ id ext, v.files (.job id ext) = true →
      .ok (.job id ext) ∈ entries ∧ ext.Fits) : ∀ id ∈ expired, v'.Gone id := by
  intro id hid
  refine ⟨(hexpired id hid).congr h.meanwhile.disk, fun ext => ?_⟩
  cases hfile : v.files (.job id ext) with
  | false => exact h.tidy id (hexpired id hid) ext hfile
  | true =>
      obtain ⟨hmem, hfits⟩ := hlisted (h.readable rfl) id ext hfile
      exact h.gone rfl id ext hmem hid (hlt id hid) hfits

/-- A name that the parser does not take for a file of an expired job is none. -/
theorem parse_expired {id : Nat} {ext : Ext} (hid : id ∈ expired) (hlt : id < 2 ^ 64)
    (hfits : ext.Fits) :
    ∃ id' isJobFile, parseJobFile (Path.job id ext).fileName.toList = some (id', isJobFile) ∧
      (expired.contains id' && isJobFile) = true := by
  refine ⟨id, true, ?_, ?_⟩
  · rw [parseJobFile_fileName, if_pos hlt, hfits.isJobExtension]
  · rw [Bool.and_true]
    exact List.contains_iff_mem.mpr hid

end Sweep

/-- The directory loop only deletes files of jobs that do not run, and all the files of
    expired jobs among its entries. -/
theorem removeArtifacts_wp (expired : List Nat) (entries : List (Except Error Path))
    (hr : Reach L₀ ⟨some s.store, v⟩) (hexpired : ∀ id ∈ expired, v.Dormant id)
    (hjobs : ∀ path, .ok path ∈ entries → path.inJobs = true) :
    wp (contract L₀) (removeArtifacts expired entries) (fun s' r v' =>
      s'.store = s.store ∧ Reach L₀ ⟨some s.store, v'⟩ ∧ Swept expired entries v r v') s v := by
  -- Every round leaves the disk as it was, so `hexpired` carries the loop.
  induction entries generalizing v with
  | nil =>
      refine ⟨rfl, hr, Meanwhile.refl v, Scene.Tidy.refl v, ?_, ?_⟩
      · rintro _ _ ⟨⟩
      · rintro _ _ _ ⟨⟩
  | cons entry rest ih =>
      have hjobs' : ∀ path, .ok path ∈ rest → path.inJobs = true := fun path hpath =>
        hjobs path (List.mem_cons_of_mem _ hpath)
      have hrest := ih hr hexpired hjobs'
      rw [removeArtifacts, wp_bind, wp_lift]
      cases entry with
      | error e => exact ⟨rfl, hr, Swept.failed (Meanwhile.refl v) (Scene.Tidy.refl v)⟩
      | ok path =>
          -- A skipped entry is not the name of a file of an expired job.
          have hskip : (∀ id ext, path = .job id ext → id ∈ expired → id < 2 ^ 64 → ext.Fits →
              False) → wp (contract L₀) (removeArtifacts expired rest) (fun s' r v' =>
                s'.store = s.store ∧ Reach L₀ ⟨some s.store, v'⟩ ∧
                  Swept expired (.ok path :: rest) v r v') s v := by
            intro hnot
            refine wp_mono hrest ?_
            rintro s' r v' ⟨hstore, hr', hswept⟩
            refine ⟨hstore, hr', hswept.cons (Meanwhile.refl v) (Scene.Tidy.refl v) ?_⟩
            intro id ext hp hid hlt hfits
            exact (hnot id ext hp hid hlt hfits).elim
          rw [andThen_ok]
          split
          · rename_i hparse
            apply hskip
            rintro id ext rfl hid hlt hfits
            obtain ⟨_, _, hparsed, _⟩ := parse_expired hid hlt hfits
            rw [hparse] at hparsed
            cases hparsed
          · rename_i id isJobFile hparse
            split
            · rename_i hmatch
              rw [Bool.and_eq_true, List.contains_iff_mem] at hmatch
              -- The name of the file is the id of an expired job.
              have hremovable : v.Removable path := by
                have hin := hjobs path List.mem_cons_self
                cases path with
                | job id' ext =>
                    have heq := eq_of_parseJobFile_fileName hparse
                    exact hexpired id' (heq ▸ hmatch.1)
                | other => trivial
                | state => cases hin
                | stateTmp => cases hin
              rw [wp_bind, wp_call]
              refine ⟨⟨hr, hremovable⟩, ?_⟩
              rintro reply v₁ ⟨hr₁, hm, ht, hremoved⟩
              have hexpired₁ : ∀ id ∈ expired, v₁.Dormant id := fun id hid =>
                (hexpired id hid).congr hm.disk
              have hgo : v₁.files path = false → wp (contract L₀) (removeArtifacts expired rest)
                  (fun s' r v' => s'.store = s.store ∧ Reach L₀ ⟨some s.store, v'⟩ ∧
                    Swept expired (.ok path :: rest) v r v') s v₁ := by
                intro habsent
                refine wp_mono (ih hr₁ hexpired₁ hjobs') ?_
                rintro s' r v' ⟨hstore, hr', hswept⟩
                refine ⟨hstore, hr', hswept.cons hm ht ?_⟩
                intro id ext hp hid _ _
                exact ⟨hexpired₁ id hid, habsent⟩
              rw [andThen_ok]
              split
              · exact hgo (hremoved (by rintro _ ⟨⟩))
              · exact hgo (hremoved (by rintro _ ⟨⟩))
              · exact ⟨rfl, hr₁, Swept.failed hm ht⟩
            · rename_i hmatch
              apply hskip
              rintro id' ext rfl hid hlt hfits
              obtain ⟨_, _, hparsed, hboth⟩ := parse_expired hid hlt hfits
              rw [hparse] at hparsed
              cases hparsed
              exact hmatch hboth

/-- Forgetting jobs that do not run leaves the store idle. -/
theorem Idle.retained (hi : Idle m v) (hinv : Inv ⟨some m, v⟩) {timestamp : Nat}
    (hhist : v'.hist = v.hist) (hdisk : v'.disk = m.retain (m.expired timestamp)) :
    Idle (m.retain (m.expired timestamp)) v' where
  toSynced := Synced.of_eq ((hinv.memOrdered m rfl).retain _) hdisk
  closed := hhist ▸ hi.closed
  settled job hj hrun := by
    rw [hhist]
    exact hi.settled job (Store.mem_retain.mp hj).1 hrun
  staying := hhist ▸ hi.staying

/-- A failed save of `cleanup` may have written the shorter store. -/
theorem Idle.unretained (hi : Idle m v) (hinv : Inv ⟨some m, v⟩) {timestamp : Nat}
    (hhist : v'.hist = v.hist)
    (hdisk : v'.disk = m.retain (m.expired timestamp) ∨ v'.disk = v.disk) : Idle m v' := by
  rcases hdisk with hdisk | hdisk
  · refine ⟨⟨?_, ?_, ?_⟩, hhist ▸ hi.closed, hhist ▸ hi.settled, hhist ▸ hi.staying⟩
    · intro job hj hrun
      rw [hdisk] at hj
      exact (Store.mem_retain.mp hj).1
    · intro job hj hrun
      rw [hdisk]
      exact Store.mem_retain_expired (hinv.memOrdered m rfl) hj hrun timestamp
    · intro job hj
      rw [hdisk]
      exact (hinv.memOrdered m rfl).bounded job hj
  · exact hi.congr hdisk hhist

/-- `cleanup` forgets expired jobs on disk, then in memory. -/
theorem cleanup_wp {disk : Store} {live : List Nat} {rest : Hist} (timestamp : Nat)
    (hr : Reach L₀ ⟨some s.store, v⟩) (hi : Idle s.store v)
    (head : v.hist = ⟨.cleaning timestamp s.store, disk, live⟩ :: rest) :
    wp (contract L₀) (cleanup timestamp) (fun s' _ v' =>
      Reach L₀ ⟨some s'.store, v'⟩ ∧ Idle s'.store v') s v := by
  rw [cleanup, wp_bind, wp_get, andThen_ok]
  dsimp only
  split
  · exact ⟨hr, hi⟩
  · rw [wp_bind, wp_call]
    refine ⟨⟨hr, trivial⟩, ?_⟩
    rintro reply v₁ ⟨hr₁, hm₁, hentries⟩
    rw [andThen_ok, wp_bind, wp_lift]
    rcases reply with e | entries
    -- `jobs/` cannot be listed: nothing has been removed.
    · exact ⟨hr₁, hi.congr hm₁.disk hm₁.hist⟩
    · have hi₁ : Idle s.store v₁ := hi.congr hm₁.disk hm₁.hist
      -- What runs on disk runs in memory, and running jobs do not expire.
      have hexpired : ∀ id ∈ s.store.expired timestamp, v₁.Dormant id := by
        rintro id hid job hj hrun rfl
        exact Store.notMem_expired (hr₁.inv.memOrdered _ rfl) (hi₁.mem job hj hrun) hrun timestamp
          hid
      have hlt : ∀ id ∈ s.store.expired timestamp, id < 2 ^ 64 := by
        intro id hid
        obtain ⟨job, hj, rfl⟩ := List.mem_map.mp hid
        exact hr₁.inv.bounded job (Or.inr ⟨s.store, rfl, List.mem_of_mem_filter hj⟩)
      obtain ⟨hjobs, hlisted⟩ := hentries entries rfl
      rw [andThen_ok]
      refine wp_bind_of (removeArtifacts_wp _ entries hr₁ hexpired hjobs) ?_ ?_
      -- All artifacts are gone; first the disk forgets the jobs, then memory does.
      · rintro s₂ ⟨⟩ v₂ ⟨hstore, hr₂, hswept⟩
        have hm₂ := hswept.meanwhile
        have hi₂ : Idle s.store v₂ := hi₁.congr hm₂.disk hm₂.hist
        have head₂ := (hm₂.hist.trans hm₁.hist).trans head
        rw [wp_bind, wp_call]
        refine ⟨⟨hstore ▸ hr₂, Or.inr ⟨timestamp, disk, live, rest, ?_, ?_, ?_⟩⟩, ?_⟩
        · rw [hstore]
          exact head₂
        · rw [hstore]
        · rw [hstore]
          exact hswept.forgotten hexpired hlt hlisted
        · rintro r v₃ ⟨hr₃, hhist, hlive, hdisk, hok⟩
          rw [hstore] at hr₃
          rw [andThen_ok, wp_bind, wp_lift]
          rcases r with e | ⟨⟨⟩⟩
          -- The save failed: memory still has the expired jobs, the disk may not.
          · refine ⟨?_, ?_⟩ <;> rw [hstore]
            · exact hr₃
            · exact hi₂.unretained hr₂.inv hhist hdisk
          · have hsaved := hok rfl
            rw [andThen_ok, wp_modify]
            exact ⟨hr₃.step (Step.retain s.store v₃ timestamp disk live rest
              (hhist.trans head₂) hsaved), hi₂.retained hr₂.inv hhist hsaved⟩
      · rintro s₂ e v₂ ⟨hstore, hr₂, hswept⟩
        refine ⟨?_, ?_⟩ <;> rw [hstore]
        · exact hr₂
        · exact hi₁.congr hswept.meanwhile.disk hswept.meanwhile.hist

end Xlurm
