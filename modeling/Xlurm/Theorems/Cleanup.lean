/-
  Xlurm.Theorems.Cleanup

  `cleanup` removes exactly the expired history, and can be retried.

  However a cleanup ends, it has only deleted files of expired jobs, so the next
  one finds what it needs in memory: the same jobs are expired, and their files
  are those that are left.  Only a cleanup that succeeds forgets jobs.
-/

import Xlurm.Refine.Spool
import Xlurm.Refine.Clean
import Xlurm.Theorems.LifeCycle

namespace Xlurm

open Prog.Comp
open Relation (ReflTransGen)

/-! ## Which jobs stay -/

/-- `timestamp - finished_at`, where a time in the future counts as 0. -/
def Job.age (job : Job) (timestamp : Nat) : Nat :=
  timestamp - (job.result.map (·.finishedAt)).getD 0

/-- The job is not over, or has been over for less than seven days. -/
def Job.Stays (job : Job) (timestamp : Nat) : Prop :=
  job.state.terminal = false ∨ job.age timestamp < 7 * 24 * 60 * 60

instance (job : Job) (timestamp : Nat) : Decidable (job.Stays timestamp) :=
  inferInstanceAs (Decidable (_ ∨ _))

/-- The store without the jobs that do not stay. -/
def Store.kept (m : Store) (timestamp : Nat) : Store :=
  ⟨m.nextId, m.jobs.filter (·.Stays timestamp)⟩

/-- Job `id` does not stay. -/
def Store.Removes (m : Store) (timestamp id : Nat) : Prop :=
  ∃ job ∈ m.jobs, job.id = id ∧ ¬ job.Stays timestamp

variable {m : Store} {timestamp : Nat}

theorem Job.WellFormed.expired_iff {job : Job} (h : job.WellFormed) :
    job.expired timestamp = true ↔ ¬ job.Stays timestamp := by
  cases hterm : job.state.terminal with
  | false => simp [Job.expired, Job.Stays, hterm]
  | true =>
      obtain ⟨outcome, hresult, _⟩ := h.terminal hterm
      have hage : job.age timestamp = timestamp - outcome.finishedAt := by
        rw [Job.age, hresult, Option.map_some, Option.getD_some]
      have hexpired : job.expired timestamp =
          decide (7 * 24 * 60 * 60 ≤ timestamp - outcome.finishedAt) := by
        rw [Job.expired, hterm, hresult, Bool.true_and]
        rfl
      rw [hexpired, decide_eq_true_iff, Job.Stays, hterm, hage, or_iff_right (by decide)]
      omega

theorem Store.Sound.mem_expired (h : m.Sound) {id : Nat} :
    id ∈ m.expired timestamp ↔ m.Removes timestamp id := by
  rw [Store.expired, List.mem_map]
  constructor
  · rintro ⟨job, hj, hid⟩
    obtain ⟨hj, hexpired⟩ := List.mem_filter.mp hj
    exact ⟨job, hj, hid, (h.wellFormed job hj).expired_iff.mp hexpired⟩
  · rintro ⟨job, hj, hid, hleaves⟩
    exact ⟨job, List.mem_filter.mpr ⟨hj, (h.wellFormed job hj).expired_iff.mpr hleaves⟩, hid⟩

/-- `cleanup` filters by id, which is the same since ids are unique. -/
theorem Store.Sound.retain_expired (h : m.Sound) :
    m.retain (m.expired timestamp) = m.kept timestamp := by
  show (⟨m.nextId, m.jobs.filter _⟩ : Store) = ⟨m.nextId, m.jobs.filter _⟩
  congr 1
  apply List.filter_congr
  intro job hj
  have hiff : job.id ∈ m.expired timestamp ↔ ¬ job.Stays timestamp := by
    rw [h.mem_expired]
    constructor
    · rintro ⟨other, hother, hid, hleaves⟩
      rw [← h.ordered.eq_of_id hother hj hid]
      exact hleaves
    · exact fun hleaves => ⟨job, hj, rfl, hleaves⟩
  by_cases hstays : job.Stays timestamp
  · simp [hstays, hiff]
  · simp [hstays, hiff]

/-! ## The directory -/

/-- A directory `jobs/` of files that the program names itself. -/
structure World.Spool (w : World) : Prop where
  listed : w.Listed
  named : ∀ path f, w.file path = some f → path.inJobs = true →
    ∃ id ext, path = .job id ext ∧ ext.Fits

variable {w w₁ w' : World} {s : Scheduler} {calm : Prop}

/-- What a sweep may do: delete files of expired jobs. -/
structure Sweeps (expired : List Nat) (w w' : World) : Prop where
  kept : ∀ path, path.inJobs = true → (∀ id ext, path = .job id ext → id ∉ expired) →
    w'.file path = w.file path
  less : ∀ path, path.inJobs = true → w'.file path = w.file path ∨ w'.file path = none
  listed : w.Listed → w'.Listed

namespace Sweeps

variable {expired : List Nat}

theorem refl (expired : List Nat) (w : World) : Sweeps expired w w :=
  ⟨fun _ _ _ => rfl, fun _ _ => Or.inl rfl, id⟩

theorem trans (h : Sweeps expired w w₁) (h' : Sweeps expired w₁ w') : Sweeps expired w w' where
  kept path hp hid := (h'.kept path hp hid).trans (h.kept path hp hid)
  less path hp := by
    rcases h'.less path hp with heq | hnone
    · rw [heq]
      exact h.less path hp
    · exact Or.inr hnone
  listed hl := h'.listed (h.listed hl)

/-- The file of an expired job. -/
theorem unlink {id : Nat} {ext : Ext} (hid : id ∈ expired) :
    Sweeps expired w (w.setFile (.job id ext) none) where
  kept path _ hother := by
    refine World.setFile_of_ne _ _ _ ?_
    rintro rfl
    exact hother id ext rfl hid
  less path _ := by
    by_cases hp : path = .job id ext
    · rw [hp]
      exact Or.inr (World.setFile_same _ _ _)
    · exact Or.inl (World.setFile_of_ne _ _ _ hp)
  listed hl := hl.setFile _ _

/-- A file that is gone stays gone. -/
theorem gone (h : Sweeps expired w w') {path : Path} (hp : path.inJobs = true)
    (hnone : w.file path = none) : w'.file path = none := by
  rcases h.less path hp with heq | hnone'
  · rw [heq]
    exact hnone
  · exact hnone'

theorem spool (h : Sweeps expired w w') (hw : w.Spool) : w'.Spool where
  listed := h.listed hw.listed
  named path f hf hp := by
    rcases h.less path hp with heq | hnone
    · rw [heq] at hf
      exact hw.named path f hf hp
    · rw [hnone] at hf
      cases hf

end Sweeps

/-- The sweep of the entries came to its end. -/
structure SweptOut (expired : List Nat) (entries : List (Except Error Path)) (w' : World) : Prop where
  readable : ∀ e, .error e ∉ entries
  gone : ∀ id ext, .ok (.job id ext) ∈ entries → id ∈ expired → w'.file (.job id ext) = none

theorem removeArtifacts_spool {expired : List Nat} (hlt : ∀ id ∈ expired, id < 2 ^ 64)
    (entries : List (Except Error Path))
    (hnamed : ∀ path, .ok path ∈ entries → ∃ id ext, path = .job id ext ∧ ext.Fits) :
    wp (spoolSpec calm) (removeArtifacts expired entries) (fun s' r w' =>
      s' = s ∧ w'.disk = w.disk ∧ Sweeps expired w w' ∧
        (r = .ok () → SweptOut expired entries w') ∧
        (calm → (∀ e, .error e ∉ entries) → r = .ok ())) s w := by
  induction entries generalizing w with
  | nil => exact ⟨rfl, rfl, Sweeps.refl _ _, fun _ => ⟨by simp, by simp⟩, fun _ _ => rfl⟩
  | cons entry rest ih =>
      have hrest := fun path hp => hnamed path (List.mem_cons_of_mem _ hp)
      rw [removeArtifacts, wp_bind, wp_lift]
      cases entry with
      | error e =>
          exact ⟨rfl, rfl, Sweeps.refl _ _, (by rintro ⟨⟩),
            fun _ hread => absurd List.mem_cons_self (hread e)⟩
      | ok path =>
          obtain ⟨id, ext, rfl, hfits⟩ := hnamed path List.mem_cons_self
          -- What is left to do after this entry, in the world `w₁`.
          have hgo : ∀ {w₁ : World}, Sweeps expired w w₁ → w₁.disk = w.disk →
              (id ∈ expired → w₁.file (.job id ext) = none) →
              wp (spoolSpec calm) (removeArtifacts expired rest) (fun s' r w' =>
                s' = s ∧ w'.disk = w.disk ∧ Sweeps expired w w' ∧
                  (r = .ok () → SweptOut expired (.ok (.job id ext) :: rest) w') ∧
                  (calm → (∀ e, .error e ∉ .ok (.job id ext) :: rest) → r = .ok ())) s w₁ := by
            intro w₁ hsweep hdisk hgone
            apply wp_mono (ih hrest)
            rintro s' r w' ⟨rfl, hdisk', hsweep', hout, hcalm⟩
            refine ⟨rfl, hdisk'.trans hdisk, hsweep.trans hsweep', fun hr => ⟨?_, ?_⟩,
              fun hc hread => hcalm hc fun e hmem => hread e (List.mem_cons_of_mem _ hmem)⟩
            · intro e hmem
              rcases List.mem_cons.mp hmem with heq | hmem
              · cases heq
              · exact (hout hr).readable e hmem
            · intro id' ext' hmem hid
              rcases List.mem_cons.mp hmem with heq | hmem
              · cases heq
                exact hsweep'.gone rfl (hgone hid)
              · exact (hout hr).gone id' ext' hmem hid
          rw [andThen_ok, parseJobFile_fileName, hfits.isJobExtension]
          by_cases hid : id ∈ expired
          · rw [if_pos (hlt id hid)]
            dsimp only
            rw [List.contains_iff_mem.mpr hid, Bool.and_true, if_pos rfl, wp_bind, wp_call]
            refine ⟨rfl, ?_⟩
            rintro r w₁ ⟨hw₁, hgone, hcalm⟩
            have hsweep : Sweeps expired w w₁ := by
              rcases hw₁ with rfl | rfl
              · exact Sweeps.refl _ _
              · exact Sweeps.unlink hid
            have hdisk : w₁.disk = w.disk := by
              rcases hw₁ with rfl | rfl
              · rfl
              · exact World.disk_setFile_of_ne w (.job id ext) none (by simp)
            rw [andThen_ok]
            cases r with
            | ok => exact hgo hsweep hdisk fun _ => hgone (by rintro _ ⟨⟩)
            | notFound => exact hgo hsweep hdisk fun _ => hgone (by rintro _ ⟨⟩)
            | error e =>
                exact ⟨rfl, hdisk, hsweep, (by rintro ⟨⟩), fun hc => absurd rfl (hcalm hc e)⟩
          · have hskip := hgo (Sweeps.refl expired w) rfl fun h => absurd h hid
            have hcontains : expired.contains id = false := by
              rw [Bool.eq_false_iff, ne_eq, List.contains_iff_mem]
              exact hid
            split
            · exact hskip
            · rename_i id' isJobFile hparse
              split at hparse
              · cases hparse
                rw [hcontains, Bool.false_and, if_neg (by decide)]
                exact hskip
              · cases hparse

/-! ## One cleanup -/

/-- A cleanup of `s` that began with the files `w` has come to its end. -/
structure CleanedUp (timestamp : Nat) (s : Scheduler) (w : World) (s' : Scheduler) (w' : World) :
    Prop where
  memory : s' = { s with store := s.store.kept timestamp }
  disk : w'.disk = s.store.kept timestamp
  gone : ∀ id ext, s.store.Removes timestamp id → w'.file (.job id ext) = none
  kept : ∀ path, path.inJobs = true →
    (∀ id ext, path = .job id ext → ¬ s.store.Removes timestamp id) → w'.file path = w.file path

/-- It has been interrupted, perhaps more than once. -/
structure Interrupted (timestamp : Nat) (s : Scheduler) (w : World) (s' : Scheduler) (w' : World) :
    Prop where
  memory : s' = s
  disk : w'.disk = s.store ∨ w'.disk = s.store.kept timestamp
  kept : ∀ path, path.inJobs = true →
    (∀ id ext, path = .job id ext → ¬ s.store.Removes timestamp id) → w'.file path = w.file path
  less : ∀ path, path.inJobs = true → w'.file path = w.file path ∨ w'.file path = none
  spool : w'.Spool

namespace Interrupted

theorem none (hdisk : w.disk = s.store) (hspool : w.Spool) :
    Interrupted timestamp s w s w :=
  ⟨rfl, Or.inl hdisk, fun _ _ _ => rfl, fun _ _ => Or.inl rfl, hspool⟩

/-- An interrupted sweep is one more interruption. -/
theorem sweep (hsound : s.store.Sound) (h : Interrupted timestamp s w s w₁)
    (hsweep : Sweeps (s.store.expired timestamp) w₁ w') (hdisk : w'.disk = w₁.disk) :
    Interrupted timestamp s w s w' where
  memory := rfl
  disk := by
    rw [hdisk]
    exact h.disk
  kept path hp hother := by
    have hid : ∀ id ext, path = .job id ext → id ∉ s.store.expired timestamp := by
      intro id ext heq hid
      exact hother id ext heq (hsound.mem_expired.mp hid)
    exact (hsweep.kept path hp hid).trans (h.kept path hp hother)
  less path hp := by
    rcases hsweep.less path hp with heq | hnone
    · rw [heq]
      exact h.less path hp
    · exact Or.inr hnone
  spool := hsweep.spool h.spool

/-- So is a `save` that fails. -/
theorem save (h : Interrupted timestamp s w s w₁)
    (hjobs : ∀ path, path.inJobs = true → w'.file path = w₁.file path) (hlisted : w'.Listed)
    (hdisk : w'.disk = s.store.kept timestamp ∨ w'.disk = w₁.disk) :
    Interrupted timestamp s w s w' where
  memory := rfl
  disk := by
    rcases hdisk with hnew | hold
    · exact Or.inr hnew
    · rw [hold]
      exact h.disk
  kept path hp hother := (hjobs path hp).trans (h.kept path hp hother)
  less path hp := by
    rw [hjobs path hp]
    exact h.less path hp
  spool := by
    refine ⟨hlisted, ?_⟩
    intro path f hf hp
    rw [hjobs path hp] at hf
    exact h.spool.named path f hf hp

end Interrupted

/-- A cleanup either completes what an interrupted one has left, or is interrupted itself. -/
theorem cleanup_spool (hsound : s.store.Sound) (hbounded : ∀ job ∈ s.store.jobs, job.id < 2 ^ 64)
    (h : Interrupted timestamp s w s w₁) :
    wp (spoolSpec calm) (cleanup timestamp) (fun s' r w' =>
      (r = .ok () → CleanedUp timestamp s w s' w') ∧
        (∀ e, r = .error e → Interrupted timestamp s w s' w') ∧ (calm → r = .ok ())) s w₁ := by
  have hmem : ∀ id, id ∈ s.store.expired timestamp ↔ s.store.Removes timestamp id :=
    fun _ => hsound.mem_expired
  have hlt : ∀ id ∈ s.store.expired timestamp, id < 2 ^ 64 := by
    intro id hid
    obtain ⟨job, hj, hjid, _⟩ := (hmem id).mp hid
    exact hjid ▸ hbounded job hj
  rw [cleanup, wp_bind, wp_get, andThen_ok]
  dsimp only
  split
  · rename_i hnone
    -- Nothing has expired, so there is nothing to forget.
    have hkept : s.store.kept timestamp = s.store := by
      rw [← hsound.retain_expired, hnone]
      simp [Store.retain]
    refine ⟨fun _ => ⟨by rw [hkept], ?_, ?_, h.kept⟩, (by rintro _ ⟨⟩), fun _ => rfl⟩
    · rw [hkept]
      rcases h.disk with hdisk | hdisk
      · exact hdisk
      · rw [hdisk, hkept]
    · intro id ext hremoves
      have hid := (hmem id).mpr hremoves
      rw [hnone] at hid
      cases hid
  · rw [wp_bind, wp_call]
    refine ⟨trivial, ?_⟩
    rintro r w₁ ⟨rfl, hlists, hcalm⟩
    rw [andThen_ok, wp_bind, wp_lift]
    rcases r with e | entries
    · exact ⟨(by rintro ⟨⟩), fun _ _ => h, fun hc => (by obtain ⟨_, ⟨⟩, _⟩ := hcalm hc)⟩
    have hlisted := hlists entries rfl
    have hnamed : ∀ path, .ok path ∈ entries → ∃ id ext, path = .job id ext ∧ ext.Fits := by
      intro path hp
      obtain ⟨f, hf⟩ := Option.isSome_iff_exists.mp (lists_exists hlisted hp)
      exact h.spool.named path f hf (lists_inJobs hlisted hp)
    have hread : calm → ∀ e, .error e ∉ entries := by
      intro hc
      obtain ⟨_, ⟨⟩, hread⟩ := hcalm hc
      exact hread
    rw [andThen_ok]
    apply wp_bind_of (removeArtifacts_spool hlt entries hnamed)
    · rintro s _ w₂ ⟨rfl, hdisk₂, hsweep, hout, _⟩
      have h₂ := h.sweep hsound hsweep hdisk₂
      have hswept := hout rfl
      rw [wp_bind, wp_call]
      refine ⟨trivial, ?_⟩
      rintro r₃ w₃ ⟨hjobs, hlisted₃, hdisk₃, hok₃, hcalm₃⟩
      rw [hsound.retain_expired] at hdisk₃ hok₃ ⊢
      have h₃ := h₂.save hjobs (hlisted₃ h₂.spool.listed) hdisk₃
      rw [andThen_ok, wp_bind, wp_lift]
      rcases r₃ with err | ⟨⟨⟩⟩
      · exact ⟨(by rintro ⟨⟩), fun _ _ => h₃, fun hc => (by cases hcalm₃ hc)⟩
      rw [andThen_ok, wp_modify]
      refine ⟨fun _ => ⟨rfl, hok₃ rfl, ?_, h₃.kept⟩, (by rintro _ ⟨⟩), fun _ => rfl⟩
      intro id ext hremoves
      rw [hjobs _ rfl]
      -- The listing had the file, unless it was gone before.
      cases hf : w₁.file (.job id ext) with
      | none => exact hsweep.gone rfl hf
      | some f =>
          have hmem₁ : .ok (.job id ext) ∈ entries := by
            apply lists_complete hlisted hswept.readable hf
            exact h.spool.listed _ f hf
          exact hswept.gone id ext hmem₁ ((hmem id).mpr hremoves)
    · rintro s err w₂ ⟨rfl, hdisk₂, hsweep, _, hcalm₂⟩
      refine ⟨(by rintro ⟨⟩), fun _ _ => h.sweep hsound hsweep hdisk₂, fun hc => ?_⟩
      exact hcalm₂ hc (hread hc)

/-! ## Cleanups in a row -/

/-- `cleanup` in the daemon `pid`, with nobody else moving. -/
def Cleans (calm : Prop) (pid timestamp : Nat) (s : Scheduler) (w : World) (r : Except Error Unit)
    (s' : Scheduler) (w' : World) : Prop :=
  ∃ e e', Prog.Ends (soloSpec calm) ((cleanup timestamp s).interp (handler pid) e) w (s', e') r w'

/-- One more cleanup that has returned an error. -/
def Fails (pid timestamp : Nat) (st st' : Scheduler × World) : Prop :=
  ∃ err, Cleans False pid timestamp st.1 st.2 (.error err) st'.1 st'.2

/-- Two states of the daemon and its files that differ in nothing a job could see. -/
structure SameSpool (s : Scheduler) (w : World) (s' : Scheduler) (w' : World) : Prop where
  memory : s' = s
  disk : w'.disk = w.disk
  jobs : ∀ path, path.inJobs = true → w'.file path = w.file path

/-- All runs of a cleanup that complete end in the same state. -/
theorem CleanedUp.same {s₁ s₂ : Scheduler} {w₂ : World} (h₁ : CleanedUp timestamp s w s₁ w₁)
    (h₂ : CleanedUp timestamp s w s₂ w₂) : SameSpool s₁ w₁ s₂ w₂ where
  memory := h₂.memory.trans h₁.memory.symm
  disk := h₂.disk.trans h₁.disk.symm
  jobs path hp := by
    by_cases hremoved : ∃ id ext, path = .job id ext ∧ s.store.Removes timestamp id
    · obtain ⟨id, ext, rfl, hremoves⟩ := hremoved
      rw [h₁.gone id ext hremoves, h₂.gone id ext hremoves]
    · have hother : ∀ id ext, path = .job id ext → ¬ s.store.Removes timestamp id :=
        fun id ext heq hremoves => hremoved ⟨id, ext, heq, hremoves⟩
      rw [h₁.kept path hp hother, h₂.kept path hp hother]

/-- `cleanup` is safe wherever the earlier ones have stopped. -/
theorem Interrupted.safe {s₁ : Scheduler} (calm : Prop) (pid : Nat) (hsound : s.store.Sound)
    (hbounded : ∀ job ∈ s.store.jobs, job.id < 2 ^ 64) (h : Interrupted timestamp s w s₁ w₁)
    (e : ProcessExecutor) :
    ((cleanup timestamp s₁).interp (handler pid) e).Safe (soloSpec calm) (fun st r w' =>
      w'.Listed ∧ (r = .ok () → CleanedUp timestamp s w st.1 w') ∧
        (∀ e, r = .error e → Interrupted timestamp s w st.1 w') ∧ (calm → r = .ok ())) w₁ := by
  have hs := h.memory
  subst hs
  exact Prog.Safe.interp (handler_spool calm pid) (cleanup_spool hsound hbounded h)
    h.spool.listed e

/-- Any number of failed cleanups. -/
theorem Fails.run {pid : Nat} {st : Scheduler × World} (hsound : s.store.Sound)
    (hbounded : ∀ job ∈ s.store.jobs, job.id < 2 ^ 64) (hdisk : w.disk = s.store)
    (hspool : w.Spool) (h : ReflTransGen (Fails pid timestamp) (s, w) st) :
    Interrupted timestamp s w st.1 st.2 := by
  induction h with
  | refl => exact Interrupted.none hdisk hspool
  | tail _ hfails ih =>
      obtain ⟨err, e, e', hends⟩ := hfails
      exact ((ih.safe False pid hsound hbounded e).ends hends).2.2.1 err rfl

/-- Cleanup removes exactly the expired history, at once or after any number of failures. -/
theorem cleanup_exact (pid timestamp : Nat) {s₁ : Scheduler}
    (hsound : s.store.Sound) (hbounded : ∀ job ∈ s.store.jobs, job.id < 2 ^ 64)
    (hdisk : w.disk = s.store) (hspool : w.Spool)
    (hfailed : ReflTransGen (Fails pid timestamp) (s, w) (s₁, w₁)) :
    (∃ s' w', Cleans True pid timestamp s₁ w₁ (.ok ()) s' w') ∧
    ∀ calm r s' w', Cleans calm pid timestamp s₁ w₁ r s' w' →
      (r = .ok () → CleanedUp timestamp s w s' w' ∧
        ∀ s₂ w₂, Cleans False pid timestamp s w (.ok ()) s₂ w₂ → SameSpool s₂ w₂ s' w') ∧
      (∀ err, r = .error err → Interrupted timestamp s w s' w') ∧
      (calm → r = .ok ()) := by
  have h := Fails.run hsound hbounded hdisk hspool hfailed
  constructor
  · have hsafe := h.safe True pid hsound hbounded .new
    obtain ⟨⟨s', e'⟩, r, w', hends⟩ := hsafe.can_end (soloSpec_answers True)
    obtain rfl := (hsafe.ends hends).2.2.2 trivial
    exact ⟨s', w', .new, e', hends⟩
  · rintro calm r s' w' ⟨e, e', hends⟩
    obtain ⟨_, hok, herr, hcalm⟩ := (h.safe calm pid hsound hbounded e).ends hends
    refine ⟨fun hr => ⟨hok hr, ?_⟩, herr, hcalm⟩
    rintro s₂ w₂ ⟨e₂, e₂', hends₂⟩
    -- The uninterrupted cleanup starts where no other has been.
    have h₀ : Interrupted timestamp s w s w := Interrupted.none hdisk hspool
    exact (((h₀.safe False pid hsound hbounded e₂).ends hends₂).2.1 rfl).same (hok hr)

/-- Job 1 was cancelled at time 0. -/
def onePast : Scheduler where
  store := ⟨2, [{ id := 1, owner := ⟨1000, 1000, "user"⟩, spec := .noop, state := .cancelled
                  devices := [], submittedAt := 0, startedAt := none
                  result := some (cancelledOutcome 0) }]⟩
  inventory := ⟨[], fun _ => none, fun _ => none⟩
  maxRunning := 1
  excludedDevices := ∅

/-- Its log is left. -/
def onePast.world : World :=
  (System.init.world.setFile .state (some ⟨.whole (.store onePast.store), []⟩)).setFile
    (.job 1 .log) (some ⟨.bytes [], []⟩)

theorem onePast.sound : onePast.store.Sound where
  ordered := by
    refine ⟨?_, ?_⟩ <;> decide
  wellFormed := by
    intro job hj
    obtain rfl := List.mem_singleton.mp hj
    exact ⟨by rintro ⟨⟩, by rintro ⟨⟩, fun _ => ⟨_, rfl, rfl, by decide⟩, by rintro _ ⟨⟩⟩

theorem onePast.spool : onePast.world.Spool where
  listed := by
    apply World.Listed.setFile
    apply World.Listed.setFile
    rintro _ _ ⟨⟩
  named path f hf hp := by
    by_cases hlog : path = .job 1 .log
    · exact ⟨1, .log, hlog, trivial⟩
    · rw [onePast.world, World.setFile_of_ne _ _ _ hlog, World.setFile_of_ne] at hf
      · cases hf
      · rintro rfl
        cases hp

/-- A week later it is forgotten. -/
theorem onePast_cleaned : ∃ s' w',
    Cleans True 7 (7 * 24 * 60 * 60) onePast onePast.world (.ok ()) s' w' ∧
    s'.store.jobs = [] ∧ w'.file (.job 1 .log) = none := by
  have hexact := cleanup_exact 7 (7 * 24 * 60 * 60) onePast.sound (by decide) rfl onePast.spool
    ReflTransGen.refl
  obtain ⟨⟨s', w', hcleans⟩, hall⟩ := hexact
  obtain ⟨hcleaned, _⟩ := (hall True (.ok ()) s' w' hcleans).1 rfl
  have hremoves : onePast.store.Removes (7 * 24 * 60 * 60) 1 :=
    ⟨_, List.mem_singleton_self _, rfl, by decide⟩
  refine ⟨s', w', hcleans, ?_, hcleaned.gone 1 .log hremoves⟩
  rw [hcleaned.memory]
  decide

end Xlurm
