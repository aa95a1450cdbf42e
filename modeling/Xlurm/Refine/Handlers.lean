/-
  Xlurm.Refine.Handlers

  Every call of the scheduler is carried out within its contract: the handlers
  of `daemon` implement `contract` over the machine.
-/

import Xlurm.Refine.Daemon
import Xlurm.Refine.Lock

namespace Xlurm

open Prog.Comp

variable {w w₁ w' : World} {L₀ : Ledger} {s : Scheduler} {e : ProcessExecutor}

/-- The daemon with process id `pid` between two calls of the scheduler. -/
structure Resting (pid : Nat) (w : World) : Prop where
  sound : w.Sound
  free : Free w
  pid : w.pid = pid

theorem Resting.ready {pid : Nat} {m : Store} (h : Resting pid w) (hr : Reach L₀ ⟨some m, w.view⟩) :
    Ready L₀ m (fun _ => False) w := ⟨h.sound, hr, h.free⟩

theorem Ready.resting {pid : Nat} {m : Store} (h : Ready L₀ m (fun _ => False) w)
    (hpid : w.pid = pid) : Resting pid w := ⟨h.sound, h.held, hpid⟩

/-! ## Calls that are one system call -/

theorem direct_safe {c : Sys} {Q : ProcessExecutor → c.Reply → World → Prop} {P : Path → Prop}
    (hc : c.Allowed w.pid s.store w.hist) (h : Ready L₀ s.store P w)
    (hQ : ∀ w₁ raw r w', Ready L₀ s.store P w₁ → Beside w w₁ →
      c.exec .daemon w₁ raw = some (r, w') → Q e r w') :
    (direct c e).Safe (handlerSpec L₀ s) Q w := by
  refine ⟨⟨h.sound, h.reach, hc⟩, ?_⟩
  rintro r w' ⟨w₁, raw, hi, hexec⟩
  obtain ⟨h₁, hr₁, hb⟩ := interference_sound hi h.sound h.reach
  exact hQ w₁ raw r w' (h.aside h₁ hr₁ hb.aside) hb hexec

/-- A call that changes nothing by itself. -/
theorem direct_idle {c : Sys} {pid : Nat} {P : c.Reply → Prop} (hc : c.idle = true)
    (h : Resting pid w) (hr : Reach L₀ ⟨some s.store, w.view⟩)
    (hP : ∀ w₁ raw r, c.exec .daemon w₁ raw = some (r, w₁) → P r) :
    (direct c e).Safe (handlerSpec L₀ s) (fun _ r w' => Resting pid w' ∧
      Reach L₀ ⟨some s.store, w'.view⟩ ∧ Meanwhile w.view w'.view ∧ P r) w := by
  refine direct_safe (Sys.idle_allowed hc _ _ _) (h.ready hr) ?_
  intro w₁ raw r w' h₁ hb hexec
  obtain rfl := exec_idle hc hexec
  exact ⟨h₁.resting (hb.pid.trans h.pid), h₁.reach, hb.meanwhile, hP w' raw r hexec⟩

theorem lists_inJobs {entries : List (Except Error Path)} (h : w.lists entries = true)
    {path : Path} (hp : .ok path ∈ entries) : path.inJobs = true := by
  rw [World.lists, Bool.and_eq_true, List.all_eq_true] at h
  have hentry := h.1 _ hp
  rw [Bool.and_eq_true] at hentry
  exact hentry.1

/-- A listing that could be read to its end has every file of a job. -/
theorem lists_complete {entries : List (Except Error Path)} (h : w.lists entries = true)
    (hread : ∀ e, .error e ∉ entries) {id : Nat} {ext : Ext} {f : File}
    (hf : w.file (.job id ext) = some f) (hknown : .job id ext ∈ w.known) :
    .ok (.job id ext) ∈ entries := by
  rw [World.lists, Bool.and_eq_true, Bool.or_eq_true] at h
  rcases h.2 with herror | hall
  · obtain ⟨entry, hentry, hbad⟩ := List.any_eq_true.mp herror
    cases entry with
    | error e => exact absurd hentry (hread e)
    | ok path => cases hbad
  · have hpath := List.all_eq_true.mp hall _ hknown
    rw [hf, Bool.or_eq_true] at hpath
    rcases hpath with hnone | hany
    · cases hnone
    · obtain ⟨entry, hentry, hsame⟩ := List.any_eq_true.mp hany
      cases entry with
      | error e => cases hsame
      | ok path =>
          obtain rfl : path = .job id ext := by simpa using hsame
          exact hentry

/-- A listing is as the contract of `readDir` says. -/
theorem readDir_effect {r : Sys.Reply .readDir} {raw : Sys.Raw .readDir} (hfiles : Files w₁)
    (hm : Meanwhile w.view w₁.view) (hexec : Sys.exec .daemon w₁ .readDir raw = some (r, w₁)) :
    Effect .readDir w.scene r w₁.scene := by
  refine ⟨hm, ?_⟩
  rintro entries rfl
  have hlists : w₁.lists entries = true := exec_readDir hexec
  refine ⟨fun path hpath => lists_inJobs hlists hpath, fun hread id ext hfile => ?_⟩
  obtain ⟨f, hf⟩ := Option.isSome_iff_exists.mp hfile
  exact ⟨lists_complete hlists hread hf (hfiles.known _ f hf), (hfiles.artifacts id ext f hf).2⟩

theorem World.notRuns {id : Nat} (h : w.view.Dormant id) : ¬ w.Runs id := by
  rintro ⟨job, hj, hid, hrun⟩
  exact h job hj hrun hid

theorem World.scene_absent {path : Path} (h : w.scene.files path = false) : w.file path = none := by
  have hnone : (w.file path).isSome = false := h
  simpa using hnone

theorem Beside.tidy (h : Beside w w') : w.scene.Tidy w'.scene := by
  intro id hid ext hnone
  have hruns : ¬ w.Runs id := World.notRuns hid
  have habsent : w.file (.job id ext) = none := World.scene_absent hnone
  show (w'.file (.job id ext)).isSome = false
  rw [h.absent id ext hruns habsent]
  rfl

/-- `cleanup` removes no file that a live worker needs. -/
theorem Ready.unlink {m : Store} {entry : Path} (h : Ready L₀ m (fun _ => False) w)
    (hremovable : w.view.Removable entry) :
    Ready L₀ m (fun _ => False) (w.setFile entry none) := by
  have hstate : entry ≠ .state := by
    rintro rfl
    exact hremovable
  -- A live worker's job runs on disk, so none of its files is removable.
  have hdead : ∀ wk ∈ w.workers, ∀ ext, entry ≠ .job wk.job.id ext := by
    rintro wk hwk ext rfl
    obtain ⟨hrun, hdisk, _⟩ := h.reach.inv.live wk.job (List.mem_map_of_mem hwk)
    exact hremovable wk.job hdisk hrun rfl
  have hview := World.view_setFile w entry none hstate
  have hreach := h.reach
  rw [← hview] at hreach
  refine ⟨⟨?_, ?_⟩, hreach, h.held.setFile (by rintro _ ⟨⟩)⟩
  · refine h.sound.files.setFile entry none (fun heq => absurd heq hstate) ?_ (by rintro _ _ ⟨⟩)
      (by rintro _ _ ⟨⟩) ?_ (by rintro _ ⟨⟩)
    · intro wk hwk heq
      exact absurd heq (hdead wk hwk _)
    · rintro id rfl
      exact ⟨(by rintro _ ⟨⟩), fun _ => hremovable⟩
  · exact h.sound.workers.setFile fun wk hwk => hdead wk hwk _

/-- One file less. -/
theorem World.tidy_unlink (w : World) (entry : Path) : w.scene.Tidy (w.setFile entry none).scene := by
  intro id _ ext hnone
  by_cases hp : Path.job id ext = entry
  · show ((w.setFile entry none).file (.job id ext)).isSome = false
    rw [hp, World.setFile_same]
    rfl
  · show ((w.setFile entry none).file (.job id ext)).isSome = false
    rw [World.setFile_of_ne _ _ _ hp]
    exact hnone

theorem unlink_safe {pid : Nat} {entry : Path} (h : Resting pid w)
    (hr : Reach L₀ ⟨some s.store, w.view⟩) (hremovable : w.view.Removable entry) :
    (direct (.unlink entry) e).Safe (handlerSpec L₀ s) (fun _ r w' => Resting pid w' ∧
      Reach L₀ ⟨some s.store, w'.view⟩ ∧ Effect (.removeFile entry) w.scene r w'.scene) w := by
  refine direct_safe trivial (h.ready hr) ?_
  intro w₁ raw r w' h₁ hb hexec
  have hpid : w₁.pid = pid := hb.pid.trans h.pid
  have hremovable₁ : w₁.view.Removable entry := by
    cases entry with
    | job id ext => exact View.Dormant.congr hremovable hb.disk
    | other => trivial
    | state | stateTmp => exact hremovable
  cases raw with
  | some err =>
      cases hexec
      exact ⟨h₁.resting hpid, h₁.reach, hb.meanwhile, hb.tidy, fun hne => absurd rfl (hne err)⟩
  | none =>
      cases hf : w₁.file entry with
      | none =>
          simp only [Sys.exec, hf] at hexec
          cases hexec
          refine ⟨h₁.resting hpid, h₁.reach, hb.meanwhile, hb.tidy, fun _ => ?_⟩
          show (w₁.file entry).isSome = false
          rw [hf]
          rfl
      | some f =>
          simp only [Sys.exec, hf] at hexec
          cases hexec
          have h₂ := h₁.unlink hremovable₁
          have hstate : entry ≠ .state := by
            rintro rfl
            exact hremovable
          have hview := World.view_setFile w₁ entry none hstate
          refine ⟨h₂.resting hpid, h₂.reach, ?_, hb.tidy.trans hb.meanwhile (w₁.tidy_unlink entry),
            fun _ => ?_⟩
          · rw [World.scene_toView, World.scene_toView, hview]
            exact hb.meanwhile
          · show ((w₁.setFile entry none).file entry).isSome = false
            rw [World.setFile_same]
            rfl

/-! ## Ghost events -/

theorem Ready.log {m : Store} {P : Path → Prop} (h : Ready L₀ m P w) {event : Event}
    (legit : Legit w.view m event) : Ready L₀ m P (w.log event) where
  sound := h.sound.log event
  reach := by
    rw [World.view_log]
    exact h.reach.step (Step.log m w.view event legit)
  held := h.held

theorem note_safe {pid : Nat} {event : Event} (h : Resting pid w)
    (hr : Reach L₀ ⟨some s.store, w.view⟩) (hloop : event.ofLoop = true)
    (legit : Legit w.view s.store event) :
    (direct (.note event) e).Safe (handlerSpec L₀ s) (fun _ r w' => Resting pid w' ∧
      Reach L₀ ⟨some s.store, w'.view⟩ ∧ Effect (.note event) w.scene r w'.scene) w := by
  refine direct_safe trivial (h.ready hr) ?_
  intro w₁ raw r w' h₁ hb hexec
  cases hexec
  have h₂ := h₁.log (legit.stable hloop hb.meanwhile)
  refine ⟨h₂.resting (hb.pid.trans h.pid), h₂.reach, hb.disk, w₁.live.map (·.id), ?_, ?_⟩
  · show (⟨event, w₁.disk, w₁.live.map (·.id)⟩ :: w₁.hist : Hist) = _
    rw [hb.disk, hb.hist]
    rfl
  · intro job hj
    exact List.mem_map_of_mem hj

/-! ## `start`, `poll`, `cancel` and `save` -/

theorem startHandler_wp {pid : Nat} {job : Job} (h : Resting pid w)
    (hr : Reach L₀ ⟨some s.store, w.view⟩) (hguard : Guard (.start job) s w.scene) :
    wp (handlerSpec L₀ s) (startHandler pid job) (fun _ r w' => Resting pid w' ∧
      Reach L₀ ⟨some s.store, w'.view⟩ ∧ Effect (.start job) w.scene r w'.scene) e w := by
  obtain ⟨hrun, hmem, hdisk, hopening, hsettled, hticking⟩ := hguard
  rw [startHandler, wp_bind]
  refine wp_sys trivial h.sound hr ?_
  intro w₁ raw r w' hs₁ hr₁ hb₁ hexec
  cases hexec
  have h₁ : Ready L₀ s.store (fun _ => False) w₁ := (h.ready hr).aside hs₁ hr₁ hb₁.aside
  have hpid : w₁.pid = pid := hb₁.pid.trans h.pid
  -- The workers moved before the call, but they changed neither disk nor history.
  have legit : Legit w₁.view s.store (.started job) := by
    refine Legit.started job hrun hmem ?_ ?_ ?_ ?_
    · rw [World.view_disk, hb₁.disk]
      exact hdisk
    · rw [World.view_hist, hb₁.hist]
      exact hopening
    · rw [World.view_hist, hb₁.hist]
      exact hsettled
    · rw [World.view_hist, hb₁.hist]
      exact hticking
  have h₂ := h₁.log legit
  have hunstarted : job.id ∉ w.hist.started := fun hid => hsettled (Hist.started_settled hid)
  -- Nothing of what a worker needs is undone by the entry for the start itself.
  have hstartable : Startable job s.store (w₁.log (.started job)).view := by
    rw [World.view_log]
    refine ⟨hrun, hmem, ?_, ?_, ?_, ?_, ?_, ?_⟩
    · rw [View.log_disk, World.view_disk, hb₁.disk]
      exact hdisk
    · exact (View.mem_ids_log _ _).mpr (Or.inl rfl)
    · intro hid
      rcases (View.mem_ids_log _ _).mp hid with hnow | hid
      · cases hnow
      · rw [World.view_hist, hb₁.hist] at hid
        exact hunstarted (hr.inv.spawned_started _ hid)
    · intro hid
      rcases (View.mem_ids_log _ _).mp hid with hnow | hid
      · cases hnow
      · rw [World.view_hist, hb₁.hist] at hid
        obtain ⟨entry, hentry, outcome, hpolled⟩ := Hist.mem_finished.mp hid
        exact hsettled (List.mem_filterMap.mpr ⟨entry, hentry, by rw [hpolled]; rfl⟩)
    · have hsame : (w₁.view.log (.started job)).hist.opening = w.hist.opening := by
        rw [← hb₁.hist]
        exact Hist.opening_executor rfl
      exact hopening.congr hsame
    · have hsame : (w₁.view.log (.started job)).hist.tickOpen = w.hist.tickOpen := by
        rw [← hb₁.hist]
        exact Hist.tickOpen_executor rfl
      exact hsame.trans hticking
  rw [andThen_ok, show pid = (w₁.log (.started job)).pid from hpid.symm]
  refine wp_mono (start_wp h₂ hstartable) ?_
  rintro e₃ r w₃ ⟨h₃, hsp⟩
  refine ⟨h₃.resting hsp.pid, h₃.reach, ?_⟩
  have hdisk₃ : w₃.disk = w.disk := hsp.disk.trans hb₁.disk
  refine ⟨hdisk₃, ⟨.started job, w₁.disk, w₁.live.map (·.id)⟩, rfl, ?_⟩
  have hhist : (w₁.log (.started job)).hist =
      ⟨.started job, w₁.disk, w₁.live.map (·.id)⟩ :: w.hist := by
    rw [← hb₁.hist]
    rfl
  rcases r with err | ⟨⟨⟩⟩
  · exact (hsp.error err rfl).trans hhist
  · obtain ⟨entry, hentry, hspawned⟩ := hsp.ok rfl
    exact ⟨entry, hentry, hspawned.trans (congrArg (entry :: ·) hhist)⟩

theorem pollHandler_wp {pid id : Nat} (h : Resting pid w)
    (hr : Reach L₀ ⟨some s.store, w.view⟩) (hguard : Guard (.poll id) s w.scene) :
    wp (handlerSpec L₀ s) (pollHandler id) (fun _ r w' => Resting pid w' ∧
      Reach L₀ ⟨some s.store, w'.view⟩ ∧ Effect (.poll id) w.scene r w'.scene) e w := by
  obtain ⟨⟨job, hmem, hid, hrun, hdisk⟩, hopening⟩ := hguard
  rw [pollHandler, wp_bind]
  have hruns : w.Runs id := ⟨job, hdisk, hid, hrun⟩
  refine wp_mono (poll_wp (h.ready hr) hruns) ?_
  intro e₁ r₁ w₁ hp
  have ho := hp.onward
  have hpid : w₁.pid = pid := ho.pid.trans h.pid
  rcases r₁ with err | outcome
  · exact ⟨hp.ready.resting hpid, hp.ready.reach, ho.disk, ho.live.subset, ho.hist⟩
  rw [andThen_ok, wp_bind]
  refine wp_sys trivial hp.ready.sound hp.ready.reach ?_
  intro w₂ raw r w' hs₂ hr₂ hb₂ hexec
  cases hexec
  have h₂ := hp.ready.aside hs₂ hr₂ hb₂.aside
  have ho₂ : Onward w w₂ := ho.trans hb₂.aside.toOnward
  have hdisk₂ : job ∈ w₂.view.disk.jobs := by
    rw [World.view_disk, ho₂.disk]
    exact hdisk
  -- The lock was busy: the worker was alive, so it was alive at the opening.
  have hwaiting : outcome = none → w.view.hist.LiveAtOpening id := by
    rintro rfl
    obtain ⟨job', hlive, rfl⟩ := hp.waiting rfl
    exact hopening job' hlive
  have legit : Legit w₂.view s.store (.polled id outcome) := by
    refine Legit.polled id outcome ⟨job, hmem, hid, hrun, hdisk₂⟩ ?_ ?_
    · intro hnone
      rw [World.view_hist, ho₂.hist]
      exact hwaiting hnone
    · rintro o rfl
      have hfound := (hp.found o rfl).onward hb₂.aside.toOnward
      exact ⟨hfound.alone, hfound.reports hs₂ hr₂ ⟨job, hdisk₂, hid, hrun⟩⟩
  have h₃ := h₂.log legit
  rw [andThen_ok, wp_pure]
  refine ⟨h₃.resting (ho₂.pid.trans h.pid), h₃.reach, ho₂.disk, ho₂.live.subset, hwaiting,
    ⟨.polled id outcome, w₂.disk, w₂.live.map (·.id)⟩, rfl, ?_⟩
  show (⟨.polled id outcome, w₂.disk, w₂.live.map (·.id)⟩ :: w₂.hist : Hist) = _
  rw [ho₂.hist]
  rfl

/-- What `save` may write: the store in memory, or without expired jobs that have no files. -/
theorem save_guard {store : Store} (hguard : Guard (.save store) s w.scene) :
    Savable store s.store w.hist ∧ w.Forgets s.store store := by
  rcases hguard with rfl | ⟨timestamp, disk, live, rest, head, rfl, hgone⟩
  · exact ⟨Or.inl rfl, World.Forgets.refl w _⟩
  refine ⟨Or.inr ⟨timestamp, disk, live, rest, head, rfl⟩, ?_⟩
  rintro id ⟨job, hj, hid, hbegun⟩ hnot
  by_cases hexpired : job.id ∈ s.store.expired timestamp
  · obtain ⟨hdormant, hnone⟩ := hgone job.id hexpired
    rw [← hid]
    exact ⟨World.notRuns hdormant, fun ext => World.scene_absent (hnone ext)⟩
  · exact absurd ⟨job, Store.mem_retain.mpr ⟨hj, hexpired⟩, hid, hbegun⟩ hnot

/-! ## All calls -/

/-- The handlers keep to the contract. -/
theorem handler_implements (L₀ : Ledger) (pid : Nat) :
    Prog.Safe.Implements (contract L₀) (osSpec L₀) World.scene (Resting pid) (handler pid) := by
  intro c s e w h hpre
  obtain ⟨hr, hguard⟩ := hpre
  cases c with
  | now | isDir | account | openLog | readLog =>
      refine Prog.Safe.mono (direct_idle (P := fun _ => True) rfl h hr fun _ _ _ _ => trivial) ?_
      rintro _ r w' ⟨h', hr', hm, _⟩
      exact ⟨h', hr', hm⟩
  | readDir =>
      refine direct_safe trivial (h.ready hr) ?_
      intro w₁ raw r w' h₁ hb hexec
      obtain rfl := exec_idle (c := .readDir) rfl hexec
      exact ⟨h₁.resting (hb.pid.trans h.pid), h₁.reach,
        readDir_effect h₁.sound.files hb.meanwhile hexec⟩
  | removeFile entry =>
      refine Prog.Safe.mono (unlink_safe h hr hguard) ?_
      rintro _ r w' ⟨h', hr', heffect⟩
      exact ⟨h', hr', heffect⟩
  | note event => exact note_safe h hr hguard.1 hguard.2
  | start job => exact startHandler_wp h hr hguard
  | poll id => exact pollHandler_wp h hr hguard
  -- `cancel` asks the worker by a marker file.
  | cancel id =>
      obtain rfl := h.pid
      obtain ⟨job, hmem, hid, hrun, hdisk, hmay⟩ := hguard
      have hruns : w.Runs id := ⟨job, hdisk, hid, hrun⟩
      have hreplace : w.hist.MayReplace s.store (.job id .cancel) := ⟨job, hmem, hid, hmay⟩
      refine writeJobFile_wp (Or.inr rfl) hreplace hruns h.sound hr ?_
      intro r w' h' hr' ha
      exact ⟨⟨h', ha.held _ h.free, ha.pid⟩, hr', ha.meanwhile⟩
  | save store =>
      obtain rfl := h.pid
      obtain ⟨hsavable, hforget⟩ := save_guard hguard
      refine Prog.Safe.mono (saveState_wp h.sound hr hsavable hforget h.free) ?_
      rintro _ r w' ⟨h', hr', hfree, hpid, heffect⟩
      exact ⟨⟨h', hfree, hpid⟩, hr', heffect⟩

end Xlurm
