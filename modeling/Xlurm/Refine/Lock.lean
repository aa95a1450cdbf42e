/-
  Xlurm.Refine.Lock

  `start` and `poll` under the lock of their job.

  A free lock shows that no worker for the job is left: then nothing but the
  daemon can change its result, and a worker started now is the only one.
-/

import Xlurm.Refine.Executor

namespace Xlurm

open Prog.Comp

variable {w w₁ w' w'' : World} {L₀ : Ledger} {s : Scheduler} {e : ProcessExecutor}

/-- Between two system calls of a handler; the daemon's locks are in `P`. -/
structure Ready (L₀ : Ledger) (m : Store) (P : Path → Prop) (w : World) : Prop where
  sound : w.Sound
  reach : Reach L₀ ⟨some m, w.view⟩
  held : HeldOnly P w

/-- Inside the lock of job `id`, whose worker is gone or not there yet. -/
structure Locked (L₀ : Ledger) (m : Store) (id : Nat) (w : World) : Prop
    extends Ready L₀ m (· = .job id .lock) w where
  holds : ∃ f, w.file (.job id .lock) = some f ∧ .daemon ∈ f.holders
  alone : ∀ job ∈ w.live, job.id ≠ id

theorem Ready.aside {m : Store} {P : Path → Prop} (h : Ready L₀ m P w) (h' : w'.Sound)
    (hr' : Reach L₀ ⟨some m, w'.view⟩) (ha : Aside w w') : Ready L₀ m P w' :=
  ⟨h', hr', ha.held P h.held⟩

theorem Locked.aside {m : Store} {id : Nat} (h : Locked L₀ m id w) (h' : w'.Sound)
    (hr' : Reach L₀ ⟨some m, w'.view⟩) (ha : Aside w w') : Locked L₀ m id w' where
  toReady := h.toReady.aside h' hr' ha
  holds := by
    obtain ⟨f, hf, hd⟩ := h.holds
    exact ha.holds id f hf hd
  alone job hj := h.alone job (ha.live.subset hj)

/-! ## Taking and releasing the lock -/

/-- A locked lock file belongs to a live worker of its job, or to the daemon. -/
theorem Files.lock_holder (h : Files w) (hfree : Free w) {id : Nat} {f : File}
    (hf : w.file (.job id .lock) = some f) (hheld : f.holders ≠ []) :
    ∃ job ∈ w.live, job.id = id := by
  obtain ⟨who, hwho⟩ := List.exists_mem_of_ne_nil _ hheld
  cases who with
  | daemon => exact absurd hwho (hfree _ f hf)
  | worker pid =>
      obtain ⟨wk, hwk, _, hpath⟩ := h.holders _ f pid hf hwho
      simp only [Path.job.injEq, and_true] at hpath
      exact ⟨wk.job, List.mem_map_of_mem hwk, hpath.symm⟩

/-- An unlocked lock file: no worker of the job is alive. -/
theorem Files.alone_of_unlocked (h : Files w) {id : Nat}
    (hf : ∀ f, w.file (.job id .lock) = some f → f.holders = []) :
    ∀ job ∈ w.live, job.id ≠ id := by
  rintro job hj rfl
  obtain ⟨wk, hwk, rfl⟩ := List.mem_map.mp hj
  obtain ⟨f, hlock, hmem⟩ := h.lock wk hwk
  rw [hf f hlock] at hmem
  cases hmem

/-- Writing a lock file that keeps the locks of live workers. -/
theorem World.Sound.setLock (h : w.Sound) {id : Nat} {f : File}
    (hkeep : ∀ wk ∈ w.workers, wk.job.id = id → .worker wk.pid ∈ f.holders)
    (hholders : ∀ pid, .worker pid ∈ f.holders →
      ∃ wk ∈ w.workers, wk.pid = pid ∧ wk.job.id = id)
    (hnew : w.MayCreate (.job id .lock)) : (w.setFile (.job id .lock) (some f)).Sound where
  files := by
    refine h.files.setFile (.job id .lock) _ (by rintro ⟨⟩) ?_ ?_ ?_ (by simp) fun _ _ => hnew
    · intro wk hwk heq
      simp only [Path.job.injEq, and_true] at heq
      exact ⟨f, rfl, hkeep wk hwk heq.symm⟩
    · intro _ _ _ _
      exact ⟨id, rfl⟩
    · rintro _ pid ⟨⟩ hpid
      obtain ⟨wk, hwk, hp, rfl⟩ := hholders pid hpid
      exact ⟨wk, hwk, hp, rfl⟩
  workers := h.workers.setFile (by simp)

/-- The daemon takes a lock that no one holds. -/
theorem Ready.lock {m : Store} {id : Nat} {data : Data} (h : Ready L₀ m (fun _ => False) w)
    (hruns : w.Runs id) (hf : ∀ f, w.file (.job id .lock) = some f → f.holders = []) :
    Locked L₀ m id (w.setFile (.job id .lock) (some ⟨data, [.daemon]⟩)) where
  sound := by
    have halone := h.sound.files.alone_of_unlocked hf
    refine h.sound.setLock ?_ ?_ (World.MayCreate.of_runs hruns trivial)
    · intro wk hwk hid
      exact absurd hid (halone wk.job (List.mem_map_of_mem hwk))
    · intro pid hpid
      simp at hpid
  reach := by
    rw [World.view_setFile _ _ _ (by simp)]
    exact h.reach
  held path f hp hd := by
    rcases World.setFile_cases hp with ⟨heq, _⟩ | ⟨_, hold⟩
    · exact heq
    · exact absurd hd (h.held path f hold)
  holds := ⟨_, World.setFile_same _ _ _, List.mem_singleton_self _⟩
  alone := h.sound.files.alone_of_unlocked hf

theorem tryLock_wp {id : Nat} {Q : ProcessExecutor → Except Error Bool → World → Prop}
    (h : Ready L₀ s.store (fun _ => False) w) (hruns : w.Runs id)
    (herror : ∀ err w', Ready L₀ s.store (fun _ => False) w' → Onward w w' →
      Q e (.error err) w')
    (hbusy : ∀ w', Ready L₀ s.store (fun _ => False) w' → Onward w w' →
      (∃ job ∈ w.live, job.id = id) → Q e (.ok false) w')
    (hlocked : ∀ w', Locked L₀ s.store id w' → Onward w w' → Q e (.ok true) w') :
    wp (handlerSpec L₀ s) (tryLock (.job id .lock)) Q e w := by
  rw [tryLock, wp_bind]
  refine wp_sys ⟨id, rfl⟩ h.sound h.reach ?_
  intro w₁ raw r w' h₁ hr₁ hb hexec
  have ha := hb.aside
  have hready : Ready L₀ s.store (fun _ => False) w₁ := h.aside h₁ hr₁ ha
  have hruns₁ : w₁.Runs id := ha.runs hruns
  have hnew : w₁.MayCreate (.job id .lock) := World.MayCreate.of_runs hruns₁ trivial
  rw [andThen_ok, wp_lift]
  cases raw with
  | some err =>
      cases hexec
      exact herror err _ hready ha.toOnward
  | none =>
      cases hf : w₁.file (.job id .lock) with
      | none =>
          simp only [Sys.exec, Sys.orFail, World.flocked, hf] at hexec
          cases hexec
          refine hlocked _ (hready.lock hruns₁ ?_)
            (ha.toOnward.trans (Onward.setFile (by simp) (by simp) fun _ _ => hnew))
          intro f heq
          rw [hf] at heq
          cases heq
      | some f =>
          simp only [Sys.exec, Sys.orFail, World.flocked, hf] at hexec
          by_cases hheld : f.holders = []
          · simp only [hheld, if_true] at hexec
            cases hexec
            refine hlocked _ (hready.lock hruns₁ ?_)
              (ha.toOnward.trans (Onward.setFile (by simp) (by simp) fun _ _ => hnew))
            intro f' heq
            rw [hf] at heq
            cases heq
            exact hheld
          · simp only [hheld, if_false] at hexec
            cases hexec
            -- The daemon holds no lock, so whoever holds this one is the job's live worker.
            obtain ⟨job, hj, hid⟩ := h₁.files.lock_holder hready.held hf hheld
            exact hbusy _ hready ha.toOnward ⟨job, ha.live.subset hj, hid⟩

theorem close_wp {id : Nat} {Q : ProcessExecutor → Except Error Unit → World → Prop}
    (h : Ready L₀ s.store (· = .job id .lock) w)
    (hQ : ∀ w', Ready L₀ s.store (fun _ => False) w' → Onward w w' → Q e (.ok ()) w') :
    wp (handlerSpec L₀ s) (call (.close (.job id .lock))) Q e w := by
  refine wp_sys trivial h.sound h.reach ?_
  intro w₁ raw r w' h₁ hr₁ hb hexec
  have ha := hb.aside
  have hready := h.aside h₁ hr₁ ha
  cases hexec
  cases hf : w₁.file (.job id .lock) with
  -- Nothing to close: the daemon holds no lock file.
  | none =>
      simp only [World.closed, hf]
      refine hQ _ ⟨h₁, hr₁, ?_⟩ ha.toOnward
      intro path f hp hd
      obtain rfl := hready.held path f hp hd
      rw [hf] at hp
      cases hp
  | some f =>
      have hnew : w₁.MayCreate (.job id .lock) := World.MayCreate.of_file hf
      simp only [World.closed, hf]
      refine hQ _ ⟨h₁.setLock ?_ ?_ hnew, ?_, ?_⟩
        (ha.toOnward.trans (Onward.setFile (by simp) (by simp) fun _ _ => hnew))
      -- Only the daemon's own hold goes away; a worker that inherited the lock keeps it.
      · rintro wk hwk rfl
        obtain ⟨f', hf', hmem⟩ := h₁.files.lock wk hwk
        rw [hf] at hf'
        cases hf'
        exact List.mem_filter.mpr ⟨hmem, by simp⟩
      · intro pid hpid
        obtain ⟨wk, hwk, hp, hpath⟩ :=
          h₁.files.holders _ f pid hf (List.mem_filter.mp hpid).1
        simp only [Path.job.injEq, and_true] at hpath
        exact ⟨wk, hwk, hp, hpath.symm⟩
      · rw [World.view_setFile _ _ _ (by simp)]
        exact hr₁
      · intro path f' hp hd
        rcases World.setFile_cases hp with ⟨_, hnew⟩ | ⟨heq, hold⟩
        · cases hnew
          simp at hd
        · exact heq (hready.held path f' hold hd)

/-! ## Starting a worker -/

/-- A job that has been handed to the executor and has no worker yet. -/
structure Startable (job : Job) (m : Store) (v : View) : Prop where
  running : job.state = .running
  mem : job ∈ m.jobs
  disk : job ∈ v.disk.jobs
  started : job.id ∈ v.hist.started
  unspawned : job.id ∉ v.hist.spawned
  unfinished : job.id ∉ v.hist.finished
  opening : v.hist.PendingAtOpening job.id
  ticking : v.hist.tickOpen = true

theorem Startable.runs {job : Job} {m : Store} (h : Startable job m w.view) : w.Runs job.id :=
  ⟨job, h.disk, rfl, h.running⟩

theorem Startable.onward {job : Job} {m : Store} (h : Startable job m w.view) (ho : Onward w w') :
    Startable job m w'.view where
  running := h.running
  mem := h.mem
  disk := by
    rw [World.view_disk, ho.disk]
    exact h.disk
  started := by
    rw [World.view_hist, ho.hist]
    exact h.started
  unspawned := by
    rw [World.view_hist, ho.hist]
    exact h.unspawned
  unfinished := by
    rw [World.view_hist, ho.hist]
    exact h.unfinished
  opening := by
    rw [World.view_hist, ho.hist]
    exact h.opening
  ticking := by
    rw [World.view_hist, ho.hist]
    exact h.ticking

/-- The world with one more worker, which shares the lock file `f` of its job. -/
theorem World.spawned_eq {pid fuel : Nat} {job : Job} {f : File}
    (hf : w.file (.job job.id .lock) = some f) (hd : .daemon ∈ f.holders) :
    w.spawned pid fuel job =
      World.log { w.setFile (.job job.id .lock)
          (some ⟨f.data, .worker pid :: f.holders⟩) with
        workers := ⟨pid, job, worker pid fuel job.id ()⟩ :: w.workers } (.spawned job) := by
  simp only [World.spawned, hf, hd, if_true, World.setFile_workers]

theorem Files.spawned (wk : Worker) (h : Files w) {f : File}
    (hf : w.file (.job wk.job.id .lock) = some f) (hdaemon : wk.pid ≠ w.pid)
    (hfits : wk.pid < 2 ^ 32) (hpid : ∀ other ∈ w.workers, other.pid ≠ wk.pid)
    (halone : ∀ other ∈ w.workers, other.job.id ≠ wk.job.id) :
    Files { w.setFile (.job wk.job.id .lock)
        (some ⟨f.data, .worker wk.pid :: f.holders⟩) with workers := wk :: w.workers } := by
  have hcases := fun (p : Path) (f₁ : File) => @World.setFile_cases w (.job wk.job.id .lock) p
    (some ⟨f.data, .worker wk.pid :: f.holders⟩) f₁
  have hdisk := World.disk_setFile_of_ne w (.job wk.job.id .lock)
    (some ⟨f.data, .worker wk.pid :: f.holders⟩) (by simp)
  exact {
    state := by
      intro f' hf'
      rcases hcases .state f' hf' with ⟨hp, _⟩ | ⟨_, hold⟩
      · cases hp
      · exact h.state f' hold
    pids := by
      refine List.nodup_cons.mpr ⟨fun hmem => ?_, h.pids⟩
      obtain ⟨other, hother, heq⟩ := List.mem_map.mp hmem
      exact hpid other hother heq
    ids := by
      refine List.nodup_cons.mpr ⟨fun hmem => ?_, h.ids⟩
      obtain ⟨other, hother, heq⟩ := List.mem_map.mp hmem
      exact halone other hother heq
    daemonPid := by
      intro other hother
      rcases List.mem_cons.mp hother with rfl | hother
      · exact hdaemon
      · exact h.daemonPid other hother
    lock := by
      intro other hother
      rcases List.mem_cons.mp hother with rfl | hother
      · exact ⟨_, World.setFile_same _ _ _, List.mem_cons_self⟩
      · have hne : (.job other.job.id .lock : Path) ≠ .job wk.job.id .lock := by
          simpa using halone other hother
        obtain ⟨f', hf', hmem⟩ := h.lock other hother
        exact ⟨f', (World.setFile_of_ne _ _ _ hne).trans hf', hmem⟩
    locked := by
      intro path f' who hf' hwho
      rcases hcases path f' hf' with ⟨heq, _⟩ | ⟨_, hold⟩
      · exact ⟨_, heq⟩
      · exact h.locked path f' who hold hwho
    holders := by
      intro path f' pid hf' hheld
      rcases hcases path f' hf' with ⟨rfl, hnew⟩ | ⟨_, hold⟩
      · cases hnew
        -- The new worker shares the daemon's descriptor of the lock file.
        rcases List.mem_cons.mp hheld with heq | hheld
        · obtain rfl := Holder.worker.inj heq
          exact ⟨wk, List.mem_cons_self, rfl, rfl⟩
        · obtain ⟨other, hother, hp, hpath⟩ := h.holders _ f pid hf hheld
          exact ⟨other, List.mem_cons_of_mem _ hother, hp, hpath⟩
      · obtain ⟨other, hother, hp, hpath⟩ := h.holders path f' pid hold hheld
        exact ⟨other, List.mem_cons_of_mem _ hother, hp, hpath⟩
    result := by
      intro id f' hf'
      rcases hcases (.job id .result) f' hf' with ⟨hp, _⟩ | ⟨_, hold⟩
      · cases hp
      · exact h.result id f' hold
    published := by
      intro id outcome hpub job hj hid hrun
      have hsame : (w.setFile (.job wk.job.id .lock)
          (some ⟨f.data, .worker wk.pid :: f.holders⟩)).file (.job id .result) =
          w.file (.job id .result) := World.setFile_of_ne _ _ _ (by simp)
      have hsome := h.published id outcome hpub job (hdisk ▸ hj) hid hrun
      rw [← hsame] at hsome
      exact hsome
    known := by
      intro path f' hf'
      rcases hcases path f' hf' with ⟨rfl, _⟩ | ⟨_, hold⟩
      · exact List.mem_cons_self
      · exact List.mem_cons_of_mem _ (h.known path f' hold)
    pidFits := h.pidFits
    pidsFit := by
      intro other hother
      rcases List.mem_cons.mp hother with rfl | hother
      · exact hfits
      · exact h.pidsFit other hother
    artifacts := by
      intro id ext f' hf'
      have hjob : w.disk.Begun id ∧ ext.Fits := by
        rcases hcases (.job id ext) f' hf' with ⟨heq, _⟩ | ⟨_, hold⟩
        · cases heq
          exact h.artifacts _ _ f hf
        · exact h.artifacts id ext f' hold
      exact ⟨hdisk ▸ hjob.1, hjob.2⟩ }

/-- A new worker under the lock of its job. -/
theorem Locked.spawn {m : Store} {job : Job} {pid : Nat} (h : Locked L₀ m job.id w) (fuel : Nat)
    (hs : Startable job m w.view) (hdaemon : pid ≠ w.pid) (hpidFree : w.pidFree pid = true) :
    Ready L₀ m (· = .job job.id .lock) (w.spawned pid fuel job) := by
  obtain ⟨f, hf, hd⟩ := h.holds
  obtain ⟨hfits, hpid⟩ := World.pidFree_spec hpidFree
  have halone : ∀ other ∈ w.workers, other.job.id ≠ job.id := fun other hother =>
    h.alone other.job (List.mem_map_of_mem hother)
  have hview : (w.spawned pid fuel job).view =
      { w.view with live := job :: w.live }.log (.spawned job) := by
    rw [World.spawned_eq hf hd, World.view_log]
    have hlock := World.view_setFile w (.job job.id .lock)
      (some ⟨f.data, .worker pid :: f.holders⟩) (by simp)
    refine congrArg (fun v : View => v.log (.spawned job)) ?_
    rw [← hlock]
    rfl
  refine ⟨⟨?_, ?_⟩, ?_, ?_⟩
  · rw [World.spawned_eq hf hd]
    have hfiles := Files.spawned ⟨pid, job, worker pid fuel job.id ()⟩ h.sound.files hf hdaemon
      hfits hpid halone
    exact hfiles.log _
  · rw [World.spawned_eq hf hd]
    intro wk hwk
    rcases List.mem_cons.mp hwk with rfl | hwk
    · refine worker_safe pid fuel job.id _ ?_
      refine Bool.eq_false_iff.mpr fun hany => ?_
      -- a published result would mean that the job already had a worker
      obtain ⟨⟨id, outcome⟩, hpub, hid⟩ := List.any_eq_true.mp hany
      obtain rfl : id = job.id := by simpa using hid
      exact hs.unspawned (h.reach.inv.published _ outcome hpub).1
    · have hsafe := h.sound.workers wk hwk
      have hsame := World.workerView_setFile_of_ne w wk (.job job.id .lock)
        (some ⟨f.data, .worker pid :: f.holders⟩) (by simp)
      rw [← hsame] at hsafe
      exact hsafe
  · rw [hview]
    exact h.reach.step (Step.spawn m w.view job hs.running hs.mem hs.disk hs.started
      hs.unspawned hs.unfinished hs.opening hs.ticking)
  · rw [World.spawned_eq hf hd]
    intro path f' hp hmem
    rcases World.setFile_cases hp with ⟨heq, _⟩ | ⟨_, hold⟩
    · exact heq
    · exact h.held path f' hold hmem

/-- How the history grows while a worker is started. -/
structure Spawns (job : Job) (w : World) (r : Except Error Unit) (w' : World) : Prop where
  pid : w'.pid = w.pid
  disk : w'.disk = w.disk
  error : ∀ err, r = .error err → w'.hist = w.hist
  ok : r = .ok () → ∃ e : Entry, e.event = .spawned job ∧ w'.hist = e :: w.hist

theorem Onward.fails {job : Job} {err : Error} (h : Onward w w') :
    Spawns job w (.error err) w' :=
  ⟨h.pid, h.disk, fun _ _ => h.hist, by rintro ⟨⟩⟩

theorem Spawns.onward {job : Job} {r : Except Error Unit} (h : Spawns job w r w')
    (ho : Onward w' w'') : Spawns job w r w'' where
  pid := ho.pid.trans h.pid
  disk := ho.disk.trans h.disk
  error err herr := ho.hist.trans (h.error err herr)
  ok hok := by
    obtain ⟨entry, hentry, hhist⟩ := h.ok hok
    exact ⟨entry, hentry, ho.hist.trans hhist⟩

theorem Onward.spawns {job : Job} {r : Except Error Unit} (ho : Onward w w₁)
    (h : Spawns job w₁ r w') : Spawns job w r w' where
  pid := h.pid.trans ho.pid
  disk := h.disk.trans ho.disk
  error err herr := (h.error err herr).trans ho.hist
  ok hok := by
    obtain ⟨entry, hentry, hhist⟩ := h.ok hok
    exact ⟨entry, hentry, ho.hist ▸ hhist⟩

theorem World.spawned_disk {pid fuel : Nat} {job : Job} : (w.spawned pid fuel job).disk = w.disk := by
  unfold spawned
  split
  · rfl
  · rename_i f _
    split
    · exact World.disk_setFile_of_ne w (.job job.id .lock)
        (some { f with holders := .worker pid :: f.holders }) (by simp)
    · rfl

theorem World.spawned_spawns {pid fuel : Nat} {job : Job} :
    Spawns job w (.ok ()) (w.spawned pid fuel job) where
  pid := by
    unfold spawned
    split
    · rfl
    · split <;> rfl
  disk := World.spawned_disk
  error := by rintro _ ⟨⟩
  ok _ := by
    unfold spawned
    split
    · exact ⟨_, rfl, rfl⟩
    · split <;> exact ⟨_, rfl, rfl⟩

/-- Opening a log for appending. -/
theorem wp_openLog {id i : Nat}
    {Q : ProcessExecutor → Except Error (Except Error Unit) → World → Prop}
    (h : Locked L₀ s.store id w) (hruns : w.Runs i)
    (hQ : ∀ r w', Locked L₀ s.store id w' → Onward w w' → Q e (.ok r) w') :
    wp (handlerSpec L₀ s) (call (.openAppend (.job i .log))) Q e w := by
  refine wp_sys ⟨i, rfl⟩ h.sound h.reach ?_
  intro w₁ raw r w' h₁ hr₁ hb hexec
  have hl := h.aside h₁ hr₁ hb.aside
  cases raw with
  | some err =>
      cases hexec
      exact hQ _ _ hl hb.aside.toOnward
  | none =>
      cases hexec
      cases hf : w₁.file (.job i .log) with
      | some f =>
          simp only [World.touched, hf]
          exact hQ _ _ hl hb.aside.toOnward
      | none =>
          simp only [World.touched, hf]
          have hnew : ∀ f who, some (File.mk .empty []) = some f → who ∉ f.holders := by
            rintro _ who ⟨⟩ hmem
            cases hmem
          have hmay : w₁.MayCreate (.job i .log) :=
            World.MayCreate.of_runs (hb.aside.runs hruns) trivial
          have ha : Aside w₁ (w₁.setFile (.job i .log) (some ⟨.empty, []⟩)) :=
            Aside.setNeutral rfl hnew fun _ _ => hmay
          have hsound : (w₁.setFile (.job i .log) (some ⟨.empty, []⟩)).Sound :=
            ⟨h₁.files.setNeutral rfl _ hnew fun _ _ => hmay, h₁.workers.setFile (by simp)⟩
          have hview := World.view_setFile w₁ (.job i .log) (some ⟨.empty, []⟩) (by simp)
          have hr₂ := hr₁
          rw [← hview] at hr₂
          exact hQ _ _ (hl.aside hsound hr₂ ha) (hb.aside.trans ha).toOnward

/-- `start` while it holds the lock. -/
theorem startLocked_wp {job : Job} (h : Locked L₀ s.store job.id w)
    (hs : Startable job s.store w.view) :
    wp (handlerSpec L₀ s) (ProcessExecutor.startLocked w.pid job) (fun _ r w' =>
      Ready L₀ s.store (· = .job job.id .lock) w' ∧ Spawns job w r w') e w := by
  rw [ProcessExecutor.startLocked, wp_bind]
  refine writeJobFile_wp (Or.inl rfl) trivial hs.runs h.sound h.reach ?_
  intro r₁ w₁ h₁ hr₁ ha₁
  have hl₁ := h.aside h₁ hr₁ ha₁
  have ho₁ := ha₁.toOnward
  rcases r₁ with err | ⟨⟨⟩⟩
  · exact ⟨hl₁.toReady, ho₁.fails⟩
  rw [andThen_ok, wp_bind]
  refine wp_openLog hl₁ (ho₁.runs hs.runs) ?_
  intro r₂ w₂ hl₂ ho₁₂
  have ho₂ := ho₁.trans ho₁₂
  rw [andThen_ok, wp_bind, wp_lift]
  rcases r₂ with err | ⟨⟨⟩⟩
  · exact ⟨hl₂.toReady, ho₂.fails⟩
  rw [andThen_ok, wp_bind]
  refine wp_idle rfl hl₂.sound hl₂.reach ?_
  intro w₃ _ r₃ h₃ hr₃ hb₃ _
  have hl₃ := hl₂.aside h₃ hr₃ hb₃.aside
  have ho₃ := ho₂.trans hb₃.aside.toOnward
  rw [andThen_ok, wp_bind, wp_lift]
  rcases r₃ with err | ⟨⟨⟩⟩
  · exact ⟨hl₃.toReady, ho₃.fails⟩
  rw [andThen_ok, wp_bind]
  refine wp_sys trivial hl₃.sound hl₃.reach ?_
  intro w₄ raw r₄ w₅ h₄ hr₄ hb₄ hexec
  have hl₄ := hl₃.aside h₄ hr₄ hb₄.aside
  have ho₄ := ho₃.trans hb₄.aside.toOnward
  rw [andThen_ok, wp_bind, wp_lift]
  cases raw with
  | error err =>
      cases hexec
      exact ⟨hl₄.toReady, ho₄.fails⟩
  | ok reply =>
      -- The fork succeeded: the child has a pid that no process uses.
      obtain ⟨pid, fuel⟩ := reply
      simp only [Sys.exec] at hexec
      split at hexec
      · cases hexec
      · rename_i hfresh
        cases hexec
        have hdaemon : pid ≠ w₄.pid := fun heq => hfresh (Or.inl heq)
        have hpidFree : w₄.pidFree pid = true := by
          cases hfree : w₄.pidFree pid with
          | true => rfl
          | false => exact absurd (Or.inr (by rw [hfree]; rfl)) hfresh
        have hready := hl₄.spawn fuel (hs.onward ho₄) hdaemon hpidFree
        exact ⟨hready, ho₄.spawns World.spawned_spawns⟩

/-- `start` takes the lock, starts the worker under it, and lets it go. -/
theorem start_wp {job : Job} (h : Ready L₀ s.store (fun _ => False) w)
    (hs : Startable job s.store w.view) :
    wp (handlerSpec L₀ s) (ProcessExecutor.start w.pid job) (fun _ r w' =>
      Ready L₀ s.store (fun _ => False) w' ∧ Spawns job w r w') e w := by
  rw [ProcessExecutor.start, wp_bind]
  refine tryLock_wp h hs.runs ?_ ?_ ?_
  · intro err w₁ h₁ ho₁
    exact ⟨h₁, ho₁.fails⟩
  · intro w₁ h₁ ho₁ _
    exact ⟨h₁, ho₁.fails⟩
  · intro w₁ h₁ ho₁
    rw [andThen_ok]
    simp only [if_true]
    rw [wp_bind, wp_attempt, ← ho₁.pid]
    refine wp_mono (startLocked_wp h₁ (hs.onward ho₁)) ?_
    rintro e₂ r w₂ ⟨h₂, hsp₂⟩
    rw [andThen_ok, wp_bind]
    refine close_wp h₂ ?_
    intro w₃ h₃ ho₃
    rw [andThen_ok, wp_lift]
    exact ⟨h₃, (ho₁.spawns hsp₂).onward ho₃⟩

/-! ## Polling a worker -/

/-- What `poll` has found out about job `id`, whose worker is gone. -/
structure Found (w : World) (id : Nat) (outcome : Outcome) : Prop where
  alone : ∀ job ∈ w.live, job.id ≠ id
  result : w.dataAt (.job id .result) = some (.whole (.outcome outcome)) ∨
    ((w.dataAt (.job id .result) = none ∨ .job id .result ∈ w.misread) ∧
      ∃ now, outcome = disappeared now)

theorem Found.onward {id : Nat} {outcome : Outcome} (h : Found w id outcome)
    (ho : Onward w w') : Found w' id outcome where
  alone job hj := h.alone job (ho.live.subset hj)
  result := by
    rw [ho.result id h.alone]
    exact h.result.imp_right fun ⟨hnone, hnow⟩ =>
      ⟨hnone.imp_right fun hmem => ho.misread hmem, hnow⟩

/-- The outcome that `poll` returns is the one that was published, if any was and `poll` has
    seen it. -/
theorem Found.reports {id : Nat} {outcome : Outcome} {mem : Option Store}
    (h : Found w id outcome) (hsound : w.Sound) (hr : Reach L₀ ⟨mem, w.view⟩)
    (hrun : ∃ job ∈ w.disk.jobs, job.id = id ∧ job.state = .running) :
    w.view.Reports id outcome ∧ outcome.Produced := by
  rcases h.result with hdata | ⟨hnone | hmissed, now, rfl⟩
  · obtain ⟨f, hf, hfd⟩ := Option.map_eq_some_iff.mp hdata
    obtain ⟨o, ho, hpub⟩ := hsound.files.result id f hf
    rw [hfd] at ho
    cases ho
    have hunique : ∀ o, (id, o) ∈ w.published → o = outcome := fun o ho =>
      hr.inv.published_unique id o outcome ho hpub
    exact ⟨Or.inl ⟨hpub, hunique⟩, (hr.inv.published id outcome hpub).2⟩
  · obtain ⟨job, hj, hid, hrunning⟩ := hrun
    -- A published result of a running job is still in its file.
    have hfirst : ∀ o, (id, o) ∉ w.published := by
      intro o hpub
      have hsome := hsound.files.published id o hpub job hj hid hrunning
      rw [World.dataAt, Option.map_eq_none_iff] at hnone
      rw [hnone] at hsome
      cases hsome
    exact ⟨Or.inr ⟨Or.inl hfirst, now, rfl⟩, Outcome.Produced.failure _ now⟩
  · exact ⟨Or.inr ⟨Or.inr hmissed, now, rfl⟩, Outcome.Produced.failure _ now⟩

/-- What `pollLocked` and its parts leave behind. -/
abbrev Looked (L₀ : Ledger) (m : Store) (id : Nat) (w : World) (r : Except Error Outcome)
    (w' : World) : Prop :=
  Ready L₀ m (· = .job id .lock) w' ∧ Onward w w' ∧ ∀ outcome, r = .ok outcome → Found w' id outcome

theorem Locked.fails {m : Store} {id : Nat} {err : Error} (h : Locked L₀ m id w')
    (ho : Onward w w') : Looked L₀ m id w (.error err) w' :=
  ⟨h.toReady, ho, by rintro _ ⟨⟩⟩

/-- Reading the result file of a job whose worker is gone. -/
theorem readResult_wp {id : Nat} (h : Locked L₀ s.store id w₁) (ho : Onward w w₁) :
    wp (handlerSpec L₀ s) (readJson Data.outcome? (.job id .result)) (fun _ r w' =>
      Looked L₀ s.store id w r w') e w₁ := by
  rw [readJson, wp_bind]
  refine wp_idle rfl h.sound h.reach ?_
  intro w₂ raw r hs₂ hr₂ hb₂ hexec
  have h₂ := h.aside hs₂ hr₂ hb₂.aside
  have ho₂ := ho.trans hb₂.aside.toOnward
  rw [andThen_ok, wp_bind, wp_lift]
  rcases r with err | data
  · exact h₂.fails ho₂
  rw [andThen_ok]
  cases hdecode : data.outcome? with
  | none => exact h₂.fails ho₂
  | some outcome =>
      refine ⟨h₂.toReady, ho₂, ?_⟩
      rintro _ ⟨⟩
      -- What was read is what is in the file now; `Files` says that it is an outcome.
      have hdata : w₂.dataAt (.job id .result) = some data := exec_read hexec
      obtain ⟨f, hf, hfd⟩ := Option.map_eq_some_iff.mp hdata
      obtain ⟨o, hwhole, _⟩ := hs₂.files.result id f hf
      have heq : o = outcome := by
        rw [← hfd, hwhole] at hdecode
        exact Option.some.inj hdecode
      rw [← hfd, hwhole, heq] at hdata
      exact ⟨h₂.alone, Or.inl hdata⟩

/-- The end of `pollLocked`: the result if it is there, otherwise the fallback. -/
theorem lookup_wp {id : Nat} (h : Locked L₀ s.store id w₁) (ho : Onward w w₁) :
    wp (handlerSpec L₀ s) (do
      if ← call (Sys.pathExists (.job id .result)) then
        readJson Data.outcome? (.job id .result)
      else do
        let now ← call .now
        return failure "executor worker disappeared without an exit result" now)
      (fun _ r w' => Looked L₀ s.store id w r w') e w₁ := by
  -- No worker of this job is left that could publish while the clock is read.
  have hfallback : ∀ w₃, Locked L₀ s.store id w₃ → Onward w w₃ →
      (w₃.dataAt (.job id .result) = none ∨ .job id .result ∈ w₃.misread) →
        wp (handlerSpec L₀ s) (do
          let now ← call .now
          return failure "executor worker disappeared without an exit result" now)
          (fun _ r w' => Looked L₀ s.store id w r w') e w₃ := by
    intro w₃ h₃ ho₃ hnone
    rw [wp_bind]
    refine wp_idle rfl h₃.sound h₃.reach ?_
    intro w₄ _ now hs₄ hr₄ hb₄ _
    have h₄ := h₃.aside hs₄ hr₄ hb₄.aside
    rw [andThen_ok, wp_pure]
    refine ⟨h₄.toReady, ho₃.trans hb₄.aside.toOnward, ?_⟩
    rintro _ ⟨⟩
    refine ⟨h₄.alone, Or.inr ⟨?_, now, rfl⟩⟩
    rw [hb₄.result id h₃.alone]
    exact hnone.imp_right fun hmem => hb₄.misread hmem
  rw [wp_bind]
  refine wp_sys trivial h.sound h.reach ?_
  intro w₂ raw r w₃ hs₂ hr₂ hb₂ hexec
  have h₂ := h.aside hs₂ hr₂ hb₂.aside
  have ho₂ := ho.trans hb₂.aside.toOnward
  rw [andThen_ok]
  simp only [Sys.exec] at hexec
  split at hexec
  · cases hexec
    have hover := Beside.overlooked w₂ (.job id .result)
    have h₃ := h₂.aside (hs₂.overlooked _) (hr₂.step (Step.misread _ w₂.view _)) hover.aside
    exact hfallback _ h₃ (ho₂.trans hover.aside.toOnward) (Or.inr List.mem_cons_self)
  · cases hexec
    cases hf : w₂.file (.job id .result) with
    | some f =>
        simp only [Option.isSome_some, if_true]
        exact readResult_wp h₂ ho₂
    | none =>
        simp only [Option.isSome_none, Bool.false_eq_true, if_false]
        apply hfallback _ h₂ ho₂
        rw [World.dataAt, hf]
        exact Or.inl rfl

/-- `poll` while it holds the lock. -/
theorem pollLocked_wp {id : Nat} (h : Locked L₀ s.store id w) :
    wp (handlerSpec L₀ s) (ProcessExecutor.pollLocked id) (fun _ r w' =>
      Looked L₀ s.store id w r w') e w := by
  rw [ProcessExecutor.pollLocked, wp_bind, wp_get, andThen_ok]
  split
  -- The worker is a child of this daemon: it is reaped first.
  · rw [ProcessExecutor.forget, wp_bind, wp_modify, andThen_ok, wp_bind]
    refine wp_idle rfl h.sound h.reach ?_
    intro w₁ _ r hs₁ hr₁ hb₁ _
    have h₁ := h.aside hs₁ hr₁ hb₁.aside
    have ho₁ := hb₁.aside.toOnward
    rw [andThen_ok, wp_bind, wp_lift]
    rcases r with err | ⟨⟨⟩⟩
    · exact h₁.fails ho₁
    · exact lookup_wp h₁ ho₁
  · exact lookup_wp h (Onward.refl w)

/-- What `poll` leaves behind: an outcome only of a job whose worker is gone, and
    none only while the worker may be alive. -/
structure Polled (L₀ : Ledger) (m : Store) (id : Nat) (w : World)
    (r : Except Error (Option Outcome)) (w' : World) : Prop where
  ready : Ready L₀ m (fun _ => False) w'
  onward : Onward w w'
  waiting : r = .ok none → ∃ job ∈ w.live, job.id = id
  found : ∀ outcome, r = .ok (some outcome) → Found w' id outcome

/-- The part of `poll` that tries the lock. -/
theorem tryPoll_wp {id : Nat} (h : Ready L₀ s.store (fun _ => False) w₁) (hruns : w₁.Runs id)
    (ho : Onward w w₁) :
    wp (handlerSpec L₀ s) (do
      if ← tryLock (.job id .lock) then do
        let result ← attempt (ProcessExecutor.pollLocked id)
        call (Sys.close (.job id .lock))
        let outcome ← lift result
        return some outcome
      else
        return none)
      (fun _ r w' => Polled L₀ s.store id w r w') e w₁ := by
  rw [wp_bind]
  refine tryLock_wp h hruns ?_ ?_ ?_
  · intro err w₂ h₂ ho₂
    exact ⟨h₂, ho.trans ho₂, by rintro ⟨⟩, by rintro _ ⟨⟩⟩
  -- The lock is taken: by a worker of this job, as the daemon holds none.
  · rintro w₂ h₂ ho₂ ⟨job, hj, hid⟩
    exact ⟨h₂, ho.trans ho₂, fun _ => ⟨job, ho.live.subset hj, hid⟩, by rintro _ ⟨⟩⟩
  · intro w₂ h₂ ho₂
    rw [andThen_ok]
    simp only [if_true]
    rw [wp_bind, wp_attempt]
    refine wp_mono (pollLocked_wp h₂) ?_
    rintro e₃ r w₃ ⟨h₃, ho₃, hfound⟩
    rw [andThen_ok, wp_bind]
    refine close_wp h₃ ?_
    intro w₄ h₄ ho₄
    have ho' : Onward w w₄ := ((ho.trans ho₂).trans ho₃).trans ho₄
    rw [andThen_ok, wp_bind, wp_lift]
    rcases r with err | outcome
    · exact ⟨h₄, ho', by rintro ⟨⟩, by rintro _ ⟨⟩⟩
    · refine ⟨h₄, ho', by rintro ⟨⟩, ?_⟩
      rintro _ ⟨⟩
      exact (hfound outcome rfl).onward ho₄

theorem poll_wp {id : Nat} (h : Ready L₀ s.store (fun _ => False) w) (hruns : w.Runs id) :
    wp (handlerSpec L₀ s) (ProcessExecutor.poll id) (fun _ r w' =>
      Polled L₀ s.store id w r w') e w := by
  rw [ProcessExecutor.poll, wp_bind, wp_get, andThen_ok]
  split
  · rw [wp_bind]
    refine wp_idle rfl h.sound h.reach ?_
    intro w₁ _ r hs₁ hr₁ hb₁ _
    have h₁ := h.aside hs₁ hr₁ hb₁.aside
    have ho₁ := hb₁.aside.toOnward
    rw [andThen_ok, wp_bind, wp_lift]
    rcases r with err | exited
    · exact ⟨h₁, ho₁, by rintro ⟨⟩, by rintro _ ⟨⟩⟩
    · rw [andThen_ok]
      split
      · rw [ProcessExecutor.forget, wp_bind, wp_modify, andThen_ok]
        exact tryPoll_wp h₁ (ho₁.runs hruns) ho₁
      · exact tryPoll_wp h₁ (ho₁.runs hruns) ho₁
  · exact tryPoll_wp h hruns (Onward.refl w)

end Xlurm
