/-
  Xlurm.Refine.World

  What one system call changes, and the invariant of the machine: what the files
  contain, who holds which lock, and which processes there are.

  A lock is what tells the daemon that a worker is gone, so the invariant says
  that a live worker holds the lock of its job and no other process ever does,
  and that a result file and a published result are the same thing as long as
  the job runs on disk.
-/

import Xlurm.Ledger.Inv
import Xlurm.Refine.Contract
import Xlurm.Refine.Worker

namespace Xlurm

namespace World

/-- The world as the ledger sees it. -/
def view (w : World) : View := ⟨w.disk, w.live, w.published, w.misread, w.hist⟩

/-- The world as the contract of the scheduler's calls sees it. -/
def scene (w : World) : Scene := { w.view with files := fun path => (w.file path).isSome }

/-- What a path contains, if it exists. -/
def dataAt (w : World) (path : Path) : Option Data := (w.file path).map (·.data)

/-- What a worker knows about its files. -/
def workerView (w : World) (wk : Worker) : WorkerView where
  temp := w.dataAt (.job wk.job.id (.tmp wk.pid))
  done := w.published.any (·.1 == wk.job.id)

section Simp

variable (w : World) (path : Path) (f : Option File)

@[simp] theorem view_disk : w.view.disk = w.disk := rfl

@[simp] theorem view_live : w.view.live = w.live := rfl

@[simp] theorem view_published : w.view.published = w.published := rfl

@[simp] theorem view_misread : w.view.misread = w.misread := rfl

@[simp] theorem view_hist : w.view.hist = w.hist := rfl

@[simp] theorem scene_toView : w.scene.toView = w.view := rfl

@[simp] theorem setFile_workers : (w.setFile path f).workers = w.workers := rfl

@[simp] theorem setFile_published : (w.setFile path f).published = w.published := rfl

@[simp] theorem setFile_misread : (w.setFile path f).misread = w.misread := rfl

@[simp] theorem setFile_hist : (w.setFile path f).hist = w.hist := rfl

@[simp] theorem setFile_pid : (w.setFile path f).pid = w.pid := rfl

@[simp] theorem setFile_live : (w.setFile path f).live = w.live := rfl

@[simp] theorem setFile_same : (w.setFile path f).file path = f := Function.update_self ..

theorem setFile_of_ne {other : Path} (h : other ≠ path) :
    (w.setFile path f).file other = w.file other := Function.update_of_ne h ..

theorem dataAt_setFile_of_ne {other : Path} (h : other ≠ path) :
    (w.setFile path f).dataAt other = w.dataAt other := by
  rw [dataAt, setFile_of_ne _ _ _ h, dataAt]

theorem disk_eq : w.disk = ((w.dataAt .state).bind Data.store?).getD Store.default := by
  unfold disk dataAt
  cases w.file .state <;> rfl

theorem view_log (event : Event) : (w.log event).view = w.view.log event := by
  simp only [view, log, View.log, disk, live]

theorem disk_setFile_of_ne (h : path ≠ .state) : (w.setFile path f).disk = w.disk := by
  rw [disk_eq, disk_eq, dataAt_setFile_of_ne _ _ _ (Ne.symm h)]

/-- Other files than `state.json` do not show in the ledger. -/
theorem view_setFile (h : path ≠ .state) : (w.setFile path f).view = w.view := by
  simp only [view, disk_setFile_of_ne _ _ _ h, setFile_live, setFile_published, setFile_misread,
    setFile_hist]

/-- A new `state.json`. -/
theorem disk_setFile (h : path = .state) {f : File} {store : Store}
    (hdata : f.data = .whole (.store store)) : (w.setFile path (some f)).disk = store := by
  rw [disk_eq, dataAt, h, setFile_same]
  simp [hdata, Data.store?]

end Simp

/-- What a file is after an update. -/
theorem setFile_cases {w : World} {path p : Path} {f' : Option File} {f₁ : File}
    (hf : (w.setFile path f').file p = some f₁) :
    (p = path ∧ f' = some f₁) ∨ (p ≠ path ∧ w.file p = some f₁) := by
  by_cases hp : p = path
  · rw [hp, setFile_same] at hf
    exact Or.inl ⟨hp, hf⟩
  · rw [setFile_of_ne _ _ _ hp] at hf
    exact Or.inr ⟨hp, hf⟩

end World

theorem World.pidFree_spec {w : World} {pid : Nat} (h : w.pidFree pid = true) :
    pid < 2 ^ 32 ∧ ∀ wk ∈ w.workers, wk.pid ≠ pid := by
  rw [pidFree, Bool.and_eq_true, decide_eq_true_eq] at h
  refine ⟨h.1, ?_⟩
  intro wk hwk heq
  have hany : w.pidInUse pid = true := List.any_eq_true.mpr ⟨wk, hwk, by simp [heq]⟩
  rw [hany] at h
  cases h.2

/-! ## What one call changes -/

/-- What one call of `who` does to the world: nothing, or the change it asks for. -/
inductive Changes (who : Holder) (w : World) : Sys → World → Prop
  /-- A refused call, or one that only reads. -/
  | nothing {c : Sys} : Changes who w c w
  | unlink {path : Path} : Changes who w (.unlink path) (w.setFile path none)
  | create {path : Path} : Changes who w (.create path) (w.created path)
  | write {path : Path} {piece : Piece} : Changes who w (.write path piece) (w.written path piece)
  | rename {source target : Path} {f : File} (hf : w.file source = some f) :
      Changes who w (.rename source target) (w.renamed source target f)
  | flock {path : Path} : Changes who w (.flock path) (w.flocked who path).2
  | close {path : Path} : Changes who w (.close path) (w.closed who path)
  | openAppend {path : Path} : Changes who w (.openAppend path) (w.touched path)
  | pathExists {path : Path} : Changes who w (.pathExists path) (w.overlooked path)
  | spawn {pid fuel : Nat} {job : Job} : Changes who w (.spawn job) (w.spawned pid fuel job)
  | note {event : Event} : Changes who w (.note event) (w.log event)

theorem Sys.orFail_eq {α : Type} {raw : Option Error} {w w₁ w' : World} {a : α}
    {r : Except Error α} (h : Sys.orFail raw w a w₁ = some (r, w')) : w' = w ∨ w' = w₁ := by
  cases raw with
  | some err =>
      cases h
      exact Or.inl rfl
  | none =>
      cases h
      exact Or.inr rfl

/-- The only place where the replies of the kernel are told apart: every fact about what a call
    does to the world follows from this one. -/
theorem exec_changes {who : Holder} {w w' : World} {c : Sys} {raw : c.Raw} {r : c.Reply}
    (h : c.exec who w raw = some (r, w')) : Changes who w c w' := by
  cases c with
  | now | isDir | account | ask =>
      cases h
      exact .nothing
  | pathExists path =>
      simp only [Sys.exec] at h
      split at h <;> cases h
      exacts [.pathExists, .nothing]
  | hang => cases h
  | readLog | fsync | syncDir | tryClone | tryWait =>
      obtain rfl | rfl := Sys.orFail_eq h <;> exact .nothing
  | create path => obtain rfl | rfl := Sys.orFail_eq h; exacts [.nothing, .create]
  | write path piece => obtain rfl | rfl := Sys.orFail_eq h; exacts [.nothing, .write]
  | flock path => obtain rfl | rfl := Sys.orFail_eq h; exacts [.nothing, .flock]
  | openAppend path => obtain rfl | rfl := Sys.orFail_eq h; exacts [.nothing, .openAppend]
  | wait id =>
      simp only [Sys.exec] at h
      split at h
      · cases h
      · obtain rfl | rfl := Sys.orFail_eq h <;> exact .nothing
  | close path =>
      cases h
      exact .close
  | note event =>
      cases h
      exact .note
  | readDir =>
      simp only [Sys.exec] at h
      split at h
      · cases h
        exact .nothing
      · split at h
        · cases h
          exact .nothing
        · cases h
  | openLog | read =>
      simp only [Sys.exec] at h
      split at h <;> cases h <;> exact .nothing
  | unlink path =>
      simp only [Sys.exec] at h
      split at h <;> cases h
      exacts [.nothing, .nothing, .unlink]
  | rename source target =>
      simp only [Sys.exec] at h
      split at h <;> cases h
      · exact .nothing
      · exact .nothing
      · exact .rename ‹_›
  | spawn job =>
      simp only [Sys.exec] at h
      split at h
      · cases h
        exact .nothing
      · split at h
        · cases h
        · cases h
          exact .spawn

/-- What has been read is what the file contains. -/
theorem exec_read {who : Holder} {w w' : World} {path : Path} {raw : Option Error} {data : Data}
    (h : (Sys.read path).exec who w raw = some (.ok data, w')) : w.dataAt path = some data := by
  simp only [Sys.exec] at h
  split at h
  · cases h
  · cases h
  · rename_i f hf
    cases h
    rw [World.dataAt, hf]
    rfl

theorem exec_readDir {who : Holder} {w w' : World} {raw : Sys.Raw .readDir}
    {entries : List (Except Error Path)}
    (h : Sys.readDir.exec who w raw = some (.ok entries, w')) : w.lists entries = true := by
  simp only [Sys.exec] at h
  split at h
  · cases h
  · split at h
    · rename_i hlists
      cases h
      exact hlists
    · cases h

/-! ## Files of jobs -/

/-- The job runs on disk. -/
def World.Runs (w : World) (id : Nat) : Prop :=
  ∃ job ∈ w.disk.jobs, job.id = id ∧ job.state = .running

/-- Files of a job are only made while it runs on disk. -/
def World.MayCreate (w : World) (path : Path) : Prop :=
  ∀ id ext, path = .job id ext → (w.file path).isSome = true ∨ (w.Runs id ∧ ext.Fits)

theorem World.Runs.begun {w : World} {id : Nat} (h : w.Runs id) : w.disk.Begun id := by
  obtain ⟨job, hj, hid, hrun⟩ := h
  exact ⟨job, hj, hid, by simp [hrun]⟩

theorem World.Runs.congr {w w' : World} {id : Nat} (h : w.Runs id) (hdisk : w'.disk = w.disk) :
    w'.Runs id := by
  rw [Runs, hdisk]
  exact h

theorem World.MayCreate.of_file {w : World} {path : Path} {f : File} (hf : w.file path = some f) :
    w.MayCreate path := by
  intro _ _ _
  rw [hf]
  exact Or.inl rfl

theorem World.MayCreate.of_runs {w : World} {id : Nat} (h : w.Runs id) {ext : Ext}
    (hfits : ext.Fits) : w.MayCreate (.job id ext) := by
  rintro _ _ ⟨⟩
  exact Or.inr ⟨h, hfits⟩

/-- The daemon makes a file of a job only while the job runs on disk. -/
def World.Making (w : World) (path : Path) : Prop :=
  ∀ id ext, path = .job id ext → w.Runs id ∧ ext.Fits

theorem World.Making.congr {w w' : World} {path : Path} (h : w.Making path)
    (hdisk : w'.disk = w.disk) : w'.Making path := fun id ext hp =>
  ⟨(h id ext hp).1.congr hdisk, (h id ext hp).2⟩

theorem World.Making.mayCreate {w : World} {path : Path} (h : w.Making path) : w.MayCreate path :=
  fun id ext hp => Or.inr (h id ext hp)

/-- What is in memory and not in `store` may be forgotten: it does not run, and has no files. -/
def World.Forgets (w : World) (m store : Store) : Prop :=
  ∀ id, m.Begun id → ¬ store.Begun id → ¬ w.Runs id ∧ ∀ ext, w.file (.job id ext) = none

theorem World.Forgets.refl (w : World) (m : Store) : w.Forgets m m :=
  fun _ hbegun hnot => absurd hbegun hnot

/-! ## The invariant -/

/-- What the files contain and who holds their locks. -/
structure Files (w : World) : Prop where
  /-- `state.json` is never seen half written. -/
  state : ∀ f, w.file .state = some f → ∃ store, f.data = .whole (.store store)
  pids : (w.workers.map (·.pid)).Nodup
  ids : (w.workers.map (·.job.id)).Nodup
  daemonPid : ∀ wk ∈ w.workers, wk.pid ≠ w.pid
  /-- A live worker holds the lock of its job. -/
  lock : ∀ wk ∈ w.workers, ∃ f, w.file (.job wk.job.id .lock) = some f ∧
    .worker wk.pid ∈ f.holders
  /-- Only lock files are ever locked. -/
  locked : ∀ path f who, w.file path = some f → who ∈ f.holders → ∃ id, path = .job id .lock
  /-- No worker holds another lock, and no dead one holds any. -/
  holders : ∀ path f pid, w.file path = some f → .worker pid ∈ f.holders →
    ∃ wk ∈ w.workers, wk.pid = pid ∧ path = .job wk.job.id .lock
  result : ∀ id f, w.file (.job id .result) = some f →
    ∃ outcome, f.data = .whole (.outcome outcome) ∧ (id, outcome) ∈ w.published
  /-- While a job runs on disk, a published result is not lost. -/
  published : ∀ id outcome, (id, outcome) ∈ w.published →
    ∀ job ∈ w.disk.jobs, job.id = id → job.state = .running →
      (w.file (.job id .result)).isSome
  known : ∀ path f, w.file path = some f → path ∈ w.known
  pidFits : w.pid < 2 ^ 32
  pidsFit : ∀ wk ∈ w.workers, wk.pid < 2 ^ 32
  /-- Every file of a job is of a job on disk. -/
  artifacts : ∀ id ext f, w.file (.job id ext) = some f → w.disk.Begun id ∧ ext.Fits

/-- The rest of every worker's program does what workers may do. -/
def Workers (w : World) : Prop :=
  ∀ wk ∈ w.workers,
    wk.prog.Safe (workerSpec wk.pid wk.job.id) (fun _ _ _ => True) (w.workerView wk)

/-- The daemon holds no locks except on the paths in `P`. -/
def HeldOnly (P : Path → Prop) (w : World) : Prop :=
  ∀ path f, w.file path = some f → .daemon ∈ f.holders → P path

/-- The daemon holds no locks. -/
abbrev Free : World → Prop := HeldOnly fun _ => False

structure World.Sound (w : World) : Prop where
  files : Files w
  workers : Workers w

variable {w w' : World} {L₀ : Ledger} {mem : Option Store}

/-- Write, create or remove one file. -/
theorem Files.setFile (h : Files w) (path : Path) (f' : Option File)
    (hstate : path = .state → ∃ f store, f' = some f ∧ f.data = .whole (.store store) ∧
      (∀ id outcome, (id, outcome) ∈ w.published → ∀ job ∈ store.jobs, job.id = id →
        job.state = .running → (w.file (.job id .result)).isSome) ∧
      ∀ id ext f, w.file (.job id ext) = some f → store.Begun id)
    (hlock : ∀ wk ∈ w.workers, path = .job wk.job.id .lock →
      ∃ f, f' = some f ∧ .worker wk.pid ∈ f.holders)
    (hlocked : ∀ f who, f' = some f → who ∈ f.holders → ∃ id, path = .job id .lock)
    (hholders : ∀ f pid, f' = some f → .worker pid ∈ f.holders →
      ∃ wk ∈ w.workers, wk.pid = pid ∧ path = .job wk.job.id .lock)
    (hresult : ∀ id, path = .job id .result → (∀ f, f' = some f →
      ∃ outcome, f.data = .whole (.outcome outcome) ∧ (id, outcome) ∈ w.published) ∧
      (f' = none → ∀ job ∈ w.disk.jobs, job.state = .running → job.id ≠ id))
    (hcreate : ∀ f, f' = some f → w.MayCreate path) : Files (w.setFile path f') where
  state f hf := by
    rcases World.setFile_cases hf with ⟨hp, hnew⟩ | ⟨_, hold⟩
    · obtain ⟨f₁, store, rfl, hdata, _⟩ := hstate hp.symm
      cases hnew
      exact ⟨store, hdata⟩
    · exact h.state f hold
  pids := h.pids
  ids := h.ids
  daemonPid := h.daemonPid
  lock wk hwk := by
    by_cases hp : path = .job wk.job.id .lock
    · rw [← hp, World.setFile_same]
      exact hlock wk hwk hp
    · rw [World.setFile_of_ne _ _ _ (Ne.symm hp)]
      exact h.lock wk hwk
  locked p f who hf hwho := by
    rcases World.setFile_cases hf with ⟨rfl, hnew⟩ | ⟨_, hold⟩
    · exact hlocked f who hnew hwho
    · exact h.locked p f who hold hwho
  holders p f pid hf hpid := by
    rcases World.setFile_cases hf with ⟨rfl, hnew⟩ | ⟨_, hold⟩
    · exact hholders f pid hnew hpid
    · exact h.holders p f pid hold hpid
  result id f hf := by
    rcases World.setFile_cases hf with ⟨hp, hnew⟩ | ⟨_, hold⟩
    · exact (hresult id hp.symm).1 f hnew
    · exact h.result id f hold
  published id outcome hpub job hj hid hrun := by
    -- A new `state.json` may bring in other running jobs; another file may be a result.
    by_cases hs : path = .state
    · obtain ⟨f₁, store, rfl, hdata, hkeep, _⟩ := hstate hs
      have hdisk : (w.setFile path (some f₁)).disk = store := World.disk_setFile w path hs hdata
      rw [hdisk] at hj
      have hne : (.job id .result : Path) ≠ path := by
        rw [hs]
        simp
      rw [World.setFile_of_ne _ _ _ hne]
      exact hkeep id outcome hpub job hj hid hrun
    · rw [World.disk_setFile_of_ne _ _ _ hs] at hj
      by_cases hp : path = .job id .result
      · rw [← hp, World.setFile_same]
        cases f' with
        | some f => rfl
        | none => exact absurd hid ((hresult id hp).2 rfl job hj hrun)
      · rw [World.setFile_of_ne _ _ _ (Ne.symm hp)]
        exact h.published id outcome hpub job hj hid hrun
  known p f hf := by
    rcases World.setFile_cases hf with ⟨rfl, _⟩ | ⟨_, hold⟩
    · exact List.mem_cons_self
    · exact List.mem_cons_of_mem _ (h.known p f hold)
  pidFits := h.pidFits
  pidsFit := h.pidsFit
  artifacts id ext f hf := by
    by_cases hs : path = .state
    · obtain ⟨f₁, store, rfl, hdata, _, hbegun⟩ := hstate hs
      rw [World.disk_setFile w path hs hdata]
      rcases World.setFile_cases hf with ⟨hp, _⟩ | ⟨_, hold⟩
      · cases hp.trans hs
      · exact ⟨hbegun id ext f hold, (h.artifacts id ext f hold).2⟩
    · rw [World.disk_setFile_of_ne _ _ _ hs]
      rcases World.setFile_cases hf with ⟨hp, hnew⟩ | ⟨_, hold⟩
      · rcases hcreate f hnew id ext hp.symm with hsome | ⟨hruns, hfits⟩
        · obtain ⟨f₀, hf₀⟩ := Option.isSome_iff_exists.mp hsome
          rw [← hp] at hf₀
          exact h.artifacts id ext f₀ hf₀
        · exact ⟨hruns.begun, hfits⟩
      · exact h.artifacts id ext f hold

/-- The paths whose content the invariant says nothing about. -/
def Path.neutral : Path → Bool
  | .job _ .json | .job _ .log | .job _ .cancel | .job _ (.tmp _) | .stateTmp _ | .other _ => true
  | .state | .job _ .lock | .job _ .result => false

theorem Files.setNeutral (h : Files w) {path : Path} (hp : path.neutral = true)
    (f' : Option File) (hholders : ∀ f who, f' = some f → who ∉ f.holders)
    (hnew : ∀ f, f' = some f → w.MayCreate path) : Files (w.setFile path f') := by
  refine h.setFile path f' ?_ ?_ (fun f who hf hwho => absurd hwho (hholders f who hf))
    (fun f pid hf hpid => absurd hpid (hholders f _ hf)) ?_ hnew
  · rintro rfl
    cases hp
  · rintro wk _ rfl
    cases hp
  · rintro id rfl
    cases hp

/-- A neutral file is held by no one. -/
theorem Files.neutral_holders (h : Files w) {path : Path} (hp : path.neutral = true) {f : File}
    (hf : w.file path = some f) (who : Holder) : who ∉ f.holders := by
  intro hmem
  obtain ⟨id, rfl⟩ := h.locked path f who hf hmem
  cases hp

/-- Ghost events are not files. -/
theorem Files.log (h : Files w) (event : Event) : Files (w.log event) :=
  ⟨h.state, h.pids, h.ids, h.daemonPid, h.lock, h.locked, h.holders, h.result, h.published,
    h.known, h.pidFits, h.pidsFit, h.artifacts⟩

theorem Files.overlooked (h : Files w) (path : Path) : Files (w.overlooked path) :=
  ⟨h.state, h.pids, h.ids, h.daemonPid, h.lock, h.locked, h.holders, h.result, h.published,
    h.known, h.pidFits, h.pidsFit, h.artifacts⟩

/-- Changes outside the workers' own files leave their programs safe. -/
theorem Workers.congr (h : Workers w) (hworkers : w'.workers = w.workers)
    (hview : ∀ wk ∈ w.workers, w'.workerView wk = w.workerView wk) : Workers w' := by
  intro wk hwk
  rw [hworkers] at hwk
  rw [hview wk hwk]
  exact h wk hwk

theorem Workers.setFile (h : Workers w) {path : Path} {f' : Option File}
    (hp : ∀ wk ∈ w.workers, path ≠ .job wk.job.id (.tmp wk.pid)) :
    Workers (w.setFile path f') := by
  refine h.congr rfl fun wk hwk => ?_
  simp only [World.workerView, World.setFile_published]
  rw [World.dataAt_setFile_of_ne _ _ _ (Ne.symm (hp wk hwk))]

theorem World.Sound.log (h : w.Sound) (event : Event) : (w.log event).Sound :=
  ⟨h.files.log event, h.workers⟩

theorem World.Sound.overlooked (h : w.Sound) (path : Path) : (w.overlooked path).Sound :=
  ⟨h.files.overlooked path, h.workers⟩

theorem HeldOnly.setFile {P : Path → Prop} (h : HeldOnly P w) {path : Path} {f' : Option File}
    (hf' : ∀ f, f' = some f → .daemon ∈ f.holders → P path) : HeldOnly P (w.setFile path f') := by
  intro p f hf hmem
  by_cases hp : p = path
  · rw [hp, World.setFile_same] at hf
    rw [hp]
    exact hf' f hf hmem
  · rw [World.setFile_of_ne _ _ _ hp] at hf
    exact h p f hf hmem

end Xlurm
