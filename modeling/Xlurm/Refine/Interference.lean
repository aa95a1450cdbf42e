/-
  Xlurm.Refine.Interference

  What workers do to the world while the daemon waits: they preserve the
  invariant of the machine, take only steps of the ledger, and leave alone
  everything the daemon is working on (`Beside`).
-/

import Xlurm.Os.System
import Xlurm.Refine.World

namespace Xlurm

variable {w w₁ w' w'' : World} {L₀ : Ledger} {mem : Option Store}

/-- One step of a process other than the daemon. -/
inductive Interferes (w : World) : World → Prop
  | step (pid : Nat) (env : (c : Sys) → c.Raw) : Interferes w (System.workerStep w pid env)
  | kill (pid : Nat) : Interferes w (w.killed pid)
  | output (wk : Worker) (bytes : List UInt8) (h : wk ∈ w.workers) :
      Interferes w (w.printed wk.job bytes)

/-- A worker makes its next call, or nothing happens. -/
inductive WorkerMoves (w : World) (pid : Nat) : World → Prop
  | stays : WorkerMoves w pid w
  | calls {job : Job} {s : Unit} {c : Sys}
      {k : c.Reply → Prog Unit Sys Sys.Reply (Except Error Unit)} {raw : c.Raw} {r : c.Reply}
      {w₁ : World} (mem : ⟨pid, job, .call s c k⟩ ∈ w.workers)
      (exec : c.exec (.worker pid) w raw = some (r, w₁)) :
      WorkerMoves w pid { w₁ with workers := w₁.workers.map fun wk =>
        if wk.pid = pid then ⟨pid, job, k r⟩ else wk }

theorem workerStep_moves (w : World) (pid : Nat) (env : (c : Sys) → c.Raw) :
    WorkerMoves w pid (System.workerStep w pid env) := by
  unfold System.workerStep
  split
  · rename_i wpid job s c k hfind
    have hpid : wpid = pid := by simpa using List.find?_some hfind
    subst hpid
    split
    · rename_i r w₁ hexec
      exact WorkerMoves.calls (List.mem_of_find?_eq_some hfind) hexec
    · exact WorkerMoves.stays
  · exact WorkerMoves.stays

/-- The paths that only the daemon with process id `pid` writes. -/
def Path.ofDaemon (pid : Nat) : Path → Prop
  | .state | .stateTmp _ | .job _ .json | .job _ .cancel | .other _ => True
  | .job _ (.tmp p) => p = pid
  | .job _ .log | .job _ .lock | .job _ .result => False

/-- What the daemon can rely on when other processes have moved. -/
structure Beside (w w' : World) : Prop where
  pid : w'.pid = w.pid
  hist : w'.hist = w.hist
  misread : w.misread ⊆ w'.misread
  live : w'.live.Sublist w.live
  /-- Nobody else takes a lock in the daemon's name, or takes one away from it. -/
  held : ∀ P, HeldOnly P w → HeldOnly P w'
  holds : ∀ id f, w.file (.job id .lock) = some f → .daemon ∈ f.holders →
    ∃ f', w'.file (.job id .lock) = some f' ∧ .daemon ∈ f'.holders
  data : ∀ path, path.ofDaemon w.pid → w'.dataAt path = w.dataAt path
  /-- Without its worker, a job's result does not change. -/
  result : ∀ id, (∀ job ∈ w.live, job.id ≠ id) →
    w'.dataAt (.job id .result) = w.dataAt (.job id .result)
  /-- A job that does not run on disk gets no new files. -/
  absent : ∀ id ext, ¬ w.Runs id → w.file (.job id ext) = none → w'.file (.job id ext) = none

theorem World.disk_of_data {w w' : World} (h : w'.dataAt .state = w.dataAt .state) :
    w'.disk = w.disk := by
  rw [disk_eq, disk_eq, h]

theorem World.absent_setFile {path : Path} {f' : Option File}
    (hnew : ∀ f, f' = some f → w.MayCreate path) {id : Nat} {ext : Ext} (hruns : ¬ w.Runs id)
    (hnone : w.file (.job id ext) = none) : (w.setFile path f').file (.job id ext) = none := by
  by_cases hp : path = .job id ext
  · rw [← hp, setFile_same]
    cases f' with
    | none => rfl
    | some f =>
        rcases hnew f rfl id ext hp with hsome | ⟨hruns', _⟩
        · rw [hp, hnone] at hsome
          cases hsome
        · exact absurd hruns' hruns
  · rw [setFile_of_ne _ _ _ (Ne.symm hp)]
    exact hnone

namespace Beside

theorem refl (w : World) : Beside w w :=
  ⟨rfl, rfl, List.Subset.refl _, List.Sublist.refl _, fun _ h => h,
    fun _ f hf hd => ⟨f, hf, hd⟩, fun _ _ => rfl, fun _ _ => rfl, fun _ _ _ h => h⟩

theorem disk (h : Beside w w') : w'.disk = w.disk := World.disk_of_data (h.data .state trivial)

theorem trans (h : Beside w w') (h' : Beside w' w'') : Beside w w'' where
  pid := h'.pid.trans h.pid
  hist := h'.hist.trans h.hist
  misread := List.Subset.trans h.misread h'.misread
  live := h'.live.trans h.live
  held P hP := h'.held P (h.held P hP)
  holds id f hf hd := by
    obtain ⟨f', hf', hd'⟩ := h.holds id f hf hd
    exact h'.holds id f' hf' hd'
  data path hp := (h'.data path (h.pid ▸ hp)).trans (h.data path hp)
  result id hid :=
    (h'.result id fun job hj => hid job (h.live.subset hj)).trans (h.result id hid)
  absent id ext hruns hnone :=
    h'.absent id ext (fun hruns' => hruns (hruns'.congr h.disk.symm)) (h.absent id ext hruns hnone)

theorem meanwhile (h : Beside w w') : Meanwhile w.view w'.view :=
  ⟨h.disk, h.hist, h.live.subset⟩

theorem overlooked (w : World) (path : Path) : Beside w (w.overlooked path) :=
  ⟨rfl, rfl, List.subset_cons_self _ _, List.Sublist.refl _, fun _ h => h,
    fun _ f hf hd => ⟨f, hf, hd⟩, fun _ _ => rfl, fun _ _ => rfl, fun _ _ _ h => h⟩

/-- Writing a file that belongs to no one the daemon cares about. -/
theorem setFile {path : Path} {f' : Option File} (hp : ¬ path.ofDaemon w.pid)
    (hlock : ∀ id, path ≠ .job id .lock)
    (hresult : ∀ id, path = .job id .result → ∃ job ∈ w.live, job.id = id)
    (hheld : ∀ f, f' = some f → .daemon ∈ f.holders → ∃ f, w.file path = some f ∧
      .daemon ∈ f.holders)
    (hnew : ∀ f, f' = some f → w.MayCreate path) : Beside w (w.setFile path f') where
  pid := rfl
  hist := rfl
  misread := List.Subset.refl _
  live := List.Sublist.refl _
  held P hP := hP.setFile fun f hf hd => by
    obtain ⟨f₁, hf₁, hd₁⟩ := hheld f hf hd
    exact hP path f₁ hf₁ hd₁
  holds id f hf hd := by
    rw [World.setFile_of_ne _ _ _ (Ne.symm (hlock id))]
    exact ⟨f, hf, hd⟩
  data p hpd := by
    refine World.dataAt_setFile_of_ne _ _ _ ?_
    rintro rfl
    exact hp hpd
  result id hid := by
    refine World.dataAt_setFile_of_ne _ _ _ ?_
    rintro rfl
    obtain ⟨job, hj, hjid⟩ := hresult id rfl
    exact hid job hj hjid
  absent _ _ hruns hnone := World.absent_setFile hnew hruns hnone

end Beside

/-! ## The death of a worker -/

/-- Releasing locks changes no content. -/
theorem World.dataAt_released (w : World) (path : Path) (who : Holder) :
    (w.released who).dataAt path = w.dataAt path := by
  simp only [World.dataAt, World.released, Option.map_map]
  rfl

theorem World.dataAt_killed (w : World) (pid : Nat) (path : Path) :
    (w.killed pid).dataAt path = w.dataAt path :=
  World.dataAt_released w path (.worker pid)

theorem World.file_released {who : Holder} {path : Path} {f : File}
    (hf : (w.released who).file path = some f) :
    ∃ f₀, w.file path = some f₀ ∧ f.data = f₀.data ∧ f.holders = f₀.holders.filter (· ≠ who) := by
  obtain ⟨f₀, hf₀, rfl⟩ := Option.map_eq_some_iff.mp hf
  exact ⟨f₀, hf₀, rfl, rfl⟩

theorem World.disk_released (w : World) (who : Holder) : (w.released who).disk = w.disk :=
  World.disk_of_data (World.dataAt_released w .state who)

theorem Beside.killed (w : World) (pid : Nat) : Beside w (w.killed pid) where
  pid := rfl
  hist := rfl
  misread := List.Subset.refl _
  live := List.filter_sublist.map _
  held P hP path f hf hd := by
    obtain ⟨f₀, hf₀, _, hholders⟩ := World.file_released hf
    rw [hholders] at hd
    exact hP path f₀ hf₀ (List.mem_filter.mp hd).1
  holds id f hf hd := by
    refine ⟨{ f with holders := f.holders.filter (· ≠ .worker pid) }, ?_, ?_⟩
    · show (w.file _).map _ = _
      rw [hf]
      rfl
    · exact List.mem_filter.mpr ⟨hd, by simp⟩
  data path _ := World.dataAt_killed w pid path
  result id _ := World.dataAt_killed w pid _
  absent id ext _ hnone := by
    show (w.file (.job id ext)).map _ = none
    rw [hnone]
    rfl

/-- The kernel releases the locks of `who`; `workers` are all that are left. -/
theorem Files.release (h : Files w) (who : Holder) {workers : List Worker}
    (hsub : workers.Sublist w.workers) (hleft : ∀ wk ∈ workers, Holder.worker wk.pid ≠ who)
    (hstay : ∀ wk ∈ w.workers, Holder.worker wk.pid ≠ who → wk ∈ workers) :
    Files { w.released who with workers } where
  state f hf := by
    obtain ⟨f₀, hf₀, hdata, _⟩ := World.file_released hf
    rw [hdata]
    exact h.state f₀ hf₀
  pids := h.pids.sublist (hsub.map _)
  ids := h.ids.sublist (hsub.map _)
  daemonPid wk hwk := h.daemonPid wk (hsub.subset hwk)
  lock wk hwk := by
    -- The locks of `who` are released, those of the others stay.
    obtain ⟨f, hf, hholds⟩ := h.lock wk (hsub.subset hwk)
    refine ⟨{ f with holders := f.holders.filter (· ≠ who) }, ?_, ?_⟩
    · show (w.file _).map _ = _
      rw [hf]
      rfl
    · exact List.mem_filter.mpr ⟨hholds, by simpa using hleft wk hwk⟩
  locked path f other hf hother := by
    obtain ⟨f₀, hf₀, _, hholders⟩ := World.file_released hf
    rw [hholders] at hother
    exact h.locked path f₀ other hf₀ (List.mem_filter.mp hother).1
  holders path f pid hf hpid := by
    obtain ⟨f₀, hf₀, _, hholders⟩ := World.file_released hf
    rw [hholders] at hpid
    obtain ⟨hpid, hne⟩ := List.mem_filter.mp hpid
    obtain ⟨wk, hwk, rfl, hpath⟩ := h.holders path f₀ pid hf₀ hpid
    exact ⟨wk, hstay wk hwk (by simpa using hne), rfl, hpath⟩
  result id f hf := by
    obtain ⟨f₀, hf₀, hdata, _⟩ := World.file_released hf
    rw [hdata]
    exact h.result id f₀ hf₀
  published id outcome hpub job hj hid hrun := by
    have hdisk : World.disk { w.released who with workers } = w.disk :=
      World.disk_released w who
    rw [hdisk] at hj
    have hsome := h.published id outcome hpub job hj hid hrun
    simpa [World.released] using hsome
  known path f hf := by
    obtain ⟨f₀, hf₀, _, _⟩ := World.file_released hf
    exact h.known path f₀ hf₀
  pidFits := h.pidFits
  pidsFit wk hwk := h.pidsFit wk (hsub.subset hwk)
  artifacts id ext f hf := by
    obtain ⟨f₀, hf₀, _, _⟩ := World.file_released hf
    have hdisk : World.disk { w.released who with workers } = w.disk :=
      World.disk_released w who
    rw [hdisk]
    exact h.artifacts id ext f₀ hf₀

theorem Files.killed (h : Files w) (pid : Nat) : Files (w.killed pid) := by
  refine h.release (.worker pid) List.filter_sublist ?_ ?_
  · intro wk hwk heq
    have hne := (List.mem_filter.mp hwk).2
    simp [Holder.worker.inj heq] at hne
  · intro wk hwk hne
    exact List.mem_filter.mpr ⟨hwk, by simpa using hne⟩

theorem Workers.killed (h : Workers w) (pid : Nat) : Workers (w.killed pid) := by
  intro wk hwk
  have hview : (w.killed pid).workerView wk = w.workerView wk := by
    simp only [World.workerView, World.dataAt_killed]
    rfl
  rw [hview]
  exact h wk (List.mem_filter.mp hwk).1

/-! ## Files under a process's pen -/

namespace World

theorem created_eq (w : World) (path : Path) :
    ∃ holders, w.created path = w.setFile path (some ⟨.empty, holders⟩) ∧
      ∀ who ∈ holders, ∃ f, w.file path = some f ∧ who ∈ f.holders := by
  cases hf : w.file path with
  | none =>
      refine ⟨[], ?_, by rintro _ ⟨⟩⟩
      simp only [created, hf]
  | some f =>
      refine ⟨f.holders, ?_, fun who hwho => ⟨f, rfl, hwho⟩⟩
      simp only [created, hf]

theorem written_eq (w : World) (path : Path) (piece : Piece) :
    (w.file path = none ∧ w.written path piece = w) ∨
      ∃ f, w.file path = some f ∧
        w.written path piece = w.setFile path (some ⟨f.data.append piece, f.holders⟩) := by
  cases hf : w.file path with
  | none => exact Or.inl ⟨rfl, by simp only [written, hf]⟩
  | some f => exact Or.inr ⟨f, rfl, by simp only [written, hf]⟩

theorem printed_eq (w : World) (job : Job) (bytes : List UInt8) :
    w.printed job bytes = w ∨
      ∃ f data, w.file (.job job.id .log) = some f ∧
        w.printed job bytes = w.setFile (.job job.id .log) (some ⟨data, f.holders⟩) := by
  unfold printed
  split
  · rename_i old holders hf
    exact Or.inr ⟨_, _, hf, rfl⟩
  · exact Or.inl rfl

theorem renamed_result (w : World) (source : Path) (id : Nat) {f : File} {outcome : Outcome}
    (hf : f.data = .whole (.outcome outcome)) :
    w.renamed source (.job id .result) f =
      { (w.setFile source none).setFile (.job id .result) (some f) with
        published := (id, outcome) :: w.published } := by
  simp [renamed, publish, hf, Data.outcome?]

/-- The path of the temporary of a worker. -/
theorem workerView_setFile_of_ne (w : World) (wk : Worker) (path : Path) (f' : Option File)
    (h : path ≠ .job wk.job.id (.tmp wk.pid)) : (w.setFile path f').workerView wk =
      w.workerView wk := by
  simp only [workerView, setFile_published, dataAt_setFile_of_ne _ _ _ (Ne.symm h)]

theorem workerView_setFile_same (w : World) {wk : Worker} {path : Path} (f : File)
    (h : path = .job wk.job.id (.tmp wk.pid)) : (w.setFile path (some f)).workerView wk =
      { w.workerView wk with temp := some f.data } := by
  subst h
  simp only [workerView, setFile_published, dataAt, setFile_same]
  rfl

end World

theorem Files.renamedResult (h : Files w) {wk : Worker} {f : File} {outcome : Outcome}
    (hf : w.file (.job wk.job.id (.tmp wk.pid)) = some f)
    (hdata : f.data = .whole (.outcome outcome)) :
    Files (w.renamed (.job wk.job.id (.tmp wk.pid)) (.job wk.job.id .result) f) := by
  rw [World.renamed_result _ _ _ hdata]
  have hother : ∀ p : Path, p ≠ .job wk.job.id (.tmp wk.pid) → p ≠ .job wk.job.id .result →
      ((w.setFile (.job wk.job.id (.tmp wk.pid)) none).setFile (.job wk.job.id .result)
        (some f)).file p = w.file p := by
    intro p hsource htarget
    rw [World.setFile_of_ne _ _ _ htarget, World.setFile_of_ne _ _ _ hsource]
  -- A file is the new result, or it was there before.
  have hcases : ∀ (p : Path) (f₁ : File),
      ((w.setFile (.job wk.job.id (.tmp wk.pid)) none).setFile (.job wk.job.id .result)
        (some f)).file p = some f₁ →
      (p = .job wk.job.id .result ∧ f₁ = f) ∨ (p ≠ .job wk.job.id .result ∧ w.file p = some f₁) := by
    intro p f₁ hf₁
    rcases World.setFile_cases hf₁ with ⟨hp, hnew⟩ | ⟨hp, hold⟩
    · exact Or.inl ⟨hp, (Option.some.inj hnew).symm⟩
    · rcases World.setFile_cases hold with ⟨_, hgone⟩ | ⟨_, hold⟩
      · cases hgone
      · exact Or.inr ⟨hp, hold⟩
  -- The new result has no holders, so a held file was there before.
  have hheld : ∀ (p : Path) (f₁ : File) (who : Holder),
      ((w.setFile (.job wk.job.id (.tmp wk.pid)) none).setFile (.job wk.job.id .result)
        (some f)).file p = some f₁ → who ∈ f₁.holders → w.file p = some f₁ := by
    intro p f₁ who hf₁ hwho
    rcases hcases p f₁ hf₁ with ⟨_, rfl⟩ | ⟨_, hold⟩
    · exact absurd hwho (h.neutral_holders rfl hf who)
    · exact hold
  have hdisk : World.disk
      { (w.setFile (.job wk.job.id (.tmp wk.pid)) none).setFile (.job wk.job.id .result)
        (some f) with published := (wk.job.id, outcome) :: w.published } = w.disk := by
    simp only [World.disk]
    rw [hother _ (by simp) (by simp)]
  refine ⟨?_, h.pids, h.ids, h.daemonPid, ?_, ?_, ?_, ?_, ?_, ?_, h.pidFits, h.pidsFit, ?_⟩
  · intro f₁ hf₁
    rw [hother _ (by simp) (by simp)] at hf₁
    exact h.state f₁ hf₁
  · intro wk₁ hwk₁
    rw [hother _ (by simp) (by simp)]
    exact h.lock wk₁ hwk₁
  · exact fun p f₁ who hf₁ hwho => h.locked p f₁ who (hheld p f₁ who hf₁ hwho) hwho
  · exact fun p f₁ pid hf₁ hpid => h.holders p f₁ pid (hheld p f₁ _ hf₁ hpid) hpid
  · intro id f₁ hf₁
    rcases hcases (.job id .result) f₁ hf₁ with ⟨hp, rfl⟩ | ⟨_, hold⟩
    · cases hp
      exact ⟨outcome, hdata, List.mem_cons_self⟩
    · obtain ⟨outcome₁, hdata₁, hpub⟩ := h.result id f₁ hold
      exact ⟨outcome₁, hdata₁, List.mem_cons_of_mem _ hpub⟩
  · intro id outcome₁ hpub job hj hid hrun
    by_cases hwk : id = wk.job.id
    · subst hwk
      simp only [World.setFile_same]
      rfl
    · rw [hother _ (by simp) (by simpa using hwk)]
      rw [hdisk] at hj
      rcases List.mem_cons.mp hpub with heq | hpub
      · cases heq
        exact absurd rfl hwk
      · exact h.published id outcome₁ hpub job hj hid hrun
  · intro p f₁ hf₁
    rcases hcases p f₁ hf₁ with ⟨rfl, _⟩ | ⟨_, hold⟩
    · exact List.mem_cons_self
    · exact List.mem_cons_of_mem _ (List.mem_cons_of_mem _ (h.known p f₁ hold))
  · intro id ext f₁ hf₁
    rw [hdisk]
    rcases hcases (.job id ext) f₁ hf₁ with ⟨hp, rfl⟩ | ⟨_, hold⟩
    · cases hp
      exact ⟨(h.artifacts _ _ _ hf).1, trivial⟩
    · exact h.artifacts id ext f₁ hold

/-! ## A call of a worker -/

/-- The job of a live worker runs on disk. -/
theorem live_runs (hr : Reach L₀ ⟨mem, w.view⟩) {wk : Worker} (hwk : wk ∈ w.workers) :
    w.Runs wk.job.id := by
  obtain ⟨hrun, hdisk, _⟩ := hr.inv.live wk.job (List.mem_map_of_mem hwk)
  exact ⟨wk.job, hdisk, rfl, hrun⟩

theorem temporary_mayCreate (h : w.Sound) (hr : Reach L₀ ⟨mem, w.view⟩) {wk : Worker}
    (hwk : wk ∈ w.workers) : w.MayCreate (.job wk.job.id (.tmp wk.pid)) :=
  World.MayCreate.of_runs (live_runs hr hwk) (h.files.pidsFit wk hwk)

/-- What a call of the worker `wk` does. -/
structure Moved (L₀ : Ledger) (mem : Option Store) (w : World) (wk : Worker) (c : Sys)
    (r : c.Reply) (w₁ : World) : Prop where
  files : Files w₁
  workers : w₁.workers = w.workers
  others : ∀ other ∈ w.workers, other.pid ≠ wk.pid → w₁.workerView other = w.workerView other
  effect : workerEffect c (w.workerView wk) r (w₁.workerView wk)
  reach : Reach L₀ ⟨mem, w₁.view⟩
  beside : Beside w w₁

theorem Moved.still (h : w.Sound) (hr : Reach L₀ ⟨mem, w.view⟩) {wk : Worker} {c : Sys}
    {r : c.Reply} (heffect : workerEffect c (w.workerView wk) r (w.workerView wk)) :
    Moved L₀ mem w wk c r w :=
  ⟨h.files, rfl, fun _ _ _ => rfl, heffect, hr, Beside.refl w⟩

theorem Moved.overlooked (h : w.Sound) (hr : Reach L₀ ⟨mem, w.view⟩) {wk : Worker} (path : Path)
    {r : Bool} : Moved L₀ mem w wk (.pathExists path) r (w.overlooked path) :=
  ⟨h.files.overlooked path, rfl, fun _ _ _ => rfl, rfl, hr.step (Step.misread mem w.view path),
    Beside.overlooked w path⟩

/-- The worker changes its own temporary. -/
theorem Moved.temporary (h : w.Sound) (hr : Reach L₀ ⟨mem, w.view⟩) {wk : Worker}
    (hwk : wk ∈ w.workers) {c : Sys} {r : c.Reply} (f' : File)
    (hheld : ∀ who ∈ f'.holders, ∃ f, w.file (.job wk.job.id (.tmp wk.pid)) = some f ∧
      who ∈ f.holders)
    (heffect : workerEffect c (w.workerView wk) r
      { w.workerView wk with temp := some f'.data }) :
    Moved L₀ mem w wk c r (w.setFile (.job wk.job.id (.tmp wk.pid)) (some f')) where
  files := by
    refine h.files.setNeutral rfl _ ?_ fun _ _ => temporary_mayCreate h hr hwk
    rintro _ who ⟨⟩ hmem
    obtain ⟨f, hf, hf'⟩ := hheld who hmem
    exact h.files.neutral_holders rfl hf who hf'
  workers := rfl
  others other _ hne := by
    refine World.workerView_setFile_of_ne _ _ _ _ ?_
    intro heq
    simp only [Path.job.injEq, Ext.tmp.injEq] at heq
    exact hne heq.2.symm
  effect := by
    rw [World.workerView_setFile_same _ _ rfl]
    exact heffect
  reach := by
    rw [World.view_setFile _ _ _ (by simp)]
    exact hr
  beside := by
    refine Beside.setFile (h.files.daemonPid wk hwk) (by simp) (by simp) ?_
      fun _ _ => temporary_mayCreate h hr hwk
    rintro _ ⟨⟩ hd
    exact hheld _ hd

theorem Moved.published (h : w.Sound) (hr : Reach L₀ ⟨mem, w.view⟩) {wk : Worker}
    (hwk : wk ∈ w.workers) {f : File} {outcome : Outcome}
    (hf : w.file (.job wk.job.id (.tmp wk.pid)) = some f)
    (hdata : f.data = .whole (.outcome outcome)) (hproduced : outcome.Produced)
    (hdone : (w.workerView wk).done = false) :
    Moved L₀ mem w wk (.rename (.job wk.job.id (.tmp wk.pid)) (.job wk.job.id .result)) (.ok ())
      (w.renamed (.job wk.job.id (.tmp wk.pid)) (.job wk.job.id .result) f) := by
  -- `done` is false, so nothing has been published for this job.
  have hfirst : ∀ o, (wk.job.id, o) ∉ w.published := by
    intro o ho
    have hany : w.published.any (·.1 == wk.job.id) = true :=
      List.any_eq_true.mpr ⟨_, ho, by simp⟩
    rw [World.workerView] at hdone
    simp only [hany] at hdone
    cases hdone
  have hlive : ∃ job ∈ w.live, job.id = wk.job.id := ⟨wk.job, List.mem_map_of_mem hwk, rfl⟩
  have hfiles := h.files.renamedResult hf hdata
  rw [World.renamed_result _ _ _ hdata] at hfiles ⊢
  have hview : World.view
      { (w.setFile (.job wk.job.id (.tmp wk.pid)) none).setFile (.job wk.job.id .result)
        (some f) with published := (wk.job.id, outcome) :: w.published } =
      { w.view with published := (wk.job.id, outcome) :: w.published } := by
    have h₁ := World.view_setFile w (.job wk.job.id (.tmp wk.pid)) none (by simp)
    have h₂ := World.view_setFile (w.setFile (.job wk.job.id (.tmp wk.pid)) none)
      (.job wk.job.id .result) (some f) (by simp)
    rw [h₁] at h₂
    rw [← h₂]
    rfl
  refine ⟨hfiles, rfl, ?_, ?_, ?_, ?_⟩
  · intro other hother hne
    -- Workers are for different jobs, so the others do not notice.
    have hid : other.job.id ≠ wk.job.id := by
      intro heq
      have := List.inj_on_of_nodup_map h.files.ids hother hwk heq
      exact hne (congrArg Worker.pid this)
    have hdata' : World.dataAt ((w.setFile (.job wk.job.id (.tmp wk.pid)) none).setFile
        (.job wk.job.id .result) (some f)) (.job other.job.id (.tmp other.pid)) =
        w.dataAt (.job other.job.id (.tmp other.pid)) := by
      rw [World.dataAt_setFile_of_ne _ _ _ (by simp), World.dataAt_setFile_of_ne]
      intro heq
      simp only [Path.job.injEq] at heq
      exact hid heq.1
    simp only [World.workerView]
    refine congrArg₂ WorkerView.mk hdata' ?_
    simp only [List.any_cons]
    rw [beq_eq_false_iff_ne.mpr (Ne.symm hid), Bool.false_or]
  · show List.any ((wk.job.id, outcome) :: w.published) (·.1 == wk.job.id) = true
    simp
  · rw [hview]
    exact hr.step (Step.publish mem w.view wk.job.id outcome hlive hfirst hproduced)
  -- The rename takes the temporary away and puts the result in place.
  · have h₁ : Beside w (w.setFile (.job wk.job.id (.tmp wk.pid)) none) :=
      Beside.setFile (h.files.daemonPid wk hwk) (by simp) (by simp) (by rintro _ ⟨⟩)
        (by rintro _ ⟨⟩)
    have h₂ : Beside (w.setFile (.job wk.job.id (.tmp wk.pid)) none)
        ((w.setFile (.job wk.job.id (.tmp wk.pid)) none).setFile (.job wk.job.id .result)
          (some f)) := by
      refine Beside.setFile (fun hd => hd) (by simp) ?_ ?_ ?_
      · rintro id heq
        simp only [Path.job.injEq, and_true] at heq
        exact heq ▸ hlive
      · rintro _ ⟨⟩ hd
        exact absurd hd (h.files.neutral_holders rfl hf _)
      · have hruns := (live_runs hr hwk).congr h₁.disk
        exact fun _ _ => World.MayCreate.of_runs hruns trivial
    have h₃ := h₁.trans h₂
    exact ⟨h₃.pid, h₃.hist, h₃.misread, h₃.live, h₃.held, h₃.holds, h₃.data, h₃.result, h₃.absent⟩

/-- A worker that keeps to its guard does what workers may do. -/
theorem worker_exec (h : w.Sound) (hr : Reach L₀ ⟨mem, w.view⟩) {wk : Worker}
    (hwk : wk ∈ w.workers) {c : Sys} {raw : c.Raw} {r : c.Reply}
    (hguard : workerGuard wk.pid wk.job.id c (w.workerView wk))
    (hexec : c.exec (.worker wk.pid) w raw = some (r, w₁)) : Moved L₀ mem w wk c r w₁ := by
  cases c with
  | create path =>
      obtain rfl : path = .job wk.job.id (.tmp wk.pid) := hguard
      cases raw with
      | some e =>
          cases hexec
          exact Moved.still h hr rfl
      | none =>
          cases hexec
          obtain ⟨holders, heq, hheld⟩ := w.created_eq (.job wk.job.id (.tmp wk.pid))
          rw [heq]
          exact Moved.temporary h hr hwk ⟨.empty, holders⟩ hheld rfl
  | write path piece =>
      obtain rfl : path = .job wk.job.id (.tmp wk.pid) := hguard
      cases raw with
      | some e =>
          cases hexec
          exact Moved.still h hr rfl
      | none =>
          cases hexec
          rcases w.written_eq (.job wk.job.id (.tmp wk.pid)) piece with ⟨hnone, heq⟩ |
            ⟨f, hf, heq⟩
          · rw [heq]
            refine Moved.still h hr ?_
            show w.workerView wk = _
            simp [World.workerView, World.dataAt, hnone]
          · rw [heq]
            refine Moved.temporary h hr hwk ⟨f.data.append piece, f.holders⟩
              (fun who hwho => ⟨f, hf, hwho⟩) ?_
            show _ = _
            simp [World.workerView, World.dataAt, hf]
  | rename source target =>
      obtain ⟨rfl, rfl, hdone, outcome, htemp, hproduced⟩ := hguard
      cases raw with
      | some e =>
          cases hexec
          exact Moved.still h hr rfl
      | none =>
          cases hf : w.file (.job wk.job.id (.tmp wk.pid)) with
          | none =>
              simp only [Sys.exec, hf] at hexec
              cases hexec
              exact Moved.still h hr rfl
          | some f =>
              simp only [Sys.exec, hf] at hexec
              cases hexec
              have hdata : f.data = .whole (.outcome outcome) := by
                simpa [World.workerView, World.dataAt, hf] using htemp
              exact Moved.published h hr hwk hf hdata hproduced hdone
  | pathExists path =>
      cases exec_changes hexec with
      | nothing => exact Moved.still h hr rfl
      | pathExists => exact Moved.overlooked h hr path
  -- The other calls that a worker may make change no file.
  | now | ask | fsync | syncDir | read =>
      cases exec_changes hexec with
      | nothing => exact Moved.still h hr rfl
  | hang => cases hexec
  | _ => cases hguard

/-! ## Steps of other processes -/

/-- What identifies a worker, apart from how far it is. -/
def Worker.ident (wk : Worker) : Nat × Job := (wk.pid, wk.job)

theorem Files.advance (h : Files w) {workers : List Worker}
    (hident : workers.map Worker.ident = w.workers.map Worker.ident) :
    Files { w with workers } := by
  have hpid : workers.map (·.pid) = w.workers.map (·.pid) := by
    have := congrArg (List.map Prod.fst) hident
    simpa [Worker.ident, Function.comp_def] using this
  have hid : workers.map (·.job.id) = w.workers.map (·.job.id) := by
    have := congrArg (List.map fun p : Nat × Job => p.2.id) hident
    simpa [Worker.ident, Function.comp_def] using this
  have hmem : ∀ wk ∈ workers, ∃ wk' ∈ w.workers, wk'.pid = wk.pid ∧ wk'.job = wk.job := by
    intro wk hwk
    have hin : wk.ident ∈ w.workers.map Worker.ident := hident ▸ List.mem_map_of_mem hwk
    obtain ⟨wk', hwk', heq⟩ := List.mem_map.mp hin
    exact ⟨wk', hwk', congrArg Prod.fst heq, congrArg Prod.snd heq⟩
  refine ⟨h.state, hpid ▸ h.pids, hid ▸ h.ids, ?_, ?_, h.locked, ?_, h.result, h.published,
    h.known, h.pidFits, ?_, h.artifacts⟩
  · intro wk hwk
    obtain ⟨wk', hwk', hp, _⟩ := hmem wk hwk
    exact hp ▸ h.daemonPid wk' hwk'
  · intro wk hwk
    obtain ⟨wk', hwk', hp, hj⟩ := hmem wk hwk
    have hlock := h.lock wk' hwk'
    rw [hp, hj] at hlock
    exact hlock
  · intro path f pid hf hheld
    obtain ⟨wk', hwk', hp, hpath⟩ := h.holders path f pid hf hheld
    have hin : wk'.ident ∈ workers.map Worker.ident := hident ▸ List.mem_map_of_mem hwk'
    obtain ⟨wk, hwk, heq⟩ := List.mem_map.mp hin
    simp only [Worker.ident, Prod.mk.injEq] at heq
    exact ⟨wk, hwk, heq.1.trans hp, by rw [heq.2]; exact hpath⟩
  · intro wk hwk
    obtain ⟨wk', hwk', hp, _⟩ := hmem wk hwk
    exact hp ▸ h.pidsFit wk' hwk'

/-- The worker `wk` has taken one step, and its program goes on as `prog`. -/
theorem Moved.advance {wk : Worker} {c : Sys} {r : c.Reply} (h : w.Sound)
    (hwk : wk ∈ w.workers) (hm : Moved L₀ mem w wk c r w₁)
    (prog : Prog Unit Sys Sys.Reply (Except Error Unit))
    (hprog : ∀ v, workerEffect c (w.workerView wk) r v →
      prog.Safe (workerSpec wk.pid wk.job.id) (fun _ _ _ => True) v) :
    World.Sound { w₁ with workers := w₁.workers.map fun wk' =>
        if wk'.pid = wk.pid then ⟨wk.pid, wk.job, prog⟩ else wk' } ∧
      World.live { w₁ with workers := w₁.workers.map fun wk' =>
        if wk'.pid = wk.pid then ⟨wk.pid, wk.job, prog⟩ else wk' } = w.live := by
  -- Pids are unique, so only `wk` itself gets the new program.
  have hsame : ∀ wk' ∈ w.workers, wk'.pid = wk.pid → wk' = wk := fun wk' hwk' hp =>
    List.inj_on_of_nodup_map h.files.pids hwk' hwk hp
  have hident : (w₁.workers.map fun wk' =>
      if wk'.pid = wk.pid then ⟨wk.pid, wk.job, prog⟩ else wk').map Worker.ident =
      w₁.workers.map Worker.ident := by
    rw [List.map_map]
    refine List.map_congr_left fun wk' hwk' => ?_
    simp only [Function.comp_apply]
    split
    · rename_i hp
      rw [hsame wk' (hm.workers ▸ hwk') hp]
      rfl
    · rfl
  refine ⟨⟨hm.files.advance hident, ?_⟩, ?_⟩
  · intro wk₁ hwk₁
    obtain ⟨wk', hwk', rfl⟩ := List.mem_map.mp hwk₁
    rw [hm.workers] at hwk'
    split
    · exact hprog _ hm.effect
    · rename_i hne
      have hview := hm.others wk' hwk' hne
      have hsafe := h.workers wk' hwk'
      rw [← hview] at hsafe
      exact hsafe
  · have hjobs := congrArg (List.map Prod.snd) hident
    simp only [List.map_map] at hjobs
    simp only [World.live, List.map_map]
    rw [← hm.workers]
    exact hjobs

/-- Steps of other processes preserve the invariant and are steps of the ledger. -/
theorem Interferes.sound (hi : Interferes w w') (h : w.Sound) (hr : Reach L₀ ⟨mem, w.view⟩) :
    w'.Sound ∧ Reach L₀ ⟨mem, w'.view⟩ ∧ Beside w w' := by
  have hstay : w.Sound ∧ Reach L₀ ⟨mem, w.view⟩ ∧ Beside w w := ⟨h, hr, Beside.refl w⟩
  cases hi with
  | step pid env =>
      have hmoves := workerStep_moves w pid env
      generalize System.workerStep w pid env = next at hmoves
      cases hmoves with
      | stays => exact hstay
      | @calls job _ c k _ r w₁ hwk hexec =>
          -- The worker's program is safe: its next call keeps to the guard, and so does the rest.
          obtain ⟨hguard, hnext⟩ := h.workers _ hwk
          have hm := worker_exec h hr hwk hguard hexec
          obtain ⟨hsound, hlive⟩ := hm.advance h hwk (k r) fun v hv => hnext r v hv
          refine ⟨hsound, ?_, ?_⟩
          · have hview := hm.reach
            have heq : World.view { w₁ with workers := w₁.workers.map fun wk' =>
                if wk'.pid = pid then ⟨pid, job, k r⟩ else wk' } = w₁.view := by
              have hlive₁ : w₁.live = w.live := by
                simp only [World.live, hm.workers]
              simp only [World.view, World.disk]
              rw [hlive, hlive₁]
            rw [heq]
            exact hview
          · have hb := hm.beside
            exact ⟨hb.pid, hb.hist, hb.misread, hlive ▸ List.Sublist.refl _, hb.held, hb.holds,
              hb.data, hb.result, hb.absent⟩
  | kill pid =>
      -- What a worker leaves behind at its death is the published result, if any.
      refine ⟨⟨h.files.killed pid, h.workers.killed pid⟩, ?_, Beside.killed w pid⟩
      have hdisk : (w.killed pid).disk = w.disk := World.disk_released _ _
      have heq : (w.killed pid).view = { w.view with live := (w.killed pid).live } := by
        simp only [World.view, hdisk]
        rfl
      rw [heq]
      exact hr.step (Step.die mem w.view _ (List.filter_sublist.map _))
  | output wk bytes hwk =>
      rcases w.printed_eq wk.job bytes with heq | ⟨f, data, hf, heq⟩
      · rw [heq]
        exact hstay
      · rw [heq]
        refine ⟨⟨?_, ?_⟩, ?_, ?_⟩
        · refine h.files.setNeutral rfl _ ?_ fun _ _ => World.MayCreate.of_file hf
          rintro _ who ⟨⟩
          exact h.files.neutral_holders rfl hf who
        · exact h.workers.setFile (by simp)
        · rw [World.view_setFile _ _ _ (by simp)]
          exact hr
        · refine Beside.setFile (fun hd => hd) (by simp) (by simp) ?_
            fun _ _ => World.MayCreate.of_file hf
          rintro _ ⟨⟩ hd
          exact ⟨f, hf, hd⟩

/-- The same for any number of steps. -/
theorem interference_sound (hi : Relation.ReflTransGen Interferes w w') (h : w.Sound)
    (hr : Reach L₀ ⟨mem, w.view⟩) :
    w'.Sound ∧ Reach L₀ ⟨mem, w'.view⟩ ∧ Beside w w' := by
  induction hi with
  | refl => exact ⟨h, hr, Beside.refl w⟩
  | tail _ hstep ih =>
      obtain ⟨h₁, hr₁, hb₁⟩ := ih
      obtain ⟨h₂, hr₂, hb₂⟩ := hstep.sound h₁ hr₁
      exact ⟨h₂, hr₂, hb₁.trans hb₂⟩

/-! ## Files that are not seen -/

theorem exec_misread {who : Holder} {c : Sys} {raw : c.Raw} {r : c.Reply}
    (hexec : c.exec who w raw = some (r, w')) : w.misread ⊆ w'.misread := by
  have same : w'.misread = w.misread → w.misread ⊆ w'.misread :=
    fun heq => heq ▸ List.Subset.refl _
  cases exec_changes hexec with
  | nothing | unlink | note => exact same rfl
  | pathExists => exact List.subset_cons_self _ _
  | @create path =>
      obtain ⟨holders, heq, _⟩ := w.created_eq path
      exact same (by rw [heq]; rfl)
  | @write path piece =>
      rcases w.written_eq path piece with ⟨_, heq⟩ | ⟨f, _, heq⟩
      · exact same (by rw [heq])
      · exact same (by rw [heq]; rfl)
  | rename =>
      apply same
      unfold World.renamed World.publish
      split <;> rfl
  | @flock path =>
      apply same
      unfold World.flocked
      cases w.file path with
      | none => rfl
      | some f => dsimp only; split <;> rfl
  | @close path =>
      apply same
      unfold World.closed
      split <;> rfl
  | @openAppend path =>
      apply same
      unfold World.touched
      split <;> rfl
  | @spawn pid fuel job =>
      apply same
      unfold World.spawned
      split
      · rfl
      · dsimp only
        split <;> rfl

theorem Interferes.misread (hi : Interferes w w') : w.misread ⊆ w'.misread := by
  cases hi with
  | step pid env =>
      have hmoves := workerStep_moves w pid env
      generalize System.workerStep w pid env = next at hmoves
      cases hmoves with
      | stays => exact List.Subset.refl _
      | calls mem exec =>
          have hsub := exec_misread exec
          exact hsub
  | kill pid => exact List.Subset.refl _
  | output wk bytes hwk =>
      rcases w.printed_eq wk.job bytes with heq | ⟨f, data, _, heq⟩
      · rw [heq]
        exact List.Subset.refl _
      · rw [heq]
        exact List.Subset.refl _

end Xlurm
