/-
  Xlurm.Refine.Executor

  The daemon's system calls: every call of the scheduler's contract is kept by
  the program that carries it out.

  The heart is the lock of a job.  `start` and `poll` hold it while they look at
  or create the worker; a worker that is alive makes `flock` fail, and a lock
  that was free shows that no worker is left to change the result.
-/

import Xlurm.Refine.Interference

namespace Xlurm

open Prog.Comp
open Relation (ReflTransGen)

variable {w w₁ w' w'' : World} {L₀ : Ledger} {s : Scheduler} {e : ProcessExecutor}
  {α β : Type}

/-! ## The daemon's system calls -/

/-- The daemon's temporaries. -/
def Path.ownTemp (pid : Nat) : Path → Prop
  | .stateTmp p | .job _ (.tmp p) => p = pid
  | _ => False

/-- The files that the daemon, with `m` in memory, may replace: a marker only for a peer who
    may cancel the job. -/
def Hist.MayReplace (hist : Hist) (m : Store) : Path → Prop
  | .state | .job _ .json => True
  | .job id .cancel => ∃ job ∈ m.jobs, job.id = id ∧ hist.MayCancel job
  | _ => False

/-- The calls that write, lock or open files do so on files of their kind. -/
def Sys.Allowed (pid : Nat) (m : Store) (hist : Hist) : Sys → Prop
  | create path | write path _ => path.ownTemp pid
  | rename source target => source.ownTemp pid ∧ hist.MayReplace m target
  | flock path => ∃ id, path = .job id .lock
  | openAppend path => ∃ id, path = .job id .log
  | _ => True

/-- At every system call of the daemon the machine is sound, the ledger reachable,
    and the call allowed; workers may move before the call takes effect. -/
def osSpec (L₀ : Ledger) : Prog.Spec (Scheduler × ProcessExecutor) Sys Sys.Reply World where
  pre c st w := w.Sound ∧ Reach L₀ ⟨some st.1.store, w.view⟩ ∧ c.Allowed w.pid st.1.store w.hist
  post c _ w r w' :=
    ∃ w₁ raw, ReflTransGen Interferes w w₁ ∧ c.exec .daemon w₁ raw = some (r, w')

/-- `osSpec` for a handler that runs while the scheduler is in state `s`. -/
abbrev handlerSpec (L₀ : Ledger) (s : Scheduler) : Prog.Spec ProcessExecutor Sys Sys.Reply World :=
  (osSpec L₀).comap fun e => (s, e)

/-- What a handler leaves alone until it says otherwise. -/
structure Onward (w w' : World) : Prop where
  pid : w'.pid = w.pid
  hist : w'.hist = w.hist
  misread : w.misread ⊆ w'.misread
  disk : w'.disk = w.disk
  live : w'.live.Sublist w.live
  result : ∀ id, (∀ job ∈ w.live, job.id ≠ id) →
    w'.dataAt (.job id .result) = w.dataAt (.job id .result)
  absent : ∀ id ext, ¬ w.Runs id → w.file (.job id ext) = none → w'.file (.job id ext) = none

namespace Onward

theorem refl (w : World) : Onward w w :=
  ⟨rfl, rfl, List.Subset.refl _, rfl, List.Sublist.refl _, fun _ _ => rfl, fun _ _ _ h => h⟩

theorem trans (h : Onward w w') (h' : Onward w' w'') : Onward w w'' where
  pid := h'.pid.trans h.pid
  hist := h'.hist.trans h.hist
  misread := List.Subset.trans h.misread h'.misread
  disk := h'.disk.trans h.disk
  live := h'.live.trans h.live
  result id hid :=
    (h'.result id fun job hj => hid job (h.live.subset hj)).trans (h.result id hid)
  absent id ext hruns hnone :=
    h'.absent id ext (fun hruns' => hruns (hruns'.congr h.disk.symm)) (h.absent id ext hruns hnone)

theorem runs (h : Onward w w') {id : Nat} (hruns : w.Runs id) : w'.Runs id := hruns.congr h.disk

theorem forgets (h : Onward w w') {m store : Store} (hf : w.Forgets m store) :
    w'.Forgets m store := by
  intro id hbegun hnot
  obtain ⟨hruns, hnone⟩ := hf id hbegun hnot
  exact ⟨fun hruns' => hruns (hruns'.congr h.disk.symm), fun ext =>
    h.absent id ext hruns (hnone ext)⟩

theorem meanwhile (h : Onward w w') : Meanwhile w.view w'.view :=
  ⟨h.disk, h.hist, h.live.subset⟩

/-- Writing a file that neither the ledger nor a result depends on. -/
theorem setFile {path : Path} {f' : Option File} (hstate : path ≠ .state)
    (hresult : ∀ id, path ≠ .job id .result) (hnew : ∀ f, f' = some f → w.MayCreate path) :
    Onward w (w.setFile path f') where
  pid := rfl
  hist := rfl
  misread := List.Subset.refl _
  disk := World.disk_setFile_of_ne w path f' hstate
  live := List.Sublist.refl _
  result id _ := World.dataAt_setFile_of_ne _ _ _ (Ne.symm (hresult id))
  absent _ _ hruns hnone := World.absent_setFile hnew hruns hnone

end Onward

/-- The daemon has made progress on files that the ledger does not see, and its
    locks are the same. -/
structure Aside (w w' : World) : Prop extends Onward w w' where
  held : ∀ P, HeldOnly P w → HeldOnly P w'
  holds : ∀ id f, w.file (.job id .lock) = some f → .daemon ∈ f.holders →
    ∃ f', w'.file (.job id .lock) = some f' ∧ .daemon ∈ f'.holders

namespace Aside

theorem refl (w : World) : Aside w w :=
  ⟨Onward.refl w, fun _ h => h, fun _ f hf hd => ⟨f, hf, hd⟩⟩

theorem trans (h : Aside w w') (h' : Aside w' w'') : Aside w w'' where
  toOnward := h.toOnward.trans h'.toOnward
  held P hP := h'.held P (h.held P hP)
  holds id f hf hd := by
    obtain ⟨f', hf', hd'⟩ := h.holds id f hf hd
    exact h'.holds id f' hf' hd'

/-- Writing a neutral file that no one holds. -/
theorem setNeutral {path : Path} {f' : Option File} (hp : path.neutral = true)
    (hheld : ∀ f who, f' = some f → who ∉ f.holders)
    (hnew : ∀ f, f' = some f → w.MayCreate path) : Aside w (w.setFile path f') where
  toOnward := Onward.setFile (by rintro rfl; cases hp) (by rintro id rfl; cases hp) hnew
  held P hP := hP.setFile fun f hf hd => absurd hd (hheld f _ hf)
  holds id f hf hd := by
    rw [World.setFile_of_ne _ _ _ (by rintro rfl; cases hp)]
    exact ⟨f, hf, hd⟩

end Aside

theorem Beside.aside (h : Beside w w') : Aside w w' :=
  ⟨⟨h.pid, h.hist, h.misread, h.disk, h.live, h.result, h.absent⟩, h.held, h.holds⟩

/-- One system call. -/
theorem wp_sys {c : Sys} {Q : ProcessExecutor → Except Error c.Reply → World → Prop}
    (hc : c.Allowed w.pid s.store w.hist) (h : w.Sound) (hr : Reach L₀ ⟨some s.store, w.view⟩)
    (hQ : ∀ w₁ raw r w', w₁.Sound → Reach L₀ ⟨some s.store, w₁.view⟩ → Beside w w₁ →
      c.exec .daemon w₁ raw = some (r, w') → Q e (.ok r) w') :
    wp (handlerSpec L₀ s) (call c) Q e w := by
  rw [wp_call]
  refine ⟨⟨h, hr, hc⟩, ?_⟩
  rintro r w' ⟨w₁, raw, hi, hexec⟩
  obtain ⟨h₁, hr₁, hb⟩ := interference_sound hi h hr
  exact hQ w₁ raw r w' h₁ hr₁ hb hexec

/-- The system calls of the daemon that change nothing. -/
def Sys.idle : Sys → Bool
  | now | isDir _ | account _ _ | readDir | openLog _ | readLog _ _ _ | fsync _ | syncDir
  | tryClone _ | tryWait _ | wait _ | read _ => true
  | _ => false

theorem exec_idle {c : Sys} (hc : c.idle = true) {raw : c.Raw} {r : c.Reply}
    (hexec : c.exec .daemon w raw = some (r, w')) : w' = w := by
  cases exec_changes hexec with
  | nothing => rfl
  | _ => cases hc

theorem Sys.idle_allowed {c : Sys} (hc : c.idle = true) (pid : Nat) (m : Store) (hist : Hist) :
    c.Allowed pid m hist := by
  cases c <;> trivial

theorem wp_idle {c : Sys} {Q : ProcessExecutor → Except Error c.Reply → World → Prop}
    (hc : c.idle = true) (h : w.Sound) (hr : Reach L₀ ⟨some s.store, w.view⟩)
    (hQ : ∀ w₁ raw r, w₁.Sound → Reach L₀ ⟨some s.store, w₁.view⟩ → Beside w w₁ →
      c.exec .daemon w₁ raw = some (r, w₁) → Q e (.ok r) w₁) :
    wp (handlerSpec L₀ s) (call c) Q e w := by
  refine wp_sys (Sys.idle_allowed hc _ _ _) h hr ?_
  intro w₁ raw r w' h₁ hr₁ hb hexec
  obtain rfl := exec_idle hc hexec
  exact hQ w' raw r h₁ hr₁ hb hexec

/-! ## Writing a JSON file -/

theorem Path.ownTemp.neutral {pid : Nat} {path : Path} (h : path.ownTemp pid) :
    path.neutral = true := by
  cases path with
  | job id ext => cases ext <;> first | rfl | cases h
  | stateTmp => rfl
  | state | other => cases h

theorem Path.ownTemp.ofDaemon {pid : Nat} {path : Path} (h : path.ownTemp pid) :
    path.ofDaemon pid := by
  cases path with
  | job id ext => cases ext <;> first | exact h | cases h
  | stateTmp => trivial
  | state | other => cases h

/-- The daemon writes its own temporary. -/
theorem World.Sound.setTemp (h : w.Sound) {path : Path} (hp : path.ownTemp w.pid)
    {f' : Option File} (hheld : ∀ f who, f' = some f → who ∉ f.holders)
    (hnew : ∀ f, f' = some f → w.MayCreate path) : (w.setFile path f').Sound where
  files := h.files.setNeutral hp.neutral f' hheld hnew
  workers := by
    refine h.workers.setFile fun wk hwk heq => ?_
    rw [heq] at hp
    exact h.files.daemonPid wk hwk hp

theorem Path.ownTemp.ne_state {pid : Nat} {path : Path} (h : path.ownTemp pid) :
    path ≠ .state := by
  rintro rfl
  cases h

/-- After other processes have moved, the daemon writes one of its own temporaries. -/
theorem Beside.setTemp {path : Path} {f : File} {mem : Option Store} (hb : Beside w w₁)
    (hp : path.ownTemp w₁.pid) (h : w₁.Sound) (hr : Reach L₀ ⟨mem, w₁.view⟩)
    (hfree : ∀ who, who ∉ f.holders) (hmay : w₁.MayCreate path) :
    (w₁.setFile path (some f)).Sound ∧ Reach L₀ ⟨mem, (w₁.setFile path (some f)).view⟩ ∧
      Aside w (w₁.setFile path (some f)) ∧
      (w₁.setFile path (some f)).dataAt path = some f.data := by
  have hheld : ∀ f' who, some f = some f' → who ∉ f'.holders := by
    rintro _ who ⟨⟩
    exact hfree who
  have hnew : ∀ f', some f = some f' → w₁.MayCreate path := fun _ _ => hmay
  refine ⟨h.setTemp hp hheld hnew, ?_, ?_, ?_⟩
  · rw [World.view_setFile _ _ _ hp.ne_state]
    exact hr
  · exact hb.aside.trans (Aside.setNeutral hp.neutral hheld hnew)
  · rw [World.dataAt, World.setFile_same]
    rfl

theorem wp_create {path : Path} {Q : ProcessExecutor → Except Error (Except Error Unit) → World → Prop}
    (hp : path.ownTemp w.pid) (hmake : w.Making path) (h : w.Sound)
    (hr : Reach L₀ ⟨some s.store, w.view⟩)
    (hQ : ∀ r w', w'.Sound → Reach L₀ ⟨some s.store, w'.view⟩ → Aside w w' →
      (r = .ok () → w'.dataAt path = some .empty) → Q e (.ok r) w') :
    wp (handlerSpec L₀ s) (call (.create path)) Q e w := by
  refine wp_sys hp h hr ?_
  intro w₁ raw r w' h₁ hr₁ hb hexec
  rw [← hb.pid] at hp
  cases raw with
  | some err =>
      cases hexec
      exact hQ _ _ h₁ hr₁ hb.aside (by rintro ⟨⟩)
  | none =>
      cases hexec
      obtain ⟨holders, heq, hheld⟩ := w₁.created_eq path
      -- A temporary is neutral: nobody holds a lock on it.
      have hfree : ∀ who, who ∉ (File.mk .empty holders).holders := by
        intro who hmem
        obtain ⟨f, hf, hmem⟩ := hheld who hmem
        exact h₁.files.neutral_holders hp.neutral hf who hmem
      obtain ⟨hs, hreach, ha, hdata⟩ := hb.setTemp hp h₁ hr₁ hfree (hmake.congr hb.disk).mayCreate
      rw [heq]
      exact hQ _ _ hs hreach ha fun _ => hdata

theorem wp_write {path : Path} {piece : Piece} {d : Data}
    {Q : ProcessExecutor → Except Error (Except Error Unit) → World → Prop}
    (hp : path.ownTemp w.pid) (hd : w.dataAt path = some d) (h : w.Sound)
    (hr : Reach L₀ ⟨some s.store, w.view⟩)
    (hQ : ∀ r w', w'.Sound → Reach L₀ ⟨some s.store, w'.view⟩ → Aside w w' →
      (r = .ok () → w'.dataAt path = some (d.append piece)) → Q e (.ok r) w') :
    wp (handlerSpec L₀ s) (call (.write path piece)) Q e w := by
  refine wp_sys hp h hr ?_
  intro w₁ raw r w' h₁ hr₁ hb hexec
  rw [← hb.data path hp.ofDaemon] at hd
  rw [← hb.pid] at hp
  cases raw with
  | some err =>
      cases hexec
      exact hQ _ _ h₁ hr₁ hb.aside (by rintro ⟨⟩)
  | none =>
      cases hexec
      rcases w₁.written_eq path piece with ⟨hnone, _⟩ | ⟨f, hf, heq⟩
      · rw [World.dataAt, hnone] at hd
        cases hd
      · have hfree : ∀ who, who ∉ (File.mk (f.data.append piece) f.holders).holders :=
          fun who => h₁.files.neutral_holders hp.neutral hf who
        obtain ⟨hs, hreach, ha, hdata⟩ :=
          hb.setTemp hp h₁ hr₁ hfree (World.MayCreate.of_file hf)
        rw [World.dataAt, hf] at hd
        cases hd
        rw [heq]
        exact hQ _ _ hs hreach ha fun _ => hdata

/-- `write_json`: errors before the rename leave the file alone; after it, the new
    content is in place whatever is returned. -/
theorem writeJson_wp {path : Path} {value : Value}
    {Q : ProcessExecutor → Except Error Unit → World → Prop}
    (hp : (path.temporary w.pid).ownTemp w.pid) (hmake : w.Making (path.temporary w.pid))
    (hreplace : w.hist.MayReplace s.store path) (h : w.Sound) (hr : Reach L₀ ⟨some s.store, w.view⟩)
    (hfail : ∀ err w', w'.Sound → Reach L₀ ⟨some s.store, w'.view⟩ → Aside w w' →
      Q e (.error err) w')
    (hcommit : ∀ w₁ f, w₁.Sound → Reach L₀ ⟨some s.store, w₁.view⟩ → Aside w w₁ →
      w₁.file (path.temporary w.pid) = some f → f.data = .whole value →
        (w₁.renamed (path.temporary w.pid) path f).Sound ∧
        Reach L₀ ⟨some s.store, (w₁.renamed (path.temporary w.pid) path f).view⟩ ∧
        ∀ r w', w'.Sound → Reach L₀ ⟨some s.store, w'.view⟩ →
          Beside (w₁.renamed (path.temporary w.pid) path f) w' → Q e r w') :
    wp (handlerSpec L₀ s) (writeJson w.pid path value) Q e w := by
  rw [writeJson, wp_bind]
  refine wp_create hp hmake h hr ?_
  intro r₁ w₁ h₁ hr₁ ha₁ hd₁
  rw [andThen_ok, wp_bind, wp_lift]
  rcases r₁ with err | ⟨⟨⟩⟩
  · exact hfail err w₁ h₁ hr₁ ha₁
  -- The value is written in two pieces; a crash in between leaves half a temporary.
  have hp₁ : (path.temporary w.pid).ownTemp w₁.pid := ha₁.pid ▸ hp
  rw [andThen_ok, wp_bind]
  refine wp_write hp₁ (hd₁ rfl) h₁ hr₁ ?_
  intro r₂ w₂ h₂ hr₂ ha₂ hd₂
  rw [andThen_ok, wp_bind, wp_lift]
  rcases r₂ with err | ⟨⟨⟩⟩
  · exact hfail err w₂ h₂ hr₂ (ha₁.trans ha₂)
  have hp₂ : (path.temporary w.pid).ownTemp w₂.pid := ha₂.pid ▸ hp₁
  rw [andThen_ok, wp_bind]
  refine wp_write hp₂ (hd₂ rfl) h₂ hr₂ ?_
  intro r₃ w₃ h₃ hr₃ ha₃ hd₃
  rw [andThen_ok, wp_bind, wp_lift]
  rcases r₃ with err | ⟨⟨⟩⟩
  · exact hfail err w₃ h₃ hr₃ ((ha₁.trans ha₂).trans ha₃)
  have hp₃ : (path.temporary w.pid).ownTemp w₃.pid := ha₃.pid ▸ hp₂
  rw [andThen_ok, wp_bind]
  refine wp_idle rfl h₃ hr₃ ?_
  intro w₄ _ r₄ h₄ hr₄ hb₄ _
  rw [andThen_ok, wp_bind, wp_lift]
  rcases r₄ with err | ⟨⟨⟩⟩
  · exact hfail err w₄ h₄ hr₄ (((ha₁.trans ha₂).trans ha₃).trans hb₄.aside)
  -- Everything is in the temporary now.  The rename is what commits it.
  have ha₄ : Aside w w₄ := ((ha₁.trans ha₂).trans ha₃).trans hb₄.aside
  have hd₄ : w₄.dataAt (path.temporary w.pid) = some (.whole value) := by
    rw [hb₄.data _ hp₃.ofDaemon, hd₃ rfl, Data.empty_append_head, Data.head_append_tail]
  rw [andThen_ok, wp_bind]
  have hallowed : (Sys.rename (path.temporary w.pid) path).Allowed w₄.pid s.store w₄.hist := by
    refine ⟨hb₄.pid ▸ hp₃, ?_⟩
    rw [ha₄.hist]
    exact hreplace
  refine wp_sys hallowed h₄ hr₄ ?_
  intro w₅ raw r₅ w₆ h₅ hr₅ hb₅ hexec
  have hd₅ : w₅.dataAt (path.temporary w.pid) = some (.whole value) := by
    rw [hb₅.data _ (hb₄.pid ▸ hp₃).ofDaemon, hd₄]
  have ha₅ : Aside w w₅ := ha₄.trans hb₅.aside
  rw [andThen_ok, wp_bind, wp_lift]
  cases raw with
  | some err =>
      cases hexec
      exact hfail err _ h₅ hr₅ ha₅
  | none =>
      cases hf : w₅.file (path.temporary w.pid) with
      | none =>
          rw [World.dataAt, hf] at hd₅
          cases hd₅
      | some f =>
          simp only [Sys.exec, hf] at hexec
          cases hexec
          rw [World.dataAt, hf] at hd₅
          have hdata : f.data = .whole value := Option.some.inj hd₅
          -- From here on `sync_all` on the directory may fail, but the file has been replaced.
          obtain ⟨h₆, hr₆, hdone⟩ := hcommit w₅ f h₅ hr₅ ha₅ hf hdata
          rw [andThen_ok, wp_bind]
          refine wp_idle rfl h₆ hr₆ ?_
          intro w₇ _ r₇ h₇ hr₇ hb₇ _
          rw [andThen_ok, wp_lift]
          exact hdone r₇ w₇ h₇ hr₇ hb₇

/-- Renaming onto a file that neither the ledger nor the invariant looks at. -/
theorem World.renamed_neutral (w : World) {source target : Path} (ht : target.neutral = true)
    (f : File) : w.renamed source target f = (w.setFile source none).setFile target (some f) := by
  unfold renamed publish
  split
  · cases ht
  · rfl

/-- `write_json` on the description or the cancellation marker of a job. -/
theorem writeJobFile_wp {id : Nat} {ext : Ext} {value : Value}
    {Q : ProcessExecutor → Except Error Unit → World → Prop}
    (hext : ext = .json ∨ ext = .cancel) (hreplace : w.hist.MayReplace s.store (.job id ext))
    (hruns : w.Runs id) (h : w.Sound)
    (hr : Reach L₀ ⟨some s.store, w.view⟩)
    (hQ : ∀ r w', w'.Sound → Reach L₀ ⟨some s.store, w'.view⟩ → Aside w w' → Q e r w') :
    wp (handlerSpec L₀ s) (writeJson w.pid (.job id ext) value) Q e w := by
  have htemp : (Path.job id ext).temporary w.pid = .job id (.tmp w.pid) := by
    rcases hext with rfl | rfl <;> rfl
  have hneutral : (Path.job id ext).neutral = true := by
    rcases hext with rfl | rfl <;> rfl
  have hne : ∀ pid, (Path.job id ext) ≠ .job id (.tmp pid) := by
    rcases hext with rfl | rfl <;> simp
  have hmake : w.Making (.job id (.tmp w.pid)) := by
    rintro _ _ ⟨⟩
    exact ⟨hruns, h.files.pidFits⟩
  refine writeJson_wp (by rw [htemp]; rfl) (htemp ▸ hmake) hreplace h hr
    (fun err w' h' hr' ha => hQ _ w' h' hr' ha) ?_
  rw [htemp]
  intro w₁ f h₁ hr₁ ha hf _
  have hfree : ∀ f' who, some f = some f' → who ∉ f'.holders := by
    rintro _ who ⟨⟩
    exact h₁.files.neutral_holders rfl hf who
  have hnone : ∀ f' who, (none : Option File) = some f' → who ∉ f'.holders := by
    rintro _ _ ⟨⟩
  have hown : (Path.job id (.tmp w.pid)).ownTemp w₁.pid := by
    rw [ha.pid]
    rfl
  -- The rename empties the temporary path and puts the file at the target: two neutral writes.
  rw [World.renamed_neutral _ hneutral]
  have hgone : ∀ f', (none : Option File) = some f' → w₁.MayCreate (.job id (.tmp w.pid)) := by
    rintro _ ⟨⟩
  have h₂ := h₁.setTemp hown hnone hgone
  have ha₁ : Aside w₁ (w₁.setFile (.job id (.tmp w.pid)) none) :=
    Aside.setNeutral rfl hnone hgone
  have hfits : ext.Fits := by
    rcases hext with rfl | rfl <;> trivial
  have hnew : ∀ f', some f = some f' →
      (w₁.setFile (.job id (.tmp w.pid)) none).MayCreate (.job id ext) := fun _ _ =>
    World.MayCreate.of_runs ((ha.trans ha₁).runs hruns) hfits
  have ha₂ : Aside w₁ ((w₁.setFile (.job id (.tmp w.pid)) none).setFile (.job id ext) (some f)) :=
    ha₁.trans (Aside.setNeutral hneutral hfree hnew)
  refine ⟨⟨h₂.files.setNeutral hneutral _ hfree hnew, ?_⟩, ?_, ?_⟩
  · refine h₂.workers.setFile fun wk _ heq => ?_
    rcases hext with rfl | rfl <;> cases heq
  · rw [World.view_setFile _ _ _ (by simp), World.view_setFile _ _ _ (by simp)]
    exact hr₁
  · intro r w' h' hr' hb
    exact hQ r w' h' hr' ((ha.trans ha₂).trans hb.aside)

/-! ## Saving the store -/

/-- What `state.json` may be replaced by. -/
def Savable (store m : Store) (hist : Hist) : Prop :=
  store = m ∨ ∃ timestamp disk live rest,
    hist = ⟨.cleaning timestamp m, disk, live⟩ :: rest ∧
      store = m.retain (m.expired timestamp)

theorem Savable.step {m store : Store} {v : View} (hs : Savable store m v.hist) :
    Step ⟨some m, v⟩ ⟨some m, { v with disk := store }⟩ := by
  rcases hs with rfl | ⟨timestamp, disk, live, rest, head, rfl⟩
  · exact Step.save store v
  · exact Step.saveRetained m v timestamp disk live rest head

/-- A running job of the new store whose worker has published was running before. -/
theorem Savable.running {m store : Store} {v : View} (hs : Savable store m v.hist)
    (hinv : Inv ⟨some m, v⟩) {job : Job} (hj : job ∈ store.jobs) (hrun : job.state = .running)
    {outcome : Outcome} (hpub : (job.id, outcome) ∈ v.published) : job ∈ v.disk.jobs := by
  have hmem : job ∈ m.jobs := by
    rcases hs with rfl | ⟨_, _, _, _, _, rfl⟩
    · exact hj
    · exact (Store.mem_retain.mp hj).1
  have hspawned := (hinv.published job.id outcome hpub).1
  exact hinv.saved m rfl job hmem hrun
    (Hist.started_settled (hinv.spawned_started job.id hspawned))

/-- The world right after `state.json` was replaced. -/
theorem World.Sound.replaceState (h : w.Sound) {m store : Store} (hr : Reach L₀ ⟨some m, w.view⟩)
    (hs : Savable store m w.hist) (hforget : w.Forgets m store) {source : Path}
    (hsource : source.ownTemp w.pid) {f : File} (hf : w.file source = some f)
    (hdata : f.data = .whole (.store store)) :
    (w.renamed source .state f).Sound ∧
      (w.renamed source .state f).view = { w.view with disk := store } := by
  have heq : w.renamed source .state f = (w.setFile source none).setFile .state (some f) := rfl
  have hnone : ∀ f' who, (none : Option File) = some f' → who ∉ f'.holders := by
    rintro _ _ ⟨⟩
  have hgone : ∀ f', (none : Option File) = some f' → w.MayCreate source := by
    rintro _ ⟨⟩
  have h₁ : (w.setFile source none).Sound := h.setTemp hsource hnone hgone
  have hview₁ : (w.setFile source none).view = w.view := World.view_setFile _ _ _ hsource.ne_state
  have hfree : ∀ who, who ∉ f.holders := h.files.neutral_holders hsource.neutral hf
  rw [heq]
  refine ⟨⟨?_, h₁.workers.setFile (by simp)⟩, ?_⟩
  · have hdisk₁ : (w.setFile source none).disk = w.disk :=
      World.disk_setFile_of_ne _ _ _ hsource.ne_state
    refine h₁.files.setFile .state (some f) ?_ (by simp) ?_ ?_ (by simp) (fun _ _ => by rintro _ _ ⟨⟩)
    · refine fun _ => ⟨f, store, rfl, hdata, ?_, ?_⟩
      · intro id outcome hpub job hj hid hrun
        -- A running job of the new store with a published result was on disk before.
        subst hid
        have hdisk : job ∈ w.disk.jobs := hs.running hr.inv hj hrun hpub
        exact h₁.files.published job.id outcome hpub job (hdisk₁ ▸ hdisk) rfl hrun
      · intro id ext f₁ hf₁
        -- The job of this file is in memory; what the new store leaves out has no files.
        obtain ⟨job, hj, rfl, hstate⟩ := (h₁.files.artifacts id ext f₁ hf₁).1
        rw [hdisk₁] at hj
        have hbegun := hr.inv.covered m rfl job hj hstate
        by_cases hkept : store.Begun job.id
        · exact hkept
        · obtain ⟨hruns, hnone⟩ := hforget _ hbegun hkept
          rw [World.absent_setFile hgone hruns (hnone ext)] at hf₁
          cases hf₁
    · rintro _ who ⟨⟩ hmem
      exact absurd hmem (hfree who)
    · rintro _ pid ⟨⟩ hmem
      exact absurd hmem (hfree _)
  · have hdisk : ((w.setFile source none).setFile .state (some f)).disk = store := by
      rw [World.disk_eq, World.dataAt, World.setFile_same]
      simp [hdata, Data.store?]
    simp only [World.view, hdisk]
    rfl

/-- `write_json(state.json, store)`. -/
theorem saveState_wp {store : Store} {P : Path → Prop} (h : w.Sound)
    (hr : Reach L₀ ⟨some s.store, w.view⟩) (hs : Savable store s.store w.hist)
    (hforget : w.Forgets s.store store) (hheld : HeldOnly P w) :
    wp (handlerSpec L₀ s) (writeJson w.pid .state (.store store)) (fun _ r w' =>
      w'.Sound ∧ Reach L₀ ⟨some s.store, w'.view⟩ ∧ HeldOnly P w' ∧ w'.pid = w.pid ∧
        Effect (.save store) w.scene r w'.scene) e w := by
  refine writeJson_wp rfl (by rintro _ _ ⟨⟩) trivial h hr ?_ ?_
  · intro err w' h' hr' ha
    exact ⟨h', hr', ha.held P hheld, ha.pid, ha.hist, ha.live.subset, Or.inr ha.disk,
      by rintro ⟨⟩⟩
  · intro w₁ f h₁ hr₁ ha hf hdata
    have hs₁ : Savable store s.store w₁.hist := ha.hist ▸ hs
    have hown : (Path.state.temporary w.pid).ownTemp w₁.pid := by
      rw [ha.pid]
      rfl
    obtain ⟨h₂, hview⟩ := h₁.replaceState hr₁ hs₁ (ha.forgets hforget) hown hf hdata
    refine ⟨h₂, hview ▸ hr₁.step hs₁.step, ?_⟩
    intro r w' h' hr' hb
    have hfree := h₁.files.neutral_holders hown.neutral hf
    have hheld₂ : HeldOnly P (w₁.renamed (Path.state.temporary w.pid) .state f) :=
      ((ha.held P hheld).setFile (by rintro _ ⟨⟩)).setFile (by
        rintro _ ⟨⟩ hd
        exact absurd hd (hfree _))
    have hdisk : w'.disk = store := hb.disk.trans (congrArg View.disk hview)
    refine ⟨h', hr', hb.held P hheld₂, hb.pid.trans ha.pid, hb.hist.trans ha.hist, ?_,
      Or.inl hdisk, fun _ => hdisk⟩
    exact List.Subset.trans hb.live.subset ha.live.subset

end Xlurm
