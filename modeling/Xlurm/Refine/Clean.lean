/-
  Xlurm.Refine.Clean

  `clean` keeps the invariant of the system.

  While it holds `daemon.lock` no daemon starts, so workers only die.  A store
  on disk without running jobs therefore shows that there are none, and that
  there will be none as long as `clean` goes on.

  All this is about runs in which `state.json` is seen whenever it is there.
-/

import Xlurm.Os.Clean
import Xlurm.Refine.System

namespace Xlurm

open Prog.Comp
open ProcessExecutor (context)
open Relation (ReflTransGen)

variable {L₀ : Ledger} {sys : System} {w w' : World} {h h' : Home} {euid : Nat}

/-! ## The directory `jobs/` -/

/-- Every file in `jobs/` has a name that the program gives. -/
def World.Named (w : World) : Prop := ∀ name, w.dataAt (.other name) = none

theorem System.Good.named (h : sys.Good L₀) (hn : sys.world.Named) (euid : Nat) (action : Action) :
    (sys.step euid action).world.Named := by
  intro name
  have hmoves := System.step_moves euid sys action
  generalize sys.step euid action = sys' at hmoves ⊢
  cases hmoves with
  | idle => exact hn name
  | boot | begin =>
      rw [System.settle_dataAt]
      exact hn name
  | crash => exact (World.dataAt_released _ _ _).trans (hn name)
  | beside w' hi =>
      obtain ⟨_, _, hb⟩ := hi.sound h.sound h.reach
      exact (hb.data (.other name) trivial).trans (hn name)
  | daemon st c k raw r w' next exec =>
      rw [System.settle_dataAt]
      cases exec_wrote (h.allowed next) exec (.other name) with
      | same data => exact data.trans (hn name)
      | unlinked call data => exact data
      | temporary own => cases own
      | replaced may => cases may
      | opened fresh data kind =>
          obtain ⟨_, hkind⟩ := kind
          simp at hkind

theorem lists_exists {entries : List (Except Error Path)} (h : w.lists entries = true)
    {path : Path} (hp : .ok path ∈ entries) : (w.file path).isSome = true := by
  rw [World.lists, Bool.and_eq_true, List.all_eq_true] at h
  have hentry := h.1 _ hp
  rw [Bool.and_eq_true] at hentry
  exact hentry.2

theorem isJobLog_fileName {id : Nat} {ext : Ext}
    (h : isJobLog (Path.job id ext).fileName.toList = true) : ext = .log := by
  rw [fileName_job_toList] at h
  simp only [isJobLog, Text.splitOnce_append (dot_notMem_toDigits id), Bool.and_eq_true,
    decide_eq_true_eq] at h
  have hsuffix := h.2
  cases ext with
  | log => rfl
  | tmp pid =>
      have hlen := congrArg List.length hsuffix
      simp [Ext.suffix] at hlen
  | _ => exact absurd hsuffix (by decide)

/-- What `clean` takes for the log of a job is one. -/
theorem lists_isJobLog (hn : w.Named) {entries : List (Except Error Path)}
    (h : w.lists entries = true) {path : Path} (hp : .ok path ∈ entries)
    (hlog : isJobLog path.fileName.toList = true) : ∃ id, path = .job id .log := by
  cases path with
  | job id ext => exact ⟨id, by rw [isJobLog_fileName hlog]⟩
  | other name =>
      have hsome := lists_exists h hp
      have hnone := Option.map_eq_none_iff.mp (hn name)
      rw [hnone] at hsome
      cases hsome
  | state | stateTmp => cases lists_inJobs h hp

/-! ## The invariant -/

/-- No existing `state.json` has been reported as missing. -/
def Home.Seen (h : Home) : Prop := .state ∉ h.sys.world.misread

def Removed.IsLog : Removed → Prop
  | entry path => ∃ id, path = .job id .log
  | daemonLog => True

structure Home.Good (h : Home) : Prop where
  sys : h.sys.Good Ledger.init
  /-- The lock excludes the daemon. -/
  excluded : h.locked = true → h.sys.daemon = none
  named : h.sys.world.Named
  removed : ∀ r ∈ h.removed, r.live = [] ∧ r.file.IsLog

/-- `clean` holds the lock, and no worker is alive. -/
structure Home.Quiet (h : Home) : Prop where
  locked : h.locked = true
  live : h.sys.world.live = []

/-- What may happen between two calls of `clean`. -/
inductive Elsewhere (euid : Nat) (h : Home) : Home → Prop
  | sys (action : Action) (free : h.locked = true → action.boots = false) :
      Elsewhere euid h { h with sys := h.sys.step euid action }
  | openDaemonLog : Elsewhere euid h { h with daemonLog := true }

/-- What `clean` relies on in the meantime. -/
structure Home.Kept (h h' : Home) : Prop where
  good : h'.Good
  locked : h'.locked = h.locked
  removed : h'.removed = h.removed
  quiet : h.Quiet → h'.Quiet

/-- Without a daemon only workers move. -/
theorem System.step_down (hd : sys.daemon = none) {action : Action} (hboot : action.boots = false) :
    sys.step euid action = sys ∨
      ∃ w', Interferes sys.world w' ∧ sys.step euid action = { sys with world := w' } := by
  cases action with
  | boot => cases hboot
  | begin | daemon | crash =>
      refine Or.inl ?_
      simp only [System.step, hd]
  | worker pid env => exact Or.inr ⟨_, .step pid env, rfl⟩
  | kill pid => exact Or.inr ⟨_, .kill pid, rfl⟩
  | output pid bytes =>
      simp only [System.step]
      split
      · rename_i wk hfind
        exact Or.inr ⟨_, .output wk bytes (List.mem_of_find?_eq_some hfind), rfl⟩
      · exact Or.inl rfl

theorem Elsewhere.kept (hg : h.Good) (he : Elsewhere euid h h') : h.Kept h' := by
  cases he with
  | openDaemonLog =>
      exact ⟨⟨hg.sys, hg.excluded, hg.named, hg.removed⟩, rfl, rfl, fun hq => ⟨hq.locked, hq.live⟩⟩
  | sys action free =>
      refine ⟨⟨hg.sys.step euid action, fun hlocked => ?_, hg.sys.named hg.named euid action,
        hg.removed⟩, rfl, rfl, fun hq => ⟨hq.locked, ?_⟩⟩
      · have hd := hg.excluded hlocked
        rcases System.step_down hd (free hlocked) with hsame | ⟨w', _, hstep⟩
        · rw [hsame]
          exact hd
        · rw [hstep]
          exact hd
      · rcases System.step_down (hg.excluded hq.locked) (free hq.locked) with hsame | ⟨w', hi, hstep⟩
        · show (h.sys.step euid action).world.live = []
          rw [hsame]
          exact hq.live
        · show (h.sys.step euid action).world.live = []
          rw [hstep]
          obtain ⟨_, _, hb⟩ := hi.sound hg.sys.sound hg.sys.reach
          have hsub := hb.live
          rw [hq.live] at hsub
          exact List.sublist_nil.mp hsub

theorem elsewhere_kept (hg : h.Good) (he : ReflTransGen (Elsewhere euid) h h') : h.Kept h' := by
  induction he with
  | refl => exact ⟨hg, rfl, rfl, id⟩
  | tail _ hstep ih =>
      have hk := hstep.kept ih.good
      exact ⟨hk.good, hk.locked.trans ih.locked, hk.removed.trans ih.removed,
        fun hq => hk.quiet (ih.quiet hq)⟩

/-! ## One call -/

/-- What `clean` may call: it deletes only logs, and only when no worker is alive. -/
def CleanCall.Admitted (h : Home) : CleanCall → Prop
  | .sys (.unlink path) => h.Quiet ∧ ∃ id, path = .job id .log
  | .sys (.pathExists path) => path = .state
  | .sys c => c.idle = true
  | .removeDaemonLog => h.Quiet
  | .initPaths | .tryLock => True

theorem CleanCall.Admitted.kept {c : CleanCall} (hc : c.Admitted h) (hk : h.Kept h') :
    c.Admitted h' := by
  cases c with
  | initPaths | tryLock => trivial
  | removeDaemonLog => exact hk.quiet hc
  | sys c =>
      cases c with
      | unlink path => exact ⟨hk.quiet hc.1, hc.2⟩
      | _ => exact hc

/-- The log of a job is deleted while no daemon runs. -/
theorem System.Good.unlinkLog (hg : sys.Good L₀) (hd : sys.daemon = none) (id : Nat) :
    System.Good L₀ { sys with world := sys.world.setFile (.job id .log) none } := by
  simp only [System.Good, hd] at hg ⊢
  obtain ⟨hs, hfree, hr⟩ := hg
  refine ⟨⟨?_, ?_⟩, ?_, ?_⟩
  · exact hs.files.setNeutral rfl none (by rintro _ _ ⟨⟩) (by rintro _ ⟨⟩)
  · exact hs.workers.setFile (by simp)
  · exact hfree.setFile (by rintro _ ⟨⟩)
  · rw [World.view_setFile _ _ _ (by simp)]
    exact hr

theorem Home.Good.record (hg : h.Good) (hq : h.Quiet) (file : Removed) (hfile : file.IsLog) :
    (h.record file).Good := by
  refine ⟨hg.sys, hg.excluded, hg.named, fun r hr => ?_⟩
  rcases List.mem_cons.mp hr with rfl | hr
  · refine ⟨?_, hfile⟩
    show h.sys.world.live.map (·.id) = []
    rw [hq.live, List.map_nil]
  · exact hg.removed r hr

/-- An idle call leaves the home as it is. -/
theorem CleanCall.exec_idle {c : Sys} (hc : c.idle = true) {raw : c.Raw} {r : c.Reply}
    (hexec : (CleanCall.sys c).exec h raw = some (r, h')) :
    h' = h ∧ c.exec .daemon h.sys.world raw = some (r, h.sys.world) := by
  obtain ⟨⟨r', w'⟩, hsys, heq⟩ := Option.map_eq_some_iff.mp hexec
  obtain rfl := Xlurm.exec_idle hc hsys
  cases heq
  refine ⟨?_, hsys⟩
  cases c <;> first | rfl | cases hc

/-- A `state.json` that is there is seen, or else it is recorded. -/
theorem CleanCall.exec_pathExists {raw r : Bool}
    (hexec : (CleanCall.sys (.pathExists .state)).exec h raw = some (r, h')) :
    (h' = h ∧ r = (h.sys.world.file .state).isSome) ∨
      (¬ h'.Seen ∧ h'.sys.world.file = h.sys.world.file ∧ h'.daemonLog = h.daemonLog) := by
  obtain ⟨⟨r', w'⟩, hsys, heq⟩ := Option.map_eq_some_iff.mp hexec
  simp only [Sys.exec] at hsys
  split at hsys
  · cases hsys
    cases heq
    exact Or.inr ⟨fun hseen => hseen List.mem_cons_self, rfl, rfl⟩
  · cases hsys
    cases heq
    exact Or.inl ⟨rfl, rfl⟩

/-- A file that exists is deleted and recorded, or nothing happens. -/
theorem CleanCall.unlink_eq {path : Path} {raw : Option Error} {r : FileResult}
    (hexec : (CleanCall.sys (.unlink path)).exec h raw = some (r, h')) :
    h' = h ∨ h' = h.after (h.sys.world.setFile path none) (.unlink path) .ok := by
  obtain ⟨⟨r', w'⟩, hsys, heq⟩ := Option.map_eq_some_iff.mp hexec
  simp only [Sys.exec] at hsys
  split at hsys
  · cases hsys
    cases heq
    exact Or.inl rfl
  · cases hsys
    cases heq
    exact Or.inl rfl
  · cases hsys
    cases heq
    exact Or.inr rfl

theorem CleanCall.exec_misread {c : CleanCall} {raw : c.Raw} {r : c.Reply}
    (hexec : c.exec h raw = some (r, h')) : h.sys.world.misread ⊆ h'.sys.world.misread := by
  cases c with
  | initPaths =>
      cases hexec
      exact List.Subset.refl _
  | tryLock =>
      cases raw with
      | error e =>
          cases hexec
          exact List.Subset.refl _
      | ok taken =>
          simp only [CleanCall.exec] at hexec
          split at hexec <;> cases hexec <;> exact List.Subset.refl _
  | removeDaemonLog =>
      cases raw with
      | some e =>
          cases hexec
          exact List.Subset.refl _
      | none =>
          simp only [CleanCall.exec] at hexec
          split at hexec <;> cases hexec <;> exact List.Subset.refl _
  | sys c =>
      obtain ⟨⟨r', w'⟩, hsys, heq⟩ := Option.map_eq_some_iff.mp hexec
      have hafter : (h.after w' c r').sys.world = w' := by
        unfold Home.after
        split <;> rfl
      cases heq
      rw [hafter]
      exact Xlurm.exec_misread hsys

/-- Deleting a log. -/
theorem CleanCall.exec_unlink (hg : h.Good) (hq : h.Quiet) {id : Nat} {raw : Option Error}
    {r : FileResult}
    (hexec : (CleanCall.sys (.unlink (.job id .log))).exec h raw = some (r, h')) :
    h'.Good ∧ h'.Quiet := by
  obtain rfl | rfl := CleanCall.unlink_eq hexec
  · exact ⟨hg, hq⟩
  · have hr := hg.record hq (.entry (.job id .log)) ⟨id, rfl⟩
    have hd := hg.excluded hq.locked
    refine ⟨⟨hg.sys.unlinkLog hd id, fun _ => hd, fun name => ?_, hr.removed⟩, hq.locked, hq.live⟩
    exact (World.dataAt_setFile_of_ne _ _ _ (by simp)).trans (hg.named name)

theorem CleanCall.exec_removeDaemonLog (hg : h.Good) (hq : h.Quiet) {raw : Option Error}
    {r : FileResult} (hexec : CleanCall.removeDaemonLog.exec h raw = some (r, h')) :
    h'.Good ∧ h'.Quiet := by
  cases raw with
  | some e =>
      cases hexec
      exact ⟨hg, hq⟩
  | none =>
      simp only [CleanCall.exec] at hexec
      split at hexec
      · cases hexec
        have hr := hg.record hq .daemonLog trivial
        exact ⟨⟨hr.sys, hr.excluded, hr.named, hr.removed⟩, hq.locked, hq.live⟩
      · cases hexec
        exact ⟨hg, hq⟩

/-- The lock is taken only while no daemon runs. -/
theorem CleanCall.exec_tryLock (hg : h.Good) {raw : Except Error Bool} {r : Except Error Bool}
    (hexec : CleanCall.tryLock.exec h raw = some (r, h')) :
    h'.Good ∧ h'.removed = h.removed ∧ (r = .ok true → h'.locked = true) := by
  cases raw with
  | error e =>
      cases hexec
      exact ⟨hg, rfl, by rintro ⟨⟩⟩
  | ok taken =>
      simp only [CleanCall.exec] at hexec
      split at hexec
      · cases hexec
        exact ⟨hg, rfl, by rintro ⟨⟩⟩
      · rename_i hfree
        cases hexec
        have hd : h.sys.daemon = none := by
          rw [Bool.or_eq_true, not_or] at hfree
          exact Option.not_isSome_iff_eq_none.mp hfree.2
        exact ⟨⟨hg.sys, fun _ => hd, hg.named, hg.removed⟩, rfl, fun _ => rfl⟩

/-! ## The program -/

/-- At every call of `clean` the home is good and the call admitted; others may move before
    the call takes effect, which does not overlook `state.json`. -/
def cleanSpec (euid : Nat) : Prog.Spec Unit CleanCall CleanCall.Reply Home where
  pre c _ h := h.Good ∧ c.Admitted h
  post c _ h r h' :=
    ∃ h₁ raw, ReflTransGen (Elsewhere euid) h h₁ ∧ c.exec h₁ raw = some (r, h') ∧ h'.Seen

theorem wp_clean {c : CleanCall} {Q : Unit → Except CleanError c.Reply → Home → Prop}
    (hg : h.Good) (hc : c.Admitted h)
    (hQ : ∀ h₁ raw r h', h.Kept h₁ → c.Admitted h₁ → c.exec h₁ raw = some (r, h') →
      h'.Seen → Q () (.ok r) h') : wp (cleanSpec euid) (call c) Q () h := by
  rw [wp_call]
  refine ⟨⟨hg, hc⟩, ?_⟩
  rintro r h' ⟨h₁, raw, he, hexec, hseen⟩
  have hk := elsewhere_kept hg he
  exact hQ h₁ raw r h' hk (hc.kept hk) hexec hseen

/-- A call that changes nothing. -/
theorem wp_clean_idle {c : Sys} {Q : Unit → Except CleanError c.Reply → Home → Prop}
    (hc : c.idle = true) (hg : h.Good)
    (hQ : ∀ h₁ raw r, h.Kept h₁ → c.exec .daemon h₁.sys.world raw = some (r, h₁.sys.world) →
      Q () (.ok r) h₁) : wp (cleanSpec euid) (call (CleanCall.sys c)) Q () h := by
  refine wp_clean hg ?_ ?_
  · cases c <;> first | exact hc | cases hc
  · intro h₁ raw r h' hk _ hexec _
    obtain ⟨rfl, hsys⟩ := CleanCall.exec_idle hc hexec
    exact hQ h' raw r hk hsys

/-- `?` ends `clean` with the error of the call. -/
theorem wp_orFailed {α : Type} {r : Except Error α} {Q : Unit → Except CleanError α → Home → Prop}
    (hok : ∀ a, r = .ok a → Q () (.ok a) h) (herr : ∀ e, r = .error e → Q () (.error (.failed e)) h) :
    wp (cleanSpec euid) (orFailed r) Q () h := by
  cases r with
  | ok a => exact hok a rfl
  | error e => exact herr e rfl

/-- No running job on disk: no worker is alive. -/
theorem Home.Good.quiet (hg : h.Good) (hlocked : h.locked = true)
    (hidle : h.sys.world.disk.runningIds = []) : h.Quiet := by
  refine ⟨hlocked, List.eq_nil_iff_forall_not_mem.mpr fun job hj => ?_⟩
  obtain ⟨hrun, hdisk, _⟩ := hg.sys.reach.inv.live job hj
  have hmem : toString job.id ∈ h.sys.world.disk.runningIds :=
    List.mem_map_of_mem (List.mem_filter.mpr ⟨hdisk, decide_eq_true hrun⟩)
  rw [hidle] at hmem
  cases hmem

theorem context_eq_ok {α : Type} {text : Error} {r : Except Error α} {a : α}
    (h : context text r = .ok a) : r = .ok a := by
  cases r with
  | ok => exact h
  | error => cases h

/-- What is known after `state.json` has been read: nothing has been deleted yet. -/
def Loaded (_ : Unit) (r : Except CleanError Store) (h : Home) : Prop :=
  h.Good ∧ h.removed = [] ∧ ∀ store, r = .ok store → store.runningIds = [] → h.Quiet

theorem loadStore_wp (hg : h.Good) (hlocked : h.locked = true) (hnone : h.removed = []) :
    wp (cleanSpec euid) loadStore Loaded () h := by
  rw [loadStore, wp_bind]
  refine wp_clean hg rfl ?_
  intro h₁ raw r h₁' hk _ hexec hseen
  obtain ⟨rfl, rfl⟩ := (CleanCall.exec_pathExists hexec).resolve_right fun h => h.1 hseen
  have hlocked₁ := hk.locked.trans hlocked
  have hnone₁ := hk.removed.trans hnone
  rw [andThen_ok]
  cases hf : h₁'.sys.world.file .state with
  | none =>
      -- A missing file is the default store, which has no jobs.
      have hdisk : h₁'.sys.world.disk = Store.default := by simp only [World.disk, hf]
      refine ⟨hk.good, hnone₁, fun _ _ _ => hk.good.quiet hlocked₁ ?_⟩
      rw [hdisk]
      rfl
  | some f =>
      rw [Option.isSome_some, if_pos rfl, wp_bind]
      refine wp_clean_idle rfl hk.good ?_
      intro h₂ raw₂ r₂ hk₂ hexec₂
      have hlocked₂ := hk₂.locked.trans hlocked₁
      have hnone₂ := hk₂.removed.trans hnone₁
      rw [andThen_ok, wp_bind]
      refine wp_orFailed (fun data hdata => ?_) fun e _ => ⟨hk₂.good, hnone₂, by rintro _ ⟨⟩⟩
      rw [andThen_ok]
      cases hstore : data.store? with
      | none => exact ⟨hk₂.good, hnone₂, by rintro _ ⟨⟩⟩
      | some store =>
          refine ⟨hk₂.good, hnone₂, ?_⟩
          rintro _ ⟨⟩ hidle
          obtain rfl := context_eq_ok hdata
          obtain ⟨f₂, hf₂, rfl⟩ := Option.map_eq_some_iff.mp (exec_read hexec₂)
          have hdisk : h₂.sys.world.disk = store := by
            simp only [World.disk, hf₂, hstore, Option.getD_some]
          apply hk₂.good.quiet hlocked₂
          rw [hdisk]
          exact hidle

theorem removeLogs_wp {entries : List (Except Error Path)} {jobLogs : Nat} (hg : h.Good)
    (hq : h.Quiet)
    (hlogs : ∀ path, .ok path ∈ entries → isJobLog path.fileName.toList = true →
      ∃ id, path = .job id .log) :
    wp (cleanSpec euid) (removeLogs entries jobLogs)
      (fun _ r h' => h'.Good ∧ h'.Quiet ∧ ∀ ids, r ≠ .error (.running ids)) () h := by
  induction entries generalizing h jobLogs with
  | nil => exact ⟨hg, hq, by rintro _ ⟨⟩⟩
  | cons entry rest ih =>
      have hrest := fun path hp => hlogs path (List.mem_cons_of_mem _ hp)
      rw [removeLogs, wp_bind]
      refine wp_orFailed (fun path hentry => ?_) fun e _ => ⟨hg, hq, by rintro _ ⟨⟩⟩
      rw [andThen_ok]
      split
      · rename_i hlog
        obtain ⟨id, rfl⟩ := hlogs path (hentry ▸ List.mem_cons_self) hlog
        rw [wp_bind]
        refine wp_clean hg ⟨hq, id, rfl⟩ ?_
        intro h₁ raw r h' hk _ hexec _
        obtain ⟨hg', hq'⟩ := CleanCall.exec_unlink hk.good (hk.quiet hq) hexec
        rw [andThen_ok]
        cases r with
        | ok | notFound => exact ih hg' hq' hrest
        | error e => exact ⟨hg', hq', by rintro _ ⟨⟩⟩
      · exact ih hg hq hrest

theorem removeDaemonLog_wp (hg : h.Good) (hq : h.Quiet) :
    wp (cleanSpec euid) removeDaemonLog
      (fun _ r h' => h'.Good ∧ ∀ ids, r ≠ .error (.running ids)) () h := by
  rw [removeDaemonLog, wp_bind]
  refine wp_clean hg hq ?_
  intro h₁ raw r h' hk _ hexec _
  obtain ⟨hg', _⟩ := CleanCall.exec_removeDaemonLog hk.good (hk.quiet hq) hexec
  rw [andThen_ok]
  cases r with
  | ok | notFound | error => exact ⟨hg', by rintro _ ⟨⟩⟩

/-- Where `clean` ends; if it refuses because of a running job, it has deleted nothing. -/
def Cleaned (_ : Unit) (r : Except CleanError String) (h : Home) : Prop :=
  h.Good ∧ ∀ ids, r = .error (.running ids) → h.removed = []

theorem clean_wp (hg : h.Good) (hnone : h.removed = []) :
    wp (cleanSpec euid) clean Cleaned () h := by
  rw [clean, wp_bind]
  refine wp_clean hg trivial ?_
  rintro h₁ raw r h' hk _ hexec _
  cases hexec
  have hnone₁ := hk.removed.trans hnone
  rw [andThen_ok, wp_bind]
  refine wp_orFailed (fun _ _ => ?_) fun e _ => ⟨hk.good, fun _ _ => hnone₁⟩
  rw [andThen_ok, wp_bind]
  refine wp_clean hk.good trivial ?_
  intro h₂ raw₂ r₂ h₃ hk₂ _ hexec₂ _
  obtain ⟨hg₃, hsame, hlock⟩ := CleanCall.exec_tryLock hk₂.good hexec₂
  have hnone₃ := hsame.trans (hk₂.removed.trans hnone₁)
  rw [andThen_ok, wp_bind]
  refine wp_orFailed (fun lock hr => ?_) fun e _ => ⟨hg₃, fun _ _ => hnone₃⟩
  rw [andThen_ok, wp_bind, wp_ensure]
  refine ⟨fun hlocked => ?_, fun _ => ⟨hg₃, fun _ _ => hnone₃⟩⟩
  rw [hlocked] at hr
  rw [andThen_ok]
  refine wp_bind_of (loadStore_wp hg₃ (hlock hr) hnone₃) ?_ ?_
  · rintro _ store h₄ ⟨hg₄, hnone₄, hquiet⟩
    rw [wp_bind, wp_ensure]
    refine ⟨fun hidle => ?_, fun _ => ⟨hg₄, fun _ _ => hnone₄⟩⟩
    -- From here on no worker is alive, and the refusal is behind us.
    have hq₄ := hquiet store rfl hidle
    rw [andThen_ok, wp_bind]
    refine wp_clean_idle rfl hg₄ ?_
    intro h₅ raw₅ r₅ hk₅ hexec₅
    rw [andThen_ok, wp_bind]
    refine wp_orFailed (fun entries hentries => ?_) fun e _ => ⟨hk₅.good, by rintro _ ⟨⟩⟩
    obtain rfl := context_eq_ok hentries
    rw [andThen_ok]
    refine wp_bind_of (removeLogs_wp hk₅.good (hk₅.quiet hq₄) ?_) ?_ ?_
    · intro path hp hlog
      exact lists_isJobLog hk₅.good.named (exec_readDir hexec₅) hp hlog
    · rintro _ jobLogs h₆ ⟨hg₆, hq₆, _⟩
      refine wp_bind_of (removeDaemonLog_wp hg₆ hq₆) ?_ ?_
      · rintro _ daemonLog h₇ ⟨hg₇, _⟩
        exact ⟨hg₇, by rintro _ ⟨⟩⟩
      · rintro _ e h₇ ⟨hg₇, hne⟩
        refine ⟨hg₇, ?_⟩
        rintro ids ⟨⟩
        exact absurd rfl (hne ids)
    · rintro _ e h₆ ⟨hg₆, _, hne⟩
      refine ⟨hg₆, ?_⟩
      rintro ids ⟨⟩
      exact absurd rfl (hne ids)
  · rintro _ e h₄ ⟨hg₄, hnone₄, _⟩
    exact ⟨hg₄, fun _ _ => hnone₄⟩

/-! ## Every run -/

/-- The invariant of a home and its `clean`, while no `state.json` has been overlooked. -/
def Site.Good (euid : Nat) (site : Site) : Prop :=
  match site.clean with
  | none => site.home.Good
  | some prog => prog.Safe (cleanSpec euid) Cleaned site.home

theorem Site.Good.home {site : Site} (hs : site.Good euid) : site.home.Good := by
  cases hc : site.clean with
  | none =>
      simp only [Site.Good, hc] at hs
      exact hs
  | some prog =>
      simp only [Site.Good, hc] at hs
      cases prog with
      | ret s r => exact hs.1
      | call s c k => exact hs.1.1

/-- What happens elsewhere keeps the rest of `clean` safe. -/
theorem cleanSpec_stable {prog : CleanProg} (hp : prog.Safe (cleanSpec euid) Cleaned h)
    (he : Elsewhere euid h h') : prog.Safe (cleanSpec euid) Cleaned h' := by
  refine hp.stable he ?_ ?_ ?_
  · rintro c _ h h' he ⟨hg, hc⟩
    have hk := he.kept hg
    exact ⟨hk.good, hc.kept hk⟩
  · rintro c _ h h' r h'' he ⟨h₁, raw, hrest, hexec⟩
    exact ⟨h₁, raw, .head he hrest, hexec⟩
  · rintro _ r h h' he ⟨hg, hnone⟩
    have hk := he.kept hg
    exact ⟨hk.good, fun ids heq => hk.removed.trans (hnone ids heq)⟩

theorem Site.Good.elsewhere {site : Site} (hs : site.Good euid) (he : Elsewhere euid site.home h') :
    Site.Good euid { site with home := h' } := by
  cases hc : site.clean with
  | none =>
      simp only [Site.Good, hc] at hs ⊢
      exact (he.kept hs).good
  | some prog =>
      simp only [Site.Good, hc] at hs ⊢
      exact cleanSpec_stable hs he

/-- The lock is given up. -/
theorem Home.Good.unlocked (hg : h.Good) : Home.Good { h with locked := false } :=
  ⟨hg.sys, (by rintro ⟨⟩), hg.named, hg.removed⟩

theorem Site.settle_good {prog : CleanProg} (hp : prog.Safe (cleanSpec euid) Cleaned h) :
    (Site.settle h prog).Good euid := by
  cases prog with
  | ret s r =>
      obtain ⟨hg, hnone⟩ := hp
      exact ⟨hg.unlocked, hnone⟩
  | call s c k => exact hp

theorem Site.blindBoot_misread (sys : System) (pid : Nat) (inventory : UniqueInventory)
    (maxRunning : Nat) (excluded : List Nat) : .state :: sys.world.misread ⊆
      (Site.blindBoot sys pid inventory maxRunning excluded).world.misread :=
  System.boot_misread { sys with world := sys.world.overlooked .state } _ _ _ _ _

/-- What was not seen is not forgotten. -/
theorem Site.step_misread (site : Site) (action : SiteAction) :
    site.home.sys.world.misread ⊆ (site.step euid action).home.sys.world.misread := by
  have hsettle : ∀ home prog, (Site.settle home prog).home.sys = home.sys := by
    intro home prog
    cases prog <;> rfl
  cases action with
  | sys action =>
      unfold Site.step
      dsimp only
      split
      · exact List.Subset.refl _
      · exact System.step_misread euid site.home.sys action
  | blindBoot pid inventory maxRunning excluded =>
      unfold Site.step
      dsimp only
      split
      · exact List.Subset.refl _
      · exact List.Subset.trans (List.subset_cons_self .state _) (Site.blindBoot_misread _ _ _ _ _)
  | openDaemonLog | kill => exact List.Subset.refl _
  | clean =>
      unfold Site.step
      dsimp only
      split
      · exact List.Subset.refl _
      · rw [hsettle]
        exact List.Subset.refl _
  | next env =>
      unfold Site.step
      dsimp only
      split
      · split
        · rename_i r home hexec
          rw [hsettle]
          exact CleanCall.exec_misread hexec
        · exact List.Subset.refl _
      · exact List.Subset.refl _

theorem Site.run_misread (site : Site) (actions : List SiteAction) :
    site.home.sys.world.misread ⊆ (site.run euid actions).home.sys.world.misread := by
  induction actions generalizing site with
  | nil => exact List.Subset.refl _
  | cons action rest ih => exact List.Subset.trans (site.step_misread action) (ih _)

/-- A step that does not overlook `state.json`. -/
theorem Site.Good.step {site : Site} (hs : site.Good euid) (action : SiteAction)
    (hseen : (site.step euid action).home.Seen) : (site.step euid action).Good euid := by
  cases action with
  | sys action =>
      unfold Site.step
      dsimp only
      split
      · exact hs
      · rename_i hfree
        refine hs.elsewhere (.sys action fun hlocked => ?_)
        rw [hlocked, Bool.true_and, Bool.not_eq_true] at hfree
        exact hfree
  | blindBoot pid inventory maxRunning excluded =>
      unfold Site.step at hseen ⊢
      dsimp only at hseen ⊢
      split at hseen
      · rename_i hdown
        rw [if_pos hdown]
        exact hs
      · exact absurd (Site.blindBoot_misread _ _ _ _ _ List.mem_cons_self) hseen
  | openDaemonLog => exact hs.elsewhere .openDaemonLog
  | clean =>
      have hg := hs.home
      unfold Site.step
      dsimp only
      split
      · exact hs
      · apply Site.settle_good
        have hfresh : Home.Good { site.home with removed := [] } :=
          ⟨hg.sys, hg.excluded, hg.named, by rintro _ ⟨⟩⟩
        exact clean_wp hfresh rfl
  | next env =>
      unfold Site.step at hseen ⊢
      dsimp only at hseen ⊢
      split
      · rename_i s c k hc
        simp only [hc] at hseen
        split
        · rename_i r home hexec
          simp only [hexec] at hseen
          apply Site.settle_good
          simp only [Site.Good, hc] at hs
          -- Nothing moves within this action: the call takes effect at once.
          refine hs.2 r home ⟨site.home, env c, .refl, hexec, ?_⟩
          cases hk : k r with
          | ret | call =>
              rw [hk] at hseen
              exact hseen
        · exact hs
      · exact hs
  | kill => exact hs.home.unlocked

theorem Site.init_good : Site.init.Good euid := by
  show Home.Good _
  refine ⟨System.init_good, (by rintro ⟨⟩), fun _ => rfl, ?_⟩
  rintro _ ⟨⟩

theorem Site.Good.run {site : Site} (hs : site.Good euid) (actions : List SiteAction)
    (hseen : (site.run euid actions).home.Seen) : (site.run euid actions).Good euid := by
  induction actions generalizing site with
  | nil => exact hs
  | cons action rest ih =>
      exact ih (hs.step action fun h => hseen (Site.run_misread _ rest h)) hseen

/-! ## What a call deletes -/

/-- A call of `clean` leaves the files alone, or deletes one and records it. -/
inductive Deletes (h h' : Home) : Prop
  | nothing (files : h'.sys.world.file = h.sys.world.file) (log : h'.daemonLog = h.daemonLog) :
      Deletes h h'
  | entry (path : Path) (files : ∀ p, p ≠ path → h'.sys.world.file p = h.sys.world.file p)
      (log : h'.daemonLog = h.daemonLog) (recorded : ⟨.entry path, []⟩ ∈ h'.removed) : Deletes h h'
  | daemonLog (files : h'.sys.world.file = h.sys.world.file)
      (recorded : ⟨.daemonLog, []⟩ ∈ h'.removed) : Deletes h h'

theorem CleanCall.exec_deletes {c : CleanCall} {raw : c.Raw} {r : c.Reply} (hc : c.Admitted h)
    (hexec : c.exec h raw = some (r, h')) : Deletes h h' := by
  cases c with
  | initPaths =>
      cases hexec
      exact Deletes.nothing rfl rfl
  | tryLock =>
      cases raw with
      | error e =>
          cases hexec
          exact Deletes.nothing rfl rfl
      | ok taken =>
          simp only [CleanCall.exec] at hexec
          split at hexec <;> cases hexec <;> exact Deletes.nothing rfl rfl
  | removeDaemonLog =>
      cases raw with
      | some e =>
          cases hexec
          exact Deletes.nothing rfl rfl
      | none =>
          simp only [CleanCall.exec] at hexec
          split at hexec
          · cases hexec
            refine Deletes.daemonLog rfl (List.mem_cons.mpr (Or.inl ?_))
            rw [hc.live, List.map_nil]
          · cases hexec
            exact Deletes.nothing rfl rfl
  | sys c =>
      cases c with
      | unlink path =>
          obtain rfl | rfl := CleanCall.unlink_eq hexec
          · exact Deletes.nothing rfl rfl
          · refine Deletes.entry path (fun p hp => World.setFile_of_ne _ _ _ hp) rfl
              (List.mem_cons.mpr (Or.inl ?_))
            rw [hc.1.live, List.map_nil]
      | pathExists path =>
          obtain rfl := hc
          rcases CleanCall.exec_pathExists hexec with ⟨rfl, _⟩ | ⟨_, hfiles, hlog⟩
          · exact Deletes.nothing rfl rfl
          · exact Deletes.nothing hfiles hlog
      | _ =>
          obtain ⟨rfl, _⟩ := CleanCall.exec_idle hc hexec
          exact Deletes.nothing rfl rfl

theorem Site.Good.next_deletes {site : Site} (hs : site.Good euid)
    (env : (c : CleanCall) → c.Raw) : Deletes site.home (site.step euid (.next env)).home := by
  unfold Site.step
  dsimp only
  split
  · rename_i s c k hc
    split
    · rename_i r home hexec
      simp only [Site.Good, hc] at hs
      have hd := CleanCall.exec_deletes hs.1.2 hexec
      -- The end of `clean` deletes nothing.
      cases k r with
      | ret | call => cases hd with
        | nothing files log => exact Deletes.nothing files log
        | entry path files log recorded => exact Deletes.entry path files log recorded
        | daemonLog files recorded => exact Deletes.daemonLog files recorded
    · exact Deletes.nothing rfl rfl
  · exact Deletes.nothing rfl rfl

end Xlurm
