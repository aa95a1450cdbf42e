/-
  Xlurm.Refine.Spool

  The daemon alone with its files: what the calls of `cleanup` do to `jobs/` and
  to `state.json` when nobody else moves, down to the system calls.
-/

import Xlurm.Refine.System

namespace Xlurm

open Prog.Comp

variable {w w₁ w' : World} {s : Scheduler} {e : ProcessExecutor} {pid : Nat} {calm : Prop}

/-- Every file shows up in a listing. -/
def World.Listed (w : World) : Prop := ∀ path f, w.file path = some f → path ∈ w.known

theorem World.Listed.setFile (h : w.Listed) (path : Path) (f' : Option File) :
    (w.setFile path f').Listed := by
  intro p f hf
  rcases World.setFile_cases hf with ⟨rfl, _⟩ | ⟨_, hold⟩
  · exact List.mem_cons_self
  · exact List.mem_cons_of_mem _ (h p f hold)

/-- The environment lets the call succeed. -/
def Sys.Succeeds : (c : Sys) → c.Raw → Prop
  | account _ _, r => ∃ name, r = .ok name
  | readDir, r => ∃ entries, r = .ok entries ∧ ∀ e, .error e ∉ entries
  | spawn _, r => ∃ started, r = .ok started
  | unlink _, raw | openLog _, raw | readLog _ _ _, raw | create _, raw | write _ _, raw
  | fsync _, raw | rename _ _, raw | syncDir, raw | flock _, raw | openAppend _, raw
  | tryClone _, raw | tryWait _, raw | wait _, raw | read _, raw => raw = none
  | now, _ | isDir _, _ | ask _, _ | close _, _ | pathExists _, _ | hang, _ | note _, _ => True

/-- The call can succeed in `w`. -/
def Sys.Possible (c : Sys) (w : World) : Prop :=
  ∃ raw, c.Succeeds raw ∧ (c.exec .daemon w raw).isSome = true

/-- The system calls of the daemon, without interference: each can succeed, and where it is
    not `calm`, any of them may fail. -/
def soloSpec (calm : Prop) : Prog.Spec (Scheduler × ProcessExecutor) Sys Sys.Reply World where
  pre c _ w := c.Possible w
  post c _ w r w' := ∃ raw, (calm → c.Succeeds raw) ∧ c.exec .daemon w raw = some (r, w')

/-- `soloSpec` for a handler that runs while the scheduler is in state `s`. -/
abbrev soloHandler (calm : Prop) (s : Scheduler) : Prog.Spec ProcessExecutor Sys Sys.Reply World :=
  (soloSpec calm).comap fun e => (s, e)

theorem soloSpec_answers (calm : Prop) (c : Sys) (st : Scheduler × ProcessExecutor) (w : World)
    (h : (soloSpec calm).pre c st w) : ∃ r w', (soloSpec calm).post c st w r w' := by
  obtain ⟨raw, hsucceeds, hexec⟩ := h
  obtain ⟨⟨r, w'⟩, hexec⟩ := Option.isSome_iff_exists.mp hexec
  exact ⟨r, w', raw, fun _ => hsucceeds, hexec⟩

/-- A full listing of `jobs/`. -/
def World.listing (w : World) : List (Except Error Path) :=
  (w.known.filter fun path => path.inJobs && (w.file path).isSome).map .ok

theorem World.lists_listing (w : World) : w.lists w.listing = true := by
  rw [World.lists, Bool.and_eq_true, Bool.or_eq_true]
  constructor
  · rw [List.all_eq_true]
    intro entry hentry
    obtain ⟨path, hpath, rfl⟩ := List.mem_map.mp hentry
    exact (List.mem_filter.mp hpath).2
  · apply Or.inr
    rw [List.all_eq_true]
    intro path hpath
    by_cases hhere : (path.inJobs && (w.file path).isSome) = true
    · rw [Bool.or_eq_true]
      apply Or.inr
      rw [List.any_eq_true]
      exact ⟨.ok path, List.mem_map_of_mem (List.mem_filter.mpr ⟨hpath, hhere⟩),
        decide_eq_true rfl⟩
    · rw [Bool.eq_false_iff.mpr hhere]
      rfl

theorem Sys.readDir_possible (w : World) : Sys.readDir.Possible w := by
  refine ⟨.ok w.listing, ⟨w.listing, rfl, fun e hmem => ?_⟩, ?_⟩
  · obtain ⟨_, _, ⟨⟩⟩ := List.mem_map.mp hmem
  · show (if w.lists w.listing then some (Except.ok w.listing, w) else none).isSome = true
    rw [if_pos w.lists_listing]
    rfl

theorem Sys.unlink_possible (path : Path) (w : World) : (Sys.unlink path).Possible w := by
  refine ⟨none, rfl, ?_⟩
  cases hf : w.file path <;> simp only [Sys.exec, hf, Option.isSome_some]

theorem Sys.rename_possible {source : Path} (target : Path) {f : File}
    (hf : w.file source = some f) : (Sys.rename source target).Possible w := by
  refine ⟨none, rfl, ?_⟩
  simp only [Sys.exec, hf, Option.isSome_some]

/-- The calls of `cleanup`. -/
def spoolSpec (calm : Prop) : Prog.Spec Scheduler Call Call.Reply World where
  pre c _ _ :=
    match c with
    | .readDir | .save _ => True
    | .removeFile path => path.inJobs = true
    | _ => False
  post c _ w r w' :=
    match c with
    | .readDir => w' = w ∧ (∀ entries, r = .ok entries → w.lists entries = true) ∧
        (calm → ∃ entries, r = .ok entries ∧ ∀ e, .error e ∉ entries)
    | .removeFile path => (w' = w ∨ w' = w.setFile path none) ∧
        ((∀ e, r ≠ .error e) → w'.file path = none) ∧ (calm → ∀ e, r ≠ .error e)
    | .save store => (∀ path, path.inJobs = true → w'.file path = w.file path) ∧
        (w.Listed → w'.Listed) ∧ (w'.disk = store ∨ w'.disk = w.disk) ∧
        (r = .ok () → w'.disk = store) ∧ (calm → r = .ok ())
    | _ => False

/-! ## Writing `state.json` -/

/-- Nothing but temporaries of `state.json` has changed. -/
structure World.Drafted (w w' : World) : Prop where
  file : ∀ path, (∀ p, path ≠ .stateTmp p) → w'.file path = w.file path
  listed : w.Listed → w'.Listed

theorem World.Drafted.refl (w : World) : w.Drafted w := ⟨fun _ _ => rfl, id⟩

theorem World.Drafted.trans (h : w.Drafted w₁) (h' : w₁.Drafted w') : w.Drafted w' :=
  ⟨fun path hp => (h'.file path hp).trans (h.file path hp), fun hl => h'.listed (h.listed hl)⟩

theorem World.Drafted.setFile (w : World) (p : Nat) (f : Option File) :
    w.Drafted (w.setFile (.stateTmp p) f) :=
  ⟨fun _ hpath => World.setFile_of_ne _ _ _ (hpath p), fun hl => hl.setFile _ _⟩

theorem World.Drafted.disk (h : w.Drafted w') : w'.disk = w.disk := by
  have hstate : w'.file .state = w.file .state := h.file .state (by simp)
  simp only [World.disk, hstate]

theorem World.Drafted.jobs (h : w.Drafted w') {path : Path} (hp : path.inJobs = true) :
    w'.file path = w.file path := by
  refine h.file path ?_
  rintro p rfl
  cases hp

/-- What `save` leaves behind. -/
structure World.Stored (calm : Prop) (store : Store) (w : World) (r : Except Error Unit)
    (w' : World) : Prop where
  jobs : ∀ path, path.inJobs = true → w'.file path = w.file path
  listed : w.Listed → w'.Listed
  disk : w'.disk = store ∨ w'.disk = w.disk
  ok : r = .ok () → w'.disk = store
  calm : calm → r = .ok ()

theorem World.Drafted.failed {store : Store} {err : Error} (h : w.Drafted w') (hcalm : ¬ calm) :
    World.Stored calm store w (.error err) w' :=
  ⟨fun _ hp => h.jobs hp, h.listed, Or.inr h.disk, (by rintro ⟨⟩), fun hc => absurd hc hcalm⟩

/-- The temporary replaces `state.json`. -/
theorem World.Drafted.renamed {store : Store} {f : File} (h : w.Drafted w') (p : Nat)
    (hf : f.data = .whole (.store store)) {r : Except Error Unit} (hcalm : calm → r = .ok ()) :
    World.Stored calm store w r (w'.renamed (.stateTmp p) .state f) := by
  have hrenamed : w'.renamed (.stateTmp p) .state f =
      (w'.setFile (.stateTmp p) none).setFile .state (some f) := by
    simp only [World.renamed, World.publish]
  have hd := h.trans (World.Drafted.setFile w' p none)
  have hdisk : (w'.renamed (.stateTmp p) .state f).disk = store := by
    rw [hrenamed]
    exact World.disk_setFile _ _ rfl hf
  refine ⟨fun path hp => ?_, fun hl => ?_, Or.inl hdisk, fun _ => hdisk, hcalm⟩
  · have hne : path ≠ .state := by
      rintro rfl
      cases hp
    rw [hrenamed, World.setFile_of_ne _ _ _ hne]
    exact hd.jobs hp
  · rw [hrenamed]
    exact (hd.listed hl).setFile _ _

theorem wp_solo {c : Sys} {Q : ProcessExecutor → Except Error c.Reply → World → Prop}
    (hc : c.Possible w) (hQ : ∀ raw r w', (calm → c.Succeeds raw) → c.exec .daemon w raw = some (r, w') →
      Q e (.ok r) w') :
    wp (soloHandler calm s) (call c) Q e w := by
  rw [wp_call]
  refine ⟨hc, ?_⟩
  rintro r w' ⟨raw, hcalm, hexec⟩
  exact hQ raw r w' hcalm hexec

/-- A call that can fail, and does. -/
theorem not_calm {err : Error} (h : calm → some err = none) : ¬ calm := by
  intro hc
  cases h hc

/-- One more piece of the temporary. -/
theorem wp_solo_write {p : Nat} {piece : Piece} {f : File}
    {Q : ProcessExecutor → Except Error (Except Error Unit) → World → Prop}
    (hf : w.file (.stateTmp p) = some f)
    (herr : ∀ err, ¬ calm → Q e (.ok (.error err)) w)
    (hok : ∀ w' f', w.Drafted w' → w'.file (.stateTmp p) = some f' →
      f'.data = f.data.append piece → Q e (.ok (.ok ())) w') :
    wp (soloHandler calm s) (call (.write (.stateTmp p) piece)) Q e w := by
  refine wp_solo ⟨none, rfl, rfl⟩ ?_
  intro raw r w' hcalm hexec
  cases raw with
  | some err =>
      cases hexec
      exact herr err (not_calm hcalm)
  | none =>
      cases hexec
      rcases w.written_eq (.stateTmp p) piece with ⟨hnone, _⟩ | ⟨f₁, hf₁, heq⟩
      · rw [hnone] at hf
        cases hf
      · rw [hf] at hf₁
        cases hf₁
        rw [heq]
        exact hok _ ⟨f.data.append piece, f.holders⟩ (World.Drafted.setFile w p _)
          (World.setFile_same _ _ _) rfl

theorem writeState_solo (pid : Nat) (store : Store) :
    wp (soloHandler calm s) (writeJson pid .state (.store store))
      (fun e' r w' => e' = e ∧ World.Stored calm store w r w') e w := by
  rw [writeJson, wp_bind]
  refine wp_solo ⟨none, rfl, rfl⟩ ?_
  intro raw₁ r₁ w₁ hcalm₁ hexec₁
  rw [andThen_ok, wp_bind, wp_lift]
  cases raw₁ with
  | some err =>
      cases hexec₁
      exact ⟨rfl, (World.Drafted.refl w).failed (not_calm hcalm₁)⟩
  | none =>
  cases hexec₁
  obtain ⟨holders, heq, _⟩ := w.created_eq (.stateTmp pid)
  have hd₁ : w.Drafted (w.created (.stateTmp pid)) := by
    rw [heq]
    exact World.Drafted.setFile w pid _
  have hf₁ : (w.created (.stateTmp pid)).file (.stateTmp pid) = some ⟨.empty, holders⟩ := by
    rw [heq]
    exact World.setFile_same _ _ _
  rw [andThen_ok, wp_bind]
  -- The text is written in two pieces; a reader between them would see half of it.
  apply wp_solo_write hf₁
  · intro err hcalm
    rw [andThen_ok, wp_bind, wp_lift]
    exact ⟨rfl, hd₁.failed hcalm⟩
  intro w₂ f₂ hd₂ hf₂ hdata₂
  have hd₂ := hd₁.trans hd₂
  rw [andThen_ok, wp_bind, wp_lift, andThen_ok, wp_bind]
  apply wp_solo_write hf₂
  · intro err hcalm
    rw [andThen_ok, wp_bind, wp_lift]
    exact ⟨rfl, hd₂.failed hcalm⟩
  intro w₃ f₃ hd₃ hf₃ hdata₃
  have hd₃ := hd₂.trans hd₃
  rw [hdata₂, Data.empty_append_head, Data.head_append_tail] at hdata₃
  rw [andThen_ok, wp_bind, wp_lift, andThen_ok, wp_bind]
  refine wp_solo ⟨none, rfl, rfl⟩ ?_
  intro raw₄ r₄ w₄ hcalm₄ hexec₄
  -- `sync_all` on the file.
  obtain rfl := exec_idle rfl hexec₄
  rw [andThen_ok, wp_bind, wp_lift]
  cases raw₄ with
  | some err =>
      cases hexec₄
      exact ⟨rfl, hd₃.failed (not_calm hcalm₄)⟩
  | none =>
  cases hexec₄
  rw [andThen_ok, wp_bind]
  -- The rename is the one step that changes the store.
  refine wp_solo (Sys.rename_possible _ hf₃) ?_
  intro raw₅ r₅ w₅ hcalm₅ hexec₅
  rw [andThen_ok, wp_bind, wp_lift]
  cases raw₅ with
  | some err =>
      cases hexec₅
      exact ⟨rfl, hd₃.failed (not_calm hcalm₅)⟩
  | none =>
  simp only [Sys.exec, Path.temporary, hf₃] at hexec₅
  cases hexec₅
  -- From here on the new store is in place, whether or not the directory gets synced.
  rw [andThen_ok, wp_bind]
  refine wp_solo ⟨none, rfl, rfl⟩ ?_
  intro raw₆ r₆ w₆ hcalm₆ hexec₆
  obtain rfl := exec_idle rfl hexec₆
  rw [andThen_ok, wp_lift]
  refine ⟨rfl, hd₃.renamed pid hdata₃ fun hc => ?_⟩
  obtain rfl : raw₆ = none := hcalm₆ hc
  cases hexec₆
  rfl

/-! ## The calls of `cleanup` -/

theorem World.Listed.calls {c : Call} {r : c.Reply} (hl : w.Listed)
    (hpost : (spoolSpec calm).post c s w r w') : w'.Listed := by
  cases c with
  | readDir =>
      obtain ⟨rfl, _⟩ := hpost
      exact hl
  | removeFile path =>
      rcases hpost.1 with rfl | rfl
      · exact hl
      · exact hl.setFile _ _
  | save store => exact hpost.2.1 hl
  | _ => cases hpost

/-- The handlers keep to it. -/
theorem handler_spool (calm : Prop) (pid : Nat) :
    Prog.Safe.Implements (spoolSpec calm) (soloSpec calm) id World.Listed (handler pid) := by
  intro c s e w hl hpre
  cases c with
  | readDir =>
      refine ⟨Sys.readDir_possible w, ?_⟩
      rintro r w' ⟨raw, hcalm, hexec⟩
      obtain rfl := exec_idle rfl hexec
      cases raw with
      | error err =>
          cases hexec
          exact ⟨hl, rfl, (by rintro _ ⟨⟩), fun hc => (by obtain ⟨_, ⟨⟩, _⟩ := hcalm hc)⟩
      | ok listed =>
          simp only [Sys.exec] at hexec
          split at hexec
          · rename_i hlists
            cases hexec
            refine ⟨hl, rfl, fun entries hr => ?_, hcalm⟩
            cases hr
            exact hlists
          · cases hexec
  | removeFile path =>
      refine ⟨Sys.unlink_possible path w, ?_⟩
      rintro r w' ⟨raw, hcalm, hexec⟩
      have hpost : (spoolSpec calm).post (.removeFile path) s w r w' := by
        cases raw with
        | some err =>
            cases hexec
            exact ⟨Or.inl rfl, fun h => absurd rfl (h err), fun hc => absurd hc (not_calm hcalm)⟩
        | none =>
            cases hf : w.file path with
            | none =>
                simp only [Sys.exec, hf] at hexec
                cases hexec
                exact ⟨Or.inl rfl, fun _ => hf, by rintro _ _ ⟨⟩⟩
            | some f =>
                simp only [Sys.exec, hf] at hexec
                cases hexec
                exact ⟨Or.inr rfl, fun _ => World.setFile_same _ _ _, by rintro _ _ ⟨⟩⟩
      exact ⟨hl.calls hpost, hpost⟩
  | save store =>
      refine Prog.Safe.mono (writeState_solo pid store) ?_
      rintro e' r w' ⟨_, hstored⟩
      exact ⟨hstored.listed hl, hstored.jobs, hstored.listed, hstored.disk, hstored.ok,
        hstored.calm⟩
  | _ => cases hpre

end Xlurm
