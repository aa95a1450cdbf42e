/-
  Xlurm.Refine.System

  The whole system refines the ledger: whatever the daemon, the workers, crashes
  and restarts do, the ledger of the next state is reachable from the one before.

  While a daemon runs, the invariant is that the rest of its program is safe
  over the machine (`osSpec`); a step of the daemon consumes one call of it, and
  the steps of all others are among those that `osSpec` admits before a call.
-/

import Xlurm.Refine.Handlers

namespace Xlurm

open Relation (ReflTransGen)

variable {L₀ : Ledger} {sys : System} {w w' : World}

/-- The system as the ledger sees it. -/
def System.ledger (sys : System) : Ledger := ⟨sys.mem.map (·.store), sys.world.view⟩

theorem System.ledger_mem {s : Scheduler} (h : sys.mem = some s) :
    sys.ledger.mem = some s.store := by
  show sys.mem.map (·.store) = some s.store
  rw [h]
  rfl

/-- Where the daemon's program may end. -/
def Final (L₀ : Ledger) (st : Scheduler × ProcessExecutor) (r : Except Error Next) (w : World) :
    Prop :=
  Resting w.pid w ∧ Settled L₀ st.1 r w.scene

/-- The invariant of the system, relative to an earlier ledger. -/
def System.Good (L₀ : Ledger) (sys : System) : Prop :=
  match sys.daemon with
  | none => sys.world.Sound ∧ Free sys.world ∧ Reach L₀ ⟨none, sys.world.view⟩
  | some prog => prog.Safe (osSpec L₀) (Final L₀) sys.world

/-! ## The daemon's program -/

/-- At every point of the daemon's program the machine is sound. -/
theorem safe_now {prog : DaemonProg} (h : prog.Safe (osSpec L₀) (Final L₀) w) :
    w.Sound ∧ Reach L₀ ⟨some prog.state.1.store, w.view⟩ := by
  cases prog with
  | ret st r => exact ⟨h.1.sound, h.2.1⟩
  | call st c k => exact ⟨h.1.1, h.1.2.1⟩

/-- What the workers do in the meantime keeps the daemon's program safe. -/
theorem safe_meanwhile {prog : DaemonProg} (h : prog.Safe (osSpec L₀) (Final L₀) w)
    (hi : Interferes w w') : prog.Safe (osSpec L₀) (Final L₀) w' := by
  refine h.stable hi ?_ ?_ ?_
  · rintro c st w w' hi ⟨hs, hr, hc⟩
    obtain ⟨hs', hr', hb⟩ := hi.sound hs hr
    refine ⟨hs', hr', ?_⟩
    rw [hb.pid, hb.hist]
    exact hc
  · rintro c st w w' r w'' hi ⟨w₁, raw, hrest, hexec⟩
    exact ⟨w₁, raw, .head hi hrest, hexec⟩
  · rintro st r w w' hi ⟨hrest, hr, hidle⟩
    obtain ⟨hs', hr', hb⟩ := hi.sound hrest.sound hr
    refine ⟨⟨hs', hb.held _ hrest.free, rfl⟩, hr', fun hok => ?_⟩
    exact (hidle hok).congr hb.disk hb.hist

/-! ## The end of a daemon -/

theorem World.view_released (w : World) (who : Holder) : (w.released who).view = w.view := by
  simp only [World.view, World.disk_released]
  rfl

/-- When the daemon ends, the kernel releases its locks and no others. -/
theorem Files.released (h : Files w) : Files (w.released .daemon) :=
  h.release .daemon (List.Sublist.refl _) (fun _ _ => by simp) fun _ hwk _ => hwk

theorem free_released (w : World) : Free (w.released .daemon) := by
  intro path f hf hd
  obtain ⟨f₀, _, _, hholders⟩ := World.file_released hf
  rw [hholders] at hd
  have hne := (List.mem_filter.mp hd).2
  simp at hne

theorem System.stopped_good {m : Store} (h : w.Sound) (hr : Reach L₀ ⟨some m, w.view⟩) :
    (System.stopped w).Good L₀ := by
  refine ⟨⟨h.files.released, ?_⟩, free_released w, ?_⟩
  · refine h.workers.congr rfl fun wk _ => ?_
    simp only [System.stopped, World.workerView, World.dataAt_released]
    rfl
  · rw [System.stopped, World.view_released]
    exact hr.step (Step.crash m w.view)

theorem System.settle_good {prog : DaemonProg} (h : prog.Safe (osSpec L₀) (Final L₀) w) :
    (System.settle w prog).Good L₀ := by
  unfold System.settle
  split
  · exact System.stopped_good h.1.sound h.2.1
  · exact System.stopped_good h.1.sound h.2.1
  · exact h

/-! ## Booting -/

/-- `Scheduler::new` loads what is on disk. -/
theorem Scheduler.new_store {inventory : Inventory} {maxRunning : Nat} {s : Scheduler}
    (h : Scheduler.new ((w.file .state).map (·.data)) inventory maxRunning = .ok s) :
    s.store = w.disk := by
  unfold Scheduler.new at h
  split at h
  · cases hf : w.file .state with
    | none =>
        simp only [hf, Option.map_none] at h
        cases h
        simp only [World.disk, hf]
    | some f =>
        simp only [hf, Option.map_some] at h
        cases hstore : f.data.store? with
        | none =>
            simp only [hstore] at h
            cases h
        | some store =>
            simp only [hstore] at h
            cases h
            simp only [World.disk, hf, hstore, Option.getD_some]
  · cases h

/-- A new daemon starts on a sound machine. -/
theorem boot_good {pid maxRunning : Nat} {inventory : Inventory} {s : Scheduler}
    (excluded : List Nat) (h : w.Sound) (hfree : Free w) (hr : Reach L₀ ⟨none, w.view⟩)
    (hpidFree : w.pidFree pid = true)
    (hnew : Scheduler.new ((w.file .state).map (·.data)) inventory maxRunning = .ok s) :
    (System.settle ({ w with pid }.log .booted)
      ((serveStart excluded s).interp (handler pid) .new)).Good L₀ := by
  have hstore := Scheduler.new_store hnew
  -- The pid of the new daemon is fresh, as the kernel hands it out.
  obtain ⟨hfits, hdaemon⟩ := World.pidFree_spec hpidFree
  have hfiles : Files { w with pid } :=
    ⟨h.files.state, h.files.pids, h.files.ids, hdaemon, h.files.lock, h.files.locked,
      h.files.holders, h.files.result, h.files.published, h.files.known, hfits, h.files.pidsFit,
      h.files.artifacts⟩
  have hrest : Resting pid ({ w with pid }.log .booted) := ⟨⟨hfiles.log _, h.workers⟩, hfree, rfl⟩
  have hview : ({ w with pid }.log .booted).view = w.view.log .booted :=
    World.view_log { w with pid } .booted
  have hreach : Reach L₀ ⟨some s.store, ({ w with pid }.log .booted).view⟩ := by
    rw [hview, hstore]
    exact hr.step (Step.boot w.view)
  -- Memory is what was read from the disk, so both agree when the first tick begins.
  have hsynced : Synced s.store ({ w with pid }.log .booted).view :=
    Synced.of_eq (hreach.inv.memOrdered _ rfl) hstore.symm
  apply System.settle_good
  have hsafe := Prog.Safe.interp (handler_implements L₀ pid)
    (serveStart_wp excluded hreach hsynced rfl) hrest .new
  refine hsafe.mono ?_
  rintro st r w' ⟨hrest', hsettled⟩
  exact ⟨hrest'.pid ▸ hrest', hsettled⟩

/-- The main loop's next operation. -/
theorem begin_good {st : Scheduler × ProcessExecutor} (euid : Nat) (op : Op)
    (h : Final L₀ st (.ok .loop) w) :
    (System.settle w ((serveOp euid op st.1).interp (handler w.pid) st.2)).Good L₀ := by
  obtain ⟨hrest, hr, hidle⟩ := h
  apply System.settle_good
  have hsafe := Prog.Safe.interp (handler_implements L₀ w.pid)
    (serveOp_wp euid op hr (hidle rfl)) hrest st.2
  refine hsafe.mono ?_
  rintro st' r w' ⟨hrest', hsettled⟩
  exact ⟨hrest'.pid ▸ hrest', hsettled⟩

/-! ## Every action -/

theorem System.Good.interferes (h : sys.Good L₀) (hi : Interferes sys.world w') :
    System.Good L₀ { sys with world := w' } := by
  cases hd : sys.daemon with
  | none =>
      simp only [System.Good, hd] at h ⊢
      obtain ⟨hs, hfree, hr⟩ := h
      obtain ⟨hs', hr', hb⟩ := hi.sound hs hr
      exact ⟨hs', hb.held _ hfree, hr'⟩
  | some prog =>
      simp only [System.Good, hd] at h ⊢
      exact safe_meanwhile h hi

/-- Everything that one action can do. -/
inductive System.Moves (euid : Nat) (sys : System) : System → Prop
  | idle : Moves euid sys sys
  | boot (pid : Nat) (inventory : UniqueInventory) (maxRunning : Nat) (excluded : List Nat)
      (s : Scheduler) (down : sys.daemon = none) (free : sys.world.pidFree pid = true)
      (new : Scheduler.new ((sys.world.file .state).map (·.data)) inventory.toInventory
        maxRunning = .ok s) :
      Moves euid sys (settle ({ sys.world with pid }.log .booted)
        ((serveStart excluded s).interp (handler pid) .new))
  | begin (op : Op) (s : Scheduler) (e : ProcessExecutor)
      (rest : sys.daemon = some (.ret (s, e) (.ok .loop))) :
      Moves euid sys (settle sys.world ((serveOp euid op s).interp (handler sys.world.pid) e))
  | daemon (st : Scheduler × ProcessExecutor) (c : Sys) (k : c.Reply → DaemonProg) (raw : c.Raw)
      (r : c.Reply) (w' : World) (next : sys.daemon = some (.call st c k))
      (exec : c.exec .daemon sys.world raw = some (r, w')) : Moves euid sys (settle w' (k r))
  | crash (prog : DaemonProg) (up : sys.daemon = some prog) : Moves euid sys (stopped sys.world)
  | beside (w' : World) (hi : Interferes sys.world w') : Moves euid sys { sys with world := w' }

theorem System.step_moves (euid : Nat) (sys : System) (action : Action) :
    Moves euid sys (sys.step euid action) := by
  cases action with
  -- A boot needs that no daemon runs, a free pid and a readable state file.
  | boot pid inventory maxRunning excluded =>
      unfold System.step System.boot
      cases hd : sys.daemon with
      | some prog => exact Moves.idle
      | none =>
          cases hfree : sys.world.pidFree pid with
          | false =>
              simp only [hfree, Bool.not_false, if_true]
              exact Moves.idle
          | true =>
              simp only [hfree, Bool.not_true, if_false, Bool.false_eq_true]
              split
              · exact Moves.idle
              · rename_i s hnew
                exact Moves.boot pid inventory maxRunning excluded s hd hfree hnew
  | begin op =>
      unfold System.step
      dsimp only
      split
      · rename_i s e hd
        exact Moves.begin op s e hd
      · exact Moves.idle
  | daemon env =>
      unfold System.step
      dsimp only
      split
      · rename_i st c k hd
        split
        · rename_i r w' hexec
          exact Moves.daemon st c k (env c) r w' hd hexec
        · exact Moves.idle
      · exact Moves.idle
  | crash =>
      unfold System.step
      dsimp only
      split
      · rename_i prog hd
        exact Moves.crash prog hd
      · exact Moves.idle
  -- What other processes do is beside the daemon.
  | worker pid env => exact Moves.beside _ (.step pid env)
  | kill pid => exact Moves.beside _ (.kill pid)
  | output pid bytes =>
      unfold System.step
      dsimp only
      split
      · rename_i wk hfind
        exact Moves.beside _ (.output wk bytes (List.mem_of_find?_eq_some hfind))
      · exact Moves.idle

theorem System.Good.moves {sys' : System} {euid : Nat} (h : sys.Good L₀)
    (hm : System.Moves euid sys sys') : sys'.Good L₀ := by
  cases hm with
  | idle => exact h
  | boot pid inventory maxRunning excluded s down free new =>
      simp only [System.Good, down] at h
      obtain ⟨hs, hfree, hr⟩ := h
      exact boot_good excluded hs hfree hr free new
  | begin op s e rest =>
      simp only [System.Good, rest] at h
      exact begin_good euid op h
  | daemon st c k raw r w' next exec =>
      simp only [System.Good, next] at h
      -- No other process moves within this action: an empty interference before the call.
      exact System.settle_good (h.2 r w' ⟨sys.world, raw, .refl, exec⟩)
  | crash prog up =>
      simp only [System.Good, up] at h
      -- A crash may come between any two calls, and at each of them the machine is sound.
      obtain ⟨hs, hr⟩ := safe_now h
      exact System.stopped_good hs hr
  | beside w' hi => exact h.interferes hi

/-- One action keeps the invariant. -/
theorem System.Good.step (h : sys.Good L₀) (euid : Nat) (action : Action) :
    (sys.step euid action).Good L₀ :=
  h.moves (System.step_moves euid sys action)

/-- Every run keeps the invariant. -/
theorem System.Good.run (h : sys.Good L₀) (euid : Nat) (actions : List Action) :
    (sys.run euid actions).Good L₀ := by
  induction actions generalizing sys with
  | nil => exact h
  | cons action rest ih => exact ih (h.step euid action)

theorem System.init_good : System.init.Good Ledger.init := by
  have hfiles : Files System.init.world :=
    { state := by rintro _ ⟨⟩
      pids := List.nodup_nil
      ids := List.nodup_nil
      daemonPid := by rintro _ ⟨⟩
      lock := by rintro _ ⟨⟩
      locked := by rintro _ _ _ ⟨⟩
      holders := by rintro _ _ _ ⟨⟩
      result := by rintro _ _ ⟨⟩
      published := by rintro _ _ ⟨⟩
      known := by rintro _ _ ⟨⟩
      pidFits := by decide
      pidsFit := by rintro _ ⟨⟩
      artifacts := by rintro _ _ _ ⟨⟩ }
  refine ⟨⟨hfiles, ?_⟩, ?_, Reach.refl Inv.init⟩
  · rintro _ ⟨⟩
  · rintro _ _ ⟨⟩

/-- The ledger of the system is reachable from the earlier one. -/
theorem System.Good.reach (h : sys.Good L₀) : Reach L₀ sys.ledger := by
  cases hd : sys.daemon with
  | none =>
      simp only [System.Good, hd] at h
      simp only [System.ledger, System.mem, hd]
      exact h.2.2
  | some prog =>
      simp only [System.Good, hd] at h
      simp only [System.ledger, System.mem, hd]
      exact (safe_now h).2

theorem System.Good.sound (h : sys.Good L₀) : sys.world.Sound := by
  cases hd : sys.daemon with
  | none =>
      simp only [System.Good, hd] at h
      exact h.1
  | some prog =>
      simp only [System.Good, hd] at h
      exact (safe_now h).1

/-- The daemon is down, or between two operations of its main loop. -/
def System.AtRest (sys : System) : Prop :=
  ∀ prog, sys.daemon = some prog → ∃ st, prog = .ret st (.ok .loop)

/-- A system at rest can be taken for the beginning of the run. -/
theorem System.Good.rebase (h : sys.Good L₀) (hrest : sys.AtRest) : sys.Good sys.ledger := by
  have hinv := h.reach.inv
  cases hd : sys.daemon with
  | none =>
      simp only [System.Good, hd] at h
      simp only [System.ledger, System.mem, hd] at hinv
      simp only [System.Good, System.ledger, System.mem, hd]
      exact ⟨h.1, h.2.1, Reach.refl hinv⟩
  | some prog =>
      obtain ⟨st, rfl⟩ := hrest prog hd
      simp only [System.Good, hd] at h
      simp only [System.ledger, System.mem, hd] at hinv
      simp only [System.Good, System.ledger, System.mem, hd]
      exact ⟨h.1, Reach.refl hinv, h.2.2⟩

/-- Whatever happens from the empty system: its ledger is reachable. -/
theorem run_reach (euid : Nat) (actions : List Action) :
    Reach Ledger.init (System.init.run euid actions).ledger :=
  (System.init_good.run euid actions).reach

/-! ## What the daemon writes -/

/-- What one call of the daemon may do to the content of `path`. -/
inductive Wrote (w : World) (m : Store) (c : Sys) (path : Path) (w' : World) : Prop
  | same (data : w'.dataAt path = w.dataAt path) : Wrote w m c path w'
  | unlinked (call : c = .unlink path) (data : w'.dataAt path = none) : Wrote w m c path w'
  | temporary (own : path.ownTemp w.pid) : Wrote w m c path w'
  | replaced (may : w.hist.MayReplace m path) : Wrote w m c path w'
  /-- A new lock file or log. -/
  | opened (fresh : w.dataAt path = none) (data : w'.dataAt path = some .empty)
      (kind : ∃ id, path = .job id .lock ∨ path = .job id .log) : Wrote w m c path w'

namespace World

variable (w : World) (path : Path)

theorem dataAt_setFile (p : Path) (f : Option File) :
    (w.setFile p f).dataAt path = if path = p then f.map (·.data) else w.dataAt path := by
  by_cases hp : path = p
  · rw [if_pos hp, dataAt, hp, setFile_same]
  · rw [if_neg hp, dataAt_setFile_of_ne _ _ _ hp]

/-- Another set of holders. -/
theorem dataAt_setHolders {p : Path} {f : File} (hf : w.file p = some f) (holders : List Holder) :
    (w.setFile p (some { f with holders })).dataAt path = w.dataAt path := by
  rw [dataAt_setFile]
  split
  · rename_i hp
    rw [dataAt, hp, hf]
    rfl
  · rfl

theorem dataAt_renamed (source target : Path) (f : File) :
    (w.renamed source target f).dataAt path =
      if path = target then some f.data else if path = source then none else w.dataAt path := by
  have hfiles : (w.renamed source target f).dataAt path =
      ((w.setFile source none).setFile target (some f)).dataAt path := by
    unfold renamed publish
    split <;> rfl
  rw [hfiles, dataAt_setFile, dataAt_setFile]
  rfl

theorem dataAt_spawned (pid fuel : Nat) (job : Job) :
    (w.spawned pid fuel job).dataAt path = w.dataAt path := by
  unfold spawned
  cases hf : w.file (.job job.id .lock) with
  | none => rfl
  | some f =>
      dsimp only
      split
      · exact dataAt_setHolders w path hf _
      · rfl

theorem dataAt_closed (who : Holder) (p : Path) : (w.closed who p).dataAt path = w.dataAt path := by
  unfold closed
  cases hf : w.file p with
  | none => rfl
  | some f => exact dataAt_setHolders w path hf _

end World

/-- A new file, if there is none. -/
theorem Wrote.created {m : Store} {c : Sys} {path p : Path} {holders : List Holder}
    (hf : w.file p = none) (hkind : ∃ id, p = .job id .lock ∨ p = .job id .log) :
    Wrote w m c path (w.setFile p (some ⟨.empty, holders⟩)) := by
  by_cases hp : path = p
  · subst hp
    refine Wrote.opened ?_ ?_ hkind
    · rw [World.dataAt, hf]
      rfl
    · rw [World.dataAt_setFile, if_pos rfl]
      rfl
  · apply Wrote.same
    rw [World.dataAt_setFile, if_neg hp]

/-- A file under the daemon's own pen. -/
theorem Wrote.own {m : Store} {c : Sys} {path p : Path} {f : Option File} (hp : p.ownTemp w.pid) :
    Wrote w m c path (w.setFile p f) := by
  by_cases heq : path = p
  · exact Wrote.temporary (heq ▸ hp)
  · apply Wrote.same
    rw [World.dataAt_setFile, if_neg heq]

/-- An allowed call writes only what it may. -/
theorem exec_wrote {m : Store} {c : Sys} {raw : c.Raw} {r : c.Reply}
    (hc : c.Allowed w.pid m w.hist) (hexec : c.exec .daemon w raw = some (r, w')) (path : Path) :
    Wrote w m c path w' := by
  cases exec_changes hexec with
  | nothing | pathExists => exact Wrote.same rfl
  | @unlink p =>
      by_cases hp : path = p
      · subst hp
        apply Wrote.unlinked rfl
        rw [World.dataAt_setFile, if_pos rfl]
        rfl
      · apply Wrote.same
        rw [World.dataAt_setFile, if_neg hp]
  | @create p =>
      obtain ⟨holders, heq, _⟩ := w.created_eq p
      rw [heq]
      exact Wrote.own hc
  | @write p piece =>
      rcases w.written_eq p piece with ⟨_, heq⟩ | ⟨f, _, heq⟩
      · rw [heq]
        exact Wrote.same rfl
      · rw [heq]
        exact Wrote.own hc
  | @rename source target f hf =>
      -- The target is replaced at once; the source was a temporary file and is gone.
      obtain ⟨hsource, htarget⟩ := hc
      by_cases ht : path = target
      · exact Wrote.replaced (ht ▸ htarget)
      · by_cases hs : path = source
        · exact Wrote.temporary (hs ▸ hsource)
        · apply Wrote.same
          rw [World.dataAt_renamed, if_neg ht, if_neg hs]
  | flock =>
      obtain ⟨id, rfl⟩ := hc
      cases hf : w.file (.job id .lock) with
      | none =>
          simp only [World.flocked, hf]
          exact Wrote.created hf ⟨id, Or.inl rfl⟩
      | some f =>
          simp only [World.flocked, hf]
          split
          · exact Wrote.same (World.dataAt_setHolders w path hf _)
          · exact Wrote.same rfl
  | @close p => exact Wrote.same (World.dataAt_closed w path _ p)
  | openAppend =>
      obtain ⟨id, rfl⟩ := hc
      cases hf : w.file (.job id .log) with
      | none =>
          simp only [World.touched, hf]
          exact Wrote.created hf ⟨id, Or.inr rfl⟩
      | some f =>
          simp only [World.touched, hf]
          exact Wrote.same rfl
  | @spawn pid fuel job => exact Wrote.same (World.dataAt_spawned w path pid fuel job)
  | note => exact Wrote.same rfl

/-- The daemon's next call is allowed. -/
theorem System.Good.allowed (h : sys.Good L₀) {st : Scheduler × ProcessExecutor} {c : Sys}
    {k : c.Reply → DaemonProg} (hd : sys.daemon = some (.call st c k)) :
    c.Allowed sys.world.pid st.1.store sys.world.hist := by
  simp only [System.Good, hd] at h
  exact h.1.2.2

theorem System.settle_dataAt (w : World) (prog : DaemonProg) (path : Path) :
    (System.settle w prog).world.dataAt path = w.dataAt path := by
  unfold System.settle
  split
  · exact World.dataAt_released w path _
  · exact World.dataAt_released w path _
  · rfl

theorem System.settle_misread (w : World) (prog : DaemonProg) :
    (System.settle w prog).world.misread = w.misread := by
  unfold System.settle
  split <;> rfl

theorem System.boot_misread (sys : System) (pid : Nat) (inventory : UniqueInventory)
    (maxRunning : Nat) (excluded : List Nat) (state : Option Data) :
    sys.world.misread ⊆ (sys.boot pid inventory maxRunning excluded state).world.misread := by
  unfold System.boot
  split
  · exact List.Subset.refl _
  · split
    · exact List.Subset.refl _
    · split
      · exact List.Subset.refl _
      · rw [System.settle_misread]
        exact List.Subset.refl _

/-- What was not seen is not forgotten. -/
theorem System.step_misread (euid : Nat) (sys : System) (action : Action) :
    sys.world.misread ⊆ (sys.step euid action).world.misread := by
  have hmoves := System.step_moves euid sys action
  generalize sys.step euid action = sys' at hmoves ⊢
  cases hmoves with
  | idle | crash => exact List.Subset.refl _
  | boot | begin =>
      rw [System.settle_misread]
      exact List.Subset.refl _
  | daemon st c k raw r w' next exec =>
      rw [System.settle_misread]
      exact exec_misread exec
  | beside w' hi => exact hi.misread

end Xlurm
