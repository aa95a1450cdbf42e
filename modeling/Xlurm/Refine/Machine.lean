/-
  Xlurm.Refine.Machine

  The machine with its many processes refines the system with one daemon.

  The daemon of the system is the process that holds the lock; the calls about the
  lock, the socket and the clients are its pauses between two operations.  Whatever
  is known about every run of the system is known about every run of the machine.
-/

import Xlurm.Refine.Serve

namespace Xlurm

variable {euid : Nat} {m m' : Machine} {sys sys' : System} {φ : Stage} {p q : Nat}

/-! ## What a stage says about the machine -/

/-- The requests that were begun since the last tick. -/
def requestsSince : List Mark → Nat
  | [] => 0
  | .booted :: _ => 0
  | .began op :: rest => op.requestsAfter (requestsSince rest)

/-- A process at stage `φ` with process id `p`, where the daemon of `sys` is whoever has the
    lock. -/
structure Stage.Fits (φ : Stage) (sys : System) (m : Machine) (p : Nat) : Prop where
  locked : φ.locked = true ↔ m.lock = some p
  unlocked : φ.locked = false →
    φ.clear = false ∧ φ.listens = false ∧ φ.named = false ∧ φ.daemon = none
  clear : φ.clear = true → m.unseen p = false → m.socket = none
  listens : φ.listens = (m.listener p).isSome
  named : φ.named = true → ∃ l, m.listener p = some l ∧ m.socket = some l
  daemon : φ.locked = true → sys.daemon = φ.daemon
  requests : φ.daemon ≠ none → φ.requests = requestsSince m.begun

/-- The machine is at the state `sys` of the system. -/
structure Machine.Follows (euid : Nat) (sys : System) (m : Machine) : Prop where
  /-- As long as no daemon has overlooked `state.json`. -/
  run : .state ∉ m.world.misread → ∃ actions, sys = System.init.run euid actions
  world : sys.world = m.world
  down : m.lock = none → sys.daemon = none
  pid : ∀ p, m.lock = some p → sys.daemon ≠ none → m.world.pid = p
  requests : ∀ marks, marks <:+ m.begun → requestsSince marks ≤ 16

/-- The discipline of the lock, over the machine and the system it follows. -/
def lockDiscipline (euid : Nat) : Discipline System Stage where
  spec := ownership euid
  final _ _ φ := φ.locked = false
  first := Stage.first
  inv := Machine.Follows euid
  view sys m p _ φ := φ.Fits sys m p

namespace Stage.Fits

/-- Nothing that the stage is about has changed. -/
theorem frame (h : φ.Fits sys m p) (hlock : m'.lock = m.lock) (hsocket : m'.socket = m.socket)
    (hlistener : m'.listener p = m.listener p) (hunseen : m'.unseen p = m.unseen p)
    (hdaemon : sys'.daemon = sys.daemon) (hbegun : m'.begun = m.begun) : φ.Fits sys' m' p where
  locked := by
    rw [hlock]
    exact h.locked
  unlocked := h.unlocked
  clear := by
    rw [hsocket, hunseen]
    exact h.clear
  listens := by
    rw [hlistener]
    exact h.listens
  named := by
    rw [hlistener, hsocket]
    exact h.named
  daemon hlocked := hdaemon.trans (h.daemon hlocked)
  requests := by
    rw [hbegun]
    exact h.requests

/-- A process without the lock does not mind what the others do. -/
theorem bystander (h : φ.Fits sys m p) (hfree : m.lock ≠ some p) (hfree' : m'.lock ≠ some p)
    (hlistener : m'.listener p = m.listener p) : φ.Fits sys' m' p := by
  have hlocked : φ.locked = false := by
    rw [← Bool.not_eq_true, h.locked]
    exact hfree
  obtain ⟨hclear, hlistens, hnamed, hdaemon⟩ := h.unlocked hlocked
  refine ⟨?_, h.unlocked, ?_, ?_, ?_, ?_, fun hne => absurd hdaemon hne⟩
  · simp [hlocked, hfree']
  · simp [hclear]
  · rw [hlistener]
    exact h.listens
  · simp [hnamed]
  · simp [hlocked]

end Stage.Fits

theorem Stage.first_fits (hlock : m.lock ≠ some p) (hlistener : m.listener p = none) :
    Stage.first.Fits sys m p := by
  refine ⟨?_, fun _ => ⟨rfl, rfl, rfl, rfl⟩, ?_, ?_, ?_, ?_, ?_⟩
  · simp [Stage.first, hlock]
  · simp [Stage.first]
  · simp [Stage.first, hlistener]
  · simp [Stage.first]
  · simp [Stage.first]
  · simp [Stage.first]

/-- A new process has neither the lock nor a listener. -/
theorem Stage.first_spawned {uid gid pid fuel : Nat} {parent : Option Nat} {role : Role}
    (htable : m.Table) (hfree : m.pidFree pid = true) :
    Stage.first.Fits sys (m.spawned euid uid gid pid fuel parent role) pid := by
  have hprocs := (Machine.pidFree_spec hfree).2
  apply Stage.first_fits
  · intro hlock
    obtain ⟨pr, hpr, hpid, _⟩ := htable.lock pid hlock
    exact hprocs pr hpr hpid
  · show m.listener pid = none
    cases hl : m.listener pid with
    | none => rfl
    | some l =>
        obtain ⟨_, pr, hpr, hpid, _⟩ := htable.listener pid l hl
        exact absurd hpid (hprocs pr hpr)

/-! ## What the system does meanwhile -/

/-- A daemon without a lock loses none. -/
theorem World.released_free {w : World} (h : Free w) : w.released .daemon = w := by
  have hfile : (w.released .daemon).file = w.file := by
    funext path
    simp only [World.released]
    cases hf : w.file path with
    | none => rfl
    | some f =>
        have hholders : f.holders.filter (· ≠ .daemon) = f.holders := by
          apply List.filter_eq_self.mpr
          intro who hwho
          rw [decide_eq_true_eq]
          rintro rfl
          exact h path f hf hwho
        simp only [Option.map_some, hholders]
  show { w with file := (w.released .daemon).file } = w
  rw [hfile]

/-- Where the scheduler's program has ended, no job is locked. -/
theorem System.settle_eq {w : World} {prog : DaemonProg} (h : ∀ st r, prog = .ret st r → Free w) :
    System.settle w prog = ⟨w, prog.running⟩ := by
  unfold System.settle
  split
  · rw [System.stopped, World.released_free (h _ _ rfl)]
    rfl
  · rw [System.stopped, World.released_free (h _ _ rfl)]
    rfl
  · rename_i herr hstop
    unfold DaemonProg.running
    split
    · exact absurd rfl (herr _ _)
    · exact absurd rfl (hstop _)
    · rfl

namespace System.Good

variable {L₀ : Ledger}

theorem free_of_quiet (h : sys.Good L₀) (hquiet : ∀ st c k, sys.daemon ≠ some (.call st c k)) :
    Free sys.world := by
  cases hd : sys.daemon with
  | none =>
      simp only [System.Good, hd] at h
      exact h.2.1
  | some prog =>
      simp only [System.Good, hd] at h
      cases prog with
      | ret st r => exact h.1.free
      | call st c k => exact absurd hd (hquiet st c k)

/-- A daemon that ends between two operations holds nothing. -/
theorem crash_quiet (euid : Nat) (h : sys.Good L₀)
    (hquiet : ∀ st c k, sys.daemon ≠ some (.call st c k)) :
    sys.step euid .crash = ⟨sys.world, none⟩ := by
  have hfree := h.free_of_quiet hquiet
  simp only [System.step]
  cases hd : sys.daemon with
  | none =>
      dsimp only
      rw [← hd]
  | some prog =>
      dsimp only
      rw [System.stopped, World.released_free hfree]

theorem step_begin (euid : Nat) (h : sys.Good L₀) {st : Daemon}
    (hd : sys.daemon = some (.ret st (.ok .loop)))
    (op : Op) :
    sys.step euid (.begin op) = ⟨sys.world, (opCalls euid sys.world.pid op st).running⟩ := by
  have hfree := h.free_of_quiet (by simp [hd])
  obtain ⟨s, e⟩ := st
  simp only [System.step, hd]
  exact System.settle_eq fun _ _ _ => hfree

theorem step_daemon (euid : Nat) (h : sys.Good L₀) {st : Daemon} {c : Sys} {k : c.Reply → DaemonProg}
    (hd : sys.daemon = some (.call st c k)) {raw : c.Raw} {r : c.Reply} {w : World}
    (hexec : c.exec .daemon sys.world raw = some (r, w)) :
    ∃ env, sys.step euid (.daemon env) = ⟨w, DaemonProg.running (k r)⟩ := by
  classical
  refine ⟨Function.update Sys.fair c raw, ?_⟩
  simp only [System.step, hd, Function.update_self, hexec]
  apply System.settle_eq
  intro st' r' hret
  -- The rest of the program is safe, and a program that has ended is at rest.
  simp only [System.Good, hd] at h
  have hsafe := h.2 r w ⟨sys.world, raw, .refl, hexec⟩
  rw [hret] at hsafe
  exact hsafe.1.free

theorem step_boot (euid : Nat) (h : sys.Good L₀) (hd : sys.daemon = none) {pid : Nat}
    (hpid : sys.world.pidFree pid = true) {inventory : UniqueInventory} (args : DaemonArgs)
    {s : Scheduler} (hnew : Scheduler.new ((sys.world.file .state).map (·.data))
      inventory.toInventory args.maxRunning = .ok s) :
    sys.step euid (.boot pid inventory args.maxRunning args.excludeDeviceIds) =
      ⟨{ sys.world with pid }.log .booted, (bootCalls pid args.excludeDeviceIds s).running⟩ := by
  have hfree := h.free_of_quiet (by simp [hd])
  simp only [System.step, System.boot, hd, hpid, Bool.not_true, Bool.false_eq_true, if_false, hnew]
  exact System.settle_eq fun _ _ _ => hfree

end System.Good

/-- No call changes which process is the daemon. -/
theorem exec_pid {who : Holder} {w w' : World} {c : Sys} {raw : c.Raw} {r : c.Reply}
    (h : c.exec who w raw = some (r, w')) : w'.pid = w.pid := by
  cases exec_changes h with
  | nothing | unlink | note | pathExists => rfl
  | @create path => unfold World.created; split <;> rfl
  | @write path piece => unfold World.written; split <;> rfl
  | @rename source target f =>
      unfold World.renamed World.publish
      split <;> rfl
  | @flock path =>
      unfold World.flocked
      split
      · rfl
      · split <;> rfl
  | @close path => unfold World.closed; split <;> rfl
  | @openAppend path => unfold World.touched; split <;> rfl
  | @spawn pid fuel job =>
      unfold World.spawned
      split
      · rfl
      · dsimp only
        split <;> rfl

/-- What other processes do keeps the daemon's process id. -/
theorem World.after_pid (w : World) {action : Action} (haside : action.aside = true) :
    (w.after action).pid = w.pid := by
  cases action with
  | worker pid env =>
      have hmoves := workerStep_moves w pid env
      show (System.workerStep w pid env).pid = w.pid
      generalize System.workerStep w pid env = next at hmoves
      cases hmoves with
      | stays => rfl
      | calls mem exec =>
          have hpid := exec_pid exec
          exact hpid
  | kill pid => rfl
  | output pid bytes =>
      simp only [World.after, System.step]
      split
      · show (w.printed _ bytes).pid = w.pid
        unfold World.printed
        split <;> rfl
      · rfl
  | boot | begin | daemon | crash => cases haside

/-! ## Every call -/

namespace Machine.Follows

theorem good (h : m.Follows euid sys) (hseen : .state ∉ m.world.misread) :
    sys.Good Ledger.init := by
  obtain ⟨actions, rfl⟩ := h.run hseen
  exact System.init_good.run euid actions

/-- The system takes an action to get where the machine is. -/
theorem next (h : m.Follows euid sys) {world : World} {daemon : Option DaemonProg}
    (hmisread : m.world.misread ⊆ world.misread)
    (hstep : sys.Good Ledger.init → ∃ action, sys.step euid action = ⟨world, daemon⟩)
    (hseen : .state ∉ world.misread) :
    ∃ actions, (⟨world, daemon⟩ : System) = System.init.run euid actions := by
  have hseen₀ : .state ∉ m.world.misread := fun hmem => hseen (hmisread hmem)
  obtain ⟨action, haction⟩ := hstep (h.good hseen₀)
  obtain ⟨actions, rfl⟩ := h.run hseen₀
  refine ⟨actions ++ [action], ?_⟩
  rw [← haction, System.run, System.run, List.foldl_append]
  rfl

/-- The system does nothing while the machine does something else. -/
theorem frame (h : m.Follows euid sys) (hworld : m'.world = m.world)
    (hlock : m'.lock = m.lock) (hbegun : m'.begun = m.begun) : m'.Follows euid sys where
  run := by
    rw [hworld]
    exact h.run
  world := h.world.trans hworld.symm
  down hd := h.down (hlock ▸ hd)
  pid p hp hne := by
    rw [hworld]
    exact h.pid p (hlock ▸ hp) hne
  requests := by
    rw [hbegun]
    exact h.requests

end Machine.Follows

/-- The end of a process. -/
theorem Machine.Follows.exit (h : m.Follows euid sys) (p : Nat) :
    ∃ sys', (m.exit p).Follows euid sys' ∧ (m.lock ≠ some p → sys'.daemon = sys.daemon) := by
  have hkept : (m.exit p).world.misread = m.world.misread ∧
      (m.exit p).world.pid = m.world.pid := by
    simp only [Machine.exit]
    split <;> exact ⟨rfl, rfl⟩
  obtain ⟨hmisread, hpid⟩ := hkept
  have hdown : sys.Good Ledger.init → sys.daemon = none → (m.exit p).world = m.world := by
    intro hgood hd
    have hfree := hgood.free_of_quiet (by simp [hd])
    rw [h.world] at hfree
    simp only [Machine.exit]
    split
    · exact World.released_free hfree
    · rfl
  by_cases hlock : m.lock = some p
  · refine ⟨⟨(m.exit p).world, none⟩, ⟨h.next ?_ ?_, rfl, fun _ => rfl,
      fun q _ hne => absurd rfl hne, h.requests⟩, fun hne => absurd hlock hne⟩
    · rw [hmisread]
      exact List.Subset.refl _
    · intro hgood
      refine ⟨.crash, ?_⟩
      cases hd : sys.daemon with
      | none =>
          simp only [System.step, hd]
          rw [hdown hgood hd, ← h.world, ← hd]
      | some prog =>
          have hbooted := h.pid p hlock (by simp [hd])
          simp only [System.step, hd, System.stopped, Machine.exit, hbooted, if_true, h.world]
  · have hlock' : (m.exit p).lock = m.lock := by simp [Machine.exit, hlock]
    refine ⟨⟨(m.exit p).world, sys.daemon⟩, ⟨?_, rfl, ?_, ?_, h.requests⟩, fun _ => rfl⟩
    · intro hseen
      rw [hmisread] at hseen
      -- Only the daemon that booted last could have locks, and it is not the one that ends.
      have hworld : (m.exit p).world = m.world := by
        by_cases hd : sys.daemon = none
        · exact hdown (h.good hseen) hd
        · have hne : m.world.pid ≠ p := by
            intro heq
            cases hl : m.lock with
            | none => exact hd (h.down hl)
            | some q =>
                rw [← h.pid q hl hd, heq] at hl
                exact hlock hl
          simp only [Machine.exit, hne, if_false]
      rw [hworld, ← h.world]
      exact h.run hseen
    · rw [hlock']
      exact h.down
    · rw [hlock', hpid]
      exact h.pid

/-- After a call: the machine follows the system again, the process is at its next stage, and the
    other processes are where they were. -/
def Advances (euid : Nat) (pr : Process) (φ : Stage) (c : HostCall) (r : c.Reply) (sys : System)
    (m m' : Machine) : Prop :=
  ∃ sys', m'.Follows euid sys' ∧
    (∃ φ', c.Leads euid pr.pid φ r φ' ∧ φ'.Fits sys' m' pr.pid) ∧
    (lockDiscipline euid).Spares pr.pid sys m sys' m'

section Calls

variable {pr : Process} (hf : m.Follows euid sys) (hφ : φ.Fits sys m pr.pid)
include hf hφ

/-- A call that is not about the lock, the socket or the scheduler. -/
theorem advance_beside {c : HostCall} {r : c.Reply} (hstay : c.Leads euid pr.pid φ r φ)
    (hworld : m'.world = m.world) (hlock : m'.lock = m.lock) (hsocket : m'.socket = m.socket)
    (hlistener : m'.listener = m.listener) (hunseen : m'.unseen = m.unseen)
    (hbegun : m'.begun = m.begun) : Advances euid pr φ c r sys m m' := by
  refine ⟨sys, hf.frame hworld hlock hbegun, ⟨φ, hstay, ?_⟩, ?_⟩
  · exact hφ.frame hlock hsocket (congrFun hlistener _) (congrFun hunseen _) rfl hbegun
  · exact fun p _ _ _ ψ hψ =>
      hψ.frame hlock hsocket (congrFun hlistener _) (congrFun hunseen _) rfl hbegun

omit hf in
/-- A call of the process that has the lock. -/
theorem advance_owner {c : HostCall} {r : c.Reply} {φ' : Stage} (sys' : System)
    (hlocked : φ.locked = true)
    (hleads : c.Leads euid pr.pid φ r φ') (hf' : m'.Follows euid sys')
    (hφ' : φ'.Fits sys' m' pr.pid) (hlock : m'.lock = m.lock ∨ m'.lock = none)
    (hlistener : ∀ p, p ≠ pr.pid → m'.listener p = m.listener p) :
    Advances euid pr φ c r sys m m' := by
  have hown := hφ.locked.mp hlocked
  refine ⟨sys', hf', ⟨φ', hleads, hφ'⟩, ?_⟩
  intro p _ _ hne ψ hψ
  have hfree : m.lock ≠ some p.pid := by
    intro hp
    rw [hown] at hp
    exact hne (Option.some.inj hp).symm
  apply hψ.bystander hfree
  · rcases hlock with h | h <;> rw [h]
    · exact hfree
    · nofun
  · exact hlistener p.pid hne

/-- Nothing happens, or the call fails. -/
theorem advance_nothing {c : HostCall} {r : c.Reply} (hneeds : c.Needs φ)
    (htells : c.Tells m pr.pid r) : Advances euid pr φ c r sys m m := by
  have hsame : c.Leads euid pr.pid φ r φ → Advances euid pr φ c r sys m m := fun hstay =>
    advance_beside hf hφ hstay rfl rfl rfl rfl rfl rfl
  cases c with
  | initializePaths | installSignals | discover | setPermissions | setNonblocking | interrupted
  | accept | setReadTimeout | setWriteTimeout | peer | receive | sendError | sendResponse
  | refreshDue | refresh | cleanupDue | poll | connect | response | openDaemonLog | spawnDaemon
  | tryWait | deadline | killChild | waitChild | print | sleep => exact hsame rfl
  | hang => exact nomatch r
  | closeListener | begin | sys => exact htells.elim
  | unlock => exact absurd (hφ.locked.mp hneeds.1) htells
  | tryLock =>
      apply hsame
      rcases r with e | _ | _
      · rfl
      · rfl
      · exact htells.elim
  | newScheduler | removeSocket | bind =>
      cases r with
      | error e => exact hsame rfl
      | ok => exact htells.elim
  | socketExists =>
      have hclear : (!r) = true → m.socket = none := by
        intro hr
        have hsome : m.socket.isSome = false := by
          rw [← show r = m.socket.isSome from htells]
          simpa using hr
        simpa using hsome
      have hlocked : φ.locked = true := hneeds
      refine ⟨sys, hf, ⟨{ φ with clear := !r }, rfl, ?_⟩, fun p _ _ _ ψ hψ => hψ⟩
      refine ⟨hφ.locked, ?_, fun hr _ => hclear hr, hφ.listens, hφ.named, hφ.daemon, hφ.requests⟩
      intro hfree
      rw [show φ.locked = false from hfree] at hlocked
      cases hlocked

/-- The name of the socket is not seen. -/
theorem advance_overlook (hneeds : HostCall.socketExists.Needs φ) :
    Advances euid pr φ .socketExists false sys m
      { m with unseen := Function.update m.unseen pr.pid true } := by
  have hlocked : φ.locked = true := hneeds
  refine advance_owner hφ sys hlocked rfl (hf.frame rfl rfl rfl) ?_ (Or.inl rfl) fun _ _ => rfl
  refine ⟨hφ.locked, fun h => absurd hlocked (by simp [show φ.locked = false from h]), ?_,
    hφ.listens, hφ.named, hφ.daemon, hφ.requests⟩
  intro _ hseen
  have hunseen : Function.update m.unseen pr.pid true pr.pid = true := Function.update_self _ _ _
  exact absurd (hunseen.symm.trans hseen) (by simp)

/-- The lock is taken. -/
theorem advance_lock (hfree : m.lock = none) :
    Advances euid pr φ .tryLock (.ok true) sys m
      { m with lock := some pr.pid, epoch := m.epoch + 1 } := by
  have hdown := hf.down hfree
  have hlocked : φ.locked = false := by
    rw [← Bool.not_eq_true, hφ.locked, hfree]
    nofun
  obtain ⟨hclear, hlistens, hnamed, hdaemon⟩ := hφ.unlocked hlocked
  refine ⟨sys, ⟨hf.run, hf.world, fun _ => hdown, fun _ _ hne => absurd hdown hne, hf.requests⟩,
    ⟨{ φ with locked := true }, rfl, ?_⟩, ?_⟩
  · exact ⟨⟨fun _ => rfl, fun _ => rfl⟩, nofun, hφ.clear, hφ.listens, hφ.named,
      fun _ => hdown.trans hdaemon.symm, hφ.requests⟩
  · intro p _ _ hne ψ hψ
    refine Stage.Fits.bystander hψ (by simp [hfree]) ?_ rfl
    intro hp
    exact hne (Option.some.inj hp).symm

/-- The lock is given up between two operations. -/
theorem advance_unlock (hneeds : HostCall.unlock.Needs φ) :
    Advances euid pr φ .unlock () sys m { m with lock := none } := by
  obtain ⟨hlocked, hlistens, hquiet⟩ := hneeds
  have hdaemon := hφ.daemon hlocked
  refine advance_owner hφ ⟨m.world, none⟩ hlocked rfl ?_ ?_ (Or.inr rfl) fun _ _ => rfl
  · refine ⟨hf.next (List.Subset.refl _) ?_, rfl, fun _ => rfl, nofun, hf.requests⟩
    intro hgood
    refine ⟨.crash, ?_⟩
    rw [← hf.world]
    exact hgood.crash_quiet euid fun st c k h => hquiet st c k (hdaemon ▸ h)
  · refine ⟨by simp, fun _ => ⟨rfl, hlistens, ?_, rfl⟩, nofun, hφ.listens, ?_, nofun, fun hne =>
      absurd rfl hne⟩
    · cases hnamed : φ.named with
      | false => rfl
      | true =>
          -- A name leads to a listener, and this process has none.
          obtain ⟨l, hl, _⟩ := hφ.named hnamed
          have hsome := hφ.listens
          rw [hlistens, hl] at hsome
          cases hsome
    · exact hφ.named

/-- The system after the boot of a daemon in `world`. -/
def Machine.bootedSystem (m : Machine) (pid : Nat) (args : DaemonArgs) (s : Scheduler)
    (world : World) : System :=
  ⟨(HostCall.booted m pid world).world, (bootCalls pid args.excludeDeviceIds s).running⟩

/-- A scheduler is created. -/
theorem advance_booted {inventory : UniqueInventory} {args : DaemonArgs} {s : Scheduler}
    (hneeds : (HostCall.newScheduler inventory args).Needs φ) {world : World}
    (hrun : .state ∉ world.misread →
      ∃ actions, m.bootedSystem pr.pid args s world = System.init.run euid actions) :
    Advances euid pr φ (.newScheduler inventory args) (.ok s) sys m
      (HostCall.booted m pr.pid world) := by
  obtain ⟨hlocked, _⟩ := hneeds
  have hown := hφ.locked.mp hlocked
  refine advance_owner hφ (m.bootedSystem pr.pid args s world) hlocked rfl ?_ ?_ (Or.inl rfl)
    fun _ _ => rfl
  · refine ⟨hrun, rfl, ?_, ?_, ?_⟩
    · intro hfree
      rw [show m.lock = none from hfree] at hown
      cases hown
    · intro p hp _
      rw [show m.lock = some p from hp] at hown
      exact (Option.some.inj hown).symm
    · intro marks hmarks
      rcases List.suffix_cons_iff.mp hmarks with rfl | hmarks
      · exact Nat.zero_le _
      · exact hf.requests marks hmarks
  · exact ⟨hφ.locked, fun h => absurd hlocked (by simp [show φ.locked = false from h]), hφ.clear,
      hφ.listens, hφ.named, fun _ => rfl, fun _ => rfl⟩

/-- A daemon boots. -/
theorem advance_boot (htable : m.Table) (hpr : pr ∈ m.procs) {inventory : UniqueInventory}
    {args : DaemonArgs} {s : Scheduler} (hneeds : (HostCall.newScheduler inventory args).Needs φ)
    (hnew : Scheduler.new ((m.world.file .state).map (·.data)) inventory.toInventory
      args.maxRunning = .ok s) :
    Advances euid pr φ (.newScheduler inventory args) (.ok s) sys m
      (HostCall.booted m pr.pid m.world) := by
  have hmisread : m.world.misread ⊆ (HostCall.booted m pr.pid m.world).world.misread :=
    List.Subset.refl _
  refine advance_booted hf hφ hneeds (hf.next hmisread ?_)
  intro hgood
  have hdown : sys.daemon = none := (hφ.daemon hneeds.1).trans hneeds.2
  refine ⟨.boot pr.pid inventory args.maxRunning args.excludeDeviceIds, ?_⟩
  rw [hgood.step_boot euid hdown (hf.world ▸ htable.apart pr hpr) args (hf.world ▸ hnew), hf.world]
  rfl

/-- A daemon that overlooks `state.json` starts from nothing. -/
theorem advance_bootBlind {inventory : UniqueInventory} {args : DaemonArgs} {s : Scheduler}
    (hneeds : (HostCall.newScheduler inventory args).Needs φ) :
    Advances euid pr φ (.newScheduler inventory args) (.ok s) sys m
      (HostCall.booted m pr.pid (m.world.overlooked .state)) :=
  advance_booted hf hφ hneeds fun hseen => absurd List.mem_cons_self hseen

theorem advance_removeSocket (hneeds : HostCall.removeSocket.Needs φ) :
    Advances euid pr φ .removeSocket (.ok ()) sys m { m with socket := none } := by
  obtain ⟨hlocked, _⟩ := hneeds
  refine advance_owner hφ sys hlocked rfl (hf.frame rfl rfl rfl) ?_ (Or.inl rfl) fun _ _ => rfl
  exact ⟨hφ.locked, fun h => absurd hlocked (by simp [show φ.locked = false from h]),
    fun _ _ => rfl, hφ.listens, nofun, hφ.daemon, hφ.requests⟩

theorem advance_bind (hneeds : HostCall.bind.Needs φ) :
    Advances euid pr φ .bind (.ok ()) sys m
      { m with
        socket := some m.bound
        bound := m.bound + 1
        listener := Function.update m.listener pr.pid (some m.bound) } := by
  obtain ⟨hlocked, _⟩ := hneeds
  refine advance_owner hφ sys hlocked rfl (hf.frame rfl rfl rfl) ?_ (Or.inl rfl)
    fun p hp => Function.update_of_ne hp _ _
  refine ⟨hφ.locked, fun h => absurd hlocked (by simp [show φ.locked = false from h]), nofun, ?_,
    fun _ => ⟨m.bound, Function.update_self _ _ _, rfl⟩, hφ.daemon, hφ.requests⟩
  simp

theorem advance_closeListener (hneeds : HostCall.closeListener.Needs φ) :
    Advances euid pr φ .closeListener () sys m
      { m with listener := Function.update m.listener pr.pid none } := by
  obtain ⟨hlocked, _⟩ := hneeds
  refine advance_owner hφ sys hlocked rfl (hf.frame rfl rfl rfl) ?_ (Or.inl rfl)
    fun p hp => Function.update_of_ne hp _ _
  refine ⟨hφ.locked, fun h => absurd hlocked (by simp [show φ.locked = false from h]), hφ.clear, ?_,
    nofun, hφ.daemon, hφ.requests⟩
  simp

/-- The main loop begins an operation. -/
theorem advance_begin {op : Op} (hneeds : (HostCall.begin op).Needs φ) :
    Advances euid pr φ (.begin op) () sys m { m with begun := .began op :: m.begun } := by
  obtain ⟨⟨hlocked, _⟩, ⟨st, hidle⟩, hbound⟩ := hneeds
  have hown := hφ.locked.mp hlocked
  have hdaemon : sys.daemon = some (.ret st (.ok .loop)) := (hφ.daemon hlocked).trans hidle
  have hpid : m.world.pid = pr.pid := hf.pid pr.pid hown (by simp [hdaemon])
  have hrequests : φ.requests = requestsSince m.begun := hφ.requests (by rw [hidle]; nofun)
  refine advance_owner hφ ⟨m.world, (opCalls euid pr.pid op st).running⟩ hlocked ⟨st, hidle, rfl⟩
    ?_ ?_ (Or.inl rfl) fun _ _ => rfl
  · refine ⟨hf.next (List.Subset.refl _) ?_, rfl, ?_, ?_, ?_⟩
    · intro hgood
      refine ⟨.begin op, ?_⟩
      rw [hgood.step_begin euid hdaemon op, hf.world, hpid]
    · intro hfree
      rw [show m.lock = none from hfree] at hown
      cases hown
    · intro p hp _
      rw [show m.lock = some p from hp] at hown
      exact hpid.trans (Option.some.inj hown).symm
    · intro marks hmarks
      rcases List.suffix_cons_iff.mp hmarks with rfl | hmarks
      · show op.requestsAfter (requestsSince m.begun) ≤ 16
        rw [← hrequests]
        exact hbound
      · exact hf.requests marks hmarks
  · refine ⟨hφ.locked, fun h => absurd hlocked (by simp [show φ.locked = false from h]), hφ.clear,
      hφ.listens, hφ.named, fun _ => rfl, fun _ => ?_⟩
    show op.requestsAfter φ.requests = op.requestsAfter (requestsSince m.begun)
    rw [hrequests]

/-- The scheduler makes its next system call. -/
theorem advance_sys {c : Sys} (hneeds : (HostCall.sys c).Needs φ) {raw : c.Raw} {r : c.Reply}
    {world : World} (hexec : c.exec .daemon m.world raw = some (r, world)) :
    Advances euid pr φ (.sys c) r sys m (HostCall.called m pr.pid c world) := by
  obtain ⟨hlocked, st, k, hcall⟩ := hneeds
  have hown := hφ.locked.mp hlocked
  have hdaemon := (hφ.daemon hlocked).trans hcall
  have hpid : m.world.pid = pr.pid := hf.pid pr.pid hown (by simp [hdaemon])
  refine advance_owner hφ ⟨world, DaemonProg.running (k r)⟩ hlocked ⟨st, k, hcall, rfl⟩ ?_ ?_
    (Or.inl rfl) fun _ _ => rfl
  · refine ⟨hf.next (exec_misread hexec) ?_, rfl, ?_, ?_, hf.requests⟩
    · intro hgood
      obtain ⟨env, hstep⟩ := hgood.step_daemon euid hdaemon (hf.world ▸ hexec)
      exact ⟨.daemon env, hstep⟩
    · intro hfree
      rw [show m.lock = none from hfree] at hown
      cases hown
    · intro p hp _
      rw [show m.lock = some p from hp] at hown
      exact ((exec_pid hexec).trans hpid).trans (Option.some.inj hown).symm
  · refine ⟨hφ.locked, fun h => absurd hlocked (by simp [show φ.locked = false from h]), hφ.clear,
      hφ.listens, hφ.named, fun _ => rfl, fun _ => ?_⟩
    exact hφ.requests (by rw [hcall]; nofun)

end Calls

theorem lockDiscipline_call {pr : Process} {c : HostCall} {r : c.Reply} (htable : m.Table)
    (hf : m.Follows euid sys) (hpr : pr ∈ m.procs) (hφ : φ.Fits sys m pr.pid)
    (hneeds : c.Needs φ) (hinherits : m'.Inherits m) (he : c.Effect euid pr m r m') :
    Advances euid pr φ c r sys m m' := by
  cases he with
  | nothing tells => exact advance_nothing hf hφ hneeds tells
  | lock free => exact advance_lock hf hφ free
  | unlock own => exact advance_unlock hf hφ hneeds
  | boot new => exact advance_boot hf hφ htable hpr hneeds new
  | bootBlind new => exact advance_bootBlind hf hφ hneeds
  | overlook => exact advance_overlook hf hφ hneeds
  | removeSocket => exact advance_removeSocket hf hφ hneeds
  | bind free => exact advance_bind hf hφ hneeds
  | closeListener => exact advance_closeListener hf hφ hneeds
  | begin => exact advance_begin hf hφ hneeds
  | sys exec apart => exact advance_sys hf hφ hneeds exec
  | accept | receive | sendError | sendResponse | connect | response | tryWait | killChild
  | waitChild => exact advance_beside hf hφ rfl rfl rfl rfl rfl rfl rfl
  | @spawnDaemon args pid fuel free =>
      -- That is a new process.
      obtain ⟨q, hq, heq⟩ := hinherits _ List.mem_cons_self
      exact absurd (congrArg Process.pid heq).symm ((Machine.pidFree_spec free).2 q hq)

/-- The discipline of the lock is kept in every run. -/
theorem lockDiscipline_sound (euid : Nat) : (lockDiscipline euid).Sound euid where
  start := by
    refine ⟨System.init, fun _ => ⟨[], rfl⟩, rfl, fun _ => rfl, nofun, ?_⟩
    intro marks hmarks
    rw [List.suffix_nil.mp hmarks]
    exact Nat.zero_le _
  program pid fuel role := Role.prog_wp pid fuel role
  launch sys m uid gid pid fuel role htable hf hfree :=
    ⟨hf.frame rfl rfl rfl, Stage.first_spawned htable hfree,
      fun p _ φ hne hφ => hφ.frame rfl rfl rfl (Function.update_of_ne hne _ _) rfl rfl⟩
  connect sys m uid gid l request _ hf _ :=
    ⟨hf.frame rfl rfl rfl, fun p _ φ hφ => hφ.frame rfl rfl rfl rfl rfl rfl⟩
  aside sys m world _ hf ha := by
    obtain ⟨⟨action, haside, rfl⟩, _⟩ := ha
    refine ⟨⟨m.world.after action, sys.daemon⟩, ?_, fun p _ φ hφ => hφ.frame rfl rfl rfl rfl rfl rfl⟩
    refine ⟨hf.next (System.step_misread 0 ⟨m.world, none⟩ action) fun _ => ⟨action, ?_⟩, rfl,
      hf.down, fun p hp hne => (World.after_pid m.world haside).trans (hf.pid p hp hne),
      hf.requests⟩
    rw [System.step_aside euid sys haside, hf.world]
  exit sys m pr φ _ hf _ _ hφ := by
    obtain ⟨sys', hf', hdaemon⟩ := hf.exit pr.pid
    refine ⟨sys', hf', ?_⟩
    intro p _ _ hne ψ hψ
    have hlistener : (m.exit pr.pid).listener p.pid = m.listener p.pid :=
      Function.update_of_ne hne _ _
    by_cases hlock : m.lock = some pr.pid
    · refine Stage.Fits.bystander hψ ?_ ?_ hlistener
      · intro hp
        rw [hlock] at hp
        exact hne (Option.some.inj hp).symm
      · simp [Machine.exit, hlock]
    · refine Stage.Fits.frame hψ ?_ rfl hlistener rfl (hdaemon hlock) rfl
      simp [Machine.exit, hlock]
  call sys m pr φ c r m' htable hf hpr _ hφ hneeds hinherits he :=
    lockDiscipline_call htable hf hpr hφ hneeds hinherits he
  child sys m pr φ args pid fuel htable hf hpr _ hφ _ hfree := by
    have hold : ∀ p ∈ m.procs, p.pid ≠ pid := (Machine.pidFree_spec hfree).2
    refine ⟨hf.frame rfl rfl rfl, Stage.first_spawned htable hfree, ⟨φ, rfl, ?_⟩, ?_⟩
    · exact hφ.frame rfl rfl rfl (Function.update_of_ne (hold pr hpr) _ _) rfl rfl
    · exact fun p hp _ _ ψ hψ =>
        Stage.Fits.frame hψ rfl rfl rfl (Function.update_of_ne (hold p hp) _ _) rfl rfl
  prog sys m pid prog hf :=
    ⟨hf.frame rfl rfl rfl, fun p _ φ hφ => hφ.frame rfl rfl rfl rfl rfl rfl⟩

end Xlurm
