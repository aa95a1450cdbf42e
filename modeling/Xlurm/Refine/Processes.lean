/-
  Xlurm.Refine.Processes

  How to prove that every process of the machine keeps to a discipline.

  A `Discipline` is a specification of the host calls over a type of points: where
  a process has got to, as far as the discipline cares.  `Discipline.Sound` asks for
  one proof about each program and one about each thing that happens on the machine;
  `Discipline.Sound.run` gives the discipline for every run.
-/

import Xlurm.Os.Machine
import Xlurm.Prog.Safe
import Xlurm.Refine.Interference

namespace Xlurm

variable {euid : Nat} {m m' : Machine} {pr : Process}

/-! ## What one call does -/

namespace HostCall

/-- What a call that changes nothing may reply. -/
def Tells (m : Machine) (pid : Nat) : (c : HostCall) → c.Reply → Prop
  | socketExists, b => b = m.socket.isSome
  | peer, .ok (uid, gid) => ∃ c conn, m.connOf pid = some (c, conn) ∧ conn.uid = uid ∧
      conn.gid = gid
  | tryWait, .error _ | killChild, .error _ | waitChild, .error _ => m.child pid = none
  | tryLock, .ok true | newScheduler _ _, .ok _ | removeSocket, .ok _ | bind, .ok _
  | accept, .client | receive, .ok _ | response, .ok _ | connect _, .ok _ | spawnDaemon _, .ok _
  | tryWait, .ok (some _)
  | killChild, .ok _ | waitChild, .ok _ | closeListener, _ | begin _, _ | sys _, _ => False
  | unlock, _ => m.lock ≠ some pid
  | _, _ => True

/-- Everything that one call of `pr` can do. -/
inductive Effect (euid : Nat) (pr : Process) (m : Machine) :
    (c : HostCall) → c.Reply → Machine → Prop
  | nothing {c : HostCall} {r : c.Reply} (tells : c.Tells m pr.pid r) : Effect euid pr m c r m
  | lock (free : m.lock = none) :
      Effect euid pr m .tryLock (.ok true) { m with lock := some pr.pid, epoch := m.epoch + 1 }
  | unlock (own : m.lock = some pr.pid) : Effect euid pr m .unlock () { m with lock := none }
  | boot {inventory : UniqueInventory} {args : DaemonArgs} {s : Scheduler}
      (new : Scheduler.new ((m.world.file .state).map (·.data)) inventory.toInventory
        args.maxRunning = .ok s) :
      Effect euid pr m (.newScheduler inventory args) (.ok s) (booted m pr.pid m.world)
  | bootBlind {inventory : UniqueInventory} {args : DaemonArgs} {s : Scheduler}
      (new : Scheduler.new none inventory.toInventory args.maxRunning = .ok s) :
      Effect euid pr m (.newScheduler inventory args) (.ok s)
        (booted m pr.pid (m.world.overlooked .state))
  | overlook :
      Effect euid pr m .socketExists false { m with unseen := Function.update m.unseen pr.pid true }
  | removeSocket : Effect euid pr m .removeSocket (.ok ()) { m with socket := none }
  | bind (free : m.socket = none) :
      Effect euid pr m .bind (.ok ())
        { m with
          socket := some m.bound
          bound := m.bound + 1
          listener := Function.update m.listener pr.pid (some m.bound) }
  | closeListener :
      Effect euid pr m .closeListener ()
        { m with listener := Function.update m.listener pr.pid none }
  | accept {c l : Nat} {conn : Conn} (waits : c ∈ m.backlog) (made : m.conns c = some conn)
      (own : m.listener pr.pid = some l) (listener : conn.listener = l) :
      Effect euid pr m .accept .client
        { m with backlog := m.backlog.erase c, conn := Function.update m.conn pr.pid (some c) }
  | receive {c : Nat} {conn : Conn} (found : m.connOf pr.pid = some (c, conn)) :
      Effect euid pr m .receive (.ok conn.request)
        { m with read := Function.update m.read pr.pid m.world.hist.length }
  | sendError {e : Error} {c : Nat} {conn : Conn} (found : m.connOf pr.pid = some (c, conn)) :
      Effect euid pr m (.sendError e) ()
        (m.answered conn ⟨c, m.epoch, conn.request, .error e, m.read pr.pid, none⟩)
  | sendResponse {answer : Response} {c : Nat} {conn : Conn}
      (found : m.connOf pr.pid = some (c, conn)) :
      Effect euid pr m (.sendResponse answer) ()
        (m.answered conn
          ⟨c, m.epoch, conn.request, answer, m.read pr.pid, m.decided pr.pid⟩)
  | begin {op : Op} :
      Effect euid pr m (.begin op) () { m with begun := .began op :: m.begun }
  | sys {c : Sys} {raw : c.Raw} {r : c.Reply} {world : World}
      (exec : c.exec .daemon m.world raw = some (r, world))
      (apart : m.admits world = true) :
      Effect euid pr m (.sys c) r (called m pr.pid c world)
  | connect {request : Request} {l : Nat} (name : m.socket = some l)
      (listening : m.listening l = true) :
      Effect euid pr m (.connect request) (.ok ())
        { m.connected pr.uid pr.gid l request with
          conn := Function.update m.conn pr.pid (some m.made) }
  | response {c : Nat} {conn : Conn} {a : SentAnswer} (found : m.connOf pr.pid = some (c, conn))
      (answer : conn.answer = some a) :
      Effect euid pr m .response (.ok a.response)
        { m with heard := Function.update m.heard pr.pid (a :: m.heard pr.pid) }
  | spawnDaemon {args : DaemonArgs} {pid fuel : Nat} (free : m.pidFree pid = true) :
      Effect euid pr m (.spawnDaemon args) (.ok ())
        (m.spawned euid pr.uid pr.gid pid fuel (some pr.pid) (.daemon args))
  | tryWait {child : Process} {status : String} (found : m.child pr.pid = some child)
      (exited : child.exited = true) :
      Effect euid pr m .tryWait (.ok (some status)) (m.reaped child.pid)
  | killChild {child : Process} (found : m.child pr.pid = some child) :
      Effect euid pr m .killChild (.ok ()) (m.update child.pid fun pr => { pr with killed := true })
  | waitChild {child : Process} (found : m.child pr.pid = some child)
      (exited : child.exited = true) :
      Effect euid pr m .waitChild (.ok ()) (m.reaped child.pid)

theorem orFail_cases {α : Type} {raw : Option Error} {m m' : Machine}
    {next : Except Error α × Machine} {r : Except Error α} (h : orFail raw m next = (r, m')) :
    (∃ e, r = .error e ∧ m' = m) ∨ next = (r, m') := by
  cases raw with
  | some e =>
      cases h
      exact Or.inl ⟨e, rfl, rfl⟩
  | none => exact Or.inr h

/-- The only place where the replies of the machine are told apart. -/
theorem exec_effect {c : HostCall} {raw : c.Raw} {r : c.Reply}
    (h : c.exec euid pr m raw = some (r, m')) : Effect euid pr m c r m' := by
  cases c with
  | initializePaths | installSignals | setPermissions | setNonblocking | setReadTimeout
  | setWriteTimeout | poll | openDaemonLog =>
      rcases orFail_cases (Option.some.inj h) with ⟨e, rfl, rfl⟩ | h
      · exact .nothing trivial
      · cases h
        exact .nothing trivial
  | discover | interrupted | refreshDue | cleanupDue | deadline | refresh | print | sleep =>
      cases h
      exact .nothing trivial
  | hang => cases h
  | socketExists =>
      simp only [exec] at h
      split at h <;> cases h
      · exact .overlook
      · exact .nothing rfl
  | tryLock =>
      rcases orFail_cases (Option.some.inj h) with ⟨e, rfl, rfl⟩ | h
      · exact .nothing trivial
      · split at h <;> cases h
        · exact .nothing trivial
        · exact .lock ‹_›
  | unlock =>
      simp only [exec] at h
      split at h <;> cases h
      · exact .unlock ‹_›
      · exact .nothing ‹_›
  | newScheduler inventory args =>
      cases raw with
      | error e =>
          cases h
          exact .nothing trivial
      | ok failed =>
          simp only [exec] at h
          cases hblind : failed && (m.world.file .state).isSome <;>
            simp only [hblind, Bool.false_eq_true, if_true, if_false] at h <;>
            split at h <;> cases h
          · exact .nothing trivial
          · exact .boot ‹_›
          · exact .nothing trivial
          · exact .bootBlind ‹_›
  | removeSocket =>
      rcases orFail_cases (Option.some.inj h) with ⟨e, rfl, rfl⟩ | h
      · exact .nothing trivial
      · split at h <;> cases h
        · exact .nothing trivial
        · exact .removeSocket
  | bind =>
      rcases orFail_cases (Option.some.inj h) with ⟨e, rfl, rfl⟩ | h
      · exact .nothing trivial
      · split at h <;> cases h
        · exact .nothing trivial
        · exact .bind ‹_›
  | closeListener =>
      cases h
      exact .closeListener
  | accept =>
      simp only [exec] at h
      split at h <;> cases h
      · exact .nothing trivial
      · exact .nothing trivial
      · rename_i c hfound
        obtain ⟨l, hl, hwaiting⟩ := Option.bind_eq_some_iff.mp hfound
        have hany : (m.conns c).any (·.listener == l) = true := by
          simpa using List.find?_some hwaiting
        obtain ⟨conn, hconn, hlistener⟩ := (Option.any_eq_true _ _).mp hany
        exact .accept (List.mem_of_find?_eq_some hwaiting) hconn hl (by simpa using hlistener)
  | peer =>
      rcases orFail_cases (Option.some.inj h) with ⟨e, rfl, rfl⟩ | h
      · exact .nothing trivial
      · split at h <;> cases h
        · exact .nothing ⟨_, _, ‹_›, rfl, rfl⟩
        · exact .nothing trivial
  | receive =>
      rcases orFail_cases (Option.some.inj h) with ⟨e, rfl, rfl⟩ | h
      · exact .nothing trivial
      · split at h <;> cases h
        · exact .receive ‹_›
        · exact .nothing trivial
  | sendError e =>
      simp only [exec] at h
      split at h <;> cases h
      · exact .sendError ‹_›
      · exact .nothing trivial
  | sendResponse answer =>
      simp only [exec] at h
      split at h <;> cases h
      · exact .sendResponse ‹_›
      · exact .nothing trivial
  | begin op =>
      cases h
      exact .begin
  | sys c =>
      simp only [exec, execSys] at h
      split at h
      · split at h <;> cases h
        exact .sys ‹_› ‹_›
      · cases h
  | connect request =>
      rcases orFail_cases (Option.some.inj h) with ⟨e, rfl, rfl⟩ | h
      · exact .nothing trivial
      · split at h
        · cases h
          exact .nothing trivial
        · split at h <;> cases h
          · exact .connect ‹_› ‹_›
          · exact .nothing trivial
  | response =>
      simp only [exec] at h
      split at h <;> cases h
      · exact .nothing trivial
      · rename_i answer hfound
        obtain ⟨⟨c, conn⟩, hconn, hanswer⟩ := Option.bind_eq_some_iff.mp hfound
        exact .response hconn hanswer
  | spawnDaemon args =>
      simp only [exec] at h
      split at h
      · cases h
        exact .nothing trivial
      · split at h <;> cases h
        exact .spawnDaemon ‹_›
  | tryWait =>
      simp only [exec] at h
      split at h
      · cases h
        exact .nothing ‹_›
      · split at h <;> cases h
        · exact .tryWait ‹_› ‹_›
        · exact .nothing trivial
  | killChild =>
      simp only [exec] at h
      split at h <;> cases h
      · exact .nothing ‹_›
      · exact .killChild ‹_›
  | waitChild =>
      simp only [exec] at h
      split at h
      · cases h
        exact .nothing ‹_›
      · split at h <;> cases h
        exact .waitChild ‹_› ‹_›

end HostCall

/-! ## The process table -/

namespace Machine

/-- What holds of the process table, the locks and the listeners. -/
structure Table (m : Machine) : Prop where
  pids : (m.procs.map (·.pid)).Nodup
  apart : ∀ pr ∈ m.procs, m.world.pidFree pr.pid = true
  /-- Only a live process holds the lock. -/
  lock : ∀ p, m.lock = some p → ∃ pr ∈ m.procs, pr.pid = p ∧ pr.exited = false
  /-- Only a live process listens. -/
  listener : ∀ p l, m.listener p = some l →
    l < m.bound ∧ ∃ pr ∈ m.procs, pr.pid = p ∧ pr.exited = false
  /-- No two processes share a listener. -/
  unshared : ∀ p q l, m.listener p = some l → m.listener q = some l → p = q
  conns : ∀ c conn, m.conns c = some conn → c < m.made
  since : ∀ pr ∈ m.procs, pr.since ≤ m.answers.length

theorem Table.unique (h : m.Table) {pr pr' : Process} (hpr : pr ∈ m.procs) (hpr' : pr' ∈ m.procs)
    (hpid : pr.pid = pr'.pid) : pr = pr' :=
  List.inj_on_of_nodup_map h.pids hpr hpr' hpid

theorem Table.init : Machine.init.Table where
  pids := List.nodup_nil
  apart := by rintro _ ⟨⟩
  lock := by rintro _ ⟨⟩
  listener := by rintro _ _ ⟨⟩
  unshared := by rintro _ _ _ ⟨⟩
  conns := by rintro _ _ ⟨⟩
  since := by rintro _ ⟨⟩

/-- A change of the processes that keeps what the table is about. -/
theorem Table.map (h : m.Table) {f : Process → Process}
    (hf : ∀ pr, (f pr).pid = pr.pid ∧ (f pr).exited = pr.exited ∧ (f pr).since = pr.since) :
    Table { m with procs := m.procs.map f } := by
  have hlive : ∀ p, (∃ pr ∈ m.procs, pr.pid = p ∧ pr.exited = false) →
      ∃ pr ∈ m.procs.map f, pr.pid = p ∧ pr.exited = false := by
    intro p ⟨pr, hpr, hpid, hexited⟩
    obtain ⟨hpid', hexited', _⟩ := hf pr
    exact ⟨f pr, List.mem_map_of_mem hpr, hpid'.trans hpid, hexited'.trans hexited⟩
  refine ⟨?_, ?_, fun p hp => hlive p (h.lock p hp), ?_, h.unshared, h.conns, ?_⟩
  · have hpids : (m.procs.map f).map (·.pid) = m.procs.map (·.pid) := by
      rw [List.map_map]
      exact List.map_congr_left fun pr _ => (hf pr).1
    show ((m.procs.map f).map (·.pid)).Nodup
    rw [hpids]
    exact h.pids
  · intro pr' hpr'
    obtain ⟨pr, hpr, rfl⟩ := List.mem_map.mp hpr'
    rw [(hf pr).1]
    exact h.apart pr hpr
  · intro p l hl
    exact ⟨(h.listener p l hl).1, hlive p (h.listener p l hl).2⟩
  · intro pr' hpr'
    obtain ⟨pr, hpr, rfl⟩ := List.mem_map.mp hpr'
    rw [(hf pr).2.2]
    exact h.since pr hpr

theorem Table.update (h : m.Table) (pid : Nat) {f : Process → Process}
    (hf : ∀ pr, (f pr).pid = pr.pid ∧ (f pr).exited = pr.exited ∧ (f pr).since = pr.since) :
    (m.update pid f).Table := by
  apply h.map
  intro pr
  split
  · exact hf pr
  · exact ⟨rfl, rfl, rfl⟩

theorem pidFree_spec {pid : Nat} (h : m.pidFree pid = true) :
    m.world.pidFree pid = true ∧ ∀ pr ∈ m.procs, pr.pid ≠ pid := by
  rw [pidFree, Bool.and_eq_true] at h
  refine ⟨h.1, ?_⟩
  intro pr hpr heq
  have hany : m.procs.any (·.pid == pid) = true := List.any_eq_true.mpr ⟨pr, hpr, by simp [heq]⟩
  rw [hany] at h
  cases h.2

theorem Table.spawned (h : m.Table) {uid gid pid fuel : Nat} {parent : Option Nat} {role : Role}
    (hfree : m.pidFree pid = true) : (m.spawned euid uid gid pid fuel parent role).Table := by
  obtain ⟨hworld, hprocs⟩ := pidFree_spec hfree
  have hlive : ∀ p, (∃ pr ∈ m.procs, pr.pid = p ∧ pr.exited = false) →
      ∃ pr ∈ (m.spawned euid uid gid pid fuel parent role).procs, pr.pid = p ∧
        pr.exited = false := by
    intro p ⟨pr, hpr, hpid⟩
    exact ⟨pr, List.mem_cons_of_mem _ hpr, hpid⟩
  refine ⟨?_, ?_, fun p hp => hlive p (h.lock p hp), ?_, h.unshared, h.conns, ?_⟩
  · apply List.nodup_cons.mpr ⟨?_, h.pids⟩
    intro hmem
    obtain ⟨pr, hpr, hpid⟩ := List.mem_map.mp hmem
    exact hprocs pr hpr hpid
  · intro pr hpr
    rcases List.mem_cons.mp hpr with rfl | hpr
    · exact hworld
    · exact h.apart pr hpr
  · intro p l hl
    exact ⟨(h.listener p l hl).1, hlive p (h.listener p l hl).2⟩
  · intro pr hpr
    rcases List.mem_cons.mp hpr with rfl | hpr
    · exact Nat.le_refl _
    · exact h.since pr hpr

/-- Waiting for a process that has exited. -/
theorem Table.reaped (h : m.Table) {child : Process} (hmem : child ∈ m.procs)
    (hexited : child.exited = true) : (m.reaped child.pid).Table := by
  have hlive : ∀ p, (∃ pr ∈ m.procs, pr.pid = p ∧ pr.exited = false) →
      ∃ pr ∈ (m.reaped child.pid).procs, pr.pid = p ∧ pr.exited = false := by
    intro p ⟨pr, hpr, hpid, hlive⟩
    refine ⟨pr, List.mem_filter.mpr ⟨hpr, ?_⟩, hpid, hlive⟩
    rw [decide_eq_true_eq]
    intro heq
    rw [h.unique hpr hmem heq, hexited] at hlive
    cases hlive
  refine ⟨?_, ?_, fun p hp => hlive p (h.lock p hp), ?_, h.unshared, h.conns, ?_⟩
  · exact h.pids.sublist (List.filter_sublist.map _)
  · exact fun pr hpr => h.apart pr (List.mem_of_mem_filter hpr)
  · intro p l hl
    exact ⟨(h.listener p l hl).1, hlive p (h.listener p l hl).2⟩
  · exact fun pr hpr => h.since pr (List.mem_of_mem_filter hpr)

/-- What the end of `pid` leaves of a process. -/
theorem afterExit_spec {pid : Nat} {pr' : Process} (h : afterExit pid pr = some pr') :
    pr' = { pr with exited := pr'.exited, parent := pr'.parent } ∧
      (pr.pid = pid → pr'.exited = true) ∧
      (pr.pid ≠ pid → pr'.exited = pr.exited ∧
        (pr'.parent = pr.parent ∨ pr.parent = some pid ∧ pr'.parent = none)) := by
  unfold afterExit at h
  split at h
  · split at h <;> cases h
    exact ⟨rfl, fun _ => rfl, fun hne => absurd ‹_› hne⟩
  · split at h
    · split at h <;> cases h
      exact ⟨rfl, fun heq => absurd heq ‹_›, fun _ => ⟨rfl, Or.inr ⟨‹_›, rfl⟩⟩⟩
    · cases h
      exact ⟨rfl, fun heq => absurd heq ‹_›, fun _ => ⟨rfl, Or.inl rfl⟩⟩

theorem mem_exit {pid : Nat} {pr' : Process} :
    pr' ∈ (m.exit pid).procs ↔ ∃ pr ∈ m.procs, afterExit pid pr = some pr' :=
  List.mem_filterMap

/-- A live process stays when another one ends. -/
theorem afterExit_live {pid : Nat} (hne : pr.pid ≠ pid) (hlive : pr.exited = false) :
    ∃ pr', afterExit pid pr = some pr' ∧ pr'.pid = pr.pid ∧ pr'.exited = false := by
  unfold afterExit
  rw [if_neg hne]
  split
  · rw [hlive]
    exact ⟨_, rfl, rfl, rfl⟩
  · exact ⟨_, rfl, rfl, hlive⟩

theorem Table.exit (h : m.Table) (pid : Nat) : (m.exit pid).Table := by
  have hlive : ∀ p, p ≠ pid → (∃ pr ∈ m.procs, pr.pid = p ∧ pr.exited = false) →
      ∃ pr ∈ (m.exit pid).procs, pr.pid = p ∧ pr.exited = false := by
    rintro p hne ⟨pr, hpr, rfl, hlive⟩
    obtain ⟨pr', hafter, hpid, hlive'⟩ := afterExit_live hne hlive
    exact ⟨pr', mem_exit.mpr ⟨pr, hpr, hafter⟩, hpid, hlive'⟩
  have hfrom : ∀ pr' ∈ (m.exit pid).procs, ∃ pr ∈ m.procs, pr.pid = pr'.pid ∧
      pr.since = pr'.since := by
    intro pr' hpr'
    obtain ⟨pr, hpr, hafter⟩ := mem_exit.mp hpr'
    have hspec := (afterExit_spec hafter).1
    exact ⟨pr, hpr, (congrArg Process.pid hspec).symm, (congrArg Process.since hspec).symm⟩
  have hlistener : ∀ p l, (m.exit pid).listener p = some l → p ≠ pid ∧ m.listener p = some l := by
    intro p l hl
    by_cases hp : p = pid
    · subst hp
      simp [Machine.exit] at hl
    · refine ⟨hp, ?_⟩
      simpa [Machine.exit, Function.update_of_ne hp] using hl
  refine ⟨?_, ?_, ?_, ?_, ?_, h.conns, ?_⟩
  · show ((m.procs.filterMap (afterExit pid)).map (·.pid)).Nodup
    rw [List.Nodup, List.pairwise_map, List.pairwise_filterMap]
    have hpids := h.pids
    rw [List.Nodup, List.pairwise_map] at hpids
    apply hpids.imp
    intro a b hab a' ha b' hb
    have hpa := congrArg Process.pid (afterExit_spec ha).1
    have hpb := congrArg Process.pid (afterExit_spec hb).1
    rw [hpa, hpb]
    exact hab
  · intro pr' hpr'
    obtain ⟨pr, hpr, hpid, _⟩ := hfrom pr' hpr'
    have hfree := h.apart pr hpr
    rw [hpid] at hfree
    show World.pidFree (if m.world.pid = pid then _ else _) pr'.pid = true
    split <;> exact hfree
  · intro p hp
    have hlock : m.lock = some p ∧ p ≠ pid := by
      simp only [Machine.exit] at hp
      split at hp
      · cases hp
      · refine ⟨hp, ?_⟩
        rintro rfl
        exact absurd hp ‹_›
    exact hlive p hlock.2 (h.lock p hlock.1)
  · intro p l hl
    obtain ⟨hne, hl⟩ := hlistener p l hl
    exact ⟨(h.listener p l hl).1, hlive p hne (h.listener p l hl).2⟩
  · intro p q l hp hq
    exact h.unshared p q l (hlistener p l hp).2 (hlistener q l hq).2
  · intro pr' hpr'
    obtain ⟨pr, hpr, _, hsince⟩ := hfrom pr' hpr'
    rw [← hsince]
    exact h.since pr hpr

theorem pidFree_of_admits {world : World} (hworld : m.world.pidFree pr.pid = true)
    (hpr : pr ∈ m.procs) (hadmits : m.admits world = true) : world.pidFree pr.pid = true := by
  have hfits := (World.pidFree_spec hworld).1
  have hfree := List.all_eq_true.mp hadmits pr hpr
  rw [World.pidFree, hfree, Bool.and_true, decide_eq_true_eq]
  exact hfits

theorem Table.world (h : m.Table) {world : World}
    (hworld : ∀ pr ∈ m.procs, world.pidFree pr.pid = true) : Table { m with world } :=
  ⟨h.pids, hworld, h.lock, h.listener, h.unshared, h.conns, h.since⟩

/-- What is added to the connections and the answers. -/
theorem Table.answered (h : m.Table) {conn : Conn} {a : SentAnswer}
    (hconn : m.conns a.conn = some conn) : (m.answered conn a).Table := by
  refine ⟨h.pids, h.apart, h.lock, h.listener, h.unshared, ?_, ?_⟩
  · intro c' conn' hc'
    by_cases heq : c' = a.conn
    · exact heq ▸ h.conns a.conn conn hconn
    · apply h.conns c' conn'
      simpa [Machine.answered, Function.update_of_ne heq] using hc'
  · exact fun pr hpr => Nat.le_succ_of_le (h.since pr hpr)

theorem Table.connected (h : m.Table) (uid gid l : Nat) (request : Request) :
    (m.connected uid gid l request).Table := by
  refine ⟨h.pids, h.apart, h.lock, h.listener, h.unshared, ?_, h.since⟩
  intro c conn hc
  by_cases heq : c = m.made
  · exact heq ▸ Nat.lt_succ_self m.made
  · apply Nat.lt_succ_of_lt
    apply h.conns c conn
    simpa [Machine.connected, Function.update_of_ne heq] using hc

theorem connOf_some {pid c : Nat} {conn : Conn} (h : m.connOf pid = some (c, conn)) :
    m.conn pid = some c ∧ m.conns c = some conn := by
  obtain ⟨c', hc', hmap⟩ := Option.bind_eq_some_iff.mp h
  obtain ⟨conn', hconn', heq⟩ := Option.map_eq_some_iff.mp hmap
  cases heq
  exact ⟨hc', hconn'⟩

theorem child_spec {pid : Nat} {child : Process} (h : m.child pid = some child) :
    child ∈ m.procs ∧ child.parent = some pid := by
  refine ⟨List.mem_of_find?_eq_some h, ?_⟩
  simpa using List.find?_some h

theorem Table.call (h : m.Table) (hpr : pr ∈ m.procs) (hlive : pr.exited = false)
    {c : HostCall} {r : c.Reply} (he : c.Effect euid pr m r m') : m'.Table := by
  cases he with
  | nothing => exact h
  | lock free =>
      refine ⟨h.pids, h.apart, ?_, h.listener, h.unshared, h.conns, h.since⟩
      intro p hp
      cases hp
      exact ⟨pr, hpr, rfl, hlive⟩
  | unlock own =>
      refine ⟨h.pids, h.apart, ?_, h.listener, h.unshared, h.conns, h.since⟩
      rintro p ⟨⟩
  | boot | bootBlind | removeSocket | begin | accept | overlook | receive | response =>
      exact ⟨h.pids, h.apart, h.lock, h.listener, h.unshared, h.conns, h.since⟩
  | bind free =>
      have hbound : ∀ p l, Function.update m.listener pr.pid (some m.bound) p = some l →
          (p = pr.pid ∧ l = m.bound) ∨ (p ≠ pr.pid ∧ m.listener p = some l) := by
        intro p l hl
        by_cases hp : p = pr.pid
        · rw [hp, Function.update_self] at hl
          exact Or.inl ⟨hp, (Option.some.inj hl).symm⟩
        · rw [Function.update_of_ne hp] at hl
          exact Or.inr ⟨hp, hl⟩
      refine ⟨h.pids, h.apart, h.lock, ?_, ?_, h.conns, h.since⟩
      · intro p l hl
        rcases hbound p l hl with ⟨rfl, rfl⟩ | ⟨_, hl⟩
        · exact ⟨Nat.lt_succ_self _, pr, hpr, rfl, hlive⟩
        · exact ⟨Nat.lt_succ_of_lt (h.listener p l hl).1, (h.listener p l hl).2⟩
      · intro p q l hp hq
        rcases hbound p l hp with ⟨rfl, rfl⟩ | ⟨_, hp⟩ <;>
          rcases hbound q _ hq with ⟨rfl, hl⟩ | ⟨_, hq⟩
        · rfl
        · exact absurd (h.listener q _ hq).1 (Nat.lt_irrefl _)
        · exact absurd (hl ▸ (h.listener p l hp).1) (Nat.lt_irrefl _)
        · exact h.unshared p q l hp hq
  | closeListener =>
      have hkept : ∀ p l, Function.update m.listener pr.pid none p = some l →
          m.listener p = some l := by
        intro p l hl
        by_cases hp : p = pr.pid
        · rw [hp, Function.update_self] at hl
          cases hl
        · rwa [Function.update_of_ne hp] at hl
      refine ⟨h.pids, h.apart, h.lock, ?_, ?_, h.conns, h.since⟩
      · exact fun p l hl => h.listener p l (hkept p l hl)
      · exact fun p q l hp hq => h.unshared p q l (hkept p l hp) (hkept q l hq)
  | sendError found | sendResponse found => exact h.answered (connOf_some found).2
  | sys exec apart =>
      have ht := h.world fun pr hpr => pidFree_of_admits (h.apart pr hpr) hpr apart
      exact ⟨ht.pids, ht.apart, ht.lock, ht.listener, ht.unshared, ht.conns, ht.since⟩
  | @connect request l name listening =>
      have ht := h.connected pr.uid pr.gid l request
      exact ⟨ht.pids, ht.apart, ht.lock, ht.listener, ht.unshared, ht.conns, ht.since⟩
  | spawnDaemon free => exact h.spawned free
  | tryWait found exited | waitChild found exited => exact h.reaped (child_spec found).1 exited
  | killChild found => exact h.update _ fun pr => ⟨rfl, rfl, rfl⟩

/-! ## Everything that happens -/

end Machine

/-- What other processes than the daemon do. -/
def Action.aside : Action → Bool
  | worker _ _ | kill _ | output _ _ => true
  | boot _ _ _ _ | begin _ | daemon _ | crash => false

/-- The world after such an action. -/
def World.after (w : World) (action : Action) : World := (System.step 0 ⟨w, none⟩ action).world

theorem System.step_aside (euid : Nat) (sys : System) {action : Action} (h : action.aside = true) :
    sys.step euid action = { sys with world := sys.world.after action } := by
  cases action with
  | worker | kill => rfl
  | output pid bytes =>
      simp only [World.after, System.step]
      split <;> rfl
  | boot | begin | daemon | crash => cases h

namespace Machine

/-- A step of the workers, as the machine takes it. -/
def Aside (m : Machine) (world : World) : Prop :=
  (∃ action : Action, action.aside = true ∧ world = m.world.after action) ∧
    m.admits world = true

/-- Everything that one action can do. -/
inductive Moves (euid : Nat) (m : Machine) : Machine → Prop
  | idle : Moves euid m m
  | launch (uid gid pid fuel : Nat) (role : Role) (free : m.pidFree pid = true) :
      Moves euid m (m.spawned euid uid gid pid fuel none role)
  | connect (uid gid l : Nat) (request : Request) (name : m.socket = some l)
      (listening : m.listening l = true) : Moves euid m (m.connected uid gid l request)
  | call (pr : Process) (c : HostCall) (k : c.Reply → HostProg Unit) (r : c.Reply) (m' : Machine)
      (mem : pr ∈ m.procs) (live : pr.exited = false) (prog : pr.prog = .call () c k)
      (effect : c.Effect euid pr m r m') :
      Moves euid m (m'.update pr.pid fun pr => { pr with prog := k r })
  | exit (pr : Process) (mem : pr ∈ m.procs) (live : pr.exited = false) :
      Moves euid m (m.exit pr.pid)
  | aside (world : World) (h : m.Aside world) : Moves euid m { m with world }

/-- Fewer workers use fewer process ids. -/
theorem Table.admits (h : m.Table) {world : World} (hworkers : world.workers ⊆ m.world.workers) :
    m.admits world = true := by
  apply List.all_eq_true.mpr
  intro pr hpr
  have hfree := (World.pidFree_spec (h.apart pr hpr)).2
  rw [Bool.not_eq_true', World.pidInUse, List.any_eq_false]
  intro wk hwk
  simpa using hfree wk (hworkers hwk)

theorem printed_workers (w : World) (job : Job) (bytes : List UInt8) :
    (w.printed job bytes).workers = w.workers := by
  unfold World.printed
  split <;> rfl

theorem step_moves (euid : Nat) (h : m.Table) (action : MachineAction) :
    Moves euid m (m.step euid action) := by
  cases action with
  | launch uid gid pid fuel role =>
      unfold Machine.step
      dsimp only
      split
      · exact .launch uid gid pid fuel role ‹_›
      · exact .idle
  | connect uid gid request =>
      unfold Machine.step
      dsimp only
      split
      · split
        · exact .connect uid gid _ request ‹_› ‹_›
        · exact .idle
      · exact .idle
  | process pid env =>
      unfold Machine.step
      dsimp only
      split
      · rename_i pr hfind
        have hpid : pr.pid = pid := by simpa using List.find?_some hfind
        subst hpid
        split
        · exact .idle
        · rename_i hgone
          have hlive : pr.exited = false := by
            cases hexited : pr.exited
            · rfl
            · simp [hexited] at hgone
          split
          · rename_i c k hprog
            split
            · rename_i r m' hexec
              exact .call pr c k r m' (List.mem_of_find?_eq_some hfind) hlive hprog
                (HostCall.exec_effect hexec)
            · exact .idle
          · exact .idle
      · exact .idle
  | exit pid =>
      unfold Machine.step
      dsimp only
      split
      · rename_i hany
        obtain ⟨pr, hpr, hpid⟩ := List.any_eq_true.mp hany
        rw [Bool.and_eq_true, beq_iff_eq, Bool.not_eq_true'] at hpid
        rw [← hpid.1]
        exact .exit pr hpr hpid.2
      · exact .idle
  | worker pid env =>
      unfold Machine.step
      dsimp only
      split
      · exact .aside _ ⟨⟨.worker pid env, rfl, rfl⟩, ‹_›⟩
      · exact .idle
  | kill pid => exact .aside _ ⟨⟨.kill pid, rfl, rfl⟩, h.admits (List.filter_subset_self _)⟩
  | output pid bytes =>
      unfold Machine.step
      dsimp only
      split
      · rename_i wk hfind
        refine .aside _ ⟨⟨.output pid bytes, rfl, ?_⟩, h.admits ?_⟩
        · simp only [World.after, System.step, hfind]
        · rw [printed_workers]
          exact List.Subset.refl _
      · exact .idle

theorem Table.moves (h : m.Table) (hm : Moves euid m m') : m'.Table := by
  cases hm with
  | idle => exact h
  | launch uid gid pid fuel role free => exact h.spawned free
  | connect uid gid l request name listening => exact h.connected uid gid l request
  | call pr c k r m' mem live prog effect =>
      exact (h.call mem live effect).update _ fun pr => ⟨rfl, rfl, rfl⟩
  | exit pr mem live => exact h.exit pr.pid
  | aside world ha => exact h.world fun pr hpr => pidFree_of_admits (h.apart pr hpr) hpr ha.2

theorem Table.run (h : m.Table) (actions : List MachineAction) : (m.run euid actions).Table := by
  induction actions generalizing m with
  | nil => exact h
  | cons action rest ih => exact ih (h.moves (step_moves euid h action))

end Machine

/-- No process is new, and none does something else. -/
def Machine.Inherits (m' m : Machine) : Prop :=
  ∀ p ∈ m'.procs, ∃ q ∈ m.procs, p = { q with killed := p.killed }

/-- Only `spawnDaemon` starts a process. -/
theorem HostCall.Effect.procs {c : HostCall} {r : c.Reply} (he : c.Effect euid pr m r m') :
    m'.Inherits m ∨ ∃ args pid fuel, m.pidFree pid = true ∧
      (⟨c, r⟩ : Σ c : HostCall, c.Reply) = ⟨.spawnDaemon args, .ok ()⟩ ∧
      m' = m.spawned euid pr.uid pr.gid pid fuel (some pr.pid) (.daemon args) := by
  cases he with
  | spawnDaemon free => exact Or.inr ⟨_, _, _, free, rfl, rfl⟩
  | tryWait | waitChild => exact Or.inl fun p hp => ⟨p, List.mem_of_mem_filter hp, rfl⟩
  | killChild =>
      refine Or.inl fun p hp => ?_
      obtain ⟨q, hq, rfl⟩ := List.mem_map.mp hp
      refine ⟨q, hq, ?_⟩
      split <;> rfl
  | nothing | lock | unlock | boot | bootBlind | overlook | removeSocket | bind | closeListener
  | accept | receive | sendError | sendResponse | begin | sys | connect | response =>
      exact Or.inl fun p hp => ⟨p, hp, rfl⟩

/-! ## Disciplines -/

/-- A specification of the calls of a process `pid`, over the points `Φ` at which a process
    can be, and what a point says about the machine and about `x`. -/
structure Discipline (X Φ : Type) where
  spec : (pid : Nat) → Prog.Spec Unit HostCall HostCall.Reply Φ
  /-- How a process may end. -/
  final : Role → Except Error Unit → Φ → Prop
  /-- Where every process starts. -/
  first : Φ
  /-- What holds of the machine as a whole. -/
  inv : X → Machine → Prop
  /-- What holds of the machine when the process `pid`, which started when `since` answers
      had been sent, is at this point. -/
  view : X → Machine → (pid since : Nat) → Φ → Prop

namespace Discipline

variable {X Φ : Type} (D : Discipline X Φ)

/-- The process is at a point of its program that fits the machine. -/
def At (x : X) (m : Machine) (pr : Process) : Prop :=
  ∃ φ, pr.prog.Safe (D.spec pr.pid) (fun _ => D.final pr.role) φ ∧ D.view x m pr.pid pr.since φ

/-- Every live process keeps to the discipline. -/
def Holds (m : Machine) : Prop :=
  ∃ x, D.inv x m ∧ ∀ pr ∈ m.procs, pr.exited = false → D.At x m pr

/-- From `x` and `m` to `x'` and `m'`, the processes other than `pid` lose nothing. -/
def Spares (pid : Nat) (x : X) (m : Machine) (x' : X) (m' : Machine) : Prop :=
  ∀ pr ∈ m.procs, pr.exited = false → pr.pid ≠ pid → ∀ φ, D.view x m pr.pid pr.since φ →
    D.view x' m' pr.pid pr.since φ

/-- What has to be proved. -/
structure Sound (euid : Nat) : Prop where
  start : ∃ x, D.inv x Machine.init
  program : ∀ pid fuel (role : Role),
    (role.prog euid pid fuel).Safe (D.spec pid) (fun _ => D.final role) D.first
  launch : ∀ x m uid gid pid fuel role, m.Table → D.inv x m → m.pidFree pid = true →
    D.inv x (m.spawned euid uid gid pid fuel none role) ∧
      D.view x (m.spawned euid uid gid pid fuel none role) pid m.answers.length D.first ∧
      ∀ p since φ, p ≠ pid → D.view x m p since φ →
        D.view x (m.spawned euid uid gid pid fuel none role) p since φ
  connect : ∀ x m uid gid l request, m.Table → D.inv x m → m.socket = some l →
    D.inv x (m.connected uid gid l request) ∧
      ∀ p since φ, D.view x m p since φ → D.view x (m.connected uid gid l request) p since φ
  aside : ∀ x m world, m.Table → D.inv x m → m.Aside world →
    ∃ x', D.inv x' { m with world } ∧
      ∀ p since φ, D.view x m p since φ → D.view x' { m with world } p since φ
  exit : ∀ x m pr φ, m.Table → D.inv x m → pr ∈ m.procs → pr.exited = false →
    D.view x m pr.pid pr.since φ →
    ∃ x', D.inv x' (m.exit pr.pid) ∧ D.Spares pr.pid x m x' (m.exit pr.pid)
  call : ∀ x m pr φ c r m', m.Table → D.inv x m → pr ∈ m.procs → pr.exited = false →
    D.view x m pr.pid pr.since φ → (D.spec pr.pid).pre c () φ →
    m'.Inherits m → c.Effect euid pr m r m' →
    ∃ x', D.inv x' m' ∧
      (∃ φ', (D.spec pr.pid).post c () φ r φ' ∧ D.view x' m' pr.pid pr.since φ') ∧
      D.Spares pr.pid x m x' m'
  child : ∀ x m pr φ args pid fuel, m.Table → D.inv x m → pr ∈ m.procs → pr.exited = false →
    D.view x m pr.pid pr.since φ → (D.spec pr.pid).pre (.spawnDaemon args) () φ →
    m.pidFree pid = true →
    D.inv x (m.spawned euid pr.uid pr.gid pid fuel (some pr.pid) (.daemon args)) ∧
      D.view x (m.spawned euid pr.uid pr.gid pid fuel (some pr.pid) (.daemon args))
        pid m.answers.length D.first ∧
      (∃ φ', (D.spec pr.pid).post (.spawnDaemon args) () φ (.ok ()) φ' ∧
        D.view x (m.spawned euid pr.uid pr.gid pid fuel (some pr.pid) (.daemon args))
          pr.pid pr.since φ') ∧
      D.Spares pr.pid x m x (m.spawned euid pr.uid pr.gid pid fuel (some pr.pid) (.daemon args))
  /-- What is left of a program is the business of its process. -/
  prog : ∀ x m pid prog, D.inv x m →
    D.inv x (m.update pid fun pr => { pr with prog }) ∧
      ∀ p since φ, D.view x m p since φ →
        D.view x (m.update pid fun pr => { pr with prog }) p since φ

end Discipline

namespace Discipline.Sound

variable {X Φ : Type} {D : Discipline X Φ} (hD : D.Sound euid)
include hD

/-- A process that has made its next call, among others that lost nothing. -/
theorem advance {x : X} {c : HostCall} {k : c.Reply → HostProg Unit} {r : c.Reply} {φ' : Φ}
    (hinv : D.inv x m') (hview : D.view x m' pr.pid pr.since φ')
    (hsafe : (k r).Safe (D.spec pr.pid) (fun _ => D.final pr.role) φ')
    (hself : ∀ p ∈ m'.procs, p.pid = pr.pid → p.since = pr.since ∧ p.role = pr.role)
    (hothers : ∀ p ∈ m'.procs, p.exited = false → p.pid ≠ pr.pid → D.At x m' p) :
    D.Holds (m'.update pr.pid fun pr => { pr with prog := k r }) := by
  obtain ⟨hinv', hviews⟩ := hD.prog x m' pr.pid (k r) hinv
  refine ⟨x, hinv', ?_⟩
  intro p' hp' hlive
  obtain ⟨p, hp, rfl⟩ := List.mem_map.mp hp'
  by_cases hpid : p.pid = pr.pid
  · obtain ⟨hsince, hrole⟩ := hself p hp hpid
    simp only [hpid, if_true, hsince, hrole, At]
    exact ⟨φ', hsafe, hviews _ _ _ hview⟩
  · simp only [hpid, if_false] at hlive ⊢
    obtain ⟨φ, hφ, hv⟩ := hothers p hp hlive hpid
    exact ⟨φ, hφ, hviews _ _ _ hv⟩

theorem moves (htable : m.Table) (h : D.Holds m) (hm : Machine.Moves euid m m') : D.Holds m' := by
  obtain ⟨x, hinv, hat⟩ := h
  cases hm with
  | idle => exact ⟨x, hinv, hat⟩
  | launch uid gid pid fuel role free =>
      obtain ⟨hinv', hnew, hold⟩ := hD.launch x m uid gid pid fuel role htable hinv free
      refine ⟨x, hinv', ?_⟩
      intro p hp hlive
      rcases List.mem_cons.mp hp with rfl | hp
      · exact ⟨D.first, hD.program pid fuel role, hnew⟩
      · obtain ⟨φ, hsafe, hview⟩ := hat p hp hlive
        exact ⟨φ, hsafe, hold _ _ _ ((Machine.pidFree_spec free).2 p hp) hview⟩
  | connect uid gid l request name =>
      obtain ⟨hinv', hold⟩ := hD.connect x m uid gid l request htable hinv name
      refine ⟨x, hinv', ?_⟩
      intro p hp hlive
      obtain ⟨φ, hsafe, hview⟩ := hat p hp hlive
      exact ⟨φ, hsafe, hold _ _ _ hview⟩
  | aside world ha =>
      obtain ⟨x', hinv', hold⟩ := hD.aside x m world htable hinv ha
      refine ⟨x', hinv', ?_⟩
      intro p hp hlive
      obtain ⟨φ, hsafe, hview⟩ := hat p hp hlive
      exact ⟨φ, hsafe, hold _ _ _ hview⟩
  | exit pr mem live =>
      obtain ⟨φ, _, hview⟩ := hat pr mem live
      obtain ⟨x', hinv', hspares⟩ := hD.exit x m pr φ htable hinv mem live hview
      refine ⟨x', hinv', ?_⟩
      intro p' hp' hlive
      obtain ⟨p, hp, hafter⟩ := Machine.mem_exit.mp hp'
      obtain ⟨heq, hgone, hstays⟩ := Machine.afterExit_spec hafter
      have hne : p.pid ≠ pr.pid := by
        intro hpid
        rw [hgone hpid] at hlive
        cases hlive
      have hplive : p.exited = false := (hstays hne).1 ▸ hlive
      obtain ⟨ψ, hsafe, hview'⟩ := hat p hp hplive
      rw [heq]
      exact ⟨ψ, hsafe, hspares p hp hplive hne ψ hview'⟩
  | call pr c k r m' mem live prog effect =>
      obtain ⟨φ, hsafe, hview⟩ := hat pr mem live
      rw [prog] at hsafe
      obtain ⟨hpre, hnext⟩ := hsafe
      rcases effect.procs with hinherits | ⟨args, pid, fuel, free, hcall, rfl⟩
      · obtain ⟨x', hinv', ⟨φ', hpost, hview'⟩, hspares⟩ :=
          hD.call x m pr φ c r m' htable hinv mem live hview hpre hinherits effect
        apply hD.advance hinv' hview' (hnext r φ' hpost)
        · intro p hp hpid
          obtain ⟨q, hq, heq⟩ := hinherits p hp
          have hqpid : q.pid = pr.pid := (congrArg Process.pid heq).symm.trans hpid
          rw [heq, htable.unique hq mem hqpid]
          exact ⟨rfl, rfl⟩
        · intro p hp hplive hpid
          obtain ⟨q, hq, heq⟩ := hinherits p hp
          have hqpid : q.pid ≠ pr.pid := fun h => hpid ((congrArg Process.pid heq).trans h)
          have hqlive : q.exited = false := (congrArg Process.exited heq).symm.trans hplive
          obtain ⟨ψ, hψ, hv⟩ := hat q hq hqlive
          rw [heq]
          exact ⟨ψ, hψ, hspares q hq hqlive hqpid ψ hv⟩
      -- The child is new, and its parent is the process that makes the call.
      · cases hcall
        obtain ⟨hinv', hnew, ⟨φ', hpost, hview'⟩, hspares⟩ :=
          hD.child x m pr φ args pid fuel htable hinv mem live hview hpre free
        have hne : pr.pid ≠ pid := (Machine.pidFree_spec free).2 pr mem
        apply hD.advance hinv' hview' (hnext _ φ' hpost)
        · intro p hp hpid
          rcases List.mem_cons.mp hp with rfl | hp
          · exact absurd hpid.symm hne
          · rw [htable.unique hp mem hpid]
            exact ⟨rfl, rfl⟩
        · intro p hp hplive hpid
          rcases List.mem_cons.mp hp with rfl | hp
          · exact ⟨D.first, hD.program pid fuel (.daemon args), hnew⟩
          · obtain ⟨ψ, hψ, hv⟩ := hat p hp hplive
            exact ⟨ψ, hψ, hspares p hp hplive hpid ψ hv⟩

/-- Every run keeps to the discipline. -/
theorem run (htable : m.Table) (h : D.Holds m) (actions : List MachineAction) :
    D.Holds (m.run euid actions) := by
  induction actions generalizing m with
  | nil => exact h
  | cons action rest ih =>
      have hm := Machine.step_moves euid htable action
      exact ih (htable.moves hm) (hD.moves htable h hm)

theorem run_init (actions : List MachineAction) : D.Holds (Machine.init.run euid actions) := by
  obtain ⟨x, hx⟩ := hD.start
  exact hD.run Machine.Table.init ⟨x, hx, fun pr hpr => absurd hpr List.not_mem_nil⟩ actions

end Discipline.Sound

end Xlurm
