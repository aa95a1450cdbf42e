/-
  Xlurm.Theorems.Daemons

  Any number of daemons, `start`s and `restart`s at the same time: there is one
  scheduler, one listener with a name, and every client is answered by it.

  Each property is about every run of the machine: every interleaving of the
  calls of its processes and workers, with failures, kills and other clients.
-/

import Xlurm.Refine.Clients
import Xlurm.Refine.Machine

namespace Xlurm

variable {euid : Nat} {m : Machine}

/-- The next call of the process. -/
def Process.Calls (pr : Process) (c : HostCall) : Prop := ∃ k, pr.prog = .call () c k

/-- The process has returned. -/
def Process.Returned (pr : Process) (r : Except Error Unit) : Prop := pr.prog = .ret () r

/-! ## One scheduler -/

/-- The machine is at a state of the system with one daemon, and a process that lets its
    scheduler work is this daemon. -/
structure Machine.Refines (euid : Nat) (m : Machine) (sys : System) : Prop where
  /-- As long as no daemon has overlooked `state.json` when it started. -/
  reached : .state ∉ m.world.misread → ∃ actions, sys = System.init.run euid actions
  world : sys.world = m.world
  down : m.lock = none → sys.daemon = none
  daemon : ∀ pr ∈ m.procs, pr.exited = false → ∀ c, pr.Calls (.sys c) →
    m.lock = some pr.pid ∧ ∃ st k, sys.daemon = some (.call st c k)

/-- In every run, a live process is at a stage that fits its program. -/
theorem Machine.staged (euid : Nat) (actions : List MachineAction) :
    let m := Machine.init.run euid actions
    ∃ sys, m.Follows euid sys ∧ ∀ pr ∈ m.procs, pr.exited = false →
      ∃ φ : Stage, φ.Fits sys m pr.pid ∧ ∀ c, pr.Calls c → c.Needs φ := by
  intro m
  obtain ⟨sys, hfollows, hat⟩ := (lockDiscipline_sound euid).run_init actions
  refine ⟨sys, hfollows, ?_⟩
  intro pr hpr hlive
  obtain ⟨φ, hsafe, hfits⟩ := hat pr hpr hlive
  refine ⟨φ, hfits, ?_⟩
  rintro c ⟨k, hprog⟩
  rw [hprog] at hsafe
  exact hsafe.1

/-- Whatever the processes, the workers and the clients of the machine do, the files, the
    workers and the history are those of a run with a single daemon. -/
theorem machine_refines (euid : Nat) (actions : List MachineAction) :
    ∃ sys, (Machine.init.run euid actions).Refines euid sys := by
  obtain ⟨sys, hfollows, hstaged⟩ := Machine.staged euid actions
  refine ⟨sys, hfollows.run, hfollows.world, hfollows.down, ?_⟩
  intro pr hpr hlive c hcalls
  obtain ⟨φ, hfits, hneeds⟩ := hstaged pr hpr hlive
  obtain ⟨hlocked, st, k, hdaemon⟩ := hneeds _ hcalls
  exact ⟨hfits.locked.mp hlocked, st, k, (hfits.daemon hlocked).trans hdaemon⟩

/-! ## One owner -/

/-- The calls with which a daemon acts on `state.json`, the jobs, the socket and the clients. -/
def HostCall.owned : HostCall → Bool
  | unlock | newScheduler _ _ | socketExists | removeSocket | bind | closeListener | accept | peer
  | receive | sendError _ | sendResponse _ | begin _ | sys _ | poll => true
  | _ => false

theorem HostCall.Needs.locked {c : HostCall} {φ : Stage} (h : c.Needs φ)
    (howned : c.owned = true) : φ.locked = true := by
  cases c with
  | unlock | newScheduler | removeSocket | bind | closeListener | sys => exact h.1
  | socketExists => exact h
  | accept | peer | receive | sendError | sendResponse | poll => exact h.1
  | begin => exact h.1.1
  | _ => cases howned

/-- Who owns the lock, the listener and the name of the socket. -/
structure Machine.Owned (m : Machine) : Prop where
  /-- Whoever acts for a daemon has the lock. -/
  acts : ∀ pr ∈ m.procs, pr.exited = false → ∀ c, pr.Calls c → c.owned = true →
    m.lock = some pr.pid
  /-- At most one process is about to act for a daemon. -/
  alone : ∀ pr ∈ m.procs, ∀ pr' ∈ m.procs, pr.exited = false → pr'.exited = false →
    ∀ c c', pr.Calls c → pr'.Calls c' → c.owned = true → c'.owned = true → pr = pr'
  /-- Whoever listens has the lock. -/
  listens : ∀ p l, m.listener p = some l → m.lock = some p
  /-- No name is in the way when a daemon binds its socket, unless it was there and not seen. -/
  binds : ∀ pr ∈ m.procs, pr.exited = false → pr.Calls .bind → m.unseen pr.pid = false →
    m.socket = none
  /-- No daemon removes the name of another one's listener. -/
  removes : ∀ pr ∈ m.procs, pr.exited = false → pr.Calls .removeSocket →
    ∀ p l, m.listener p = some l → m.socket = some l → p = pr.pid
  /-- While a daemon serves clients, the name of the socket leads to its listener. -/
  serves : ∀ pr ∈ m.procs, pr.exited = false → pr.Calls .accept →
    ∃ l, m.listener pr.pid = some l ∧ m.socket = some l

/-- The lock of the daemon is enough to keep a second one away from the state directory and
    from the socket, at every moment of every run. -/
theorem machine_owned (euid : Nat) (actions : List MachineAction) :
    (Machine.init.run euid actions).Owned := by
  obtain ⟨sys, hfollows, hstaged⟩ := Machine.staged euid actions
  have htable : (Machine.init.run euid actions).Table := Machine.Table.init.run actions
  set m := Machine.init.run euid actions
  have hacts : ∀ pr ∈ m.procs, pr.exited = false → ∀ c, pr.Calls c → c.owned = true →
      m.lock = some pr.pid := by
    intro pr hpr hlive c hcalls howned
    obtain ⟨φ, hfits, hneeds⟩ := hstaged pr hpr hlive
    exact hfits.locked.mp ((hneeds c hcalls).locked howned)
  have hlistens : ∀ p l, m.listener p = some l → m.lock = some p := by
    intro p l hl
    obtain ⟨_, pr, hpr, rfl, hlive⟩ := htable.listener p l hl
    obtain ⟨φ, hfits, _⟩ := hstaged pr hpr hlive
    have hsome : φ.listens = true := hfits.listens.trans (by rw [hl]; rfl)
    apply hfits.locked.mp
    by_contra hfree
    rw [(hfits.unlocked (by simpa using hfree)).2.1] at hsome
    cases hsome
  refine ⟨hacts, ?_, hlistens, ?_, ?_, ?_⟩
  · intro pr hpr pr' hpr' hlive hlive' c c' hcalls hcalls' howned howned'
    have hlock := hacts pr hpr hlive c hcalls howned
    rw [hacts pr' hpr' hlive' c' hcalls' howned'] at hlock
    exact htable.unique hpr hpr' (Option.some.inj hlock).symm
  · intro pr hpr hlive hcalls hseen
    obtain ⟨φ, hfits, hneeds⟩ := hstaged pr hpr hlive
    exact hfits.clear (hneeds _ hcalls).2.1 hseen
  · intro pr hpr hlive hcalls p l hl _
    have hlock := hacts pr hpr hlive _ hcalls rfl
    rw [hlistens p l hl] at hlock
    exact Option.some.inj hlock
  · intro pr hpr hlive hcalls
    obtain ⟨φ, hfits, hneeds⟩ := hstaged pr hpr hlive
    exact hfits.named (hneeds _ hcalls).2.2

/-! ## Requests do not starve jobs -/

/-- A daemon has begun to handle a request. -/
def Mark.isRequest : Mark → Bool
  | began (.request _ _ _) => true
  | _ => false

/-- Neither a tick nor the boot of a daemon. -/
def Mark.betweenTicks : Mark → Bool
  | booted | began .tick => false
  | began _ => true

theorem requestsSince_append (marks older : List Mark)
    (h : ∀ mark ∈ marks, mark.betweenTicks = true) :
    requestsSince (marks ++ older) = marks.countP Mark.isRequest + requestsSince older := by
  induction marks with
  | nil => simp
  | cons mark rest ih =>
      have hrest := ih fun mark hmark => h mark (List.mem_cons_of_mem _ hmark)
      rw [List.cons_append, List.countP_cons]
      cases mark with
      | booted => cases h _ List.mem_cons_self
      | began op =>
          cases op with
          | tick => cases h _ List.mem_cons_self
          | request uid gid request =>
              show requestsSince (rest ++ older) + 1 = _
              rw [hrest]
              simp only [Mark.isRequest, if_true]
              omega
          | cleanup | refresh =>
              show requestsSince (rest ++ older) = _
              rw [hrest]
              simp [Mark.isRequest]

/-- Between two ticks, at most 16 requests are handled. -/
def Machine.Fair (m : Machine) : Prop :=
  ∀ newer between older, m.begun = newer ++ (between ++ older) →
    (∀ mark ∈ between, mark.betweenTicks = true) → between.countP Mark.isRequest ≤ 16

/-- However many clients connect, and whenever, their requests cannot keep a daemon from its
    next tick. -/
theorem ticks_not_starved (euid : Nat) (actions : List MachineAction) :
    (Machine.init.run euid actions).Fair := by
  intro newer between older hbegun hbetween
  obtain ⟨sys, hfollows, _⟩ := Machine.staged euid actions
  have hbound := hfollows.requests (between ++ older) ⟨newer, hbegun.symm⟩
  rw [requestsSince_append between older hbetween] at hbound
  omega

/-! ## Clients and their answers -/

/-- What the clients of a machine get. -/
structure Machine.Answered (m : Machine) : Prop where
  /-- No client is answered twice. -/
  once : (m.answers.map (·.conn)).Nodup
  /-- An answer goes to one client. -/
  sent : ∀ a ∈ m.answers, ∃ conn, m.conns a.conn = some conn ∧ conn.answer = some a
  /-- It belongs to the request of this client, and was sent after the client had connected. -/
  answers : ∀ c conn a, m.conns c = some conn → conn.answer = some a →
    a.conn = c ∧ a.request = conn.request ∧ a ∈ m.answersSince conn.since
  /-- It is an error of the connection, or what the scheduler has decided for this very user
      after the request was read. -/
  said : ∀ c conn a, m.conns c = some conn → conn.answer = some a → a.Source conn m.world
  /-- No two clients get the same decision. -/
  apart : ∀ a ∈ m.answers, ∀ a' ∈ m.answers, ∀ n, a.decided = some n → a'.decided = some n →
    a = a'

theorem clients_answered (euid : Nat) (actions : List MachineAction) :
    (Machine.init.run euid actions).Answered := by
  obtain ⟨x, ⟨hclients, hdecisions, _⟩, _⟩ := (clientDiscipline_sound euid).run_init actions
  refine ⟨hclients.once, fun a ha => (hclients.sent a ha).2, ?_, ?_, hdecisions.once⟩
  · intro c conn a hconn hanswer
    have h := hclients.answer c conn a hconn hanswer
    exact ⟨h.number, h.request, h.since⟩
  · exact fun c conn a hconn hanswer => (hclients.answer c conn a hconn hanswer).source

/-- The process has heard that a scheduler has granted its request. -/
structure Machine.Granted (m : Machine) (pr : Process) (request : Request) (a : SentAnswer) :
    Prop where
  heard : a ∈ m.heard pr.pid
  /-- The process had started when the answer was sent. -/
  since : a ∈ m.answersSince pr.since
  grants : a.Grants request
  decided : ∃ conn n, m.conns a.conn = some conn ∧ conn.answer = some a ∧ a.decided = some n ∧
    a.read ≤ n ∧ m.world.Said n ⟨conn.uid, conn.gid, request, a.response⟩

/-- How a command has ended, and what it has heard before. -/
theorem Machine.ended (euid : Nat) (actions : List MachineAction) :
    let m := Machine.init.run euid actions
    ∀ pr ∈ m.procs, pr.exited = false → ∀ r, pr.Returned r → ∃ φ : Hearing,
      pr.role.Ends r φ ∧ (φ.child = true ↔ m.HasChild pr.pid) ∧
        ∀ a ∈ φ.heard, ∀ request, a.Grants request → m.Granted pr request a := by
  intro m pr hpr hlive r hreturned
  obtain ⟨x, ⟨hclients, _, _⟩, hat⟩ := (clientDiscipline_sound euid).run_init actions
  obtain ⟨φ, hsafe, hfits⟩ := hat pr hpr hlive
  rw [show pr.prog = .ret () r from hreturned] at hsafe
  refine ⟨φ, hsafe, hfits.child, ?_⟩
  intro a ha request hgrants
  have hheard := hfits.heard ha
  have hsince := hfits.since hheard
  refine ⟨hheard, hsince, hgrants, ?_⟩
  obtain ⟨conn, hconn, hanswer⟩ := (hclients.sent a (List.mem_of_mem_take hsince)).2
  have hans := hclients.answer _ _ _ hconn hanswer
  have hrequest : conn.request = request := hans.request.symm.trans hgrants.request
  rcases hans.source with ⟨_, e, he⟩ | ⟨n, hn, hread, hsaid⟩
  · exact absurd he (hgrants.granted e)
  · exact ⟨conn, n, hconn, hanswer, hn, hread, hrequest ▸ hsaid⟩

/-- `start` reports success only after a daemon has granted it an `Info` request, and leaves no
    daemon behind when it reports an error. -/
structure Machine.Starts (m : Machine) : Prop where
  started : ∀ pr ∈ m.procs, pr.exited = false → ∀ args, pr.role = .start args →
    pr.Returned (.ok ()) → ∃ a, m.Granted pr .info a
  failed : ∀ pr ∈ m.procs, pr.exited = false → ∀ args, pr.role = .start args →
    ∀ e, pr.Returned (.error e) → ¬ m.HasChild pr.pid

theorem start_announces (euid : Nat) (actions : List MachineAction) :
    (Machine.init.run euid actions).Starts := by
  refine ⟨?_, ?_⟩
  · intro pr hpr hlive args hrole hreturned
    obtain ⟨φ, hends, _, hgranted⟩ := Machine.ended euid actions pr hpr hlive _ hreturned
    rw [hrole] at hends
    obtain ⟨a, ha, hgrants⟩ := hends.1 rfl
    exact ⟨a, hgranted a ha .info hgrants⟩
  · intro pr hpr hlive args hrole e hreturned
    obtain ⟨φ, hends, hchild, _⟩ := Machine.ended euid actions pr hpr hlive _ hreturned
    rw [hrole] at hends
    rw [← hchild, hends.2 e rfl]
    nofun

/-- No call fails, no signal arrives and no time passes; a new process gets the id 8. -/
def HostCall.fair : (c : HostCall) → c.Raw
  | initializePaths | tryLock | installSignals | removeSocket | bind | setPermissions
  | setNonblocking | accept | setReadTimeout | setWriteTimeout | peer | receive | poll | connect _
  | response | openDaemonLog => none
  | discover => .ok .none
  | newScheduler _ _ => .ok false
  | socketExists | interrupted | refreshDue | cleanupDue | deadline => false
  | sendError _ | sendResponse _ => true
  | refresh => (fun _ => none, fun _ => none)
  | sys c => c.fair
  | spawnDaemon _ => .ok (8, 20)
  | tryWait => "exit status: 0"
  | unlock | closeListener | begin _ | killChild | waitChild | print _ | sleep | hang => ()

-- `start` spawns the daemon 8, asks it once it listens, and hears its answer.
example : (Machine.init.run 0 ([.launch 0 0 7 20 (.start ⟨1, []⟩)] ++
    List.replicate 4 (.process 7 HostCall.fair) ++ List.replicate 16 (.process 8 HostCall.fair) ++
    List.replicate 5 (.process 7 HostCall.fair) ++ List.replicate 20 (.process 8 HostCall.fair) ++
    List.replicate 5 (.process 7 HostCall.fair))).answers.map (·.request) = [.info] := by
  decide +kernel

/-- `restart` reports success only after one daemon has granted its `Restart` request and a
    daemon that took the lock later has granted its `Info` request; it leaves no daemon behind when it
    reports an error. -/
structure Machine.Restarts (m : Machine) : Prop where
  restarted : ∀ pr ∈ m.procs, pr.exited = false → ∀ args, pr.role = .restart args →
    pr.Returned (.ok ()) → ∃ a a', m.Granted pr .restart a ∧ m.Granted pr .info a' ∧
      a.epoch < a'.epoch
  failed : ∀ pr ∈ m.procs, pr.exited = false → ∀ args, pr.role = .restart args →
    ∀ e, pr.Returned (.error e) → ¬ m.HasChild pr.pid

theorem restart_replaces (euid : Nat) (actions : List MachineAction) :
    (Machine.init.run euid actions).Restarts := by
  refine ⟨?_, ?_⟩
  · intro pr hpr hlive args hrole hreturned
    obtain ⟨φ, hends, _, hgranted⟩ := Machine.ended euid actions pr hpr hlive _ hreturned
    rw [hrole] at hends
    obtain ⟨a, ha, a', ha', hgrants, hgrants', hepoch⟩ := hends.granted rfl
    exact ⟨a, a', hgranted a ha .restart hgrants, hgranted a' ha' .info hgrants', hepoch⟩
  · intro pr hpr hlive args hrole e hreturned
    obtain ⟨φ, hends, hchild, _⟩ := Machine.ended euid actions pr hpr hlive _ hreturned
    rw [hrole] at hends
    rw [← hchild, hends.childless e rfl]
    nofun

end Xlurm
