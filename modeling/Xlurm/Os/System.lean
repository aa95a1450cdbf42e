/-
  Xlurm.Os.System

  The whole system: at most one daemon, any number of workers, and the files
  they share.  `step` carries out one action; an action that is not possible in
  a state leaves it unchanged, so a run is any list of actions.

  The daemon may crash and a worker may die before any system call.  A new
  daemon starts from `state.json` with any inventory whose keys are unique; one
  that overlooks the file is `Site.blindBoot`.
-/

import Xlurm.Model.Daemon
import Xlurm.Os.World

namespace Xlurm

/-- An inventory as `discover` returns it: no two devices have the same key. -/
structure UniqueInventory extends Inventory where
  nodup : (devices.map Device.key).Nodup

/-- `Scheduler::new`; `state` is the content of `state.json` if `Path::exists` is true of it.
    Where there is none, or `stat` fails, the scheduler starts from an empty store. -/
def Scheduler.new (state : Option Data) (inventory : Inventory) (maxRunning : Nat) :
    Except Error Scheduler :=
  if 0 < maxRunning then
    match state with
    | none => .ok ⟨Store.default, inventory, maxRunning, ∅⟩
    | some data =>
        match data.store? with
        | some store => .ok ⟨store, inventory, maxRunning, ∅⟩
        | none => .error "invalid JSON: state.json"
  else
    .error "max-running must be positive"

theorem Scheduler.new_ok {state : Option Data} {inventory : Inventory} {maxRunning : Nat}
    {s : Scheduler} (h : Scheduler.new state inventory maxRunning = .ok s) :
    0 < maxRunning ∧ s.inventory = inventory ∧ s.maxRunning = maxRunning ∧
      s.excludedDevices = ∅ := by
  unfold Scheduler.new at h
  split at h
  · rename_i hpos
    split at h
    · cases h
      exact ⟨hpos, rfl, rfl, rfl⟩
    · split at h
      · cases h
        exact ⟨hpos, rfl, rfl, rfl⟩
      · cases h
  · cases h

/-! ## The daemon's calls -/

/-- A call that is one system call. -/
def direct (c : Sys) : ProcessExecutor → Prog ProcessExecutor Sys Sys.Reply c.Reply :=
  fun e => .call e c fun r => .ret e r

/-- `executor.start`, recorded. -/
def startHandler (pid : Nat) (job : Job) : Proc ProcessExecutor Unit := do
  Prog.Comp.call (Sys.note (.started job))
  ProcessExecutor.start pid job

/-- `executor.poll`, recorded. -/
def pollHandler (id : Nat) : Proc ProcessExecutor (Option Outcome) := do
  let outcome ← ProcessExecutor.poll id
  Prog.Comp.call (Sys.note (.polled id outcome))
  return outcome

/-- How the daemon with process id `pid` carries out the scheduler's calls. -/
def handler (pid : Nat) :
    (c : Call) → ProcessExecutor → Prog ProcessExecutor Sys Sys.Reply c.Reply
  | .now => direct .now
  | .isDir path => direct (.isDir path)
  | .save store => writeJson pid .state (.store store)
  | .start job => startHandler pid job
  | .poll id => pollHandler id
  | .cancel id => ProcessExecutor.cancel pid id
  | .readDir => direct .readDir
  | .removeFile entry => direct (.unlink entry)
  | .account uid gid => direct (.account uid gid)
  | .openLog id => direct (.openLog id)
  | .readLog id offset limit => direct (.readLog id offset limit)
  | .note event => direct (.note event)

/-! ## States and actions -/

/-- The rest of what the daemon is doing; finished with `Next.loop` it is between
    two operations of its main loop. -/
abbrev DaemonProg := Prog (Scheduler × ProcessExecutor) Sys Sys.Reply (Except Error Next)

structure System where
  world : World
  daemon : Option DaemonProg

inductive Action
  /-- `xlurm daemon` starts. -/
  | boot (pid : Nat) (inventory : UniqueInventory) (maxRunning : Nat) (excluded : List Nat)
  /-- The main loop begins its next operation. -/
  | begin (op : Op)
  /-- The next system call of the daemon. -/
  | daemon (env : (c : Sys) → c.Raw)
  | crash
  /-- The next system call of a worker. -/
  | worker (pid : Nat) (env : (c : Sys) → c.Raw)
  /-- A worker exits or is killed. -/
  | kill (pid : Nat)
  /-- A worker's payload writes to its log. -/
  | output (pid : Nat) (bytes : List UInt8)

namespace System

/-- No files and no processes. -/
def init : System where
  world :=
    { file := fun _ => none, known := [], pid := 0, workers := [], published := [],
      misread := [], hist := [] }
  daemon := none

/-- The daemon is gone: its locks are released and its memory is lost. -/
def stopped (world : World) : System := ⟨world.released .daemon, none⟩

/-- An error or a stop request ends `serve`. -/
def settle (world : World) : DaemonProg → System
  | .ret _ (.error _) => stopped world
  | .ret _ (.ok .stop) => stopped world
  | prog => ⟨world, some prog⟩

/-- The scheduler in memory. -/
def mem (sys : System) : Option Scheduler := sys.daemon.map (·.state.1)

/-- Advance the worker with process id `pid`. -/
def workerStep (w : World) (pid : Nat) (env : (c : Sys) → c.Raw) : World :=
  match w.workers.find? (·.pid == pid) with
  | some ⟨_, job, .call _ c k⟩ =>
      match c.exec (.worker pid) w (env c) with
      | some (r, w') =>
          { w' with workers := w'.workers.map fun wk =>
              if wk.pid = pid then ⟨pid, job, k r⟩ else wk }
      | none => w
  | _ => w

/-- A daemon starts that finds `state` in `state.json`. -/
def boot (sys : System) (pid : Nat) (inventory : UniqueInventory) (maxRunning : Nat)
    (excluded : List Nat) (state : Option Data) : System :=
  match sys.daemon with
  | some _ => sys
  | none =>
      if !sys.world.pidFree pid then sys
      else
        match Scheduler.new state inventory.toInventory maxRunning with
        | .error _ => sys
        | .ok s =>
            settle ({ sys.world with pid }.log .booted)
              ((serveStart excluded s).interp (handler pid) .new)

def step (euid : Nat) (sys : System) : Action → System
  | .boot pid inventory maxRunning excluded =>
      sys.boot pid inventory maxRunning excluded ((sys.world.file .state).map (·.data))
  | .begin op =>
      match sys.daemon with
      | some (.ret (s, e) (.ok .loop)) =>
          settle sys.world ((serveOp euid op s).interp (handler sys.world.pid) e)
      | _ => sys
  | .daemon env =>
      match sys.daemon with
      | some (.call _ c k) =>
          match c.exec .daemon sys.world (env c) with
          | some (r, w) => settle w (k r)
          | none => sys
      | _ => sys
  | .crash =>
      match sys.daemon with
      | some _ => stopped sys.world
      | none => sys
  | .worker pid env => { sys with world := workerStep sys.world pid env }
  | .kill pid => { sys with world := sys.world.killed pid }
  | .output pid bytes =>
      match sys.world.workers.find? (·.pid == pid) with
      | some wk => { sys with world := sys.world.printed wk.job bytes }
      | none => sys

/-- A run: any list of actions, oldest first. -/
def run (euid : Nat) (sys : System) (actions : List Action) : System :=
  actions.foldl (step euid) sys

end System

/-! ## An environment without failures -/

/-- Answers to a worker's questions: the payload exits at once with code 0. -/
def Ask.fair : (question : Ask) → question.Reply
  | inheritedLock | installSignals | spawnPayload _ => .ok ()
  | enableSubreaper | graceOver => true
  | interrupted => false
  | account _ _ => .ok "root"
  | geteuid | getegid | elapsedSecs => 0
  | groups _ => .ok []
  | tryWait => .ok (some (.exited 0))
  | signal _ | sleep | reap => ()

/-- No call fails; a new worker gets the process id 100. -/
def Sys.fair : (c : Sys) → c.Raw
  | now => 5
  | isDir _ => true
  | account _ _ => .ok "root"
  | readDir => .ok []
  | spawn _ => .ok (100, 10)
  | pathExists _ => false
  | ask question => question.fair
  | unlink _ | openLog _ | readLog _ _ _ | create _ | write _ _ | fsync _ | rename _ _ | syncDir
  | flock _ | openAppend _ | tryClone _ | tryWait _ | wait _ | read _ => none
  | close _ | hang | note _ => ()

/-- A machine without devices. -/
def UniqueInventory.none : UniqueInventory where
  devices := []
  status _ := Option.none
  monitoringErrors _ := Option.none
  nodup := List.nodup_nil

/-- A CPU task: `xrun -g 0 true`. -/
def Submission.noop : Submission where
  name := "true"
  command := ["true"]
  script := none
  cwd := "/"
  env := []
  kind := none
  count := 0
  deviceIds := none
  excludeDeviceIds := []
  timeLimit := none

/-- Boot and submit a job, which stays pending because no tick follows. -/
def submitted : List Action :=
  [.boot 1 .none 1 []] ++ List.replicate 5 (.daemon Sys.fair) ++
    [.begin (.request 0 0 (.submit .noop))] ++ List.replicate 11 (.daemon Sys.fair)

/-- Job 1 is started. -/
def startedNoop : List Action :=
  submitted ++ [.begin .tick] ++ List.replicate 25 (.daemon Sys.fair)

/-- No call fails but `stat`. -/
def Sys.blind : (c : Sys) → c.Raw
  | pathExists _ => true
  | c => c.fair

end Xlurm
