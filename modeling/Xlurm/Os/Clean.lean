/-
  Xlurm.Os.Clean

  `xlurm clean` of `cli.rs`, next to the daemon and its workers.

  It excludes the daemon with `daemon.lock`, and asks `state.json` whether a job
  runs.  `Home` adds to the system what `clean` needs besides the files of
  `System`: that lock and `daemon.log`.
-/

import Xlurm.Os.System

namespace Xlurm

open Prog.Comp (call ensure lift throw)
open ProcessExecutor (context)

/-- Why `clean` stops early. -/
inductive CleanError
  | locked
  | running (ids : List String)
  | failed (error : Error)

/-- What is printed about it. -/
def CleanError.text : CleanError → Error
  | locked => "xlurm is running; stop the scheduler before cleaning logs"
  | running ids => "cannot clean logs while jobs are running: " ++ ", ".intercalate ids
  | failed error => error

inductive CleanCall
  /-- `Paths::initialize`. -/
  | initPaths
  /-- `try_lock` on `daemon.lock`; held until `clean` ends. -/
  | tryLock
  /-- A call on `state.json` or in `jobs/`. -/
  | sys (c : Sys)
  /-- `fs::remove_file` on `daemon.log`. -/
  | removeDaemonLog

@[reducible] def CleanCall.Reply : CleanCall → Type
  | initPaths => Except Error Unit
  | tryLock => Except Error Bool
  | sys c => c.Reply
  | removeDaemonLog => FileResult

abbrev Clean (α : Type) := Prog.Comp Unit CleanCall CleanCall.Reply CleanError α

/-! ## The program -/

/-- `?` on the result of a call. -/
def orFailed {α : Type} : Except Error α → Clean α
  | .ok a => pure a
  | .error e => throw (.failed e)

/-- `{id}.log`, as `clean` recognises it. -/
def isJobLog (name : List Char) : Bool :=
  match Text.splitOnce '.' name with
  | none => false
  | some (id, extension) => (parseU64 id).isSome && extension = "log".toList

/-- The store of `state.json`, or the default one if there is no such file. -/
def loadStore : Clean Store := do
  if ← call (CleanCall.sys (.pathExists .state)) then do
    let data ← orFailed (context "state.json" (← call (CleanCall.sys (.read .state))))
    match data.store? with
    | some store => return store
    | none => throw (.failed "invalid JSON: state.json")
  else
    return Store.default

/-- The loop over `jobs/`, with the number of logs removed so far. -/
def removeLogs : List (Except Error Path) → Nat → Clean Nat
  | [], jobLogs => pure jobLogs
  | entry :: rest, jobLogs => do
      let entry ← orFailed entry
      if isJobLog entry.fileName.toList then do
        match ← call (CleanCall.sys (.unlink entry)) with
        | .ok => removeLogs rest (jobLogs + 1)
        | .notFound => removeLogs rest jobLogs
        | .error e => throw (.failed ("cannot remove " ++ entry.fileName ++ ": " ++ e))
      else
        removeLogs rest jobLogs

def removeDaemonLog : Clean Bool := do
  match ← call CleanCall.removeDaemonLog with
  | .ok => return true
  | .notFound => return false
  | .error e => throw (.failed ("cannot remove daemon.log: " ++ e))

/-- `clean`; the value is the line that it prints. -/
def clean : Clean String := do
  orFailed (← call .initPaths)
  let lock ← orFailed (← call .tryLock)
  ensure (lock = true) .locked
  let store ← loadStore
  ensure (store.runningIds = []) (.running store.runningIds)
  let entries ← orFailed (context "cannot read jobs" (← call (CleanCall.sys .readDir)))
  let jobLogs ← removeLogs entries 0
  let daemonLog ← removeDaemonLog
  return s!"Removed {jobLogs} job log(s)" ++
    if daemonLog then " and daemon.log." else "; daemon.log was already absent."

/-! ## The machine -/

/-- What `clean` may delete. -/
inductive Removed
  | entry (path : Path)
  | daemonLog
  deriving DecidableEq

/-- Ghost: one deletion, with the ids of the workers that were alive then. -/
structure Removal where
  file : Removed
  live : List Nat

structure Home where
  sys : System
  /-- `clean` holds `daemon.lock`. -/
  locked : Bool
  /-- `daemon.log` exists. -/
  daemonLog : Bool
  /-- Ghost: what the last `clean` has deleted so far, newest first. -/
  removed : List Removal

namespace Home

def record (h : Home) (file : Removed) : Home :=
  { h with removed := ⟨file, h.sys.world.live.map (·.id)⟩ :: h.removed }

/-- The home after a system call of `clean` that changed the world to `w`. -/
def after (h : Home) (w : World) : (c : Sys) → c.Reply → Home
  | .unlink path, .ok => { h.record (.entry path) with sys := { h.sys with world := w } }
  | _, _ => { h with sys := { h.sys with world := w } }

end Home

namespace CleanCall

/-- What the environment decides about a call; for the lock, whether a restarting client
    holds it at this moment. -/
@[reducible] def Raw : CleanCall → Type
  | initPaths => Except Error Unit
  | tryLock => Except Error Bool
  | sys c => c.Raw
  | removeDaemonLog => Option Error

/-- One call of `clean`.  It takes no lock below `jobs/`, so the holder is not used. -/
def exec (h : Home) : (c : CleanCall) → Raw c → Option (Reply c × Home)
  | initPaths, r => some (r, h)
  | tryLock, r =>
      match r with
      | .error e => some (.error e, h)
      | .ok taken =>
          if taken || h.sys.daemon.isSome then some (.ok false, h)
          else some (.ok true, { h with locked := true })
  | sys c, raw => (c.exec .daemon h.sys.world raw).map fun (r, w) => (r, h.after w c r)
  | removeDaemonLog, raw =>
      match raw with
      | some e => some (.error e, h)
      | none =>
          if h.daemonLog then some (.ok, { h.record .daemonLog with daemonLog := false })
          else some (.notFound, h)

end CleanCall

abbrev CleanProg := Prog Unit CleanCall CleanCall.Reply (Except CleanError String)

/-- A home with a `clean` that runs in it, or the last one that ended.  There is one at a
    time: a second one stops at the lock. -/
structure Site where
  home : Home
  clean : Option CleanProg

inductive SiteAction
  | sys (action : Action)
  /-- A daemon starts, and fails to `stat` the `state.json` that is there. -/
  | blindBoot (pid : Nat) (inventory : UniqueInventory) (maxRunning : Nat) (excluded : List Nat)
  /-- `xlurm start` opens `daemon.log` before it starts the daemon. -/
  | openDaemonLog
  /-- `xlurm clean` starts. -/
  | clean
  /-- The next call of `clean`. -/
  | next (env : (c : CleanCall) → c.Raw)
  /-- `clean` is killed. -/
  | kill

def Action.boots : Action → Bool
  | boot .. => true
  | _ => false

namespace Site

def init : Site where
  home := { sys := System.init, locked := false, daemonLog := false, removed := [] }
  clean := none

/-- A `clean` that has ended holds no lock. -/
def settle (home : Home) : CleanProg → Site
  | .ret s r => ⟨{ home with locked := false }, some (.ret s r)⟩
  | prog => ⟨home, some prog⟩

/-- A daemon that does not see `state.json` begins with the default store. -/
def blindBoot (sys : System) (pid : Nat) (inventory : UniqueInventory) (maxRunning : Nat)
    (excluded : List Nat) : System :=
  System.boot { sys with world := sys.world.overlooked .state } pid inventory maxRunning excluded
    none

/-- The daemon does not start while `clean` holds its lock. -/
def step (euid : Nat) (site : Site) : SiteAction → Site
  | .sys action =>
      if site.home.locked && action.boots then site
      else { site with home := { site.home with sys := site.home.sys.step euid action } }
  | .blindBoot pid inventory maxRunning excluded =>
      if site.home.locked || site.home.sys.daemon.isSome ||
          (site.home.sys.world.file .state).isNone then site
      else
        { site with home := { site.home with
            sys := blindBoot site.home.sys pid inventory maxRunning excluded } }
  | .openDaemonLog => { site with home := { site.home with daemonLog := true } }
  | .clean =>
      match site.clean with
      | some (.call ..) => site
      | _ => settle { site.home with removed := [] } (Xlurm.clean ())
  | .next env =>
      match site.clean with
      | some (.call _ c k) =>
          match c.exec site.home (env c) with
          | some (r, home) => settle home (k r)
          | none => site
      | _ => site
  | .kill => ⟨{ site.home with locked := false }, none⟩

/-- A run: any list of actions, oldest first. -/
def run (euid : Nat) (site : Site) (actions : List SiteAction) : Site :=
  actions.foldl (step euid) site

end Site

end Xlurm
