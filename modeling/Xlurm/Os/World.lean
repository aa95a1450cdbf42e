/-
  Xlurm.Os.World

  The machine below the program: files with their locks, the live worker
  processes, and what each system call does to them.

  Everything the environment decides about a call (whether it fails, what the
  clock shows, which process id a new worker gets) is an argument of type `Raw`,
  so `exec` is a function and a run is determined by its list of decisions.

  A lock belongs to the open file, not to its name: `File.holders` moves with a
  rename and is lost with an unlink.  `published`, `misread` and `hist` are ghost
  state.
-/

import Mathlib.Logic.Function.Basic
import Xlurm.Os.Executor
import Xlurm.Os.Worker

namespace Xlurm

/-- Who may hold a lock. -/
inductive Holder
  | daemon
  | worker (pid : Nat)
  deriving DecidableEq

structure File where
  data : Data
  /-- The processes that hold the file's lock. -/
  holders : List Holder

/-- A live worker process. -/
structure Worker where
  pid : Nat
  /-- The job it was started for. -/
  job : Job
  prog : Prog Unit Sys Sys.Reply (Except Error Unit)

/-- A ghost event with the persisted store and the ids of the live workers at
    that moment. -/
structure Entry where
  event : Event
  disk : Store
  live : List Nat

/-- What a run did, newest first. -/
abbrev Hist := List Entry

structure World where
  file : Path → Option File
  /-- Every path that ever existed. -/
  known : List Path
  /-- The process id of the daemon. -/
  pid : Nat
  workers : List Worker
  /-- Every result that a rename put in place, newest first. -/
  published : List (Nat × Outcome)
  /-- Every existing file that `Path::exists` has reported as missing, newest first. -/
  misread : List Path
  hist : Hist

namespace World

/-- The content of `state.json`; a missing file is the default store. -/
def disk (w : World) : Store :=
  match w.file .state with
  | some f => f.data.store?.getD Store.default
  | none => Store.default

/-- The content of a job's log; there is nothing in a log that does not exist. -/
def logOf (w : World) (id : Nat) : List UInt8 :=
  match w.file (.job id .log) with
  | some ⟨.bytes bytes, _⟩ => bytes
  | _ => []

/-- The jobs of the live workers, as they were started. -/
def live (w : World) : List Job := w.workers.map (·.job)

def setFile (w : World) (path : Path) (f : Option File) : World :=
  { w with file := Function.update w.file path f, known := path :: w.known }

/-- Add a ghost event. -/
def log (w : World) (event : Event) : World :=
  { w with hist := ⟨event, w.disk, w.live.map (·.id)⟩ :: w.hist }

/-- A file that is about to be written: truncated, or new. -/
def created (w : World) (path : Path) : World :=
  match w.file path with
  | some f => w.setFile path (some { f with data := .empty })
  | none => w.setFile path (some ⟨.empty, []⟩)

/-- A file that exists from now on. -/
def touched (w : World) (path : Path) : World :=
  match w.file path with
  | some _ => w
  | none => w.setFile path (some ⟨.empty, []⟩)

def written (w : World) (path : Path) (piece : Piece) : World :=
  match w.file path with
  | some f => w.setFile path (some { f with data := f.data.append piece })
  | none => w

/-- Ghost: a rename onto the result file of a job publishes its content. -/
def publish (w : World) (target : Path) (data : Data) : World :=
  match target, data.outcome? with
  | .job id .result, some outcome => { w with published := (id, outcome) :: w.published }
  | _, _ => w

/-- `rename` of an existing file. -/
def renamed (w : World) (source target : Path) (f : File) : World :=
  ((w.setFile source none).setFile target (some f)).publish target f.data

/-- Try to lock the file at `path` for `who`, creating it if necessary. -/
def flocked (w : World) (who : Holder) (path : Path) : Bool × World :=
  match w.file path with
  | none => (true, w.setFile path (some ⟨.empty, [who]⟩))
  | some f =>
      if f.holders = [] then (true, w.setFile path (some { f with holders := [who] }))
      else (false, w)

/-- Give up the lock of `who` on the file at `path`. -/
def closed (w : World) (who : Holder) (path : Path) : World :=
  match w.file path with
  | none => w
  | some f => w.setFile path (some { f with holders := f.holders.filter (· ≠ who) })

/-- The end of a process closes all its files. -/
def released (w : World) (who : Holder) : World :=
  { w with file := fun path =>
      (w.file path).map fun f => { f with holders := f.holders.filter (· ≠ who) } }

/-- A new worker, which shares the daemon's lock on its job. -/
def spawned (w : World) (pid fuel : Nat) (job : Job) : World :=
  let w := match w.file (.job job.id .lock) with
    | none => w
    | some f =>
        if Holder.daemon ∈ f.holders then
          w.setFile (.job job.id .lock) (some { f with holders := .worker pid :: f.holders })
        else w
  { w with workers := ⟨pid, job, worker pid fuel job.id ()⟩ :: w.workers }.log (.spawned job)

/-- Ghost: a file that is there and was not seen. -/
def overlooked (w : World) (path : Path) : World := { w with misread := path :: w.misread }

/-- The death of a worker. -/
def killed (w : World) (pid : Nat) : World :=
  { w with workers := w.workers.filter (·.pid ≠ pid) }.released (.worker pid)

/-- The worker's payload writes to its log. -/
def printed (w : World) (job : Job) (bytes : List UInt8) : World :=
  match w.file (.job job.id .log) with
  | some ⟨.bytes old, holders⟩ =>
      w.setFile (.job job.id .log) (some ⟨.bytes (old ++ bytes), holders⟩)
  | _ => w

/-- Whether a live worker runs job `id`. -/
def alive (w : World) (id : Nat) : Bool := w.workers.any (·.job.id == id)

def pidInUse (w : World) (pid : Nat) : Bool := w.workers.any (·.pid == pid)

/-- Process ids have 32 bits, and no two processes have the same. -/
def pidFree (w : World) (pid : Nat) : Bool := decide (pid < 2 ^ 32) && !w.pidInUse pid

end World

/-! ## System calls -/

/-- An entry of the directory `jobs/`. -/
def Path.inJobs : Path → Bool
  | .job _ _ | .other _ => true
  | .state | .stateTmp _ => false

/-- A listing of `jobs/`: only files that exist, and all of them unless an entry
    could not be read. -/
def World.lists (w : World) (entries : List (Except Error Path)) : Bool :=
  (entries.all fun entry => match entry with
    | .ok path => path.inJobs && (w.file path).isSome
    | .error _ => true) &&
  ((entries.any fun entry => match entry with
    | .ok _ => false
    | .error _ => true) ||
    w.known.all fun path =>
      !(path.inJobs && (w.file path).isSome) || entries.any fun entry => match entry with
        | .ok listed => listed = path
        | .error _ => false)

namespace Sys

/-- What the environment decides about a call. -/
@[reducible] def Raw : Sys → Type
  | now => Nat
  | isDir _ => Bool
  | account _ _ => Except Error String
  | readDir => Except Error (List (Except Error Path))
  | spawn _ => Except Error (Nat × Nat)
  -- whether `stat` fails
  | pathExists _ => Bool
  | ask question => question.Reply
  | unlink _ | openLog _ | readLog _ _ _ | create _ | write _ _ | fsync _ | rename _ _ | syncDir
  | flock _ | openAppend _ | tryClone _ | tryWait _ | wait _ | read _ => Option Error
  | close _ | hang | note _ => Unit

/-- A call that fails without effect if the environment says so. -/
def orFail {α : Type} (raw : Option Error) (w : World) (a : α) (w' : World) :
    Option (Except Error α × World) :=
  match raw with
  | some e => some (.error e, w)
  | none => some (.ok a, w')

/-- One system call of the process `who`: its reply and the new world, or `none`
    if it cannot happen now. -/
def exec (who : Holder) (w : World) : (c : Sys) → Raw c → Option (Reply c × World)
  | now, t => some (t, w)
  | isDir _, b => some (b, w)
  | account _ _, r => some (r, w)
  | readDir, r =>
      match r with
      | .error e => some (.error e, w)
      | .ok entries => if w.lists entries then some (.ok entries, w) else none
  | unlink path, raw =>
      match raw, w.file path with
      | some e, _ => some (.error e, w)
      | none, none => some (.notFound, w)
      | none, some _ => some (.ok, w.setFile path none)
  | openLog id, raw =>
      match raw, w.file (.job id .log) with
      | some e, _ => some (.error e, w)
      | none, none => some (.notFound, w)
      | none, some _ => some (.ok, w)
  | readLog id offset limit, raw =>
      let content := match w.file (.job id .log) with
        | some ⟨.bytes bytes, _⟩ => bytes
        | _ => []
      orFail raw w ((content.drop offset).take limit) w
  | create path, raw => orFail raw w () (w.created path)
  | write path piece, raw => orFail raw w () (w.written path piece)
  | fsync _, raw => orFail raw w () w
  | rename source target, raw =>
      match raw, w.file source with
      | some e, _ => some (.error e, w)
      | none, none => some (.error "No such file or directory (os error 2)", w)
      | none, some f => some (.ok (), w.renamed source target f)
  | syncDir, raw => orFail raw w () w
  | flock path, raw => orFail raw w (w.flocked who path).1 (w.flocked who path).2
  | close path, _ => some ((), w.closed who path)
  | openAppend path, raw => orFail raw w () (w.touched path)
  | tryClone _, raw => orFail raw w () w
  | spawn job, raw =>
      match raw with
      | .error e => some (.error e, w)
      | .ok (pid, fuel) =>
          if pid = w.pid ∨ !w.pidFree pid then none
          else some (.ok (), w.spawned pid fuel job)
  | tryWait id, raw => orFail raw w (!w.alive id) w
  | wait id, raw => if w.alive id then none else orFail raw w () w
  -- `Path::exists` is false whenever `stat` fails.
  | pathExists path, failed =>
      if failed && (w.file path).isSome then some (false, w.overlooked path)
      else some ((w.file path).isSome, w)
  | read path, raw =>
      match raw, w.file path with
      | some e, _ => some (.error e, w)
      | none, none => some (.error "No such file or directory (os error 2)", w)
      | none, some f => some (.ok f.data, w)
  | ask _, r => some (r, w)
  | hang, _ => none
  | note event, _ => some ((), w.log event)

end Sys

end Xlurm
