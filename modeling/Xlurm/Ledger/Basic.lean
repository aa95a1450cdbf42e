/-
  Xlurm.Ledger.Basic

  The job ledger: what the daemon is for, without its programs and files.

  A `Ledger` is the store in memory (if a daemon runs), the persisted store, the
  jobs of the live workers, the published results, and the history.  `Step`
  lists everything that may happen to it, each with the condition that the code
  establishes first: a job is marked only on devices that no running job holds,
  handed to the executor only after the mark is on disk, recorded only after a
  poll, and so on.

  The claims about whole runs are invariants of `Step`; `Xlurm.Refine` shows
  that the program takes no other steps.
-/

import Mathlib.Logic.Relation
import Xlurm.Os.World

namespace Xlurm

/-! ## Reading a history -/

namespace Event

/-- The job that this event hands to the executor, or asks it about. -/
def settles : Event → Option Nat
  | started job => some job.id
  | polled id _ => some id
  | _ => none

def starts : Event → Option Nat
  | started job => some job.id
  | _ => none

def spawns : Event → Option Nat
  | spawned job => some job.id
  | _ => none

/-- The job that a poll has found finished. -/
def finishes : Event → Option Nat
  | polled id (some _) => some id
  | _ => none

/-- The id that a successful submission returns. -/
def accepts : Event → Option Nat
  | answered _ _ (.submit _) (.job job) _ _ => some job.id
  | _ => none

end Event

namespace Hist

/-- The ids that `f` reads off the events. -/
def ids (f : Event → Option Nat) (hist : Hist) : List Nat := hist.filterMap fun e => f e.event

abbrev settled (hist : Hist) : List Nat := hist.ids Event.settles

abbrev started (hist : Hist) : List Nat := hist.ids Event.starts

abbrev spawned (hist : Hist) : List Nat := hist.ids Event.spawns

abbrev finished (hist : Hist) : List Nat := hist.ids Event.finishes

abbrev accepted (hist : Hist) : List Nat := hist.ids Event.accepts

/-- The store in memory and the live workers when the current operation began;
    `none` if no operation has begun since a daemon loaded `state.json`. -/
def opening : Hist → Option (Store × List Nat)
  | [] => none
  | e :: rest =>
      match e.event with
      | .booted => none
      | .began _ mem => some (mem, e.live)
      | _ => opening rest

/-- The job was pending when the current operation began. -/
def PendingAtOpening (hist : Hist) (id : Nat) : Prop :=
  ∃ mem live, hist.opening = some (mem, live) ∧
    ∃ job ∈ mem.jobs, job.id = id ∧ job.state = .pending

/-- The job had a live worker when the current operation began. -/
def LiveAtOpening (hist : Hist) (id : Nat) : Prop :=
  ∃ mem live, hist.opening = some (mem, live) ∧ id ∈ live

/-- Whether a `tick` is under way, or still to come after a restart. -/
def tickOpen : Hist → Bool
  | [] => false
  | e :: rest =>
      match e.event with
      | .booted => true
      | .began .tick _ => true
      | .ticked => false
      | _ => tickOpen rest

/-- The request that is being handled, with its peer: nothing is added to the history between
    the beginning of a request and its answer. -/
def serving : Hist → Option (Nat × Nat × Request)
  | ⟨.began (.request uid gid request) _, _, _⟩ :: _ => some (uid, gid, request)
  | _ => none

/-- A `Cancel` of this job is being handled, for root or for its owner. -/
def MayCancel (hist : Hist) (job : Job) : Prop :=
  ∃ uid gid, hist.serving = some (uid, gid, .cancel job.id) ∧ (uid = 0 ∨ uid = job.owner.uid)

/-- Whether this daemon has accepted a `Stop` or a `Restart`. -/
def leaving : Hist → Bool
  | [] => false
  | e :: rest =>
      match e.event with
      | .booted => false
      | .answered _ _ .stop .ok _ _ | .answered _ _ .restart .ok _ _ => true
      | _ => leaving rest

end Hist

/-- The events that handlers of the executor add, in the course of an operation. -/
def Event.ofExecutor : Event → Bool
  | started _ | spawned _ | polled _ _ => true
  | _ => false

namespace Hist

variable {e : Entry} {hist : Hist}

theorem PendingAtOpening.congr {hist hist' : Hist} {id : Nat} (h : hist.PendingAtOpening id)
    (heq : hist'.opening = hist.opening) : hist'.PendingAtOpening id := by
  unfold PendingAtOpening
  rw [heq]
  exact h

theorem LiveAtOpening.congr {hist hist' : Hist} {id : Nat} (h : hist.LiveAtOpening id)
    (heq : hist'.opening = hist.opening) : hist'.LiveAtOpening id := by
  unfold LiveAtOpening
  rw [heq]
  exact h

theorem opening_executor (h : e.event.ofExecutor = true) :
    Hist.opening (e :: hist) = hist.opening := by
  cases hev : e.event <;> simp [opening, hev, Event.ofExecutor] at h ⊢

theorem tickOpen_executor (h : e.event.ofExecutor = true) :
    Hist.tickOpen (e :: hist) = hist.tickOpen := by
  cases hev : e.event <;> simp [tickOpen, hev, Event.ofExecutor] at h ⊢

theorem leaving_executor (h : e.event.ofExecutor = true) :
    Hist.leaving (e :: hist) = hist.leaving := by
  cases hev : e.event <;> simp [leaving, hev, Event.ofExecutor] at h ⊢

theorem mem_ids_cons {f : Event → Option Nat} {id : Nat} :
    id ∈ Hist.ids f (e :: hist) ↔ f e.event = some id ∨ id ∈ hist.ids f := by
  cases h : f e.event <;> simp [ids, h, eq_comm]

theorem ids_cons (f : Event → Option Nat) :
    ids f (e :: hist) = (f e.event).toList ++ ids f hist := by
  cases h : f e.event <;> simp [ids, h]

theorem ids_append (f : Event → Option Nat) (newer older : Hist) :
    Hist.ids f (newer ++ older) = newer.ids f ++ older.ids f := List.filterMap_append

end Hist

/-! ## The state -/

/-- What the daemon shares with the rest of the world. -/
structure View where
  disk : Store
  live : List Job
  published : List (Nat × Outcome)
  /-- The existing files that were reported as missing. -/
  misread : List Path
  hist : Hist

/-- Add a ghost event. -/
def View.log (v : View) (event : Event) : View :=
  { v with hist := ⟨event, v.disk, v.live.map (·.id)⟩ :: v.hist }

namespace View

variable (v : View) (event : Event)

@[simp] theorem log_disk : (v.log event).disk = v.disk := rfl

@[simp] theorem log_live : (v.log event).live = v.live := rfl

@[simp] theorem log_published : (v.log event).published = v.published := rfl

@[simp] theorem log_misread : (v.log event).misread = v.misread := rfl

theorem mem_ids_log {f : Event → Option Nat} {id : Nat} :
    id ∈ (v.log event).hist.ids f ↔ f event = some id ∨ id ∈ v.hist.ids f :=
  Hist.mem_ids_cons

end View

structure Ledger where
  /-- The store in memory, if a daemon runs. -/
  mem : Option Store
  view : View

/-- The empty ledger. -/
def Ledger.init : Ledger := ⟨none, ⟨Store.default, [], [], [], []⟩⟩

/-- No key occurs on both sides. -/
def Apart (devices devices' : List Device) : Prop :=
  ∀ d ∈ devices, ∀ d' ∈ devices', d.key ≠ d'.key

theorem Apart.symm {devices devices' : List Device} (h : Apart devices devices') :
    Apart devices' devices :=
  fun d hd d' hd' heq => h d' hd' d hd heq.symm

/-- What `poll` reports when it finds the lock free and no result. -/
def disappeared (now : Nat) : Outcome :=
  failure "executor worker disappeared without an exit result" now

/-- `outcome` is the published result of job `id`, or the fallback if there is none. -/
def View.Reports (v : View) (id : Nat) (outcome : Outcome) : Prop :=
  ((id, outcome) ∈ v.published ∧ ∀ o, (id, o) ∈ v.published → o = outcome) ∨
    (((∀ o, (id, o) ∉ v.published) ∨ .job id .result ∈ v.misread) ∧
      ∃ now, outcome = disappeared now)

namespace Ledger

/-- The job is persisted or in memory. -/
def Stored (L : Ledger) (job : Job) : Prop :=
  job ∈ L.view.disk.jobs ∨ ∃ m, L.mem = some m ∧ job ∈ m.jobs

/-- No store has job `id` pending, and `id` is not drawn again. -/
structure Past (L : Ledger) (id : Nat) : Prop where
  pending : ∀ job, L.Stored job → job.id = id → job.state ≠ .pending
  drawn : id ≤ L.view.disk.nextId

end Ledger

/-! ## Steps -/

/-- How one job in memory may change. -/
inductive Change (v : View) (m : Store) (job : Job) : Job → Prop
  | cancel (now : Nat) (pending : job.state = .pending) (allowed : v.hist.MayCancel job) :
      Change v m job { job with state := .cancelled, result := some (cancelledOutcome now) }
  | record (outcome : Outcome) (running : job.state = .running)
      (polled : ∃ e ∈ v.hist, e.event = .polled job.id (some outcome))
      (ticking : v.hist.tickOpen = true) :
      Change v m job { job with state := outcome.state, result := some outcome }
  | mark (devices : List Device) (now : Nat) (pending : job.state = .pending)
      (opening : v.hist.PendingAtOpening job.id)
      (free : ∀ other ∈ m.jobs, other.state = .running → Apart devices other.devices)
      (synced : ∀ other ∈ v.disk.jobs, other.state = .running → other ∈ m.jobs)
      (ticking : v.hist.tickOpen = true) :
      Change v m job { job with devices, state := .running, startedAt := some now }
  | fail (outcome : Outcome) (running : job.state = .running)
      (opening : v.hist.PendingAtOpening job.id) (unspawned : job.id ∉ v.hist.spawned)
      (ticking : v.hist.tickOpen = true) :
      Change v m job { job with state := .failed, result := some outcome }

/-- What an answer promises; `before` and `disk` are the stores when the request
    arrived. -/
structure Answer (v : View) (m : Store) (request : Request) (response : Response)
    (before disk : Store) : Prop where
  accepted : ∀ spec job, request = .submit spec → response = .job job →
    job ∈ m.jobs ∧ job ∈ v.disk.jobs ∧ ∀ id ∈ v.hist.accepted, id < job.id
  rejected : ∀ spec e, request = .submit spec → response = .error e → m.jobs = before.jobs
  cancelled : ∀ id, request = .cancel id → response = .ok →
    Ledger.Past ⟨some m, v⟩ id ∨
      ((∃ job ∈ before.jobs, job.id = id ∧ job.state.terminal = true ∧ v.hist.MayCancel job) ∧
        ∃ job ∈ disk.jobs, job.id = id ∧ job.state = .pending)
  restarted : request = .restart → response = .ok → ∀ job ∈ m.jobs, job.state ≠ .running

/-- When the daemon, with `m` in memory, may add an event. -/
inductive Legit (v : View) (m : Store) : Event → Prop
  | began (op : Op) (closed : op ≠ .tick → v.hist.tickOpen = false)
      (staying : v.hist.leaving = false) : Legit v m (.began op m)
  | answered (uid gid : Nat) (request : Request) (response : Response) (before disk : Store)
      (live : List Nat) (rest : Hist)
      (head : v.hist = ⟨.began (.request uid gid request) before, disk, live⟩ :: rest)
      (answer : Answer v m request response before disk)
      (settled : ∀ job ∈ m.jobs, job.state = .running → job.id ∈ v.hist.settled) :
      Legit v m (.answered uid gid request response before m)
  | ticked (ticking : v.hist.tickOpen = true)
      (running : ∀ job ∈ v.disk.jobs, job.state = .running →
        v.hist.PendingAtOpening job.id ∨ v.hist.LiveAtOpening job.id) :
      Legit v m .ticked
  | cleaning (timestamp : Nat) (closed : v.hist.tickOpen = false)
      (running : ∀ job ∈ v.disk.jobs, job.state = .running → job.id ∉ m.expired timestamp) :
      Legit v m (.cleaning timestamp m)
  | started (job : Job) (running : job.state = .running) (mem : job ∈ m.jobs)
      (disk : job ∈ v.disk.jobs) (opening : v.hist.PendingAtOpening job.id)
      (unsettled : job.id ∉ v.hist.settled) (ticking : v.hist.tickOpen = true) :
      Legit v m (.started job)
  | polled (id : Nat) (outcome : Option Outcome)
      (running : ∃ job ∈ m.jobs, job.id = id ∧ job.state = .running ∧ job ∈ v.disk.jobs)
      (waiting : outcome = none → v.hist.LiveAtOpening id)
      (finished : ∀ o, outcome = some o →
        (∀ job ∈ v.live, job.id ≠ id) ∧ v.Reports id o ∧ o.Produced) :
      Legit v m (.polled id outcome)

inductive Step : Ledger → Ledger → Prop
  /-- Some workers die. -/
  | die (mem : Option Store) (v : View) (live : List Job) (sub : live.Sublist v.live) :
      Step ⟨mem, v⟩ ⟨mem, { v with live }⟩
  /-- A worker renames its result into place. -/
  | publish (mem : Option Store) (v : View) (id : Nat) (outcome : Outcome)
      (live : ∃ job ∈ v.live, job.id = id) (first : ∀ o, (id, o) ∉ v.published)
      (produced : outcome.Produced) :
      Step ⟨mem, v⟩ ⟨mem, { v with published := (id, outcome) :: v.published }⟩
  /-- A file that is there is reported as missing. -/
  | misread (mem : Option Store) (v : View) (path : Path) :
      Step ⟨mem, v⟩ ⟨mem, { v with misread := path :: v.misread }⟩
  | log (m : Store) (v : View) (event : Event) (legit : Legit v m event) :
      Step ⟨some m, v⟩ ⟨some m, v.log event⟩
  | spawn (m : Store) (v : View) (job : Job) (running : job.state = .running)
      (mem : job ∈ m.jobs) (disk : job ∈ v.disk.jobs) (started : job.id ∈ v.hist.started)
      (unspawned : job.id ∉ v.hist.spawned) (unfinished : job.id ∉ v.hist.finished)
      (opening : v.hist.PendingAtOpening job.id) (ticking : v.hist.tickOpen = true) :
      Step ⟨some m, v⟩ ⟨some m, { v with live := job :: v.live }.log (.spawned job)⟩
  | save (m : Store) (v : View) : Step ⟨some m, v⟩ ⟨some m, { v with disk := m }⟩
  /-- `cleanup` writes the store without the expired jobs. -/
  | saveRetained (m : Store) (v : View) (timestamp : Nat) (disk : Store) (live : List Nat)
      (rest : Hist) (head : v.hist = ⟨.cleaning timestamp m, disk, live⟩ :: rest) :
      Step ⟨some m, v⟩ ⟨some m, { v with disk := m.retain (m.expired timestamp) }⟩
  /-- `cleanup` forgets the expired jobs. -/
  | retain (m : Store) (v : View) (timestamp : Nat) (disk : Store) (live : List Nat)
      (rest : Hist) (head : v.hist = ⟨.cleaning timestamp m, disk, live⟩ :: rest)
      (saved : v.disk = m.retain (m.expired timestamp)) :
      Step ⟨some m, v⟩ ⟨some (m.retain (m.expired timestamp)), v⟩
  | push (m : Store) (v : View) (job : Job) (uid gid : Nat) (spec : Submission) (disk : Store)
      (live : List Nat) (rest : Hist)
      (head : v.hist = ⟨.began (.request uid gid (.submit spec)) m, disk, live⟩ :: rest)
      (next : job.id = m.nextId + 1) (pending : job.state = .pending)
      (owner : job.owner.uid = uid ∧ job.owner.gid = gid) (bounded : job.id < 2 ^ 64)
      (fresh : job.result = none) :
      Step ⟨some m, v⟩ ⟨some ⟨job.id, m.jobs ++ [job]⟩, v⟩
  /-- A submission that could not be saved is taken back. -/
  | pop (nextId : Nat) (jobs : List Job) (v : View) (job : Job) (pending : job.state = .pending)
      (unanswered : job.id ∉ v.hist.accepted)
      (began : ∃ uid gid spec before disk live rest,
        v.hist = ⟨.began (.request uid gid (.submit spec)) before, disk, live⟩ :: rest ∧
          before.jobs = jobs) :
      Step ⟨some ⟨nextId, jobs ++ [job]⟩, v⟩ ⟨some ⟨nextId, jobs⟩, v⟩
  | set (m : Store) (v : View) (i : Nat) (job job' : Job) (at_i : m.jobs[i]? = some job)
      (change : Change v m job job') :
      Step ⟨some m, v⟩ ⟨some (m.setJob i job'), v⟩
  | crash (m : Store) (v : View) : Step ⟨some m, v⟩ ⟨none, v⟩
  | boot (v : View) : Step ⟨none, v⟩ ⟨some v.disk, v.log .booted⟩

end Xlurm
