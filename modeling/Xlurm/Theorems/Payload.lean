/-
  Xlurm.Theorems.Payload

  What a worker guarantees about the processes of its payload: as whom they run, how
  long they run, and that none of them is left when the job's result is put in place.

  Each property is about every run: the calls of the worker, of the new process and of
  everything that the job's command starts come in any order and fail as they like.
-/

import Xlurm.Os.System
import Xlurm.Refine.Watcher

namespace Xlurm

open Unix (Cred)

variable {pid uid gid fuel id : Nat} {groups : List Nat} {command : Command} {job : Job}

/-! ## As whom the job's command runs -/

/-- The supplementary groups of the payload of a worker that has the groups `groups`. -/
def Command.supplementary (command : Command) (groups : List Nat) : List Nat :=
  if command.privileged then command.groups else groups

/-- What is known of a process that runs the user's code, where `uid` and `groups` are the
    worker's. -/
structure Payload.Runs (m : Payload) (uid : Nat) (groups : List Nat) (p : Unix.Proc Image)
    (job : Job) (command : Command) : Prop where
  /-- The worker has started this command, for the job that it has read.  If the worker is
      root, the command's groups are those that it has looked up for the owner of the job. -/
  started : ∃ l, m.leader = some (l, command)
  read : m.job = some job
  made : command.For job m.found
  privileged : command.privileged = true ↔ uid = 0
  noNewPrivs : p.data.cred.noNewPrivs = true
  /-- It is its owner, and nobody else. -/
  identity : job.owner.uid ≠ 0 →
    p.data.cred = Cred.of job.owner.uid job.owner.gid (command.supplementary groups) true
  /-- It was its owner when it went into the directory of the job. -/
  entered : p.data.cwd = some (job.spec.cwd,
    Cred.of job.owner.uid job.owner.gid (command.supplementary groups) true)

theorem Command.identity_eq (hallowed : command.Allowed (Cred.of uid gid groups false)) :
    command.identity (Cred.of uid gid groups false) =
      Cred.of command.owner.uid command.owner.gid (command.supplementary groups) true := by
  unfold Command.Allowed at hallowed
  unfold Command.identity Command.supplementary
  by_cases hprivileged : command.privileged = true
  · rw [if_pos hprivileged, if_pos hprivileged]
  · rw [if_neg hprivileged] at hallowed ⊢
    rw [if_neg hprivileged, hallowed.2.1, hallowed.2.2]
    rfl

/-- Whatever the job's command does, it and its descendants run as the owner of the job, can
    gain no rights, and have entered the directory of the job with these rights only. -/
theorem payload_confined (hpid : pid ≠ 1) (actions : List PayAction) :
    let m := (Payload.init pid uid gid groups fuel id).run actions
    ∀ p ∈ m.procs, p.data.prog = none → ∃ job command, m.Runs uid groups p job command := by
  intro m p hp hprog
  obtain ⟨hcore, _, hcred⟩ := Payload.init_kept uid gid groups fuel id hpid actions
  obtain ⟨l, command, hleader, hfine⟩ := hcore.started hp
  obtain ⟨_, hallowed, job, hjob, hfor⟩ := hcore.leader l command hleader
  obtain ⟨hprivs, hidentity, hcwd⟩ := (hfine.late (hcore.execed hp hprog)).confined
  -- The identity of the command is that of the owner of its job.
  have howner : command.identity m.cred = Cred.of job.owner.uid job.owner.gid
      (command.supplementary groups) true := by
    rw [hcred] at hallowed ⊢
    rw [Command.identity_eq hallowed, hfor.owner]
  refine ⟨job, command, ⟨l, hleader⟩, hjob, hfor, ⟨fun hprivileged => ?_, fun hroot => ?_⟩,
    hprivs, fun huid => ?_, ?_⟩
  · rw [hcred, Command.Allowed, if_pos hprivileged] at hallowed
    exact hallowed
  · by_contra hunprivileged
    rw [hcred, Command.Allowed, if_neg hunprivileged] at hallowed
    exact hallowed.1 hroot
  · exact (hidentity (hfor.owner ▸ huid)).trans howner
  · rw [hcwd, ← hfor.cwd, ← howner]
    rfl

/-- A job of a user. -/
def Job.noop : Job where
  id := 3
  owner := ⟨1000, 100, "user"⟩
  spec := .noop
  state := .running
  devices := []
  submittedAt := 0
  startedAt := none
  result := none

/-- No call of the worker fails; the new process gets the id 8. -/
def PayCall.fair : (c : PayCall) → c.Raw
  | fork _ => .ok 8
  | tryWait => .ok (.exited 0)
  | waitGroup => false
  | awaitExec | signal _ | wait => ()
  | sys (.ask (.account _ _)) => some (.ok "user")
  | sys (.ask (.groups owner)) => some (.ok [owner.gid])
  | sys (.ask question) => some question.fair
  | sys (.read _) => some (.ok (.whole (.job Job.noop)))
  | sys (.pathExists _) => some false
  | sys .now => some 5
  | sys (.create _) | sys (.write _ _) | sys (.fsync _) | sys (.rename _ _) | sys .syncDir =>
      some (.ok ())
  | sys _ => none

def ChildCall.fair : (c : ChildCall) → c.Raw
  | setpgid | setgroups _ | setresgid _ | setresuid _ | setNoNewPrivs | chdir _ | setPdeathsig _
  | execvp => none
  | getppid | exit _ => ()

/-- The job's command runs, and starts a process that leaves the group. -/
def Payload.noop : List PayAction :=
  List.replicate 11 (.worker PayCall.fair) ++ List.replicate 9 (.child ChildCall.fair) ++
    [.user 8 (.fork 9), .user 9 (.setpgid 9), .user 9 (.setresuid 0 0 0)]

theorem payload_confined_noop :
    let m := (Payload.init 7 0 0 [0] 20 3).run Payload.noop
    ∀ p ∈ m.procs, p.data.prog = none → ∃ job command, m.Runs 0 [0] p job command :=
  payload_confined (by decide) Payload.noop

-- Both processes are the user, who cannot become root.
example : ((Payload.init 7 0 0 [0] 20 3).run Payload.noop).procs.map (fun p =>
      (p.pid, p.group, p.data.cred, p.data.prog.isNone)) =
    [(9, 9, Cred.of 1000 100 [100] true, true), (8, 8, Cred.of 1000 100 [100] true, true)] := by
  decide +kernel

/-! ## How long it runs -/

/-- What the death of the worker means for the payload. -/
structure Payload.Orphaned (m : Payload) : Prop where
  /-- The job's command does not start any more. -/
  starts : ∀ rest, (m.run rest).execed = true → m.execed = true
  /-- The process that runs it ends, unless it has asked for another signal. -/
  ends : ∀ l command, m.leader = some (l, command) → ∀ p ∈ m.procs, p.pid = l →
    p.data.prog = none → p.zombie = true ∨ p.killed = true ∨ p.data.detached = true

/-- The job's command does not outlive its worker, even if the worker is killed, at whatever
    moment this happens. -/
theorem payload_bound (hpid : pid ≠ 1) (actions : List PayAction) :
    let m := (Payload.init pid uid gid groups fuel id).run actions
    m.prog = none → m.Orphaned := by
  intro m hdead
  obtain ⟨hcore, _⟩ := Payload.init_kept uid gid groups fuel id hpid actions
  refine ⟨fun rest => ?_, ?_⟩
  · have hover : m.Over := by
      intro s c k hprog
      rw [hdead] at hprog
      cases hprog
    refine (Payload.Over.run (P := fun m' => m'.prog = none ∧ (m'.execed = true → m.execed = true))
      ?_ hover hcore ⟨hdead, fun he => he⟩ rest).2
    rintro m₁ m₂ hsteady ⟨hdead₁, hbefore⟩
    refine ⟨?_, fun he => ?_⟩
    · rcases hsteady.prog with hsame | hgone
      · exact hsame.trans hdead₁
      · exact hgone
    · rcases hsteady.starts he with he₁ | halive
      · exact hbefore he₁
      · rw [hdead₁] at halive
        cases halive
  · intro l command hleader p hp hl hprog
    have hlate := (hcore.fine l command hleader p hp).late (hcore.execed hp hprog)
    rcases hlate.bound hl with h | h | h | ⟨halive, _⟩
    · exact Or.inl h
    · exact Or.inr (Or.inl h)
    · exact Or.inr (Or.inr h)
    · rw [show (m.setting l command).alive = m.prog.isSome from rfl, hdead] at halive
      cases halive

theorem payload_bound_noop :
    ((Payload.init 7 0 0 [0] 20 3).run (Payload.noop ++ [.workerDies])).Orphaned :=
  payload_bound (by decide) _ (by decide +kernel)

/-! ## What is left of it -/

/-- Nothing of the payload keeps a device: what has stayed in its group has ended or has been
    killed, and if no process has left the group, none exists any more. -/
def Payload.Cleared (m : Payload) : Prop := m.Doomed ∧ (m.left = false → m.procs = [])

/-- The worker is about to make a call that puts the result in place. -/
def Payload.publishes (m : Payload) : Bool :=
  match m.prog with
  | some (.call _ (.sys c) _) => c.publishes
  | _ => false

/-- The worker has done its work; this is not so when it was killed. -/
def Payload.returned (m : Payload) : Bool :=
  match m.prog with
  | some (.ret _ _) => true
  | _ => false

/-- Whatever has become of the payload, nothing of it is left when the worker puts the result
    of the job in place, and nothing from then on when the worker has returned. -/
theorem payload_cleared (hpid : pid ≠ 1) (actions : List PayAction) :
    let m := (Payload.init pid uid gid groups fuel id).run actions
    (m.publishes = true → m.Cleared) ∧
      (m.returned = true → ∀ rest, (m.run rest).Cleared) := by
  intro m
  obtain ⟨hcore, hkeeps, _⟩ := Payload.init_kept uid gid groups fuel id hpid actions
  constructor
  · intro hpublishes
    rw [Payload.publishes] at hpublishes
    split at hpublishes
    · rename_i s c k hprog
      obtain ⟨ψ, ⟨hneeds, _⟩, hψ⟩ := hkeeps _ hprog
      exact hcore.done (hneeds hpublishes) hψ
    · cases hpublishes
  · intro hreturned
    obtain ⟨s, r, hprog⟩ : ∃ s r, m.prog = some (.ret s r) := by
      rw [Payload.returned] at hreturned
      split at hreturned
      · exact ⟨_, _, ‹_›⟩
      · cases hreturned
    obtain ⟨ψ, hdone, hψ⟩ := hkeeps _ hprog
    have hover : m.Over := by
      intro s' c k hcall
      rw [hprog] at hcall
      cases hcall
    refine Payload.Over.run (P := Payload.Cleared) ?_ hover hcore (hcore.done hdone hψ)
    rintro m₁ m₂ hsteady ⟨hdoomed, hempty⟩
    exact ⟨hsteady.doomed hdoomed, hsteady.empty hempty⟩

/-- The job's command ends, and the worker makes `n` more calls; the process that has left the
    group stays. -/
def Payload.ended (n : Nat) : List PayAction :=
  Payload.noop ++ [.worker PayCall.fair, .exit 8 7] ++ List.replicate n (.worker PayCall.fair)

/-- The worker is about to rename the result, and returns two calls later. -/
theorem payload_cleared_noop :
    let m := fun n => (Payload.init 7 0 0 [0] 20 3).run (Payload.ended n)
    ((m 9).publishes = true ∧ (m 9).Cleared) ∧
      ((m 11).returned = true ∧ ∀ rest, ((m 11).run rest).Cleared) := by
  have hpublishes : ((Payload.init 7 0 0 [0] 20 3).run (Payload.ended 9)).publishes = true := by
    decide +kernel
  have hreturned : ((Payload.init 7 0 0 [0] 20 3).run (Payload.ended 11)).returned = true := by
    decide +kernel
  exact ⟨⟨hpublishes, (payload_cleared (by decide) (Payload.ended 9)).1 hpublishes⟩,
    hreturned, (payload_cleared (by decide) (Payload.ended 11)).2 hreturned⟩

-- The process that has left the group is still there.
example : ((Payload.init 7 0 0 [0] 20 3).run (Payload.ended 11)).procs.map (fun p =>
      (p.pid, p.killed)) = [(9, false)] := by
  decide +kernel

end Xlurm
