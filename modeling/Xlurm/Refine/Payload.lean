/-
  Xlurm.Refine.Payload

  What a worker and the new process of its payload have ensured at each of their
  calls.

  A `Birth` is how far the new process has got on its way to the job's command, a
  `Duty` how far the worker has got with its payload.
-/

import Xlurm.Os.Payload
import Xlurm.Prog.Safe

namespace Xlurm

open Prog.Comp
open Unix (Cred)

/-! ## The new process -/

/-- The credentials with which the job's command runs; `cred` are the worker's. -/
def Command.identity (command : Command) (cred : Cred) : Cred :=
  if command.privileged then
    Cred.of command.owner.uid command.owner.gid command.groups true
  else cred.setNoNewPrivs

/-- A worker with these credentials may run the command: as root, or as the owner itself. -/
def Command.Allowed (command : Command) (cred : Cred) : Prop :=
  if command.privileged then cred.euid = 0
  else cred.euid ≠ 0 ∧ command.owner.uid = cred.euid ∧ command.owner.gid = cred.egid

/-- The command that `execute` makes for the job, where `found` is the last look-up of
    groups. -/
structure Command.For (command : Command) (job : Job) (found : Option (Owner × List Nat)) :
    Prop where
  owner : command.owner = job.owner
  argv : command.argv = job.spec.argv
  env : command.env = payloadEnv job job.owner
  cwd : command.cwd = job.spec.cwd
  groups : command.privileged = true → found = some (job.owner, command.groups)

structure Birth where
  cred : Cred
  pdeath : Option Nat
  /-- It has its own group. -/
  grouped : Bool
  cwd : Option (String × Cred)
  /-- It has seen the worker as its parent after it had asked for the signal. -/
  safe : Bool

namespace Birth

def first (cred : Cred) : Birth := ⟨cred, none, false, none, false⟩

def setCred (φ : Birth) (cred : Cred) : Birth :=
  { φ with cred, pdeath := if φ.cred.sameEffective cred then φ.pdeath else none, safe := false }

/-- The job's command may run now; `own` are the worker's credentials. -/
structure Ready (φ : Birth) (command : Command) (own : Cred) : Prop where
  cred : φ.cred = command.identity own
  pdeath : φ.pdeath = some sigkill
  grouped : φ.grouped = true
  cwd : φ.cwd = some (command.cwd, command.identity own)
  safe : φ.safe = true

/-- A call that changes the credentials. -/
def Becomes (φ : Birth) (cred : Option Cred) (r : Except Error Unit) (φ' : Birth) : Prop :=
  match r with
  | .ok () => ∃ c, cred = some c ∧ φ' = φ.setCred c
  | .error _ => φ' = φ

end Birth

namespace ChildCall

def Needs (command : Command) (own : Cred) : ChildCall → Birth → Prop
  | getppid, φ => φ.pdeath = some sigkill
  | execvp, φ => φ.Ready command own
  | _, _ => True

/-- Where a call leads; neither `exit` nor a successful `execvp` returns. -/
def Leads (parent : Nat) : (c : ChildCall) → Birth → c.Reply → Birth → Prop
  | setpgid, φ, r, φ' => φ' = if r = .ok () then { φ with grouped := true } else φ
  | setgroups groups, φ, r, φ' => φ.Becomes (φ.cred.setgroups groups) r φ'
  | setresgid gid, φ, r, φ' => φ.Becomes (φ.cred.setresgid gid gid gid) r φ'
  | setresuid uid, φ, r, φ' => φ.Becomes (φ.cred.setresuid uid uid uid) r φ'
  | setNoNewPrivs, φ, r, φ' =>
      φ' = if r = .ok () then { φ with cred := φ.cred.setNoNewPrivs } else φ
  | chdir path, φ, r, φ' => φ' = if r = .ok () then { φ with cwd := some (path, φ.cred) } else φ
  | setPdeathsig signal, φ, r, φ' =>
      φ' = if r = .ok () then { φ with pdeath := some signal, safe := false } else φ
  | getppid, φ, r, φ' => φ' = if r = parent then { φ with safe := true } else φ
  | exit _, _, _, _ => False
  | execvp, φ, r, φ' => r ≠ .ok () ∧ φ' = φ

end ChildCall

/-- The discipline of a new process. -/
def birth (command : Command) (own : Cred) (parent : Nat) :
    Prog.Spec Unit ChildCall ChildCall.Reply Birth where
  pre c _ φ := c.Needs command own φ
  post c _ φ r φ' := c.Leads parent φ r φ'

variable {command : Command} {own : Cred} {parent : Nat}

/-- From the identity of the owner to the check of the parent. -/
theorem preExec_end_wp {φ : Birth} {Q : Unit → Except Error Unit → Birth → Prop}
    (hcred : φ.cred.setNoNewPrivs = command.identity own)
    (hgrouped : φ.grouped = true) (herr : ∀ e φ', Q () (.error e) φ')
    (hok : ∀ φ' : Birth, φ'.Ready command own → Q () (.ok ()) φ') :
    wp (birth command own parent) (do
      lift (← call ChildCall.setNoNewPrivs)
      lift (← call (ChildCall.chdir command.cwd))
      lift (← call (ChildCall.setPdeathsig sigkill))
      if (← call ChildCall.getppid) ≠ parent then
        call (ChildCall.exit 125)) Q () φ := by
  simp only [wp_bind, wp_call]
  refine ⟨trivial, ?_⟩
  rintro (e | _) φ₁ hφ₁
  · exact herr e φ₁
  obtain rfl : φ₁ = { φ with cred := φ.cred.setNoNewPrivs } := hφ₁
  refine ⟨trivial, ?_⟩
  rintro (e | _) φ₂ hφ₂
  · exact herr e φ₂
  obtain rfl : φ₂ = { φ with
    cred := φ.cred.setNoNewPrivs
    cwd := some (command.cwd, φ.cred.setNoNewPrivs) } := hφ₂
  refine ⟨trivial, ?_⟩
  rintro (e | _) φ₃ hφ₃
  · exact herr e φ₃
  obtain rfl : φ₃ = { φ with
    cred := φ.cred.setNoNewPrivs
    pdeath := some sigkill
    cwd := some (command.cwd, φ.cred.setNoNewPrivs)
    safe := false } := hφ₃
  refine ⟨rfl, ?_⟩
  intro ppid φ₄ hφ₄
  show wp _ (if ppid ≠ parent then call (ChildCall.exit 125) else pure () : Child Unit) Q () φ₄
  by_cases hparent : ppid = parent
  · rw [if_neg (not_not.mpr hparent)]
    apply hok
    rw [show φ₄ = _ from hφ₄, if_pos hparent, hcred]
    exact ⟨rfl, rfl, hgrouped, rfl, rfl⟩
  -- The worker is gone, and the process exits.
  · rw [if_pos hparent]
    exact ⟨trivial, fun _ _ never => never.elim⟩

theorem preExec_wp {φ : Birth} {Q : Unit → Except Error Unit → Birth → Prop}
    (hallowed : command.Allowed own) (hcred : φ.cred = own) (hgrouped : φ.grouped = true)
    (herr : ∀ e φ', Q () (.error e) φ')
    (hok : ∀ φ' : Birth, φ'.Ready command own → Q () (.ok ()) φ') :
    wp (birth command own parent) (preExec command parent) Q () φ := by
  unfold preExec
  by_cases hprivileged : command.privileged = true
  · rw [Command.Allowed, if_pos hprivileged] at hallowed
    simp only [hprivileged, if_true, wp_bind, wp_call]
    refine ⟨trivial, ?_⟩
    rintro (e | _) φ₁ hφ₁
    · exact herr e φ₁
    obtain ⟨c₁, hc₁, rfl⟩ := hφ₁
    refine ⟨trivial, ?_⟩
    rintro (e | _) φ₂ hφ₂
    · exact herr e φ₂
    obtain ⟨c₂, hc₂, rfl⟩ := hφ₂
    refine ⟨trivial, ?_⟩
    rintro (e | _) φ₃ hφ₃
    · exact herr e φ₃
    obtain ⟨c₃, hc₃, rfl⟩ := hφ₃
    refine preExec_end_wp ?_ hgrouped herr hok
    rw [Command.identity, if_pos hprivileged]
    rw [hcred] at hc₁
    exact Cred.dropped (by simpa [Cred.privileged] using hallowed) hc₁ hc₂ hc₃
  · have hidentity : command.identity own = own.setNoNewPrivs := by
      rw [Command.identity, if_neg hprivileged]
    simp only [hprivileged, Bool.false_eq_true, if_false]
    exact preExec_end_wp (by rw [hcred, hidentity]) hgrouped herr hok

theorem childProg_wp (hallowed : command.Allowed own) :
    wp (birth command own parent) (childProg command parent) (fun _ _ _ => True) ()
      (Birth.first own) := by
  simp only [childProg, wp_bind, wp_call]
  refine ⟨trivial, ?_⟩
  rintro (e | _) φ hφ
  · exact trivial
  obtain rfl : φ = { Birth.first own with grouped := true } := hφ
  simp only [andThen_ok, wp_bind, wp_lift]
  refine preExec_wp hallowed rfl rfl (fun _ _ => trivial) ?_
  exact fun φ' hready => ⟨hready, fun _ _ _ => trivial⟩

/-! ## The worker -/

/-- How far a worker has got. -/
inductive Duty
  /-- No payload was started; `job` is the job, once it is known, and `found` the last look-up
      of groups. -/
  | idle (job : Option Job) (found : Option (Owner × List Nat))
  /-- The new process has not run the command yet. -/
  | forked (command : Command)
  | watching (command : Command)
  /-- SIGKILL was sent to the group. -/
  | killed (command : Command)
  /-- And the process that was started has been waited for. -/
  | waited (command : Command)
  /-- Nobody is left. -/
  | clear (command : Command)

namespace Duty

/-- Nothing of the payload runs. -/
def Done : Duty → Prop
  | idle _ _ | clear _ => True
  | forked _ | watching _ | killed _ | waited _ => False

/-- The payload may be running. -/
def Watches : Duty → Prop
  | watching _ | killed _ => True
  | idle _ _ | forked _ | waited _ | clear _ => False

def kill : Duty → Duty
  | watching command => killed command
  | φ => φ

def reads (data : Data) : Duty → Duty
  | idle _ found => idle data.job? found
  | φ => φ

def finds (owner : Owner) (groups : List Nat) : Duty → Duty
  | idle job _ => idle job (some (owner, groups))
  | φ => φ

end Duty

/-- The calls that put the result of a job in place. -/
def Sys.publishes : Sys → Bool
  | create _ | write _ _ | fsync _ | rename _ _ | syncDir => true
  | _ => false

theorem Sys.not_publishes {c : Sys} {P : Prop} (hc : c.publishes = false) :
    c.publishes = true → P := by
  rw [hc]
  exact fun h => absurd h Bool.false_ne_true

/-- The worker may run this command for its job. -/
def Duty.Starts (φ : Duty) (command : Command) (own : Cred) : Prop :=
  ∃ job found, φ = idle (some job) found ∧ command.For job found ∧ command.Allowed own

namespace PayCall

def Needs (own : Cred) : PayCall → Duty → Prop
  | fork command, φ => φ.Starts command own
  | awaitExec, φ => ∃ command, φ = .forked command
  | tryWait, φ | signal _, φ => φ.Watches
  | wait, φ => ∃ command, φ = .killed command
  | waitGroup, φ => ∃ command, φ = .waited command
  | sys c, φ => c.publishes = true → φ.Done

def Leads (own : Cred) : (c : PayCall) → Duty → c.Reply → Duty → Prop
  | fork command, φ, r, φ' => φ' = if r = .ok () then .forked command else φ
  | awaitExec, φ, r, φ' => ∃ command, φ = .forked command ∧
      φ' = if r = .ok () then .watching command else .clear command
  | tryWait, φ, _, φ' => φ' = φ
  | signal sig, φ, _, φ' => φ' = if sig = sigkill then φ.kill else φ
  | wait, φ, _, φ' => ∃ command, φ = .killed command ∧ φ' = .waited command
  | waitGroup, φ, r, φ' => ∃ command, φ = .waited command ∧
      φ' = match r with
        | .nobody => .clear command
        | .child | .interrupted => φ
  | sys (.ask .geteuid), φ, r, φ' => r = own.euid ∧ φ' = φ
  | sys (.ask .getegid), φ, r, φ' => r = own.egid ∧ φ' = φ
  | sys (.ask (.groups owner)), φ, r, φ' =>
      match r with
      | .ok groups => φ' = φ.finds owner groups
      | .error _ => φ' = φ
  | sys (.read _), φ, r, φ' =>
      match r with
      | .ok data => φ' = φ.reads data
      | .error _ => φ' = φ
  | sys _, φ, _, φ' => φ' = φ

end PayCall

/-- The discipline of a worker with the credentials `own`. -/
def duty (σ : Type) (own : Cred) : Prog.Spec σ PayCall PayCall.Reply Duty where
  pre c _ φ := c.Needs own φ
  post c _ φ r φ' := c.Leads own φ r φ'

theorem Duty.Watches.signal {φ φ' : Duty} {sig : Nat} (h : φ.Watches)
    (hφ' : φ' = if sig = sigkill then φ.kill else φ) : φ'.Watches := by
  subst hφ'
  split
  · cases φ <;> first | exact trivial | cases h
  · exact h

/-- The same, as the program of the worker sees it. -/
def payloadSpec (own : Cred) : Prog.Spec Unit Sys Sys.Reply Duty where
  pre c _ φ :=
    match c with
    | .ask (.spawnPayload command) => φ.Starts command own
    | .ask .tryWait | .ask (.signal _) | .ask .reap => φ.Watches
    | c => c.publishes = true → φ.Done
  post c _ φ r φ' :=
    match c, r with
    | .ask (.spawnPayload _), .ok () => φ'.Watches
    | .ask (.spawnPayload _), .error _ => φ'.Done
    | .ask (.signal _), _ => φ'.Watches
    | .ask .reap, _ => φ'.Done
    | .ask .geteuid, r => r = own.euid ∧ φ' = φ
    | .ask .getegid, r => r = own.egid ∧ φ' = φ
    | .ask (.groups owner), .ok groups => φ' = φ.finds owner groups
    | .read _, .ok data => φ' = φ.reads data
    | _, _ => φ' = φ

theorem reapGroup_wp (fuel : Nat) (s : Unit) :
    (reapGroup fuel).Safe ((duty (Unit × Unit) own).comap fun t => (s, t))
      (fun _ _ φ' => φ'.Done) (.waited command) := by
  induction fuel with
  | zero => exact ⟨nofun, fun never => nomatch never⟩
  | succ fuel ih =>
      refine ⟨⟨command, rfl⟩, ?_⟩
      rintro (_ | _ | _) φ ⟨_, ⟨⟩, rfl⟩
      · exact ih
      · exact ih
      · exact trivial

theorem dropRunning_wp (fuel : Nat) (s : Unit) {φ : Duty} (hφ : φ.Watches) :
    (dropRunning fuel).Safe ((duty (Unit × Unit) own).comap fun t => (s, t))
      (fun _ _ φ' => φ'.Done) φ := by
  refine ⟨hφ, ?_⟩
  rintro _ φ₁ hφ₁
  obtain ⟨command, hkilled⟩ : ∃ command, φ.kill = .killed command := by
    cases φ <;> first | exact ⟨_, rfl⟩ | cases hφ
  obtain rfl : φ₁ = .killed command := (show φ₁ = _ from hφ₁).trans hkilled
  refine ⟨⟨command, rfl⟩, ?_⟩
  rintro _ φ₂ ⟨_, ⟨⟩, rfl⟩
  exact reapGroup_wp fuel s

/-- What the worker asks about its payload is answered as its program expects. -/
theorem payHandler_implements (fuel : Nat) (own : Cred) :
    Prog.Safe.Implements (payloadSpec own) (duty (Unit × Unit) own) id (fun _ => True)
      (payHandler fuel) := by
  intro c s t φ _ hpre
  cases c with
  | ask question =>
      cases question with
      | spawnPayload command =>
          refine ⟨hpre, ?_⟩
          rintro (e | _) φ₁ hφ₁
          · obtain ⟨job, found, hidle, _⟩ := hpre
            obtain rfl : φ₁ = φ := hφ₁
            refine ⟨trivial, ?_⟩
            show Duty.Done φ₁
            rw [show φ₁ = _ from hidle]
            exact trivial
          · obtain rfl : φ₁ = .forked command := hφ₁
            refine ⟨⟨command, rfl⟩, ?_⟩
            rintro (e | _) φ₂ ⟨_, ⟨⟩, rfl⟩ <;> exact ⟨trivial, trivial⟩
      | tryWait =>
          refine ⟨hpre, ?_⟩
          exact fun r φ' hφ' => ⟨trivial, hφ'⟩
      | signal sig =>
          refine ⟨hpre, ?_⟩
          intro _ φ' hφ'
          exact ⟨trivial, Duty.Watches.signal hpre hφ'⟩
      | reap => exact Prog.Safe.mono (dropRunning_wp fuel s hpre) fun _ _ _ h => ⟨trivial, h⟩
      | groups owner =>
          refine ⟨nofun, ?_⟩
          rintro (e | groups) φ' hφ'
          · exact ⟨trivial, hφ'⟩
          · exact ⟨trivial, hφ'⟩
      | inheritedLock | installSignals | enableSubreaper | account | geteuid | getegid
      | interrupted | elapsedSecs | graceOver | sleep =>
          exact ⟨nofun, fun _ _ h => ⟨trivial, h⟩⟩
  | read path =>
      refine ⟨nofun, ?_⟩
      rintro (e | data) φ' hφ'
      · exact ⟨trivial, hφ'⟩
      · exact ⟨trivial, hφ'⟩
  | create | write | fsync | rename | syncDir => exact ⟨hpre, fun _ _ h => ⟨trivial, h⟩⟩
  | _ => exact ⟨nofun, fun _ _ h => ⟨trivial, h⟩⟩

/-- Root looks up the groups of the owner. -/
theorem payloadGroups_wp (euid : Nat) (owner : Owner) (job : Option Job)
    (found : Option (Owner × List Nat)) :
    wp (payloadSpec own) (payloadGroups euid owner)
      (fun _ r φ' => ∃ found', φ' = .idle job found' ∧
        ∀ groups, r = .ok groups → euid = 0 → found' = some (owner, groups)) ()
      (.idle job found) := by
  unfold payloadGroups
  split
  · simp only [ask, wp_bind, wp_call]
    refine ⟨Sys.not_publishes rfl, ?_⟩
    rintro (e | groups) φ' hφ'
    · refine ⟨found, hφ', ?_⟩
      rintro _ ⟨⟩
    · refine ⟨some (owner, groups), hφ', ?_⟩
      rintro _ ⟨⟩ _
      rfl
  · rename_i hother
    exact ⟨found, rfl, fun _ _ hroot => absurd hroot hother⟩

/-- The command is for the job, whose owner the worker can be. -/
theorem prepare_wp (job : Job) (found : Option (Owner × List Nat)) :
    wp (payloadSpec own) (prepare job)
      (fun _ r φ' => ∃ found', φ' = .idle (some job) found' ∧ ∀ command, r = .ok command →
        command.For job found' ∧ command.Allowed own) () (.idle (some job) found) := by
  have hfails : ∀ (e : Error) found₁, ∃ found',
      Duty.idle (some job) found₁ = .idle (some job) found' ∧
        ∀ command, (Except.error e : Except Error Command) = .ok command →
          command.For job found' ∧ command.Allowed own := by
    refine fun e found₁ => ⟨found₁, rfl, ?_⟩
    rintro _ ⟨⟩
  simp only [prepare, ask, wp_bind, wp_call]
  refine ⟨Sys.not_publishes rfl, ?_⟩
  intro account φ₁ hφ₁
  obtain rfl : φ₁ = .idle (some job) found := hφ₁
  rcases account with e | name
  · exact hfails e _
  show wp (payloadSpec own) (ensure _ _ >>= _) _ () _
  rw [wp_bind, wp_ensure]
  refine ⟨fun hname => ?_, fun _ => hfails _ _⟩
  simp only [andThen_ok, wp_bind, wp_call]
  refine ⟨Sys.not_publishes rfl, ?_⟩
  rintro euid φ₂ ⟨rfl, rfl⟩
  refine ⟨Sys.not_publishes rfl, ?_⟩
  rintro egid φ₃ ⟨rfl, rfl⟩
  simp only [andThen_ok, wp_bind, wp_ensure]
  refine ⟨fun howner => ?_, fun _ => hfails _ _⟩
  refine wp_mono (payloadGroups_wp _ _ _ _) ?_
  rintro _ (e | groups) φ₄ ⟨found₁, rfl, hfound⟩
  · exact hfails e _
  simp only [andThen_ok, wp_bind, wp_ensure, wp_pure]
  refine ⟨fun _ => ⟨fun _ => ⟨found₁, rfl, ?_⟩, fun _ => hfails _ _⟩, fun _ => hfails _ _⟩
  rintro command ⟨⟩
  have hname' : name = job.owner.name := hname
  refine ⟨?_, ?_⟩
  · have howner' : ({ job.owner with name } : Owner) = job.owner := by rw [hname']
    refine ⟨howner', rfl, congrArg (payloadEnv job) howner', rfl, fun hroot => ?_⟩
    rw [← howner']
    exact hfound groups rfl (of_decide_eq_true hroot)
  · show if decide (own.euid = 0) = true then _ else _
    by_cases hroot : own.euid = 0
    · rw [if_pos (decide_eq_true hroot)]
      exact hroot
    · rw [if_neg (by simpa using hroot)]
      exact ⟨hroot, howner.resolve_left hroot⟩

/-- The calls of the loop that watches the payload. -/
def Sys.watches : Sys → Bool
  | pathExists _ | hang | ask .tryWait | ask (.signal _) | ask .interrupted | ask .elapsedSecs
  | ask .graceOver | ask .sleep => true
  | _ => false

/-- A computation that only watches. -/
abbrev Watching (own : Cred) {α : Type} (x : Proc Unit α) : Prop :=
  Keeps (payloadSpec own) (fun _ φ => φ.Watches) x

namespace Watching

theorem call {c : Sys} (hc : c.watches = true) : Watching own (call c) := by
  apply Keeps.call
  · intro _ φ hφ
    cases c with
    | ask question =>
        cases question <;> first | exact hφ | exact absurd hc Bool.false_ne_true | exact nofun
    | pathExists | hang => exact nofun
    | _ => cases hc
  · intro _ φ r φ' hφ h
    cases c with
    | ask question =>
        cases question with
        | signal sig => exact h
        | tryWait | interrupted | elapsedSecs | graceOver | sleep =>
            rw [show φ' = φ from h]
            exact hφ
        | _ => cases hc
    | pathExists =>
        rw [show φ' = φ from h]
        exact hφ
    | hang => exact nomatch r
    | _ => cases hc

theorem terminationReason (job : Job) : Watching own (terminationReason job) := by
  apply Keeps.bind (call rfl)
  intro marked
  cases marked with
  | true => exact Keeps.pure _
  | false =>
      apply Keeps.bind (call rfl)
      intro interrupted
      cases interrupted with
      | true => exact Keeps.pure _
      | false =>
          rw [if_neg Bool.false_ne_true]
          split
          · exact Keeps.pure _
          · exact Keeps.bind (call rfl) fun _ => Keeps.pure _

theorem beginTermination (job : Job) (termination : Option State) :
    Watching own (beginTermination job termination) := by
  cases termination with
  | some state => exact Keeps.pure _
  | none =>
      apply Keeps.bind (terminationReason job)
      rintro (_ | reason)
      · exact Keeps.pure _
      · exact Keeps.bind (call rfl) fun _ => Keeps.pure _

theorem supervise (job : Job) (fuel : Nat) (termination : Option State) :
    Watching own (supervise job fuel termination) := by
  induction fuel generalizing termination with
  | zero => exact Keeps.bind (call rfl) fun never => nomatch never
  | succ fuel ih =>
      apply Keeps.bind (call rfl)
      intro waited
      apply Keeps.bind (Keeps.lift _)
      rintro (_ | status)
      · apply Keeps.bind (beginTermination job termination)
        intro termination'
        cases termination' with
        | none => exact Keeps.bind (call rfl) fun _ => ih none
        | some state =>
            apply Keeps.bind (call rfl)
            intro expired
            cases expired with
            | false => exact Keeps.bind (call rfl) fun _ => ih _
            | true => exact Keeps.bind (call rfl) fun _ => Keeps.bind (call rfl) fun _ => ih _
      · exact Keeps.pure _

end Watching

/-- Whatever `execute` returns, nothing of the payload runs any more. -/
theorem execute_wp (fuel : Nat) (job : Job) :
    wp (payloadSpec own) (execute fuel job) (fun _ _ φ' => φ'.Done) () (.idle (some job) none) := by
  rw [execute, wp_bind]
  refine wp_mono (prepare_wp job none) ?_
  rintro _ (e | command) φ₁ ⟨found, rfl, hcommand⟩
  · exact trivial
  obtain ⟨howner, hallowed⟩ := hcommand command rfl
  rw [andThen_ok, wp_bind, wp_call]
  refine ⟨nofun, ?_⟩
  rintro marked φ₂ hφ₂
  obtain rfl : φ₂ = .idle (some job) found := hφ₂
  cases marked with
  | true => exact ⟨nofun, fun _ _ h => (show _ = _ from h) ▸ trivial⟩
  | false =>
      refine ⟨⟨job, found, rfl, howner, hallowed⟩, ?_⟩
      rintro (e | _) φ₃ hφ₃
      · exact hφ₃
      · show wp (payloadSpec own) (attempt (Xlurm.supervise job fuel none) >>= _) _ () φ₃
        rw [wp_bind, wp_attempt]
        refine wp_mono (Watching.supervise job fuel none () φ₃ hφ₃) ?_
        rintro _ result φ₄ hφ₄
        refine ⟨hφ₄, ?_⟩
        rintro _ φ₅ hφ₅
        rcases result with e | ⟨termination, status⟩
        · exact hφ₅
        · exact ⟨nofun, fun _ _ h => (show _ = _ from h) ▸ hφ₅⟩

theorem executeOrFail_wp (fuel : Nat) (job : Job) :
    wp (payloadSpec own) (executeOrFail fuel job) (fun _ _ φ' => φ'.Done) ()
      (.idle (some job) none) := by
  rw [executeOrFail, wp_bind, wp_attempt]
  refine wp_mono (execute_wp fuel job) ?_
  rintro _ (e | outcome) φ hφ
  · exact ⟨nofun, fun _ _ h => (show _ = _ from h) ▸ hφ⟩
  · exact hφ

/-- The job is known before its payload is started. -/
theorem runJob_wp (fuel id : Nat) :
    wp (payloadSpec own) (runJob fuel id) (fun _ _ φ' => φ'.Done) () (.idle none none) := by
  simp only [runJob, ask, wp_bind, wp_call]
  refine ⟨Sys.not_publishes rfl, ?_⟩
  rintro (e | _) φ₁ hφ₁ <;> obtain rfl : φ₁ = .idle none none := hφ₁
  · exact trivial
  simp only [andThen_ok, readJson, wp_bind, wp_call, wp_lift]
  refine ⟨Sys.not_publishes rfl, ?_⟩
  rintro (e | data) φ₂ hφ₂
  · rw [show φ₂ = .idle none none from hφ₂]
    exact trivial
  obtain rfl : φ₂ = .idle data.job? none := hφ₂
  simp only [andThen_ok]
  cases data.job? with
  | none => exact trivial
  | some job =>
      refine ⟨Sys.not_publishes rfl, ?_⟩
      rintro (e | _) φ₃ hφ₃ <;> obtain rfl : φ₃ = .idle (some job) none := hφ₃
      · exact trivial
      refine ⟨Sys.not_publishes rfl, ?_⟩
      rintro subreaper φ₄ hφ₄
      obtain rfl : φ₄ = .idle (some job) none := hφ₄
      show wp (payloadSpec own) (ensure _ _ >>= _) _ () _
      rw [wp_bind, wp_ensure]
      exact ⟨fun _ => executeOrFail_wp fuel job, fun _ => trivial⟩

/-- The result of a job is put in place when nothing of its payload runs, and nothing runs when the
    worker is done. -/
theorem worker_duty (pid fuel id : Nat) :
    (worker pid fuel id ()).Safe (payloadSpec own) (fun _ _ φ' => φ'.Done) (.idle none none) := by
  show wp (payloadSpec own) (worker pid fuel id) (fun _ _ φ' => φ'.Done) () (.idle none none)
  rw [worker, wp_bind]
  refine wp_mono (runJob_wp fuel id) ?_
  rintro _ (e | outcome) φ hφ
  · exact hφ
  have hpublishes : ∀ c : Sys, c.publishes = true →
      Keeps (payloadSpec own) (fun _ φ => φ.Done) (call c : Proc Unit c.Reply) := by
    intro c hc
    apply Keeps.call
    · intro _ φ hφ
      cases c <;> first | exact fun _ => hφ | cases hc
    · intro _ φ r φ' hφ h
      cases c <;> first | exact (show φ' = φ from h) ▸ hφ | cases hc
  have hwrite : Keeps (payloadSpec own) (fun _ φ => φ.Done)
      (writeJson pid (.job id .result) (.outcome outcome)) := by
    apply Keeps.bind (hpublishes _ rfl)
    intro created
    apply Keeps.bind (Keeps.lift _)
    intro _
    apply Keeps.bind (hpublishes _ rfl)
    intro head
    apply Keeps.bind (Keeps.lift _)
    intro _
    apply Keeps.bind (hpublishes _ rfl)
    intro tail
    apply Keeps.bind (Keeps.lift _)
    intro _
    apply Keeps.bind (hpublishes _ rfl)
    intro synced
    apply Keeps.bind (Keeps.lift _)
    intro _
    apply Keeps.bind (hpublishes _ rfl)
    intro renamed
    apply Keeps.bind (Keeps.lift _)
    intro _
    exact Keeps.bind (hpublishes _ rfl) fun _ => Keeps.lift _
  exact wp_mono (hwrite () φ hφ) fun _ _ _ h => h

/-- The same for the program with the calls about its payload. -/
theorem workerProg_duty (pid fuel id : Nat) :
    (workerProg pid fuel id).Safe (duty (Unit × Unit) own) (fun _ _ φ' => φ'.Done)
      (.idle none none) :=
  Prog.Safe.mono
    (Prog.Safe.interp (payHandler_implements fuel own) (worker_duty pid fuel id) trivial ())
    fun _ _ _ h => h.2

end Xlurm
