/-
  Xlurm.Refine.Group

  What holds of the processes of a payload, whatever they do.

  `Fine` is about one process, `Core` about all of them; `Steady` is what the worker
  can rely on while the processes of the payload do what they like.
-/

import Xlurm.Refine.Payload

namespace Xlurm

open Unix (Cred Table Forest)

/-! ## One process -/

/-- What is known of the others where one process of the payload is looked at. -/
structure Setting where
  pid : Nat
  own : Cred
  /-- The worker lives. -/
  alive : Bool
  /-- The process that was started for the command. -/
  leader : Nat
  command : Command
  execed : Bool
  left : Bool
  used : List Nat

/-- Who adopts the orphans. -/
def Setting.root (s : Setting) : Nat := if s.alive then s.pid else 1

def Payload.setting (m : Payload) (l : Nat) (command : Command) : Setting :=
  ⟨m.pid, m.cred, m.prog.isSome, l, command, m.execed, m.left, m.used⟩

variable {s s' : Setting} {p p' q : Unix.Proc Image} {m m' : Payload} {l : Nat} {command : Command}
  {φ φ' : Birth}

/-- The new process has got this far. -/
structure Birth.Fits (φ : Birth) (s : Setting) (p : Unix.Proc Image) : Prop where
  cred : φ.cred = p.data.cred
  pdeath : φ.pdeath = p.data.pdeath
  cwd : φ.cwd = p.data.cwd
  grouped : φ.grouped = true → p.group = p.pid
  /-- Had the worker died since, the process would have been killed. -/
  safe : φ.safe = true → s.alive = true ∧ φ.pdeath = some sigkill

/-- What a process of the job may be. -/
structure Image.Confined (image : Image) (command : Command) (own : Cred) : Prop where
  noNewPrivs : image.cred.noNewPrivs = true
  identity : command.owner.uid ≠ 0 → image.cred = command.identity own
  cwd : image.cwd = some (command.cwd, command.identity own)

/-- A process that has ended or will end with the worker, if it has not asked for another
    signal. -/
def Bound (alive : Bool) (p : Unix.Proc Image) : Prop :=
  p.zombie = true ∨ p.killed = true ∨ p.data.detached = true ∨
    (alive = true ∧ p.data.pdeath = some sigkill)

/-- The new process, before the job's command runs in it. -/
structure Early (s : Setting) (p : Unix.Proc Image) : Prop where
  leader : p.pid = s.leader
  stays : p.data.left = false
  prog : ∃ prog, p.data.prog = some prog ∧ (p.zombie = false → p.killed = false →
    ∃ φ, prog.Safe (birth s.command s.own s.pid) (fun _ _ _ => True) φ ∧ φ.Fits s p)

/-- A process that runs what the user likes. -/
structure Late (s : Setting) (p : Unix.Proc Image) : Prop where
  prog : p.data.prog = none
  confined : p.data.Confined s.command s.own
  group : p.data.left = false → p.group = s.leader
  stays : s.left = false → p.data.left = false
  bound : p.pid = s.leader → Bound s.alive p

structure Fine (s : Setting) (p : Unix.Proc Image) : Prop where
  used : p.pid ∈ s.used
  parent : p.pid = s.leader → p.parent = s.root
  early : s.execed = false → Early s p
  late : s.execed = true → Late s p

theorem Bound.kill {alive : Bool} (h : Bound alive p) (hkilled : p.killed = true → p'.killed = true)
    (hzombie : p'.zombie = p.zombie) (hdata : p'.data = p.data) : Bound alive p' := by
  rcases h with h | h | h | h
  · exact Or.inl (hzombie.trans h)
  · exact Or.inr (Or.inl (hkilled h))
  · exact Or.inr (Or.inr (Or.inl (hdata ▸ h)))
  · exact Or.inr (Or.inr (Or.inr (hdata ▸ h)))

namespace Fine

/-- Nothing but SIGKILL. -/
theorem kill (h : Fine s p) {killed : Bool} (hkilled : p.killed = true → killed = true) :
    Fine s { p with killed } := by
  refine ⟨h.used, h.parent, fun he => ?_, fun he => ?_⟩
  · obtain ⟨hleader, hstays, prog, heq, hprog⟩ := h.early he
    refine ⟨hleader, hstays, prog, heq, fun hzombie hnot => ?_⟩
    have hbefore : p.killed = false := by
      cases hk : p.killed with
      | false => rfl
      | true => exact (hkilled hk).symm.trans hnot
    obtain ⟨φ, hsafe, hfits⟩ := hprog hzombie hbefore
    exact ⟨φ, hsafe, hfits.cred, hfits.pdeath, hfits.cwd, hfits.grouped, hfits.safe⟩
  · obtain ⟨hprog, hconfined, hgroup, hstays, hbound⟩ := h.late he
    exact ⟨hprog, hconfined, hgroup, hstays, fun hl => (hbound hl).kill hkilled rfl rfl⟩

theorem exit (h : Fine s p) : Fine s { p with zombie := true } := by
  refine ⟨h.used, h.parent, fun he => ?_, fun he => ?_⟩
  · obtain ⟨hleader, hstays, prog, heq, _⟩ := h.early he
    exact ⟨hleader, hstays, prog, heq, nofun⟩
  · obtain ⟨hprog, hconfined, hgroup, hstays, _⟩ := h.late he
    exact ⟨hprog, hconfined, hgroup, hstays, fun _ => Or.inl rfl⟩

/-- An orphan is adopted. -/
theorem adopt (h : Fine s p) (hl : p.pid ≠ s.leader) (parent : Nat) :
    Fine s { p with parent } := by
  refine ⟨h.used, fun heq => absurd heq hl, fun he => absurd (h.early he).leader hl, fun he => ?_⟩
  obtain ⟨hprog, hconfined, hgroup, hstays, _⟩ := h.late he
  exact ⟨hprog, hconfined, hgroup, hstays, fun heq => absurd heq hl⟩

/-- The others change. -/
theorem other (h : Fine s p) (hused : p.pid ∈ s'.used)
    (hs : s' = { s with left := s'.left, used := s'.used })
    (hleft : s'.left = false → s.left = false) : Fine s' p := by
  rw [hs]
  rw [hs] at hused
  refine ⟨hused, h.parent, fun he => ?_, fun he => ?_⟩
  · obtain ⟨hleader, hstays, prog, heq, hprog⟩ := h.early he
    refine ⟨hleader, hstays, prog, heq, fun hzombie hnot => ?_⟩
    obtain ⟨φ, hsafe, hfits⟩ := hprog hzombie hnot
    exact ⟨φ, hsafe, hfits.cred, hfits.pdeath, hfits.cwd, hfits.grouped, hfits.safe⟩
  · obtain ⟨hprog, hconfined, hgroup, hstays, hbound⟩ := h.late he
    exact ⟨hprog, hconfined, hgroup, fun hno => hstays (hleft hno), hbound⟩

/-- The job's command changes its image. -/
theorem image (h : Fine s p) (he : s.execed = true) {image : Image} (hprog : image.prog = none)
    (hleft : image.left = p.data.left) (hconfined : image.Confined s.command s.own)
    (hbound : image.detached = true ∨
      (image.detached = p.data.detached ∧ image.pdeath = p.data.pdeath)) :
    Fine s { p with data := image } := by
  refine ⟨h.used, h.parent, fun hnot => ?_, fun _ => ?_⟩
  · rw [hnot] at he
    cases he
  · obtain ⟨_, _, hgroup, hstays, hold⟩ := h.late he
    refine ⟨hprog, hconfined, ?_, ?_, fun hl => ?_⟩
    · intro hstay
      exact hgroup (hleft.symm.trans hstay)
    · intro hno
      exact hleft.trans (hstays hno)
    · rcases hbound with hdetached | ⟨hdetached, hpdeath⟩
      · exact Or.inr (Or.inr (Or.inl hdetached))
      · rcases hold hl with h | h | h | ⟨halive, h⟩
        · exact Or.inl h
        · exact Or.inr (Or.inl h)
        · exact Or.inr (Or.inr (Or.inl (hdetached.trans h)))
        · exact Or.inr (Or.inr (Or.inr ⟨halive, hpdeath.trans h⟩))

/-- The job's command changes its group. -/
theorem leave (h : Fine s p) (he : s.execed = true) (group : Nat) :
    Fine { s with left := true } { p with group, data := { p.data with left := true } } := by
  refine ⟨h.used, h.parent, fun hnot => ?_, fun _ => ?_⟩
  · rw [show s.execed = false from hnot] at he
    cases he
  · obtain ⟨hprog, ⟨hprivs, hidentity, hcwd⟩, _, _, hbound⟩ := h.late he
    exact ⟨hprog, ⟨hprivs, hidentity, hcwd⟩, nofun, nofun, hbound⟩

/-- A process of the job forks. -/
theorem fork (h : Fine s p) (he : s.execed = true) {pid : Nat} (hl : pid ≠ s.leader)
    (parent : Nat) : Fine { s with used := pid :: s.used }
      { p with pid, parent, data := { p.data with pdeath := none } } := by
  refine ⟨List.mem_cons_self, fun heq => absurd heq hl, fun hnot => ?_, fun _ => ?_⟩
  · rw [show s.execed = false from hnot] at he
    cases he
  · obtain ⟨hprog, ⟨hprivs, hidentity, hcwd⟩, hgroup, hstays, _⟩ := h.late he
    exact ⟨hprog, ⟨hprivs, hidentity, hcwd⟩, hgroup, hstays, fun heq => absurd heq hl⟩

/-- The worker dies. -/
theorem orphan (h : Fine s p) (halive : s.alive = true) : Fine { s with alive := false }
    (if p.parent = s.pid then
      { p with parent := 1, killed := p.killed || p.data.pdeath == some sigkill }
    else p) := by
  have hroot : s.root = s.pid := if_pos halive
  by_cases hchild : p.parent = s.pid
  · rw [if_pos hchild]
    refine ⟨h.used, fun _ => rfl, fun he => ?_, fun he => ?_⟩
    · obtain ⟨hleader, hstays, prog, heq, hprog⟩ := h.early he
      refine ⟨hleader, hstays, prog, heq, fun hzombie hnot => ?_⟩
      obtain ⟨hkilled, hpdeath⟩ := (Bool.or_eq_false_iff).mp hnot
      obtain ⟨φ, hsafe, hfits⟩ := hprog hzombie hkilled
      refine ⟨φ, hsafe, hfits.cred, hfits.pdeath, hfits.cwd, hfits.grouped, fun hok => ?_⟩
      -- The signal would have ended the process.
      have hsignal := hfits.pdeath.symm.trans (hfits.safe hok).2
      rw [hsignal] at hpdeath
      cases hpdeath
    · obtain ⟨hprog, hconfined, hgroup, hstays, hbound⟩ := h.late he
      refine ⟨hprog, hconfined, hgroup, hstays, fun hl => ?_⟩
      rcases hbound hl with h | h | h | ⟨_, h⟩
      · exact Or.inl h
      · exact Or.inr (Or.inl (by simp [h]))
      · exact Or.inr (Or.inr (Or.inl h))
      · exact Or.inr (Or.inl (by simp [h]))
  · have hl : p.pid ≠ s.leader := fun heq => hchild ((h.parent heq).trans hroot)
    rw [if_neg hchild]
    refine ⟨h.used, fun heq => absurd heq hl, fun he => absurd (h.early he).leader hl,
      fun he => ?_⟩
    obtain ⟨hprog, hconfined, hgroup, hstays, _⟩ := h.late he
    exact ⟨hprog, hconfined, hgroup, hstays, fun heq => absurd heq hl⟩

end Fine

/-! ## Calls of the new process -/

/-- What the calls of the new process leave alone. -/
structure SamePlace (p p' : Unix.Proc Image) : Prop where
  pid : p'.pid = p.pid
  parent : p'.parent = p.parent
  killed : p'.killed = p.killed
  zombie : p'.zombie = p.zombie
  prog : p'.data.prog = p.data.prog
  left : p'.data.left = p.data.left

theorem Birth.Fits.become (h : φ.Fits s p) (f : Cred → Option Cred) :
    ∃ φ', φ.Becomes (f φ.cred) (p.data.become (f p.data.cred)).1 φ' ∧
      φ'.Fits s { p with data := (p.data.become (f p.data.cred)).2 } ∧
      SamePlace p { p with data := (p.data.become (f p.data.cred)).2 } := by
  rw [h.cred]
  cases f p.data.cred with
  | none =>
      exact ⟨φ, rfl, ⟨h.cred, h.pdeath, h.cwd, h.grouped, h.safe⟩, rfl, rfl, rfl, rfl, rfl, rfl⟩
  | some c =>
      refine ⟨φ.setCred c, ⟨c, rfl, rfl⟩, ⟨rfl, ?_, h.cwd, h.grouped, nofun⟩, rfl, rfl, rfl, rfl,
        rfl, rfl⟩
      show (if φ.cred.sameEffective c then φ.pdeath else none) = _
      rw [h.cred, h.pdeath]
      rfl

/-- One call of the new process: it exits, runs the job's command, or gets further. -/
theorem ChildCall.exec_fits (c : ChildCall) (raw : c.Raw) (hneeds : c.Needs s.command s.own φ)
    (h : φ.Fits s p) (hparent : p.parent = s.root) (hpid : s.pid ≠ 1) :
    (c.exec p raw).2 = { p with zombie := true } ∨
      (φ.Ready s.command s.own ∧
        (c.exec p raw).2 = { p with data := { p.data with prog := none } }) ∨
      ∃ φ', c.Leads s.pid φ (c.exec p raw).1 φ' ∧ φ'.Fits s (c.exec p raw).2 ∧
        SamePlace p (c.exec p raw).2 := by
  have hsame : SamePlace p p := ⟨rfl, rfl, rfl, rfl, rfl, rfl⟩
  cases c with
  | setpgid =>
      apply Or.inr (Or.inr _)
      cases raw with
      | some e => exact ⟨φ, rfl, h, hsame⟩
      | none =>
          exact ⟨_, rfl, ⟨h.cred, h.pdeath, h.cwd, fun _ => rfl, h.safe⟩, rfl, rfl, rfl, rfl, rfl,
            rfl⟩
  | setgroups groups =>
      apply Or.inr (Or.inr _)
      cases raw with
      | some e => exact ⟨φ, rfl, h, hsame⟩
      | none => exact h.become (·.setgroups groups)
  | setresgid gid =>
      apply Or.inr (Or.inr _)
      cases raw with
      | some e => exact ⟨φ, rfl, h, hsame⟩
      | none => exact h.become (·.setresgid gid gid gid)
  | setresuid uid =>
      apply Or.inr (Or.inr _)
      cases raw with
      | some e => exact ⟨φ, rfl, h, hsame⟩
      | none => exact h.become (·.setresuid uid uid uid)
  | setNoNewPrivs =>
      apply Or.inr (Or.inr _)
      cases raw with
      | some e => exact ⟨φ, rfl, h, hsame⟩
      | none =>
          exact ⟨_, rfl, ⟨congrArg Cred.setNoNewPrivs h.cred, h.pdeath, h.cwd, h.grouped, h.safe⟩,
            rfl, rfl, rfl, rfl, rfl, rfl⟩
  | chdir path =>
      apply Or.inr (Or.inr _)
      cases raw with
      | some e => exact ⟨φ, rfl, h, hsame⟩
      | none =>
          refine ⟨_, rfl, ⟨h.cred, h.pdeath, ?_, h.grouped, h.safe⟩, rfl, rfl, rfl, rfl, rfl, rfl⟩
          exact congrArg (fun cred => some (path, cred)) h.cred
  | setPdeathsig signal =>
      apply Or.inr (Or.inr _)
      cases raw with
      | some e => exact ⟨φ, rfl, h, hsame⟩
      | none => exact ⟨_, rfl, ⟨h.cred, rfl, h.cwd, h.grouped, nofun⟩, rfl, rfl, rfl, rfl, rfl, rfl⟩
  | getppid =>
      apply Or.inr (Or.inr _)
      refine ⟨_, rfl, ?_, hsame⟩
      show Birth.Fits (if p.parent = s.pid then { φ with safe := true } else φ) s p
      split
      · rename_i hworker
        refine ⟨h.cred, h.pdeath, h.cwd, h.grouped, fun _ => ⟨?_, hneeds⟩⟩
        -- An orphan would be a child of process 1.
        have hroot : s.root = s.pid := hparent.symm.trans hworker
        unfold Setting.root at hroot
        split at hroot
        · assumption
        · exact absurd hroot.symm hpid
      · exact h
  | exit code => exact Or.inl rfl
  | execvp =>
      cases raw with
      | some e =>
          apply Or.inr (Or.inr _)
          exact ⟨φ, ⟨nofun, rfl⟩, h, hsame⟩
      | none => exact Or.inr (Or.inl ⟨hneeds, rfl⟩)

/-! ## Calls of the job's command -/

/-- Root becomes the owner for good, and anybody else was the owner before. -/
theorem Command.identity_of {own : Cred} (hallowed : command.Allowed own)
    (hown : ∃ uid gid groups, own = Cred.of uid gid groups false) :
    ∃ gid groups, command.identity own = Cred.of command.owner.uid gid groups true := by
  unfold Command.Allowed at hallowed
  unfold Command.identity
  split
  · exact ⟨_, _, rfl⟩
  · rename_i hunprivileged
    rw [if_neg hunprivileged] at hallowed
    obtain ⟨uid, gid, groups, rfl⟩ := hown
    rw [hallowed.2.1]
    exact ⟨gid, groups, rfl⟩

namespace Image

variable {image : Image} {own : Cred} {cred : Option Cred}

theorem becomes_bound (cred : Option Cred) : (image.becomes cred).detached = true ∨
    ((image.becomes cred).detached = image.detached ∧
      (image.becomes cred).pdeath = image.pdeath) := by
  by_cases hpdeath : (image.become cred).2.pdeath = image.pdeath
  · refine Or.inr ⟨?_, hpdeath⟩
    show (image.detached || _ != _) = image.detached
    simp [hpdeath]
  · apply Or.inl
    show (image.detached || _ != _) = true
    simp [hpdeath]

theorem becomes_prog (h : image.prog = none) : (image.becomes cred).prog = none := by
  cases cred <;> exact h

theorem becomes_left : (image.becomes cred).left = image.left := by
  cases cred <;> rfl

theorem Confined.becomes (h : image.Confined command own)
    (hown : ∃ gid groups, command.identity own = Cred.of command.owner.uid gid groups true)
    (hprivs : ∀ c, cred = some c → c.noNewPrivs = image.cred.noNewPrivs)
    (hsame : ∀ uid gid groups, uid ≠ 0 → image.cred = Cred.of uid gid groups true →
      ∀ c, cred = some c → c = image.cred) : (image.becomes cred).Confined command own := by
  cases hcred : cred with
  | none => exact ⟨h.noNewPrivs, h.identity, h.cwd⟩
  | some c =>
      refine ⟨(hprivs c hcred).trans h.noNewPrivs, fun huid => ?_, h.cwd⟩
      obtain ⟨gid, groups, hidentity⟩ := hown
      have heq := h.identity huid
      exact (hsame _ gid groups huid (heq.trans hidentity) c hcred).trans heq

end Image

/-! ## The payload -/

namespace Payload

/-- The job's command runs, or nothing does. -/
def Settled (m : Payload) : Prop := m.execed = true ∨ ∀ p ∈ m.procs, p.zombie = true

/-- What has stayed in the payload's group has ended or is about to. -/
def Doomed (m : Payload) : Prop :=
  ∀ p ∈ m.procs, p.data.left = false → p.killed = true ∨ p.zombie = true

structure Core (m : Payload) : Prop where
  own : ∃ uid gid groups, m.cred = Cred.of uid gid groups false
  pid : m.pid ≠ 1
  fresh : m.pid ∉ m.used ∧ 1 ∉ m.used
  forest : Forest m.root m.procs
  idle : m.leader = none → m.procs = [] ∧ m.execed = false
  leader : ∀ l command, m.leader = some (l, command) → l ∈ m.used ∧ command.Allowed m.cred ∧
    ∃ job, m.job = some job ∧ command.For job m.found
  fine : ∀ l command, m.leader = some (l, command) → ∀ p ∈ m.procs, Fine (m.setting l command) p
  failed : ∀ e, m.pipe = .failed e → m.execed = false ∧ ∀ p ∈ m.procs, p.zombie = true
  closed : m.pipe = .closed → m.Settled

namespace Core

theorem init (pid uid gid : Nat) (groups : List Nat) (fuel id : Nat) (hpid : pid ≠ 1) :
    (Payload.init pid uid gid groups fuel id).Core where
  own := ⟨uid, gid, groups, rfl⟩
  pid := hpid
  fresh := ⟨List.not_mem_nil, List.not_mem_nil⟩
  forest := trivial
  idle _ := ⟨rfl, rfl⟩
  leader := nofun
  fine := nofun
  failed := nofun
  closed := nofun

theorem started (h : m.Core) (hp : p ∈ m.procs) : ∃ l command, m.leader = some (l, command) ∧
    Fine (m.setting l command) p := by
  cases hleader : m.leader with
  | none =>
      rw [(h.idle hleader).1] at hp
      cases hp
  | some leader => exact ⟨leader.1, leader.2, rfl, h.fine _ _ hleader p hp⟩

/-- Before the job's command runs there is only the new process. -/
theorem alone (h : m.Core) (he : m.execed = false) (hp : p ∈ m.procs) (hq : q ∈ m.procs) :
    q = p := by
  obtain ⟨l, command, hleader, hfine⟩ := h.started hp
  apply h.forest.unique hq hp
  exact ((h.fine l command hleader q hq).early he).leader.trans (hfine.early he).leader.symm

/-- What runs the user's code runs the job's command. -/
theorem execed (h : m.Core) (hp : p ∈ m.procs) (hprog : p.data.prog = none) :
    m.execed = true := by
  obtain ⟨l, command, _, hfine⟩ := h.started hp
  cases he : m.execed with
  | true => rfl
  | false =>
      obtain ⟨prog, heq, _⟩ := (hfine.early he).prog
      rw [hprog] at heq
      cases heq

theorem not_execed (h : m.Core) (hp : p ∈ m.procs) (hprog : p.data.prog ≠ none) :
    m.execed = false := by
  obtain ⟨l, command, _, hfine⟩ := h.started hp
  cases he : m.execed with
  | false => rfl
  | true => exact absurd (hfine.late he).prog hprog

end Core

/-- What the worker can rely on while it does nothing. -/
structure Steady (m m' : Payload) : Prop where
  pid : m'.pid = m.pid
  cred : m'.cred = m.cred
  leader : m'.leader = m.leader
  job : m'.job = m.job
  found : m'.found = m.found
  prog : m'.prog = m.prog ∨ m'.prog = none
  execed : m.execed = true → m'.execed = true
  /-- Without the worker the job's command does not start. -/
  starts : m'.execed = true → m.execed = true ∨ m.prog.isSome = true
  left : m'.left = false → m.left = false
  procs : ∀ p' ∈ m'.procs, ∃ p ∈ m.procs, (p'.data.left = false → p.data.left = false) ∧
    ((p'.pid = p.pid ∧ (p.zombie = true → p'.zombie = true) ∧
        (p.killed = true → p'.killed = true)) ∨
      (m.execed = true ∧ p'.pid ∉ m.used ∧ p.zombie = false ∧ p.killed = false))

namespace Steady

theorem refl (m : Payload) : Steady m m :=
  ⟨rfl, rfl, rfl, rfl, rfl, Or.inl rfl, id, Or.inl, id,
    fun p hp => ⟨p, hp, id, Or.inl ⟨rfl, id, id⟩⟩⟩

theorem settled (h : Steady m m') (hm : m.Settled) : m'.Settled := by
  rcases hm with he | hzombies
  · exact Or.inl (h.execed he)
  · by_cases he : m.execed = true
    · exact Or.inl (h.execed he)
    · refine Or.inr fun p' hp' => ?_
      obtain ⟨p, hp, _, ⟨_, hzombie, _⟩ | ⟨he', _⟩⟩ := h.procs p' hp'
      · exact hzombie (hzombies p hp)
      · exact absurd he' he

theorem doomed (h : Steady m m') (hm : m.Doomed) : m'.Doomed := by
  intro p' hp' hstays
  obtain ⟨p, hp, hleft, ⟨_, hzombie, hkilled⟩ | ⟨_, _, hlive, hnot⟩⟩ := h.procs p' hp'
  · exact (hm p hp (hleft hstays)).imp hkilled hzombie
  · rcases hm p hp (hleft hstays) with hk | hz
    · exact absurd (hk.symm.trans hnot) Bool.true_eq_false_eq_False
    · exact absurd (hz.symm.trans hlive) Bool.true_eq_false_eq_False

theorem gone (h : Steady m m') (hl : l ∈ m.used) (hm : ∀ p ∈ m.procs, p.pid ≠ l) :
    ∀ p ∈ m'.procs, p.pid ≠ l := by
  intro p' hp' heq
  obtain ⟨p, hp, _, ⟨hpid, _⟩ | ⟨_, hfresh, _⟩⟩ := h.procs p' hp'
  · exact hm p hp (hpid.symm.trans heq)
  · exact hfresh (heq ▸ hl)

theorem empty (h : Steady m m') (hm : m.left = false → m.procs = []) (hleft : m'.left = false) :
    m'.procs = [] := by
  apply List.eq_nil_iff_forall_not_mem.mpr
  intro p' hp'
  obtain ⟨p, hp, _⟩ := h.procs p' hp'
  rw [hm (h.left hleft)] at hp
  cases hp

end Steady

/-! ## The actions of others -/

theorem running_spec {pid : Nat} (h : m.running pid = some p) :
    p ∈ m.procs ∧ p.pid = pid ∧ p.zombie = false ∧ p.killed = false := by
  have hsome := List.find?_some h
  simp only [Bool.and_eq_true, decide_eq_true_eq, Bool.not_eq_true'] at hsome
  exact ⟨List.mem_of_find?_eq_some h, hsome.1.1, hsome.1.2, hsome.2⟩

theorem Core.steady (h : m.Core) (hsteady : Steady m m') (hforest : Forest m'.root m'.procs)
    (hused : m.used ⊆ m'.used) (hfresh : m'.pid ∉ m'.used ∧ 1 ∉ m'.used)
    (hexeced : m'.execed = true → m.leader ≠ none)
    (hfine : ∀ l command, m.leader = some (l, command) →
      ∀ p ∈ m'.procs, Fine (m'.setting l command) p)
    (hfailed : ∀ e, m'.pipe = .failed e → m'.execed = false ∧ ∀ p ∈ m'.procs, p.zombie = true)
    (hclosed : m'.pipe = .closed → m'.Settled) : m'.Core := by
  refine ⟨?_, ?_, hfresh, hforest, ?_, ?_, ?_, hfailed, hclosed⟩
  · rw [hsteady.cred]
    exact h.own
  · rw [hsteady.pid]
    exact h.pid
  · intro hidle
    rw [hsteady.leader] at hidle
    refine ⟨List.eq_nil_iff_forall_not_mem.mpr fun p' hp' => ?_, ?_⟩
    · obtain ⟨p, hp, _⟩ := hsteady.procs p' hp'
      rw [(h.idle hidle).1] at hp
      cases hp
    · cases he : m'.execed with
      | false => rfl
      | true => exact absurd hidle (hexeced he)
  · intro l command hleader
    rw [hsteady.leader] at hleader
    rw [hsteady.cred, hsteady.job, hsteady.found]
    exact ⟨hused (h.leader l command hleader).1, (h.leader l command hleader).2⟩
  · intro l command hleader
    rw [hsteady.leader] at hleader
    exact hfine l command hleader

theorem Core.leader_ne (h : m.Core) (he : m.execed = true) : m.leader ≠ none := by
  intro hidle
  have hnot := (h.idle hidle).2
  rw [he] at hnot
  cases hnot

/-- After an error of the new process nothing runs. -/
theorem Core.still_failed (h : m.Core) (hsteady : Steady m m') (hpipe : m'.pipe = m.pipe)
    (he : m'.execed = m.execed) (e : Error) (hfailed : m'.pipe = .failed e) :
    m'.execed = false ∧ ∀ p ∈ m'.procs, p.zombie = true := by
  rw [hpipe] at hfailed
  obtain ⟨hnot, hzombies⟩ := h.failed e hfailed
  refine ⟨he.trans hnot, ?_⟩
  rcases hsteady.settled (Or.inr hzombies) with he' | hzombies'
  · rw [he, hnot] at he'
    cases he'
  · exact hzombies'

theorem Core.kill (h : m.Core) (pid : Nat) :
    Core { m with procs := m.procs.update pid fun p => { p with killed := true } } ∧
      Steady m { m with procs := m.procs.update pid fun p => { p with killed := true } } := by
  have hsteady : Steady m
      { m with procs := m.procs.update pid fun p => { p with killed := true } } := by
    refine ⟨rfl, rfl, rfl, rfl, rfl, Or.inl rfl, id, Or.inl, id, fun p' hp' => ?_⟩
    rcases Table.mem_update hp' with ⟨p, hp, _, rfl⟩ | ⟨hp, _⟩
    · exact ⟨p, hp, id, Or.inl ⟨rfl, id, fun _ => rfl⟩⟩
    · exact ⟨p', hp, id, Or.inl ⟨rfl, id, id⟩⟩
  refine ⟨h.steady hsteady ?_ (List.Subset.refl _) h.fresh h.leader_ne ?_
    (h.still_failed hsteady rfl rfl) (fun hpipe => hsteady.settled (h.closed hpipe)), hsteady⟩
  · exact h.forest.update fun _ _ _ => ⟨rfl, rfl, rfl⟩
  · intro l command hleader p' hp'
    rcases Table.mem_update hp' with ⟨p, hp, _, rfl⟩ | ⟨hp, _⟩
    · exact (h.fine l command hleader p hp).kill fun _ => rfl
    · exact h.fine l command hleader p' hp

/-- A process exits; the new process, if the job's command does not run yet. -/
theorem Core.exits (h : m.Core) (hp : p ∈ m.procs) {heir : Nat}
    (hheir : m.procs.mayInherit m.root p.pid heir = true) (pipe : Pipe)
    (hpipe : pipe = m.pipe ∨ m.execed = false) :
    Core { m.exits p.pid heir with pipe } ∧ Steady m { m.exits p.pid heir with pipe } := by
  have hsteady : Steady m { m.exits p.pid heir with pipe } := by
    refine ⟨rfl, rfl, rfl, rfl, rfl, Or.inl rfl, id, Or.inl, id, fun q' hq' => ?_⟩
    obtain ⟨q, hq, ⟨_, rfl⟩ | ⟨_, _, rfl⟩ | ⟨_, _, rfl⟩⟩ := Table.mem_exit hq'
    · exact ⟨q, hq, id, Or.inl ⟨rfl, fun _ => rfl, id⟩⟩
    · exact ⟨q, hq, id, Or.inl ⟨rfl, id, id⟩⟩
    · exact ⟨q', hq, id, Or.inl ⟨rfl, id, id⟩⟩
  have hzombies : m.execed = false → ∀ q' ∈ (m.exits p.pid heir).procs, q'.zombie = true := by
    intro he q' hq'
    obtain ⟨q, hq, ⟨_, rfl⟩ | ⟨hne, _⟩ | ⟨hne, _⟩⟩ := Table.mem_exit hq'
    · rfl
    · exact absurd (congrArg Unix.Proc.pid (h.alone he hp hq)) hne
    · exact absurd (congrArg Unix.Proc.pid (h.alone he hp hq)) hne
  refine ⟨h.steady hsteady (h.forest.exit hheir) (List.Subset.refl _) h.fresh h.leader_ne ?_ ?_ ?_,
    hsteady⟩
  · intro l command hleader q' hq'
    obtain ⟨q, hq, ⟨_, rfl⟩ | ⟨_, hchild, rfl⟩ | ⟨_, _, rfl⟩⟩ := Table.mem_exit hq'
    · exact (h.fine l command hleader q hq).exit
    · refine (h.fine l command hleader q hq).adopt (fun hl => ?_) heir
      -- The leader is a child of the root.
      have hroot : q.parent = m.root := (h.fine l command hleader q hq).parent hl
      exact h.forest.notRoot hp (hchild.symm.trans hroot)
    · exact h.fine l command hleader q' hq
  · intro e hfailed
    rcases hpipe with hpipe | he
    · exact h.still_failed hsteady hpipe rfl e hfailed
    · exact ⟨he, hzombies he⟩
  · intro hclosed
    rcases hpipe with hpipe | he
    · exact hsteady.settled (h.closed (hpipe.symm.trans hclosed))
    · exact Or.inr (hzombies he)

/-- One process changes, and does not move in the table. -/
theorem Core.update (h : m.Core) (hp : p ∈ m.procs) {f : Unix.Proc Image → Unix.Proc Image}
    (hf : (f p).pid = p.pid ∧ (f p).parent = p.parent ∧ (f p).zombie = p.zombie)
    (hkilled : (f p).killed = p.killed) (hstays : (f p).data.left = false → p.data.left = false)
    {left : Bool} (hleft : left = false → m.left = false)
    (hfine : ∀ l command, m.leader = some (l, command) →
      Fine { m.setting l command with left } (f p)) :
    Core { m with procs := m.procs.update p.pid f, left } ∧
      Steady m { m with procs := m.procs.update p.pid f, left } := by
  have hsteady : Steady m { m with procs := m.procs.update p.pid f, left } := by
    refine ⟨rfl, rfl, rfl, rfl, rfl, Or.inl rfl, id, Or.inl, hleft, fun q' hq' => ?_⟩
    rcases Table.mem_update hq' with ⟨q, hq, hpid, rfl⟩ | ⟨hq, _⟩
    · obtain rfl := h.forest.unique hq hp hpid
      exact ⟨q, hq, hstays, Or.inl ⟨hf.1, hf.2.2.trans, hkilled.trans⟩⟩
    · exact ⟨q', hq, id, Or.inl ⟨rfl, id, id⟩⟩
  refine ⟨h.steady hsteady ?_ (List.Subset.refl _) h.fresh h.leader_ne ?_
    (h.still_failed hsteady rfl rfl) (fun hpipe => hsteady.settled (h.closed hpipe)), hsteady⟩
  · apply h.forest.update
    intro q hq hpid
    obtain rfl := h.forest.unique hq hp hpid
    exact hf
  · intro l command hleader q' hq'
    rcases Table.mem_update hq' with ⟨q, hq, hpid, rfl⟩ | ⟨hq, _⟩
    · obtain rfl := h.forest.unique hq hp hpid
      exact hfine l command hleader
    · have hold := h.fine l command hleader q' hq
      exact hold.other hold.used rfl hleft

/-- A call of a process that runs the user's code. -/
theorem Core.userStep (h : m.Core) (hp : p ∈ m.procs) (hlive : p.zombie = false ∧ p.killed = false)
    (hprog : p.data.prog = none) (c : UserCall) :
    (m.userStep p c).Core ∧ Steady m (m.userStep p c) := by
  have he : m.execed = true := h.execed hp hprog
  have hbecomes : ∀ cred : Option Cred,
      (∀ c, cred = some c → c.noNewPrivs = p.data.cred.noNewPrivs) →
      (∀ uid gid groups, uid ≠ 0 → p.data.cred = Cred.of uid gid groups true →
        ∀ c, cred = some c → c = p.data.cred) →
      (m.setImage p.pid (p.data.becomes cred)).Core ∧
        Steady m (m.setImage p.pid (p.data.becomes cred)) := by
    intro cred hprivs hsame
    refine h.update hp ⟨rfl, rfl, rfl⟩ rfl Image.becomes_left.symm.trans id
      fun l command hleader => ?_
    have hfine := h.fine l command hleader p hp
    have hidentity := Command.identity_of (h.leader l command hleader).2.1 h.own
    exact hfine.image he (Image.becomes_prog hprog) Image.becomes_left
      ((hfine.late he).confined.becomes hidentity hprivs hsame) (Image.becomes_bound cred)
  cases c with
  | fork pid =>
      rw [Payload.userStep]
      by_cases hfree : m.freePid pid = true
      · rw [if_pos hfree]
        simp only [freePid, Bool.and_eq_true, decide_eq_true_eq] at hfree
        obtain ⟨⟨hunused, hworker⟩, hinit⟩ := hfree
        have hne : ∀ q ∈ m.procs, q.pid ≠ pid := by
          intro q hq heq
          obtain ⟨l, command, _, hfine⟩ := h.started hq
          exact hunused (heq ▸ hfine.used)
        have hsteady : Steady m (m.forked
            { p with pid, parent := p.pid, data := { p.data with pdeath := none } }) := by
          refine ⟨rfl, rfl, rfl, rfl, rfl, Or.inl rfl, id, Or.inl, id, fun q' hq' => ?_⟩
          rcases List.mem_cons.mp hq' with rfl | hq
          · exact ⟨p, hp, id, Or.inr ⟨he, hunused, hlive⟩⟩
          · exact ⟨q', hq, id, Or.inl ⟨rfl, id, id⟩⟩
        refine ⟨h.steady hsteady ?_ (List.subset_cons_self _ _) ?_ h.leader_ne ?_ ?_ ?_, hsteady⟩
        · refine h.forest.fork (Or.inr ⟨p, hp, rfl, hlive.1⟩) ?_ hne
          show pid ≠ m.root
          unfold root
          split
          · exact hworker
          · exact hinit
        · exact ⟨List.not_mem_cons_of_ne_of_not_mem (Ne.symm hworker) h.fresh.1,
            List.not_mem_cons_of_ne_of_not_mem (Ne.symm hinit) h.fresh.2⟩
        · intro l command hleader q' hq'
          rcases List.mem_cons.mp hq' with rfl | hq
          · have hl : pid ≠ l := fun heq => hunused (heq ▸ (h.leader l command hleader).1)
            exact (h.fine l command hleader p hp).fork he hl p.pid
          · have hold := h.fine l command hleader q' hq
            exact hold.other (List.mem_cons_of_mem _ hold.used) rfl id
        · intro e hfailed
          have hnot := (h.failed e hfailed).1
          rw [he] at hnot
          cases hnot
        · exact fun _ => Or.inl he
      · rw [if_neg hfree]
        exact ⟨h, Steady.refl m⟩
  | setpgid group =>
      rw [Payload.userStep]
      split
      · exact ⟨h, Steady.refl m⟩
      · refine h.update hp ⟨rfl, rfl, rfl⟩ rfl ?_ ?_ fun l command hleader => ?_
        · rintro ⟨⟩
        · rintro ⟨⟩
        exact (h.fine l command hleader p hp).leave he group
  | setgroups groups =>
      apply hbecomes
      · exact fun c => Cred.setgroups_noNewPrivs
      · intro uid gid groups' huid heq c hset
        rw [heq, Cred.setgroups_of huid] at hset
        cases hset
  | setresgid rgid egid sgid =>
      apply hbecomes
      · exact fun c => Cred.setresgid_noNewPrivs
      · intro uid gid groups' huid heq c hset
        rw [heq] at hset ⊢
        exact Cred.setresgid_of huid hset
  | setresuid ruid euid suid =>
      apply hbecomes
      · exact fun c => Cred.setresuid_noNewPrivs
      · intro uid gid groups' huid heq c hset
        rw [heq] at hset ⊢
        exact Cred.setresuid_of huid hset
  | setPdeathsig signal =>
      refine h.update hp ⟨rfl, rfl, rfl⟩ rfl id id fun l command hleader => ?_
      have hfine := h.fine l command hleader p hp
      obtain ⟨hprivs, hidentity, hcwd⟩ := (hfine.late he).confined
      exact hfine.image he hprog rfl ⟨hprivs, hidentity, hcwd⟩ (Or.inl rfl)

/-- The job's command runs. -/
theorem Core.execs (h : m.Core) (hp : p ∈ m.procs) (he : m.execed = false)
    (hleader : m.leader = some (l, command)) (hfits : φ.Fits (m.setting l command) p)
    (hready : φ.Ready command m.cred) :
    Core { m with
        procs := m.procs.update p.pid fun _ => { p with data := { p.data with prog := none } }
        pipe := .closed
        execed := true } ∧
      Steady m { m with
        procs := m.procs.update p.pid fun _ => { p with data := { p.data with prog := none } }
        pipe := .closed
        execed := true } := by
  have hfine := h.fine l command hleader p hp
  obtain ⟨hl, hstays, _⟩ := hfine.early he
  have hsteady : Steady m { m with
      procs := m.procs.update p.pid fun _ => { p with data := { p.data with prog := none } }
      pipe := .closed
      execed := true } := by
    refine ⟨rfl, rfl, rfl, rfl, rfl, Or.inl rfl, fun _ => rfl,
      fun _ => Or.inr (hfits.safe hready.safe).1, id, fun q' hq' => ?_⟩
    rcases Table.mem_update hq' with ⟨q, hq, _, rfl⟩ | ⟨hq, _⟩
    · exact ⟨p, hp, id, Or.inl ⟨rfl, id, id⟩⟩
    · exact ⟨q', hq, id, Or.inl ⟨rfl, id, id⟩⟩
  refine ⟨h.steady hsteady ?_ (List.Subset.refl _) h.fresh ?_ ?_ nofun (fun _ => Or.inl rfl),
    hsteady⟩
  · apply h.forest.update
    intro q hq hpid
    obtain rfl := h.forest.unique hq hp hpid
    exact ⟨rfl, rfl, rfl⟩
  · rw [hleader]
    exact fun _ => nofun
  · intro l' command' hleader' q' hq'
    rw [hleader] at hleader'
    cases hleader'
    rcases Table.mem_update hq' with ⟨q, hq, _, rfl⟩ | ⟨hq, hne⟩
    · refine ⟨hfine.used, hfine.parent, nofun, fun _ => ⟨rfl, ⟨?_, ?_, ?_⟩, ?_, ?_, ?_⟩⟩
      · obtain ⟨gid, groups, hidentity⟩ := Command.identity_of (h.leader l command hleader).2.1 h.own
        show p.data.cred.noNewPrivs = true
        rw [← hfits.cred, hready.cred, hidentity]
        rfl
      · exact fun _ => hfits.cred.symm.trans hready.cred
      · exact hfits.cwd.symm.trans hready.cwd
      · exact fun _ => (hfits.grouped hready.grouped).trans hl
      · exact fun _ => hstays
      · intro _
        exact Or.inr (Or.inr (Or.inr ⟨(hfits.safe hready.safe).1,
          hfits.pdeath.symm.trans hready.pdeath⟩))
    · exact absurd (congrArg Unix.Proc.pid (h.alone he hp hq)) hne

/-- A call of the new process. -/
theorem Core.childStep (h : m.Core) (hp : p ∈ m.procs)
    (hlive : p.zombie = false ∧ p.killed = false) {c : ChildCall} {k : c.Reply → ChildProg}
    (hprog : p.data.prog = some (.call () c k)) (raw : c.Raw) :
    (m.childStep p c k raw).Core ∧ Steady m (m.childStep p c k raw) := by
  have he : m.execed = false := by
    apply h.not_execed hp
    rw [hprog]
    nofun
  obtain ⟨l, command, hleader, hfine⟩ := h.started hp
  obtain ⟨hl, hstays, prog, heq, hrest⟩ := hfine.early he
  rw [hprog] at heq
  cases heq
  obtain ⟨φ, hsafe, hfits⟩ := hrest hlive.1 hlive.2
  obtain ⟨hneeds, hnext⟩ := hsafe
  obtain hexit | ⟨hready, hexec⟩ | ⟨φ', hleads, hfits', hsame⟩ :=
    c.exec_fits raw hneeds hfits (hfine.parent hl) h.pid
  · simp only [Payload.childStep, hexit, if_true]
    exact h.exits hp (Table.mayInherit_root _ _ _) .closed (Or.inr he)
  · have hzombie : (c.exec p raw).2.zombie = false := by
      rw [hexec]
      exact hlive.1
    have hruns : (c.exec p raw).2.data.prog.isNone = true := by
      rw [hexec]
      rfl
    simp only [Payload.childStep, hzombie, hruns, Bool.false_eq_true, if_false, if_true]
    rw [hexec]
    exact h.execs hp he hleader hfits hready
  · simp only [Payload.childStep, hsame.zombie, hlive.1, hsame.prog, hprog, Bool.false_eq_true,
      if_false, Option.isNone_some]
    refine h.update hp ⟨hsame.pid, hsame.parent, hlive.1.symm⟩ hsame.killed
      hsame.left.symm.trans id fun l' command' hleader' => ?_
    rw [hleader] at hleader'
    cases hleader'
    refine ⟨?_, ?_, fun _ => ⟨hsame.pid.trans hl, hsame.left.trans hstays, ?_⟩, fun he' => ?_⟩
    · show _ ∈ m.used
      rw [hsame.pid]
      exact hfine.used
    · intro _
      exact hsame.parent.trans (hfine.parent hl)
    · refine ⟨_, rfl, fun _ _ => ?_⟩
      exact ⟨φ', hnext _ φ' hleads, hfits'.cred, hfits'.pdeath, hfits'.cwd, hfits'.grouped,
        hfits'.safe⟩
    · rw [show m.execed = true from he'] at he
      cases he

theorem Core.orphaned (h : m.Core) (halive : m.prog.isSome = true) :
    m.orphaned.Core ∧ Steady m m.orphaned := by
  have hroot : m.root = m.pid := if_pos halive
  have hsteady : Steady m m.orphaned := by
    refine ⟨rfl, rfl, rfl, rfl, rfl, Or.inr rfl, id, Or.inl, id, fun q' hq' => ?_⟩
    obtain ⟨q, hq, rfl⟩ := List.mem_map.mp hq'
    refine ⟨q, hq, ?_, Or.inl ?_⟩
    · split <;> exact id
    · split
      · refine ⟨rfl, id, fun hkilled => ?_⟩
        show (q.killed || _) = true
        rw [hkilled, Bool.true_or]
      · exact ⟨rfl, id, id⟩
  refine ⟨h.steady hsteady ?_ (List.Subset.refl _) h.fresh h.leader_ne ?_
    (h.still_failed hsteady rfl rfl) (fun hpipe => hsteady.settled (h.closed hpipe)), hsteady⟩
  · refine Forest.adopt (hroot ▸ h.forest) (fun q _ => ?_) fun q hq heq => ?_
    · split <;> exact ⟨rfl, rfl, rfl⟩
    · obtain ⟨l, command, _, hfine⟩ := h.started hq
      exact h.fresh.2 ((show q.pid = 1 from heq) ▸ hfine.used)
  · intro l command hleader q' hq'
    obtain ⟨q, hq, rfl⟩ := List.mem_map.mp hq'
    exact (h.fine l command hleader q hq).orphan halive

/-- A process that has exited has been waited for. -/
theorem Core.reap (h : m.Core) {pid : Nat} (hzombie : ∀ p ∈ m.procs, p.pid = pid → p.zombie = true) :
    Core { m with procs := m.procs.reap pid } ∧ Steady m { m with procs := m.procs.reap pid } := by
  have hsteady : Steady m { m with procs := m.procs.reap pid } :=
    ⟨rfl, rfl, rfl, rfl, rfl, Or.inl rfl, id, Or.inl, id,
      fun p hp => ⟨p, (Table.mem_reap hp).1, id, Or.inl ⟨rfl, id, id⟩⟩⟩
  refine ⟨h.steady hsteady (h.forest.reap hzombie) (List.Subset.refl _) h.fresh h.leader_ne ?_
    (h.still_failed hsteady rfl rfl) (fun hpipe => hsteady.settled (h.closed hpipe)), hsteady⟩
  exact fun l command hleader p hp => h.fine l command hleader p (Table.mem_reap hp).1

/-- The same, for a process that was found. -/
theorem Core.reap_found (h : m.Core) (hp : p ∈ m.procs) (hzombie : p.zombie = true) :
    Core { m with procs := m.procs.reap p.pid } ∧
      Steady m { m with procs := m.procs.reap p.pid } := by
  apply h.reap
  intro q hq hpid
  rw [h.forest.unique hq hp hpid]
  exact hzombie

/-- Whatever happens besides the worker's next call. -/
theorem Core.others (h : m.Core) (a : PayAction) (ha : ∀ env, a ≠ .worker env) :
    (m.step a).Core ∧ Steady m (m.step a) := by
  have hsame : m.Core ∧ Steady m m := ⟨h, Steady.refl m⟩
  cases a with
  | worker env => exact absurd rfl (ha env)
  | child env =>
      rw [step]
      cases hrunning : m.leader.bind fun leader => m.running leader.1 with
      | none => exact hsame
      | some p =>
          obtain ⟨leader, _, hfound⟩ := Option.bind_eq_some_iff.mp hrunning
          obtain ⟨hp, _, hlive⟩ := running_spec hfound
          cases hprog : p.data.prog with
          | none => simpa only [hprog] using hsame
          | some prog =>
              cases prog with
              | call u c k => simpa only [hprog] using h.childStep hp hlive hprog (env c)
              | ret u r =>
                  cases r with
                  | ok u => simpa only [hprog] using hsame
                  | error e =>
                      have he : m.execed = false := by
                        apply h.not_execed hp
                        rw [hprog]
                        nofun
                      simp only [hprog]
                      exact h.exits hp (Table.mayInherit_root _ _ _) (.failed e) (Or.inr he)
  | user pid c =>
      rw [step]
      cases hrunning : m.running pid with
      | none => exact hsame
      | some p =>
          obtain ⟨hp, _, hlive⟩ := running_spec hrunning
          by_cases hprog : p.data.prog.isNone = true
          · simp only [hprog, if_true]
            exact h.userStep hp hlive (Option.isNone_iff_eq_none.mp hprog) c
          · simp only [hprog]
            exact hsame
  | exit pid heir =>
      rw [step]
      cases hfound : m.procs.find? fun p => p.pid = pid && !p.zombie with
      | none => exact hsame
      | some p =>
          have hp := List.mem_of_find?_eq_some hfound
          have hpid := List.find?_some hfound
          simp only [Bool.and_eq_true, decide_eq_true_eq] at hpid
          obtain ⟨rfl, _⟩ := hpid
          by_cases hheir : m.procs.mayInherit m.root p.pid heir = true
          · simp only [hheir, if_true]
            apply h.exits hp hheir
            cases hprog : p.data.prog with
            | none => exact Or.inl rfl
            | some prog =>
                apply Or.inr
                apply h.not_execed hp
                rw [hprog]
                nofun
          · simp only [hheir]
            exact hsame
  | reap pid =>
      rw [step]
      cases hfound : m.procs.find? fun p => p.pid = pid && p.zombie with
      | none => exact hsame
      | some p =>
          have hp := List.mem_of_find?_eq_some hfound
          have hpid := List.find?_some hfound
          simp only [Bool.and_eq_true, decide_eq_true_eq] at hpid
          obtain ⟨rfl, hzombie⟩ := hpid
          simp only []
          split
          · exact hsame
          · exact h.reap_found hp hzombie
  | kill pid => exact h.kill pid
  | workerDies =>
      rw [step]
      by_cases halive : m.prog.isSome = true
      · rw [if_pos halive]
        exact h.orphaned halive
      · rw [if_neg halive]
        exact hsame

end Payload

end Xlurm
