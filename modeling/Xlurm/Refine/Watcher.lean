/-
  Xlurm.Refine.Watcher

  What a worker has ensured of its payload, in every run.

  `Duty.Fits` says what the steps of the worker's discipline mean in the table of
  processes; every call of the worker leads to its next duty, and what the others do
  takes nothing back.
-/

import Xlurm.Refine.Group

namespace Xlurm

open Unix (Cred Table Forest)

variable {p q : Unix.Proc Image} {m m' : Payload} {l : Nat} {command : Command} {ψ : Duty}

/-! ## The calls of the worker -/

/-- What the worker has ensured. -/
def Duty.Fits (φ : Duty) (m : Payload) : Prop :=
  match φ with
  | idle job found => m.leader = none ∧ m.job = job ∧ m.found = found
  | forked command => ∃ l, m.leader = some (l, command)
  | watching command => ∃ l, m.leader = some (l, command) ∧ m.Settled
  | killed command => ∃ l, m.leader = some (l, command) ∧ m.Settled ∧ m.Doomed
  | waited command => ∃ l, m.leader = some (l, command) ∧ m.Settled ∧ m.Doomed ∧
      ∀ p ∈ m.procs, p.pid ≠ l
  | clear command => ∃ l, m.leader = some (l, command) ∧ m.Doomed ∧
      (m.left = false → m.procs = [])

/-- It stays ensured while the worker does nothing. -/
theorem Duty.Fits.steady (h : ψ.Fits m) (hcore : m.Core) (hsteady : m.Steady m') : ψ.Fits m' := by
  cases ψ with
  | idle job found =>
      exact ⟨hsteady.leader.trans h.1, hsteady.job.trans h.2.1, hsteady.found.trans h.2.2⟩
  | forked command =>
      obtain ⟨l, hl⟩ := h
      exact ⟨l, hsteady.leader.trans hl⟩
  | watching command =>
      obtain ⟨l, hl, hsettled⟩ := h
      exact ⟨l, hsteady.leader.trans hl, hsteady.settled hsettled⟩
  | killed command =>
      obtain ⟨l, hl, hsettled, hdoomed⟩ := h
      exact ⟨l, hsteady.leader.trans hl, hsteady.settled hsettled, hsteady.doomed hdoomed⟩
  | waited command =>
      obtain ⟨l, hl, hsettled, hdoomed, hgone⟩ := h
      exact ⟨l, hsteady.leader.trans hl, hsteady.settled hsettled, hsteady.doomed hdoomed,
        hsteady.gone (hcore.leader l command hl).1 hgone⟩
  | clear command =>
      obtain ⟨l, hl, hdoomed, hempty⟩ := h
      exact ⟨l, hsteady.leader.trans hl, hsteady.doomed hdoomed, hsteady.empty hempty⟩

theorem Duty.Watches.fits (hwatches : ψ.Watches) (h : ψ.Fits m) : ∃ l command,
    m.leader = some (l, command) ∧ m.Settled ∧ ψ.kill = .killed command := by
  cases ψ with
  | watching command =>
      obtain ⟨l, hl, hsettled⟩ := h
      exact ⟨l, command, hl, hsettled, rfl⟩
  | killed command =>
      obtain ⟨l, hl, hsettled, _⟩ := h
      exact ⟨l, command, hl, hsettled, rfl⟩
  | _ => cases hwatches

namespace Payload

theorem Core.killGroup (h : m.Core) (group : Nat) :
    Core { m with procs := m.procs.killGroup group } ∧
      Steady m { m with procs := m.procs.killGroup group } := by
  have hsteady : Steady m { m with procs := m.procs.killGroup group } := by
    refine ⟨rfl, rfl, rfl, rfl, rfl, Or.inl rfl, id, Or.inl, id, fun p' hp' => ?_⟩
    obtain ⟨p, hp, heq, hkilled, _⟩ := Table.mem_killGroup hp'
    refine ⟨p, hp, ?_, Or.inl ⟨?_, ?_, hkilled⟩⟩ <;> rw [heq] <;> exact id
  refine ⟨h.steady hsteady (h.forest.killGroup group) (List.Subset.refl _) h.fresh h.leader_ne ?_
    (h.still_failed hsteady rfl rfl) (fun hpipe => hsteady.settled (h.closed hpipe)), hsteady⟩
  intro l command hleader p' hp'
  obtain ⟨p, hp, heq, hkilled, _⟩ := Table.mem_killGroup hp'
  rw [heq]
  exact (h.fine l command hleader p hp).kill hkilled

/-- SIGKILL to the group of the payload reaches whatever has stayed in it. -/
theorem Core.killGroup_doomed (h : m.Core) (hleader : m.leader = some (l, command))
    (hsettled : m.Settled) : Doomed { m with procs := m.procs.killGroup l } := by
  intro p' hp' hstays
  obtain ⟨p, hp, heq, _, hgroup⟩ := Table.mem_killGroup hp'
  rcases hsettled with he | hzombies
  · apply Or.inl
    apply hgroup
    apply ((h.fine l command hleader p hp).late he).group
    rw [heq] at hstays
    exact hstays
  · apply Or.inr
    rw [heq]
    exact hzombies p hp

/-- The worker starts the new process. -/
theorem Core.fork (h : m.Core) (halive : m.prog.isSome = true) (hidle : m.leader = none)
    (hallowed : command.Allowed m.cred) (hjob : ∃ job, m.job = some job ∧ command.For job m.found)
    {pid : Nat} (hfree : m.freePid pid = true) :
    Core { m.forked
        { pid, parent := m.pid, group := m.pid, killed := false, zombie := false
          data := { cred := m.cred, pdeath := none, cwd := none
                    prog := some (childProg command m.pid ())
                    detached := false, left := false } } with
      leader := some (pid, command)
      pipe := .open } := by
  obtain ⟨hnil, he⟩ := h.idle hidle
  have hroot : m.root = m.pid := if_pos halive
  simp only [freePid, Bool.and_eq_true, decide_eq_true_eq] at hfree
  obtain ⟨⟨_, hworker⟩, hinit⟩ := hfree
  refine ⟨h.own, h.pid, ?_, ?_, (by rintro ⟨⟩), ?_, ?_, ?_, (by rintro ⟨⟩)⟩
  · exact ⟨List.not_mem_cons_of_ne_of_not_mem (Ne.symm hworker) h.fresh.1,
      List.not_mem_cons_of_ne_of_not_mem (Ne.symm hinit) h.fresh.2⟩
  · refine h.forest.fork (Or.inl hroot.symm) (hroot ▸ hworker) fun q hq => ?_
    rw [hnil] at hq
    cases hq
  · rintro _ _ ⟨⟩
    exact ⟨List.mem_cons_self, hallowed, hjob⟩
  · rintro _ _ ⟨⟩ q hq
    rcases List.mem_cons.mp hq with rfl | hq
    · refine ⟨List.mem_cons_self, fun _ => hroot.symm, fun _ => ⟨rfl, rfl, _, rfl, fun _ _ => ?_⟩,
        fun he' => ?_⟩
      · refine ⟨Birth.first m.cred, childProg_wp hallowed, rfl, rfl, rfl, ?_, ?_⟩
        · rintro ⟨⟩
        · rintro ⟨⟩
      · rw [show m.execed = true from he'] at he
        cases he
    · rw [hnil] at hq
      cases hq
  · rintro _ ⟨⟩

/-- When the worker has nobody left to wait for, nobody is left, if none has left the group. -/
theorem Core.nobody (h : m.Core) (halive : m.prog.isSome = true)
    (hleader : m.leader = some (l, command)) (hgone : ∀ p ∈ m.procs, p.pid ≠ l)
    (hnobody : m.waitable l = []) (hleft : m.left = false) : m.procs = [] := by
  have hroot : m.root = m.pid := if_pos halive
  apply h.forest.eq_nil
  intro p hp hchild
  have hfine := h.fine l command hleader p hp
  cases he : m.execed with
  | false => exact hgone p hp (hfine.early he).leader
  | true =>
      have hlate := hfine.late he
      have hmem : p ∈ m.waitable l := by
        refine List.mem_filter.mpr ⟨hp, ?_⟩
        rw [hchild.trans hroot, hlate.group (hlate.stays hleft)]
        simp [setting]
      rw [hnobody] at hmem
      cases hmem

/-- The process that was started, if it is still in the table. -/
theorem find_spec {pid : Nat} (h : m.procs.find? (·.pid = pid) = some p) :
    p ∈ m.procs ∧ p.pid = pid := by
  have hpid := List.find?_some h
  exact ⟨List.mem_of_find?_eq_some h, of_decide_eq_true hpid⟩

theorem awaitExec_spec {raw : PayCall.awaitExec.Raw} {r : Except Error Unit}
    (hexec : PayCall.awaitExec.exec m raw = some (r, m')) :
    (m.pipe = .closed ∧ r = .ok () ∧ m' = m) ∨
      ∃ e l command, m.pipe = .failed e ∧ m.leader = some (l, command) ∧ r = .error e ∧
        m' = { m with procs := m.procs.reap l } := by
  simp only [PayCall.exec] at hexec
  split at hexec
  · cases hexec
    exact Or.inl ⟨‹_›, rfl, rfl⟩
  · split at hexec
    · cases hexec
      exact Or.inr ⟨_, _, _, ‹_›, ‹_›, rfl, rfl⟩
    · cases hexec
  · cases hexec

/-- Waiting for a process takes it out of the table, if it has exited. -/
theorem tryWait_spec {raw : PayCall.tryWait.Raw} {r : Except Error (Option ExitStatus)}
    (hexec : PayCall.tryWait.exec m raw = some (r, m')) :
    m' = m ∨ ∃ p ∈ m.procs, p.zombie = true ∧ m' = { m with procs := m.procs.reap p.pid } := by
  simp only [PayCall.exec] at hexec
  split at hexec
  · cases hexec
    exact Or.inl rfl
  · split at hexec
    · cases hexec
      exact Or.inl rfl
    · obtain ⟨hp, rfl⟩ := find_spec ‹_›
      split at hexec
      · cases hexec
        exact Or.inr ⟨_, hp, ‹_›, rfl⟩
      · cases hexec
        exact Or.inl rfl
  · cases hexec

theorem wait_spec {raw : PayCall.wait.Raw} {r : Unit}
    (hexec : PayCall.wait.exec m raw = some (r, m')) : ∃ l command, m.leader = some (l, command) ∧
      ((m' = m ∧ ∀ p ∈ m.procs, p.pid ≠ l) ∨
        ∃ p ∈ m.procs, p.pid = l ∧ p.zombie = true ∧ m' = { m with procs := m.procs.reap l }) := by
  simp only [PayCall.exec] at hexec
  split at hexec
  · cases hexec
  · split at hexec
    · cases hexec
      refine ⟨_, _, ‹_›, Or.inl ⟨rfl, fun p hp heq => ?_⟩⟩
      have hnone := List.find?_eq_none.mp ‹_› p hp
      exact hnone (decide_eq_true heq)
    · obtain ⟨hp, rfl⟩ := find_spec ‹_›
      split at hexec
      · cases hexec
        exact ⟨_, _, ‹_›, Or.inr ⟨_, hp, rfl, ‹_›, rfl⟩⟩
      · cases hexec

theorem waitGroup_spec {raw : PayCall.waitGroup.Raw} {r : Waited}
    (hexec : PayCall.waitGroup.exec m raw = some (r, m')) :
    ∃ l command, m.leader = some (l, command) ∧
      ((r = .interrupted ∧ m' = m) ∨ (r = .nobody ∧ m.waitable l = [] ∧ m' = m) ∨
        ∃ p ∈ m.procs, p.zombie = true ∧ r = .child ∧
          m' = { m with procs := m.procs.reap p.pid }) := by
  simp only [PayCall.exec] at hexec
  split at hexec
  · cases hexec
  · split at hexec
    · cases hexec
      exact ⟨_, _, ‹_›, Or.inl ⟨rfl, rfl⟩⟩
    · split at hexec
      · cases hexec
        exact ⟨_, _, ‹_›, Or.inr (Or.inl ⟨rfl, ‹_›, rfl⟩)⟩
      · split at hexec
        · cases hexec
          have hfound := List.mem_of_find?_eq_some ‹_›
          exact ⟨_, _, ‹_›, Or.inr (Or.inr ⟨_, (List.mem_filter.mp hfound).1,
            List.find?_some ‹_›, rfl, rfl⟩)⟩
        · cases hexec

theorem Core.exec_wait (h : m.Core) (hl : m.leader = some (l, command)) (hsettled : m.Settled)
    (hdoomed : m.Doomed) {raw : PayCall.wait.Raw} {r : Unit}
    (hexec : PayCall.wait.exec m raw = some (r, m')) :
    (m'.Core ∧ m'.cred = m.cred ∧ m'.prog = m.prog) ∧ (Duty.waited command).Fits m' := by
  obtain ⟨l', command', hl', hcases⟩ := wait_spec hexec
  rw [hl] at hl'
  cases hl'
  rcases hcases with ⟨rfl, hgone⟩ | ⟨p, hp, rfl, hzombie, rfl⟩
  · exact ⟨⟨h, rfl, rfl⟩, l, hl, hsettled, hdoomed, hgone⟩
  · obtain ⟨hcore, hsteady⟩ := h.reap_found hp hzombie
    exact ⟨⟨hcore, rfl, rfl⟩, _, hl, hsteady.settled hsettled, hsteady.doomed hdoomed,
      fun q hq => (Table.mem_reap hq).2⟩

theorem Core.exec_awaitExec (h : m.Core) (hl : m.leader = some (l, command))
    {raw : PayCall.awaitExec.Raw} {r : Except Error Unit}
    (hexec : PayCall.awaitExec.exec m raw = some (r, m')) :
    (m'.Core ∧ m'.cred = m.cred ∧ m'.prog = m.prog) ∧
      (if r = .ok () then Duty.watching command else .clear command).Fits m' := by
  rcases awaitExec_spec hexec with ⟨hpipe, rfl, rfl⟩ | ⟨e, l', command', hpipe, hl', rfl, rfl⟩
  · exact ⟨⟨h, rfl, rfl⟩, l, hl, h.closed hpipe⟩
  · rw [hl] at hl'
    cases hl'
    obtain ⟨he, hzombies⟩ := h.failed e hpipe
    have hzombie : ∀ q ∈ m.procs, q.pid = l → q.zombie = true := fun q hq _ => hzombies q hq
    obtain ⟨hcore, _⟩ := h.reap hzombie
    -- There was only the new process.
    have hnil : m.procs.reap l = [] := by
      apply List.filter_eq_nil_iff.mpr
      intro q hq hne
      rw [decide_eq_true_eq] at hne
      exact hne ((h.fine l command hl q hq).early he).leader
    refine ⟨⟨hcore, rfl, rfl⟩, l, hl, fun q hq => ?_, fun _ => hnil⟩
    rw [show _ = [] from hnil] at hq
    cases hq

theorem Core.exec_waitGroup (h : m.Core) (halive : m.prog.isSome = true)
    (hψ : (Duty.waited command).Fits m) {raw : PayCall.waitGroup.Raw} {r : Waited}
    (hexec : PayCall.waitGroup.exec m raw = some (r, m')) :
    (m'.Core ∧ m'.cred = m.cred ∧ m'.prog = m.prog) ∧
      (match r with
        | .nobody => Duty.clear command
        | .child | .interrupted => .waited command).Fits m' := by
  obtain ⟨l, hl, hsettled, hdoomed, hgone⟩ := hψ
  obtain ⟨l', command', hl', hcases⟩ := waitGroup_spec hexec
  rw [hl] at hl'
  cases hl'
  rcases hcases with ⟨rfl, rfl⟩ | ⟨rfl, hnobody, rfl⟩ | ⟨p, hp, hzombie, rfl, rfl⟩
  · exact ⟨⟨h, rfl, rfl⟩, l, hl, hsettled, hdoomed, hgone⟩
  · exact ⟨⟨h, rfl, rfl⟩, l, hl, hdoomed, h.nobody halive hl hgone hnobody⟩
  · obtain ⟨hcore, hsteady⟩ := h.reap_found hp hzombie
    exact ⟨⟨hcore, rfl, rfl⟩,
      Duty.Fits.steady (ψ := .waited command) ⟨l, hl, hsettled, hdoomed, hgone⟩ h hsteady⟩

theorem Core.exec_signal (h : m.Core) (hwatches : ψ.Watches) (hψ : ψ.Fits m) {sig : Nat}
    {raw : (PayCall.signal sig).Raw} {r : Unit}
    (hexec : (PayCall.signal sig).exec m raw = some (r, m')) :
    (m'.Core ∧ m'.cred = m.cred ∧ m'.prog = m.prog) ∧
      (if sig = sigkill then ψ.kill else ψ).Fits m' := by
  obtain ⟨l, command, hl, hsettled, hkill⟩ := hwatches.fits hψ
  simp only [PayCall.exec] at hexec
  split at hexec
  · cases hexec
  · rename_i pid command' hl'
    obtain ⟨rfl, rfl⟩ : pid = l ∧ command' = command := by
      rw [hl] at hl'
      cases hl'
      exact ⟨rfl, rfl⟩
    by_cases hsig : sig = sigkill
    · rw [if_pos hsig] at hexec
      cases hexec
      obtain ⟨hcore, hsteady⟩ := h.killGroup pid
      refine ⟨⟨hcore, rfl, rfl⟩, ?_⟩
      rw [if_pos hsig, hkill]
      exact ⟨pid, hl, hsteady.settled hsettled, h.killGroup_doomed hl hsettled⟩
    · rw [if_neg hsig] at hexec
      cases hexec
      rw [if_neg hsig]
      exact ⟨⟨h, rfl, rfl⟩, hψ⟩

/-- What the worker learns before it starts the payload. -/
theorem Core.learns (h : m.Core) (hidle : m.leader = none) (job : Option Job)
    (found : Option (Owner × List Nat)) : Core { m with job, found } := by
  refine ⟨h.own, h.pid, h.fresh, h.forest, h.idle, ?_, h.fine, h.failed, h.closed⟩
  intro l command hleader
  rw [show m.leader = _ from hleader] at hidle
  cases hidle

/-- A call that is not about the payload. -/
theorem Core.exec_sys (h : m.Core) (hψ : ψ.Fits m) (c : Sys) (raw : c.Reply) :
    (PayCall.learn m c raw).Core ∧ (PayCall.learn m c raw).cred = m.cred ∧
      (PayCall.learn m c raw).prog = m.prog ∧
      ∃ ψ', (PayCall.sys c).Leads m.cred ψ (PayCall.answer m c raw) ψ' ∧
        ψ'.Fits (PayCall.learn m c raw) := by
  cases c with
  | ask question =>
      cases question with
      | geteuid | getegid => exact ⟨h, rfl, rfl, ψ, ⟨rfl, rfl⟩, hψ⟩
      | groups owner =>
          cases raw with
          | error e => exact ⟨h, rfl, rfl, ψ, rfl, hψ⟩
          | ok groups =>
              by_cases hidle : m.leader = none
              · rw [PayCall.learn, if_pos (Option.isNone_iff_eq_none.mpr hidle)]
                refine ⟨h.learns hidle _ _, rfl, rfl, ψ.finds owner groups, rfl, ?_⟩
                cases ψ with
                | idle job found => exact ⟨hidle, hψ.2.1, rfl⟩
                | _ => exact hψ
              · rw [PayCall.learn, if_neg (mt Option.isNone_iff_eq_none.mp hidle)]
                refine ⟨h, rfl, rfl, ψ.finds owner groups, rfl, ?_⟩
                cases ψ with
                | idle job found => exact absurd hψ.1 hidle
                | _ => exact hψ
      | _ => exact ⟨h, rfl, rfl, ψ, rfl, hψ⟩
  | read path =>
      cases raw with
      | error e => exact ⟨h, rfl, rfl, ψ, rfl, hψ⟩
      | ok data =>
          by_cases hidle : m.leader = none
          · rw [PayCall.learn, if_pos (Option.isNone_iff_eq_none.mpr hidle)]
            refine ⟨h.learns hidle _ _, rfl, rfl, ψ.reads data, rfl, ?_⟩
            cases ψ with
            | idle job found => exact ⟨hidle, rfl, hψ.2.2⟩
            | _ => exact hψ
          · rw [PayCall.learn, if_neg (mt Option.isNone_iff_eq_none.mp hidle)]
            refine ⟨h, rfl, rfl, ψ.reads data, rfl, ?_⟩
            cases ψ with
            | idle job found => exact absurd hψ.1 hidle
            | _ => exact hψ
  | _ => exact ⟨h, rfl, rfl, ψ, rfl, hψ⟩

/-- One call of the worker. -/
theorem Core.exec (h : m.Core) (halive : m.prog.isSome = true) (hψ : ψ.Fits m) (c : PayCall)
    (hneeds : c.Needs m.cred ψ) (raw : c.Raw) {r : c.Reply} (hexec : c.exec m raw = some (r, m')) :
    (m'.Core ∧ m'.cred = m.cred ∧ m'.prog = m.prog) ∧ ∃ ψ', c.Leads m.cred ψ r ψ' ∧ ψ'.Fits m' := by
  cases c with
  | fork command =>
      obtain ⟨job, found, rfl, hfor, hallowed⟩ := hneeds
      cases raw with
      | error e =>
          cases hexec
          exact ⟨⟨h, rfl, rfl⟩, _, rfl, hψ⟩
      | ok pid =>
          simp only [PayCall.exec] at hexec
          split at hexec
          · cases hexec
            obtain ⟨hidle, hjob, rfl⟩ := hψ
            exact ⟨⟨h.fork halive hidle hallowed ⟨job, hjob, hfor⟩ ‹_›, rfl, rfl⟩, .forked command,
              rfl, pid, rfl⟩
          · cases hexec
  | awaitExec =>
      obtain ⟨command, rfl⟩ := hneeds
      obtain ⟨l, hl⟩ := hψ
      obtain ⟨hcore, hfits⟩ := h.exec_awaitExec hl hexec
      exact ⟨hcore, _, ⟨command, rfl, rfl⟩, hfits⟩
  | tryWait =>
      rcases tryWait_spec hexec with rfl | ⟨p, hp, hzombie, rfl⟩
      · exact ⟨⟨h, rfl, rfl⟩, ψ, rfl, hψ⟩
      · obtain ⟨hcore, hsteady⟩ := h.reap_found hp hzombie
        exact ⟨⟨hcore, rfl, rfl⟩, ψ, rfl, hψ.steady h hsteady⟩
  | signal sig =>
      obtain ⟨hcore, hfits⟩ := h.exec_signal hneeds hψ hexec
      exact ⟨hcore, _, rfl, hfits⟩
  | wait =>
      obtain ⟨command, rfl⟩ := hneeds
      obtain ⟨l, hl, hsettled, hdoomed⟩ := hψ
      obtain ⟨hcore, hfits⟩ := h.exec_wait hl hsettled hdoomed hexec
      exact ⟨hcore, _, ⟨command, rfl, rfl⟩, hfits⟩
  | waitGroup =>
      obtain ⟨command, rfl⟩ := hneeds
      obtain ⟨hcore, hfits⟩ := h.exec_waitGroup halive hψ hexec
      exact ⟨hcore, _, ⟨command, rfl, rfl⟩, hfits⟩
  | sys c =>
      obtain ⟨r', _, hr⟩ := Option.map_eq_some_iff.mp hexec
      cases hr
      obtain ⟨hcore, hcred, hprog, hleads⟩ := h.exec_sys hψ c r'
      exact ⟨⟨hcore, hcred, hprog⟩, hleads⟩

/-! ## Runs -/

/-- The worker keeps its discipline. -/
def Keeps (m : Payload) : Prop :=
  ∀ prog, m.prog = some prog → ∃ ψ, prog.Safe (duty (Unit × Unit) m.cred) (fun _ _ φ => φ.Done) ψ ∧
    ψ.Fits m

theorem Core.next (h : m.Core) (halive : m.prog.isSome = true) (prog : WorkerProg) :
    Core { m with prog := some prog } := by
  have hsetting : ∀ l command,
      setting { m with prog := some prog } l command = m.setting l command := by
    intro l command
    simp only [setting, halive, Option.isSome_some]
  refine ⟨h.own, h.pid, h.fresh, ?_, h.idle, h.leader, ?_, h.failed, h.closed⟩
  · have hroot : m.root = m.pid := if_pos halive
    exact hroot ▸ h.forest
  · intro l command hleader
    rw [hsetting]
    exact h.fine l command hleader

theorem step_kept (h : m.Core) (hkeeps : m.Keeps) (a : PayAction) :
    (m.step a).Core ∧ (m.step a).Keeps ∧ (m.step a).cred = m.cred := by
  by_cases ha : ∃ env, a = .worker env
  · obtain ⟨env, rfl⟩ := ha
    cases hprog : m.prog with
    | none => simpa only [step, hprog] using ⟨h, hkeeps, trivial⟩
    | some prog =>
        cases prog with
        | ret s r => simpa only [step, hprog] using ⟨h, hkeeps, trivial⟩
        | call s c k =>
            obtain ⟨ψ, ⟨hneeds, hnext⟩, hψ⟩ := hkeeps _ hprog
            have halive : m.prog.isSome = true := by
              rw [hprog]
              rfl
            simp only [step, hprog]
            cases hexec : c.exec m (env c) with
            | none => exact ⟨h, hkeeps, rfl⟩
            | some next =>
                obtain ⟨r, m'⟩ := next
                obtain ⟨⟨hcore, hcred, hsame⟩, ψ', hleads, hψ'⟩ :=
                  h.exec halive hψ c hneeds (env c) hexec
                refine ⟨hcore.next (hsame ▸ halive) (k r), ?_, hcred⟩
                rintro _ ⟨⟩
                refine ⟨ψ', ?_, ?_⟩
                · show (k r).Safe (duty (Unit × Unit) m'.cred) _ ψ'
                  rw [hcred]
                  exact hnext r ψ' hleads
                · cases ψ' <;> exact hψ'
  · obtain ⟨hcore, hsteady⟩ := h.others a fun env heq => ha ⟨env, heq⟩
    refine ⟨hcore, fun prog hprog => ?_, hsteady.cred⟩
    rcases hsteady.prog with hsame | hgone
    · obtain ⟨ψ, hsafe, hψ⟩ := hkeeps prog (hsame.symm.trans hprog)
      rw [hsteady.cred]
      exact ⟨ψ, hsafe, hψ.steady h hsteady⟩
    · rw [hgone] at hprog
      cases hprog

theorem run_kept (h : m.Core) (hkeeps : m.Keeps) (actions : List PayAction) :
    (m.run actions).Core ∧ (m.run actions).Keeps ∧ (m.run actions).cred = m.cred := by
  induction actions generalizing m with
  | nil => exact ⟨h, hkeeps, rfl⟩
  | cons a rest ih =>
      obtain ⟨hcore, hkeeps', hcred⟩ := step_kept h hkeeps a
      obtain ⟨hcore', hkeeps'', hcred'⟩ := ih hcore hkeeps'
      exact ⟨hcore', hkeeps'', hcred'.trans hcred⟩

theorem init_kept (uid gid : Nat) (groups : List Nat) (fuel id : Nat) {pid : Nat} (hpid : pid ≠ 1)
    (actions : List PayAction) : ((init pid uid gid groups fuel id).run actions).Core ∧
      ((init pid uid gid groups fuel id).run actions).Keeps ∧
      ((init pid uid gid groups fuel id).run actions).cred = Cred.of uid gid groups false := by
  apply run_kept (Core.init pid uid gid groups fuel id hpid)
  rintro _ ⟨⟩
  exact ⟨.idle none none, workerProg_duty pid fuel id, rfl, rfl, rfl⟩

/-- The worker makes no more calls. -/
def Over (m : Payload) : Prop := ∀ s c k, m.prog ≠ some (.call s c k)

/-- What the others keep, they keep for ever once the worker is done. -/
theorem Over.run {P : Payload → Prop} (hP : ∀ m m' : Payload, Steady m m' → P m → P m')
    (hover : m.Over) (h : m.Core) (hm : P m) (actions : List PayAction) : P (m.run actions) := by
  induction actions generalizing m with
  | nil => exact hm
  | cons a rest ih =>
      have hnext : (m.step a).Over ∧ (m.step a).Core ∧ P (m.step a) := by
        by_cases ha : ∃ env, a = .worker env
        · obtain ⟨env, rfl⟩ := ha
          have hsame : m.step (.worker env) = m := by
            rw [step]
            split
            · exact absurd ‹_› (hover _ _ _)
            · rfl
          rw [hsame]
          exact ⟨hover, h, hm⟩
        · obtain ⟨hcore, hsteady⟩ := h.others a fun env heq => ha ⟨env, heq⟩
          refine ⟨fun s c k hprog => ?_, hcore, hP _ _ hsteady hm⟩
          rcases hsteady.prog with hsame | hgone
          · exact hover s c k (hsame.symm.trans hprog)
          · rw [hgone] at hprog
            cases hprog
      exact ih hnext.1 hnext.2.1 hnext.2.2

/-- Where nothing of the payload may run. -/
theorem Core.done (h : m.Core) (hdone : ψ.Done) (hψ : ψ.Fits m) :
    m.Doomed ∧ (m.left = false → m.procs = []) := by
  cases ψ with
  | idle job found =>
      have hnil := (h.idle hψ.1).1
      refine ⟨fun p hp => ?_, fun _ => hnil⟩
      rw [hnil] at hp
      cases hp
  | clear command =>
      obtain ⟨l, _, hdoomed, hempty⟩ := hψ
      exact ⟨hdoomed, hempty⟩
  | _ => cases hdone

end Payload

end Xlurm
