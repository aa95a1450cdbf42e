/-
  Xlurm.Refine.Clients

  Every process of the machine keeps to the discipline of questions and answers.

  A connection that was accepted belongs to the process that accepted it, until it
  has been answered; a command waits for the answer to its own request.
-/

import Xlurm.Refine.Answers

namespace Xlurm

open Prog.Comp

variable {euid pid p : Nat} {m m' : Machine} {x x' : Nat → Option Nat} {φ : Hearing}

/-! ## Families -/

/-- Somebody was started by `p`, and `p` has not waited for it yet. -/
def Machine.HasChild (m : Machine) (p : Nat) : Prop := ∃ pr ∈ m.procs, pr.parent = some p

/-- Who waits for whom. -/
structure Machine.Family (m : Machine) : Prop where
  /-- Only a live process waits for a child. -/
  parents : ∀ pr ∈ m.procs, ∀ p, pr.parent = some p →
    ∃ q ∈ m.procs, q.pid = p ∧ q.exited = false
  /-- A process waits for at most one child. -/
  only : ∀ pr ∈ m.procs, ∀ pr' ∈ m.procs, ∀ p, pr.parent = some p → pr'.parent = some p →
    pr.pid = pr'.pid
  proper : ∀ pr ∈ m.procs, pr.parent ≠ some pr.pid

namespace Machine.Family

/-- A change of the processes that keeps what the family is about. -/
theorem map (h : m.Family) {f : Process → Process}
    (hf : ∀ pr, (f pr).pid = pr.pid ∧ (f pr).exited = pr.exited ∧ (f pr).parent = pr.parent) :
    Family { m with procs := m.procs.map f } ∧
      ∀ p, HasChild { m with procs := m.procs.map f } p ↔ m.HasChild p := by
  refine ⟨⟨?_, ?_, ?_⟩, fun p => ⟨?_, ?_⟩⟩
  · intro pr' hpr' p hp
    obtain ⟨pr, hpr, rfl⟩ := List.mem_map.mp hpr'
    obtain ⟨hpid, hexited, hparent⟩ := hf pr
    obtain ⟨q, hq, hqpid, hqlive⟩ := h.parents pr hpr p (hparent ▸ hp)
    exact ⟨f q, List.mem_map_of_mem hq, (hf q).1.trans hqpid, (hf q).2.1.trans hqlive⟩
  · intro pr₁ hpr₁ pr₂ hpr₂ p h₁ h₂
    obtain ⟨pr, hpr, rfl⟩ := List.mem_map.mp hpr₁
    obtain ⟨pr', hpr', rfl⟩ := List.mem_map.mp hpr₂
    rw [(hf pr).1, (hf pr').1]
    exact h.only pr hpr pr' hpr' p ((hf pr).2.2 ▸ h₁) ((hf pr').2.2 ▸ h₂)
  · intro pr' hpr'
    obtain ⟨pr, hpr, rfl⟩ := List.mem_map.mp hpr'
    rw [(hf pr).1, (hf pr).2.2]
    exact h.proper pr hpr
  · rintro ⟨pr', hpr', hp⟩
    obtain ⟨pr, hpr, rfl⟩ := List.mem_map.mp hpr'
    exact ⟨pr, hpr, (hf pr).2.2 ▸ hp⟩
  · rintro ⟨pr, hpr, hp⟩
    exact ⟨f pr, List.mem_map_of_mem hpr, (hf pr).2.2.trans hp⟩

theorem update (h : m.Family) (pid : Nat) (f : Process → Process)
    (hf : ∀ pr, (f pr).pid = pr.pid ∧ (f pr).exited = pr.exited ∧ (f pr).parent = pr.parent) :
    (m.update pid f).Family ∧ ∀ p, (m.update pid f).HasChild p ↔ m.HasChild p := by
  apply h.map
  intro pr
  split
  · exact hf pr
  · exact ⟨rfl, rfl, rfl⟩

/-- A new process, which may be the first child of a live one. -/
theorem spawned (h : m.Family) (euid uid gid fuel : Nat) (parent : Option Nat) (role : Role)
    (hfree : m.pidFree pid = true) (hparent : ∀ p, parent = some p →
      (∃ q ∈ m.procs, q.pid = p ∧ q.exited = false) ∧ ¬ m.HasChild p) :
    (m.spawned euid uid gid pid fuel parent role).Family ∧
      ∀ p, (m.spawned euid uid gid pid fuel parent role).HasChild p ↔
        parent = some p ∨ m.HasChild p := by
  refine ⟨⟨?_, ?_, ?_⟩, fun p => ⟨?_, ?_⟩⟩
  · intro pr hpr p hp
    have hlive : ∃ q ∈ m.procs, q.pid = p ∧ q.exited = false := by
      rcases List.mem_cons.mp hpr with rfl | hpr
      · exact (hparent p hp).1
      · exact h.parents pr hpr p hp
    obtain ⟨q, hq, hlive⟩ := hlive
    exact ⟨q, List.mem_cons_of_mem _ hq, hlive⟩
  · intro pr hpr pr' hpr' p hp hp'
    rcases List.mem_cons.mp hpr with rfl | hpr <;> rcases List.mem_cons.mp hpr' with rfl | hpr'
    · rfl
    · exact absurd ⟨pr', hpr', hp'⟩ (hparent p hp).2
    · exact absurd ⟨pr, hpr, hp⟩ (hparent p hp').2
    · exact h.only pr hpr pr' hpr' p hp hp'
  · intro pr hpr
    rcases List.mem_cons.mp hpr with rfl | hpr
    · intro hself
      obtain ⟨q, hq, hpid, _⟩ := (hparent _ hself).1
      exact (pidFree_spec hfree).2 q hq hpid
    · exact h.proper pr hpr
  · rintro ⟨pr, hpr, hp⟩
    rcases List.mem_cons.mp hpr with rfl | hpr
    · exact Or.inl hp
    · exact Or.inr ⟨pr, hpr, hp⟩
  · rintro (hp | ⟨pr, hpr, hp⟩)
    · exact ⟨_, List.mem_cons_self, hp⟩
    · exact ⟨pr, List.mem_cons_of_mem _ hpr, hp⟩

/-- Its parent has waited for the child. -/
theorem reaped (h : m.Family) (htable : m.Table) {child : Process} (hmem : child ∈ m.procs)
    (hchild : child.parent = some p) (hexited : child.exited = true) :
    (m.reaped child.pid).Family ∧ ¬ (m.reaped child.pid).HasChild p ∧
      ∀ q, q ≠ p → ((m.reaped child.pid).HasChild q ↔ m.HasChild q) := by
  have hstays : ∀ pr ∈ m.procs, pr.pid ≠ child.pid → pr ∈ (m.reaped child.pid).procs :=
    fun pr hpr hne => List.mem_filter.mpr ⟨hpr, decide_eq_true hne⟩
  have hwas : ∀ pr ∈ (m.reaped child.pid).procs, pr ∈ m.procs ∧ pr.pid ≠ child.pid := by
    intro pr hpr
    obtain ⟨hpr, hne⟩ := List.mem_filter.mp hpr
    exact ⟨hpr, of_decide_eq_true hne⟩
  refine ⟨⟨?_, ?_, ?_⟩, ?_, fun q hq => ⟨?_, ?_⟩⟩
  · intro pr hpr q hq
    obtain ⟨parent, hparent, hpid, hlive⟩ := h.parents pr (hwas pr hpr).1 q hq
    refine ⟨parent, hstays parent hparent ?_, hpid, hlive⟩
    intro heq
    rw [htable.unique hparent hmem heq, hexited] at hlive
    cases hlive
  · exact fun pr hpr pr' hpr' => h.only pr (hwas pr hpr).1 pr' (hwas pr' hpr').1
  · exact fun pr hpr => h.proper pr (hwas pr hpr).1
  · rintro ⟨pr, hpr, hp⟩
    exact (hwas pr hpr).2 (h.only pr (hwas pr hpr).1 child hmem p hp hchild)
  · rintro ⟨pr, hpr, hp⟩
    exact ⟨pr, (hwas pr hpr).1, hp⟩
  · rintro ⟨pr, hpr, hp⟩
    refine ⟨pr, hstays pr hpr ?_, hp⟩
    intro heq
    rw [htable.unique hpr hmem heq, hchild] at hp
    exact hq (Option.some.inj hp).symm

/-- The end of a process: its children have no parent any more. -/
theorem exit (h : m.Family) (pid : Nat) :
    (m.exit pid).Family ∧ ∀ q, q ≠ pid → ((m.exit pid).HasChild q ↔ m.HasChild q) := by
  have hwas : ∀ pr' ∈ (m.exit pid).procs, ∀ q, pr'.parent = some q →
      q ≠ pid ∧ ∃ pr ∈ m.procs, pr.parent = some q ∧ pr.pid = pr'.pid := by
    intro pr' hpr' q hq
    obtain ⟨pr, hpr, hafter⟩ := Machine.mem_exit.mp hpr'
    have hpid := congrArg Process.pid (afterExit_spec hafter).1
    by_cases heq : pr.pid = pid
    · -- Its own parent has not ended.
      have hsame : pr.parent = some q := by
        rw [← hq]
        unfold afterExit at hafter
        rw [if_pos heq] at hafter
        split at hafter <;> cases hafter
        rfl
      refine ⟨?_, pr, hpr, hsame, hpid.symm⟩
      rintro rfl
      exact h.proper pr hpr (heq ▸ hsame)
    · have hother : pr.parent = some q ∧ q ≠ pid := by
        unfold afterExit at hafter
        rw [if_neg heq] at hafter
        split at hafter
        · split at hafter <;> cases hafter
          cases hq
        · cases hafter
          refine ⟨hq, ?_⟩
          rintro rfl
          exact absurd hq ‹_›
      exact ⟨hother.2, pr, hpr, hother.1, hpid.symm⟩
  refine ⟨⟨?_, ?_, ?_⟩, fun q hq => ⟨?_, ?_⟩⟩
  · intro pr' hpr' q hq
    obtain ⟨hne, pr, hpr, hparent, _⟩ := hwas pr' hpr' q hq
    obtain ⟨parent, hmem, rfl, hlive⟩ := h.parents pr hpr q hparent
    obtain ⟨parent', hafter, hpid, hlive'⟩ := afterExit_live hne hlive
    exact ⟨parent', mem_exit.mpr ⟨parent, hmem, hafter⟩, hpid, hlive'⟩
  · intro pr₁ hpr₁ pr₂ hpr₂ q h₁ h₂
    obtain ⟨_, pr, hpr, hp, hpid⟩ := hwas pr₁ hpr₁ q h₁
    obtain ⟨_, pr', hpr', hp', hpid'⟩ := hwas pr₂ hpr₂ q h₂
    rw [← hpid, ← hpid']
    exact h.only pr hpr pr' hpr' q hp hp'
  · intro pr' hpr' hself
    obtain ⟨_, pr, hpr, hparent, hpid⟩ := hwas pr' hpr' _ hself
    exact h.proper pr hpr (hpid ▸ hparent)
  · rintro ⟨pr', hpr', hparent⟩
    obtain ⟨_, pr, hpr, hp, _⟩ := hwas pr' hpr' q hparent
    exact ⟨pr, hpr, hp⟩
  · rintro ⟨pr, hpr, hparent⟩
    by_cases heq : pr.pid = pid
    · exact ⟨{ pr with exited := true },
        mem_exit.mpr ⟨pr, hpr, by simp [afterExit, heq, hparent]⟩, hparent⟩
    · exact ⟨pr, mem_exit.mpr ⟨pr, hpr, by simp [afterExit, heq, hparent, hq]⟩, hparent⟩

end Machine.Family

/-! ## Answers -/

/-- The event number `n` records this answer; the oldest event has the number 0. -/
def World.Said (w : World) (n : Nat) (decision : Decision) : Prop :=
  ∃ entry, w.hist.reverse[n]? = some entry ∧ entry.event.decision = some decision

theorem World.Said.mono {w w' : World} {n : Nat} {decision : Decision} (h : w.Said n decision)
    (hhist : w.hist <:+ w'.hist) : w'.Said n decision := by
  obtain ⟨entry, hentry, hsaid⟩ := h
  obtain ⟨more, hmore⟩ := hhist
  refine ⟨entry, ?_, hsaid⟩
  rw [← hmore, List.reverse_append,
    List.getElem?_append_left (List.getElem?_eq_some_iff.mp hentry).1]
  exact hentry

/-- Where an answer comes from: it is an error of the connection, or the scheduler has given it to
    this user for this request, after the request had been read. -/
def SentAnswer.Source (a : SentAnswer) (conn : Conn) (w : World) : Prop :=
  (a.decided = none ∧ ∃ e, a.response = .error e) ∨
    ∃ n, a.decided = some n ∧ a.read ≤ n ∧
      w.Said n ⟨conn.uid, conn.gid, conn.request, a.response⟩

/-- The answers that were sent after the first `n`. -/
def Machine.answersSince (m : Machine) (n : Nat) : List SentAnswer :=
  m.answers.take (m.answers.length - n)

/-- The answer of a daemon to what a client has asked. -/
structure SentAnswer.Answers (a : SentAnswer) (c : Nat) (conn : Conn) (m : Machine) : Prop where
  number : a.conn = c
  request : a.request = conn.request
  later : conn.epoch ≤ a.epoch
  since : a ∈ m.answersSince conn.since
  source : a.Source conn m.world

/-- Answers are not taken back. -/
structure Machine.Grows (m m' : Machine) : Prop where
  answers : m.answers <:+ m'.answers
  hist : m.world.hist <:+ m'.world.hist

theorem Machine.Grows.answersSince (h : m.Grows m') {n : Nat} (hn : n ≤ m.answers.length) :
    m.answersSince n ⊆ m'.answersSince n := by
  obtain ⟨more, hmore⟩ := h.answers
  intro a ha
  have hlength : m'.answers.length - n = more.length + (m.answers.length - n) := by
    rw [← hmore, List.length_append]
    omega
  rw [Machine.answersSince, hlength, ← hmore, List.take_length_add_append]
  exact List.mem_append_right _ ha

theorem SentAnswer.Answers.mono {a : SentAnswer} {c : Nat} {conn : Conn} (h : a.Answers c conn m)
    (hgrows : m.Grows m') (hsince : conn.since ≤ m.answers.length) : a.Answers c conn m' :=
  ⟨h.number, h.request, h.later, hgrows.answersSince hsince h.since,
    h.source.imp_right fun ⟨n, hn, hread, hsaid⟩ => ⟨n, hn, hread, hsaid.mono hgrows.hist⟩⟩

/-! ## Connections -/

/-- What holds of the connections and the answers; `x` tells which process has accepted a
    connection. -/
structure Machine.Clients (x : Nat → Option Nat) (m : Machine) : Prop where
  conns : ∀ c conn, m.conns c = some conn → conn.epoch ≤ m.epoch ∧
    conn.since ≤ m.answers.length
  answer : ∀ c conn a, m.conns c = some conn → conn.answer = some a → a.Answers c conn m
  sent : ∀ a ∈ m.answers, a.epoch ≤ m.epoch ∧
    ∃ conn, m.conns a.conn = some conn ∧ conn.answer = some a
  /-- No connection is answered twice. -/
  once : (m.answers.map (·.conn)).Nodup
  backlog : m.backlog.Nodup
  queued : ∀ c ∈ m.backlog, c < m.made
  /-- Who waits has not been accepted. -/
  waits : ∀ c ∈ m.backlog, x c = none
  /-- Only who has been accepted is answered. -/
  accepted : ∀ a ∈ m.answers, x a.conn ≠ none
  made : ∀ c, x c ≠ none → c < m.made

namespace Machine.Clients

theorem init : Machine.init.Clients fun _ => none where
  conns := by rintro _ _ ⟨⟩
  answer := by rintro _ _ _ ⟨⟩
  sent := by rintro _ ⟨⟩
  once := List.nodup_nil
  backlog := List.nodup_nil
  queued := by rintro _ ⟨⟩
  waits := by rintro _ ⟨⟩
  accepted := by rintro _ ⟨⟩
  made c hc := absurd rfl hc

/-- What is not about connections. -/
theorem frame (h : m.Clients x) (hconns : m'.conns = m.conns) (hmade : m'.made = m.made)
    (hbacklog : m'.backlog = m.backlog) (hanswers : m'.answers = m.answers)
    (hepoch : m.epoch ≤ m'.epoch) (hhist : m.world.hist <:+ m'.world.hist) : m'.Clients x := by
  have hgrows : m.Grows m' := ⟨hanswers ▸ List.suffix_refl _, hhist⟩
  refine ⟨?_, ?_, ?_, ?_, ?_, ?_, ?_, ?_, ?_⟩
  · intro c conn hc
    rw [hconns] at hc
    rw [hanswers]
    exact ⟨Nat.le_trans (h.conns c conn hc).1 hepoch, (h.conns c conn hc).2⟩
  · intro c conn a hc ha
    rw [hconns] at hc
    exact (h.answer c conn a hc ha).mono hgrows (h.conns c conn hc).2
  · intro a ha
    rw [hanswers] at ha
    rw [hconns]
    exact ⟨Nat.le_trans (h.sent a ha).1 hepoch, (h.sent a ha).2⟩
  · rw [hanswers]
    exact h.once
  · rw [hbacklog]
    exact h.backlog
  · rw [hbacklog, hmade]
    exact h.queued
  · rw [hbacklog]
    exact h.waits
  · rw [hanswers]
    exact h.accepted
  · rw [hmade]
    exact h.made

/-- A new client. -/
theorem connected (h : m.Clients x) (uid gid l : Nat) (request : Request) :
    (m.connected uid gid l request).Clients x := by
  have hconns : ∀ c conn, (m.connected uid gid l request).conns c = some conn →
      conn = ⟨uid, gid, request, l, m.epoch, m.answers.length, none⟩ ∨ m.conns c = some conn := by
    intro c conn hc
    by_cases heq : c = m.made
    · subst heq
      simp only [Machine.connected, Function.update_self] at hc
      exact Or.inl (Option.some.inj hc).symm
    · simp only [Machine.connected, Function.update_of_ne heq] at hc
      exact Or.inr hc
  have hfresh : m.made ∉ m.backlog := fun hmem => Nat.lt_irrefl _ (h.queued _ hmem)
  refine ⟨?_, ?_, ?_, h.once, ?_, ?_, ?_, h.accepted, fun c hc => Nat.lt_succ_of_lt (h.made c hc)⟩
  · intro c conn hc
    rcases hconns c conn hc with rfl | hc
    · exact ⟨Nat.le_refl _, Nat.le_refl _⟩
    · exact h.conns c conn hc
  · intro c conn a hc ha
    rcases hconns c conn hc with rfl | hc
    · cases ha
    · exact (h.answer c conn a hc ha).mono ⟨List.suffix_refl _, List.suffix_refl _⟩
        (h.conns c conn hc).2
  · intro a ha
    obtain ⟨hepoch, hconn⟩ := h.sent a ha
    refine ⟨hepoch, ?_⟩
    have hne : a.conn ≠ m.made := Nat.ne_of_lt (h.made _ (h.accepted a ha))
    simp only [Machine.connected, Function.update_of_ne hne]
    exact hconn
  · show (m.backlog ++ [m.made]).Nodup
    rw [List.nodup_append]
    refine ⟨h.backlog, List.nodup_singleton _, ?_⟩
    rintro c hc _ hmade rfl
    rw [List.mem_singleton.mp hmade] at hc
    exact hfresh hc
  · intro c hc
    rcases List.mem_append.mp hc with hc | hc
    · exact Nat.lt_succ_of_lt (h.queued c hc)
    · rw [List.mem_singleton.mp hc]
      exact Nat.lt_succ_self _
  · intro c hc
    rcases List.mem_append.mp hc with hc | hc
    · exact h.waits c hc
    · rw [List.mem_singleton.mp hc]
      cases hx : x m.made with
      | none => rfl
      | some p => exact absurd (h.made _ (by simp [hx])) (Nat.lt_irrefl _)

/-- The process `p` accepts a client. -/
theorem accept (h : m.Clients x) {c : Nat} (hc : c ∈ m.backlog) (conn : Nat → Option Nat) :
    Clients (Function.update x c (some p)) { m with backlog := m.backlog.erase c, conn } := by
  have hne : ∀ c', x c' ≠ none → Function.update x c (some p) c' ≠ none := by
    intro c' hc'
    by_cases heq : c' = c
    · simp [heq]
    · rwa [Function.update_of_ne heq]
  refine ⟨h.conns, ?_, h.sent, h.once, h.backlog.erase c, ?_, ?_, ?_, ?_⟩
  · intro c' conn' a hc' ha
    exact (h.answer c' conn' a hc' ha).mono ⟨List.suffix_refl _, List.suffix_refl _⟩
      (h.conns c' conn' hc').2
  · exact fun c' hc' => h.queued c' (List.mem_of_mem_erase hc')
  · intro c' hc'
    rw [h.backlog.mem_erase_iff] at hc'
    rw [Function.update_of_ne hc'.1]
    exact h.waits c' hc'.2
  · exact fun a ha => hne _ (h.accepted a ha)
  · intro c' hc'
    by_cases heq : c' = c
    · exact heq ▸ h.queued c hc
    · rw [Function.update_of_ne heq] at hc'
      exact h.made c' hc'

/-- The process that has accepted a client answers it. -/
theorem answered (h : m.Clients x) {conn : Conn} {a : SentAnswer}
    (hconn : m.conns a.conn = some conn) (haccepted : x a.conn = some p)
    (hopen : ∀ a' ∈ m.answers, a'.conn ≠ a.conn) (hepoch : a.epoch = m.epoch)
    (hrequest : a.request = conn.request) (hsource : a.Source conn m.world) :
    (m.answered conn a).Clients x := by
  have hconns : ∀ c conn', (m.answered conn a).conns c = some conn' →
      (c = a.conn ∧ conn' = { conn with answer := some a }) ∨ m.conns c = some conn' := by
    intro c conn' hc
    by_cases heq : c = a.conn
    · subst heq
      simp only [Machine.answered, Function.update_self] at hc
      exact Or.inl ⟨rfl, (Option.some.inj hc).symm⟩
    · simp only [Machine.answered, Function.update_of_ne heq] at hc
      exact Or.inr hc
  have hgrows : m.Grows (m.answered conn a) := ⟨List.suffix_cons _ _, List.suffix_refl _⟩
  obtain ⟨hlater, hsince⟩ := h.conns a.conn conn hconn
  refine ⟨?_, ?_, ?_, ?_, h.backlog, h.queued, h.waits, ?_, h.made⟩
  · intro c conn' hc
    rcases hconns c conn' hc with ⟨_, rfl⟩ | hc
    · exact ⟨hlater, Nat.le_succ_of_le hsince⟩
    · exact ⟨(h.conns c conn' hc).1, Nat.le_succ_of_le (h.conns c conn' hc).2⟩
  · intro c conn' a' hc ha'
    rcases hconns c conn' hc with ⟨rfl, rfl⟩ | hc
    · cases ha'
      refine ⟨rfl, hrequest, hepoch ▸ hlater, ?_, hsource⟩
      -- The new answer is the newest one.
      show _ ∈ List.take (m.answers.length + 1 - conn.since) (_ :: m.answers)
      rw [Nat.succ_sub hsince, List.take_succ_cons]
      exact List.mem_cons_self
    · exact (h.answer c conn' a' hc ha').mono hgrows (h.conns c conn' hc).2
  · intro a' ha'
    rcases List.mem_cons.mp ha' with rfl | ha'
    · exact ⟨Nat.le_of_eq hepoch, _, Function.update_self _ _ _, rfl⟩
    · refine ⟨(h.sent a' ha').1, ?_⟩
      simp only [Machine.answered, Function.update_of_ne (hopen a' ha')]
      exact (h.sent a' ha').2
  · show (a.conn :: m.answers.map (·.conn)).Nodup
    apply List.nodup_cons.mpr ⟨?_, h.once⟩
    intro hmem
    obtain ⟨a', ha', heq⟩ := List.mem_map.mp hmem
    exact hopen a' ha' heq
  · intro a' ha'
    rcases List.mem_cons.mp ha' with rfl | ha'
    · rw [haccepted]
      exact Option.some_ne_none p
    · exact h.accepted a' ha'

end Machine.Clients

/-! ## Decisions -/

/-- An answer of a scheduler belongs to one process, and is sent at most once. -/
structure Machine.Decisions (m : Machine) : Prop where
  read : ∀ p, m.read p ≤ m.world.hist.length
  recorded : ∀ p n, m.decided p = some n → n < m.world.hist.length
  own : ∀ p q n, m.decided p = some n → m.decided q = some n → p = q
  sent : ∀ a ∈ m.answers, ∀ n, a.decided = some n → n < m.world.hist.length
  once : ∀ a ∈ m.answers, ∀ a' ∈ m.answers, ∀ n, a.decided = some n → a'.decided = some n →
    a = a'

/-- No client has got the answer that the event number `n` records. -/
def Machine.Unsent (m : Machine) (n : Nat) : Prop := ∀ a ∈ m.answers, a.decided ≠ some n

/-- A recorded answer is the newest event. -/
theorem exec_decision {who : Holder} {w w' : World} {c : Sys} {raw : c.Raw} {r : c.Reply}
    {decision : Decision} (h : c.exec who w raw = some (r, w'))
    (hdecision : c.decision = some decision) :
    w'.hist.length = w.hist.length + 1 ∧ w'.Said w.hist.length decision := by
  cases c with
  | note event =>
      cases h
      refine ⟨rfl, ⟨event, w.disk, w.live.map (·.id)⟩, ?_, hdecision⟩
      show (_ :: w.hist).reverse[w.hist.length]? = _
      rw [List.reverse_cons, ← List.length_reverse, List.getElem?_concat_length]
  | _ => cases hdecision

namespace Machine.Decisions

theorem init : Machine.init.Decisions where
  read _ := Nat.le_refl _
  recorded := by rintro _ _ ⟨⟩
  own := by rintro _ _ _ ⟨⟩
  sent := by rintro _ ⟨⟩
  once := by rintro _ ⟨⟩

theorem frame (h : m.Decisions) (hhist : m.world.hist <:+ m'.world.hist)
    (hsame : (m'.answers, m'.read, m'.decided) = (m.answers, m.read, m.decided)) :
    m'.Decisions := by
  simp only [Prod.mk.injEq] at hsame
  obtain ⟨hanswers, hread, hdecided⟩ := hsame
  have hlength := hhist.length_le
  refine ⟨?_, ?_, ?_, ?_, ?_⟩
  · rw [hread]
    exact fun p => Nat.le_trans (h.read p) hlength
  · rw [hdecided]
    exact fun p n hn => Nat.lt_of_lt_of_le (h.recorded p n hn) hlength
  · rw [hdecided]
    exact h.own
  · rw [hanswers]
    exact fun a ha n hn => Nat.lt_of_lt_of_le (h.sent a ha n hn) hlength
  · rw [hanswers]
    exact h.once

/-- A process reads a request. -/
theorem received (h : m.Decisions) (p : Nat) :
    Decisions { m with read := Function.update m.read p m.world.hist.length } := by
  refine ⟨?_, h.recorded, h.own, h.sent, h.once⟩
  intro q
  by_cases heq : q = p
  · subst heq
    exact Nat.le_of_eq (Function.update_self _ _ _)
  · show Function.update m.read p m.world.hist.length q ≤ _
    rw [Function.update_of_ne heq]
    exact h.read q

/-- A scheduler makes a call. -/
theorem called (h : m.Decisions) (p : Nat) {c : Sys} {raw : c.Raw} {r : c.Reply} {world : World}
    (hexec : c.exec .daemon m.world raw = some (r, world)) :
    (HostCall.called m p c world).Decisions := by
  have hhist := exec_hist hexec
  cases hdecision : c.decision with
  | none =>
      apply h.frame hhist
      simp [HostCall.called, hdecision]
  | some decision =>
      obtain ⟨hlength, _⟩ := exec_decision hexec hdecision
      have hnew : ∀ q n, (HostCall.called m p c world).decided q = some n →
          (q = p ∧ n = m.world.hist.length) ∨ (q ≠ p ∧ m.decided q = some n) := by
        intro q n hn
        simp only [HostCall.called, hdecision, Option.isSome_some, if_true] at hn
        by_cases heq : q = p
        · rw [heq, Function.update_self] at hn
          exact Or.inl ⟨heq, (Option.some.inj hn).symm⟩
        · rw [Function.update_of_ne heq] at hn
          exact Or.inr ⟨heq, hn⟩
      refine ⟨fun q => Nat.le_trans (h.read q) hhist.length_le, ?_, ?_, ?_, h.once⟩
      · intro q n hn
        show n < world.hist.length
        rcases hnew q n hn with ⟨_, rfl⟩ | ⟨_, hn⟩
        · omega
        · have := h.recorded q n hn
          omega
      · intro q q' n hq hq'
        rcases hnew q n hq with ⟨rfl, rfl⟩ | ⟨_, hold⟩ <;>
          rcases hnew q' _ hq' with ⟨rfl, hn⟩ | ⟨_, hold'⟩
        · rfl
        · exact absurd (h.recorded q' _ hold') (Nat.lt_irrefl _)
        · exact absurd (hn ▸ h.recorded q n hold) (Nat.lt_irrefl _)
        · exact h.own q q' n hold hold'
      · exact fun a ha n hn => Nat.lt_of_lt_of_le (h.sent a ha n hn) hhist.length_le

/-- An answer is sent. -/
theorem answered (h : m.Decisions) (conn : Conn) {a : SentAnswer}
    (hfresh : ∀ n, a.decided = some n → m.decided p = some n ∧ m.Unsent n) :
    (m.answered conn a).Decisions := by
  refine ⟨h.read, h.recorded, h.own, ?_, ?_⟩
  · intro a' ha' n hn
    rcases List.mem_cons.mp ha' with rfl | ha'
    · exact h.recorded p n (hfresh n hn).1
    · exact h.sent a' ha' n hn
  · intro a₁ h₁ a₂ h₂ n hn₁ hn₂
    rcases List.mem_cons.mp h₁ with rfl | hold₁ <;> rcases List.mem_cons.mp h₂ with rfl | hold₂
    · rfl
    · exact absurd hn₂ ((hfresh n hn₁).2 a₂ hold₂)
    · exact absurd hn₁ ((hfresh n hn₂).2 a₁ hold₁)
    · exact h.once a₁ hold₁ a₂ hold₂ n hn₁ hn₂

end Machine.Decisions

/-! ## What a process has heard -/

/-- Nobody changes who made a connection, what was asked, and when. -/
structure Conn.Same (conn conn' : Conn) : Prop where
  uid : conn'.uid = conn.uid
  gid : conn'.gid = conn.gid
  request : conn'.request = conn.request
  epoch : conn'.epoch = conn.epoch
  since : conn'.since = conn.since

/-- The connections of `m` are still there. -/
def Machine.KeepsConns (m m' : Machine) : Prop :=
  ∀ c conn, m.conns c = some conn → ∃ conn', m'.conns c = some conn' ∧ conn.Same conn'

theorem Machine.KeepsConns.of_eq (h : m'.conns = m.conns) : m.KeepsConns m' :=
  fun c conn hc => ⟨conn, (congrFun h c).trans hc, rfl, rfl, rfl, rfl, rfl⟩

theorem Machine.keepsConns_connected (htable : m.Table) (uid gid l : Nat) (request : Request) :
    m.KeepsConns (m.connected uid gid l request) := by
  intro c conn hc
  refine ⟨conn, ?_, rfl, rfl, rfl, rfl, rfl⟩
  have hne : c ≠ m.made := Nat.ne_of_lt (htable.conns c conn hc)
  simp only [Machine.connected, Function.update_of_ne hne]
  exact hc

theorem Machine.keepsConns_answered {conn : Conn} {a : SentAnswer}
    (hconn : m.conns a.conn = some conn) : m.KeepsConns (m.answered conn a) := by
  intro c conn' hc
  by_cases heq : c = a.conn
  · subst heq
    rw [hconn] at hc
    cases hc
    exact ⟨_, Function.update_self _ _ _, rfl, rfl, rfl, rfl, rfl⟩
  · refine ⟨conn', ?_, rfl, rfl, rfl, rfl, rfl⟩
    simp only [Machine.answered, Function.update_of_ne heq]
    exact hc

/-- The process `p`, which started after `n` answers, has heard this. -/
structure Hearing.Fits (φ : Hearing) (x : Nat → Option Nat) (m : Machine) (p n : Nat) : Prop where
  floor : φ.floor ≤ m.epoch
  asked : ∀ request, φ.asked = some request → ∃ c conn, m.connOf p = some (c, conn) ∧
    conn.request = request ∧ φ.floor ≤ conn.epoch ∧ n ≤ conn.since
  client : φ.client = true → ∃ c, m.conn p = some c ∧ x c = some p ∧ ∀ a ∈ m.answers, a.conn ≠ c
  peer : ∀ uid gid, φ.peer = some (uid, gid) → ∃ c conn, m.connOf p = some (c, conn) ∧
    conn.uid = uid ∧ conn.gid = gid
  received : ∀ request, φ.received = some request → ∃ c conn, m.connOf p = some (c, conn) ∧
    conn.request = request
  decided : ∀ decision, φ.decided = some decision → ∃ k, m.decided p = some k ∧ m.read p ≤ k ∧
    m.world.Said k decision ∧ m.Unsent k
  heard : φ.heard ⊆ m.heard p
  since : m.heard p ⊆ m.answersSince n
  child : φ.child = true ↔ m.HasChild p

theorem Machine.connOf_eq {c : Nat} {conn : Conn} (hc : m.conn p = some c)
    (hconn : m.conns c = some conn) : m.connOf p = some (c, conn) := by
  rw [Machine.connOf, hc, Option.bind_some, hconn, Option.map_some]

theorem Machine.KeepsConns.connOf (h : m.KeepsConns m') (hconn : m'.conn p = m.conn p) {c : Nat}
    {conn : Conn} (hc : m.connOf p = some (c, conn)) :
    ∃ conn', m'.connOf p = some (c, conn') ∧ conn.Same conn' := by
  obtain ⟨hnumber, hmade⟩ := connOf_some hc
  obtain ⟨conn', hmade', hsame⟩ := h c conn hmade
  exact ⟨conn', connOf_eq (hconn.trans hnumber) hmade', hsame⟩

/-- From `x` and `m` to `x'` and `m'`, nothing changes that the process `p`, which started after
    `n` answers, has to do with. -/
structure Machine.Spares (x x' : Nat → Option Nat) (m m' : Machine) (p n : Nat) : Prop where
  epoch : m.epoch ≤ m'.epoch
  hist : m.world.hist <:+ m'.world.hist
  conn : m'.conn p = m.conn p
  conns : m.KeepsConns m'
  since : m.answersSince n ⊆ m'.answersSince n
  client : ∀ c, x c = some p → (∀ a ∈ m.answers, a.conn ≠ c) →
    x' c = some p ∧ ∀ a ∈ m'.answers, a.conn ≠ c
  read : m'.read p = m.read p
  decided : m'.decided p = m.decided p
  unsent : ∀ k, m.decided p = some k → m.Unsent k → m'.Unsent k
  heard : m'.heard p = m.heard p
  child : m'.HasChild p ↔ m.HasChild p

namespace Hearing

theorem first_fits {n : Nat} (hheard : m.heard p = []) (hchild : ¬ m.HasChild p) :
    first.Fits x m p n where
  floor := Nat.zero_le _
  asked := by rintro _ ⟨⟩
  client := by rintro ⟨⟩
  peer := by rintro _ _ ⟨⟩
  received := by rintro _ ⟨⟩
  decided := by rintro _ ⟨⟩
  heard := by rintro _ ⟨⟩
  since := by simp [hheard]
  child := ⟨by rintro ⟨⟩, fun h => absurd h hchild⟩

namespace Fits

variable {n : Nat}

/-- Nothing that the process has heard has changed. -/
theorem frame (h : φ.Fits x m p n) (hs : m.Spares x x' m' p n) : φ.Fits x' m' p n := by
  refine ⟨Nat.le_trans h.floor hs.epoch, ?_, ?_, ?_, ?_, ?_, ?_, ?_, h.child.trans hs.child.symm⟩
  · intro request hrequest
    obtain ⟨c, conn, hc, hasked, hfloor, hn⟩ := h.asked request hrequest
    obtain ⟨conn', hc', hsame⟩ := hs.conns.connOf hs.conn hc
    exact ⟨c, conn', hc', hsame.request.trans hasked, hsame.epoch ▸ hfloor, hsame.since ▸ hn⟩
  · intro hopen
    obtain ⟨c, hc, hx, hanswers⟩ := h.client hopen
    obtain ⟨hx', hanswers'⟩ := hs.client c hx hanswers
    exact ⟨c, hs.conn.trans hc, hx', hanswers'⟩
  · intro uid gid hpeer
    obtain ⟨c, conn, hc, huid, hgid⟩ := h.peer uid gid hpeer
    obtain ⟨conn', hc', hsame⟩ := hs.conns.connOf hs.conn hc
    exact ⟨c, conn', hc', hsame.uid.trans huid, hsame.gid.trans hgid⟩
  · intro request hrequest
    obtain ⟨c, conn, hc, hreceived⟩ := h.received request hrequest
    obtain ⟨conn', hc', hsame⟩ := hs.conns.connOf hs.conn hc
    exact ⟨c, conn', hc', hsame.request.trans hreceived⟩
  · intro decision hdecision
    obtain ⟨k, hk, hread, hsaid, hunsent⟩ := h.decided decision hdecision
    exact ⟨k, hs.decided.trans hk, hs.read ▸ hread, hsaid.mono hs.hist, hs.unsent k hk hunsent⟩
  · rw [hs.heard]
    exact h.heard
  · rw [hs.heard]
    exact List.Subset.trans h.since hs.since

/-- Neither the connections nor the answers nor the children have changed. -/
theorem beside (h : φ.Fits x m p n) (hepoch : m.epoch ≤ m'.epoch)
    (hhist : m.world.hist <:+ m'.world.hist)
    (hsame : (m'.conn, m'.conns, m'.answers, m'.read, m'.decided) =
      (m.conn, m.conns, m.answers, m.read, m.decided))
    (hheard : m'.heard p = m.heard p) (hchild : m'.HasChild p ↔ m.HasChild p) :
    φ.Fits x m' p n := by
  simp only [Prod.mk.injEq] at hsame
  obtain ⟨hconn, hconns, hanswers, hread, hdecided⟩ := hsame
  apply h.frame
  refine ⟨hepoch, hhist, congrFun hconn p, Machine.KeepsConns.of_eq hconns, ?_, ?_,
    congrFun hread p, congrFun hdecided p, ?_, hheard, hchild⟩
  · rw [Machine.answersSince, Machine.answersSince, hanswers]
    exact List.Subset.refl _
  · intro c hx hopen
    rw [hanswers]
    exact ⟨hx, hopen⟩
  · intro k _ hunsent
    rw [Machine.Unsent, hanswers]
    exact hunsent

end Fits

end Hearing

/-! ## The discipline -/

/-- The connections and the families. -/
structure Machine.Attends (x : Nat → Option Nat) (m : Machine) : Prop where
  clients : m.Clients x
  decisions : m.Decisions
  family : m.Family

/-- How a command may end. -/
def Role.Ends : Role → Except Error Unit → Hearing → Prop
  | daemon _, _, _ => True
  | start _, r, φ =>
      (r = .ok () → ∃ a ∈ φ.heard, a.Grants .info) ∧ ∀ e, r = .error e → φ.child = false
  | restart _, r, φ => Restarted φ r

/-- The discipline of questions and answers. -/
def clientDiscipline : Discipline (Nat → Option Nat) Hearing where
  spec _ := hearing
  final := Role.Ends
  first := Hearing.first
  inv := Machine.Attends
  view x m p n φ := φ.Fits x m p n

theorem Role.ends_wp (pid fuel : Nat) (role : Role) :
    (role.prog euid pid fuel).Safe hearing (fun _ => role.Ends) Hearing.first := by
  cases role with
  | daemon args => exact Attentive.serveProcess fuel args () _ trivial
  | start args =>
      apply wp_mono (startCommand_wp fuel args Hearing.first rfl)
      intro _ r φ h
      refine ⟨fun hr => ?_, h.childless⟩
      obtain ⟨a, ha, hgrants, _⟩ := h.granted hr
      exact ⟨a, ha, hgrants⟩
  | restart args => exact restartCommand_wp fuel args Hearing.first rfl

/-! ## Every call -/

/-- After a call: the machine has lost nothing, the process has heard the reply, and the others
    have heard what they had heard. -/
def Heeds (pr : Process) (φ : Hearing) (c : HostCall) (r : c.Reply) (x : Nat → Option Nat)
    (m m' : Machine) : Prop :=
  ∃ x', m'.Attends x' ∧ (∃ φ', c.Hears φ r φ' ∧ φ'.Fits x' m' pr.pid pr.since) ∧
    clientDiscipline.Spares pr.pid x m x' m'

section Calls

variable {pr : Process} (ha : m.Attends x) (hφ : φ.Fits x m pr.pid pr.since)
include ha hφ

omit hφ in
/-- A call that is not about clients, answers and children. -/
theorem heeds_beside {c : HostCall} {r : c.Reply} (φ' : Hearing) (hhears : c.Hears φ r φ')
    (hfits : φ'.Fits x m' pr.pid pr.since) (hepoch : m.epoch ≤ m'.epoch)
    (hhist : m.world.hist <:+ m'.world.hist)
    (hsame : (m'.conn, m'.conns, m'.made, m'.backlog, m'.answers, m'.procs, m'.read, m'.decided,
        m'.heard) =
      (m.conn, m.conns, m.made, m.backlog, m.answers, m.procs, m.read, m.decided, m.heard)) :
    Heeds pr φ c r x m m' := by
  simp only [Prod.mk.injEq] at hsame
  obtain ⟨hconn, hconns, hmade, hbacklog, hanswers, hprocs, hread, hdecided, hheard⟩ := hsame
  have hfamily : m'.Family := by
    refine ⟨?_, ?_, ?_⟩ <;> rw [hprocs]
    · exact ha.family.parents
    · exact ha.family.only
    · exact ha.family.proper
  refine ⟨x, ⟨ha.clients.frame hconns hmade hbacklog hanswers hepoch hhist, ?_, hfamily⟩,
    ⟨φ', hhears, hfits⟩, ?_⟩
  · apply ha.decisions.frame hhist
    rw [hanswers, hread, hdecided]
  · intro q _ _ _ ψ hψ
    refine Hearing.Fits.beside hψ hepoch hhist ?_ (congrFun hheard _) ?_
    · rw [hconn, hconns, hanswers, hread, hdecided]
    · rw [Machine.HasChild, Machine.HasChild, hprocs]

omit hφ in
/-- Nothing happens. -/
theorem heeds_same {c : HostCall} {r : c.Reply} (φ' : Hearing) (hhears : c.Hears φ r φ')
    (hfits : φ'.Fits x m pr.pid pr.since) : Heeds pr φ c r x m m :=
  heeds_beside ha φ' hhears hfits (Nat.le_refl _) (List.suffix_refl _) rfl

/-- Nothing happens, or the call fails. -/
theorem heeds_nothing {c : HostCall} {r : c.Reply} (hattends : c.Attends φ)
    (htells : c.Tells m pr.pid r) : Heeds pr φ c r x m m := by
  have hsame : c.Hears φ r φ → Heeds pr φ c r x m m := fun hstay => heeds_same ha φ hstay hφ
  have hchildless : φ.child = true → m.child pr.pid = none → False := by
    intro hchild hnone
    obtain ⟨q, hq, hparent⟩ := hφ.child.mp hchild
    have hmem := List.find?_eq_none.mp hnone q hq
    exact hmem (by simpa using hparent)
  cases c with
  | initializePaths | installSignals | discover | setPermissions | setNonblocking | interrupted
  | setReadTimeout | setWriteTimeout | refreshDue | refresh | cleanupDue | poll | openDaemonLog
  | deadline | print | sleep | socketExists | newScheduler | removeSocket | bind | unlock =>
      exact hsame rfl
  | hang => exact nomatch r
  | closeListener | begin | sys => exact htells.elim
  | tryLock =>
      apply hsame
      rcases r with e | _ | _
      · rfl
      · rfl
      · exact htells.elim
  | accept =>
      cases r with
      | client => exact htells.elim
      | wouldBlock | error => exact hsame rfl
  | peer =>
      cases r with
      | error e => exact hsame rfl
      | ok credentials =>
          refine heeds_same ha { φ with peer := some credentials } rfl ?_
          refine ⟨hφ.floor, hφ.asked, hφ.client, ?_, hφ.received, hφ.decided, hφ.heard, hφ.since,
            hφ.child⟩
          rintro uid gid ⟨⟩
          exact htells
  | receive | response =>
      cases r with
      | error e => exact hsame rfl
      | ok => exact htells.elim
  | sendError | sendResponse =>
      refine heeds_same ha { φ with client := false, decided := none } rfl ?_
      exact ⟨hφ.floor, hφ.asked, by rintro ⟨⟩, hφ.peer, hφ.received, by rintro _ ⟨⟩, hφ.heard,
        hφ.since, hφ.child⟩
  | connect =>
      cases r with
      | error e => exact hsame rfl
      | ok => exact htells.elim
  | spawnDaemon =>
      cases r with
      | error e => exact hsame rfl
      | ok => exact htells.elim
  | tryWait =>
      rcases r with e | _ | status
      · exact (hchildless hattends htells).elim
      · apply hsame
        have hchild : φ.child = true := hattends
        show φ = { φ with child := true }
        rw [← hchild]
      · exact htells.elim
  | killChild | waitChild =>
      cases r with
      | error e => exact (hchildless hattends htells).elim
      | ok => exact htells.elim

/-- The lock is taken: a new epoch begins. -/
theorem heeds_lock :
    Heeds pr φ .tryLock (.ok true) x m { m with lock := some pr.pid, epoch := m.epoch + 1 } := by
  refine heeds_beside ha { φ with floor := m.epoch + 1, asked := none } ?_ ?_
    (Nat.le_succ _) (List.suffix_refl _) rfl
  · simp only [HostCall.Hears, if_true]
    exact ⟨m.epoch + 1, Nat.lt_succ_of_le hφ.floor, rfl⟩
  · exact ⟨Nat.le_refl _, by rintro _ ⟨⟩, hφ.client, hφ.peer, hφ.received, hφ.decided, hφ.heard, hφ.since,
      hφ.child⟩

/-- A client is accepted. -/
theorem heeds_accept {c : Nat} (hwaits : c ∈ m.backlog) :
    Heeds pr φ .accept .client x m { m with
      backlog := m.backlog.erase c
      conn := Function.update m.conn pr.pid (some c) } := by
  have hfree : x c = none := ha.clients.waits c hwaits
  refine ⟨Function.update x c (some pr.pid), ⟨ha.clients.accept hwaits _,
    ha.decisions.frame (List.suffix_refl _) rfl, ?_⟩, ⟨φ.accepted, rfl, ?_⟩, ?_⟩
  · exact ⟨ha.family.parents, ha.family.only, ha.family.proper⟩
  · refine ⟨hφ.floor, by rintro _ ⟨⟩, fun _ => ?_, by rintro _ _ ⟨⟩, by rintro _ ⟨⟩,
      by rintro _ ⟨⟩, hφ.heard, hφ.since, hφ.child⟩
    refine ⟨c, Function.update_self _ _ _, Function.update_self _ _ _, ?_⟩
    rintro a hmem rfl
    exact ha.clients.accepted a hmem hfree
  · intro q _ _ hne ψ hψ
    refine Hearing.Fits.frame hψ ⟨Nat.le_refl _, List.suffix_refl _, Function.update_of_ne hne _ _,
      Machine.KeepsConns.of_eq rfl, List.Subset.refl _, ?_, rfl, rfl, fun _ _ h => h, rfl, Iff.rfl⟩
    intro c' hx hopen
    have hc' : c' ≠ c := by
      rintro rfl
      rw [hfree] at hx
      cases hx
    exact ⟨by rw [Function.update_of_ne hc', hx], hopen⟩

/-- A client that was accepted is answered. -/
theorem heeds_answered (htable : m.Table) (hpr : pr ∈ m.procs) {c : HostCall} {r : c.Reply}
    {conn : Conn} {a : SentAnswer}
    (hhears : c.Hears φ r { φ with client := false, decided := none }) (hclient : φ.client = true)
    (hconn : m.connOf pr.pid = some (a.conn, conn)) (hepoch : a.epoch = m.epoch)
    (hrequest : a.request = conn.request) (hsource : a.Source conn m.world)
    (hfresh : ∀ k, a.decided = some k → m.decided pr.pid = some k ∧ m.Unsent k) :
    Heeds pr φ c r x m (m.answered conn a) := by
  obtain ⟨hnumber, hmade⟩ := Machine.connOf_some hconn
  obtain ⟨n, hn, haccepted, hopen⟩ := hφ.client hclient
  obtain rfl : n = a.conn := Option.some.inj (hn.symm.trans hnumber)
  have hkeeps := Machine.keepsConns_answered hmade
  have hgrows : m.Grows (m.answered conn a) := ⟨List.suffix_cons _ _, List.suffix_refl _⟩
  have hfamily := ha.family
  refine ⟨x, ⟨ha.clients.answered hmade haccepted hopen hepoch hrequest hsource,
    ha.decisions.answered conn hfresh, ⟨hfamily.parents, hfamily.only, hfamily.proper⟩⟩,
    ⟨_, hhears, ?_⟩, ?_⟩
  · have hsince := hgrows.answersSince (htable.since pr hpr)
    refine ⟨hφ.floor, ?_, by rintro ⟨⟩, ?_, ?_, by rintro _ ⟨⟩, hφ.heard,
      List.Subset.trans hφ.since hsince,
      hφ.child⟩
    · intro asked hasked
      obtain ⟨c, conn', hc, heq, hfloor, hn⟩ := hφ.asked asked hasked
      obtain ⟨conn'', hc', hsame⟩ := hkeeps.connOf rfl hc
      exact ⟨c, conn'', hc', hsame.request.trans heq, hsame.epoch ▸ hfloor, hsame.since ▸ hn⟩
    · intro uid gid hpeer
      obtain ⟨c, conn', hc, huid, hgid⟩ := hφ.peer uid gid hpeer
      obtain ⟨conn'', hc', hsame⟩ := hkeeps.connOf rfl hc
      exact ⟨c, conn'', hc', hsame.uid.trans huid, hsame.gid.trans hgid⟩
    · intro received hreceived
      obtain ⟨c, conn', hc, heq⟩ := hφ.received received hreceived
      obtain ⟨conn'', hc', hsame⟩ := hkeeps.connOf rfl hc
      exact ⟨c, conn'', hc', hsame.request.trans heq⟩
  · intro q hq _ hne ψ hψ
    refine Hearing.Fits.frame hψ ⟨Nat.le_refl _, List.suffix_refl _, rfl, hkeeps,
      hgrows.answersSince (htable.since q hq), ?_, rfl, rfl, ?_, rfl, Iff.rfl⟩
    · intro c' hx hopen'
      refine ⟨hx, ?_⟩
      intro a' hmem
      rcases List.mem_cons.mp hmem with rfl | hmem
      · -- Two processes have not accepted the same client.
        rintro rfl
        rw [haccepted] at hx
        exact hne (Option.some.inj hx).symm
      · exact hopen' a' hmem
    · intro k hk hunsent a' hmem
      rcases List.mem_cons.mp hmem with rfl | hmem
      · exact fun hsent => hne (ha.decisions.own q.pid pr.pid k hk (hfresh k hsent).1)
      · exact hunsent a' hmem

/-- The request of a client is read. -/
theorem heeds_receive {n : Nat} {conn : Conn} (hfound : m.connOf pr.pid = some (n, conn)) :
    Heeds pr φ .receive (.ok conn.request) x m
      { m with read := Function.update m.read pr.pid m.world.hist.length } := by
  have hclients := ha.clients
  refine ⟨x, ⟨hclients.frame rfl rfl rfl rfl (Nat.le_refl _) (List.suffix_refl _),
    ha.decisions.received _, ⟨ha.family.parents, ha.family.only, ha.family.proper⟩⟩,
    ⟨{ φ with received := some conn.request, decided := none }, rfl, ?_⟩, ?_⟩
  · refine ⟨hφ.floor, hφ.asked, hφ.client, hφ.peer, ?_, by rintro _ ⟨⟩, hφ.heard, hφ.since,
      hφ.child⟩
    rintro request ⟨⟩
    exact ⟨n, conn, hfound, rfl⟩
  · intro q _ _ hne ψ hψ
    exact Hearing.Fits.frame hψ ⟨Nat.le_refl _, List.suffix_refl _, rfl,
      Machine.KeepsConns.of_eq rfl, List.Subset.refl _, fun _ hx hopen => ⟨hx, hopen⟩,
      Function.update_of_ne hne _ _, rfl, fun _ _ h => h, rfl, Iff.rfl⟩

/-- The scheduler makes a call. -/
theorem heeds_sys {c : Sys} {raw : c.Raw} {r : c.Reply} {world : World}
    (hexec : c.exec .daemon m.world raw = some (r, world)) :
    Heeds pr φ (.sys c) r x m (HostCall.called m pr.pid c world) := by
  have hhist := exec_hist hexec
  have hread := ha.decisions.read pr.pid
  refine ⟨x, ⟨ha.clients.frame rfl rfl rfl rfl (Nat.le_refl _) hhist,
    ha.decisions.called pr.pid hexec, ⟨ha.family.parents, ha.family.only, ha.family.proper⟩⟩,
    ⟨{ φ with decided := c.decision.or φ.decided }, rfl, ?_⟩, ?_⟩
  · refine ⟨hφ.floor, hφ.asked, hφ.client, hφ.peer, hφ.received, ?_, hφ.heard, hφ.since, hφ.child⟩
    intro decision hdecision
    cases hc : c.decision with
    | none =>
        rw [hc, Option.none_or] at hdecision
        obtain ⟨k, hk, hle, hsaid, hunsent⟩ := hφ.decided decision hdecision
        refine ⟨k, ?_, hle, hsaid.mono hhist, hunsent⟩
        simpa [HostCall.called, hc] using hk
    | some new =>
        rw [hc, Option.some_or] at hdecision
        cases hdecision
        refine ⟨m.world.hist.length, ?_, hread, (exec_decision hexec hc).2, ?_⟩
        · simp [HostCall.called, hc]
        · exact fun a hmem hsent => Nat.lt_irrefl _ (ha.decisions.sent a hmem _ hsent)
  · intro q _ _ hne ψ hψ
    refine Hearing.Fits.frame hψ ⟨Nat.le_refl _, hhist, rfl, Machine.KeepsConns.of_eq rfl,
      List.Subset.refl _, fun _ hx hopen => ⟨hx, hopen⟩, rfl, ?_, fun _ _ h => h, rfl, Iff.rfl⟩
    unfold HostCall.called
    dsimp only
    split
    · exact Function.update_of_ne hne _ _
    · rfl

/-- A process receives the answer to its request. -/
theorem heeds_response (hasks : φ.asked ≠ none) {n : Nat} {conn : Conn} {a : SentAnswer}
    (hconn : m.connOf pr.pid = some (n, conn)) (hanswer : conn.answer = some a) :
    Heeds pr φ .response (.ok a.response) x m
      { m with heard := Function.update m.heard pr.pid (a :: m.heard pr.pid) } := by
  obtain ⟨request, hasked⟩ := Option.ne_none_iff_exists'.mp hasks
  obtain ⟨n', conn', hconn', hrequest, hfloor, hsince⟩ := hφ.asked request hasked
  rw [hconn] at hconn'
  cases hconn'
  have hans := ha.clients.answer n conn a (Machine.connOf_some hconn).2 hanswer
  have hnew : a ∈ m.answersSince pr.since :=
    List.take_subset_take_left _ (Nat.sub_le_sub_left hsince _) hans.since
  refine ⟨x, ⟨ha.clients.frame rfl rfl rfl rfl (Nat.le_refl _) (List.suffix_refl _),
    ha.decisions.frame (List.suffix_refl _) rfl,
    ⟨ha.family.parents, ha.family.only, ha.family.proper⟩⟩,
    ⟨{ φ with floor := a.epoch, asked := none, heard := a :: φ.heard }, ?_, ?_⟩, ?_⟩
  · exact ⟨a, rfl, by rw [hasked, hans.request, hrequest], Nat.le_trans hfloor hans.later, rfl⟩
  · refine ⟨(ha.clients.sent a (List.mem_of_mem_take hnew)).1, by rintro _ ⟨⟩, hφ.client, hφ.peer,
      hφ.received, hφ.decided, ?_, ?_, hφ.child⟩
    · show _ ⊆ Function.update m.heard pr.pid _ pr.pid
      rw [Function.update_self]
      exact List.cons_subset_cons a hφ.heard
    · show Function.update m.heard pr.pid _ pr.pid ⊆ _
      rw [Function.update_self]
      exact List.cons_subset.mpr ⟨hnew, hφ.since⟩
  · intro q _ _ hne ψ hψ
    exact Hearing.Fits.beside hψ (Nat.le_refl _) (List.suffix_refl _) rfl
      (Function.update_of_ne hne _ _) Iff.rfl

/-- A request is sent. -/
theorem heeds_connect (htable : m.Table) (hpr : pr ∈ m.procs) (l : Nat) (request : Request) :
    Heeds pr φ (.connect request) (.ok ()) x m
      { m.connected pr.uid pr.gid l request with
        conn := Function.update m.conn pr.pid (some m.made) } := by
  have hkeeps := Machine.keepsConns_connected htable pr.uid pr.gid l request
  have hclients := ha.clients.connected pr.uid pr.gid l request
  have hfamily := ha.family
  refine ⟨x, ⟨hclients.frame rfl rfl rfl rfl (Nat.le_refl _) (List.suffix_refl _),
    ha.decisions.frame (List.suffix_refl _) rfl,
    ⟨hfamily.parents, hfamily.only, hfamily.proper⟩⟩, ⟨φ.asking request, rfl, ?_⟩, ?_⟩
  · refine ⟨hφ.floor, ?_, by rintro ⟨⟩, by rintro _ _ ⟨⟩, by rintro _ ⟨⟩, by rintro _ ⟨⟩,
      hφ.heard, hφ.since, hφ.child⟩
    rintro request' ⟨⟩
    refine ⟨m.made, ⟨pr.uid, pr.gid, request, l, m.epoch, m.answers.length, none⟩, ?_, rfl,
      hφ.floor, htable.since pr hpr⟩
    exact Machine.connOf_eq (Function.update_self _ _ _) (Function.update_self _ _ _)
  · intro q _ _ hne ψ hψ
    exact Hearing.Fits.frame hψ ⟨Nat.le_refl _, List.suffix_refl _, Function.update_of_ne hne _ _,
      hkeeps, List.Subset.refl _, fun _ hx hopen => ⟨hx, hopen⟩, rfl, rfl, fun _ _ h => h, rfl,
      Iff.rfl⟩

/-- Its child has exited, and it has waited for it. -/
theorem heeds_reaped (htable : m.Table) {c : HostCall} {r : c.Reply} {child : Process}
    (hhears : c.Hears φ r { φ with child := false }) (hfound : m.child pr.pid = some child)
    (hexited : child.exited = true) : Heeds pr φ c r x m (m.reaped child.pid) := by
  obtain ⟨hmem, hparent⟩ := Machine.child_spec hfound
  obtain ⟨hfamily, hnone, hothers⟩ := ha.family.reaped htable hmem hparent hexited
  refine ⟨x, ⟨ha.clients.frame rfl rfl rfl rfl (Nat.le_refl _) (List.suffix_refl _),
    ha.decisions.frame (List.suffix_refl _) rfl, hfamily⟩, ⟨_, hhears, ?_⟩, ?_⟩
  · exact ⟨hφ.floor, hφ.asked, hφ.client, hφ.peer, hφ.received, hφ.decided, hφ.heard, hφ.since,
      ⟨by rintro ⟨⟩, fun h => absurd h hnone⟩⟩
  · exact fun q _ _ hne ψ hψ =>
      Hearing.Fits.beside hψ (Nat.le_refl _) (List.suffix_refl _) rfl rfl (hothers q.pid hne)

theorem heeds_killChild {child : Process} :
    Heeds pr φ .killChild (.ok ()) x m
      (m.update child.pid fun pr => { pr with killed := true }) := by
  obtain ⟨hfamily, hsame⟩ := ha.family.update child.pid (fun pr => { pr with killed := true })
    fun pr => ⟨rfl, rfl, rfl⟩
  refine ⟨x, ⟨ha.clients.frame rfl rfl rfl rfl (Nat.le_refl _) (List.suffix_refl _),
    ha.decisions.frame (List.suffix_refl _) rfl, hfamily⟩,
    ⟨φ, ⟨rfl, rfl⟩, hφ.beside (Nat.le_refl _) (List.suffix_refl _) rfl rfl (hsame _)⟩, ?_⟩
  exact fun q _ _ _ ψ hψ =>
    Hearing.Fits.beside hψ (Nat.le_refl _) (List.suffix_refl _) rfl rfl (hsame _)

end Calls

theorem clientDiscipline_call {pr : Process} {c : HostCall} {r : c.Reply} (htable : m.Table)
    (ha : m.Attends x) (hpr : pr ∈ m.procs) (hφ : φ.Fits x m pr.pid pr.since)
    (hattends : c.Attends φ) (hinherits : m'.Inherits m) (he : c.Effect euid pr m r m') :
    Heeds pr φ c r x m m' := by
  have hstay : ∀ m' : Machine, m'.epoch = m.epoch → m.world.hist <:+ m'.world.hist →
      (m'.conn, m'.conns, m'.made, m'.backlog, m'.answers, m'.procs, m'.read, m'.decided,
          m'.heard) =
        (m.conn, m.conns, m.made, m.backlog, m.answers, m.procs, m.read, m.decided, m.heard) →
      c.Hears φ r φ → Heeds pr φ c r x m m' := by
    intro m' hepoch hhist hsame hhears
    refine heeds_beside ha φ hhears ?_ (Nat.le_of_eq hepoch.symm) hhist hsame
    simp only [Prod.mk.injEq] at hsame
    obtain ⟨hconn, hconns, _, _, hanswers, hprocs, hread, hdecided, hheard⟩ := hsame
    refine hφ.beside (Nat.le_of_eq hepoch.symm) hhist ?_ (congrFun hheard _) ?_
    · rw [hconn, hconns, hanswers, hread, hdecided]
    · rw [Machine.HasChild, Machine.HasChild, hprocs]
  cases he with
  | nothing tells => exact heeds_nothing ha hφ hattends tells
  | lock free => exact heeds_lock ha hφ
  | unlock | removeSocket | bind | closeListener | begin | overlook =>
      exact hstay _ rfl (List.suffix_refl _) rfl rfl
  | boot | bootBlind => exact hstay _ rfl (List.suffix_cons _ _) rfl rfl
  | sys exec apart => exact heeds_sys ha hφ exec
  | accept waits made own listener => exact heeds_accept ha hφ waits
  | receive found => exact heeds_receive ha hφ found
  | @sendError e n conn found =>
      refine heeds_answered ha hφ htable hpr rfl hattends found rfl rfl (Or.inl ⟨rfl, e, rfl⟩) ?_
      rintro _ ⟨⟩
  | @sendResponse answer n conn found =>
      obtain ⟨hclient, uid, gid, request, hpeer, hreceived, hdecided⟩ := hattends
      obtain ⟨n₁, conn₁, hfound₁, rfl, rfl⟩ := hφ.peer uid gid hpeer
      obtain ⟨n₂, conn₂, hfound₂, rfl⟩ := hφ.received request hreceived
      rw [found] at hfound₁ hfound₂
      cases hfound₁
      cases hfound₂
      obtain ⟨k, hk, hread, hsaid, hunsent⟩ := hφ.decided _ hdecided
      refine heeds_answered ha hφ htable hpr rfl hclient found rfl rfl
        (Or.inr ⟨k, hk, hread, hsaid⟩) ?_
      intro k' hk'
      obtain rfl : k = k' := Option.some.inj (hk.symm.trans hk')
      exact ⟨hk, hunsent⟩
  | connect name listening => exact heeds_connect ha hφ htable hpr _ _
  | response found answer => exact heeds_response ha hφ hattends found answer
  | @spawnDaemon args pid fuel free =>
      -- That is a new process.
      obtain ⟨q, hq, heq⟩ := hinherits _ List.mem_cons_self
      exact absurd (congrArg Process.pid heq).symm ((Machine.pidFree_spec free).2 q hq)
  | tryWait found exited => exact heeds_reaped ha hφ htable rfl found exited
  | killChild found => exact heeds_killChild ha hφ
  | waitChild found exited => exact heeds_reaped ha hφ htable ⟨rfl, rfl⟩ found exited

/-- What other processes do adds nothing to the history. -/
theorem World.after_hist (w : World) {action : Action} (haside : action.aside = true) :
    w.hist <:+ (w.after action).hist := by
  cases action with
  | worker pid env =>
      have hmoves := workerStep_moves w pid env
      show w.hist <:+ (System.workerStep w pid env).hist
      generalize System.workerStep w pid env = next at hmoves
      cases hmoves with
      | stays => exact List.suffix_refl _
      | calls mem exec =>
          have hsuffix := exec_hist exec
          exact hsuffix
  | kill pid => exact List.suffix_refl _
  | output pid bytes =>
      simp only [World.after, System.step]
      split
      · show w.hist <:+ (w.printed _ bytes).hist
        unfold World.printed
        split <;> exact List.suffix_refl _
      · exact List.suffix_refl _
  | boot | begin | daemon | crash => cases haside

/-- The discipline of questions and answers is kept in every run. -/
theorem clientDiscipline_sound (euid : Nat) : clientDiscipline.Sound euid where
  start := by
    refine ⟨fun _ => none, Machine.Clients.init, Machine.Decisions.init, ?_, ?_, ?_⟩ <;>
      rintro _ ⟨⟩
  program pid fuel role := Role.ends_wp pid fuel role
  launch x m uid gid pid fuel role htable ha hfree := by
    have hnone : ¬ m.HasChild pid := by
      rintro ⟨pr, hpr, hparent⟩
      obtain ⟨q, hq, hpid, _⟩ := ha.family.parents pr hpr pid hparent
      exact (Machine.pidFree_spec hfree).2 q hq hpid
    obtain ⟨hfamily, hchild⟩ :=
      ha.family.spawned euid uid gid fuel none role hfree (by rintro _ ⟨⟩)
    have hsame : ∀ p, (m.spawned euid uid gid pid fuel none role).HasChild p ↔ m.HasChild p := by
      intro p
      rw [hchild p]
      simp
    refine ⟨⟨ha.clients.frame rfl rfl rfl rfl (Nat.le_refl _) (List.suffix_refl _),
      ha.decisions.frame (List.suffix_refl _) rfl, hfamily⟩, ?_, ?_⟩
    · exact Hearing.first_fits (Function.update_self _ _ _) fun h => hnone ((hsame pid).mp h)
    · exact fun p n φ hne hφ => hφ.beside (Nat.le_refl _) (List.suffix_refl _) rfl
        (Function.update_of_ne hne _ _) (hsame p)
  connect x m uid gid l request htable ha _ := by
    refine ⟨⟨ha.clients.connected uid gid l request, ha.decisions.frame (List.suffix_refl _) rfl,
      ⟨ha.family.parents, ha.family.only, ha.family.proper⟩⟩, ?_⟩
    exact fun p n φ hφ => hφ.frame ⟨Nat.le_refl _, List.suffix_refl _, rfl,
      Machine.keepsConns_connected htable uid gid l request, List.Subset.refl _,
      fun _ hx hopen => ⟨hx, hopen⟩, rfl, rfl, fun _ _ h => h, rfl, Iff.rfl⟩
  aside x m world _ ha hw := by
    obtain ⟨⟨action, haside, rfl⟩, _⟩ := hw
    have hhist := World.after_hist m.world haside
    refine ⟨x, ⟨ha.clients.frame rfl rfl rfl rfl (Nat.le_refl _) hhist,
      ha.decisions.frame hhist rfl,
      ⟨ha.family.parents, ha.family.only, ha.family.proper⟩⟩, ?_⟩
    exact fun p n φ hφ => hφ.beside (Nat.le_refl _) hhist rfl rfl Iff.rfl
  exit x m pr φ _ ha _ _ _ := by
    obtain ⟨hfamily, hothers⟩ := ha.family.exit pr.pid
    have hhist : m.world.hist <:+ (m.exit pr.pid).world.hist := by
      show m.world.hist <:+ (if m.world.pid = pr.pid then _ else _ : World).hist
      split <;> exact List.suffix_refl _
    refine ⟨x, ⟨ha.clients.frame rfl rfl rfl rfl (Nat.le_refl _) hhist,
      ha.decisions.frame hhist rfl, hfamily⟩, ?_⟩
    exact fun q _ _ hne ψ hψ =>
      Hearing.Fits.beside hψ (Nat.le_refl _) hhist rfl rfl (hothers q.pid hne)
  call x m pr φ c r m' htable ha hpr _ hφ hattends hinherits he :=
    clientDiscipline_call htable ha hpr hφ hattends hinherits he
  child x m pr φ args pid fuel htable ha hpr hlive hφ hattends hfree := by
    have hchildless : ¬ m.HasChild pr.pid := by
      rw [← hφ.child, show φ.child = false from hattends]
      nofun
    have hnone : ¬ m.HasChild pid := by
      rintro ⟨q, hq, hparent⟩
      obtain ⟨parent, hmem, hpid, _⟩ := ha.family.parents q hq pid hparent
      exact (Machine.pidFree_spec hfree).2 parent hmem hpid
    have hne : pr.pid ≠ pid := (Machine.pidFree_spec hfree).2 pr hpr
    obtain ⟨hfamily, hchild⟩ :=
      ha.family.spawned euid pr.uid pr.gid fuel (some pr.pid) (.daemon args) hfree (by
        rintro _ ⟨⟩
        exact ⟨⟨pr, hpr, rfl, hlive⟩, hchildless⟩)
    refine ⟨⟨ha.clients.frame rfl rfl rfl rfl (Nat.le_refl _) (List.suffix_refl _),
      ha.decisions.frame (List.suffix_refl _) rfl, hfamily⟩,
      ?_, ⟨{ φ with child := true }, rfl, ?_⟩, ?_⟩
    · apply Hearing.first_fits (Function.update_self _ _ _)
      rw [hchild pid]
      rintro (heq | h)
      · exact hne (Option.some.inj heq)
      · exact hnone h
    · refine ⟨hφ.floor, hφ.asked, hφ.client, hφ.peer, hφ.received, hφ.decided, ?_, ?_,
        ⟨fun _ => (hchild _).mpr (Or.inl rfl), fun _ => rfl⟩⟩
      · show _ ⊆ Function.update m.heard pid [] pr.pid
        rw [Function.update_of_ne hne]
        exact hφ.heard
      · show Function.update m.heard pid [] pr.pid ⊆ _
        rw [Function.update_of_ne hne]
        exact hφ.since
    · intro q hmem _ hq ψ hψ
      have hold : q.pid ≠ pid := (Machine.pidFree_spec hfree).2 q hmem
      refine Hearing.Fits.beside hψ (Nat.le_refl _) (List.suffix_refl _) rfl
        (Function.update_of_ne hold _ _) ((hchild q.pid).trans ?_)
      refine ⟨?_, Or.inr⟩
      rintro (heq | h)
      · exact absurd (Option.some.inj heq).symm hq
      · exact h
  prog x m pid prog ha := by
    obtain ⟨hfamily, hsame⟩ := ha.family.update pid (fun pr => { pr with prog })
      fun pr => ⟨rfl, rfl, rfl⟩
    refine ⟨⟨ha.clients.frame rfl rfl rfl rfl (Nat.le_refl _) (List.suffix_refl _),
      ha.decisions.frame (List.suffix_refl _) rfl, hfamily⟩, ?_⟩
    exact fun p n φ hφ => hφ.beside (Nat.le_refl _) (List.suffix_refl _) rfl rfl (hsame p)

end Xlurm
