/-
  Xlurm.Unix.Forest

  A table of processes that descend from one root, which adopts the orphans.

  The table lists the processes newest first, so the parent of a process is the
  root or comes later in the list.  A process that has exited stays in the table as
  a zombie until its parent has waited for it.
-/

import Mathlib.Init

namespace Unix

structure Proc (α : Type) where
  pid : Nat
  parent : Nat
  group : Nat
  /-- SIGKILL is pending. -/
  killed : Bool
  /-- It has exited, and its parent has not waited for it yet. -/
  zombie : Bool
  data : α

/-- Newest first. -/
abbrev Table (α : Type) := List (Proc α)

variable {α : Type} {t : Table α} {p q : Proc α} {root pid : Nat}

namespace Table

/-- Change the process `pid`. -/
def update (t : Table α) (pid : Nat) (f : Proc α → Proc α) : Table α :=
  t.map fun p => if p.pid = pid then f p else p

/-- `kill(-group, SIGKILL)`. -/
def killGroup (t : Table α) (group : Nat) : Table α :=
  t.map fun p => if p.group = group then { p with killed := true } else p

/-- The orphans of `pid` may go to the root, or to a live process older than `pid`. -/
def mayInherit (root pid heir : Nat) : Table α → Bool
  | [] => heir == root
  | p :: older =>
      if p.pid = pid then heir == root || older.any fun q => q.pid == heir && !q.zombie
      else mayInherit root pid heir older

/-- The process `pid` becomes a zombie, and its children go to `heir`. -/
def exit (t : Table α) (pid heir : Nat) : Table α :=
  t.map fun p =>
    if p.pid = pid then { p with zombie := true }
    else if p.parent = pid then { p with parent := heir }
    else p

/-- Its parent has waited for the process `pid`. -/
def reap (t : Table α) (pid : Nat) : Table α := t.filter (·.pid ≠ pid)

/-- The root adopts whom nobody else does. -/
theorem mayInherit_root (t : Table α) (root pid : Nat) : t.mayInherit root pid root = true := by
  induction t with
  | nil => exact beq_self_eq_true root
  | cons p older ih =>
      rw [mayInherit]
      split
      · rw [beq_self_eq_true, Bool.true_or]
      · exact ih

theorem mem_update {f : Proc α → Proc α} (h : p ∈ t.update pid f) :
    (∃ q ∈ t, q.pid = pid ∧ p = f q) ∨ (p ∈ t ∧ p.pid ≠ pid) := by
  obtain ⟨q, hq, rfl⟩ := List.mem_map.mp h
  by_cases hpid : q.pid = pid
  · rw [if_pos hpid]
    exact Or.inl ⟨q, hq, hpid, rfl⟩
  · rw [if_neg hpid]
    exact Or.inr ⟨hq, hpid⟩

theorem mem_killGroup {group : Nat} (h : p ∈ t.killGroup group) :
    ∃ q ∈ t, p = { q with killed := p.killed } ∧ (q.killed = true → p.killed = true) ∧
      (q.group = group → p.killed = true) := by
  obtain ⟨q, hq, rfl⟩ := List.mem_map.mp h
  refine ⟨q, hq, ?_⟩
  split
  · exact ⟨rfl, fun _ => rfl, fun _ => rfl⟩
  · exact ⟨rfl, id, fun hgroup => absurd hgroup ‹_›⟩

theorem mem_reap (h : p ∈ t.reap pid) : p ∈ t ∧ p.pid ≠ pid := by
  obtain ⟨hp, hpid⟩ := List.mem_filter.mp h
  exact ⟨hp, of_decide_eq_true hpid⟩

/-- What the end of `pid` makes of a process. -/
theorem mem_exit {heir : Nat} (h : p ∈ t.exit pid heir) :
    ∃ q ∈ t, (q.pid = pid ∧ p = { q with zombie := true }) ∨
      (q.pid ≠ pid ∧ q.parent = pid ∧ p = { q with parent := heir }) ∨
      (q.pid ≠ pid ∧ q.parent ≠ pid ∧ p = q) := by
  obtain ⟨q, hq, rfl⟩ := List.mem_map.mp h
  refine ⟨q, hq, ?_⟩
  by_cases hpid : q.pid = pid
  · rw [if_pos hpid]
    exact Or.inl ⟨hpid, rfl⟩
  · rw [if_neg hpid]
    by_cases hparent : q.parent = pid
    · rw [if_pos hparent]
      exact Or.inr (Or.inl ⟨hpid, hparent, rfl⟩)
    · rw [if_neg hparent]
      exact Or.inr (Or.inr ⟨hpid, hparent, rfl⟩)

end Table

/-- The parent of every process is the root or an older process that has not exited. -/
def Forest (root : Nat) : Table α → Prop
  | [] => True
  | p :: older =>
      (p.parent = root ∨ ∃ q ∈ older, q.pid = p.parent ∧ q.zombie = false) ∧
        p.pid ≠ root ∧ (∀ q ∈ older, q.pid ≠ p.pid) ∧ Forest root older

namespace Forest

theorem notRoot (h : Forest root t) (hp : p ∈ t) : p.pid ≠ root := by
  induction t with
  | nil => cases hp
  | cons q older ih =>
      rcases List.mem_cons.mp hp with rfl | hp
      · exact h.2.1
      · exact ih h.2.2.2 hp

theorem unique (h : Forest root t) (hp : p ∈ t) (hq : q ∈ t) (hpid : p.pid = q.pid) : p = q := by
  induction t with
  | nil => cases hp
  | cons r older ih =>
      obtain ⟨_, _, hfresh, hrest⟩ := h
      rcases List.mem_cons.mp hp with hpr | hpo <;> rcases List.mem_cons.mp hq with hqr | hqo
      · rw [hpr, hqr]
      · exact absurd (hpr ▸ hpid.symm) (hfresh q hqo)
      · exact absurd (hqr ▸ hpid) (hfresh p hpo)
      · exact ih hrest hpo hqo

/-- A forest without a child of its root is empty. -/
theorem eq_nil (h : Forest root t) (hroot : ∀ p ∈ t, p.parent ≠ root) : t = [] := by
  induction t with
  | nil => rfl
  | cons p older ih =>
      obtain ⟨hparent, _, _, hrest⟩ := h
      have hnil := ih hrest fun q hq => hroot q (List.mem_cons_of_mem _ hq)
      rcases hparent with hparent | ⟨q, hq, _⟩
      · exact absurd hparent (hroot p List.mem_cons_self)
      · rw [hnil] at hq
        cases hq

/-- A new process, started by the root or by a live process. -/
theorem fork (h : Forest root t) (hparent : p.parent = root ∨
      ∃ q ∈ t, q.pid = p.parent ∧ q.zombie = false) (hroot : p.pid ≠ root)
    (hfresh : ∀ q ∈ t, q.pid ≠ p.pid) : Forest root (p :: t) :=
  ⟨hparent, hroot, hfresh, h⟩

/-- The children of the root go to a new root. -/
theorem adopt (h : Forest root t) {root' : Nat} {f : Proc α → Proc α}
    (hf : ∀ p ∈ t, (f p).pid = p.pid ∧
      (f p).parent = (if p.parent = root then root' else p.parent) ∧ (f p).zombie = p.zombie)
    (hroot : ∀ p ∈ t, p.pid ≠ root') : Forest root' (t.map f) := by
  induction t with
  | nil => trivial
  | cons p older ih =>
      obtain ⟨hparent, _, hfresh, hrest⟩ := h
      have holder := fun q hq => hf q (List.mem_cons_of_mem p hq)
      obtain ⟨hpid, hfparent, _⟩ := hf p List.mem_cons_self
      refine ⟨?_, hpid ▸ hroot p List.mem_cons_self, ?_,
        ih hrest holder fun q hq => hroot q (List.mem_cons_of_mem p hq)⟩
      · rw [hfparent]
        by_cases hchild : p.parent = root
        · exact Or.inl (if_pos hchild)
        · rw [if_neg hchild]
          obtain ⟨q, hq, hqpid, hlive⟩ := hparent.resolve_left hchild
          obtain ⟨hpid', _, hzombie⟩ := holder q hq
          exact Or.inr ⟨f q, List.mem_map_of_mem hq, hpid'.trans hqpid, hzombie.trans hlive⟩
      · intro q' hq'
        obtain ⟨q, hq, rfl⟩ := List.mem_map.mp hq'
        rw [hpid, (holder q hq).1]
        exact hfresh q hq

/-- A change that is not about the tree. -/
theorem map (h : Forest root t) {f : Proc α → Proc α}
    (hf : ∀ p ∈ t, (f p).pid = p.pid ∧ (f p).parent = p.parent ∧ (f p).zombie = p.zombie) :
    Forest root (t.map f) := by
  refine h.adopt (fun p hp => ?_) fun _ => h.notRoot
  obtain ⟨hpid, hparent, hzombie⟩ := hf p hp
  refine ⟨hpid, ?_, hzombie⟩
  split
  · rw [hparent]
    assumption
  · exact hparent

theorem update (h : Forest root t) {f : Proc α → Proc α}
    (hf : ∀ p ∈ t, p.pid = pid →
      (f p).pid = p.pid ∧ (f p).parent = p.parent ∧ (f p).zombie = p.zombie) :
    Forest root (t.update pid f) := by
  apply h.map
  intro p hp
  split
  · exact hf p hp ‹_›
  · exact ⟨rfl, rfl, rfl⟩

theorem killGroup (h : Forest root t) (group : Nat) : Forest root (t.killGroup group) := by
  apply h.map
  intro p _
  split <;> exact ⟨rfl, rfl, rfl⟩

/-- No process of a forest is a child of a process that is not in it. -/
theorem parent_ne (h : Forest root t) (hroot : pid ≠ root) (hfresh : ∀ q ∈ t, q.pid ≠ pid)
    (hp : p ∈ t) : p.parent ≠ pid := by
  induction t with
  | nil => cases hp
  | cons q older ih =>
      obtain ⟨hparent, _, _, hrest⟩ := h
      have holder : ∀ q ∈ older, q.pid ≠ pid := fun q hq => hfresh q (List.mem_cons_of_mem _ hq)
      rcases List.mem_cons.mp hp with rfl | hp
      · rcases hparent with hparent | ⟨q, hq, hqpid, _⟩
        · rw [hparent]
          exact hroot.symm
        · rw [← hqpid]
          exact holder q hq
      · exact ih hrest holder hp

theorem heir (h : Forest root t) {heir : Nat} (hheir : t.mayInherit root pid heir = true) :
    heir = root ∨ heir ≠ pid ∧ ∃ q ∈ t, q.pid = heir ∧ q.zombie = false := by
  induction t with
  | nil => exact Or.inl (by simpa [Table.mayInherit] using hheir)
  | cons p older ih =>
      obtain ⟨_, _, hfresh, hrest⟩ := h
      rw [Table.mayInherit] at hheir
      split at hheir
      · rename_i heq
        rcases (Bool.or_eq_true _ _).mp hheir with hroot | hany
        · exact Or.inl (by simpa using hroot)
        · obtain ⟨q, hq, hlive⟩ := List.any_eq_true.mp hany
          obtain ⟨hqpid, hlive⟩ : q.pid = heir ∧ q.zombie = false := by simpa using hlive
          refine Or.inr ⟨?_, q, List.mem_cons_of_mem _ hq, hqpid, hlive⟩
          rw [← hqpid, ← heq]
          exact hfresh q hq
      · rcases ih hrest hheir with hroot | ⟨hne, q, hq, hlive⟩
        · exact Or.inl hroot
        · exact Or.inr ⟨hne, q, List.mem_cons_of_mem _ hq, hlive⟩

/-- A process other than `pid` is as alive as it was. -/
theorem exit_live (heir : Nat) (hp : p ∈ t) (hne : p.pid ≠ pid) :
    ∃ p' ∈ t.exit pid heir, p'.pid = p.pid ∧ p'.zombie = p.zombie := by
  refine ⟨_, List.mem_map_of_mem hp, ?_⟩
  rw [if_neg hne]
  split <;> exact ⟨rfl, rfl⟩

theorem exit (h : Forest root t) {heir : Nat} (hheir : t.mayInherit root pid heir = true) :
    Forest root (t.exit pid heir) := by
  induction t with
  | nil => trivial
  | cons p older ih =>
      have hspec := h.heir hheir
      obtain ⟨hparent, hroot, hfresh, hrest⟩ := h
      have hpids : ∀ q' ∈ Table.exit older pid heir, ∃ q ∈ older, q.pid = q'.pid := by
        intro q' hq'
        obtain ⟨q, hq, hcases⟩ := Table.mem_exit hq'
        rcases hcases with ⟨_, rfl⟩ | ⟨_, _, rfl⟩ | ⟨_, _, rfl⟩ <;> exact ⟨_, hq, rfl⟩
      by_cases heq : p.pid = pid
      · -- The children of the newest process would be newer, so nothing else changes.
        have hfresh' : ∀ q ∈ older, q.pid ≠ pid := fun q hq => heq ▸ hfresh q hq
        have hsame : Table.exit older pid heir = older := by
          refine Eq.trans (List.map_congr_left fun q hq => ?_) (List.map_id older)
          rw [if_neg (hfresh' q hq), if_neg (hrest.parent_ne (heq ▸ hroot) hfresh' hq)]
          rfl
        rw [Table.exit, List.map_cons, if_pos heq, ← Table.exit, hsame]
        exact ⟨hparent, hroot, hfresh, hrest⟩
      · have holder : Table.mayInherit root pid heir older = true := by
          rw [Table.mayInherit, if_neg heq] at hheir
          exact hheir
        have hlive : ∀ parent, parent ≠ pid →
            (∃ q ∈ older, q.pid = parent ∧ q.zombie = false) →
            ∃ q ∈ Table.exit older pid heir, q.pid = parent ∧ q.zombie = false := by
          rintro parent hne ⟨q, hq, rfl, hlive⟩
          obtain ⟨q', hq', hpid, hzombie⟩ := exit_live heir hq hne
          exact ⟨q', hq', hpid, hzombie.trans hlive⟩
        have hfresh' : ∀ q' ∈ Table.exit older pid heir, q'.pid ≠ p.pid := by
          intro q' hq'
          obtain ⟨q, hq, hpid⟩ := hpids q' hq'
          rw [← hpid]
          exact hfresh q hq
        rw [Table.exit, List.map_cons, if_neg heq, ← Table.exit]
        split
        · refine ⟨?_, hroot, hfresh', ih hrest holder⟩
          rcases hrest.heir holder with hroot | ⟨hne, hmem⟩
          · exact Or.inl hroot
          · exact Or.inr (hlive heir hne hmem)
        · refine ⟨?_, hroot, hfresh', ih hrest holder⟩
          rcases hparent with hparent | hmem
          · exact Or.inl hparent
          · exact Or.inr (hlive p.parent ‹_› hmem)

/-- Waiting for a process that has exited. -/
theorem reap (h : Forest root t) (hzombie : ∀ p ∈ t, p.pid = pid → p.zombie = true) :
    Forest root (t.reap pid) := by
  induction t with
  | nil => trivial
  | cons p older ih =>
      obtain ⟨hparent, hroot, hfresh, hrest⟩ := h
      have hrec := ih hrest fun q hq => hzombie q (List.mem_cons_of_mem _ hq)
      rw [Table.reap, List.filter_cons]
      split
      · refine ⟨?_, hroot, fun q hq => hfresh q (List.mem_filter.mp hq).1, hrec⟩
        rcases hparent with hparent | ⟨q, hq, hqpid, hlive⟩
        · exact Or.inl hparent
        · refine Or.inr ⟨q, List.mem_filter.mpr ⟨hq, ?_⟩, hqpid, hlive⟩
          rw [decide_eq_true_eq]
          intro heq
          rw [hzombie q (List.mem_cons_of_mem _ hq) heq] at hlive
          cases hlive
      · exact hrec

end Forest

end Unix
