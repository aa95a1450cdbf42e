/-
  Xlurm.Unix.Cred

  The credentials of a Unix process and the calls that change them.

  Root has all capabilities; anybody else can only exchange its own ids, and
  never the supplementary groups.  `noNewPrivs` cannot be unset, so a process
  that has it gains nothing from a set-user-ID program either.
-/

import Mathlib.Init

namespace Unix

structure Cred where
  ruid : Nat
  euid : Nat
  suid : Nat
  rgid : Nat
  egid : Nat
  sgid : Nat
  groups : List Nat
  /-- `PR_SET_NO_NEW_PRIVS`. -/
  noNewPrivs : Bool
  deriving DecidableEq

namespace Cred

/-- A process that has nothing but the identity of one user. -/
def of (uid gid : Nat) (groups : List Nat) (noNewPrivs : Bool) : Cred :=
  ⟨uid, uid, uid, gid, gid, gid, groups, noNewPrivs⟩

def privileged (c : Cred) : Bool := c.euid == 0

/-- The user ids that an unprivileged process may assume. -/
def ownsUid (c : Cred) (uid : Nat) : Bool := uid == c.ruid || uid == c.euid || uid == c.suid

def ownsGid (c : Cred) (gid : Nat) : Bool := gid == c.rgid || gid == c.egid || gid == c.sgid

/-- `setgroups`; `none` is `EPERM`. -/
def setgroups (c : Cred) (groups : List Nat) : Option Cred :=
  if c.privileged then some { c with groups } else none

def setresgid (c : Cred) (rgid egid sgid : Nat) : Option Cred :=
  if c.privileged || (c.ownsGid rgid && c.ownsGid egid && c.ownsGid sgid) then
    some { c with rgid, egid, sgid }
  else
    none

def setresuid (c : Cred) (ruid euid suid : Nat) : Option Cred :=
  if c.privileged || (c.ownsUid ruid && c.ownsUid euid && c.ownsUid suid) then
    some { c with ruid, euid, suid }
  else
    none

def setNoNewPrivs (c : Cred) : Cred := { c with noNewPrivs := true }

/-- A change of the effective ids clears the parent-death signal. -/
def sameEffective (c c' : Cred) : Bool := c.euid == c'.euid && c.egid == c'.egid

variable {c c' : Cred} {uid gid : Nat} {groups : List Nat} {b : Bool}

/-! ## What a user cannot change -/

theorem setgroups_of (h : uid ≠ 0) (groups' : List Nat) :
    (of uid gid groups b).setgroups groups' = none := by
  simp [setgroups, privileged, of, h]

theorem setresgid_of (h : uid ≠ 0) {rgid egid sgid : Nat}
    (hset : (of uid gid groups b).setresgid rgid egid sgid = some c') :
    c' = of uid gid groups b := by
  simp only [setresgid, privileged, ownsGid, of, Bool.or_self, beq_iff_eq, h, Bool.or_eq_true,
    Bool.and_eq_true, false_or, Option.ite_none_right_eq_some, Option.some.injEq] at hset
  obtain ⟨⟨⟨rfl, rfl⟩, rfl⟩, rfl⟩ := hset
  rfl

theorem setresuid_of (h : uid ≠ 0) {ruid euid suid : Nat}
    (hset : (of uid gid groups b).setresuid ruid euid suid = some c') :
    c' = of uid gid groups b := by
  simp only [setresuid, privileged, ownsUid, of, Bool.or_self, beq_iff_eq, h, Bool.or_eq_true,
    Bool.and_eq_true, false_or, Option.ite_none_right_eq_some, Option.some.injEq] at hset
  obtain ⟨⟨⟨rfl, rfl⟩, rfl⟩, rfl⟩ := hset
  rfl

/-! ## How root becomes a user -/

/-- Groups first, then the group ids, then the user ids: afterwards nothing of root is left. -/
theorem dropped (h : c.privileged = true) {c₁ c₂ c₃ : Cred} (hgroups : c.setgroups groups = some c₁)
    (hgid : c₁.setresgid gid gid gid = some c₂) (huid : c₂.setresuid uid uid uid = some c₃) :
    c₃.setNoNewPrivs = of uid gid groups true := by
  rw [setgroups, if_pos h] at hgroups
  cases hgroups
  have h₁ : privileged { c with groups } = true := h
  rw [setresgid, h₁] at hgid
  cases hgid
  have h₂ : privileged { c with groups, rgid := gid, egid := gid, sgid := gid } = true := h
  rw [setresuid, h₂] at huid
  cases huid
  rfl

/-! ## What no call changes -/

theorem setgroups_noNewPrivs {groups' : List Nat} (h : c.setgroups groups' = some c') :
    c'.noNewPrivs = c.noNewPrivs := by
  unfold setgroups at h
  split at h <;> cases h
  rfl

theorem setresgid_noNewPrivs {rgid egid sgid : Nat} (h : c.setresgid rgid egid sgid = some c') :
    c'.noNewPrivs = c.noNewPrivs := by
  unfold setresgid at h
  split at h <;> cases h
  rfl

theorem setresuid_noNewPrivs {ruid euid suid : Nat} (h : c.setresuid ruid euid suid = some c') :
    c'.noNewPrivs = c.noNewPrivs := by
  unfold setresuid at h
  split at h <;> cases h
  rfl

end Cred

end Unix
