/-
  Xlurm.Unix.Tree

  A tree of files with owners and modes, and what users can do to it.

  A directory is trusted if it is root's and nobody else can replace what root has in
  it, and closed if nobody else can change any of its entries.  A chain is a path that
  leads through trusted directories.  What users do neither breaks a chain nor makes one,
  as long as the tree is sheltered: root's directories that others may write to lie in
  closed ones.
-/

import Mathlib.Logic.Function.Basic
import Mathlib.Logic.Relation

namespace Unix

inductive Node
  | dir | link | file
  deriving DecidableEq

structure Inode where
  node : Node
  owner : Nat
  mode : Nat
  deriving DecidableEq

namespace Inode

def isDir (x : Inode) : Bool := x.node == .dir

/-- The group or others may write. -/
def writable (x : Inode) : Bool := x.mode &&& 0o022 != 0

def sticky (x : Inode) : Bool := x.mode &&& 0o1000 != 0

/-- Every user counts as a member of the group, and an owner can always give the right. -/
def mayWrite (x : Inode) (uid : Nat) : Bool := uid == x.owner || x.writable

def trusted (x : Inode) : Bool := x.isDir && x.owner == 0 && (!x.writable || x.sticky)

def closed (x : Inode) : Bool := x.isDir && x.owner == 0 && !x.writable

variable {x : Inode}

theorem trusted_iff :
    x.trusted = true ↔ x.isDir = true ∧ x.owner = 0 ∧ (x.writable = false ∨ x.sticky = true) := by
  simp [trusted, and_assoc]

theorem closed_iff : x.closed = true ↔ x.isDir = true ∧ x.owner = 0 ∧ x.writable = false := by
  simp [closed, and_assoc]

theorem trusted_of_closed (h : x.closed = true) : x.trusted = true := by
  obtain ⟨hdir, howner, hmode⟩ := closed_iff.mp h
  exact trusted_iff.mpr ⟨hdir, howner, Or.inl hmode⟩

end Inode

structure Tree where
  inode : Nat → Option Inode
  entry : Nat → String → Option Nat

/-- The inode of `/`. -/
def rootDir : Nat := 0

/-- Where a path leads; `elsewhere` if it goes on through a symbolic link. -/
inductive Lookup
  | found (i : Nat)
  | notFound
  | notDirectory
  | elsewhere
  deriving DecidableEq

/-- What a user may try. -/
inductive UserOp
  /-- Make a file, a directory or a symbolic link. -/
  | create (i dir : Nat) (name : String) (node : Node) (mode : Nat)
  /-- Make a hard link. -/
  | link (i dir : Nat) (name : String)
  | remove (dir : Nat) (name : String)
  | rename (dir : Nat) (name : String) (dir' : Nat) (name' : String)
  | chmod (i mode : Nat)

namespace Tree

/-- Follow a path from `cur` on; `follow` also follows a link at its end. -/
def walk (t : Tree) (follow : Bool) (cur : Nat) : List String → Lookup
  | [] => .found cur
  | name :: rest =>
      if (t.inode cur).any (·.isDir) then
        match t.entry cur name with
        | none => .notFound
        | some i =>
            if (t.inode i).any (·.node == .link) && (follow || !rest.isEmpty) then .elsewhere
            else t.walk follow i rest
      else .notDirectory

def setEntry (t : Tree) (dir : Nat) (name : String) (i : Option Nat) : Tree :=
  { t with entry := Function.update t.entry dir (Function.update (t.entry dir) name i) }

def setInode (t : Tree) (i : Nat) (x : Inode) : Tree :=
  { t with inode := Function.update t.inode i (some x) }

/-- Make a new entry in a directory. -/
def mayAdd (t : Tree) (uid dir : Nat) : Bool :=
  (t.inode dir).any fun x => x.isDir && x.mayWrite uid

/-- Take the entry for `i` out of a directory. -/
def mayRemove (t : Tree) (uid dir i : Nat) : Bool :=
  (t.inode dir).any fun x => x.isDir && x.mayWrite uid &&
    (!x.sticky || uid == x.owner || (t.inode i).any (uid == ·.owner))

/-- Give `i` a new parent: this changes a directory itself. -/
def mayMove (t : Tree) (uid i : Nat) : Bool :=
  (t.inode i).all fun x => !x.isDir || x.mayWrite uid

/-- What the user `uid` does, if permitted. -/
def user (t : Tree) (uid : Nat) : UserOp → Tree
  | .create i dir name node mode =>
      if t.mayAdd uid dir && (t.entry dir name).isNone && (t.inode i).isNone then
        (t.setInode i ⟨node, uid, mode⟩).setEntry dir name (some i)
      else t
  | .link i dir name =>
      if t.mayAdd uid dir && (t.entry dir name).isNone && (t.inode i).any (!·.isDir) then
        t.setEntry dir name (some i)
      else t
  | .remove dir name =>
      match t.entry dir name with
      | some i => if t.mayRemove uid dir i then t.setEntry dir name none else t
      | none => t
  | .rename dir name dir' name' =>
      match t.entry dir name with
      | some i =>
          if t.mayRemove uid dir i && t.mayAdd uid dir' &&
              (t.entry dir' name').all (t.mayRemove uid dir') &&
              (dir == dir' || t.mayMove uid i) then
            (t.setEntry dir name none).setEntry dir' name' (some i)
          else t
      | none => t
  | .chmod i mode =>
      match t.inode i with
      | some x => if uid = x.owner then t.setInode i { x with mode } else t
      | none => t

def Trusted (t : Tree) (dir : Nat) : Prop := ∃ x, t.inode dir = some x ∧ x.trusted = true

def Closed (t : Tree) (dir : Nat) : Prop := ∃ x, t.inode dir = some x ∧ x.closed = true

/-- The path leads from `d` to `e` through trusted directories, and `e` is one. -/
def Chain (t : Tree) : Nat → List String → Nat → Prop
  | d, [], e => d = e ∧ t.Trusted e
  | d, name :: rest, e => t.Trusted d ∧ ∃ i, t.entry d name = some i ∧ t.Chain i rest e

/-- Root's directories that others may write to lie in directories that only root may change. -/
def Sheltered (t : Tree) : Prop :=
  ∀ dir name i x, t.entry dir name = some i → t.inode i = some x → x.isDir = true → x.owner = 0 →
    x.writable = true → t.Closed dir

variable {t t' t'' : Tree} {uid dir d e i j : Nat} {name : String} {x : Inode} {op : UserOp}
  {path rest : List String}

/-! ## Paths -/

theorem Closed.trusted (h : t.Closed dir) : t.Trusted dir := by
  obtain ⟨x, hx, hclosed⟩ := h
  exact ⟨x, hx, Inode.trusted_of_closed hclosed⟩

theorem Trusted.isDir (h : t.Trusted dir) : (t.inode dir).any (·.isDir) = true := by
  obtain ⟨x, hx, htrusted⟩ := h
  rw [hx]
  exact (Inode.trusted_iff.mp htrusted).1

theorem Trusted.not_link (h : t.Trusted dir) : (t.inode dir).any (·.node == .link) = false := by
  obtain ⟨⟨node, owner, mode⟩, hx, htrusted⟩ := h
  rw [hx]
  cases node with
  | dir | file => rfl
  | link => cases (Inode.trusted_iff.mp htrusted).1

namespace Chain

theorem trusted_head (h : t.Chain d path e) : t.Trusted d := by
  cases path with
  | nil => exact h.1 ▸ h.2
  | cons name rest => exact h.1

theorem trusted (h : t.Chain d path e) : t.Trusted e := by
  induction path generalizing d with
  | nil => exact h.2
  | cons name rest ih =>
      obtain ⟨_, i, _, hrest⟩ := h
      exact ih hrest

theorem concat (h : t.Chain d path e) (hentry : t.entry e name = some i) (hi : t.Trusted i) :
    t.Chain d (path ++ [name]) i := by
  induction path generalizing d with
  | nil =>
      obtain ⟨rfl, he⟩ := h
      exact ⟨he, i, hentry, rfl, hi⟩
  | cons name' rest ih =>
      obtain ⟨hd, k, hk, hrest⟩ := h
      exact ⟨hd, k, hk, ih hrest⟩

/-- A path that begins with a chain goes on where the chain ends. -/
theorem walk (h : t.Chain d path e) (follow : Bool) (rest : List String) :
    t.walk follow d (path ++ rest) = t.walk follow e rest := by
  induction path generalizing d with
  | nil => rw [List.nil_append, h.1]
  | cons name path ih =>
      obtain ⟨hd, i, hi, hrest⟩ := h
      rw [List.cons_append, Tree.walk, if_pos hd.isDir, hi]
      show (if _ then _ else _) = _
      rw [hrest.trusted_head.not_link, Bool.false_and, if_neg Bool.false_ne_true]
      exact ih hrest

theorem found (h : t.Chain d path e) (follow : Bool) : t.walk follow d path = .found e := by
  have hwalk := h.walk follow []
  rw [List.append_nil] at hwalk
  exact hwalk

end Chain

/-- The last name of a path leads to its entry, if the link it may be is not followed. -/
theorem walk_last (t : Tree) (d : Nat) (name : String) :
    (∃ i, t.walk false d [name] = .found i ∧ t.entry d name = some i) ∨
      t.walk false d [name] = .notFound ∨ t.walk false d [name] = .notDirectory := by
  rw [walk]
  split
  · cases t.entry d name with
    | none => exact Or.inr (Or.inl rfl)
    | some i => exact Or.inl ⟨i, by simp [walk], rfl⟩
  · exact Or.inr (Or.inr rfl)

/-- An entry of a directory for something other than a link. -/
theorem walk_entry (hd : (t.inode d).any (·.isDir) = true) (hentry : t.entry d name = some i)
    (hi : (t.inode i).any (·.node == .link) = false) (follow : Bool) :
    t.walk follow d [name] = .found i := by
  rw [walk, if_pos hd, hentry]
  simp [hi, walk]

/-! ## What a user may change -/

theorem setEntry_entry (dir' : Nat) (name' : String) (i : Option Nat) :
    (t.setEntry dir name i).entry dir' name' =
      if dir' = dir ∧ name' = name then i else t.entry dir' name' := by
  by_cases hdir : dir' = dir
  · subst hdir
    by_cases hname : name' = name
    · subst hname
      simp [setEntry]
    · simp [setEntry, hname]
  · simp [setEntry, hdir]

/-- Somebody else's file in the place of somebody else's, or of none. -/
theorem setInode_inode (hroot : x.owner = 0) {k : Nat} {y : Inode} (hy : y.owner ≠ 0)
    (hk : ∀ z, t.inode k = some z → z.owner ≠ 0) :
    (t.setInode k y).inode i = some x ↔ t.inode i = some x := by
  by_cases heq : i = k
  · subst heq
    simp only [setInode, Function.update_self]
    constructor
    · rintro ⟨⟩
      exact absurd hroot hy
    · exact fun h => absurd hroot (hk x h)
  · simp [setInode, Function.update_of_ne heq]

section

variable (huid : uid ≠ 0)
include huid

/-- An entry that a user takes out of a trusted directory does not lead to what is root's. -/
theorem mayRemove_trusted (hdir : t.Trusted dir) (hi : t.inode i = some x) (hroot : x.owner = 0) :
    t.mayRemove uid dir i = false := by
  obtain ⟨y, hy, htrusted⟩ := hdir
  obtain ⟨_, howner, hclosed | hsticky⟩ := Inode.trusted_iff.mp htrusted
  · simp [mayRemove, hy, Inode.mayWrite, howner, huid, hclosed]
  · simp [mayRemove, hy, hi, howner, hroot, huid, hsticky]

theorem mayAdd_closed (hdir : t.Closed dir) : t.mayAdd uid dir = false := by
  obtain ⟨y, hy, hclosed⟩ := hdir
  obtain ⟨_, howner, hmode⟩ := Inode.closed_iff.mp hclosed
  simp [mayAdd, hy, Inode.mayWrite, howner, huid, hmode]

theorem mayRemove_closed (hdir : t.Closed dir) : t.mayRemove uid dir i = false := by
  obtain ⟨y, hy, hclosed⟩ := hdir
  obtain ⟨_, howner, hmode⟩ := Inode.closed_iff.mp hclosed
  simp [mayRemove, hy, Inode.mayWrite, howner, huid, hmode]

/-- What belongs to root stays as it is, and nothing new does. -/
theorem user_inode (hroot : x.owner = 0) :
    (t.user uid op).inode i = some x ↔ t.inode i = some x := by
  cases op with
  | create k dir name node mode =>
      rw [user]
      split
      · rename_i hmay
        simp only [Bool.and_eq_true, Option.isNone_iff_eq_none] at hmay
        apply setInode_inode hroot huid
        rw [hmay.2]
        nofun
      · exact Iff.rfl
  | chmod k mode =>
      rw [user]
      split
      · rename_i y hy
        split
        · rename_i howner
          have hother : y.owner ≠ 0 := howner ▸ huid
          apply setInode_inode (y := { y with mode }) hroot hother
          intro z hz
          cases hy.symm.trans hz
          exact hother
        · exact Iff.rfl
      · exact Iff.rfl
  | link k dir name =>
      rw [user]
      split <;> exact Iff.rfl
  | remove dir name =>
      rw [user]
      split
      · split <;> exact Iff.rfl
      · exact Iff.rfl
  | rename dir name dir' name' =>
      rw [user]
      split
      · split <;> exact Iff.rfl
      · exact Iff.rfl

end

/-- Where the target of a new entry comes from. -/
inductive Origin (t t' : Tree) (uid dir i : Nat) : Prop
  | created (x : Inode) (hx : t'.inode i = some x) (howner : x.owner = uid)
  | linked (x : Inode) (hx : t.inode i = some x) (hdir : x.isDir = false)
  | moved (dir₀ : Nat) (name₀ : String) (hentry : t.entry dir₀ name₀ = some i)
      (hremove : t.mayRemove uid dir₀ i = true) (hmove : dir₀ = dir ∨ t.mayMove uid i = true)

/-- How an entry looks after what a user has done. -/
inductive EntryAfter (t t' : Tree) (uid dir : Nat) (name : String) : Prop
  | same (h : t'.entry dir name = t.entry dir name)
  | gone (i : Nat) (h : t.entry dir name = some i) (hmay : t.mayRemove uid dir i = true)
      (hgone : t'.entry dir name = none)
  | put (i : Nat) (hfree : ∀ j, t.entry dir name = some j → t.mayRemove uid dir j = true)
      (hmay : t.mayAdd uid dir = true) (h : t'.entry dir name = some i)
      (horigin : Origin t t' uid dir i)

theorem not_entry {P : Nat → Prop} (hnone : t.entry dir name = none) :
    ∀ j, t.entry dir name = some j → P j := by
  intro j hj
  cases hnone.symm.trans hj

theorem entry_of_set {dir' : Nat} {name' : String} {k : Option Nat}
    (h : dir = dir' ∧ name = name' → EntryAfter t (t.setEntry dir' name' k) uid dir name) :
    EntryAfter t (t.setEntry dir' name' k) uid dir name := by
  by_cases heq : dir = dir' ∧ name = name'
  · exact h heq
  · apply EntryAfter.same
    rw [setEntry_entry, if_neg heq]

/-- Every change of an entry by a user. -/
theorem user_entry (uid dir : Nat) (name : String) (op : UserOp) :
    EntryAfter t (t.user uid op) uid dir name := by
  cases op with
  | chmod k mode =>
      rw [user]
      split
      · split <;> exact .same rfl
      · exact .same rfl
  | create k dir' name' node mode =>
      rw [user]
      split
      · rename_i hmay
        simp only [Bool.and_eq_true, Option.isNone_iff_eq_none] at hmay
        obtain ⟨⟨hadd, hnone⟩, hfresh⟩ := hmay
        by_cases heq : dir = dir' ∧ name = name'
        · obtain ⟨rfl, rfl⟩ := heq
          apply EntryAfter.put k (not_entry hnone) hadd (by simp [setEntry_entry])
          exact .created ⟨node, uid, mode⟩ (by simp [setEntry, setInode]) rfl
        · apply EntryAfter.same
          rw [setEntry_entry, if_neg heq]
          rfl
      · exact .same rfl
  | link k dir' name' =>
      rw [user]
      split
      · rename_i hmay
        simp only [Bool.and_eq_true, Option.isNone_iff_eq_none] at hmay
        obtain ⟨⟨hadd, hnone⟩, hnode⟩ := hmay
        apply entry_of_set
        rintro ⟨rfl, rfl⟩
        cases hx : t.inode k with
        | none =>
            rw [hx] at hnode
            cases hnode
        | some x =>
            apply EntryAfter.put k (not_entry hnone) hadd (by simp [setEntry_entry])
            exact .linked x hx (by simpa [hx] using hnode)
      · exact .same rfl
  | remove dir' name' =>
      rw [user]
      split
      · rename_i k hk
        split
        · rename_i hmay
          apply entry_of_set
          rintro ⟨rfl, rfl⟩
          exact .gone k hk hmay (by simp [setEntry_entry])
        · exact .same rfl
      · exact .same rfl
  | rename dir₀ name₀ dir' name' =>
      rw [user]
      split
      · rename_i k hk
        split
        · rename_i hmay
          simp only [Bool.and_eq_true, Bool.or_eq_true, beq_iff_eq] at hmay
          obtain ⟨⟨⟨hremove, hadd⟩, hfree⟩, hmove⟩ := hmay
          by_cases heq : dir = dir' ∧ name = name'
          · obtain ⟨rfl, rfl⟩ := heq
            apply EntryAfter.put k ?_ hadd (by simp [setEntry_entry])
            · exact .moved dir₀ name₀ hk hremove hmove
            · intro j hj
              rw [hj] at hfree
              exact hfree
          · by_cases hold : dir = dir₀ ∧ name = name₀
            · obtain ⟨rfl, rfl⟩ := hold
              refine .gone k hk hremove ?_
              rw [setEntry_entry, if_neg heq, setEntry_entry, if_pos ⟨rfl, rfl⟩]
            · apply EntryAfter.same
              rw [setEntry_entry, if_neg heq, setEntry_entry, if_neg hold]
        · exact .same rfl
      · exact .same rfl

/-! ## What root can rely on -/

section

variable (huid : uid ≠ 0)
include huid

theorem user_trusted : (t.user uid op).Trusted dir ↔ t.Trusted dir :=
  exists_congr fun _ => and_congr_left fun htrusted =>
    user_inode huid (Inode.trusted_iff.mp htrusted).2.1

theorem user_closed : (t.user uid op).Closed dir ↔ t.Closed dir :=
  exists_congr fun _ => and_congr_left fun hclosed =>
    user_inode huid (Inode.closed_iff.mp hclosed).2.1

theorem user_closed_entry (hdir : t.Closed dir) :
    (t.user uid op).entry dir name = t.entry dir name := by
  cases user_entry uid dir name op with
  | same h => exact h
  | gone i _ hmay _ =>
      rw [mayRemove_closed huid hdir] at hmay
      cases hmay
  | put i _ hmay _ _ =>
      rw [mayAdd_closed huid hdir] at hmay
      cases hmay

/-- A directory of root that has come to a new place was moved inside a directory in which
    users may replace what is root's. -/
theorem Origin.of_root (horigin : Origin t (t.user uid op) uid dir i) (ht : t.Sheltered)
    (hx : t.inode i = some x) (hdir : x.isDir = true) (hroot : x.owner = 0) :
    x.writable = false ∧ t.mayRemove uid dir i = true := by
  cases horigin with
  | created y hy howner =>
      rw [(user_inode huid hroot).mpr hx] at hy
      cases hy
      exact absurd (howner.symm.trans hroot) huid
  | linked y hy hnot =>
      rw [hx] at hy
      cases hy
      rw [hdir] at hnot
      cases hnot
  | moved dir₀ name₀ hentry hremove hmove =>
      -- Where others may write to it, nobody else can take it out of its place.
      have hwritable : x.writable = false := by
        by_contra h
        have hclosed := ht dir₀ name₀ i x hentry hx hdir hroot (by simpa using h)
        rw [mayRemove_closed huid hclosed] at hremove
        cases hremove
      refine ⟨hwritable, ?_⟩
      rcases hmove with rfl | hmove
      · exact hremove
      · simp [mayMove, hx, hdir, Inode.mayWrite, hroot, huid, hwritable] at hmove

theorem Sheltered.user (ht : t.Sheltered) : (t.user uid op).Sheltered := by
  intro dir name i x hentry hx hdir hroot hwritable
  have hx' := (user_inode huid hroot).mp hx
  cases user_entry uid dir name op with
  | same h =>
      rw [user_closed huid]
      exact ht dir name i x (h ▸ hentry) hx' hdir hroot hwritable
  | gone _ _ _ hgone =>
      rw [hgone] at hentry
      cases hentry
  | put k _ _ hk horigin =>
      rw [hk] at hentry
      cases hentry
      have hclosed := (horigin.of_root huid ht hx' hdir hroot).1
      rw [hwritable] at hclosed
      cases hclosed

/-- An entry for a trusted directory in a trusted directory: users cannot remove it, and they
    cannot make one. -/
theorem user_trusted_entry (ht : t.Sheltered) (hdir : t.Trusted dir) (hi : t.Trusted i) :
    (t.user uid op).entry dir name = some i ↔ t.entry dir name = some i := by
  obtain ⟨x, hx, htrusted⟩ := id hi
  obtain ⟨hisdir, hroot, _⟩ := Inode.trusted_iff.mp htrusted
  have hkept : t.mayRemove uid dir i ≠ true := by
    rw [mayRemove_trusted huid hdir hx hroot]
    exact Bool.false_ne_true
  cases user_entry uid dir name op with
  | same h => rw [h]
  | gone k hk hmay hgone =>
      rw [hgone, hk]
      constructor
      · nofun
      · rintro ⟨⟩
        exact absurd hmay hkept
  | put k hfree _ hk horigin =>
      rw [hk]
      constructor
      · rintro ⟨⟩
        exact absurd (horigin.of_root huid ht hx hisdir hroot).2 hkept
      · exact fun hentry => absurd (hfree i hentry) hkept

theorem user_chain (ht : t.Sheltered) : (t.user uid op).Chain d path e ↔ t.Chain d path e := by
  induction path generalizing d with
  | nil => exact and_congr_right fun _ => user_trusted huid
  | cons name rest ih =>
      constructor
      · rintro ⟨hd, i, hi, hrest⟩
        have hd' := (user_trusted huid).mp hd
        have hrest' := ih.mp hrest
        exact ⟨hd', i, (user_trusted_entry huid ht hd' hrest'.trusted_head).mp hi, hrest'⟩
      · rintro ⟨hd, i, hi, hrest⟩
        exact ⟨(user_trusted huid).mpr hd, i,
          (user_trusted_entry huid ht hd hrest.trusted_head).mpr hi, ih.mpr hrest⟩

end

/-- From `t` to `t'`, nothing has changed for root. -/
structure Agrees (t t' : Tree) : Prop where
  sheltered : t'.Sheltered
  inode : ∀ i x, x.owner = 0 → (t'.inode i = some x ↔ t.inode i = some x)
  closed : ∀ dir, t.Closed dir → t'.entry dir = t.entry dir
  chain : ∀ d path e, t'.Chain d path e ↔ t.Chain d path e

namespace Agrees

theorem refl (ht : t.Sheltered) : t.Agrees t :=
  ⟨ht, fun _ _ _ => Iff.rfl, fun _ _ => rfl, fun _ _ _ => Iff.rfl⟩

theorem user (ht : t.Sheltered) (huid : uid ≠ 0) (op : UserOp) : t.Agrees (t.user uid op) :=
  ⟨ht.user huid, fun _ _ => user_inode huid,
    fun _ hdir => funext fun _ => user_closed_entry huid hdir, fun _ _ _ => user_chain huid ht⟩

theorem is_closed (h : t.Agrees t') (hdir : t.Closed dir) : t'.Closed dir := by
  obtain ⟨x, hx, hclosed⟩ := hdir
  exact ⟨x, (h.inode dir x (Inode.closed_iff.mp hclosed).2.1).mpr hx, hclosed⟩

theorem trans (h : t.Agrees t') (h' : t'.Agrees t'') : t.Agrees t'' :=
  ⟨h'.sheltered, fun i x hroot => (h'.inode i x hroot).trans (h.inode i x hroot),
    fun dir hdir => (h'.closed dir (h.is_closed hdir)).trans (h.closed dir hdir),
    fun d path e => (h'.chain d path e).trans (h.chain d path e)⟩

end Agrees

/-! ## What root does -/

/-- Root has made directories, or has taken away the right to write to something. -/
structure Grows (t t' : Tree) : Prop where
  entry : ∀ dir name i, t.entry dir name = some i → t'.entry dir name = some i
  inode : ∀ i x, t.inode i = some x → ∃ x', t'.inode i = some x' ∧ x'.isDir = x.isDir ∧
    x'.owner = x.owner ∧ (x'.writable = false ∨ x' = x)
  /-- What others may write to is not new. -/
  writable : ∀ dir name i x, t'.entry dir name = some i → t'.inode i = some x →
    x.writable = true → t.entry dir name = some i ∧ t.inode i = some x

namespace Grows

theorem refl (t : Tree) : t.Grows t :=
  ⟨fun _ _ _ => id, fun _ x hx => ⟨x, hx, rfl, rfl, Or.inr rfl⟩, fun _ _ _ _ hi hx _ => ⟨hi, hx⟩⟩

variable (h : t.Grows t')
include h

theorem trusted (hdir : t.Trusted dir) : t'.Trusted dir := by
  obtain ⟨x, hx, htrusted⟩ := hdir
  obtain ⟨hisdir, hroot, hmode⟩ := Inode.trusted_iff.mp htrusted
  obtain ⟨x', hx', hisdir', hroot', hkept⟩ := h.inode dir x hx
  refine ⟨x', hx', Inode.trusted_iff.mpr ⟨hisdir'.trans hisdir, hroot'.trans hroot, ?_⟩⟩
  rcases hkept with hclosed | rfl
  · exact Or.inl hclosed
  · exact hmode

theorem closed (hdir : t.Closed dir) : t'.Closed dir := by
  obtain ⟨x, hx, hclosed⟩ := hdir
  obtain ⟨hisdir, hroot, hmode⟩ := Inode.closed_iff.mp hclosed
  obtain ⟨x', hx', hisdir', hroot', hkept⟩ := h.inode dir x hx
  refine ⟨x', hx', Inode.closed_iff.mpr ⟨hisdir'.trans hisdir, hroot'.trans hroot, ?_⟩⟩
  rcases hkept with hclosed' | rfl
  · exact hclosed'
  · exact hmode

theorem sheltered (ht : t.Sheltered) : t'.Sheltered := by
  intro dir name i x hi hx hdir hroot hwritable
  obtain ⟨hi', hx'⟩ := h.writable dir name i x hi hx hwritable
  exact h.closed (ht dir name i x hi' hx' hdir hroot hwritable)

theorem chain (hchain : t.Chain d path e) : t'.Chain d path e := by
  induction path generalizing d with
  | nil => exact ⟨hchain.1, h.trusted hchain.2⟩
  | cons name rest ih =>
      obtain ⟨hd, i, hi, hrest⟩ := hchain
      exact ⟨h.trusted hd, i, h.entry d name i hi, ih hrest⟩

end Grows

/-- A new directory that only its owner may write to. -/
theorem grows_mkdir (hentry : t.entry dir name = none) (hi : t.inode i = none)
    (hmode : x.writable = false) : t.Grows ((t.setInode i x).setEntry dir name (some i)) := by
  refine ⟨?_, ?_, ?_⟩
  · intro dir' name' k hk
    rw [setEntry_entry, if_neg]
    · exact hk
    · rintro ⟨rfl, rfl⟩
      rw [hentry] at hk
      cases hk
  · intro k y hy
    have hne : k ≠ i := by
      rintro rfl
      rw [hi] at hy
      cases hy
    exact ⟨y, (Function.update_of_ne hne _ _).trans hy, rfl, rfl, Or.inr rfl⟩
  · intro dir' name' k y hk hy hwritable
    have hne : k ≠ i := by
      rintro rfl
      cases (Function.update_self _ _ _).symm.trans hy
      rw [hmode] at hwritable
      cases hwritable
    refine ⟨?_, (Function.update_of_ne hne _ _).symm.trans hy⟩
    rw [setEntry_entry] at hk
    split at hk
    · cases hk
      exact absurd rfl hne
    · exact hk

/-- A mode with which only the owner may write. -/
theorem grows_chmod (mode : Nat) (hmode : mode &&& 0o022 = 0) (hi : t.inode i = some x) :
    t.Grows (t.setInode i { x with mode }) := by
  have hclosed : Inode.writable { x with mode } = false := by
    show (mode &&& 0o022 != 0) = false
    rw [hmode]
    rfl
  refine ⟨fun _ _ _ => id, ?_, ?_⟩
  · intro k y hy
    by_cases heq : k = i
    · subst heq
      rw [hi] at hy
      cases hy
      exact ⟨{ x with mode }, Function.update_self _ _ _, rfl, rfl, Or.inl hclosed⟩
    · exact ⟨y, (Function.update_of_ne heq _ _).trans hy, rfl, rfl, Or.inr rfl⟩
  · intro dir name k y hk hy hwritable
    have hne : k ≠ i := by
      rintro rfl
      cases (Function.update_self _ _ _).symm.trans hy
      rw [hclosed] at hwritable
      cases hwritable
    exact ⟨hk, (Function.update_of_ne hne _ _).symm.trans hy⟩

end Tree

end Unix
