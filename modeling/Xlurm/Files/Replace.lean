/-
  Xlurm.Files.Replace

  Replacing files by renaming, with several writers that may stop at any moment.

  A writer creates a temporary (or truncates one that an earlier writer left),
  writes the bytes of a value to it in pieces, and renames it over its target.
  It has one temporary for several targets, and no two live writers share one.
  Names and files are told apart: a name refers to an inode, and an open file is
  written through its inode, whatever happens to the name.
-/

import Mathlib.Logic.Function.Basic

namespace Replace

/-- How temporaries are named and values written. -/
structure Layout (P V : Type) where
  temporary : Nat → P → P
  target : P → Bool
  bytes : V → List UInt8
  /-- Writers have temporaries of their own. -/
  own : ∀ {pid pid' : Nat} {path path' : P}, target path = true → target path' = true →
    temporary pid path = temporary pid' path' → pid = pid'
  /-- No temporary is a target. -/
  apart : ∀ {pid : Nat} {path : P}, target path = true → target (temporary pid path) = false

/-- A replacement under way: the open temporary, the offset in it, and the bytes that are not
    yet written. -/
structure Writing (P V : Type) where
  path : P
  value : V
  inode : Nat
  offset : Nat
  rest : List UInt8

inductive Process (P V : Type)
  | gone
  | idle
  | writing (w : Writing P V)

structure Disk (P V : Type) where
  inode : P → Option Nat
  content : Nat → List UInt8
  /-- Inodes from here on are not used. -/
  fresh : Nat
  process : Nat → Process P V
  /-- Ghost: every value that was to replace a file. -/
  begun : List (P × V)

inductive Action (P V : Type)
  /-- A process starts, with an id that no live process has. -/
  | start (pid : Nat)
  /-- A process ends or crashes. -/
  | stop (pid : Nat)
  /-- Open the temporary: create or truncate it. -/
  | create (pid : Nat) (path : P) (value : V)
  /-- Write at most `n` of the remaining bytes. -/
  | write (pid n : Nat)
  /-- Rename the complete temporary. -/
  | rename (pid : Nat)
  /-- A call fails; the replacement is given up. -/
  | fail (pid : Nat)
  /-- Any file is removed. -/
  | unlink (path : P)

variable {P V : Type}

/-- `write` at an offset; what is missing before it reads as zeros. -/
def overwrite (content : List UInt8) (offset : Nat) (bytes : List UInt8) : List UInt8 :=
  content.take offset ++ List.replicate (offset - content.length) 0 ++ bytes ++
    content.drop (offset + bytes.length)

theorem overwrite_length (content bytes : List UInt8) :
    overwrite content content.length bytes = content ++ bytes := by
  simp [overwrite]

namespace Disk

/-- No files and no processes. -/
def init : Disk P V where
  inode _ := none
  content _ := []
  fresh := 0
  process _ := .gone
  begun := []

def setProcess (d : Disk P V) (pid : Nat) (p : Process P V) : Disk P V :=
  { d with process := Function.update d.process pid p }

def setContent (d : Disk P V) (inode : Nat) (bytes : List UInt8) : Disk P V :=
  { d with content := Function.update d.content inode bytes }

@[simp] theorem setContent_self (d : Disk P V) (i : Nat) (bytes : List UInt8) :
    (d.setContent i bytes).content i = bytes := by
  rw [setContent]
  exact Function.update_self i bytes d.content

theorem setContent_of_ne (d : Disk P V) {i j : Nat} (bytes : List UInt8) (hne : j ≠ i) :
    (d.setContent i bytes).content j = d.content j := by
  rw [setContent]
  exact Function.update_of_ne hne bytes d.content

variable [DecidableEq P]

def setName (d : Disk P V) (path : P) (inode : Option Nat) : Disk P V :=
  { d with inode := Function.update d.inode path inode }

/-- Open this temporary, which is empty then. -/
def opened (d : Disk P V) (temporary : P) : Nat × Disk P V :=
  match d.inode temporary with
  | some i => (i, d.setContent i [])
  | none =>
      (d.fresh, { d.setName temporary (some d.fresh) with
        fresh := d.fresh + 1 }.setContent d.fresh [])

/-- Begin a replacement. -/
def create (L : Layout P V) (d : Disk P V) (pid : Nat) (path : P) (value : V) : Disk P V :=
  let (i, d') := d.opened (L.temporary pid path)
  { d'.setProcess pid (.writing ⟨path, value, i, 0, L.bytes value⟩) with
    begun := (path, value) :: d.begun }

def write (d : Disk P V) (pid : Nat) (w : Writing P V) (n : Nat) : Disk P V :=
  (d.setContent w.inode (overwrite (d.content w.inode) w.offset (w.rest.take n))).setProcess pid
    (.writing { w with offset := w.offset + (w.rest.take n).length, rest := w.rest.drop n })

/-- End a replacement; the rename fails if the temporary is not there. -/
def rename (L : Layout P V) (d : Disk P V) (pid : Nat) (w : Writing P V) : Disk P V :=
  match d.inode (L.temporary pid w.path) with
  | some i =>
      ((d.setName (L.temporary pid w.path) none).setName w.path (some i)).setProcess pid .idle
  | none => d.setProcess pid .idle

/-- One action; an action that is not possible changes nothing. -/
def step (L : Layout P V) (d : Disk P V) : Action P V → Disk P V
  | .start pid =>
      match d.process pid with
      | .gone => d.setProcess pid .idle
      | _ => d
  | .stop pid => d.setProcess pid .gone
  | .create pid path value =>
      match d.process pid with
      | .idle => if L.target path then d.create L pid path value else d
      | _ => d
  | .write pid n =>
      match d.process pid with
      | .writing w => d.write pid w n
      | _ => d
  | .rename pid =>
      match d.process pid with
      | .writing w => if w.rest = [] then d.rename L pid w else d
      | _ => d
  | .fail pid =>
      match d.process pid with
      | .writing _ => d.setProcess pid .idle
      | _ => d
  | .unlink path => d.setName path none

def run (L : Layout P V) (d : Disk P V) (actions : List (Action P V)) : Disk P V :=
  actions.foldl (step L) d

/-- A reader that has an inode open and got `before` from it so far.  Others act before each of
    its reads, which returns at most `n + 1` bytes; the first that returns none ends the file. -/
def read (L : Layout P V) (d : Disk P V) (inode : Nat) (before : List UInt8) :
    List (List (Action P V) × Nat) → Option (List UInt8)
  | [] => none
  | (actions, n) :: reads =>
      let d' := d.run L actions
      match ((d'.content inode).drop before.length).take (n + 1) with
      | [] => some before
      | bytes => d'.read L inode (before ++ bytes) reads

end Disk

/-! ## The invariant -/

/-- A replacement under way: its inode is named by its own temporary or not at all, and holds
    exactly what was written so far. -/
structure Writing.Sound (L : Layout P V) (d : Disk P V) (pid : Nat) (w : Writing P V) : Prop where
  target : L.target w.path = true
  bounded : w.inode < d.fresh
  named : ∀ path, d.inode path = some w.inode → path = L.temporary pid w.path
  names : ∀ i, d.inode (L.temporary pid w.path) = some i → i = w.inode
  atEnd : w.offset = (d.content w.inode).length
  written : d.content w.inode ++ w.rest = L.bytes w.value
  begun : (w.path, w.value) ∈ d.begun

structure Inv (L : Layout P V) (d : Disk P V) : Prop where
  bounded : ∀ path i, d.inode path = some i → i < d.fresh
  injective : ∀ path path' i, d.inode path = some i → d.inode path' = some i → path = path'
  writing : ∀ pid w, d.process pid = .writing w → w.Sound L d pid
  distinct : ∀ pid pid' w w', d.process pid = .writing w → d.process pid' = .writing w' →
    w.inode = w'.inode → pid = pid'
  complete : ∀ path i, L.target path = true → d.inode path = some i →
    ∃ value, (path, value) ∈ d.begun ∧ d.content i = L.bytes value

/-- Nobody can change the content of this inode any more. -/
structure Sealed (L : Layout P V) (d : Disk P V) (i : Nat) : Prop where
  bounded : i < d.fresh
  closed : ∀ pid w, d.process pid = .writing w → w.inode ≠ i
  unnamed : ∀ pid path, L.target path = true → d.inode (L.temporary pid path) ≠ some i

variable {L : Layout P V} {d : Disk P V}

theorem Inv.init : Inv L (Disk.init : Disk P V) where
  bounded := nofun
  injective := nofun
  writing := nofun
  distinct := nofun
  complete := nofun

/-- What a target names is sealed. -/
theorem Inv.isSealed (h : Inv L d) {path : P} {i : Nat} (hpath : L.target path = true)
    (hi : d.inode path = some i) : Sealed L d i where
  bounded := h.bounded path i hi
  closed := by
    rintro pid w hw rfl
    have hname := (h.writing pid w hw).named path hi
    have hapart : L.target (L.temporary pid w.path) = false := L.apart (h.writing pid w hw).target
    rw [hname, hapart] at hpath
    cases hpath
  unnamed := by
    intro pid path' hpath' hi'
    have hname := h.injective _ _ i hi hi'
    rw [hname, L.apart hpath'] at hpath
    cases hpath

/-! ## One action -/

theorem process_of_setProcess {pid pid' : Nat} {p : Process P V} {w : Writing P V}
    (h : (d.setProcess pid p).process pid' = .writing w) :
    (pid' = pid ∧ p = .writing w) ∨ (pid' ≠ pid ∧ d.process pid' = .writing w) := by
  have hupdate : Function.update d.process pid p pid' = .writing w := h
  by_cases heq : pid' = pid
  · subst heq
    rw [Function.update_self] at hupdate
    exact Or.inl ⟨rfl, hupdate⟩
  · rw [Function.update_of_ne heq] at hupdate
    exact Or.inr ⟨heq, hupdate⟩

/-- A process that is not writing from now on. -/
theorem Inv.setProcess (h : Inv L d) {p : Process P V} (pid : Nat) (hp : ∀ w, p ≠ .writing w) :
    Inv L (d.setProcess pid p) := by
  have hold : ∀ pid' w, (d.setProcess pid p).process pid' = .writing w →
      d.process pid' = .writing w := by
    intro pid' w hw
    rcases process_of_setProcess hw with ⟨_, heq⟩ | ⟨_, hw⟩
    · exact absurd heq (hp w)
    · exact hw
  refine ⟨h.bounded, h.injective, ?_, ?_, h.complete⟩
  · intro pid' w hw
    obtain ⟨target, bounded, named, names, atEnd, written, begun⟩ := h.writing pid' w (hold pid' w hw)
    exact ⟨target, bounded, named, names, atEnd, written, begun⟩
  · intro pid₁ pid₂ w₁ w₂ h₁ h₂
    exact h.distinct pid₁ pid₂ w₁ w₂ (hold _ _ h₁) (hold _ _ h₂)

theorem Sealed.setProcess {i : Nat} (h : Sealed L d i) {p : Process P V} (pid : Nat)
    (hp : ∀ w, p = .writing w → w.inode ≠ i) : Sealed L (d.setProcess pid p) i := by
  refine ⟨h.bounded, ?_, h.unnamed⟩
  intro pid' w hw
  rcases process_of_setProcess hw with ⟨_, heq⟩ | ⟨_, hw⟩
  · exact hp w heq
  · exact h.closed pid' w hw

/-- The writer of an inode puts more bytes into it. -/
theorem Inv.write (h : Inv L d) {pid : Nat} {w : Writing P V} (hw : d.process pid = .writing w)
    (n : Nat) : Inv L (d.write pid w n) := by
  have hsound := h.writing pid w hw
  have hself : (d.write pid w n).content w.inode = d.content w.inode ++ w.rest.take n := by
    rw [← overwrite_length, ← hsound.atEnd]
    exact d.setContent_self w.inode _
  have hcontent : ∀ i, i ≠ w.inode → (d.write pid w n).content i = d.content i :=
    fun i hne => d.setContent_of_ne _ hne
  -- Nobody else has this inode open.
  have hother : ∀ pid' w', pid' ≠ pid → d.process pid' = .writing w' → w'.inode ≠ w.inode :=
    fun pid' w' hne hw' heq => hne (h.distinct pid' pid w' w hw' hw heq)
  refine ⟨h.bounded, h.injective, ?_, ?_, ?_⟩
  · intro pid' w' hw'
    rcases process_of_setProcess hw' with ⟨rfl, heq⟩ | ⟨hne, hold⟩
    · cases heq
      refine ⟨hsound.target, hsound.bounded, hsound.named, hsound.names, ?_, ?_, hsound.begun⟩
      · show w.offset + (w.rest.take n).length = ((d.write pid' w n).content w.inode).length
        rw [hself, List.length_append, hsound.atEnd]
      · show (d.write pid' w n).content w.inode ++ w.rest.drop n = L.bytes w.value
        rw [hself, List.append_assoc, List.take_append_drop, hsound.written]
    · obtain ⟨target, bounded, named, names, atEnd, written, begun⟩ := h.writing pid' w' hold
      have hkept := hcontent _ (hother pid' w' hne hold)
      exact ⟨target, bounded, named, names, by rw [hkept, atEnd], by rw [hkept, written], begun⟩
  · intro pid₁ pid₂ w₁ w₂ h₁ h₂ heq
    rcases process_of_setProcess h₁ with ⟨rfl, heq₁⟩ | ⟨hne₁, hold₁⟩
    · cases heq₁
      rcases process_of_setProcess h₂ with ⟨rfl, _⟩ | ⟨hne₂, hold₂⟩
      · rfl
      · exact absurd heq.symm (hother pid₂ w₂ hne₂ hold₂)
    · rcases process_of_setProcess h₂ with ⟨rfl, heq₂⟩ | ⟨_, hold₂⟩
      · cases heq₂
        exact absurd heq (hother pid₁ w₁ hne₁ hold₁)
      · exact h.distinct pid₁ pid₂ w₁ w₂ hold₁ hold₂ heq
  · intro path i hpath hi
    obtain ⟨value, hbegun, hcomplete⟩ := h.complete path i hpath hi
    have hne : i ≠ w.inode := ((h.isSealed hpath hi).closed pid w hw).symm
    exact ⟨value, hbegun, (hcontent i hne).trans hcomplete⟩

theorem Sealed.write {i : Nat} (h : Sealed L d i) {pid : Nat} {w : Writing P V}
    (hw : d.process pid = .writing w) (n : Nat) :
    Sealed L (d.write pid w n) i ∧ (d.write pid w n).content i = d.content i := by
  have hne := h.closed pid w hw
  have hopen : Sealed L (d.setContent w.inode
      (overwrite (d.content w.inode) w.offset (w.rest.take n))) i :=
    ⟨h.bounded, h.closed, h.unnamed⟩
  refine ⟨hopen.setProcess pid ?_, d.setContent_of_ne _ hne.symm⟩
  rintro w' heq
  cases heq
  exact hne

/-- A process starts to write to an inode that is its own. -/
theorem Inv.begin (h : Inv L d) (pid : Nat) {path : P} (value : V) {i : Nat}
    (hpath : L.target path = true) (hbound : i < d.fresh)
    (hnamed : ∀ path', d.inode path' = some i → path' = L.temporary pid path)
    (hnames : ∀ j, d.inode (L.temporary pid path) = some j → j = i)
    (hclosed : ∀ pid' w, d.process pid' = .writing w → w.inode ≠ i) :
    Inv L { (d.setContent i []).setProcess pid (.writing ⟨path, value, i, 0, L.bytes value⟩) with
      begun := (path, value) :: d.begun } := by
  have hself := d.setContent_self i []
  have hcontent : ∀ j, j ≠ i → (d.setContent i []).content j = d.content j :=
    fun j hne => d.setContent_of_ne [] hne
  refine ⟨h.bounded, h.injective, ?_, ?_, ?_⟩
  -- The new writer has written nothing yet; the others do not write to this inode.
  · intro pid' w hw
    rcases process_of_setProcess hw with ⟨rfl, heq⟩ | ⟨_, hold⟩
    · cases heq
      refine ⟨hpath, hbound, hnamed, hnames, ?_, ?_, List.mem_cons_self⟩
      · show 0 = ((d.setContent i []).content i).length
        rw [hself, List.length_nil]
      · show (d.setContent i []).content i ++ L.bytes value = L.bytes value
        rw [hself, List.nil_append]
    · obtain ⟨target, bounded, named, names, atEnd, written, begun⟩ := h.writing pid' w hold
      have hkept := hcontent _ (hclosed pid' w hold)
      refine ⟨target, bounded, named, names, ?_, ?_, List.mem_cons_of_mem _ begun⟩
      · show w.offset = ((d.setContent i []).content w.inode).length
        rw [hkept, atEnd]
      · show (d.setContent i []).content w.inode ++ w.rest = L.bytes w.value
        rw [hkept, written]
  · intro pid₁ pid₂ w₁ w₂ h₁ h₂ heq
    rcases process_of_setProcess h₁ with ⟨rfl, heq₁⟩ | ⟨_, hold₁⟩
    · cases heq₁
      rcases process_of_setProcess h₂ with ⟨rfl, _⟩ | ⟨_, hold₂⟩
      · rfl
      · exact absurd heq.symm (hclosed pid₂ w₂ hold₂)
    · rcases process_of_setProcess h₂ with ⟨rfl, heq₂⟩ | ⟨_, hold₂⟩
      · cases heq₂
        exact absurd heq (hclosed pid₁ w₁ hold₁)
      · exact h.distinct pid₁ pid₂ w₁ w₂ hold₁ hold₂ heq
  -- A target names another inode than the temporary.
  · intro path' j hpath' hj
    obtain ⟨value', hbegun, hcomplete⟩ := h.complete path' j hpath' hj
    have hne : j ≠ i := by
      rintro rfl
      rw [hnamed path' hj, L.apart hpath] at hpath'
      cases hpath'
    exact ⟨value', List.mem_cons_of_mem _ hbegun, (hcontent j hne).trans hcomplete⟩

variable [DecidableEq P]

theorem inode_of_setName {path path' : P} {inode : Option Nat} {i : Nat}
    (h : (d.setName path inode).inode path' = some i) :
    (path' = path ∧ inode = some i) ∨ (path' ≠ path ∧ d.inode path' = some i) := by
  have hupdate : Function.update d.inode path inode path' = some i := h
  by_cases heq : path' = path
  · subst heq
    rw [Function.update_self] at hupdate
    exact Or.inl ⟨rfl, hupdate⟩
  · rw [Function.update_of_ne heq] at hupdate
    exact Or.inr ⟨heq, hupdate⟩

theorem inode_of_unlink {path path' : P} {i : Nat}
    (h : (d.setName path none).inode path' = some i) : d.inode path' = some i := by
  rcases inode_of_setName h with ⟨_, hnone⟩ | ⟨_, hi⟩
  · cases hnone
  · exact hi

/-- A new name keeps the names apart if what it refers to had none. -/
theorem Inv.injective_setName (h : Inv L d) {path : P} {i : Nat}
    (hunnamed : ∀ path', d.inode path' ≠ some i) (path₁ path₂ : P) (j : Nat)
    (h₁ : (d.setName path (some i)).inode path₁ = some j)
    (h₂ : (d.setName path (some i)).inode path₂ = some j) : path₁ = path₂ := by
  rcases inode_of_setName h₁ with ⟨rfl, heq₁⟩ | ⟨_, hold₁⟩
  · cases heq₁
    rcases inode_of_setName h₂ with ⟨rfl, _⟩ | ⟨_, hold₂⟩
    · rfl
    · exact absurd hold₂ (hunnamed path₂)
  · rcases inode_of_setName h₂ with ⟨rfl, heq₂⟩ | ⟨_, hold₂⟩
    · cases heq₂
      exact absurd hold₁ (hunnamed path₁)
    · exact h.injective path₁ path₂ j hold₁ hold₂

/-- A name is removed. -/
theorem Inv.unlink (h : Inv L d) (path : P) : Inv L (d.setName path none) := by
  refine ⟨?_, ?_, ?_, h.distinct, ?_⟩
  · intro path' i hi
    exact h.bounded path' i (inode_of_unlink hi)
  · intro path₁ path₂ i h₁ h₂
    exact h.injective _ _ i (inode_of_unlink h₁) (inode_of_unlink h₂)
  · intro pid w hw
    obtain ⟨target, bounded, named, names, atEnd, written, begun⟩ := h.writing pid w hw
    exact ⟨target, bounded, fun path' hi => named path' (inode_of_unlink hi),
      fun i hi => names i (inode_of_unlink hi), atEnd, written, begun⟩
  · intro path' i hpath' hi
    exact h.complete path' i hpath' (inode_of_unlink hi)

theorem Sealed.unlink {i : Nat} (h : Sealed L d i) (path : P) : Sealed L (d.setName path none) i :=
  ⟨h.bounded, h.closed, fun pid path' hpath' hi =>
    h.unnamed pid path' hpath' (inode_of_unlink hi)⟩

/-- A complete file gets the name of its target. -/
theorem Inv.place (h : Inv L d) {path : P} {i : Nat} {value : V} (hpath : L.target path = true)
    (hbound : i < d.fresh) (hunnamed : ∀ path', d.inode path' ≠ some i)
    (hclosed : ∀ pid w, d.process pid = .writing w → w.inode ≠ i)
    (hbegun : (path, value) ∈ d.begun) (hcontent : d.content i = L.bytes value) :
    Inv L (d.setName path (some i)) := by
  refine ⟨?_, h.injective_setName hunnamed, ?_, h.distinct, ?_⟩
  · intro path' j hj
    rcases inode_of_setName hj with ⟨_, heq⟩ | ⟨_, hj⟩
    · cases heq
      exact hbound
    · exact h.bounded path' j hj
  -- No process writes to it any more.
  · intro pid w hw
    obtain ⟨target, bounded, named, names, atEnd, written, begun⟩ := h.writing pid w hw
    refine ⟨target, bounded, ?_, ?_, atEnd, written, begun⟩
    · intro path' hj
      rcases inode_of_setName hj with ⟨_, heq⟩ | ⟨_, hj⟩
      · exact absurd (Option.some.inj heq).symm (hclosed pid w hw)
      · exact named path' hj
    · intro j hj
      rcases inode_of_setName hj with ⟨heq, _⟩ | ⟨_, hj⟩
      · rw [← heq, L.apart target] at hpath
        cases hpath
      · exact names j hj
  · intro path' j hpath' hj
    rcases inode_of_setName hj with ⟨rfl, heq⟩ | ⟨_, hj⟩
    · cases heq
      exact ⟨value, hbegun, hcontent⟩
    · exact h.complete path' j hpath' hj

theorem Sealed.place {i j : Nat} (h : Sealed L d j) {path : P} (hpath : L.target path = true) :
    Sealed L (d.setName path (some i)) j := by
  refine ⟨h.bounded, h.closed, ?_⟩
  intro pid path' hpath' hj
  rcases inode_of_setName hj with ⟨heq, _⟩ | ⟨_, hj⟩
  · rw [← heq, L.apart hpath'] at hpath
    cases hpath
  · exact h.unnamed pid path' hpath' hj

theorem Inv.rename (h : Inv L d) {pid : Nat} {w : Writing P V} (hw : d.process pid = .writing w)
    (hrest : w.rest = []) : Inv L (d.rename L pid w) := by
  have hsound := h.writing pid w hw
  have hidle : Inv L (d.setProcess pid .idle) := h.setProcess pid nofun
  rw [Disk.rename]
  split
  · rename_i i hi
    obtain rfl := hsound.names i hi
    -- The three changes are about different things, so their order does not matter.
    show Inv L (((d.setProcess pid .idle).setName (L.temporary pid w.path) none).setName w.path
      (some w.inode))
    have hwritten : d.content w.inode = L.bytes w.value := by
      have happend := hsound.written
      rwa [hrest, List.append_nil] at happend
    apply (hidle.unlink (L.temporary pid w.path)).place hsound.target hsound.bounded ?_ ?_
      hsound.begun hwritten
    · intro path' hj
      rcases inode_of_setName hj with ⟨_, hnone⟩ | ⟨hne, hj⟩
      · cases hnone
      · exact hne (hsound.named path' hj)
    · intro pid' w' hw' heq
      rcases process_of_setProcess hw' with ⟨_, hidle⟩ | ⟨hne, hold⟩
      · cases hidle
      · exact hne (h.distinct pid' pid w' w hold hw heq)
  · exact hidle

theorem Sealed.rename {i : Nat} (hs : Sealed L d i) (h : Inv L d) {pid : Nat} {w : Writing P V}
    (hw : d.process pid = .writing w) :
    Sealed L (d.rename L pid w) i ∧ (d.rename L pid w).content i = d.content i := by
  have hidle : Sealed L (d.setProcess pid .idle) i := hs.setProcess pid nofun
  rw [Disk.rename]
  split
  · exact ⟨(hidle.unlink (L.temporary pid w.path)).place (h.writing pid w hw).target, rfl⟩
  · exact ⟨hidle, rfl⟩

/-- A temporary that does not exist yet. -/
theorem Inv.extend (h : Inv L d) {pid : Nat} {path : P} (hpath : L.target path = true)
    (hnone : d.inode (L.temporary pid path) = none) (hidle : ∀ w, d.process pid ≠ .writing w) :
    Inv L { d.setName (L.temporary pid path) (some d.fresh) with fresh := d.fresh + 1 } := by
  have hunnamed : ∀ path', d.inode path' ≠ some d.fresh := by
    intro path' hi
    exact Nat.lt_irrefl d.fresh (h.bounded path' d.fresh hi)
  refine ⟨?_, h.injective_setName hunnamed, ?_, h.distinct, ?_⟩
  · intro path' j hj
    show j < d.fresh + 1
    rcases inode_of_setName hj with ⟨_, heq⟩ | ⟨_, hj⟩
    · cases heq
      omega
    · have hlt := h.bounded path' j hj
      omega
  · intro pid' w hw
    obtain ⟨target, bounded, named, names, atEnd, written, begun⟩ := h.writing pid' w hw
    refine ⟨target, Nat.lt_succ_of_lt bounded, ?_, ?_, atEnd, written, begun⟩
    · intro path' hj
      rcases inode_of_setName hj with ⟨_, heq⟩ | ⟨_, hj⟩
      · have heq : d.fresh = w.inode := Option.some.inj heq
        omega
      · exact named path' hj
    · intro j hj
      rcases inode_of_setName hj with ⟨heq, _⟩ | ⟨_, hj⟩
      -- Only this process uses this temporary.
      · obtain rfl := L.own target hpath heq
        exact absurd hw (hidle w)
      · exact names j hj
  · intro path' j hpath' hj
    rcases inode_of_setName hj with ⟨rfl, _⟩ | ⟨_, hj⟩
    · rw [L.apart hpath] at hpath'
      cases hpath'
    · exact h.complete path' j hpath' hj

theorem Inv.create (h : Inv L d) {pid : Nat} {path : P} (value : V)
    (hidle : d.process pid = .idle) (hpath : L.target path = true) :
    Inv L (d.create L pid path value) := by
  have hnot : ∀ w, d.process pid ≠ .writing w := by
    intro w hw
    rw [hidle] at hw
    cases hw
  cases hi : d.inode (L.temporary pid path) with
  | some i =>
      -- A temporary that an earlier process left behind.
      have hclosed : ∀ pid' w, d.process pid' = .writing w → w.inode ≠ i := by
        rintro pid' w hw rfl
        have hsound := h.writing pid' w hw
        obtain rfl := L.own hpath hsound.target (hsound.named _ hi)
        exact hnot w hw
      have hbegin := h.begin pid value hpath (h.bounded _ i hi)
        (fun path' hj => h.injective path' _ i hj hi)
        (fun j hj => Option.some.inj (hj.symm.trans hi)) hclosed
      rw [Disk.create, Disk.opened, hi]
      exact hbegin
  | none =>
      have hself : (d.setName (L.temporary pid path) (some d.fresh)).inode (L.temporary pid path) =
          some d.fresh := Function.update_self (L.temporary pid path) _ d.inode
      have hext := h.extend hpath hi hnot
      have hbegin := hext.begin pid value hpath (Nat.lt_succ_self d.fresh)
        (fun path' hj => hext.injective path' _ d.fresh hj hself)
        (fun j hj => Option.some.inj (hj.symm.trans hself))
        (fun pid' w hw heq => Nat.lt_irrefl d.fresh (heq ▸ (h.writing pid' w hw).bounded))
      rw [Disk.create, Disk.opened, hi]
      exact hbegin

theorem Sealed.create {i : Nat} (hs : Sealed L d i) {pid : Nat} {path : P}
    (value : V) (hpath : L.target path = true) :
    Sealed L (d.create L pid path value) i ∧ (d.create L pid path value).content i = d.content i := by
  cases hj : d.inode (L.temporary pid path) with
  | some j =>
      have hne : j ≠ i := by
        rintro rfl
        exact hs.unnamed pid path hpath hj
      have hempty : Sealed L (d.setContent j []) i := ⟨hs.bounded, hs.closed, hs.unnamed⟩
      have hopen : Sealed L ((d.setContent j []).setProcess pid
          (.writing ⟨path, value, j, 0, L.bytes value⟩)) i := by
        apply hempty.setProcess pid
        rintro w heq
        cases heq
        exact hne
      rw [Disk.create, Disk.opened, hj]
      exact ⟨⟨hopen.bounded, hopen.closed, hopen.unnamed⟩, d.setContent_of_ne [] hne.symm⟩
  | none =>
      have hne : d.fresh ≠ i := (Nat.ne_of_lt hs.bounded).symm
      have hextend : Sealed L { d.setName (L.temporary pid path) (some d.fresh) with
          fresh := d.fresh + 1 } i := by
        refine ⟨Nat.lt_succ_of_lt hs.bounded, hs.closed, ?_⟩
        intro pid' path' hpath' hi
        rcases inode_of_setName hi with ⟨_, heq⟩ | ⟨_, hi⟩
        · exact hne (Option.some.inj heq)
        · exact hs.unnamed pid' path' hpath' hi
      have hopen := hextend.setProcess (p := .writing ⟨path, value, d.fresh, 0, L.bytes value⟩) pid
        (by rintro w heq; cases heq; exact hne)
      rw [Disk.create, Disk.opened, hj]
      exact ⟨⟨hopen.bounded, hopen.closed, hopen.unnamed⟩, d.setContent_of_ne [] hne.symm⟩

/-! ## Runs -/

theorem step_inv (h : Inv L d) (a : Action P V) : Inv L (d.step L a) := by
  cases a with
  | start pid =>
      rw [Disk.step]
      split
      · exact h.setProcess pid nofun
      · exact h
  | stop pid => exact h.setProcess pid nofun
  | create pid path value =>
      rw [Disk.step]
      split
      · rename_i hidle
        split
        · rename_i hpath
          exact h.create value hidle hpath
        · exact h
      · exact h
  | write pid n =>
      rw [Disk.step]
      split
      · rename_i w hw
        exact h.write hw n
      · exact h
  | rename pid =>
      rw [Disk.step]
      split
      · rename_i w hw
        split
        · rename_i hrest
          exact h.rename hw hrest
        · exact h
      · exact h
  | fail pid =>
      rw [Disk.step]
      split
      · exact h.setProcess pid nofun
      · exact h
  | unlink path => exact h.unlink path

/-- No action changes a sealed file. -/
theorem step_sealed (h : Inv L d) {i : Nat} (hs : Sealed L d i) (a : Action P V) :
    Sealed L (d.step L a) i ∧ (d.step L a).content i = d.content i := by
  cases a with
  | start pid =>
      rw [Disk.step]
      split
      · exact ⟨hs.setProcess pid nofun, rfl⟩
      · exact ⟨hs, rfl⟩
  | stop pid => exact ⟨hs.setProcess pid nofun, rfl⟩
  | create pid path value =>
      rw [Disk.step]
      split
      · split
        · rename_i hpath
          exact hs.create value hpath
        · exact ⟨hs, rfl⟩
      · exact ⟨hs, rfl⟩
  | write pid n =>
      rw [Disk.step]
      split
      · rename_i w hw
        exact hs.write hw n
      · exact ⟨hs, rfl⟩
  | rename pid =>
      rw [Disk.step]
      split
      · rename_i w hw
        split
        · exact hs.rename h hw
        · exact ⟨hs, rfl⟩
      · exact ⟨hs, rfl⟩
  | fail pid =>
      rw [Disk.step]
      split
      · exact ⟨hs.setProcess pid nofun, rfl⟩
      · exact ⟨hs, rfl⟩
  | unlink path => exact ⟨hs.unlink path, rfl⟩

theorem run_inv (h : Inv L d) (actions : List (Action P V)) : Inv L (d.run L actions) := by
  induction actions generalizing d with
  | nil => exact h
  | cons a actions ih => exact ih (step_inv h a)

theorem run_sealed (h : Inv L d) {i : Nat} (hs : Sealed L d i) (actions : List (Action P V)) :
    Sealed L (d.run L actions) i ∧ (d.run L actions).content i = d.content i := by
  induction actions generalizing d with
  | nil => exact ⟨hs, rfl⟩
  | cons a actions ih =>
      obtain ⟨hs', hcontent⟩ := step_sealed h hs a
      obtain ⟨hs'', hrest⟩ := ih (step_inv h a) hs'
      exact ⟨hs'', hrest.trans hcontent⟩

/-- Who has a sealed file open reads all of it and nothing else, whatever happens meanwhile; each
    read but the last gets at least one byte. -/
theorem read_sealed (h : Inv L d) {i : Nat} (hs : Sealed L d i) {before after : List UInt8}
    (hcontent : d.content i = before ++ after) (reads : List (List (Action P V) × Nat)) :
    (∀ bytes, d.read L i before reads = some bytes → bytes = d.content i) ∧
      (after.length < reads.length → d.read L i before reads = some (d.content i)) := by
  induction reads generalizing d before after with
  | nil => exact ⟨nofun, fun hlt => absurd hlt (Nat.not_lt_zero _)⟩
  | cons request reads ih =>
      obtain ⟨actions, n⟩ := request
      obtain ⟨hs', hsame⟩ := run_sealed h hs actions
      have hnext : (((d.run L actions).content i).drop before.length).take (n + 1) =
          after.take (n + 1) := by
        rw [hsame, hcontent, List.drop_left]
      rw [Disk.read, hnext]
      cases after with
      | nil =>
          rw [hcontent, List.append_nil]
          exact ⟨fun bytes hbytes => (Option.some.inj hbytes).symm, fun _ => rfl⟩
      | cons b after =>
          have hmore : (d.run L actions).content i =
              (before ++ b :: after.take n) ++ after.drop n := by
            rw [hsame, hcontent, List.append_assoc, List.cons_append, List.take_append_drop]
          obtain ⟨honly, henough⟩ := ih (run_inv h actions) hs' hmore
          rw [hsame] at honly henough
          rw [List.take_succ_cons]
          refine ⟨honly, ?_⟩
          intro hlt
          apply henough
          rw [List.length_drop]
          simp only [List.length_cons] at hlt
          omega

/-- Whatever was done and whoever crashed: a target is absent, or a reader finds a complete value
    that was to be written to it. -/
theorem target_complete (L : Layout P V) (actions : List (Action P V)) {path : P}
    (hpath : L.target path = true) :
    (Disk.init.run L actions).inode path = none ∨
      ∃ i value, (Disk.init.run L actions).inode path = some i ∧
        (path, value) ∈ (Disk.init.run L actions).begun ∧
        ∀ reads,
          (∀ bytes, (Disk.init.run L actions).read L i [] reads = some bytes →
            bytes = L.bytes value) ∧
          ((L.bytes value).length < reads.length →
            (Disk.init.run L actions).read L i [] reads = some (L.bytes value)) := by
  have hinv : Inv L (Disk.init.run L actions) := run_inv Inv.init actions
  cases hi : (Disk.init.run L actions).inode path with
  | none => exact Or.inl rfl
  | some i =>
      obtain ⟨value, hbegun, hcontent⟩ := hinv.complete path i hpath hi
      refine Or.inr ⟨i, value, rfl, hbegun, ?_⟩
      intro reads
      have hnothing : (Disk.init.run L actions).content i = [] ++ L.bytes value := hcontent
      have hread := read_sealed hinv (hinv.isSealed hpath hi) hnothing reads
      rwa [hcontent] at hread

end Replace
