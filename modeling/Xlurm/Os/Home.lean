/-
  Xlurm.Os.Home

  `Paths::initialize` of `storage.rs`: how the daemon finds or makes its state directory,
  call by call, while the users do what they like with the same tree of files.

  Paths are absolute, and their components are plain names, from the root on.
-/

import Mathlib.Data.List.Infix
import Xlurm.Os.Executor
import Xlurm.Unix.Tree

namespace Xlurm

open Prog.Comp (call throw attempt lift ensure)
open Unix (Tree Inode Lookup UserOp rootDir)

/-! ## The program -/

/-- An error of the file system whose `NotFound` is told apart. -/
inductive IoError
  | notFound
  | other (e : Error)
  deriving DecidableEq

def IoError.text : IoError → Error
  | notFound => "No such file or directory (os error 2)"
  | other e => e

inductive HomeCall
  | symlinkMetadata (path : List String)
  /-- `Path::is_dir`. -/
  | isDir (path : List String)
  | mkdir (path : List String)
  | setPermissions (path : List String) (mode : Nat)

@[reducible] def HomeCall.Reply : HomeCall → Type
  | symlinkMetadata _ => Except IoError Inode
  | isDir _ => Bool
  | mkdir _ | setPermissions _ _ => Except IoError Unit

abbrev Setup (α : Type) := Prog.Comp Unit HomeCall HomeCall.Reply Error α

/-- `?` on the result of a file operation. -/
def orText {α : Type} : Except IoError α → Setup α
  | .ok a => pure a
  | .error e => throw e.text

/-- `path.display()`. -/
def display (path : List String) : String := "/" ++ "/".intercalate path

/-- The loop over the ancestors, the nearest one first. -/
def checkAncestors : List (List String) → Setup Unit
  | [] => pure ()
  | ancestor :: rest => do
      match ← call (HomeCall.symlinkMetadata ancestor) with
      | .ok metadata => do
          ensure (metadata.isDir && metadata.owner == 0 && (!metadata.writable || metadata.sticky))
            ("root daemon state must be under trusted root-owned directories: " ++
              display ancestor)
          checkAncestors rest
      | .error .notFound => checkAncestors rest
      | .error (.other e) => throw e

/-- A directory that exists is as good as a new one. -/
def orExisting (path : List String) : Except IoError Unit → Setup Unit
  | .ok () => pure ()
  | .error e => do
      if ← call (HomeCall.isDir path) then pure () else throw e.text

/-- `fs::create_dir_all`, over the components from the last one to the first. -/
def createDirAll : List String → Setup Unit
  | [] => do
      match ← call (HomeCall.mkdir []) with
      | .error .notFound => throw "failed to create whole tree"
      | result => orExisting [] result
  | name :: parent => do
      match ← call (HomeCall.mkdir (name :: parent).reverse) with
      | .error .notFound => do
          createDirAll parent
          let result ← call (HomeCall.mkdir (name :: parent).reverse)
          orExisting (name :: parent).reverse result
      | result => orExisting (name :: parent).reverse result

/-- The part of `initialize` about the state directory itself. -/
def initializeHome (euid : Nat) (home : List String) : Setup Unit := do
  let created ← attempt (createDirAll home.reverse)
  lift (ProcessExecutor.context
    "cannot create state directory; start the shared daemon with sudo" created)
  let metadata ← orText (← call (HomeCall.symlinkMetadata home))
  ensure (metadata.isDir && metadata.owner == euid)
    "XLURM_HOME must be a directory owned by the daemon account"
  ensure (!metadata.writable) "XLURM_HOME must not be writable by other users"
  orText (← call (HomeCall.setPermissions home 0o755))

def initializeJobs (euid : Nat) (jobs : List String) : Setup Unit := do
  createDirAll jobs.reverse
  let metadata ← orText (← call (HomeCall.symlinkMetadata jobs))
  ensure (metadata.isDir && metadata.owner == euid) "invalid jobs directory owner"
  orText (← call (HomeCall.setPermissions jobs 0o700))

/-- `Paths::initialize`. -/
def initializePaths (euid : Nat) (home : List String) : Setup Unit := do
  if euid = 0 then checkAncestors home.inits.reverse.tail else pure ()
  initializeHome euid home
  initializeJobs euid (home ++ ["jobs"])

/-! ## The tree of files -/

structure HomeState where
  tree : Tree
  /-- Ghost: something that was looked at did not exist. -/
  missing : Bool

/-- What the kernel is free in when it follows a path. -/
structure RawLookup where
  fail : Option Error
  /-- Where the path leads if it goes on through a symbolic link. -/
  far : Except IoError Nat

/-- Follow a path from the root directory on. -/
def RawLookup.target (raw : RawLookup) (t : Tree) (follow : Bool) (path : List String) :
    Except IoError Nat :=
  match raw.fail with
  | some e => .error (.other e)
  | none =>
      match t.walk follow rootDir path with
      | .found i => .ok i
      | .notFound => .error .notFound
      | .notDirectory => .error (.other "Not a directory (os error 20)")
      | .elsewhere => raw.far

def inodeAt (t : Tree) (i : Nat) : Except IoError (Nat × Inode) :=
  match t.inode i with
  | some x => .ok (i, x)
  | none => .error .notFound

def RawLookup.resolve (raw : RawLookup) (t : Tree) (follow : Bool) (path : List String) :
    Except IoError (Nat × Inode) :=
  raw.target t follow path >>= inodeAt t

namespace HomeCall

@[reducible] def Raw : HomeCall → Type
  | symlinkMetadata _ | isDir _ | setPermissions _ _ => RawLookup
  | mkdir _ => RawLookup × Nat

/-- The new directory has the mode that the process's umask leaves. -/
def execMkdir (euid : Nat) (h : HomeState) (dir : Nat) (x : Inode) (name : String) (i : Nat) :
    Option (Except IoError Unit × HomeState) :=
  if !x.isDir then some (.error (.other "Not a directory (os error 20)"), h)
  else if (h.tree.entry dir name).isSome then
    some (.error (.other "File exists (os error 17)"), h)
  else if euid ≠ 0 ∧ !h.tree.mayAdd euid dir then
    some (.error (.other "Permission denied (os error 13)"), h)
  else if (h.tree.inode i).isSome then none
  else some (.ok (),
    { h with tree := (h.tree.setInode i ⟨.dir, euid, 0o700⟩).setEntry dir name (some i) })

/-- What the call does for a daemon with the effective user `euid`. -/
def exec (euid : Nat) (h : HomeState) : (c : HomeCall) → c.Raw → Option (c.Reply × HomeState)
  | symlinkMetadata path, raw =>
      match raw.resolve h.tree false path with
      | .ok (_, x) => some (.ok x, h)
      | .error .notFound => some (.error .notFound, { h with missing := true })
      | .error e => some (.error e, h)
  | isDir path, raw =>
      match raw.resolve h.tree true path with
      | .ok (_, x) => some (x.isDir, h)
      | .error _ => some (false, h)
  | mkdir path, raw =>
      match path.getLast? with
      | none => some (.error (.other "File exists (os error 17)"), h)
      | some name =>
          match raw.1.resolve h.tree true path.dropLast with
          | .ok (dir, x) => execMkdir euid h dir x name raw.2
          | .error e => some (.error e, h)
  | setPermissions path mode, raw =>
      match raw.resolve h.tree true path with
      | .ok (i, x) =>
          if euid = 0 ∨ euid = x.owner then
            some (.ok (), { h with tree := h.tree.setInode i { x with mode } })
          else some (.error (.other "Operation not permitted (os error 1)"), h)
      | .error e => some (.error e, h)

end HomeCall

/-! ## The daemon and the users -/

structure HomeSetup where
  state : HomeState
  prog : Prog Unit HomeCall HomeCall.Reply (Except Error Unit)

inductive HomeAction
  /-- A user other than root. -/
  | user (uid : Nat) (op : UserOp)
  /-- The daemon makes its next call. -/
  | daemon (raw : (c : HomeCall) → c.Raw)

namespace HomeSetup

def init (euid : Nat) (home : List String) (t : Tree) : HomeSetup :=
  ⟨⟨t, false⟩, initializePaths euid home ()⟩

def step (euid : Nat) (s : HomeSetup) : HomeAction → HomeSetup
  | .user uid op =>
      if uid = 0 then s else { s with state := { s.state with tree := s.state.tree.user uid op } }
  | .daemon raw =>
      match s.prog with
      | .ret _ _ => s
      | .call _ c k =>
          match c.exec euid s.state (raw c) with
          | some (r, state) => ⟨state, k r⟩
          | none => s

def run (euid : Nat) (s : HomeSetup) (actions : List HomeAction) : HomeSetup :=
  actions.foldl (step euid) s

end HomeSetup

end Xlurm
