/-
  Xlurm.Os.Storage

  `storage.rs`: `read_json`, `write_json` and `try_lock` as sequences of system
  calls.
-/

import Xlurm.Os.Calls

namespace Xlurm

open Prog.Comp (call lift throw)

variable {τ : Type}

/-- `write_json(path, value)` in the process `pid`: write a temporary, sync it,
    rename it over `path`, and sync the directory. -/
def writeJson (pid : Nat) (path : Path) (value : Value) : Proc τ Unit := do
  let temporary := path.temporary pid
  lift (← call (.create temporary))
  lift (← call (.write temporary (.head value)))
  lift (← call (.write temporary (.tail value)))
  lift (← call (.fsync temporary))
  lift (← call (.rename temporary path))
  lift (← call .syncDir)

/-- `read_json::<T>(path)`; `decode` is the parser for `T`. -/
def readJson {α : Type} (decode : Data → Option α) (path : Path) : Proc τ α := do
  let data ← lift (← call (.read path))
  match decode data with
  | some value => return value
  | none => throw ("invalid JSON: " ++ path.fileName)

/-- `try_lock(path)`: whether the lock was acquired; it is held until `close`. -/
def tryLock (path : Path) : Proc τ Bool := do
  lift (← call (.flock path))

end Xlurm
