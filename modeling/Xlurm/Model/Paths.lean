/-
  Xlurm.Model.Paths

  The files of `$XLURM_HOME`, how `storage.rs` names them, and how
  `Scheduler::cleanup` reads a name back.

  A file that the program itself names is a constructor of `Path`; any other
  directory entry is `Path.other`.  `fileName` prints a path, `parseJobFile` is
  the parser in `cleanup`, and `parseJobFile_fileName` says that the parser
  recognises exactly the names the program gives to the files of a job.
-/

import Mathlib.Algebra.Group.Nat.Defs
import Xlurm.Text.Basic

namespace Xlurm

/-! ## Integers in file names -/

/-- `str::parse` for an unsigned integer below `bound`: an optional sign, at
    least one decimal digit, nothing else. -/
def parseUnsigned (bound : Nat) (cs : List Char) : Option Nat :=
  let digits := match cs with
    | '+' :: rest => rest
    | cs => cs
  if digits ≠ [] ∧ digits.all Char.isDigit ∧ Nat.ofDigitChars 10 digits 0 < bound then
    some (Nat.ofDigitChars 10 digits 0)
  else
    none

def parseU64 : List Char → Option Nat := parseUnsigned (2 ^ 64)

def parseU32 : List Char → Option Nat := parseUnsigned (2 ^ 32)

theorem isDigit_of_mem_toDigits {n : Nat} {c : Char} (hc : c ∈ Nat.toDigits 10 n) :
    c.isDigit = true :=
  Nat.isDigit_of_mem_toDigits (by decide) (by decide) hc

theorem parseUnsigned_toDigits (bound n : Nat) :
    parseUnsigned bound (Nat.toDigits 10 n) = if n < bound then some n else none := by
  have hne : Nat.toDigits 10 n ≠ [] := Nat.toDigits_ne_nil
  have hall : (Nat.toDigits 10 n).all Char.isDigit = true := by
    rw [List.all_eq_true]
    intro c hc
    exact isDigit_of_mem_toDigits hc
  -- A printed number starts with a digit, so the sign branch is not taken.
  have hdigits : (match Nat.toDigits 10 n with
      | '+' :: rest => rest
      | cs => cs) = Nat.toDigits 10 n := by
    split
    · rename_i rest heq
      have hplus : ('+' : Char).isDigit = true :=
        isDigit_of_mem_toDigits (n := n) (by rw [heq]; exact List.mem_cons_self ..)
      exact absurd hplus (by decide)
    · rfl
  simp only [parseUnsigned, hdigits, Nat.ofDigitChars_ten_toDigits, hne, hall, ne_eq,
    not_false_eq_true, true_and]

/-! ## Paths -/

/-- The extensions of the files of one job. -/
inductive Ext
  | json | log | lock | result | cancel
  | tmp (pid : Nat)
  deriving DecidableEq, Repr

/-- The text after the first dot. -/
def Ext.suffix : Ext → String
  | json => "json"
  | log => "log"
  | lock => "lock"
  | result => "result"
  | cancel => "cancel"
  | tmp pid => "tmp." ++ toString pid

/-- A file below `$XLURM_HOME`: `state.json` and its temporaries, or an entry of
    `jobs/`. -/
inductive Path
  | state
  | stateTmp (pid : Nat)
  | job (id : Nat) (ext : Ext)
  | other (name : String)
  deriving DecidableEq, Repr

namespace Path

/-- `DirEntry::file_name`; `Paths::job` prints `{id}.{extension}`. -/
def fileName : Path → String
  | state => "state.json"
  | stateTmp pid => "state.tmp." ++ toString pid
  | job id ext => toString id ++ "." ++ ext.suffix
  | other name => name

/-- The part of a file name before its last dot, if the dot is not the first
    character (`Path::file_stem`). -/
def stem (name : List Char) : List Char :=
  match (name.reverse.dropWhile (· ≠ '.')).drop 1 with
  | [] => name
  | rest => rest.reverse

/-- `path.with_extension(format!("tmp.{pid}"))`, the temporary of `write_json`.
    All files of one job share one temporary for each process. -/
def temporary (pid : Nat) : Path → Path
  | state => stateTmp pid
  | job id (.tmp p) => other (String.ofList (stem (job id (.tmp p)).fileName.toList) ++ ".tmp." ++
      toString pid)
  | job id _ => job id (.tmp pid)
  | path => other (String.ofList (stem path.fileName.toList) ++ ".tmp." ++ toString pid)

end Path

/-! ## Reading names back -/

/-- `matches!(extension, "json" | …)`, or `tmp.` and a process id. -/
def isJobExtension (extension : List Char) : Bool :=
  ["json", "log", "lock", "result", "cancel"].any (·.toList == extension) ||
    ("tmp.".toList.isPrefixOf extension && (parseU32 (extension.drop 4)).isSome)

/-- The name parser in `cleanup`: the id before the first dot, and whether the
    rest is an extension that the program gives to files of a job. -/
def parseJobFile (name : List Char) : Option (Nat × Bool) :=
  match Text.splitOnce '.' name with
  | none => none
  | some (stem, extension) => (parseU64 stem).map fun id => (id, isJobExtension extension)

theorem dot_notMem_toDigits (n : Nat) : '.' ∉ Nat.toDigits 10 n := fun h =>
  absurd (isDigit_of_mem_toDigits h) (by decide)

theorem fileName_job_toList (id : Nat) (ext : Ext) :
    (Path.job id ext).fileName.toList = Nat.toDigits 10 id ++ '.' :: ext.suffix.toList := by
  simp only [Path.fileName, String.toList_append]
  rw [show toString id = id.repr from rfl, Nat.toList_repr]
  simp

/-- Process ids are 32-bit; every other extension is recognised as it stands. -/
theorem isJobExtension_suffix (ext : Ext) :
    isJobExtension ext.suffix.toList = match ext with
      | .tmp pid => decide (pid < 2 ^ 32)
      | _ => true := by
  cases ext with
  | tmp pid =>
      have hsuffix : (Ext.tmp pid).suffix.toList = "tmp.".toList ++ Nat.toDigits 10 pid := by
        simp only [Ext.suffix, String.toList_append]
        rw [show toString pid = pid.repr from rfl, Nat.toList_repr]
      have hdrop : (Ext.tmp pid).suffix.toList.drop 4 = Nat.toDigits 10 pid := by
        rw [hsuffix]
        rfl
      have hparse : (parseU32 (Nat.toDigits 10 pid)).isSome = decide (pid < 2 ^ 32) := by
        rw [parseU32, parseUnsigned_toDigits]
        by_cases hlt : pid < 2 ^ 32
        · rw [if_pos hlt, decide_eq_true hlt]
          rfl
        · rw [if_neg hlt, decide_eq_false hlt]
          rfl
      simp only [isJobExtension, hdrop, hparse]
      rw [hsuffix]
      simp [List.isPrefixOf]
  | _ => decide

/-- The parser recognises every file the program names after a 64-bit job id. -/
theorem parseJobFile_fileName (id : Nat) (ext : Ext) :
    parseJobFile (Path.job id ext).fileName.toList =
      if id < 2 ^ 64 then some (id, isJobExtension ext.suffix.toList) else none := by
  rw [fileName_job_toList]
  simp only [parseJobFile, Text.splitOnce_append (dot_notMem_toDigits id), parseU64,
    parseUnsigned_toDigits]
  split <;> rfl

/-- A name of job `id` is never read back as the name of another job. -/
theorem eq_of_parseJobFile_fileName {id id' : Nat} {ext : Ext} {known : Bool}
    (h : parseJobFile (Path.job id ext).fileName.toList = some (id', known)) : id' = id := by
  rw [parseJobFile_fileName] at h
  split at h
  · exact (congrArg Prod.fst (Option.some.inj h)).symm
  · cases h

end Xlurm
