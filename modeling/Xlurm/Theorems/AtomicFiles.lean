/-
  Xlurm.Theorems.AtomicFiles

  `write_json` on the files of `$XLURM_HOME`, with the bytes that it writes and
  the processes that write at the same time: a reader of `state.json`, or of the
  job, cancel or result file of a job, finds a complete value or no file.
-/

import Xlurm.Files.Replace
import Xlurm.Model.Paths
import Xlurm.Model.Wire
import Xlurm.Os.Calls

namespace Xlurm

open Json

/-! ## The files -/

/-- The files that `write_json` replaces. -/
def Path.replaced : Path → Bool
  | state | job _ .json | job _ .cancel | job _ .result => true
  | _ => false

/-- What `write_json` writes. -/
def Value.bytes (serde : Codec) : Value → List UInt8
  | .store s => serde.print (Store.format.encode s) ++ [newline]
  | .job j => serde.print (Job.format.encode j) ++ [newline]
  | .outcome o => serde.print (Outcome.format.encode o) ++ [newline]
  | .marker => serde.print (bool.encode true) ++ [newline]

theorem temporary_of_replaced {path : Path} (hpath : path.replaced = true) :
    (∀ pid, path.temporary pid = .stateTmp pid) ∨
      ∃ id, ∀ pid, path.temporary pid = .job id (.tmp pid) := by
  cases path with
  | state => exact Or.inl fun _ => rfl
  | job id ext =>
      refine Or.inr ⟨id, ?_⟩
      intro pid
      cases ext with
      | tmp _ => cases hpath
      | _ => rfl
  | _ => cases hpath

/-- The temporaries and contents of `write_json`; all files of a job share one temporary for each
    process. -/
def writing (serde : Codec) : Replace.Layout Path Value where
  temporary := Path.temporary
  target := Path.replaced
  bytes := Value.bytes serde
  own := by
    intro pid pid' path path' hpath hpath' heq
    rcases temporary_of_replaced hpath with h | ⟨id, h⟩ <;>
    rcases temporary_of_replaced hpath' with h' | ⟨id', h'⟩ <;>
    · rw [h, h'] at heq
      cases heq <;> rfl
  apart := by
    intro pid path hpath
    rcases temporary_of_replaced hpath with h | ⟨id, h⟩
    · rw [h]
      rfl
    · rw [h]
      rfl

/-- The daemon, workers and later daemons replace files in steps, crash at any of them and leave
    temporaries behind.  A reader of a target finds no file, or reads one whole value that a
    `write_json` of that file was to write, however the others go on while it reads. -/
theorem files_complete (serde : Codec) (actions : List (Replace.Action Path Value)) {path : Path}
    (hpath : path.replaced = true) :
    (Replace.Disk.init.run (writing serde) actions).inode path = none ∨
      ∃ i value, (Replace.Disk.init.run (writing serde) actions).inode path = some i ∧
        (path, value) ∈ (Replace.Disk.init.run (writing serde) actions).begun ∧
        ∀ reads,
          (∀ bytes, (Replace.Disk.init.run (writing serde) actions).read (writing serde) i []
            reads = some bytes → bytes = value.bytes serde) ∧
          ((value.bytes serde).length < reads.length →
            (Replace.Disk.init.run (writing serde) actions).read (writing serde) i [] reads =
              some (value.bytes serde)) :=
  Replace.target_complete (writing serde) actions hpath

/-- A daemon stores a first state, crashes in the middle of the next one, and a later daemon with
    the same process id starts to write to the temporary that was left behind. -/
def interrupted : List (Replace.Action Path Value) :=
  [.start 7, .create 7 .state (.store ⟨0, []⟩), .write 7 10, .write 7 100, .rename 7,
    .create 7 .state (.store ⟨1, []⟩), .write 7 3, .stop 7, .start 7,
    .create 7 .state (.store ⟨2, []⟩), .write 7 12]

theorem files_complete_interrupted :
    (Replace.Disk.init.run (writing Codec.compact) interrupted).inode .state = some 0 ∧
      (Replace.Disk.init.run (writing Codec.compact) interrupted).inode (.stateTmp 7) = some 1 ∧
      ∃ i value, (Replace.Disk.init.run (writing Codec.compact) interrupted).inode .state = some i ∧
        (Path.state, value) ∈
          (Replace.Disk.init.run (writing Codec.compact) interrupted).begun ∧
        (Replace.Disk.init.run (writing Codec.compact) interrupted).read (writing Codec.compact) i []
            (List.replicate ((value.bytes Codec.compact).length + 1) ([.stop 7], 3)) =
          some (value.bytes Codec.compact) := by
  have hstate : (Replace.Disk.init.run (writing Codec.compact) interrupted).inode .state = some 0 := by
    decide
  refine ⟨hstate, by decide, ?_⟩
  have hreplaced : Path.state.replaced = true := rfl
  rcases files_complete Codec.compact interrupted hreplaced with hnone | hsome
  · rw [hstate] at hnone
    cases hnone
  · obtain ⟨i, value, hi, hbegun, hread⟩ := hsome
    refine ⟨i, value, hi, hbegun, (hread _).2 ?_⟩
    rw [List.length_replicate]
    omega

end Xlurm
