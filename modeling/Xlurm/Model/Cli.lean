/-
  Xlurm.Model.Cli

  What `xqueue` lists, from `cli.rs`.
-/

import Mathlib.Data.List.Sort
import Xlurm.Model.Types

namespace Xlurm

/-- `DEFAULT_QUEUE_LIMIT`. -/
def defaultQueueLimit : Nat := 100

/-- `visible_queue_jobs`. -/
def visibleQueueJobs (jobs : List JobSummary) (all : Bool) : List JobSummary :=
  let jobs := (jobs.reverse.filter fun job => all || !job.state.terminal).take defaultQueueLimit
  let jobs := jobs.reverse
  if !all then
    jobs.insertionSort fun a b => (a.state != .running) ≤ (b.state != .running)
  else
    jobs

/-- `queue` without an id: the jobs that it lists, given what `request` returned. -/
def queueListing (answer : Except Error Response) (all : Bool) : Except Error (List JobSummary) := do
  match ← answer with
  | .queue jobs => return visibleQueueJobs jobs all
  | _ => throw "unexpected response"

end Xlurm
