/-
  Xlurm.Theorems.Maintenance

  `Restart` and `clean` are safe against live workers.

  `Restart` looks at the jobs in memory, `clean` at those in `state.json`, which
  may be what a crashed daemon has left.  A live worker's job is running in both.
-/

import Xlurm.Ledger.Leaving
import Xlurm.Refine.Clean

namespace Xlurm

/-- For any interleaving of requests, ticks, deaths of workers, crashes and restarts of the
    daemon, and calls of `clean`, as long as no `state.json` that is there has been taken for
    missing:

    * when a `Restart` is answered with `Ok`, no worker is alive;
    * a job that is started later is started by another daemon;
    * whatever `clean` deletes is the log of a job or `daemon.log`, and no worker is alive
      when it does;
    * it changes no other file, and records what it deletes;
    * when it refuses because of a running job, it has deleted nothing. -/
theorem restart_clean_safe (euid : Nat) (actions : List SiteAction)
    (hseen : .state ∉ (Site.init.run euid actions).home.sys.world.misread) :
    let site := Site.init.run euid actions
    let hist := site.home.sys.world.hist
    (∀ newer e older uid gid before after, hist = newer ++ e :: older →
      e.event = .answered uid gid .restart .ok before after → e.live = []) ∧
    (∀ newer e' between e older uid gid before after,
      hist = newer ++ e' :: (between ++ e :: older) →
      e.event = .answered uid gid .restart .ok before after → e'.event.launches = true →
      ∃ b ∈ between, b.event = .booted) ∧
    (∀ r ∈ site.home.removed, r.live = [] ∧ r.file.IsLog) ∧
    (∀ env, Deletes site.home (site.step euid (.next env)).home) ∧
    ∀ s ids, site.clean = some (.ret s (.error (.running ids))) → site.home.removed = [] := by
  intro site hist
  have hgood : site.Good euid := Site.init_good.run actions hseen
  have hreach := hgood.home.sys.reach
  refine ⟨?_, ?_, hgood.home.removed, hgood.next_deletes, ?_⟩
  · intro newer e older uid gid before after heq he
    exact hreach.restart_idle heq he
  · intro newer e' between e older uid gid before after heq he he'
    exact hreach.restart_last heq he he'
  · intro s ids hc
    simp only [Site.Good, hc] at hgood
    exact hgood.2 ids rfl

/-- No call of `clean` fails, and nobody else takes the lock; `jobs/` has the files of a job that
    has been started. -/
def CleanCall.fair : (c : CleanCall) → c.Raw
  | initPaths => .ok ()
  | tryLock => .ok false
  | sys .readDir => .ok [.ok (.job 1 .json), .ok (.job 1 .lock), .ok (.job 1 .log)]
  | sys c => c.fair
  | removeDaemonLog => none

/-- No call of `clean` fails but `stat`. -/
def CleanCall.blind : (c : CleanCall) → c.Raw
  | sys (.pathExists _) => true
  | c => c.fair

/-- The daemon has crashed, and the worker of job 1 is still there. -/
def orphaned : List SiteAction :=
  startedNoop.map .sys ++ [.openDaemonLog, .sys .crash]

set_option maxRecDepth 4000 in
/-- As long as the worker is there, `clean` refuses, and deletes nothing. -/
theorem restart_clean_safe_orphaned :
    let refused := Site.init.run 0 (orphaned ++ [.clean] ++
      List.replicate 4 (.next CleanCall.fair))
    (∃ s, refused.clean = some (.ret s (.error (.running ["1"])))) ∧ refused.home.removed = [] := by
  have hended : ∃ s, (Site.init.run 0 (orphaned ++ [.clean] ++
      List.replicate 4 (.next CleanCall.fair))).clean =
        some (.ret s (.error (.running ["1"]))) := ⟨(), rfl⟩
  obtain ⟨s, hs⟩ := hended
  exact ⟨⟨s, hs⟩, (restart_clean_safe 0 _ (by decide)).2.2.2.2 s ["1"] hs⟩

/-- A daemon that does not see `state.json`, and is asked to restart. -/
def unseenRestart : List SiteAction :=
  orphaned ++ [.blindBoot 1 .none 1 []] ++ List.replicate 10 (.sys (.daemon Sys.fair)) ++
    [.sys (.begin (.request 0 0 .restart))] ++ List.replicate 3 (.sys (.daemon Sys.fair))

set_option maxRecDepth 4000 in
/-- A failed `stat` of `state.json`: `clean` deletes the log of a worker that is alive, and
    `Restart` is granted while it is. -/
theorem restart_clean_unseen :
    ((Site.init.run 0 (orphaned ++ [.clean] ++
      List.replicate 6 (.next CleanCall.blind))).home.removed.map fun r => (r.file, r.live)) =
        [(.daemonLog, [1]), (.entry (.job 1 .log), [1])] ∧
    (Site.init.run 0 unseenRestart).home.sys.world.hist.leaving = true ∧
    (Site.init.run 0 unseenRestart).home.sys.world.live.map (·.id) = [1] := by
  decide

end Xlurm
