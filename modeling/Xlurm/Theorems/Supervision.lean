/-
  Xlurm.Theorems.Supervision

  The outcome of a worker's run, from what each iteration of its loop observes.

  The observations are a sequence `seen`: iteration `k` looks at `seen k`.
  `watchSpec` answers every call of the loop from it and records the signals
  with the iteration they are sent in.  What is asked before the loop is
  answered from a `ExecuteSetup`.
-/

import Mathlib.Data.List.Range
import Xlurm.Os.Worker
import Xlurm.Prog.Safe

namespace Xlurm

open Prog.Comp

/-! ## What a worker observes -/

/-- What one iteration of the loop could see. -/
structure Glance where
  exited : Except Error (Option ExitStatus)
  marker : Bool
  interrupted : Bool
  /-- Whole seconds since the payload was started. -/
  elapsed : Nat
  /-- Nanoseconds since termination began. -/
  sinceTermination : Nat

/-- The reason to terminate the payload in this iteration. -/
def Glance.reason (limit : Option Nat) (g : Glance) : Option State :=
  if g.marker || g.interrupted then some .cancelled
  else match limit with
    | none => none
    | some limit => if limit ≤ g.elapsed then some .timedOut else none

/-- A second or more has passed since termination began. -/
def Glance.graceOver (g : Glance) : Bool := decide (10 ^ 9 ≤ g.sinceTermination)

/-- What the worker is told before the loop, and what becomes of the spawn. -/
structure ExecuteSetup where
  account : Except Error String
  euid : Nat
  egid : Nat
  groups : Except Error (List Nat)
  spawn : Except Error Unit

/-- Every check and lookup before the spawn succeeds. -/
structure ExecuteSetup.Passes (setup : ExecuteSetup) (job : Job) : Prop where
  account : setup.account = .ok job.owner.name
  identity : setup.euid = 0 ∨ (job.owner.uid = setup.euid ∧ job.owner.gid = setup.egid)
  groups : setup.euid = 0 → ∃ groups, setup.groups = .ok groups
  cwd : '\x00' ∉ job.spec.cwd.toList
  argv : job.spec.argv ≠ []

/-- What the worker has done so far. -/
structure Watch where
  spawned : Bool
  /-- The iteration it is in. -/
  iteration : Nat
  /-- The signals of the loop, each with its iteration. -/
  signals : List (Nat × Nat)

def Watch.start : Watch := ⟨false, 0, []⟩

variable {setup : ExecuteSetup} {early : Bool} {seen : Nat → Glance} {job : Job} {fuel n m : Nat}
  {w : Watch}

/-- The world answers from the setup and the observations; `early` says whether the marker is
    there before the spawn.  `execute` may hang only if no iteration sees the exit, and the
    clock may show anything. -/
def watchSpec (fuel : Nat) (setup : ExecuteSetup) (early : Bool) (seen : Nat → Glance) :
    Prog.Spec Unit Sys Sys.Reply Watch where
  pre c _ _ :=
    match c with
    | .hang => ∀ k < fuel, (seen k).exited = .ok none
    | _ => True
  post c _ w r w' :=
    match c with
    | .pathExists _ => w' = w ∧ r = if w.spawned then (seen w.iteration).marker else early
    | .ask (.account _ _) => w' = w ∧ r = setup.account
    | .ask .geteuid => w' = w ∧ r = setup.euid
    | .ask .getegid => w' = w ∧ r = setup.egid
    | .ask (.groups _) => w' = w ∧ r = setup.groups
    | .ask (.spawnPayload _) => r = setup.spawn ∧ w' = { w with spawned := setup.spawn.toBool }
    | .ask .tryWait => w' = w ∧ r = (seen w.iteration).exited
    | .ask .interrupted => w' = w ∧ r = (seen w.iteration).interrupted
    | .ask .elapsedSecs => w' = w ∧ r = (seen w.iteration).elapsed
    | .ask .graceOver => w' = w ∧ r = (seen w.iteration).graceOver
    | .ask (.signal signal) => w' = { w with signals := w.signals ++ [(w.iteration, signal)] }
    | .ask .sleep => w' = { w with iteration := w.iteration + 1 }
    | _ => w' = w

/-- `n` is the first iteration that sees the payload gone. -/
def ExitsAt (seen : Nat → Glance) (n : Nat) (status : ExitStatus) : Prop :=
  (seen n).exited = .ok (some status) ∧ ∀ k < n, (seen k).exited = .ok none

theorem ExitsAt.unique {status status' : ExitStatus} (h : ExitsAt seen n status)
    (h' : ExitsAt seen m status') : n = m ∧ status = status' := by
  obtain ⟨hexit, hbefore⟩ := h
  obtain ⟨hexit', hbefore'⟩ := h'
  rcases Nat.lt_trichotomy n m with hlt | rfl | hlt
  · rw [hbefore' n hlt] at hexit
    cases hexit
  · rw [hexit] at hexit'
    cases hexit'
    exact ⟨rfl, rfl⟩
  · rw [hbefore m hlt] at hexit'
    cases hexit'

/-- `m` is the first of the iterations before `n` that has a reason to terminate it. -/
def TerminatesAt (limit : Option Nat) (seen : Nat → Glance) (n m : Nat) (reason : State) : Prop :=
  m < n ∧ (seen m).reason limit = some reason ∧ ∀ k < m, (seen k).reason limit = none

/-- SIGKILL, in every iteration from `m` to `n` that finds the grace period over. -/
def kills (seen : Nat → Glance) (m n : Nat) : List (Nat × Nat) :=
  ((List.range' m (n - m)).filter fun k => (seen k).graceOver).map fun k => (k, sigkill)

theorem kills_self (seen : Nat → Glance) (m : Nat) : kills seen m m = [] := by
  rw [kills, Nat.sub_self]
  rfl

theorem kills_succ (seen : Nat → Glance) (h : m ≤ n) :
    kills seen m (n + 1) =
      kills seen m n ++ if (seen n).graceOver then [(n, sigkill)] else [] := by
  have hlen : n + 1 - m = n - m + 1 := by omega
  have hlast : m + 1 * (n - m) = n := by omega
  rw [kills, hlen, List.range'_concat, hlast, List.filter_append, List.map_append, ← kills]
  cases hover : (seen n).graceOver
  · simp [hover]
  · simp [hover]

theorem Glance.reason_state {g : Glance} {limit : Option Nat} {reason : State}
    (h : g.reason limit = some reason) : reason = .cancelled ∨ reason = .timedOut := by
  unfold Glance.reason at h
  split at h
  · cases h
    exact Or.inl rfl
  · cases limit with
    | none => cases h
    | some limit =>
        dsimp only at h
        split at h
        · cases h
          exact Or.inr rfl
        · cases h

/-! ## The loop -/

/-- What the loop knows when `n` iterations are over: `termination` is the first reason that
    came up, and the signals that were sent go with it. -/
inductive Watched (limit : Option Nat) (seen : Nat → Glance) (n : Nat) :
    Option State → List (Nat × Nat) → Prop
  | quiet (none_yet : ∀ k < n, (seen k).reason limit = none) : Watched limit seen n none []
  | terminating {m : Nat} {reason : State} (terminates : TerminatesAt limit seen n m reason) :
      Watched limit seen n (some reason) ((m, sigterm) :: kills seen m n)

/-- The check of one iteration. -/
theorem terminationReason_watched {Q : Unit → Except Error (Option State) → Watch → Prop}
    (hspawned : w.spawned = true)
    (hQ : Q () (.ok ((seen w.iteration).reason job.spec.timeLimit)) w) :
    wp (watchSpec fuel setup early seen) (terminationReason job) Q () w := by
  rw [terminationReason, wp_bind, wp_call]
  refine ⟨trivial, ?_⟩
  rintro r w' ⟨rfl, rfl⟩
  rw [hspawned, if_pos rfl, andThen_ok]
  unfold Glance.reason at hQ
  -- First the marker file, then the signal, then the time limit.
  cases hmarker : (seen w'.iteration).marker with
  | true =>
      rw [hmarker] at hQ
      exact hQ
  | false =>
      rw [hmarker, Bool.false_or] at hQ
      rw [if_neg (by decide), wp_bind, ask, wp_call]
      refine ⟨trivial, ?_⟩
      rintro r w ⟨rfl, rfl⟩
      rw [andThen_ok]
      cases hint : (seen w.iteration).interrupted with
      | true =>
          rw [hint] at hQ
          exact hQ
      | false =>
          rw [hint, if_neg (by decide)] at hQ
          rw [if_neg (by decide)]
          cases hlimit : job.spec.timeLimit with
          | none =>
              rw [hlimit] at hQ
              exact hQ
          | some limit =>
              rw [hlimit] at hQ
              dsimp only at hQ ⊢
              rw [wp_bind, ask, wp_call]
              refine ⟨trivial, ?_⟩
              rintro r w' ⟨rfl, rfl⟩
              exact hQ

theorem TerminatesAt.mono {limit : Option Nat} {reason : State} {n' : Nat}
    (h : TerminatesAt limit seen n m reason) (hn : n ≤ n') : TerminatesAt limit seen n' m reason :=
  ⟨Nat.lt_of_lt_of_le h.1 hn, h.2⟩

theorem none_succ {limit : Option Nat} (h : ∀ k < n, (seen k).reason limit = none)
    (hn : (seen n).reason limit = none) : ∀ k < n + 1, (seen k).reason limit = none := by
  intro k hk
  by_cases heq : k = n
  · rw [heq]
    exact hn
  · apply h
    omega

/-- After the check of iteration `w.iteration`: SIGTERM is out if there is a reason now. -/
theorem beginTermination_watched {termination : Option State}
    {Q : Unit → Except Error (Option State) → Watch → Prop} (hspawned : w.spawned = true)
    (h : Watched job.spec.timeLimit seen w.iteration termination w.signals)
    (hquiet : (∀ k < w.iteration + 1, (seen k).reason job.spec.timeLimit = none) →
      w.signals = [] → Q () (.ok none) w)
    (hterm : ∀ m reason w', TerminatesAt job.spec.timeLimit seen (w.iteration + 1) m reason →
      w' = { w with signals := (m, sigterm) :: kills seen m w.iteration } →
      Q () (.ok (some reason)) w') :
    wp (watchSpec fuel setup early seen) (beginTermination job termination) Q () w := by
  generalize hsignals : w.signals = signals at h
  cases h with
  | terminating terminates =>
      apply hterm _ _ _ (terminates.mono (Nat.le_succ _))
      rw [← hsignals]
  | quiet none_yet =>
      rw [beginTermination, wp_bind]
      apply terminationReason_watched hspawned
      rw [andThen_ok]
      cases hreason : (seen w.iteration).reason job.spec.timeLimit with
      | none => exact hquiet (none_succ none_yet hreason) hsignals
      | some reason =>
          dsimp only
          rw [wp_bind, ask, wp_call]
          refine ⟨trivial, ?_⟩
          rintro r w' rfl
          rw [andThen_ok]
          -- This is the first iteration with a reason, so nothing was sent before.
          apply hterm w.iteration reason
          · exact ⟨Nat.lt_succ_self _, hreason, none_yet⟩
          · rw [hsignals, kills_self]
            rfl

/-- The end of the loop is the first iteration that sees the exit; the loop fails only if
    an earlier one could not look. -/
def Supervised (limit : Option Nat) (seen : Nat → Glance) :
    Unit → Except Error (Option State × ExitStatus) → Watch → Prop := fun _ r w =>
  w.spawned = true ∧
  match r with
  | .ok (reason, status) => ∃ n, ExitsAt seen n status ∧ Watched limit seen n reason w.signals
  | .error _ => ∀ n status, ¬ ExitsAt seen n status

theorem supervise_watched (fuel : Nat) {left : Nat} {termination : Option State}
    (hspawned : w.spawned = true) (hfuel : w.iteration + left = fuel)
    (hrunning : ∀ k < w.iteration, (seen k).exited = .ok none)
    (h : Watched job.spec.timeLimit seen w.iteration termination w.signals) :
    wp (watchSpec fuel setup early seen) (supervise job left termination)
      (Supervised job.spec.timeLimit seen) () w := by
  induction left generalizing w termination with
  | zero =>
      rw [supervise, wp_bind, wp_call]
      refine ⟨?_, by rintro ⟨⟩⟩
      obtain rfl : w.iteration = fuel := by omega
      exact hrunning
  | succ left ih =>
      rw [supervise, wp_bind, ask, wp_call]
      refine ⟨trivial, ?_⟩
      rintro r w ⟨rfl, rfl⟩
      rw [andThen_ok, wp_bind, wp_lift]
      cases hexited : (seen w.iteration).exited with
      | error e =>
          refine ⟨hspawned, ?_⟩
          rintro n status ⟨hexit, hbefore⟩
          -- The failed look comes before, at, or after the exit.
          rcases Nat.lt_trichotomy n w.iteration with hlt | rfl | hlt
          · rw [hrunning n hlt] at hexit
            cases hexit
          · rw [hexited] at hexit
            cases hexit
          · rw [hbefore w.iteration hlt] at hexited
            cases hexited
      | ok exited =>
      rw [andThen_ok]
      cases exited with
      | some status =>
          exact ⟨hspawned, w.iteration, ⟨hexited, hrunning⟩, h⟩
      | none =>
          -- What is left of this iteration once its signals are out.
          have hnext : ∀ termination' signals,
              Watched job.spec.timeLimit seen (w.iteration + 1) termination' signals →
              wp (watchSpec fuel setup early seen)
                (do ask .sleep; supervise job left termination')
                (Supervised job.spec.timeLimit seen) () { w with signals } := by
            intro termination' signals hwatched
            rw [wp_bind, ask, wp_call]
            refine ⟨trivial, ?_⟩
            rintro r w₂ rfl
            rw [andThen_ok]
            apply ih (w := ⟨w.spawned, w.iteration + 1, signals⟩) hspawned _ _ hwatched
            · show w.iteration + 1 + left = fuel
              omega
            · show ∀ k < w.iteration + 1, _
              intro k hk
              by_cases heq : k = w.iteration
              · rw [heq]
                exact hexited
              · apply hrunning
                omega
          dsimp only
          rw [wp_bind]
          apply beginTermination_watched hspawned h
          · intro hquiet hsignals
            rw [andThen_ok]
            apply hnext none w.signals
            rw [hsignals]
            exact .quiet hquiet
          · rintro m reason w₁ hterminates rfl
            have hkills := kills_succ seen (Nat.le_of_lt_succ hterminates.1)
            rw [andThen_ok, Option.isSome_some, if_pos rfl, wp_bind, ask, wp_call]
            refine ⟨trivial, ?_⟩
            rintro r w₁ ⟨rfl, rfl⟩
            rw [andThen_ok]
            cases hover : (seen w.iteration).graceOver with
            | false =>
                rw [hover, if_neg (by decide), List.append_nil] at hkills
                rw [if_neg (by decide)]
                apply hnext (some reason)
                rw [← hkills]
                exact .terminating hterminates
            | true =>
                rw [hover, if_pos rfl] at hkills
                rw [if_pos rfl, wp_bind, ask, wp_call]
                refine ⟨trivial, ?_⟩
                rintro r w₂ rfl
                rw [andThen_ok]
                apply hnext (some reason)
                show Watched _ _ _ _ ((m, sigterm) :: (kills seen m w.iteration ++ _))
                rw [← hkills]
                exact .terminating hterminates

/-! ## The setup -/

/-- The supplementary groups are only looked up for root. -/
theorem payloadGroups_passes (owner : Owner) :
    wp (watchSpec fuel setup early seen) (payloadGroups setup.euid owner)
      (fun _ r w' => w' = w ∧
        ((setup.euid = 0 → ∃ groups, setup.groups = .ok groups) → ∃ groups, r = .ok groups))
      () w := by
  unfold payloadGroups
  split
  case isTrue hroot =>
    rw [wp_bind, ask, wp_call]
    refine ⟨trivial, ?_⟩
    rintro r w ⟨rfl, rfl⟩
    rw [andThen_ok, wp_lift]
    exact ⟨rfl, fun h => h hroot⟩
  case isFalse => exact ⟨rfl, fun _ => ⟨[], rfl⟩⟩

/-- The setup looks at no observation and sends no signal; it succeeds if all its checks
    pass. -/
theorem prepare_passes (job : Job) :
    wp (watchSpec fuel setup early seen) (prepare job)
      (fun _ r w' => w' = w ∧ (setup.Passes job → ∃ command, r = .ok command)) () w := by
  rw [prepare, wp_bind, ask, wp_call]
  refine ⟨trivial, ?_⟩
  rintro r w ⟨rfl, rfl⟩
  rw [andThen_ok, wp_bind, wp_lift]
  cases haccount : setup.account with
  | error e =>
      refine ⟨rfl, fun hpasses => ?_⟩
      rw [hpasses.account] at haccount
      cases haccount
  | ok name =>
  have howner : setup.Passes job → name = job.owner.name := by
    intro hpasses
    rw [hpasses.account] at haccount
    cases haccount
    rfl
  show wp _ _ _ _ _
  rw [wp_bind, wp_ensure]
  refine ⟨fun _ => ?_, fun hname => ⟨rfl, fun hpasses => absurd (howner hpasses) hname⟩⟩
  rw [andThen_ok, wp_bind, ask, wp_call]
  refine ⟨trivial, ?_⟩
  rintro _ w ⟨rfl, rfl⟩
  rw [andThen_ok, wp_bind, ask, wp_call]
  refine ⟨trivial, ?_⟩
  rintro _ w ⟨rfl, rfl⟩
  rw [andThen_ok, wp_bind, wp_ensure]
  refine ⟨fun _ => ?_, fun hidentity => ⟨rfl, fun hpasses => absurd hpasses.identity hidentity⟩⟩
  rw [andThen_ok]
  apply wp_bind_of (payloadGroups_passes _)
  · rintro _ groups w ⟨rfl, -⟩
    rw [wp_bind, wp_ensure]
    refine ⟨fun _ => ?_, fun hcwd => ⟨rfl, fun hpasses => absurd hpasses.cwd hcwd⟩⟩
    rw [andThen_ok, wp_bind, wp_ensure]
    refine ⟨fun _ => ?_, fun hargv => ⟨rfl, fun hpasses => absurd hpasses.argv hargv⟩⟩
    exact ⟨rfl, fun _ => ⟨_, rfl⟩⟩
  · rintro _ e w ⟨rfl, hgroups⟩
    refine ⟨rfl, fun hpasses => ?_⟩
    obtain ⟨groups, hok⟩ := hgroups hpasses.groups
    cases hok

/-! ## The run -/

/-- The state and the exit code of a payload that was not terminated. -/
def ExitStatus.verdict (status : ExitStatus) : State × Int :=
  match status with
  | exited code => (if code = 0 then .completed else .failed, code)
  | signaled signal => (.failed, 128 + signal)

/-- The exit code of a payload that was terminated. -/
def terminationCode (reason : State) : Int := if reason = .cancelled then 130 else 124

/-- The outcome of `execute`, once the payload was spawned. -/
structure Decided (limit : Option Nat) (seen : Nat → Glance) (n : Nat) (status : ExitStatus)
    (outcome : Outcome) (signals : List (Nat × Nat)) : Prop where
  terminated : ∀ m reason, TerminatesAt limit seen n m reason →
    outcome.state = reason ∧ outcome.exitCode = terminationCode reason ∧
      signals = (m, sigterm) :: kills seen m n
  undisturbed : (∀ k < n, (seen k).reason limit = none) →
    (outcome.state, outcome.exitCode) = status.verdict ∧ signals = []

theorem TerminatesAt.unique {limit : Option Nat} {m' : Nat} {reason reason' : State}
    (h : TerminatesAt limit seen n m reason) (h' : TerminatesAt limit seen n m' reason') :
    m' = m ∧ reason' = reason := by
  obtain ⟨_, hreason, hfirst⟩ := h
  obtain ⟨_, hreason', hfirst'⟩ := h'
  have hge : ¬ m' < m := fun hlt => by
    rw [hfirst m' hlt] at hreason'
    cases hreason'
  have hle : ¬ m < m' := fun hlt => by
    rw [hfirst' m hlt] at hreason
    cases hreason
  obtain rfl : m' = m := by omega
  rw [hreason] at hreason'
  cases hreason'
  exact ⟨rfl, rfl⟩

/-- The state that the loop keeps decides the outcome. -/
theorem Watched.decided {limit : Option Nat} {termination : Option State} {status : ExitStatus}
    {signals : List (Nat × Nat)} (h : Watched limit seen n termination signals) (now : Nat) :
    Decided limit seen n status
      { state := outcomeState termination status
        exitCode := outcomeCode (outcomeState termination status) status
        finishedAt := now, error := none } signals := by
  cases h with
  -- No reason until the exit: the exit status decides.
  | quiet none_yet =>
      constructor
      · rintro m reason ⟨hlt, hreason, _⟩
        rw [none_yet m hlt] at hreason
        cases hreason
      · intro _
        refine ⟨?_, rfl⟩
        cases status with
        | exited code =>
            by_cases hcode : code = 0
            · simp [outcomeState, outcomeCode, ExitStatus.success, ExitStatus.code,
                ExitStatus.verdict, hcode]
            · simp [outcomeState, outcomeCode, ExitStatus.success, ExitStatus.code,
                ExitStatus.verdict, hcode]
        | signaled signal => rfl
  -- The first reason decides, whatever the exit status is.
  | terminating terminates =>
      constructor
      · intro m' reason' h'
        obtain ⟨rfl, rfl⟩ := terminates.unique h'
        refine ⟨rfl, ?_, rfl⟩
        rcases Glance.reason_state terminates.2.1 with rfl | rfl
        · rfl
        · rfl
      · intro hnone
        obtain ⟨hlt, hreason, _⟩ := terminates
        rw [hnone _ hlt] at hreason
        cases hreason

/-- The setup succeeds, and the run comes to its end: cancelled before the spawn, or with a
    payload whose exit is seen. -/
def ExecuteSetup.Succeeds (setup : ExecuteSetup) (job : Job) (early : Bool)
    (seen : Nat → Glance) : Prop :=
  setup.Passes job ∧
    (early = true ∨ setup.spawn = .ok () ∧ ∃ n status, ExitsAt seen n status)

/-- The outcome of a worker's run is decided by the first iteration with a reason to
    terminate the payload, if there is one before its exit. -/
theorem execute_outcome (fuel : Nat) (job : Job) (setup : ExecuteSetup) (early : Bool)
    (seen : Nat → Glance) :
    wp (watchSpec fuel setup early seen) (execute fuel job) (fun _ r w =>
      (setup.Succeeds job early seen → ∃ outcome, r = .ok outcome) ∧
      ∀ outcome, r = .ok outcome →
        (early = true → w.spawned = false ∧ w.signals = [] ∧
          outcome.state = .cancelled ∧ outcome.exitCode = 130) ∧
        (early = false → w.spawned = true ∧ ∃ n status, ExitsAt seen n status ∧
          Decided job.spec.timeLimit seen n status outcome w.signals)) () Watch.start := by
  rw [execute]
  apply wp_bind_of (prepare_passes job)
  · rintro _ command w ⟨rfl, -⟩
    rw [wp_bind, wp_call]
    refine ⟨trivial, ?_⟩
    rintro r w ⟨rfl, hmarker⟩
    obtain rfl : r = early := hmarker
    rw [andThen_ok]
    cases r with
    | true =>
        rw [if_pos rfl, wp_bind, wp_call]
        refine ⟨trivial, ?_⟩
        rintro now w rfl
        refine ⟨fun _ => ⟨_, rfl⟩, ?_⟩
        rintro outcome ⟨⟩
        exact ⟨fun _ => ⟨rfl, rfl, rfl, rfl⟩, by rintro ⟨⟩⟩
    | false =>
        rw [if_neg (by decide), wp_bind, ask, wp_call]
        refine ⟨trivial, ?_⟩
        rintro r w ⟨rfl, rfl⟩
        rw [andThen_ok]
        cases hspawn : setup.spawn with
        | error e =>
            refine ⟨?_, by rintro outcome ⟨⟩⟩
            rintro ⟨-, hearly | ⟨hok, -⟩⟩
            · cases hearly
            · rw [hspawn] at hok
              cases hok
        | ok _ =>
            dsimp only
            rw [wp_bind, wp_attempt]
            -- No iteration has been yet.
            have hquiet : Watched job.spec.timeLimit seen 0 none [] :=
              .quiet fun k hk => absurd hk (Nat.not_lt_zero k)
            apply wp_mono (supervise_watched fuel rfl (Nat.zero_add fuel)
              (fun k hk => absurd hk (Nat.not_lt_zero k)) hquiet)
            rintro _ r w ⟨hspawned, hended⟩
            rw [andThen_ok, wp_bind, ask, wp_call]
            refine ⟨trivial, ?_⟩
            rintro _ w rfl
            rw [andThen_ok, wp_bind, wp_lift]
            rcases r with e | ⟨termination, status⟩
            · refine ⟨?_, by rintro outcome ⟨⟩⟩
              rintro ⟨-, hearly | ⟨-, n, status, hexits⟩⟩
              · cases hearly
              · exact absurd hexits (hended n status)
            obtain ⟨n, hexits, hwatched⟩ := hended
            rw [andThen_ok, wp_bind, wp_call]
            refine ⟨trivial, ?_⟩
            rintro now w rfl
            refine ⟨fun _ => ⟨_, rfl⟩, ?_⟩
            rintro outcome ⟨⟩
            refine ⟨by rintro ⟨⟩, fun _ => ⟨hspawned, n, status, hexits, ?_⟩⟩
            exact hwatched.decided now
  · rintro _ e w ⟨-, hprepared⟩
    refine ⟨?_, by rintro outcome ⟨⟩⟩
    rintro ⟨hpasses, -⟩
    obtain ⟨command, hok⟩ := hprepared hpasses
    cases hok

/-- Every call is answered if the exit is seen before the fuel is used up. -/
theorem watchSpec_answers {status : ExitStatus} (hexits : ExitsAt seen n status) (hn : n < fuel) :
    ∀ i s w, (watchSpec fuel setup early seen).pre i s w →
      ∃ r w', (watchSpec fuel setup early seen).post i s w r w' := by
  intro i s w hpre
  cases i with
  | hang =>
      have hrunning := hpre n hn
      rw [hexits.1] at hrunning
      cases hrunning
  | ask question =>
      cases question with
      | enableSubreaper => exact ⟨true, w, rfl⟩
      | inheritedLock | installSignals => exact ⟨.ok (), w, rfl⟩
      | account | geteuid | getegid | groups | tryWait | interrupted | elapsedSecs | graceOver =>
          exact ⟨_, w, rfl, rfl⟩
      | spawnPayload => exact ⟨_, _, rfl, rfl⟩
      | signal | sleep => exact ⟨(), _, rfl⟩
      | reap => exact ⟨(), w, rfl⟩
  | pathExists => exact ⟨_, w, rfl, rfl⟩
  | now => exact ⟨0, w, rfl⟩
  | isDir => exact ⟨true, w, rfl⟩
  | account => exact ⟨.ok "", w, rfl⟩
  | unlink | openLog => exact ⟨.ok, w, rfl⟩
  | readDir | readLog => exact ⟨.ok [], w, rfl⟩
  | flock | tryWait => exact ⟨.ok true, w, rfl⟩
  | read => exact ⟨.ok .empty, w, rfl⟩
  | close | note => exact ⟨(), w, rfl⟩
  | _ => exact ⟨.ok (), w, rfl⟩

/-- `sleep 60` with a time limit of one second. -/
def Job.brief : Job where
  id := 3
  owner := ⟨1000, 100, "user"⟩
  spec := { command := ["sleep", "60"], cwd := "/", env := [], name := "sleep", count := 0
            deviceIds := none, excludeDeviceIds := [], kind := none, timeLimit := some 1
            script := none }
  state := .running
  devices := []
  submittedAt := 0
  startedAt := none
  result := none

/-- The worker runs as the owner of the job. -/
def ExecuteSetup.own : ExecuteSetup := ⟨.ok "user", 1000, 100, .ok [], .ok ()⟩

/-- The limit is reached in iteration 1, the worker is interrupted in iteration 2 when the
    grace period is over, and SIGKILL ends the payload. -/
def stubborn : Nat → Glance
  | 0 => ⟨.ok none, false, false, 0, 0⟩
  | 1 => ⟨.ok none, false, false, 1, 0⟩
  | 2 => ⟨.ok none, false, true, 2, 10 ^ 9⟩
  | _ => ⟨.ok (some (.signaled 9)), false, false, 2, 10 ^ 9⟩

/-- The first reason decides, whatever comes after it. -/
theorem stubborn_timedOut : ∃ s outcome w,
    Prog.Ends (watchSpec 4 .own false stubborn) (execute 4 .brief ()) .start s (.ok outcome) w ∧
    outcome.state = .timedOut ∧ outcome.exitCode = 124 ∧
    w.signals = [(1, sigterm), (2, sigkill)] := by
  have hexits : ExitsAt stubborn 3 (.signaled 9) := ⟨rfl, by decide⟩
  have hterminates : TerminatesAt (some 1) stubborn 3 1 .timedOut := ⟨by decide, rfl, by decide⟩
  have hpasses : ExecuteSetup.own.Passes .brief :=
    ⟨rfl, Or.inr ⟨rfl, rfl⟩, fun h => absurd h (by decide), by decide, by decide⟩
  have hsafe := execute_outcome 4 .brief .own false stubborn
  obtain ⟨s, r, w, hends⟩ :=
    Prog.Safe.can_end hsafe (watchSpec_answers hexits (Nat.lt_succ_self 3))
  obtain ⟨hok, hdecided⟩ := Prog.Safe.ends hsafe hends
  obtain ⟨outcome, rfl⟩ := hok ⟨hpasses, Or.inr ⟨rfl, 3, _, hexits⟩⟩
  obtain ⟨_, n, status, hexits', hmapped⟩ := (hdecided outcome rfl).2 rfl
  obtain ⟨rfl, rfl⟩ := hexits.unique hexits'
  obtain ⟨hstate, hcode, hsignals⟩ := hmapped.terminated 1 _ hterminates
  exact ⟨s, outcome, w, hends, hstate, hcode, hsignals⟩

end Xlurm
