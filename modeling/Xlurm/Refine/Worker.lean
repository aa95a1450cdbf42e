/-
  Xlurm.Refine.Worker

  What a worker may do, and that its program does no more.

  A worker only reads, asks, writes its own temporary file, and renames it over
  the result file of its job once, when it holds a complete outcome of a kind
  that `execute` or `failure` builds.
-/

import Xlurm.Os.Worker
import Xlurm.Prog.Safe

namespace Xlurm

open Prog.Comp

/-- What a worker knows for certain about the files. -/
structure WorkerView where
  /-- The content of its temporary file, if it exists. -/
  temp : Option Data
  /-- Whether its result is in place. -/
  done : Bool

/-- The calls of a worker that change nothing. -/
def Sys.harmless : Sys → Bool
  | now | pathExists _ | read _ | fsync _ | syncDir | ask _ | hang => true
  | _ => false

/-- What the worker with process id `pid` for job `id` may call. -/
def workerGuard (pid id : Nat) : Sys → WorkerView → Prop
  | .create path, _ | .write path _, _ => path = .job id (.tmp pid)
  | .rename source target, v =>
      source = .job id (.tmp pid) ∧ target = .job id .result ∧ v.done = false ∧
        ∃ outcome : Outcome, v.temp = some (.whole (.outcome outcome)) ∧ outcome.Produced
  | c, _ => c.harmless = true

/-- What its calls do to its files. -/
def workerEffect : (c : Sys) → WorkerView → c.Reply → WorkerView → Prop
  | .create _, v, r, v' =>
      match r with
      | .ok () => v' = { v with temp := some .empty }
      | .error _ => v' = v
  | .write _ piece, v, r, v' =>
      match r with
      | .ok () => v' = { v with temp := v.temp.map (·.append piece) }
      | .error _ => v' = v
  | .rename _ _, v, r, v' =>
      match r with
      | .ok () => v'.done = true
      | .error _ => v' = v
  | _, v, _, v' => v' = v

def workerSpec (pid id : Nat) : Prog.Spec Unit Sys Sys.Reply WorkerView where
  pre c _ v := workerGuard pid id c v
  post c _ v r v' := workerEffect c v r v'

/-! ## Computations that change nothing -/

variable {pid id : Nat} {α β : Type}

/-- A computation that leaves the files alone and returns only values in `P`. -/
def Still (pid id : Nat) (x : Proc Unit α) (P : α → Prop) : Prop :=
  ∀ v, wp (workerSpec pid id) x (fun _ r v' => v' = v ∧ ∀ a, r = .ok a → P a) () v

namespace Still

variable {P : α → Prop} {R : β → Prop}

theorem pure {a : α} (ha : P a) : Still pid id (Pure.pure a) P :=
  fun _ => ⟨rfl, by rintro _ ⟨⟩; exact ha⟩

theorem throw (e : Error) : Still pid id (Prog.Comp.throw e : Proc Unit α) P :=
  fun _ => ⟨rfl, by rintro _ ⟨⟩⟩

theorem lift {r : Except Error α} (hr : ∀ a, r = .ok a → P a) :
    Still pid id (Prog.Comp.lift r : Proc Unit α) P :=
  fun _ => ⟨rfl, hr⟩

theorem ensure (c : Prop) [Decidable c] (e : Error) :
    Still pid id (Prog.Comp.ensure c e : Proc Unit Unit) fun _ => True := by
  intro v
  rw [wp_ensure]
  exact ⟨fun _ => ⟨rfl, fun _ _ => trivial⟩, fun _ => ⟨rfl, fun _ _ => trivial⟩⟩

theorem call (c : Sys) (hc : c.harmless = true) :
    Still pid id (Prog.Comp.call c : Proc Unit c.Reply) fun _ => True := by
  intro v
  rw [wp_call]
  cases c with
  | now | pathExists | read | fsync | syncDir | ask | hang =>
      exact ⟨rfl, fun _ _ hpost => ⟨hpost, fun _ _ => trivial⟩⟩
  | _ => cases hc

theorem bind {x : Proc Unit α} {f : α → Proc Unit β} (hx : Still pid id x P)
    (hf : ∀ a, P a → Still pid id (f a) R) : Still pid id (x >>= f) R := by
  intro v
  refine wp_bind_of (hx v) ?_ ?_
  · rintro ⟨⟩ a v' ⟨rfl, hP⟩
    exact hf a (hP a rfl) v'
  · rintro ⟨⟩ e v' ⟨rfl, _⟩
    exact ⟨rfl, by rintro _ ⟨⟩⟩

theorem attempt {x : Proc Unit α} (hx : Still pid id x P) :
    Still pid id (Prog.Comp.attempt x) fun r => ∀ a, r = .ok a → P a := by
  intro v
  rw [wp_attempt]
  refine wp_mono (hx v) ?_
  rintro ⟨⟩ r v' ⟨rfl, hP⟩
  exact ⟨rfl, by rintro _ ⟨⟩; exact hP⟩

end Still

/-! ## The worker's program -/

/-- The reasons for which the supervision loop terminates a payload. -/
def Reason (termination : Option State) : Prop :=
  ∀ state, termination = some state → state = .cancelled ∨ state = .timedOut

theorem terminationReason_still (job : Job) : Still pid id (terminationReason job) Reason := by
  have hcancelled : Reason (some .cancelled) := by
    rintro _ ⟨⟩
    exact Or.inl rfl
  refine (Still.call _ rfl).bind fun marker _ => ?_
  cases marker with
  | true => exact Still.pure hcancelled
  | false =>
      refine (Still.call (.ask .interrupted) rfl).bind fun interrupted _ => ?_
      cases interrupted with
      | true => exact Still.pure hcancelled
      | false =>
          cases job.spec.timeLimit with
          | none => exact Still.pure (by rintro _ ⟨⟩)
          | some limit =>
              refine (Still.call (.ask .elapsedSecs) rfl).bind fun elapsed _ => Still.pure ?_
              split
              · rintro _ ⟨⟩
                exact Or.inr rfl
              · rintro _ ⟨⟩

theorem beginTermination_still (job : Job) {termination : Option State}
    (h : Reason termination) : Still pid id (beginTermination job termination) Reason := by
  cases termination with
  | some state => exact Still.pure h
  | none =>
      refine (terminationReason_still job).bind fun reason hreason => ?_
      cases reason with
      | none => exact Still.pure hreason
      | some reason =>
          exact (Still.call (.ask (.signal sigterm)) rfl).bind fun _ _ => Still.pure hreason

theorem supervise_still (job : Job) (fuel : Nat) {termination : Option State}
    (h : Reason termination) :
    Still pid id (supervise job fuel termination) fun r => Reason r.1 := by
  -- Each round hands the next one a reason to terminate, or none; a payload that
  -- outlasts the fuel never returns.
  induction fuel generalizing termination with
  | zero =>
      rw [supervise]
      exact (Still.call .hang rfl).bind fun never _ => nomatch never
  | succ fuel ih =>
      rw [supervise]
      refine (Still.call (.ask .tryWait) rfl).bind fun reply _ =>
        (Still.lift (P := fun _ => True) fun _ _ => trivial).bind fun status _ => ?_
      cases status with
      | some status => exact Still.pure h
      | none =>
          refine (beginTermination_still job h).bind fun termination' h' => ?_
          have hrest : Still pid id (ask .sleep >>= fun _ => supervise job fuel termination')
              fun r => Reason r.1 := (Still.call (.ask .sleep) rfl).bind fun _ _ => ih h'
          split
          · refine (Still.call (.ask .graceOver) rfl).bind fun late _ => ?_
            cases late with
            | false => exact hrest
            | true => exact (Still.call (.ask (.signal sigkill)) rfl).bind fun _ _ => hrest
          · exact hrest

theorem prepare_still (job : Job) : Still pid id (prepare job) fun _ => True := by
  unfold prepare
  refine (Still.call (.ask (.account _ _)) rfl).bind fun _ _ =>
    (Still.lift (P := fun _ => True) fun _ _ => trivial).bind fun owner _ =>
    (Still.ensure _ _).bind fun _ _ => (Still.call (.ask .geteuid) rfl).bind fun euid _ =>
    (Still.call (.ask .getegid) rfl).bind fun egid _ => (Still.ensure _ _).bind fun _ _ => ?_
  have hgroups : Still pid id (payloadGroups euid owner) fun _ => True := by
    unfold payloadGroups
    split
    · exact (Still.call (.ask (.groups owner)) rfl).bind fun _ _ =>
        Still.lift fun _ _ => trivial
    · exact Still.pure trivial
  exact hgroups.bind fun _ _ => (Still.ensure _ _).bind fun _ _ =>
    (Still.ensure _ _).bind fun _ _ => Still.pure trivial

/-- `execute` returns only outcomes that it builds. -/
theorem execute_still (fuel : Nat) (job : Job) :
    Still pid id (execute fuel job) Outcome.Produced := by
  unfold execute
  refine (prepare_still job).bind fun command _ => (Still.call _ rfl).bind fun cancelled _ => ?_
  cases cancelled with
  | true =>
      exact (Still.call .now rfl).bind fun now _ => Still.pure (Outcome.Produced.cancelled now)
  | false =>
      refine (Still.call (.ask (.spawnPayload command)) rfl).bind fun reply _ => ?_
      cases reply with
      | error e => exact Still.throw _
      | ok =>
          refine (supervise_still job fuel (by rintro _ ⟨⟩)).attempt.bind fun result hresult =>
            (Still.call (.ask .reap) rfl).bind fun _ _ =>
            (Still.lift hresult).bind fun status hstatus =>
            (Still.call .now rfl).bind fun now _ => Still.pure ?_
          exact Outcome.Produced.exited status.1 status.2 now hstatus

/-- Writing the result: the temporary is complete when it is renamed. -/
theorem writeResult_safe (outcome : Outcome) (h : outcome.Produced) (v : WorkerView)
    (hv : v.done = false) :
    wp (workerSpec pid id) (writeJson pid (.job id .result) (.outcome outcome))
      (fun _ _ _ => True) () v := by
  simp only [writeJson, wp_bind, wp_call, Path.temporary]
  refine ⟨rfl, ?_⟩
  rintro (e | ⟨⟨⟩⟩) v₁ (hv₁ : v₁ = _) <;> subst hv₁
  · exact trivial
  refine ⟨rfl, ?_⟩
  rintro (e | ⟨⟨⟩⟩) v₂ (hv₂ : v₂ = _) <;> subst hv₂
  · exact trivial
  refine ⟨rfl, ?_⟩
  rintro (e | ⟨⟨⟩⟩) v₃ (hv₃ : v₃ = _) <;> subst hv₃
  · exact trivial
  refine ⟨rfl, ?_⟩
  rintro (e | ⟨⟨⟩⟩) v₄ (hv₄ : v₄ = _) <;> subst hv₄
  · exact trivial
  -- The rename: the temporary holds the whole outcome and nothing is published yet.
  refine ⟨⟨rfl, rfl, hv, outcome, ?_, h⟩, ?_⟩
  · simp
  rintro (e | ⟨⟨⟩⟩) v₅ _
  · exact trivial
  refine ⟨rfl, ?_⟩
  rintro (e | ⟨⟨⟩⟩) v₆ _
  · exact trivial
  · exact trivial

theorem readJson_still (decode : Data → Option α) (path : Path) :
    Still pid id (readJson decode path) fun _ => True := by
  refine (Still.call (.read path) rfl).bind fun _ _ =>
    (Still.lift (P := fun _ => True) fun _ _ => trivial).bind fun data _ => ?_
  split
  · exact Still.pure trivial
  · exact Still.throw _

theorem executeOrFail_still (fuel : Nat) (job : Job) :
    Still pid id (executeOrFail fuel job) Outcome.Produced := by
  refine (execute_still fuel job).attempt.bind fun result hresult => ?_
  cases result with
  | ok outcome => exact Still.pure (hresult outcome rfl)
  | error e =>
      exact (Still.call .now rfl).bind fun now _ => Still.pure (Outcome.Produced.failure e now)

theorem runJob_still (fuel id' : Nat) : Still pid id (runJob fuel id') Outcome.Produced :=
  (Still.call (.ask .inheritedLock) rfl).bind fun _ _ =>
    (Still.lift (P := fun _ => True) fun _ _ => trivial).bind fun _ _ =>
    (readJson_still _ _).bind fun job _ => (Still.call (.ask .installSignals) rfl).bind fun _ _ =>
    (Still.lift (P := fun _ => True) fun _ _ => trivial).bind fun _ _ =>
    (Still.call (.ask .enableSubreaper) rfl).bind fun _ _ =>
    (Still.ensure _ _).bind fun _ _ => executeOrFail_still fuel job

/-- A new worker keeps to what workers may do. -/
theorem worker_safe (pid fuel id : Nat) (v : WorkerView) (hv : v.done = false) :
    (worker pid fuel id ()).Safe (workerSpec pid id) (fun _ _ _ => True) v := by
  refine wp_bind_of (runJob_still fuel id v) ?_ ?_
  · rintro ⟨⟩ outcome v' ⟨rfl, hproduced⟩
    exact writeResult_safe outcome (hproduced outcome rfl) v' hv
  · exact fun _ _ _ _ => trivial

end Xlurm
