/-
  Xlurm.Theorems.Errors

  Requests that are answered with an error change neither the jobs nor the
  excluded devices, with one exception: `cancel` of a pending job does not take
  its change back when it cannot save.
-/

import Xlurm.Os.System
import Xlurm.Run.Ops

namespace Xlurm

open Prog.Comp

variable {euid uid gid : Nat} {s s' : Scheduler} {ω : Prog.Oracle Call Call.Reply}
  {tr : Prog.Trace Call Call.Reply} {α β : Type}

/-- The jobs in memory and the excluded devices are the same; `next_id` may differ. -/
def Unchanged (s s' : Scheduler) : Prop :=
  s'.store.jobs = s.store.jobs ∧ s'.excludedDevices = s.excludedDevices

theorem Unchanged.refl (s : Scheduler) : Unchanged s s := ⟨rfl, rfl⟩

/-- An error leaves `s` unchanged. -/
def OnError (s s' : Scheduler) (r : Except Error α) (_ : Prog.Trace Call Call.Reply) : Prop :=
  ∀ e, r = .error e → Unchanged s s'

/-- What follows and cannot fail does not matter. -/
theorem wp_map_onError {T : Prog.Spec Scheduler Call Call.Reply (Prog.Trace Call Call.Reply)}
    {s₁ : Scheduler} (x : Sched α) (f : α → β) :
    wp T (x >>= fun a => pure (f a)) (OnError s) s₁ tr ↔ wp T x (OnError s) s₁ tr := by
  rw [wp_bind]
  constructor
  · intro h
    refine wp_mono h ?_
    rintro s' (e | a) tr' h
    · rintro e' ⟨⟩
      exact h e rfl
    · rintro e ⟨⟩
  · intro h
    refine wp_mono h ?_
    rintro s' (e | a) tr' h
    · rintro e' ⟨⟩
      exact h e rfl
    · rintro e ⟨⟩

/-- An error changes nothing. -/
def Atomic (x : Sched α) : Prop :=
  ∀ ω s tr, wp (Prog.Spec.oracle Scheduler ω) x (OnError s) s tr

namespace Atomic

theorem of_quiet {x : Sched α} (hx : Quiet x) : Atomic x := by
  intro ω s tr
  rw [wp_oracle, hx]
  exact fun _ _ => Unchanged.refl s

/-- A check, then the rest. -/
theorem quiet_bind {x : Sched α} {f : α → Sched β} (hx : Quiet x) (hf : ∀ a, Atomic (f a)) :
    Atomic (x >>= f) := by
  intro ω s tr
  exact wp_quiet hx (fun a tr' => hf a ω s tr') fun _ _ _ _ => Unchanged.refl s

/-- The rest cannot fail. -/
theorem map {x : Sched α} (hx : Atomic x) (f : α → β) : Atomic (x >>= fun a => pure (f a)) := by
  intro ω s tr
  exact (wp_map_onError x f).mpr (hx ω s tr)

end Atomic

/-! ## The requests -/

theorem setDevicesExcluded_atomic (ids : List Nat) (excluded : Bool) :
    Atomic (setDevicesExcluded ids excluded) := by
  refine Atomic.quiet_bind (Quiet.ensure _ _) fun _ => Atomic.quiet_bind Quiet.get fun s =>
    Atomic.quiet_bind (ensureKnown_quiet _ _) fun _ => ?_
  intro ω s tr
  rw [wp_modify]
  rintro e ⟨⟩

theorem handleExclude_atomic (euid uid : Nat) (ids : List Nat) (excluded : Bool) :
    Atomic (handleExclude euid uid ids excluded) :=
  Atomic.quiet_bind (Quiet.ensure _ _) fun _ => Atomic.quiet_bind (Quiet.ensure _ _) fun _ =>
    (setDevicesExcluded_atomic ids excluded).map fun _ => Response.ok

/-- `submit` takes the new job back when it cannot be saved. -/
theorem submit_atomic (spec : Submission) (owner : Owner) : Atomic (submit spec owner) := by
  refine Atomic.quiet_bind (checkSubmission_quiet spec) fun spec => ?_
  intro ω s tr
  rw [wp_bind, wp_get, andThen_ok]
  refine wp_quiet (Quiet.ensure _ _) (fun _ tr₁ => ?_) fun _ _ _ _ => Unchanged.refl s
  rw [wp_bind, wp_oracle_call, andThen_ok]
  dsimp only
  rw [wp_bind, wp_modify, andThen_ok, wp_bind, wp_attempt, wp_oracle, save_quiet]
  rw [andThen_ok]
  split
  · rintro e ⟨⟩
  · rw [wp_bind, wp_modify, andThen_ok, wp_throw]
    intro e _
    exact ⟨List.dropLast_concat, rfl⟩

/-! ## Cancelling -/

/-- The request cancels a pending job that its user may cancel, and saving fails. -/
def CancelUnsaved (uid : Nat) (request : Request) (s : Scheduler)
    (ω : Prog.Oracle Call Call.Reply) (tr : Prog.Trace Call Call.Reply) : Prop :=
  ∃ id i job e, request = .cancel id ∧ s.store.jobs.findIdx? (·.id == id) = some i ∧
    s.store.jobs[i]? = some job ∧ (uid = 0 ∨ uid = job.owner.uid) ∧ job.state = .pending ∧
    ω (tr ++ [⟨.now, ω tr .now⟩]) (.save (s.cancelled i job (ω tr .now)).store) = .error e

theorem cancelled_changed {i : Nat} {job : Job} (hi : s.store.jobs[i]? = some job)
    (hpend : job.state = .pending) (now : Nat) : ¬ Unchanged s (s.cancelled i job now) := by
  rintro ⟨hjobs, _⟩
  have hlt := (List.getElem?_eq_some_iff.mp hi).choose
  have hat : (s.cancelled i job now).store.jobs[i]? =
      some { job with state := .cancelled, result := some (cancelledOutcome now) } :=
    List.getElem?_set_self hlt
  rw [hjobs, hi] at hat
  have hstate := congrArg Job.state (Option.some.inj hat)
  rw [hpend] at hstate
  cases hstate

/-- The branch of `cancel` for a pending job. -/
theorem cancel_pending_iff {i : Nat} {job : Job} (hi : s.store.jobs[i]? = some job)
    (hpend : job.state = .pending) :
    wp (Prog.Spec.oracle Scheduler ω) (do
      let now ← call .now
      modify (·.cancelled i job now)
      save) (OnError s) s tr ↔
    ¬ ∃ e, ω (tr ++ [⟨.now, ω tr .now⟩]) (.save (s.cancelled i job (ω tr .now)).store) =
      .error e := by
  rw [wp_bind, wp_oracle_call, andThen_ok, wp_bind, wp_modify, andThen_ok, save, wp_bind, wp_get,
    andThen_ok, wp_bind, wp_oracle_call, andThen_ok, wp_lift, not_exists]
  refine forall_congr' fun e => ⟨fun h heq => ?_, fun h heq => absurd heq h⟩
  exact cancelled_changed hi hpend _ (h heq)

theorem handle_cancel_iff (id : Nat) :
    wp (Prog.Spec.oracle Scheduler ω) (handle euid uid gid (.cancel id)) (OnError s) s tr ↔
    ¬ CancelUnsaved uid (.cancel id) s ω tr := by
  show wp _ (getJob id >>= fun job => authorize uid job.owner >>= fun _ =>
    cancel id >>= fun _ => pure Response.ok) _ s tr ↔ _
  rw [wp_bind, getJob, wp_bind, wp_get, andThen_ok, List.find?_eq_bind_findIdx?_getElem?]
  cases hidx : s.store.jobs.findIdx? (·.id == id) with
  | none =>
      refine iff_of_true (fun _ _ => Unchanged.refl s) ?_
      rintro ⟨id', i, job, e, ⟨⟩, hidx', _⟩
      rw [hidx] at hidx'
      cases hidx'
  | some i =>
      have hlt := (List.findIdx?_eq_some_iff_getElem.mp hidx).choose
      obtain ⟨job, hi⟩ : ∃ job, s.store.jobs[i]? = some job := ⟨_, List.getElem?_eq_getElem hlt⟩
      -- what the condition says once the job is known
      have hunsaved : CancelUnsaved uid (.cancel id) s ω tr ↔
          (uid = 0 ∨ uid = job.owner.uid) ∧ job.state = .pending ∧
            ∃ e, ω (tr ++ [⟨.now, ω tr .now⟩]) (.save (s.cancelled i job (ω tr .now)).store) =
              .error e := by
        constructor
        · rintro ⟨id', i', job', e, ⟨⟩, hidx', hi', hauth, hpend, herror⟩
          rw [hidx] at hidx'
          cases hidx'
          rw [hi] at hi'
          cases hi'
          exact ⟨hauth, hpend, e, herror⟩
        · rintro ⟨hauth, hpend, e, herror⟩
          exact ⟨id, i, job, e, rfl, hidx, hi, hauth, hpend, herror⟩
      simp only [Option.bind_some, hi]
      rw [wp_pure, andThen_ok, wp_bind, authorize, wp_ensure, hunsaved]
      by_cases hauth : uid = 0 ∨ uid = job.owner.uid
      · simp only [hauth, forall_const, not_true_eq_false, false_implies, and_true, true_and,
          andThen_ok]
        rw [wp_map_onError, cancel, wp_bind, wp_get, andThen_ok]
        simp only [hidx, hi]
        have hquiet : ∀ x : Sched Unit, Quiet x → wp (Prog.Spec.oracle Scheduler ω) x
            (OnError s) s tr := fun x hx => Atomic.of_quiet hx ω s tr
        cases hstate : job.state with
        | pending =>
            simp only [true_and]
            exact cancel_pending_iff hi hstate
        | running =>
            simp only [reduceCtorEq, false_and, not_false_eq_true, iff_true]
            exact hquiet _ ((Quiet.call (Call.cancel id)).bind fun _ => Quiet.lift _)
        | _ =>
            simp only [reduceCtorEq, false_and, not_false_eq_true, iff_true]
            exact hquiet _ (Quiet.pure _)
      · simp only [hauth, false_implies, not_false_eq_true, forall_const, true_and, false_and,
          iff_true]
        exact fun _ _ => Unchanged.refl s

/-! ## All requests -/

/-- The requests other than `cancel`. -/
theorem handle_atomic {request : Request} (hcancel : ∀ id, request ≠ .cancel id) :
    Atomic (handle euid uid gid request) := by
  cases request with
  | cancel id => exact absurd rfl (hcancel id)
  | submit spec =>
      exact Atomic.quiet_bind (Quiet.ensure _ _) fun _ =>
        Atomic.quiet_bind (Quiet.call (Call.account uid gid)) fun _ =>
          Atomic.quiet_bind (Quiet.lift _) fun owner =>
            (submit_atomic spec owner).map Response.job
  | queue => exact Atomic.of_quiet (Quiet.get.bind fun _ => Quiet.pure _)
  | get id =>
      exact Atomic.of_quiet ((getJob_quiet id).bind fun _ => (Quiet.ensure _ _).bind fun _ =>
        Quiet.pure _)
  | log id offset => exact Atomic.of_quiet (handleLog_quiet uid id offset)
  | info => exact Atomic.of_quiet (Quiet.get.bind fun _ => Quiet.pure _)
  | exclude ids => exact handleExclude_atomic euid uid ids true
  | «include» ids => exact handleExclude_atomic euid uid ids false
  | stop => exact Atomic.of_quiet ((Quiet.ensure _ _).bind fun _ => Quiet.pure _)
  | restart =>
      exact Atomic.of_quiet ((Quiet.ensure _ _).bind fun _ => Quiet.get.bind fun _ =>
        (Quiet.ensure _ _).bind fun _ => Quiet.pure _)

/-- An error changes nothing, exactly unless it is the failing save of a cancellation. -/
theorem error_unchanged_iff (euid uid gid : Nat) (request : Request) (s : Scheduler)
    (ω : Prog.Oracle Call Call.Reply) (tr : Prog.Trace Call Call.Reply) :
    (∀ e, ((handle euid uid gid request s).run ω tr).value = .error e →
      Unchanged s ((handle euid uid gid request s).run ω tr).state) ↔
    ¬ CancelUnsaved uid request s ω tr := by
  by_cases hcancel : ∃ id, request = .cancel id
  · obtain ⟨id, rfl⟩ := hcancel
    exact wp_oracle.symm.trans (handle_cancel_iff id)
  · have hother : ∀ id, request ≠ .cancel id := fun id heq => hcancel ⟨id, heq⟩
    refine iff_of_true (wp_oracle.mp (handle_atomic hother ω s tr)) ?_
    rintro ⟨id, _, _, _, heq, _⟩
    exact hcancel ⟨id, heq⟩

/-! ## The exception -/

/-- One pending job of user 1000. -/
def onePending : Scheduler where
  store := ⟨1, [{ id := 1, owner := ⟨1000, 1000, "user"⟩, spec := .noop, state := .pending
                  devices := [], submittedAt := 0, startedAt := none, result := none }]⟩
  inventory := ⟨[], fun _ => none, fun _ => none⟩
  maxRunning := 1
  excludedDevices := ∅

/-- `state.json` cannot be written; no other call matters here. -/
def unsaved : Prog.Oracle Call Call.Reply := fun _ c =>
  match c with
  | .now => 5
  | .isDir _ => true
  | .save _ => .error "No space left on device (os error 28)"
  | .start _ | .cancel _ => .ok ()
  | .poll _ => .ok none
  | .readDir => .ok []
  | .removeFile _ | .openLog _ => .ok
  | .account _ _ => .ok "user"
  | .readLog _ _ _ => .ok []
  | .note _ => ()

/-- The owner's cancellation is answered with an error, and the job is cancelled. -/
theorem unsaved_cancel_changed :
    ¬ ∀ e, ((handle 0 1000 1000 (.cancel 1) onePending).run unsaved []).value = .error e →
      Unchanged onePending ((handle 0 1000 1000 (.cancel 1) onePending).run unsaved []).state := by
  intro h
  have hjobs := (h "No space left on device (os error 28)" rfl).1
  revert hjobs
  decide

end Xlurm
