/-
  Xlurm.Theorems.Integrity

  Integrity between users.  A request of a peer who is neither root nor the
  daemon's own user leaves everything alone that is not the peer's, and in every
  run a job belongs to the peer that submitted it and is cancelled only for its
  owner or for root.
-/

import Xlurm.Ledger.Peers
import Xlurm.Refine.System
import Xlurm.Run.Ops
import Xlurm.Theorems.Exclusivity

namespace Xlurm

open Prog.Comp

/-! ## What one request may do -/

/-- The calls that a request may make when it finds the scheduler in state `s`. -/
def Permitted (uid gid : Nat) (request : Request) (s : Scheduler) : Call → Prop
  | .save store => Touches uid gid request s.store store
  | .cancel id => ∀ job ∈ s.store.jobs, job.id = id → job.owner.uid = uid
  | _ => True

/-- What a request may make of the scheduler. -/
structure Confined (uid gid : Nat) (request : Request) (s s' : Scheduler) : Prop where
  touches : Touches uid gid request s.store s'.store
  excluded : s'.excludedDevices = s.excludedDevices

variable {ω : Env} {s : Scheduler} {tr : Calls} {euid uid gid : Nat} {request : Request}

theorem Confined.refl (uid gid : Nat) (request : Request) (s : Scheduler) :
    Confined uid gid request s s :=
  ⟨Touches.same rfl, rfl⟩

theorem wp_save_guarded {P : Call → Prop} {Q : Scheduler → Except Error Unit → Calls → Prop} :
    wp (Prog.Spec.guarded Scheduler ω P) save Q s tr ↔
      P (.save s.store) ∧ Q s (ω tr (.save s.store)) (tr ++ [⟨.save s.store, ω tr (.save s.store)⟩]) := by
  rw [save, wp_bind, wp_get, andThen_ok, wp_bind, wp_guarded_call, andThen_ok, wp_lift]

theorem submit_confined (spec₀ spec : Submission) (owner : Owner) :
    wp (Prog.Spec.guarded Scheduler ω (Permitted owner.uid owner.gid (.submit spec₀) s))
      (submit spec owner)
      (fun s' _ _ => Confined owner.uid owner.gid (.submit spec₀) s s') s tr := by
  have hsame := Confined.refl owner.uid owner.gid (.submit spec₀) s
  rw [submit]
  refine wp_quiet_guarded (checkSubmission_quiet spec) (checkSubmission_only spec trivial)
    (fun spec₁ tr₁ => ?_) fun _ _ => hsame
  rw [wp_bind, wp_get, andThen_ok, wp_bind, wp_ensure]
  refine ⟨fun _ => ?_, fun _ => hsame⟩
  rw [andThen_ok, wp_bind, wp_guarded_call, andThen_ok]
  refine ⟨trivial, ?_⟩
  dsimp only
  generalize hjob : (Job.mk (s.store.nextId + 1) owner spec₁ .pending [] (ω tr₁ .now) none none) = job
  have hpend : job.state = .pending := by rw [← hjob]
  have howner : job.owner.uid = owner.uid ∧ job.owner.gid = owner.gid := by
    rw [← hjob]
    exact ⟨rfl, rfl⟩
  have hpushed : Touches owner.uid owner.gid (.submit spec₀) s.store (s.push job).store :=
    Touches.submitted spec₀ job rfl hpend howner rfl
  rw [wp_bind, wp_modify, andThen_ok, wp_bind, wp_attempt, wp_save_guarded]
  refine ⟨hpushed, ?_⟩
  generalize ω _ (.save _) = saved
  cases saved with
  | ok _ => exact ⟨hpushed, rfl⟩
  | error e =>
      rw [andThen_ok, wp_bind, wp_modify, andThen_ok, wp_throw]
      -- The job is taken back; only its id stays drawn.
      refine ⟨Touches.same ?_, rfl⟩
      simp [Scheduler.push, Scheduler.pop]

theorem cancel_confined {id : Nat} (hmine : ∀ job ∈ s.store.jobs, job.id = id → job.owner.uid = uid) :
    wp (Prog.Spec.guarded Scheduler ω (Permitted uid gid (.cancel id) s)) (cancel id)
      (fun s' _ _ => Confined uid gid (.cancel id) s s') s tr := by
  have hsame := Confined.refl uid gid (.cancel id) s
  rw [cancel, wp_bind, wp_get, andThen_ok]
  split
  · exact hsame
  · rename_i i hidx
    split
    · exact hsame
    · rename_i job hi
      have hid : job.id = id := id_of_findIdx? hidx hi
      have howner : job.owner.uid = uid := hmine job (List.mem_of_getElem? hi) hid
      split
      · rename_i hpend
        rw [wp_bind, wp_guarded_call, andThen_ok]
        refine ⟨trivial, ?_⟩
        have hcancelled : Touches uid gid (.cancel id) s.store
            (s.setJob i { job with
              state := .cancelled, result := some (cancelledOutcome (ω tr .now)) }).store :=
          Touches.cancelled i job (ω tr .now) (by rw [hid]) hi hpend (Or.inr howner.symm) rfl
        rw [wp_bind, wp_modify, andThen_ok, wp_save_guarded]
        exact ⟨hcancelled, hcancelled, rfl⟩
      · rw [wp_bind, wp_guarded_call, andThen_ok, wp_lift]
        exact ⟨hmine, hsame⟩
      · exact hsame

/-- `handle`, for a peer who is neither root nor the daemon's own user. -/
theorem handle_confined (request : Request) (hord : s.store.Ordered) (huser : uid ≠ 0)
    (hother : uid ≠ euid) :
    wp (Prog.Spec.guarded Scheduler ω (Permitted uid gid request s)) (handle euid uid gid request)
      (fun s' r _ => Confined uid gid request s s' ∧ (request.stops = true → r ≠ .ok .ok)) s tr := by
  have hadmin : ¬ (uid = 0 ∨ uid = euid) := by omega
  have hsame := Confined.refl uid gid request s
  -- Requests that neither change the scheduler nor make a call that matters.
  have hquiet : ∀ {x : Sched Response}, Quiet x → Only (Permitted uid gid request s) x →
      request.stops = false → wp (Prog.Spec.guarded Scheduler ω (Permitted uid gid request s)) x
        (fun s' r _ => Confined uid gid request s s' ∧ (request.stops = true → r ≠ .ok .ok))
        s tr := by
    intro x hx ho hstops
    apply ho.guarded
    rw [wp_oracle, hx]
    exact ⟨hsame, fun h => absurd (hstops.symm.trans h) (by decide)⟩
  have hrefused : ∀ {f : Unit → Sched Response} {e : Error},
      wp (Prog.Spec.guarded Scheduler ω (Permitted uid gid request s))
        (ensure (uid = 0 ∨ uid = euid) e >>= f)
        (fun s' r _ => Confined uid gid request s s' ∧ (request.stops = true → r ≠ .ok .ok))
        s tr := by
    intro f e
    rw [wp_bind, wp_ensure]
    exact ⟨fun h => absurd h hadmin, fun _ => ⟨hsame, by rintro _ ⟨⟩⟩⟩
  cases request with
  | submit spec =>
      rw [handle, wp_bind, wp_ensure]
      refine ⟨fun _ => ?_, fun _ => ⟨hsame, by rintro ⟨⟩⟩⟩
      rw [andThen_ok, wp_bind, wp_guarded_call, andThen_ok, wp_bind, wp_lift]
      refine ⟨trivial, ?_⟩
      cases ω tr (.account uid gid) with
      | error e => exact ⟨hsame, by rintro ⟨⟩⟩
      | ok name =>
          show wp (Prog.Spec.guarded Scheduler ω (Permitted uid gid (.submit spec) s)) _ _ s _
          refine wp_bind_of (submit_confined spec spec ⟨uid, gid, name⟩) ?_ ?_
          · intro s₁ job tr₁ h
            exact ⟨h, by rintro ⟨⟩⟩
          · intro s₁ e tr₁ h
            exact ⟨h, by rintro ⟨⟩⟩
  | cancel id =>
      rw [handle, wp_bind]
      refine getJob_wp (fun job hmem hid => ?_) fun _ => ⟨hsame, by rintro ⟨⟩⟩
      rw [andThen_ok, wp_bind, authorize, wp_ensure]
      refine ⟨fun hallowed => ?_, fun _ => ⟨hsame, by rintro ⟨⟩⟩⟩
      -- An id names one job, so the authorized one is the one that `cancel` finds.
      have hmine : ∀ other ∈ s.store.jobs, other.id = id → other.owner.uid = uid := by
        intro other hother hoid
        rw [hord.eq_of_id hother hmem (hoid.trans hid.symm)]
        omega
      rw [andThen_ok]
      refine wp_bind_of (cancel_confined hmine) ?_ ?_
      · intro s₁ _ tr₁ h
        exact ⟨h, by rintro ⟨⟩⟩
      · intro s₁ e tr₁ h
        exact ⟨h, by rintro ⟨⟩⟩
  | queue | info =>
      exact hquiet (Quiet.get.bind fun _ => Quiet.pure _) (Only.get.bind fun _ => Only.pure _) rfl
  | get id =>
      exact hquiet ((getJob_quiet id).bind fun _ => (Quiet.ensure _ _).bind fun _ => Quiet.pure _)
        ((getJob_only id).bind fun _ => (Only.ensure _ _).bind fun _ => Only.pure _) rfl
  | log id offset =>
      exact hquiet (handleLog_quiet uid id offset) (handleLog_only uid id offset trivial trivial) rfl
  | exclude ids | «include» ids => exact hrefused
  | stop | restart => exact hrefused

/-- One connection: the request is confined, and the daemon goes on. -/
theorem serveRequest_confined (request : Request) (hord : s.store.Ordered) (huser : uid ≠ 0)
    (hother : uid ≠ euid) :
    wp (Prog.Spec.guarded Scheduler ω (Permitted uid gid request s))
      (serveRequest euid uid gid request)
      (fun s' r _ => Confined uid gid request s s' ∧ r = .ok .loop) s tr := by
  rw [serveRequest, wp_bind, serveAnswer, wp_bind, wp_get, andThen_ok, wp_bind, wp_attempt]
  refine wp_mono (handle_confined request hord huser hother) ?_
  rintro s₁ r tr₁ ⟨hconfined, hstops⟩
  rw [andThen_ok, wp_bind, wp_get, andThen_ok, wp_bind, note, wp_guarded_call, andThen_ok]
  refine ⟨trivial, hconfined, ?_⟩
  have hloop : ¬ (request.stops && decide (Response.ofResult r = .ok)) = true := by
    intro hboth
    obtain ⟨hreq, hresp⟩ := Bool.and_eq_true_iff.mp hboth
    apply hstops hreq
    cases r with
    | ok response => exact congrArg Except.ok (of_decide_eq_true hresp)
    | error e => cases of_decide_eq_true hresp
  show Except.ok (if (request.stops && decide (Response.ofResult r = .ok)) = true then Next.stop
    else .loop) = _
  rw [if_neg hloop]

/-! ## One request in plain terms -/

/-- The stores differ only in jobs of the user `uid`, and a new job is pending and belongs to
    the peer. -/
structure Store.Meddled (uid gid : Nat) (before m : Store) : Prop where
  others : m.others uid = before.others uid
  added : ∀ job ∈ m.jobs, (∃ old ∈ before.jobs, old.id = job.id) ∨
    (job.state = .pending ∧ job.owner.uid = uid ∧ job.owner.gid = gid)

theorem Touches.meddled {before m : Store} (h : Touches uid gid request before m)
    (huser : uid ≠ 0) : Store.Meddled uid gid before m := by
  refine ⟨h.others huser, fun job hj => ?_⟩
  rcases h.added hj with ⟨old, hold, hid, _⟩ | hnew
  · exact Or.inl ⟨old, hold, hid⟩
  · exact Or.inr hnew

/-- What a request of an ordinary user does to the scheduler in state `s`, with the calls `own`. -/
structure Harmless (uid gid : Nat) (s : Scheduler) (own : Calls) (s' : Scheduler)
    (r : Except Error Next) : Prop where
  memory : Store.Meddled uid gid s.store s'.store
  /-- Every store that is written to `state.json` on the way. -/
  saved : ∀ store reply, ⟨.save store, reply⟩ ∈ own → Store.Meddled uid gid s.store store
  /-- No cancellation marker for a job of another user. -/
  unmarked : ∀ id reply, ⟨.cancel id, reply⟩ ∈ own →
    ∀ job ∈ s.store.jobs, job.id = id → job.owner.uid = uid
  excluded : s'.excludedDevices = s.excludedDevices
  running : r = .ok .loop

theorem serveRequest_harmless (ω : Env) (tr : Calls) (gid : Nat) (request : Request)
    (hord : s.store.Ordered) (huser : uid ≠ 0) (hother : uid ≠ euid) :
    ∃ own, ((serveRequest euid uid gid request s).run ω tr).trace = tr ++ own ∧
      Harmless uid gid s own ((serveRequest euid uid gid request s).run ω tr).state
        ((serveRequest euid uid gid request s).run ω tr).value := by
  have hsafe : wp (Prog.Spec.guarded Scheduler ω (Permitted uid gid request s))
      (serveRequest euid uid gid request)
      (fun s' r _ => Confined uid gid request s s' ∧ r = .ok .loop) s tr :=
    serveRequest_confined request hord huser hother
  obtain ⟨⟨hconfined, hrunning⟩, own, hown, hcalls⟩ := Prog.safe_guarded.mp hsafe
  refine ⟨own, hown, hconfined.touches.meddled huser, ?_, ?_, hconfined.excluded, hrunning⟩
  · intro store reply hmem
    have htouches : Touches uid gid request s.store store := hcalls _ _ hmem
    exact htouches.meddled huser
  · intro id reply hmem
    exact hcalls _ _ hmem

/-! ## Markers -/

/-- A cancellation marker of job `id` is put in place only while a `Cancel` of the job is
    handled for its owner or for root. -/
def System.MayMark (sys : System) (id : Nat) : Prop :=
  ∃ uid gid s, sys.world.hist.serving = some (uid, gid, .cancel id) ∧ sys.mem = some s ∧
    ∃ job ∈ s.store.jobs, job.id = id ∧ (uid = 0 ∨ uid = job.owner.uid)

theorem System.Good.marker {L₀ : Ledger} {sys : System} (h : sys.Good L₀) (euid : Nat)
    (action : Action) (id : Nat) :
    (sys.step euid action).world.dataAt (.job id .cancel) =
        sys.world.dataAt (.job id .cancel) ∨
      (sys.step euid action).world.dataAt (.job id .cancel) = none ∨ sys.MayMark id := by
  have hmoves := System.step_moves euid sys action
  generalize sys.step euid action = sys' at hmoves ⊢
  cases hmoves with
  | idle => exact Or.inl rfl
  | boot pid inventory maxRunning excluded s down free new =>
      rw [System.settle_dataAt]
      exact Or.inl rfl
  | begin op s e rest =>
      rw [System.settle_dataAt]
      exact Or.inl rfl
  | crash prog up => exact Or.inl (World.dataAt_released _ _ _)
  | beside w' hi =>
      obtain ⟨_, _, hb⟩ := hi.sound h.sound h.reach
      exact Or.inl (hb.data _ trivial)
  | daemon st c k raw r w' next exec =>
      rw [System.settle_dataAt]
      -- The daemon replaces a marker only where `MayReplace` lets it.
      cases exec_wrote (h.allowed next) exec (.job id .cancel) with
      | same data => exact Or.inl data
      | unlinked call data => exact Or.inr (Or.inl data)
      | temporary own => cases own
      | opened fresh data kind =>
          obtain ⟨_, hkind⟩ := kind
          simp at hkind
      | replaced may =>
          obtain ⟨job, hmem, hid, uid, gid, hserving, hallowed⟩ := may
          rw [hid] at hserving
          have hs : sys.mem = some st.1 := by
            rw [System.mem, next]
            rfl
          exact Or.inr (Or.inr ⟨uid, gid, st.1, hserving, hs, job, hmem, hid, hallowed⟩)

/-! ## Every run -/

/-- Integrity between users, in every run.

    * Between two operations a request of any kind, from a peer who is neither root nor the
      daemon's own user, is harmless in every environment.
    * A job belongs to the peer of the submission that drew its id.
    * While a request is handled, memory and disk differ from what they were when it arrived
      at most by a new pending job of the peer, or by the cancellation of the pending job that
      the request names, which is the peer's own unless the peer is root.
    * A marker appears or changes only in a step that serves a `Cancel` of its job, for the
      owner of the job or for root. -/
theorem integrity (euid : Nat) (actions : List Action) :
    let sys := System.init.run euid actions
    (∀ s e, sys.daemon = some (.ret (s, e) (.ok .loop)) →
      ∀ (uid gid : Nat) (request : Request) (ω : Env) (tr : Calls), uid ≠ 0 → uid ≠ euid →
        ∃ own, ((serveRequest euid uid gid request s).run ω tr).trace = tr ++ own ∧
          Harmless uid gid s own ((serveRequest euid uid gid request s).run ω tr).state
            ((serveRequest euid uid gid request s).run ω tr).value) ∧
    (∀ job, sys.Stored job →
      sys.world.hist.submitter job.id = some (job.owner.uid, job.owner.gid)) ∧
    (∀ uid gid request before disk, sys.world.hist.Handles uid gid request before disk →
      (∀ s, sys.mem = some s → Touches uid gid request before s.store) ∧
      (sys.world.disk = disk ∨ Touches uid gid request before sys.world.disk)) ∧
    ∀ action id, (sys.step euid action).world.dataAt (.job id .cancel) =
        sys.world.dataAt (.job id .cancel) ∨
      (sys.step euid action).world.dataAt (.job id .cancel) = none ∨ sys.MayMark id := by
  intro sys
  have hgood : sys.Good Ledger.init := System.init_good.run euid actions
  have hhandling : Handling sys.ledger := hgood.reach.handling
  refine ⟨?_, hgood.reach.owned, ?_, fun action id => hgood.marker euid action id⟩
  · intro s e hd uid gid request ω tr huser hother
    have hmem : sys.ledger.mem = some s.store := by
      apply System.ledger_mem
      rw [System.mem, hd]
      rfl
    exact serveRequest_harmless ω tr gid request (hgood.reach.inv.memOrdered _ hmem) huser hother
  · intro uid gid request before disk hserving
    refine ⟨fun s hs => ?_, hhandling.disk uid gid request before disk hserving⟩
    exact hhandling.mem uid gid request before disk hserving _ (System.ledger_mem hs)

end Xlurm
