/-
  Xlurm.Theorems.Privacy

  What an ordinary user learns from a root daemon: nothing about the jobs of other
  users beyond their queue summaries.

  Two daemons whose states agree on what the user may see, in environments that
  behave alike towards him, give him the same responses and agree again.
-/

import Xlurm.Os.System
import Xlurm.Prog.Lockstep
import Xlurm.Run.Tick

namespace Xlurm

open Prog (SameResult)
open Prog.Comp

/-! ## What a user may see -/

/-- The user `uid` cannot tell the jobs apart: they have the same summary, and if they
    are his they are the same. -/
structure Looks (uid : Nat) (job job' : Job) : Prop where
  summary : JobSummary.from job = JobSummary.from job'
  own : job.owner.uid = uid → job = job'

/-- Nor the stores. -/
structure SameStore (uid : Nat) (m m' : Store) : Prop where
  nextId : m.nextId = m'.nextId
  jobs : List.Forall₂ (Looks uid) m.jobs m'.jobs

/-- Nor the schedulers. -/
structure Agree (uid : Nat) (s s' : Scheduler) : Prop where
  inventory : s.inventory = s'.inventory
  excludedDevices : s.excludedDevices = s'.excludedDevices
  store : SameStore uid s.store s'.store

/-- The ids whose logs are the user's: those of his jobs and those not yet drawn. -/
def Mine (uid : Nat) (s : Scheduler) (id : Nat) : Prop :=
  s.store.nextId < id ∨ ∃ job ∈ s.store.jobs, job.id = id ∧ job.owner.uid = uid

/-- The calls other than saving that both daemons make, and with the same arguments. -/
def Call.Shared (mine : Nat → Prop) : Call → Prop
  | .now | .isDir _ | .cancel _ | .account _ _ => True
  | .openLog id | .readLog id _ _ => mine id
  | _ => False

/-- Two calls with their replies that the user cannot tell apart. -/
inductive SameCall (uid : Nat) (mine : Nat → Prop) :
    (Σ c : Call, c.Reply) → (Σ c : Call, c.Reply) → Prop
  | save {m m' : Store} (r : Except Error Unit) (h : SameStore uid m m') :
      SameCall uid mine ⟨.save m, r⟩ ⟨.save m', r⟩
  | shared {c : Call} (r : c.Reply) (h : c.Shared mine) : SameCall uid mine ⟨c, r⟩ ⟨c, r⟩

/-- The environments give the same replies to calls that the user cannot tell apart,
    after a past that he cannot tell apart: the clock, account lookups, the existence of
    a directory, saves, the executor, and the logs in `mine`; other logs may differ. -/
structure BehaveAlike (uid : Nat) (mine : Nat → Prop) (ω ω' : Env) : Prop where
  shared : ∀ tr tr', List.Forall₂ (SameCall uid mine) tr tr' →
    ∀ c : Call, c.Shared mine → ω tr c = ω' tr' c
  save : ∀ tr tr', List.Forall₂ (SameCall uid mine) tr tr' →
    ∀ m m', SameStore uid m m' → ω tr (.save m) = ω' tr' (.save m')

namespace Looks

variable {uid : Nat} {job job' : Job}

theorem refl (uid : Nat) (job : Job) : Looks uid job job := ⟨rfl, fun _ => rfl⟩

theorem id_eq (h : Looks uid job job') : job.id = job'.id := congrArg JobSummary.id h.summary

theorem owner_eq (h : Looks uid job job') : job.owner = job'.owner :=
  congrArg JobSummary.owner h.summary

theorem state_eq (h : Looks uid job job') : job.state = job'.state :=
  congrArg JobSummary.state h.summary

theorem devices_eq (h : Looks uid job job') : job.devices = job'.devices :=
  congrArg JobSummary.devices h.summary

/-- The new fields of a cancelled job tell nothing about the others. -/
theorem cancelled (h : Looks uid job job') (now : Nat) :
    Looks uid { job with state := .cancelled, result := some (cancelledOutcome now) }
      { job' with state := .cancelled, result := some (cancelledOutcome now) } := by
  refine ⟨?_, fun howner => ?_⟩
  · have hsummary := h.summary
    simp only [JobSummary.from, JobSummary.mk.injEq] at hsummary ⊢
    obtain ⟨hid, howner, hname, _, hcount, hids, hkind, hdevices, hsubmitted, hstarted, _⟩ :=
      hsummary
    exact ⟨hid, howner, hname, trivial, hcount, hids, hkind, hdevices, hsubmitted, hstarted,
      trivial⟩
  · rw [h.own howner]

end Looks

/-! ## Two runs side by side -/

section Pairing

/-- The states agree, and `mine` covers the user's jobs. -/
structure Paired (uid : Nat) (mine : Nat → Prop) (s s' : Scheduler) : Prop
    extends Agree uid s s' where
  own : ∀ job ∈ s.store.jobs, job.owner.uid = uid → mine job.id
  new : ∀ id, s.store.nextId < id → mine id

variable {uid gid : Nat} {mine : Nat → Prop} {ω ω' : Env} {s s' : Scheduler}

namespace Paired

/-- Appending the same job, with an id that was not drawn before. -/
theorem push (h : Paired uid mine s s') {job : Job} (hmine : ∀ id, job.id ≤ id → mine id) :
    Paired uid mine (s.push job) (s'.push job) where
  inventory := h.inventory
  excludedDevices := h.excludedDevices
  store := ⟨rfl, Prog.forall₂_concat h.store.jobs (Looks.refl uid job)⟩
  own old hold howner := by
    rcases List.mem_append.mp hold with hold | hold
    · exact h.own old hold howner
    · rw [List.mem_singleton.mp hold]
      exact hmine job.id (Nat.le_refl _)
  new id hlt := hmine id (Nat.le_of_lt hlt)

theorem pop (h : Paired uid mine s s') : Paired uid mine s.pop s'.pop where
  inventory := h.inventory
  excludedDevices := h.excludedDevices
  store := ⟨h.store.nextId, Prog.forall₂_dropLast h.store.jobs⟩
  own old hold := h.own old (List.mem_of_mem_dropLast hold)
  new := h.new

theorem setJob (h : Paired uid mine s s') {job job' : Job} (hjob : Looks uid job job')
    (hmine : job.owner.uid = uid → mine job.id) (i : Nat) :
    Paired uid mine (s.setJob i job) (s'.setJob i job') where
  inventory := h.inventory
  excludedDevices := h.excludedDevices
  store := ⟨h.store.nextId, Prog.forall₂_set h.store.jobs hjob i⟩
  own old hold howner := by
    rcases Store.mem_setJob hold with rfl | hold
    · exact hmine howner
    · exact h.own old hold howner
  new := h.new

end Paired

/-- The two daemons in their environments. -/
def pairing (uid : Nat) (mine : Nat → Prop) (ω ω' : Env) : Pairing Scheduler Call Call.Reply where
  left := ω
  right := ω'
  states := Paired uid mine
  calls := SameCall uid mine

theorem shared_lockstep (hω : BehaveAlike uid mine ω ω') (c : Call) (hc : c.Shared mine) :
    Lockstep (pairing uid mine ω ω') Eq (call c : Sched c.Reply) (call c) := by
  refine Lockstep.call (fun tr tr' htr => hω.shared tr tr' htr c hc) ?_
  rintro r _ rfl
  exact SameCall.shared r hc

theorem save_lockstep (hω : BehaveAlike uid mine ω ω') :
    Lockstep (pairing uid mine ω ω') (fun _ _ => True) save save := by
  refine Lockstep.get.bind fun s s' hs => ?_
  have hcall : Lockstep (pairing uid mine ω ω') (fun (r r' : Except Error Unit) => r = r')
      (call (Call.save s.store) : Sched (Except Error Unit)) (call (Call.save s'.store)) := by
    have hreply : ∀ tr tr', (pairing uid mine ω ω').Pasts tr tr' →
        ω tr (Call.save s.store) = ω' tr' (Call.save s'.store) :=
      fun tr tr' htr => hω.save tr tr' htr _ _ hs.store
    refine Lockstep.call hreply ?_
    rintro r _ rfl
    exact SameCall.save r hs.store
  refine hcall.bind ?_
  rintro r _ rfl
  exact Lockstep.lift ((SameResult.refl r).mono fun _ _ _ => trivial)

/-! ### Looking up and authorizing -/

/-- The same job on both sides, as far as the user can tell. -/
structure Retrieved (uid : Nat) (mine : Nat → Prop) (id : Nat) (job job' : Job) : Prop
    extends Looks uid job job' where
  id : job.id = id
  mine : job.owner.uid = uid → mine job.id

theorem getJob_lockstep (id : Nat) :
    Lockstep (pairing uid mine ω ω') (Retrieved uid mine id) (getJob id) (getJob id) := by
  refine Lockstep.get.bind fun s s' hs => ?_
  have hfind := Prog.forall₂_find? (p := (·.id == id)) (q := (·.id == id)) hs.store.jobs
    fun job job' h => by rw [h.id_eq]
  cases hjob : s.store.jobs.find? (·.id == id) with
  | none =>
      rw [hjob] at hfind
      cases hjob' : s'.store.jobs.find? (·.id == id) with
      | none => exact Lockstep.throw _
      | some job' =>
          rw [hjob'] at hfind
          cases hfind
  | some job =>
      rw [hjob] at hfind
      cases hjob' : s'.store.jobs.find? (·.id == id) with
      | none =>
          rw [hjob'] at hfind
          cases hfind
      | some job' =>
          rw [hjob'] at hfind
          cases hfind with
          | some hlooks =>
              have hmatch := List.find?_some hjob
              have hid : job.id = id := beq_iff_eq.mp hmatch
              have hmem := List.mem_of_find?_eq_some hjob
              exact Lockstep.pure ⟨hlooks, hid, hs.own job hmem⟩

/-- An ordinary user is authorized for his own jobs only. -/
theorem authorize_lockstep (huid : uid ≠ 0) {job job' : Job} (h : Looks uid job job') :
    Lockstep (pairing uid mine ω ω') (fun _ _ => job.owner.uid = uid)
      (authorize uid job.owner) (authorize uid job'.owner) := by
  rw [← h.owner_eq]
  refine (Lockstep.ensure Iff.rfl _).mono ?_
  rintro _ _ ⟨hroot | hown, _⟩
  · exact absurd hroot huid
  · exact hown.symm

/-! ### The requests -/

theorem resolveSpec_lockstep {s s' : Scheduler} (h : Agree uid s s') (spec : Submission) :
    Lockstep (pairing uid mine ω ω') Eq (resolveSpec s spec) (resolveSpec s' spec) := by
  unfold resolveSpec
  split
  · rename_i ids _
    unfold checkDeviceIds
    rw [← h.inventory, ← h.excludedDevices]
    refine (Lockstep.ensure Iff.rfl _).bind fun _ _ _ => (Lockstep.ensure Iff.rfl _).bind fun _ _ _ =>
      (Lockstep.ensure Iff.rfl _).bind fun _ _ _ => (Lockstep.ensure Iff.rfl _).bind fun _ _ _ => ?_
    split
    · exact Lockstep.throw _
    · exact (Lockstep.ensure Iff.rfl _).bind fun _ _ _ => Lockstep.pure rfl
    · exact Lockstep.throw _
  · exact Lockstep.pure rfl

theorem checkSubmission_lockstep (hω : BehaveAlike uid mine ω ω') (spec : Submission) :
    Lockstep (pairing uid mine ω ω') Eq (checkSubmission spec) (checkSubmission spec) := by
  refine (Lockstep.ensure Iff.rfl _).bind fun _ _ _ => ?_
  refine (shared_lockstep hω (.isDir spec.cwd) trivial).bind ?_
  rintro isDir _ rfl
  refine (Lockstep.ensure Iff.rfl _).bind fun _ _ _ => (Lockstep.ensure Iff.rfl _).bind fun _ _ _ =>
    (Lockstep.ensure Iff.rfl _).bind fun _ _ _ => Lockstep.get.bind fun s s' hs => ?_
  refine (resolveSpec_lockstep hs.toAgree spec).bind ?_
  rintro spec' _ rfl
  refine (Lockstep.ensure ?_ _).bind fun _ _ _ => Lockstep.pure rfl
  rw [hs.inventory, hs.excludedDevices]

theorem submit_lockstep (hω : BehaveAlike uid mine ω ω') (spec : Submission) (owner : Owner) :
    Lockstep (pairing uid mine ω ω') Eq (submit spec owner) (submit spec owner) := by
  refine (checkSubmission_lockstep hω spec).bind ?_
  rintro spec' _ rfl
  refine Lockstep.get.bind fun s s' hs => ?_
  rw [← hs.store.nextId]
  refine (Lockstep.ensure Iff.rfl _).bind fun _ _ _ => ?_
  refine (shared_lockstep hω .now trivial).bind ?_
  rintro now _ rfl
  have hmine : ∀ id, s.store.nextId + 1 ≤ id → mine id := hs.new
  refine (Lockstep.modify fun t t' (ht : Paired uid mine t t') => ht.push hmine).bind fun _ _ _ => ?_
  refine (save_lockstep hω).attempt.bind ?_
  rintro _ _ (_ | e)
  · exact Lockstep.pure rfl
  · exact (Lockstep.modify fun t t' (ht : Paired uid mine t t') => ht.pop).bind fun _ _ _ => Lockstep.throw e

theorem cancel_lockstep (hω : BehaveAlike uid mine ω ω') (id : Nat) :
    Lockstep (pairing uid mine ω ω') Eq (cancel id) (cancel id) := by
  refine Lockstep.get.bind fun s s' hs => ?_
  have hidx : s.store.jobs.findIdx? (·.id == id) = s'.store.jobs.findIdx? (·.id == id) :=
    Prog.forall₂_findIdx? hs.store.jobs fun job job' h => by rw [h.id_eq]
  rw [← hidx]
  cases s.store.jobs.findIdx? (·.id == id) with
  | none => exact Lockstep.throw _
  | some i =>
      have hat := Prog.forall₂_getElem? hs.store.jobs i
      dsimp only
      cases hjob : s.store.jobs[i]? with
      | none =>
          rw [hjob] at hat
          generalize s'.store.jobs[i]? = other at hat ⊢
          cases hat
          exact Lockstep.throw _
      | some job =>
          rw [hjob] at hat
          generalize s'.store.jobs[i]? = other at hat ⊢
          cases hat with
          | @some _ job' hlooks =>
              have hmine := hs.own job (List.mem_of_getElem? hjob)
              dsimp only
              rw [← hlooks.state_eq]
              -- Both jobs have the same state, so both daemons take the same branch.
              cases job.state with
              | pending =>
                  refine (shared_lockstep hω .now trivial).bind ?_
                  rintro now _ rfl
                  refine (Lockstep.modify fun t t' (ht : Paired uid mine t t') =>
                    ht.setJob (hlooks.cancelled now) hmine i).bind fun _ _ _ => ?_
                  exact (save_lockstep hω).mono fun _ _ _ => rfl
              | running =>
                  refine (shared_lockstep hω (.cancel id) trivial).bind ?_
                  rintro r _ rfl
                  exact Lockstep.lift (SameResult.refl r)
              | _ => exact Lockstep.pure rfl

theorem handleLog_lockstep (hω : BehaveAlike uid mine ω ω') (huid : uid ≠ 0) (id offset : Nat) :
    Lockstep (pairing uid mine ω ω') Eq (handleLog uid id offset) (handleLog uid id offset) := by
  refine (getJob_lockstep id).bind fun job job' hfound => ?_
  refine (authorize_lockstep huid hfound.toLooks).bind fun _ _ hown => ?_
  -- only now is the log read
  have hmine : mine id := hfound.id ▸ hfound.mine hown
  refine (shared_lockstep hω (.openLog id) hmine).bind ?_
  rintro reply _ rfl
  cases reply with
  | ok =>
      refine (shared_lockstep hω (.readLog id offset (64 * 1024)) hmine).bind ?_
      rintro bytes _ rfl
      refine (Lockstep.lift (SameResult.refl bytes)).bind ?_
      rintro bytes _ rfl
      exact Lockstep.pure rfl
  | notFound => exact Lockstep.pure rfl
  | error e => exact Lockstep.throw e

/-- The device view depends on summaries only. -/
theorem info_eq {s s' : Scheduler} (h : Agree uid s s') : s.info = s'.info := by
  unfold Scheduler.info
  rw [h.inventory, h.excludedDevices]
  refine List.map_congr_left fun device _ => ?_
  have hfind := Prog.forall₂_find?
    (p := fun job => job.state == .running && job.devices.any (·.key == device.key))
    (q := fun job => job.state == .running && job.devices.any (·.key == device.key))
    h.store.jobs fun job job' hlooks => by rw [hlooks.state_eq, hlooks.devices_eq]
  have hid : (s.store.jobs.find? fun job => job.state == .running &&
        job.devices.any (·.key == device.key)).map (·.id) =
      (s'.store.jobs.find? fun job => job.state == .running &&
        job.devices.any (·.key == device.key)).map (·.id) := by
    generalize s.store.jobs.find? _ = found at hfind ⊢
    generalize s'.store.jobs.find? _ = found' at hfind ⊢
    cases hfind with
    | none => rfl
    | some hlooks => exact congrArg some hlooks.id_eq
  rw [hid]

/-- A check that an ordinary user fails. -/
theorem denied_lockstep {α : Type} {R : α → α → Prop} (huid : uid ≠ 0) (e : Error)
    (f g : Unit → Sched α) :
    Lockstep (pairing uid mine ω ω') R (ensure (uid = 0 ∨ uid = 0) e >>= f)
      (ensure (uid = 0 ∨ uid = 0) e >>= g) := by
  refine (Lockstep.ensure Iff.rfl e).bind ?_
  rintro _ _ ⟨hroot | hroot, _⟩
  · exact absurd hroot huid
  · exact absurd hroot huid

theorem handle_lockstep (hω : BehaveAlike uid mine ω ω') (huid : uid ≠ 0) (request : Request) :
    Lockstep (pairing uid mine ω ω') Eq (handle 0 uid gid request) (handle 0 uid gid request) := by
  -- An ordinary user: administration is denied in both, a job is shown if it is his own.
  cases request with
  | submit spec =>
      refine (Lockstep.ensure Iff.rfl _).bind fun _ _ _ => ?_
      refine (shared_lockstep hω (.account uid gid) trivial).bind ?_
      rintro reply _ rfl
      refine (Lockstep.lift (SameResult.refl (Owner.account uid gid reply))).bind ?_
      rintro owner _ rfl
      refine (submit_lockstep hω spec owner).bind ?_
      rintro job _ rfl
      exact Lockstep.pure rfl
  | queue =>
      refine Lockstep.get.bind fun s s' hs => Lockstep.pure ?_
      exact congrArg Response.queue
        (Prog.forall₂_map_eq hs.store.jobs fun _ _ hlooks => hlooks.summary)
  | get id =>
      refine (getJob_lockstep id).bind fun job job' hfound => ?_
      refine (authorize_lockstep huid hfound.toLooks).bind fun _ _ hown => ?_
      exact Lockstep.pure (congrArg Response.job (hfound.own hown))
  | cancel id =>
      refine (getJob_lockstep id).bind fun job job' hfound => ?_
      refine (authorize_lockstep huid hfound.toLooks).bind fun _ _ _ => ?_
      exact (cancel_lockstep hω id).bind fun _ _ _ => Lockstep.pure rfl
  | log id offset => exact handleLog_lockstep hω huid id offset
  | info =>
      refine Lockstep.get.bind fun s s' hs => Lockstep.pure ?_
      exact congrArg Response.info (info_eq hs.toAgree)
  | stop => exact denied_lockstep huid _ _ _
  | restart => exact denied_lockstep huid _ _ _
  | exclude ids => exact denied_lockstep huid _ _ _
  | «include» ids => exact denied_lockstep huid _ _ _

end Pairing

/-! ## Any sequence of requests -/

/-- Requests of one user to a root daemon, one after another, each with the group that
    he sends it with: the results, the scheduler and the calls at the end. -/
def serveUser (ω : Env) (uid : Nat) :
    List (Nat × Request) → Scheduler → Calls → List (Except Error Response) × Scheduler × Calls
  | [], s, tr => ([], s, tr)
  | (gid, request) :: rest, s, tr =>
      let done := (handle 0 uid gid request s).run ω tr
      let (results, last) := serveUser ω uid rest done.state done.trace
      (done.value :: results, last)

theorem serveUser_paired {uid : Nat} {mine : Nat → Prop} {ω ω' : Env}
    (hω : BehaveAlike uid mine ω ω') (huid : uid ≠ 0) (requests : List (Nat × Request))
    {s s' : Scheduler} {tr tr' : Calls} (hs : Paired uid mine s s')
    (htr : List.Forall₂ (SameCall uid mine) tr tr') :
    (serveUser ω uid requests s tr).1 = (serveUser ω' uid requests s' tr').1 ∧
      Paired uid mine (serveUser ω uid requests s tr).2.1
        (serveUser ω' uid requests s' tr').2.1 := by
  induction requests generalizing s s' tr tr' with
  | nil => exact ⟨rfl, hs⟩
  | cons head rest ih =>
      obtain ⟨gid, request⟩ := head
      obtain ⟨hvalue, hstate, htrace⟩ := handle_lockstep hω huid request s s' tr tr' hs htr
      obtain ⟨hresults, hlast⟩ := ih hstate htrace
      exact ⟨congrArg₂ List.cons hvalue.eq hresults, hlast⟩

/-- Privacy between users: whatever an ordinary user requests of a root daemon, in two
    states that agree on the queue summaries and on all that is his, he gets the same
    results, and the states agree again. -/
theorem privacy (uid : Nat) (huid : uid ≠ 0) (s s' : Scheduler) (h : Agree uid s s')
    (ω ω' : Env) (hω : BehaveAlike uid (Mine uid s) ω ω') (requests : List (Nat × Request)) :
    (serveUser ω uid requests s []).1 = (serveUser ω' uid requests s' []).1 ∧
      Agree uid (serveUser ω uid requests s []).2.1 (serveUser ω' uid requests s' []).2.1 := by
  have hpaired : Paired uid (Mine uid s) s s' :=
    ⟨h, fun job hj howner => Or.inr ⟨job, hj, rfl, howner⟩, fun _ hlt => Or.inl hlt⟩
  obtain ⟨hresults, hlast⟩ := serveUser_paired hω huid requests hpaired List.Forall₂.nil
  exact ⟨hresults, hlast.toAgree⟩

/-! ## Two daemons -/

/-- User 1000 has run a command, and user 2000 has a pending job. -/
def twoUsers (command : List String) (exitCode : Int) : Scheduler where
  store := ⟨2, [
    { id := 1, owner := ⟨1000, 1000, "user1000"⟩, spec := { Submission.noop with command }
      state := .failed, devices := [], submittedAt := 1, startedAt := some 2
      result := some ⟨.failed, exitCode, 3, none⟩ },
    { id := 2, owner := ⟨2000, 2000, "user2000"⟩, spec := .noop, state := .pending, devices := []
      submittedAt := 4, startedAt := none, result := none }]⟩
  inventory := ⟨[], fun _ => none, fun _ => none⟩
  maxRunning := 1
  excludedDevices := ∅

/-- An environment in which the log of the first job has this content. -/
def firstLog (bytes : List UInt8) : Env := fun _ c =>
  match c with
  | .now => 5
  | .isDir _ => true
  | .save _ | .start _ | .cancel _ => .ok ()
  | .poll _ => .ok none
  | .readDir => .ok []
  | .removeFile _ | .openLog _ => .ok
  | .account _ _ => .ok "user2000"
  | .readLog id _ _ => .ok (if id = 1 then bytes else [])
  | .note _ => ()

theorem firstLog_alike (command : List String) (exitCode : Int) (bytes bytes' : List UInt8) :
    BehaveAlike 2000 (Mine 2000 (twoUsers command exitCode)) (firstLog bytes)
      (firstLog bytes') := by
  refine ⟨?_, fun _ _ _ _ _ _ => rfl⟩
  intro tr tr' _ c hc
  cases c with
  | readLog id offset limit =>
      have hne : id ≠ 1 := by
        rintro rfl
        rcases hc with hlt | ⟨job, hj, hid, howner⟩
        · have hlt : 2 < 1 := hlt
          omega
        · rcases List.mem_pair.mp hj with rfl | rfl
          · have howner : 1000 = 2000 := howner
            omega
          · have hid : 2 = 1 := hid
            omega
      simp only [firstLog, if_neg hne]
  | _ => rfl

/-- User 2000 cannot find out what user 1000 has run. -/
theorem privacy_user2000 :
    (serveUser (firstLog [65]) 2000
      [(2000, .queue), (2000, .get 1), (2000, .log 1 0), (2000, .cancel 2), (2000, .log 2 0),
        (2000, .submit .noop)] (twoUsers ["train"] 1) []).1 =
    (serveUser (firstLog [66]) 2000
      [(2000, .queue), (2000, .get 1), (2000, .log 1 0), (2000, .cancel 2), (2000, .log 2 0),
        (2000, .submit .noop)] (twoUsers ["mine", "coins"] 137) []).1 := by
  have hagree : Agree 2000 (twoUsers ["train"] 1) (twoUsers ["mine", "coins"] 137) := by
    refine ⟨rfl, rfl, rfl, List.Forall₂.cons ⟨rfl, ?_⟩ (List.Forall₂.cons ⟨rfl, fun _ => rfl⟩
      List.Forall₂.nil)⟩
    intro howner
    exact absurd howner (by decide)
  exact (privacy 2000 (by decide) _ _ hagree _ _ (firstLog_alike _ _ _ _) _).1

end Xlurm
