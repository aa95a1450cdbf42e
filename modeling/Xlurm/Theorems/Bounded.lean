/-
  Xlurm.Theorems.Bounded

  Where the environment has short texts only, so have the jobs in the store, the
  errors and the answers about one job or one device: a request is limited, and
  nothing accumulates in a job.
-/

import Xlurm.Model.Sizes
import Xlurm.Run.Ops
import Xlurm.Theorems.Allocation

namespace Xlurm

open Json Prog.Comp

/-! ## The environment -/

/-- The text of a call that has failed. -/
def Call.failure : (c : Call) → c.Reply → Option Error
  | save _, .error e | start _, .error e | poll _, .error e | cancel _, .error e => some e
  | account _ _, .error e | openLog _, .error e | readLog _ _ _, .error e => some e
  | _, _ => none

/-- What the system calls guarantee: seconds fit 64 bits, `account` has a buffer of at
    most 1 MiB for a name, a read of a log is limited, and errors are short texts.  That in
    the outcome of a worker may name its program, which the request has limited. -/
structure SizedReplies (ω : Env) : Prop where
  now : ∀ tr, ω tr .now < 2 ^ 64
  account : ∀ tr uid gid name, ω tr (.account uid gid) = .ok name →
    textSize name.toList ≤ 1024 * 1024
  readLog : ∀ tr id offset limit bytes, ω tr (.readLog id offset limit) = .ok bytes →
    bytes.length ≤ limit
  outcome : ∀ tr id outcome, ω tr (.poll id) = .ok (some outcome) → outcome.Bounded
  failure : ∀ tr c e, Call.failure c (ω tr c) = some e → Error.Bounded e

/-- A store that is saved has bounded jobs only. -/
def Call.Bounded : Call → Prop
  | save store => store.Bounded
  | _ => True

/-- A request that a client can send. -/
structure Request.Bounded (request : Request) : Prop where
  typed : request.Typed
  /-- Up to 1 KiB of fields with defaults may be left out on the wire. -/
  size_le : size (Request.format.encode request) ≤ requestLimit + 1024

/-- A request from a client, or a refresh that has found out short texts. -/
def Op.Bounded : Op → Prop
  | .request uid gid asked => uid < 2 ^ 32 ∧ gid < 2 ^ 32 ∧ asked.Bounded
  | .refresh status monitoringErrors =>
      (∀ key text, status key = some text → size (str text) ≤ textLimit) ∧
        ∀ key text, monitoringErrors key = some text → size (str text) ≤ textLimit
  | .tick | .cleanup => True

/-! ## Errors -/

theorem Error.bounded_of_short {e : Error} (h : textSize e.toList ≤ 1024 * 1024 + 1024) :
    Error.Bounded e := by
  have hsize := size_str_le e
  show size (str e) ≤ 8 * 1024 * 1024
  omega

theorem textSize_toString_le {n : Nat} (h : n < 2 ^ 64) : textSize (toString n).toList ≤ 20 := by
  show textSize (String.ofList (Nat.toDigits 10 n)).toList ≤ 20
  rw [String.toList_ofList]
  exact size_num_le (by decide) (by omega : n < 10 ^ 20)

/-! ## What the scheduler keeps -/

section

variable {ω : Env}

/-- In a bounded state: only bounded stores are saved, the state stays bounded, and an error
    is in `E`. -/
abbrev StaysBounded {α : Type} (ω : Env) (R : α → Prop) (E : Error → Prop) (x : Sched α) : Prop :=
  Within (Prog.Spec.guarded Scheduler ω Call.Bounded) (fun s _ => s.Bounded) R E x

namespace StaysBounded

variable {α : Type} {R : α → Prop} {E : Error → Prop} {c : Call}

theorem call {R : c.Reply → Prop} (hc : c.Bounded) (hR : ∀ tr, R (ω tr c)) :
    StaysBounded ω R E (Prog.Comp.call c) := by
  refine Within.call (fun _ _ _ => hc) ?_
  rintro s tr r tr' hbounded ⟨rfl, rfl⟩
  exact ⟨hbounded, hR tr⟩

/-- A call whose error is passed on. -/
theorem reply (hω : SizedReplies ω) {g : c.Reply → Except Error α} (hc : c.Bounded)
    (hok : ∀ tr a, g (ω tr c) = .ok a → R a)
    (herror : ∀ r e, g r = .error e → Call.failure c r = some e) :
    StaysBounded ω R Error.Bounded (Prog.Comp.call c >>= fun r => Prog.Comp.lift (g r)) := by
  refine (call (R := fun r => ∃ tr, r = ω tr c) hc fun tr => ⟨tr, rfl⟩).bind ?_
  rintro _ ⟨tr, rfl⟩
  exact Within.lift (hok tr) fun e he => hω.failure tr c e (herror _ e he)

end StaysBounded

theorem Store.Bounded.setJob {store : Store} (h : store.Bounded) {i : Nat} {job : Job}
    (hjob : job.Bounded) : (store.setJob i job).Bounded := by
  intro other hother
  rcases Store.mem_setJob hother with rfl | hother
  · exact hjob
  · exact h other hother

theorem Scheduler.Bounded.setJob {s : Scheduler} (h : s.Bounded) {i : Nat} {job : Job}
    (hjob : job.Bounded) : (s.setJob i job).Bounded :=
  ⟨h.store.setJob hjob, h.inventory⟩

theorem Scheduler.Bounded.push {s : Scheduler} (h : s.Bounded) {job : Job} (hjob : job.Bounded) :
    (s.push job).Bounded := by
  refine ⟨fun other hother => ?_, h.inventory⟩
  rcases List.mem_append.mp hother with hother | hother
  · exact h.store other hother
  · obtain rfl := List.mem_singleton.mp hother
    exact hjob

theorem Scheduler.Bounded.pop {s : Scheduler} (h : s.Bounded) : s.pop.Bounded :=
  ⟨fun other hother => h.store other (List.dropLast_subset _ hother), h.inventory⟩

theorem Store.Bounded.retain {store : Store} (h : store.Bounded) (expired : List Nat) :
    (store.retain expired).Bounded :=
  fun other hother => h other (Store.mem_retain.mp hother).1

/-- The devices of an allocation are few, and from the inventory. -/
theorem Job.Bounded.allotted {job : Job} (h : job.Bounded) {inventory : Inventory}
    (hinventory : inventory.Bounded) {reserved : Finset String} {devices : List Device}
    (halloc : allocate job.spec inventory.devices reserved = some devices) :
    devices.length ≤ deviceLimit ∧
      ∀ device ∈ devices, size (Device.format.encode device) ≤ textLimit := by
  obtain ⟨_, hall⟩ := allocate_devices halloc
  have hsubset : devices ⊆ inventory.devices := fun device hdevice => (hall device hdevice).1
  have hnodup := allocate_nodup hinventory.nodup h.spec.distinct halloc
  exact ⟨((hnodup.subperm hsubset).length_le).trans hinventory.few,
    fun device hdevice => hinventory.devices device (hsubset hdevice)⟩

theorem getJob_bounded (id : Nat) : StaysBounded ω Job.Bounded Error.Bounded (getJob id) := by
  refine (Within.get (S := Scheduler.Bounded) fun _ _ h => h).bind fun s hs => ?_
  split
  · rename_i job hfind
    exact Within.pure (hs.store job (List.mem_of_find?_eq_some hfind))
  · exact Within.throw (Error.bounded_of_short (by decide))

theorem authorize_bounded {uid : Nat} {owner : Owner} (h : owner.Bounded) :
    StaysBounded ω (fun _ => True) Error.Bounded (authorize uid owner) := by
  refine (Within.ensure fun _ => ?_).mono (fun _ _ => trivial) fun _ he => he
  apply Error.bounded_of_short
  have huid : owner.uid < 2 ^ 64 := Nat.lt_trans h.uid (by decide)
  have hnumber := textSize_toString_le huid
  have hname := h.name
  have htexts : textSize "permission denied: job belongs to ".toList = 34 ∧
      textSize " (UID ".toList = 6 ∧ textSize ")".toList = 1 := by decide
  simp only [String.toList_append, textSize_append, htexts, toString] at *
  omega

/-- The checks keep the submission and at most pin its kind. -/
theorem checkDeviceIds_bounded {s₀ : Scheduler} {spec : Submission} {ids : List Nat}
    (hids : spec.deviceIds = some ids)
    (hsize : size (Submission.format.encode spec) ≤ requestLimit + 1024) :
    StaysBounded ω (fun spec' => spec'.Bounded ∧ spec'.count = spec.count) Error.Bounded
      (checkDeviceIds s₀ spec ids) := by
  rw [checkDeviceIds]
  refine (Within.ensure fun _ => Error.bounded_of_short (by decide)).bind fun _ _ => ?_
  refine (Within.ensure fun _ => Error.bounded_of_short (by decide)).bind fun _ _ => ?_
  refine (Within.ensure fun _ => Error.bounded_of_short (by decide)).bind fun _ hdistinct => ?_
  refine (Within.ensure fun _ => Error.bounded_of_short (by decide)).bind fun _ _ => ?_
  split
  · exact Within.throw (Error.bounded_of_short (by decide))
  · rename_i kind _
    -- Devices of one kind: the submission is kept, with that kind.
    refine (Within.ensure fun _ => Error.bounded_of_short (by decide)).bind fun _ _ => ?_
    refine Within.pure ⟨⟨?_, fun ids' hids' => ?_⟩, rfl⟩
    · have hkind := size_submission_kind spec (some kind)
      omega
    · obtain rfl : ids = ids' := Option.some.inj (hids.symm.trans hids')
      exact (distinct_iff ids).mp hdistinct
  · exact Within.throw (Error.bounded_of_short (by decide))

theorem checkSubmission_bounded {spec : Submission} (hcount : spec.count < 2 ^ 64)
    (hsize : size (Submission.format.encode spec) ≤ requestLimit + 1024) :
    StaysBounded ω Submission.Bounded Error.Bounded (checkSubmission spec) := by
  rw [checkSubmission]
  refine (Within.ensure fun _ => Error.bounded_of_short (by decide)).bind fun _ _ => ?_
  refine (StaysBounded.call (c := .isDir spec.cwd) (R := fun _ => True) trivial
    fun _ => trivial).bind fun _ _ => ?_
  refine (Within.ensure fun _ => Error.bounded_of_short (by decide)).bind fun _ _ => ?_
  refine (Within.ensure fun _ => Error.bounded_of_short (by decide)).bind fun _ _ => ?_
  refine (Within.ensure fun _ => Error.bounded_of_short (by decide)).bind fun _ _ => ?_
  refine (Within.get (S := fun _ => True) fun _ _ _ => trivial).bind fun s _ => ?_
  have hresolve : StaysBounded ω (fun spec' => spec'.Bounded ∧ spec'.count = spec.count) Error.Bounded
      (resolveSpec s spec) := by
    unfold resolveSpec
    split
    · exact checkDeviceIds_bounded ‹_› hsize
    · rename_i hids
      have hlarger : size (Submission.format.encode spec) ≤ requestLimit + 2048 :=
        hsize.trans (Nat.add_le_add_left (by decide) _)
      refine Within.pure ⟨⟨hlarger, fun ids hids' => ?_⟩, rfl⟩
      rw [hids] at hids'
      cases hids'
  refine hresolve.bind fun spec' hspec' => ?_
  -- The last check's error is the only one that holds a number.
  refine (Within.ensure fun _ => ?_).bind fun _ _ => Within.pure hspec'.1
  apply Error.bounded_of_short
  have hnumber := textSize_toString_le (hspec'.2 ▸ hcount : spec'.count < 2 ^ 64)
  have htexts : textSize "requested ".toList = 10 ∧
      textSize " device(s), but no matching pool has enough enabled devices".toList = 59 := by
    decide
  simp only [String.toList_append, textSize_append, htexts, toString] at *
  omega

theorem removeArtifacts_bounded (expired : List Nat) (entries : List (Except Error Path)) :
    StaysBounded ω (fun _ => True) (fun _ => True) (removeArtifacts expired entries) := by
  induction entries with
  | nil => exact Within.pure trivial
  | cons entry rest ih =>
      refine (Within.lift (R := fun _ => True) (fun _ _ => trivial) fun _ _ => trivial).bind
        fun path _ => ?_
      split
      · exact ih
      · split
        · refine (StaysBounded.call (c := .removeFile path) (R := fun _ => True) trivial
            fun _ => trivial).bind fun reply _ => ?_
          split
          · exact ih
          · exact ih
          · exact Within.throw trivial
        · exact ih

theorem cleanup_bounded (timestamp : Nat) :
    StaysBounded ω (fun _ => True) (fun _ => True) (cleanup timestamp) := by
  refine (Within.get (S := Scheduler.Bounded) fun _ _ h => h).bind fun s hs => ?_
  dsimp only
  split
  · exact Within.pure trivial
  · have hretained := hs.store.retain (s.store.expired timestamp)
    refine (StaysBounded.call (c := .readDir) (R := fun _ => True) trivial fun _ => trivial).bind
      fun listed _ => ?_
    refine (Within.lift (R := fun _ => True) (fun _ _ => trivial) fun _ _ => trivial).bind
      fun entries _ => ?_
    refine (removeArtifacts_bounded _ entries).bind fun _ _ => ?_
    refine (StaysBounded.call (c := .save (s.store.retain (s.store.expired timestamp)))
      (R := fun _ => True) hretained fun _ => trivial).bind fun saved _ => ?_
    refine (Within.lift (R := fun _ => True) (fun _ _ => trivial) fun _ _ => trivial).bind
      fun _ _ => ?_
    exact Within.modify fun _ _ h => ⟨hretained, h.inventory⟩

theorem note_bounded (event : Event) :
    StaysBounded ω (fun _ => True) (fun _ => True) (note event) :=
  StaysBounded.call (c := .note event) trivial fun _ => trivial

theorem serveCleanup_bounded : StaysBounded ω (fun _ => True) (fun _ => True) serveCleanup := by
  refine (StaysBounded.call (c := .now) (R := fun _ => True) trivial fun _ => trivial).bind
    fun now _ => ?_
  refine (Within.get (S := fun _ => True) fun _ _ _ => trivial).bind fun s _ => ?_
  refine (note_bounded _).bind fun _ _ => ?_
  exact (cleanup_bounded now).attempt.bind fun _ _ => Within.pure trivial

theorem ensureKnown_bounded (devices : List Device) {ids : List Nat}
    (hids : ∀ id ∈ ids, id < 2 ^ 32) :
    StaysBounded ω (fun _ => True) Error.Bounded (ensureKnown devices ids) := by
  induction ids with
  | nil => exact Within.pure trivial
  | cons id rest ih =>
      refine (Within.ensure fun _ => ?_).bind fun _ _ =>
        ih fun id hid => hids id (List.mem_cons_of_mem _ hid)
      apply Error.bounded_of_short
      have hid : id < 2 ^ 64 := Nat.lt_trans (hids id List.mem_cons_self) (by decide)
      have hnumber := textSize_toString_le hid
      have htexts : textSize "excluded device ID ".toList = 19 ∧
          textSize " does not exist in the selected backends".toList = 40 := by decide
      simp only [String.toList_append, textSize_append, htexts, toString] at *
      omega

theorem setDevicesExcluded_bounded {ids : List Nat} (hids : ∀ id ∈ ids, id < 2 ^ 32)
    (excluded : Bool) :
    StaysBounded ω (fun _ => True) Error.Bounded (setDevicesExcluded ids excluded) := by
  refine (Within.ensure fun _ => Error.bounded_of_short (by decide)).bind fun _ _ => ?_
  refine (Within.get (S := fun _ => True) fun _ _ _ => trivial).bind fun s _ => ?_
  refine (ensureKnown_bounded s.inventory.devices hids).bind fun _ _ => ?_
  exact Within.modify fun _ _ h => ⟨h.store, h.inventory⟩

/-! ## Answers -/

/-- An answer about one job or about the devices; those to `Queue` are not of this kind. -/
def Response.Bounded : Response → Prop
  | .job found => found.Bounded
  | .queue _ => False
  | .log bytes offset => bytes.length ≤ 64 * 1024 ∧ offset < 10 ^ 20
  | .info views =>
      size (arr (views.map DeviceView.format.encode)) ≤ deviceLimit * (3 * textLimit + 100 + 1) + 2
  | .ok => True
  | .error e => Error.Bounded e

theorem Scheduler.Bounded.info {s : Scheduler} (h : s.Bounded) : (Response.info s.info).Bounded := by
  show size (arr (s.info.map DeviceView.format.encode)) ≤ _
  apply size_arr_le
  · rw [List.length_map, Scheduler.info, List.length_map]
    exact h.inventory.few
  · intro j hj
    obtain ⟨view, hview, rfl⟩ := List.mem_map.mp hj
    obtain ⟨device, hdevice, rfl⟩ := List.mem_map.mp hview
    refine h.inventory.size_view_le hdevice ?_ ?_ fun text htext => h.inventory.errors _ _ htext
    · intro id hid
      obtain ⟨job, hfind, rfl⟩ := Option.map_eq_some_iff.mp hid
      exact (h.store job (List.mem_of_find?_eq_some hfind)).id
    · dsimp only
      split
      · decide
      split
      · decide
      · cases hstatus : s.inventory.status device.key with
        | none => decide
        | some text => exact h.inventory.status _ text hstatus

theorem handleExclude_bounded {euid uid : Nat} {ids : List Nat} (hids : ∀ id ∈ ids, id < 2 ^ 32)
    (excluded : Bool) :
    StaysBounded ω Response.Bounded Error.Bounded (handleExclude euid uid ids excluded) := by
  refine (Within.ensure fun _ => Error.bounded_of_short (by decide)).bind fun _ _ => ?_
  refine (Within.ensure fun _ => Error.bounded_of_short (by decide)).bind fun _ _ => ?_
  exact (setDevicesExcluded_bounded hids excluded).bind fun _ _ => Within.pure trivial

/-- What is left of a request for the submission in it. -/
theorem Request.Bounded.submission {spec : Submission} (h : (Request.submit spec).Bounded) :
    spec.count < 2 ^ 64 ∧ size (Submission.format.encode spec) ≤ requestLimit + 1024 := by
  have hkey : textSize (quoted "Submit") = 8 := by decide
  have hcontent : size (Request.format.encode (.submit spec)) = _ :=
    size_content "Submit" (Submission.format.encode spec)
  have hsize := h.size_le
  rw [hcontent, hkey] at hsize
  exact ⟨h.typed.count, by omega⟩

variable (hω : SizedReplies ω)

include hω

theorem save_bounded : StaysBounded ω (fun _ => True) Error.Bounded save := by
  refine (Within.get (S := Scheduler.Bounded) fun _ _ h => h).bind fun s hs => ?_
  refine StaysBounded.reply hω (c := .save s.store) hs.store (fun _ _ _ => trivial) ?_
  rintro _ e rfl
  rfl

theorem submit_bounded {spec : Submission} {owner : Owner} (hcount : spec.count < 2 ^ 64)
    (hsize : size (Submission.format.encode spec) ≤ requestLimit + 1024) (howner : owner.Bounded) :
    StaysBounded ω Job.Bounded Error.Bounded (submit spec owner) := by
  rw [submit]
  refine (checkSubmission_bounded hcount hsize).bind fun spec' hspec' => ?_
  refine (Within.get (S := fun _ => True) fun _ _ _ => trivial).bind fun s _ => ?_
  refine (Within.ensure fun _ => Error.bounded_of_short (by decide)).bind fun _ hid => ?_
  refine (StaysBounded.call (c := .now) (R := fun now => now < 2 ^ 64) trivial hω.now).bind
    fun now hnow => ?_
  have hjob : Job.Bounded ⟨s.store.nextId + 1, owner, spec', .pending, [], now, none, none⟩ := by
    refine ⟨hid, howner, hspec', Nat.zero_le _, ?_, hnow, ?_, ?_⟩
    all_goals rintro _ ⟨⟩
  refine (Within.modify fun _ _ h => h.push hjob).bind fun _ _ => ?_
  refine (save_bounded hω).attempt.bind fun r hr => ?_
  cases r with
  | ok _ => exact Within.pure hjob
  | error e =>
      -- The failed save is rolled back, and its error is passed on.
      exact (Within.modify fun _ _ h => h.pop).bind fun _ _ => Within.throw (hr.2 e rfl)

theorem cancel_bounded (id : Nat) : StaysBounded ω (fun _ => True) Error.Bounded (cancel id) := by
  rw [cancel]
  refine (Within.get (S := Scheduler.Bounded) fun _ _ h => h).bind fun s hs => ?_
  split
  · exact Within.throw (Error.bounded_of_short (by decide))
  · split
    · exact Within.throw (Error.bounded_of_short (by decide))
    · rename_i job hi
      have hjob := hs.store job (List.mem_of_getElem? hi)
      -- A pending job gets its outcome here, a running one from its worker, a finished one keeps
      -- the one it has.
      split
      · refine (StaysBounded.call (c := .now) (R := fun now => now < 2 ^ 64) trivial hω.now).bind
          fun now hnow => ?_
        have houtcome : (cancelledOutcome now).Bounded := by
          apply Outcome.bounded_of (Or.inr rfl) hnow
          rintro _ ⟨⟩
        refine (Within.modify fun _ _ h => h.setJob ⟨hjob.id, hjob.owner, hjob.spec, hjob.few,
          hjob.devices, hjob.submittedAt, hjob.startedAt, ?_⟩).bind fun _ _ => save_bounded hω
        rintro _ ⟨⟩
        exact houtcome
      · refine StaysBounded.reply hω (c := .cancel id) trivial (fun _ _ _ => trivial) ?_
        rintro _ e rfl
        rfl
      · exact Within.pure trivial

theorem pollJobs_bounded (todo : List Nat) (changed : Bool) :
    StaysBounded ω (fun _ => True) Error.Bounded (pollJobs todo changed) := by
  induction todo generalizing changed with
  | nil => exact Within.pure trivial
  | cons i rest ih =>
      refine (Within.get (S := Scheduler.Bounded) fun _ _ h => h).bind fun s hs => ?_
      split
      · exact ih changed
      · rename_i job hi
        have hjob := hs.store job (List.mem_of_getElem? hi)
        split
        · have hpoll : StaysBounded ω (fun outcome => ∀ o ∈ outcome, o.Bounded) Error.Bounded
              (Prog.Comp.call (Call.poll job.id) >>= fun r => lift r) := by
            refine StaysBounded.reply hω (c := .poll job.id) trivial ?_ ?_
            · rintro tr outcome houtcome o rfl
              exact hω.outcome tr job.id o houtcome
            · rintro _ e rfl
              rfl
          refine hpoll.bind fun outcome houtcome => ?_
          cases outcome with
          | none => exact ih changed
          | some o =>
              refine (Within.modify fun _ _ h => h.setJob ⟨hjob.id, hjob.owner, hjob.spec,
                hjob.few, hjob.devices, hjob.submittedAt, hjob.startedAt, ?_⟩).bind
                  fun _ _ => ih true
              rintro _ ⟨⟩
              exact houtcome o rfl
        · exact ih changed

theorem startJobs_bounded (todo : List Nat) (reserved : Finset String) (running : Nat) :
    StaysBounded ω (fun _ => True) Error.Bounded (startJobs todo reserved running) := by
  induction todo generalizing reserved running with
  | nil => exact Within.pure trivial
  | cons i rest ih =>
      refine (Within.get (S := Scheduler.Bounded) fun _ _ h => h).bind fun s hs => ?_
      split
      · exact Within.pure trivial
      split
      · exact ih reserved running
      rename_i job hi
      have hjob := hs.store job (List.mem_of_getElem? hi)
      split
      · exact ih reserved running
      rename_i devices halloc
      obtain ⟨hfew, hdevices⟩ := hjob.allotted hs.inventory halloc
      refine (StaysBounded.call (c := .now) (R := fun now => now < 2 ^ 64) trivial hω.now).bind
        fun now hnow => ?_
      have hmarked : (job.marked devices now).Bounded := by
        refine ⟨hjob.id, hjob.owner, hjob.spec, hfew, hdevices, hjob.submittedAt, ?_, hjob.result⟩
        rintro _ ⟨⟩
        exact hnow
      refine (Within.modify fun _ _ h => h.setJob hmarked).bind fun _ _ => ?_
      refine (save_bounded hω).bind fun _ _ => ?_
      refine (StaysBounded.call (c := .start (job.marked devices now))
        (R := fun r => ∀ e, r = .error e → Error.Bounded e) trivial ?_).bind fun r hr => ?_
      · intro tr e he
        exact hω.failure tr (.start (job.marked devices now)) e (by rw [he]; rfl)
      cases r with
      | ok _ => exact ih _ _
      | error e =>
          -- The text of the refused start ends up in the outcome of the job.
          refine (StaysBounded.call (c := .now) (R := fun now => now < 2 ^ 64) trivial hω.now).bind
            fun later hlater => ?_
          have houtcome : (failure e later).Bounded := by
            refine Outcome.bounded_of (Or.inl rfl) hlater ?_
            rintro _ ⟨⟩
            exact hr e rfl
          refine (Within.modify fun _ _ h => h.setJob ⟨hjob.id, hjob.owner, hjob.spec, hfew,
            hdevices, hjob.submittedAt, hmarked.startedAt, ?_⟩).bind fun _ _ =>
              (save_bounded hω).bind fun _ _ => ih _ _
          rintro _ ⟨⟩
          exact houtcome

theorem tick_bounded : StaysBounded ω (fun _ => True) Error.Bounded tick := by
  refine (Within.get (S := fun _ => True) fun _ _ _ => trivial).bind fun s _ => ?_
  refine (pollJobs_bounded hω _ _).bind fun changed _ => ?_
  have hgo : StaysBounded ω (fun _ => True) Error.Bounded (do
      let s ← Prog.Comp.get
      startJobs (pendingOrder s.store) s.reserved (runningCount s.store)) :=
    (Within.get (S := fun _ => True) fun _ _ _ => trivial).bind
      fun s _ => startJobs_bounded hω _ _ _
  cases changed with
  | false => exact hgo
  | true => exact (save_bounded hω).bind fun _ _ => hgo

theorem handleLog_bounded {uid id offset : Nat} (hoffset : offset < 2 ^ 64) :
    StaysBounded ω Response.Bounded Error.Bounded (handleLog uid id offset) := by
  refine (getJob_bounded id).bind fun job hjob => ?_
  refine (authorize_bounded hjob.owner).bind fun _ _ => ?_
  refine (StaysBounded.call (c := .openLog id) (R := fun r => ∀ e, r = .error e → Error.Bounded e)
    trivial ?_).bind fun opened hopened => ?_
  · intro tr e he
    exact hω.failure tr (.openLog id) e (by rw [he]; rfl)
  cases opened with
  | ok =>
      -- The read is limited, whatever the length of the log.
      have hread : StaysBounded ω (fun bytes => bytes.length ≤ 64 * 1024) Error.Bounded
          (Prog.Comp.call (Call.readLog id offset (64 * 1024)) >>= fun r => lift r) := by
        refine StaysBounded.reply hω (c := .readLog id offset (64 * 1024)) trivial ?_ ?_
        · exact fun tr bytes hbytes => hω.readLog tr id offset (64 * 1024) bytes hbytes
        · rintro _ e rfl
          rfl
      refine hread.bind fun bytes hbytes => Within.pure ⟨hbytes, ?_⟩
      omega
  | notFound => exact Within.pure ⟨Nat.zero_le _, by omega⟩
  | error e => exact Within.throw (hopened e rfl)

/-- The answers to all requests but `Queue` and `Restart`. -/
theorem handle_bounded (euid : Nat) {uid gid : Nat} (huid : uid < 2 ^ 32) (hgid : gid < 2 ^ 32)
    {request : Request} (h : request.Bounded) (hqueue : request ≠ .queue)
    (hrestart : request ≠ .restart) :
    StaysBounded ω Response.Bounded Error.Bounded (handle euid uid gid request) := by
  cases request with
  | submit spec =>
      obtain ⟨hcount, hsize⟩ := h.submission
      refine (Within.ensure fun _ => Error.bounded_of_short (by decide)).bind fun _ _ => ?_
      have howner : StaysBounded ω Owner.Bounded Error.Bounded
          (Prog.Comp.call (Call.account uid gid) >>= fun r => lift (Owner.account uid gid r)) := by
        refine StaysBounded.reply hω (c := .account uid gid) trivial ?_ ?_
        · intro tr owner howner
          cases hreply : ω tr (.account uid gid) with
          | error e =>
              rw [hreply] at howner
              cases howner
          | ok name =>
              rw [hreply] at howner
              cases howner
              exact ⟨huid, hgid, hω.account tr uid gid name hreply⟩
        · rintro (e' | name) e he
          · cases he
            rfl
          · cases he
      exact howner.bind fun owner howner =>
        (submit_bounded hω hcount hsize howner).bind fun job hjob => Within.pure hjob
  | queue => exact absurd rfl hqueue
  | get id =>
      exact (getJob_bounded id).bind fun job hjob =>
        (authorize_bounded hjob.owner).bind fun _ _ => Within.pure hjob
  | cancel id =>
      exact (getJob_bounded id).bind fun job hjob => (authorize_bounded hjob.owner).bind fun _ _ =>
        (cancel_bounded hω id).bind fun _ _ => Within.pure trivial
  | log id offset => exact handleLog_bounded hω h.typed.2
  | info =>
      exact (Within.get (S := Scheduler.Bounded) fun _ _ h => h).bind fun s hs => Within.pure hs.info
  | exclude ids => exact handleExclude_bounded h.typed true
  | «include» ids => exact handleExclude_bounded h.typed false
  | stop =>
      exact (Within.ensure fun _ => Error.bounded_of_short (by decide)).bind fun _ _ =>
        Within.pure trivial
  | restart => exact absurd rfl hrestart

theorem handle_stays (euid : Nat) {uid gid : Nat} (huid : uid < 2 ^ 32) (hgid : gid < 2 ^ 32)
    {request : Request} (h : request.Bounded) :
    StaysBounded ω (fun _ => True) (fun _ => True) (handle euid uid gid request) := by
  by_cases hqueue : request = .queue
  · subst hqueue
    exact (Within.get (S := fun _ => True) fun _ _ _ => trivial).bind fun _ _ => Within.pure trivial
  by_cases hrestart : request = .restart
  · subst hrestart
    refine (Within.ensure fun _ => trivial).bind fun _ _ => ?_
    refine (Within.get (S := fun _ => True) fun _ _ _ => trivial).bind fun s _ => ?_
    exact (Within.ensure fun _ => trivial).bind fun _ _ => Within.pure trivial
  · exact (handle_bounded hω euid huid hgid h hqueue hrestart).mono (fun _ _ => trivial)
      fun _ _ => trivial

/-! ## The main loop -/

theorem serveTick_bounded : StaysBounded ω (fun _ => True) (fun _ => True) serveTick :=
  ((tick_bounded hω).mono (fun _ h => h) fun _ _ => trivial).bind fun _ _ => note_bounded .ticked

theorem serveOp_bounded (euid : Nat) {op : Op} (h : op.Bounded) :
    StaysBounded ω (fun _ => True) (fun _ => True) (serveOp euid op) := by
  have hget : StaysBounded ω (fun _ => True) (fun _ => True) Prog.Comp.get :=
    Within.get fun _ _ _ => trivial
  refine hget.bind fun s _ => (note_bounded _).bind fun _ _ => ?_
  cases op with
  | request uid gid request =>
      obtain ⟨huid, hgid, hrequest⟩ := h
      refine Within.bind (R := fun _ => True) ?_ fun _ _ => Within.pure trivial
      refine hget.bind fun before _ => ?_
      refine (handle_stays hω euid huid hgid hrequest).attempt.bind fun r _ => ?_
      exact hget.bind fun after _ => (note_bounded _).bind fun _ _ => Within.pure trivial
  | tick => exact (serveTick_bounded hω).bind fun _ _ => Within.pure trivial
  | cleanup => exact serveCleanup_bounded.bind fun _ _ => Within.pure trivial
  | refresh status monitoringErrors =>
      exact (Within.modify fun _ _ hs => ⟨hs.store, hs.inventory.few, hs.inventory.devices,
        hs.inventory.nodup, h.1, h.2⟩).bind fun _ _ => Within.pure trivial

theorem serveLoop_bounded (euid : Nat) {ops : List Op} (h : ∀ op ∈ ops, op.Bounded) :
    StaysBounded ω (fun _ => True) (fun _ => True) (serveLoop euid ops) := by
  induction ops with
  | nil => exact Within.pure trivial
  | cons op rest ih =>
      refine (serveOp_bounded hω euid (h op List.mem_cons_self)).bind fun next _ => ?_
      cases next with
      | loop => exact ih fun op hop => h op (List.mem_cons_of_mem _ hop)
      | stop => exact Within.pure trivial

theorem serve_bounded (euid : Nat) {excluded : List Nat} (hexcluded : ∀ id ∈ excluded, id < 2 ^ 32)
    {ops : List Op} (h : ∀ op ∈ ops, op.Bounded) :
    StaysBounded ω (fun _ => True) (fun _ => True) (serve euid excluded ops) := by
  have hstart : StaysBounded ω (fun _ => True) (fun _ => True) (serveStart excluded) := by
    refine ((setDevicesExcluded_bounded hexcluded true).mono (fun _ h => h) fun _ _ => trivial).bind
      fun _ _ => ?_
    refine (Within.get (S := fun _ => True) fun _ _ _ => trivial).bind fun s _ => ?_
    refine (note_bounded _).bind fun _ _ => (serveTick_bounded hω).bind fun _ _ => ?_
    exact serveCleanup_bounded.bind fun _ _ => Within.pure trivial
  refine hstart.bind fun next _ => ?_
  cases next with
  | loop => exact serveLoop_bounded hω euid h
  | stop => exact Within.pure trivial

end

/-! ## One daemon after the other -/

/-- The life of a daemon: what it has loaded and discovered, and what its main loop does. -/
structure Life where
  store : Store
  inventory : Inventory
  maxRunning : Nat
  excluded : List Nat
  ops : List Op

namespace Life

def run (ω : Env) (euid : Nat) (life : Life) (tr : Calls) :
    Prog.Done Scheduler Call Call.Reply (Except Error Next) :=
  (serve euid life.excluded life.ops ⟨life.store, life.inventory, life.maxRunning, ∅⟩).run ω tr

/-- It starts without `state.json`, or with what an earlier daemon has written there. -/
def Loads (life : Life) (tr : Calls) : Prop :=
  life.store = Store.default ∨ ∃ reply, ⟨.save life.store, reply⟩ ∈ tr

structure Bounded (life : Life) : Prop where
  inventory : life.inventory.Bounded
  excluded : ∀ id ∈ life.excluded, id < 2 ^ 32
  ops : ∀ op ∈ life.ops, op.Bounded

end Life

/-- The calls that daemons have made, one daemon after the other; each of them may have been
    killed between any two calls. -/
inductive Lived (ω : Env) (euid : Nat) : Calls → Prop
  | none : Lived ω euid []
  | next {tr own : Calls} (life : Life) (before : Lived ω euid tr) (loads : life.Loads tr)
      (bounded : life.Bounded) (made : tr ++ own <+: (life.run ω euid tr).trace) :
      Lived ω euid (tr ++ own)

theorem Life.Loads.bounded {life : Life} {tr : Calls} (h : life.Loads tr)
    (hsaved : ∀ store reply, ⟨.save store, reply⟩ ∈ tr → store.Bounded) : life.store.Bounded := by
  rcases h with h | ⟨reply, hmem⟩
  · rw [h]
    exact fun _ hjob => absurd hjob List.not_mem_nil
  · exact hsaved _ reply hmem

section

variable {ω : Env} (hω : SizedReplies ω) {euid : Nat} {tr : Calls} {life : Life}

include hω

/-- A daemon that loads a bounded store. -/
theorem Life.Bounded.serves (h : life.Bounded) (hstore : life.store.Bounded) (euid : Nat)
    (tr : Calls) :
    (life.run ω euid tr).state.Bounded ∧ ∃ own, (life.run ω euid tr).trace = tr ++ own ∧
      ∀ c r, ⟨c, r⟩ ∈ own → Call.Bounded c := by
  have hserve := serve_bounded hω euid h.excluded h.ops
    ⟨life.store, life.inventory, life.maxRunning, ∅⟩ tr ⟨hstore, h.inventory⟩
  obtain ⟨⟨hstate, _⟩, hcalls⟩ := Prog.safe_guarded.mp hserve
  exact ⟨hstate, hcalls⟩

/-- Whatever the daemons were asked, only bounded stores were saved. -/
theorem Lived.saved (h : Lived ω euid tr) :
    ∀ store reply, ⟨.save store, reply⟩ ∈ tr → store.Bounded := by
  induction h with
  | none => exact fun _ _ hmem => absurd hmem List.not_mem_nil
  | @next tr own life _ loads bounded made ih =>
      -- What this daemon has loaded is bounded by the hypothesis about those before it.
      obtain ⟨_, own', hown', hcalls⟩ := bounded.serves hω (loads.bounded ih) euid tr
      rw [hown', List.prefix_append_right_inj] at made
      intro store reply hmem
      rcases List.mem_append.mp hmem with hmem | hmem
      · exact ih store reply hmem
      · exact hcalls _ reply (made.subset hmem)

/-- In every state that a daemon reaches, the jobs are bounded. -/
theorem Lived.bounded (h : Lived ω euid tr) (hloads : life.Loads tr) (hlife : life.Bounded) :
    (life.run ω euid tr).state.Bounded :=
  (hlife.serves hω (hloads.bounded (h.saved hω)) euid tr).1

end

end Xlurm
