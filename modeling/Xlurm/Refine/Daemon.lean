/-
  Xlurm.Refine.Daemon

  The main loop of the daemon keeps to the ledger: every request, `tick`,
  `cleanup` and refresh begins and ends in an idle state.
-/

import Xlurm.Refine.Tick

namespace Xlurm

open Prog.Comp

variable {L₀ : Ledger} {s : Scheduler} {v v' : Scene} {m : Store}

theorem wp_note {event : Event} {Q : Scheduler → Except Error Unit → Scene → Prop}
    (hr : Reach L₀ ⟨some s.store, v⟩) (hloop : event.ofLoop = true)
    (legit : Legit v s.store event)
    (hQ : ∀ (v' : Scene) live, Reach L₀ ⟨some s.store, v'⟩ → v'.disk = v.disk →
      v'.hist = ⟨event, v.disk, live⟩ :: v.hist → (∀ job ∈ v'.live, job.id ∈ live) →
      Q s (.ok ()) v') :
    wp (contract L₀) (note event) Q s v := by
  rw [note, wp_call]
  refine ⟨⟨hr, hloop, legit⟩, ?_⟩
  rintro ⟨⟩ v' ⟨hr', hdisk, live, hhist, hlive⟩
  exact hQ v' live hr' hdisk hhist hlive

/-- Events that neither open nor close a tick leave an idle state idle. -/
theorem Idle.logged (hi : Idle m v) {e : Entry} (hdisk : v'.disk = v.disk)
    (hhist : v'.hist = e :: v.hist) (hopen : Hist.tickOpen (e :: v.hist) = v.hist.tickOpen)
    (hstay : Hist.leaving (e :: v.hist) = v.hist.leaving) : Idle m v' where
  toSynced := hi.toSynced.congr hdisk
  closed := by
    rw [hhist, hopen]
    exact hi.closed
  settled job hj hrun := by
    rw [hhist, Hist.mem_ids_cons]
    exact Or.inr (hi.settled job hj hrun)
  staying := by
    rw [hhist, hstay]
    exact hi.staying

/-! ## Requests -/

/-- What `handle` leaves behind; `disk` is the persisted store before. -/
structure Handled (request : Request) (before disk : Store) (hist : Hist) (m : Store)
    (r : Except Error Response) (v' : View) : Prop where
  idle : Idle m v'
  hist : v'.hist = hist
  answer : Answer v' m request (Response.ofResult r) before disk

/-- Requests other than `submit`, `cancel` and `restart` promise nothing. -/
theorem Answer.other {request : Request} {response : Response} {before disk : Store}
    (hsubmit : ∀ spec, request ≠ .submit spec) (hcancel : ∀ id, request ≠ .cancel id)
    (hrestart : request ≠ .restart) : Answer v m request response before disk where
  accepted spec _ h := absurd h (hsubmit spec)
  rejected spec _ h := absurd h (hsubmit spec)
  cancelled id h := absurd h (hcancel id)
  restarted h := absurd h hrestart

/-- `get` finds a job with this id, or fails. -/
theorem getJob_wp {W : Type} {T : Prog.Spec Scheduler Call Call.Reply W} {w : W} {id : Nat}
    {Q : Scheduler → Except Error Job → W → Prop}
    (hfound : ∀ job ∈ s.store.jobs, job.id = id → Q s (.ok job) w)
    (hnone : ∀ e, Q s (.error e) w) : wp T (getJob id) Q s w := by
  rw [getJob, wp_bind, wp_get, andThen_ok]
  split
  · rename_i job hfind
    have hid : job.id = id := by simpa using List.find?_some hfind
    exact hfound job (List.mem_of_find?_eq_some hfind) hid
  · exact hnone _

theorem getJob_calm (id : Nat) : Calm L₀ (getJob id) := by
  refine Calm.get.bind fun s => ?_
  split
  · exact Calm.pure _
  · exact Calm.throw _

theorem authorize_calm (uid : Nat) (owner : Owner) : Calm L₀ (authorize uid owner) :=
  Calm.ensure _ _

theorem ensureKnown_calm (devices : List Device) (ids : List Nat) :
    Calm L₀ (ensureKnown devices ids) := by
  induction ids with
  | nil => exact Calm.pure _
  | cons id rest ih => exact (Calm.ensure _ _).bind fun _ => ih

theorem setDevicesExcluded_calm (ids : List Nat) (excluded : Bool) :
    Calm L₀ (setDevicesExcluded ids excluded) :=
  (Calm.ensure _ _).bind fun _ => Calm.get.bind fun _ =>
    (ensureKnown_calm _ _).bind fun _ => Calm.modify fun _ => rfl

theorem handleExclude_calm (euid uid : Nat) (ids : List Nat) (excluded : Bool) :
    Calm L₀ (handleExclude euid uid ids excluded) :=
  (Calm.ensure _ _).bind fun _ => (Calm.ensure _ _).bind fun _ =>
    (setDevicesExcluded_calm ids excluded).bind fun _ => Calm.pure _

theorem handleLog_calm (uid id offset : Nat) : Calm L₀ (handleLog uid id offset) := by
  refine (getJob_calm id).bind fun job => (authorize_calm uid job.owner).bind fun _ =>
    (Calm.call (.openLog id) rfl).bind fun reply => ?_
  split
  · exact (Calm.call (.readLog id offset _) rfl).bind fun _ =>
      (Calm.lift _).bind fun _ => Calm.pure _
  · exact Calm.pure _
  · exact Calm.throw _

/-- A request that leaves the store alone. -/
theorem handled_of_calm {request : Request} {x : Sched Response} {disk : Store}
    (hx : Calm L₀ x) (hr : Reach L₀ ⟨some s.store, v⟩) (hi : Idle s.store v)
    (hsubmit : ∀ spec, request ≠ .submit spec) (hcancel : ∀ id, request ≠ .cancel id)
    (hrestart : request ≠ .restart) :
    wp (contract L₀) x (fun s' r v' => Reach L₀ ⟨some s'.store, v'⟩ ∧
      Handled request s.store disk v.hist s'.store r v') s v := by
  refine wp_calm hx hr fun s' r v' hstore hm hr' => ⟨hr', ?_⟩
  rw [hstore]
  exact ⟨hi.congr hm.disk hm.hist, hm.hist, Answer.other hsubmit hcancel hrestart⟩

section Handle

variable {euid uid gid : Nat} {request : Request} {live : List Nat} {rest : Hist}

/-- A request that was refused before it changed anything. -/
theorem Handled.refused {e : Error} {disk : Store} {s' : Scheduler} (hi : Idle m v)
    (hstore : s'.store = m) (hm : Meanwhile v v') (hr : Reach L₀ ⟨some s'.store, v'⟩) :
    Reach L₀ ⟨some s'.store, v'⟩ ∧ Handled request m disk v.hist s'.store (.error e) v' := by
  subst hstore
  refine ⟨hr, hi.congr hm.disk hm.hist, hm.hist, ?_, fun _ _ _ _ => rfl, ?_, ?_⟩
  · rintro _ _ _ ⟨⟩
  · rintro _ _ ⟨⟩
  · rintro _ ⟨⟩

theorem handle_submit_wp (spec : Submission) (hr : Reach L₀ ⟨some s.store, v⟩)
    (hi : Idle s.store v)
    (head : v.hist = ⟨.began (.request uid gid (.submit spec)) s.store, v.disk, live⟩ :: rest) :
    wp (contract L₀) (handle euid uid gid (.submit spec)) (fun s' r v' =>
      Reach L₀ ⟨some s'.store, v'⟩ ∧
        Handled (.submit spec) s.store v.disk v.hist s'.store r v') s v := by
  -- `next_id` in memory is above every accepted id: the new job's is above them all.
  have haccepted : ∀ id ∈ v.hist.accepted, id ≤ s.store.nextId := fun id hid =>
    Nat.le_trans (hr.inv.accepted id hid) (hr.inv.nextId_le _ rfl)
  -- The checks before `submit` leave the store alone, whatever they say.
  refine wp_calm_bind (Calm.ensure _ _) hr ?_ fun _ _ _ => Handled.refused hi
  rintro s₁ ⟨⟩ v₁ hstore₁ hm₁ hr₁
  refine wp_calm_bind (Calm.call (.account uid gid) rfl) hr₁ ?_ fun s₂ e v₂ hstore₂ hm₂ =>
    Handled.refused hi (hstore₂.trans hstore₁) (hm₁.trans hm₂)
  intro s₂ reply v₂ hstore₂ hm₂ hr₂
  have hstore : s₂.store = s.store := hstore₂.trans hstore₁
  have hm : Meanwhile v v₂ := hm₁.trans hm₂
  rw [wp_bind, wp_lift]
  -- The peer's ids become the owner's, if the account has a name.
  rcases reply with e | name
  · exact Handled.refused hi hstore hm hr₂
  have hi₂ : Idle s₂.store v₂ := by
    rw [hstore]
    exact hi.congr hm.disk hm.hist
  have haccepted₂ : ∀ id ∈ v₂.hist.accepted, id ≤ s₂.store.nextId := by
    rw [hstore, hm.hist]
    exact haccepted
  have head₂ : v₂.hist =
      ⟨.began (.request uid gid (.submit spec)) s₂.store, v.disk, live⟩ :: rest := by
    rw [hstore, hm.hist]
    exact head
  have howner : (Owner.mk uid gid name).uid = uid ∧ (Owner.mk uid gid name).gid = gid := ⟨rfl, rfl⟩
  refine wp_bind_of (submit_wp spec howner hr₂ hi₂ haccepted₂ head₂) ?_ ?_
  · rintro s₃ job v₃ ⟨hr₃, hsub⟩
    refine ⟨hr₃, hsub.idle, hsub.hist.trans hm.hist, ?_, ?_, ?_, ?_⟩
    · rintro _ _ ⟨⟩ ⟨⟩
      obtain ⟨hmem, hdisk, hlt⟩ := hsub.ok job rfl
      refine ⟨hmem, hdisk, fun id hid => ?_⟩
      rw [hsub.hist, hm.hist] at hid
      have hle := haccepted id hid
      rw [hstore] at hlt
      omega
    · rintro _ _ _ ⟨⟩
    · rintro _ ⟨⟩
    · rintro ⟨⟩
  · rintro s₃ e v₃ ⟨hr₃, hsub⟩
    refine ⟨hr₃, hsub.idle, hsub.hist.trans hm.hist, ?_, ?_, ?_, ?_⟩
    · rintro _ _ _ ⟨⟩
    · intro _ _ _ _
      rw [hsub.error e rfl, hstore]
    · rintro _ ⟨⟩
    · rintro ⟨⟩

theorem handle_cancel_wp (id : Nat) (hr : Reach L₀ ⟨some s.store, v⟩) (hi : Idle s.store v)
    (head : v.hist = ⟨.began (.request uid gid (.cancel id)) s.store, v.disk, live⟩ :: rest) :
    wp (contract L₀) (handle euid uid gid (.cancel id)) (fun s' r v' =>
      Reach L₀ ⟨some s'.store, v'⟩ ∧
        Handled (.cancel id) s.store v.disk v.hist s'.store r v') s v := by
  have hsame := Meanwhile.refl v
  rw [handle, wp_bind]
  refine getJob_wp ?_ fun e => Handled.refused hi rfl hsame hr
  intro job hmem hid
  rw [andThen_ok, wp_bind, authorize, wp_ensure]
  refine ⟨fun hallowed => ?_, fun _ => Handled.refused hi rfl hsame hr⟩
  rw [andThen_ok]
  -- The job that was authorized is the one that `cancel` finds: ids are unique.
  have hmay : ∀ other ∈ s.store.jobs, other.id = id → v.hist.MayCancel other := by
    intro other hother hoid
    obtain rfl := (hr.inv.memOrdered _ rfl).eq_of_id hother hmem (hoid.trans hid.symm)
    exact ⟨uid, gid, by rw [head, ← hid]; rfl, hallowed⟩
  refine wp_bind_of (cancel_wp id hr hi hmay) ?_ ?_
  · rintro s₁ ⟨⟩ v₁ ⟨hr₁, hcan⟩
    refine ⟨hr₁, hcan.idle, hcan.hist, ?_, ?_, ?_, ?_⟩
    · rintro _ _ ⟨⟩
    · rintro _ _ ⟨⟩
    · rintro _ ⟨⟩ _
      refine (hcan.ok rfl).imp_right ?_
      rintro ⟨⟨job', hmem', hid', hterm⟩, hdisk⟩
      exact ⟨⟨job', hmem', hid', hterm, hcan.hist ▸ hmay job' hmem' hid'⟩, hdisk⟩
    · rintro ⟨⟩
  · rintro s₁ e v₁ ⟨hr₁, hcan⟩
    refine ⟨hr₁, hcan.idle, hcan.hist, ?_, ?_, ?_, ?_⟩
    · rintro _ _ ⟨⟩
    · rintro _ _ ⟨⟩
    · rintro _ _ ⟨⟩
    · rintro ⟨⟩

/-- An accepted restart finds no running job. -/
theorem handle_restart_wp (hr : Reach L₀ ⟨some s.store, v⟩) (hi : Idle s.store v) :
    wp (contract L₀) (handle euid uid gid .restart) (fun s' r v' =>
      Reach L₀ ⟨some s'.store, v'⟩ ∧
        Handled .restart s.store v.disk v.hist s'.store r v') s v := by
  have hsame := Meanwhile.refl v
  rw [handle, wp_bind, wp_ensure]
  refine ⟨fun _ => ?_, fun _ => Handled.refused hi rfl hsame hr⟩
  rw [andThen_ok, wp_bind, wp_get, andThen_ok, wp_bind, wp_ensure]
  refine ⟨fun hrunning => ?_, fun _ => Handled.refused hi rfl hsame hr⟩
  refine ⟨hr, hi, rfl, ?_, ?_, ?_, ?_⟩
  · rintro _ _ ⟨⟩
  · rintro _ _ ⟨⟩
  · rintro _ ⟨⟩
  · intro _ _ job hj hrun
    rw [Store.runningIds, List.map_eq_nil_iff, List.filter_eq_nil_iff] at hrunning
    exact hrunning job hj (decide_eq_true hrun)

/-- Every request begins and ends idle, and its answer keeps what it promises. -/
theorem handle_wp (request : Request) (hr : Reach L₀ ⟨some s.store, v⟩) (hi : Idle s.store v)
    (head : v.hist = ⟨.began (.request uid gid request) s.store, v.disk, live⟩ :: rest) :
    wp (contract L₀) (handle euid uid gid request) (fun s' r v' =>
      Reach L₀ ⟨some s'.store, v'⟩ ∧
        Handled request s.store v.disk v.hist s'.store r v') s v := by
  -- Only `submit` and `cancel` touch the store, and `restart` promises something about it.
  cases request with
  | submit spec => exact handle_submit_wp spec hr hi head
  | cancel id => exact handle_cancel_wp id hr hi head
  | queue =>
      exact handled_of_calm (Calm.get.bind fun _ => Calm.pure _) hr hi (by simp) (by simp) (by simp)
  | get id =>
      exact handled_of_calm ((getJob_calm id).bind fun job =>
        (authorize_calm uid job.owner).bind fun _ => Calm.pure _) hr hi (by simp) (by simp) (by simp)
  | log id offset =>
      exact handled_of_calm (handleLog_calm uid id offset) hr hi (by simp) (by simp) (by simp)
  | info =>
      exact handled_of_calm (Calm.get.bind fun _ => Calm.pure _) hr hi (by simp) (by simp) (by simp)
  | exclude ids =>
      exact handled_of_calm (handleExclude_calm euid uid ids true) hr hi (by simp) (by simp) (by simp)
  | «include» ids =>
      exact handled_of_calm (handleExclude_calm euid uid ids false) hr hi (by simp) (by simp) (by simp)
  | stop =>
      exact handled_of_calm ((Calm.ensure _ _).bind fun _ => Calm.pure _) hr hi
        (by simp) (by simp) (by simp)
  | restart => exact handle_restart_wp hr hi

end Handle

/-! ## The main loop -/

/-- Only an accepted `Stop` or `Restart` ends the daemon. -/
theorem leaving_answered {uid gid : Nat} {request : Request} {response : Response}
    {before after disk : Store} {live : List Nat} {hist : Hist}
    (h : ¬(request.stops && decide (response = .ok)) = true) :
    Hist.leaving (⟨.answered uid gid request response before after, disk, live⟩ :: hist) =
      hist.leaving := by
  cases request <;> cases response <;> first | rfl | exact absurd rfl h

/-- The end of an operation: the loop goes on only from an idle state. -/
def Settled (L₀ : Ledger) (s : Scheduler) (r : Except Error Next) (v : Scene) : Prop :=
  Reach L₀ ⟨some s.store, v⟩ ∧ (r = .ok .loop → Idle s.store v)

theorem serveRequest_wp {euid uid gid : Nat} {request : Request} {live : List Nat} {rest : Hist}
    (hr : Reach L₀ ⟨some s.store, v⟩) (hi : Idle s.store v)
    (head : v.hist = ⟨.began (.request uid gid request) s.store, v.disk, live⟩ :: rest) :
    wp (contract L₀) (serveRequest euid uid gid request) (Settled L₀) s v := by
  rw [serveRequest, wp_bind, serveAnswer, wp_bind, wp_get, andThen_ok, wp_bind, wp_attempt]
  refine wp_mono (handle_wp request hr hi head) ?_
  rintro s₁ r v₁ ⟨hr₁, hdone⟩
  rw [andThen_ok, wp_bind, wp_get, andThen_ok, wp_bind]
  have legit := Legit.answered uid gid request (Response.ofResult r) s.store v.disk live rest
    (hdone.hist.trans head) hdone.answer hdone.idle.settled
  refine wp_note hr₁ rfl legit ?_
  intro v₂ live₂ hr₂ hdisk hhist _
  rw [andThen_ok, wp_pure, andThen_ok, wp_pure]
  refine ⟨hr₂, fun hloop => hdone.idle.logged hdisk hhist rfl (leaving_answered ?_)⟩
  intro hstops
  rw [if_pos hstops] at hloop
  cases hloop

theorem serveCleanup_wp (hr : Reach L₀ ⟨some s.store, v⟩) (hi : Idle s.store v) :
    wp (contract L₀) serveCleanup (fun s' _ v' =>
      Reach L₀ ⟨some s'.store, v'⟩ ∧ Idle s'.store v') s v := by
  rw [serveCleanup, wp_bind]
  refine wp_calm (Calm.call .now rfl) hr ?_
  rintro s₁ (e | now) v₁ hstore hm hr₁
  · exact ⟨hr₁, hstore ▸ hi.congr hm.disk hm.hist⟩
  · have hi₁ : Idle s₁.store v₁ := hstore ▸ hi.congr hm.disk hm.hist
    rw [andThen_ok, wp_bind, wp_get, andThen_ok, wp_bind]
    have legit : Legit v₁ s₁.store (.cleaning now s₁.store) :=
      Legit.cleaning now hi₁.closed fun job hj hrun =>
        Store.notMem_expired (hr₁.inv.memOrdered _ rfl) (hi₁.mem job hj hrun) hrun now
    refine wp_note hr₁ rfl legit ?_
    intro v₂ live₂ hr₂ hdisk hhist _
    rw [andThen_ok, wp_bind, wp_attempt]
    refine wp_mono (cleanup_wp now hr₂ (hi₁.logged hdisk hhist rfl rfl) hhist) ?_
    rintro s₃ r v₃ ⟨hr₃, hi₃⟩
    exact ⟨hr₃, hi₃⟩

theorem serveTick_wp {live₀ : List Nat} (hr : Reach L₀ ⟨some s.store, v⟩)
    (hopen : v.hist.opening = some (s.store, live₀)) (hticking : v.hist.Ticking)
    (hlive : ∀ job ∈ v.live, job.id ∈ live₀) (hs : Synced s.store v) :
    wp (contract L₀) serveTick (fun s' r v' =>
      Reach L₀ ⟨some s'.store, v'⟩ ∧ (r = .ok () → Idle s'.store v')) s v := by
  rw [serveTick]
  refine wp_bind_of (tick_wp hr hopen hticking hlive hs) ?_ ?_
  · rintro s₁ ⟨⟩ v₁ ⟨hr₁, hdone⟩
    have h := hdone rfl
    -- After the save in `startJobs` what runs on disk also runs in memory.
    have legit : Legit v₁ s₁.store .ticked :=
      Legit.ticked h.ticking.tick fun job hj hrun => (h.running job (h.synced.mem job hj hrun) hrun).2
    refine wp_note hr₁ rfl legit ?_
    intro v₂ live₂ hr₂ hdisk hhist _
    refine ⟨hr₂, fun _ => ⟨h.synced.congr hdisk, ?_, ?_, ?_⟩⟩
    · rw [hhist]
      rfl
    · intro job hj hrun
      rw [hhist, Hist.mem_ids_cons]
      exact Or.inr (h.running job hj hrun).1
    · rw [hhist]
      exact h.ticking.staying
  · rintro s₁ e v₁ ⟨hr₁, _⟩
    exact ⟨hr₁, by rintro ⟨⟩⟩

/-- One operation of the main loop, from an idle state to an idle state. -/
theorem serveOp_wp (euid : Nat) (op : Op) (hr : Reach L₀ ⟨some s.store, v⟩)
    (hi : Idle s.store v) : wp (contract L₀) (serveOp euid op) (Settled L₀) s v := by
  -- Every operation opens with an entry that holds the store in memory and the live workers.
  unfold serveOp
  rw [wp_bind, wp_get, andThen_ok, wp_bind]
  refine wp_note hr rfl (Legit.began op (fun _ => hi.closed) hi.staying) ?_
  intro v₁ live hr₁ hdisk hhist hlive
  rw [andThen_ok]
  cases op with
  | request uid gid request =>
      have head : v₁.hist = ⟨.began (.request uid gid request) s.store, v₁.disk, live⟩ ::
          v.hist := by
        rw [hhist, hdisk]
      exact serveRequest_wp hr₁ (hi.logged hdisk hhist rfl rfl) head
  | tick =>
      have hticking : v₁.hist.Ticking := by
        rw [hhist]
        exact ⟨rfl, hi.staying⟩
      refine wp_bind_of (serveTick_wp hr₁ (by rw [hhist]; rfl) hticking hlive
        (hi.toSynced.congr hdisk)) ?_ ?_
      · rintro s₂ ⟨⟩ v₂ ⟨hr₂, hdone⟩
        exact ⟨hr₂, fun _ => hdone rfl⟩
      · rintro s₂ e v₂ ⟨hr₂, _⟩
        exact ⟨hr₂, by rintro ⟨⟩⟩
  | cleanup =>
      refine wp_bind_of (serveCleanup_wp hr₁ (hi.logged hdisk hhist rfl rfl)) ?_ ?_
      · rintro s₂ ⟨⟩ v₂ ⟨hr₂, hi₂⟩
        exact ⟨hr₂, fun _ => hi₂⟩
      · rintro s₂ e v₂ ⟨hr₂, hi₂⟩
        exact ⟨hr₂, fun _ => hi₂⟩
  | refresh status monitoringErrors =>
      rw [wp_bind, wp_modify, andThen_ok, wp_pure]
      exact ⟨hr₁, fun _ => hi.logged hdisk hhist rfl rfl⟩

/-- The start of `serve`, from what was loaded to an idle state. -/
theorem serveStart_wp (excluded : List Nat) (hr : Reach L₀ ⟨some s.store, v⟩)
    (hs : Synced s.store v) (hstay : v.hist.leaving = false) :
    wp (contract L₀) (serveStart excluded) (Settled L₀) s v := by
  rw [serveStart]
  refine wp_calm_bind (setDevicesExcluded_calm excluded true) hr ?_ ?_
  · rintro s₁ ⟨⟩ v₁ hstore hm hr₁
    rw [wp_bind, wp_get, andThen_ok, wp_bind]
    have hstay₁ : v₁.hist.leaving = false := hm.hist ▸ hstay
    refine wp_note hr₁ rfl (Legit.began .tick (fun h => absurd rfl h) hstay₁) ?_
    intro v₂ live hr₂ hdisk hhist hlive
    have hs₂ : Synced s₁.store v₂ := hstore ▸ hs.congr (hdisk.trans hm.disk)
    have hticking : v₂.hist.Ticking := by
      rw [hhist]
      exact ⟨rfl, hstay₁⟩
    rw [andThen_ok]
    refine wp_bind_of (serveTick_wp hr₂ (by rw [hhist]; rfl) hticking hlive hs₂) ?_ ?_
    · rintro s₃ ⟨⟩ v₃ ⟨hr₃, hdone⟩
      refine wp_bind_of (serveCleanup_wp hr₃ (hdone rfl)) ?_ ?_
      · rintro s₄ ⟨⟩ v₄ ⟨hr₄, hi₄⟩
        exact ⟨hr₄, fun _ => hi₄⟩
      · rintro s₄ e v₄ ⟨hr₄, hi₄⟩
        exact ⟨hr₄, by rintro ⟨⟩⟩
    · rintro s₃ e v₃ ⟨hr₃, _⟩
      exact ⟨hr₃, by rintro ⟨⟩⟩
  · intro s₁ e v₁ hstore hm hr₁
    exact ⟨hr₁, by rintro ⟨⟩⟩

end Xlurm
