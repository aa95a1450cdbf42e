/-
  Xlurm.Refine.Tick

  `tick` keeps to the ledger: its poll loop and its start loop, each with the
  invariant that carries it.
-/

import Xlurm.Model.Allocation
import Xlurm.Model.Queue
import Xlurm.Refine.Scheduler

namespace Xlurm

open Prog.Comp

variable {L₀ : Ledger} {s : Scheduler} {v v' : Scene} {m m₀ : Store} {live₀ : List Nat}

/-- A `tick` is under way, in a daemon that is not about to end. -/
structure Hist.Ticking (hist : Hist) : Prop where
  tick : hist.tickOpen = true
  staying : hist.leaving = false

theorem Hist.Ticking.executor {hist : Hist} {e : Entry} (h : hist.Ticking)
    (hexec : e.event.ofExecutor = true) : Hist.Ticking (e :: hist) where
  tick := (Hist.tickOpen_executor hexec).trans h.tick
  staying := (Hist.leaving_executor hexec).trans h.staying

/-! ## The poll loop -/

/-- The invariant of the poll loop with the positions `todo` still to visit; the
    operation began with `m₀` in memory and the workers `live₀` alive. -/
structure Polling (m₀ : Store) (live₀ : List Nat) (todo : List Nat) (changed : Bool) (m : Store)
    (v : View) : Prop where
  opening : v.hist.opening = some (m₀, live₀)
  ticking : v.hist.Ticking
  live : ∀ job ∈ v.live, job.id ∈ live₀
  disk : ∀ job ∈ m.jobs, job.state = .running → job ∈ v.disk.jobs
  drawn : ∀ job ∈ m.jobs, job.id ≤ v.disk.nextId
  synced : changed = false → ∀ job ∈ v.disk.jobs, job.state = .running → job ∈ m.jobs
  pending : ∀ job ∈ m.jobs, job.state = .pending → v.hist.PendingAtOpening job.id
  polled : ∀ i job, m.jobs[i]? = some job → job.state = .running → i ∉ todo →
    job.id ∈ v.hist.settled ∧ job.id ∈ live₀

namespace Polling

variable {i : Nat} {rest : List Nat} {changed : Bool}

theorem liveAtOpening (h : Polling m₀ live₀ rest changed m v) {job : Job} (hj : job ∈ v.live) :
    v.hist.LiveAtOpening job.id :=
  ⟨m₀, live₀, h.opening, h.live job hj⟩

/-- A position without a running job needs no poll. -/
theorem skip (h : Polling m₀ live₀ (i :: rest) changed m v)
    (hi : ∀ job, m.jobs[i]? = some job → job.state ≠ .running) :
    Polling m₀ live₀ rest changed m v :=
  { h with
    polled := fun k job hk hrun hrest => by
      refine h.polled k job hk hrun fun hmem => ?_
      rcases List.mem_cons.mp hmem with rfl | hmem
      · exact hi job hk hrun
      · exact hrest hmem }

/-- A running job whose worker still lives. -/
theorem waiting (h : Polling m₀ live₀ (i :: rest) changed m v) {job : Job} {e : Entry}
    (hi : m.jobs[i]? = some job) (he : e.event = .polled job.id none)
    (hwait : v.hist.LiveAtOpening job.id) (hdisk : v'.disk = v.disk) (hlive : v'.live ⊆ v.live)
    (hhist : v'.hist = e :: v.hist) : Polling m₀ live₀ rest changed m v' := by
  have hexec : e.event.ofExecutor = true := by rw [he]; rfl
  have hopening : v'.hist.opening = v.hist.opening := by
    rw [hhist]
    exact Hist.opening_executor hexec
  refine ⟨hopening.trans h.opening, ?_, fun job hj => h.live job (hlive hj), hdisk ▸ h.disk,
    hdisk ▸ h.drawn, hdisk ▸ h.synced, ?_, ?_⟩
  · rw [hhist]
    exact h.ticking.executor hexec
  · exact fun job hj hpend => (h.pending job hj hpend).congr hopening
  · intro k job' hk hrun hrest
    rw [hhist, Hist.mem_ids_cons, he]
    by_cases hki : k = i
    · subst hki
      rw [hi] at hk
      cases hk
      obtain ⟨m₁, live₁, hopen, hmem⟩ := hwait
      rw [h.opening] at hopen
      cases hopen
      exact ⟨Or.inl rfl, hmem⟩
    · obtain ⟨hset, hmem⟩ := h.polled k job' hk hrun fun hmem => by
        rcases List.mem_cons.mp hmem with heq | hmem
        · exact hki heq
        · exact hrest hmem
      exact ⟨Or.inr hset, hmem⟩

/-- A job whose outcome is recorded. -/
theorem recorded (h : Polling m₀ live₀ (i :: rest) changed m v) {job : Job} {outcome : Outcome}
    {e : Entry} (hi : m.jobs[i]? = some job) (he : e.event = .polled job.id (some outcome))
    (hterm : outcome.state.terminal = true) (hdisk : v'.disk = v.disk)
    (hlive : v'.live ⊆ v.live) (hhist : v'.hist = e :: v.hist) :
    Polling m₀ live₀ rest true
      (m.setJob i { job with state := outcome.state, result := some outcome }) v' := by
  have hexec : e.event.ofExecutor = true := by rw [he]; rfl
  have hopening : v'.hist.opening = v.hist.opening := by
    rw [hhist]
    exact Hist.opening_executor hexec
  -- The job has ended, so those that run or wait are jobs of before.
  have hold : ∀ other ∈ (m.setJob i { job with
      state := outcome.state, result := some outcome }).jobs,
      other.state = .running ∨ other.state = .pending → other ∈ m.jobs := by
    intro other hother hstate
    rcases Store.mem_setJob hother with rfl | hother
    · rcases hstate with hstate | hstate <;> simp only at hstate <;> rw [hstate] at hterm <;>
        cases hterm
    · exact hother
  refine ⟨hopening.trans h.opening, ?_, fun job hj => h.live job (hlive hj), ?_, ?_, ?_, ?_, ?_⟩
  · rw [hhist]
    exact h.ticking.executor hexec
  · intro other hother hrun
    rw [hdisk]
    exact h.disk other (hold other hother (Or.inl hrun)) hrun
  · intro other hother
    rw [hdisk]
    rcases Store.mem_setJob hother with rfl | hother
    · exact h.drawn job (List.mem_of_getElem? hi)
    · exact h.drawn other hother
  · rintro ⟨⟩
  · exact fun other hother hpend =>
      (h.pending other (hold other hother (Or.inr hpend)) hpend).congr hopening
  · intro k other hk hrun hrest
    simp only [Store.setJob_jobs, List.getElem?_set] at hk
    split at hk
    · split at hk
      · cases hk
        simp only at hrun
        rw [hrun] at hterm
        cases hterm
      · cases hk
    · rename_i hik
      obtain ⟨hset, hmem⟩ := h.polled k other hk hrun fun hmem => by
        rcases List.mem_cons.mp hmem with heq | hmem
        · exact hik heq.symm
        · exact hrest hmem
      rw [hhist, Hist.mem_ids_cons]
      exact ⟨Or.inr hset, hmem⟩

end Polling

theorem pollJobs_wp (todo : List Nat) (changed : Bool) (hr : Reach L₀ ⟨some s.store, v⟩)
    (h : Polling m₀ live₀ todo changed s.store v) :
    wp (contract L₀) (pollJobs todo changed) (fun s' r v' =>
      Reach L₀ ⟨some s'.store, v'⟩ ∧
        ∀ changed', r = .ok changed' → Polling m₀ live₀ [] changed' s'.store v') s v := by
  -- On the positions left to visit; `Polling` is the invariant.
  induction todo generalizing s v changed with
  | nil => exact ⟨hr, by rintro _ ⟨⟩; exact h⟩
  | cons i rest ih =>
      rw [pollJobs, wp_bind, wp_get, andThen_ok]
      split
      · rename_i hnone
        exact ih changed hr (h.skip fun job hi => by rw [hnone] at hi; cases hi)
      · rename_i job hi
        have hmem : job ∈ s.store.jobs := List.mem_of_getElem? hi
        split
        · rename_i hrun
          rw [wp_bind, wp_call]
          refine ⟨⟨hr, ⟨job, hmem, rfl, hrun, h.disk job hmem hrun⟩,
            fun job hj => h.liveAtOpening hj⟩, ?_⟩
          rintro (e | outcome) v₁ ⟨hr₁, hdisk, hlive, hpost⟩
          · exact ⟨hr₁, by rintro _ ⟨⟩⟩
          · obtain ⟨hwait, e, he, hhist⟩ := hpost
            simp only [andThen_ok, wp_bind, wp_lift]
            cases outcome with
            -- No outcome: the worker of the job is alive.
            | none => exact ih changed hr₁ (h.waiting hi he (hwait rfl) hdisk hlive hhist)
            -- An outcome is recorded in memory at once; the save comes after the loop.
            | some outcome =>
                simp only [wp_bind, wp_modify, andThen_ok]
                have hevent : e ∈ v₁.hist := by
                  rw [hhist]
                  exact List.mem_cons_self
                have hticking : v₁.hist.tickOpen = true := by
                  rw [hhist, Hist.tickOpen_executor (by rw [he]; rfl)]
                  exact h.ticking.tick
                have hterm := (hr₁.inv.reports e hevent job.id outcome he).2.sound.terminal
                exact ih (s := s.setJob i _) true
                  (hr₁.step (Step.set s.store v₁ i job _ hi
                    (Change.record outcome hrun ⟨e, hevent, he⟩ hticking)))
                  (h.recorded hi he hterm hdisk hlive hhist)
        · rename_i hrun
          exact ih changed hr (h.skip fun job' hi' => by rw [hi] at hi'; cases hi'; exact hrun)

/-! ## The start loop -/

/-- The invariant of the start loop with the positions `todo` still to visit. -/
structure Starting (m₀ : Store) (live₀ : List Nat) (todo : List Nat) (reserved : Finset String)
    (m : Store) (v : View) : Prop where
  opening : v.hist.opening = some (m₀, live₀)
  ticking : v.hist.Ticking
  synced : Synced m v
  nodup : todo.Nodup
  todo : ∀ i ∈ todo, ∀ job, m.jobs[i]? = some job → job.state = .pending
  pending : ∀ job ∈ m.jobs, job.state = .pending → v.hist.PendingAtOpening job.id
  running : ∀ job ∈ m.jobs, job.state = .running → job.id ∈ v.hist.settled ∧
    (v.hist.PendingAtOpening job.id ∨ v.hist.LiveAtOpening job.id)
  reserved : ∀ job ∈ m.jobs, job.state = .running → ∀ device ∈ job.devices, device.key ∈ reserved

namespace Starting

variable {i : Nat} {todo rest : List Nat} {reserved reserved' : Finset String}

/-- Giving up on some of the positions. -/
theorem shrink (h : Starting m₀ live₀ todo reserved m v) (hsub : rest.Sublist todo) :
    Starting m₀ live₀ rest reserved m v :=
  { h with
    nodup := h.nodup.sublist hsub
    todo := fun i hi => h.todo i (hsub.subset hi) }

theorem skip (h : Starting m₀ live₀ (i :: rest) reserved m v) :
    Starting m₀ live₀ rest reserved m v :=
  h.shrink (List.sublist_cons_self i rest)

theorem congr (h : Starting m₀ live₀ todo reserved m v) (hm : Meanwhile v v') :
    Starting m₀ live₀ todo reserved m v' := by
  refine ⟨?_, ?_, h.synced.congr hm.disk, h.nodup, h.todo, ?_, ?_, h.reserved⟩ <;> rw [hm.hist]
  · exact h.opening
  · exact h.ticking
  · exact h.pending
  · exact h.running

/-- The job at the head of the loop has been started, or has failed to start, and
    this is on disk. -/
theorem updated (h : Starting m₀ live₀ (i :: rest) reserved m v) {job job' : Job}
    (hinv : Inv ⟨some (m.setJob i job'), v'⟩) (hi : m.jobs[i]? = some job)
    (hid : job'.id = job.id) (hstate : job'.state ≠ .pending)
    (hopening : v'.hist.opening = v.hist.opening)
    (hticking : v.hist.Ticking → v'.hist.Ticking)
    (hsettled : ∀ id ∈ v.hist.settled, id ∈ v'.hist.settled)
    (hdisk : v'.disk = m.setJob i job') (hsub : reserved ⊆ reserved')
    (hrun : job'.state = .running → job'.id ∈ v'.hist.settled ∧
      ∀ device ∈ job'.devices, device.key ∈ reserved') :
    Starting m₀ live₀ rest reserved' (m.setJob i job') v' where
  opening := hopening.trans h.opening
  ticking := hticking h.ticking
  synced := Synced.of_eq (hinv.memOrdered _ rfl) hdisk
  nodup := (List.nodup_cons.mp h.nodup).2
  -- The positions are distinct, so the later ones still have pending jobs.
  todo k hk other hother := by
    have hne : i ≠ k := by
      rintro rfl
      exact (List.nodup_cons.mp h.nodup).1 hk
    rw [Store.setJob_jobs, List.getElem?_set_ne hne] at hother
    exact h.todo k (List.mem_cons_of_mem _ hk) other hother
  pending other hother hpend := by
    rcases Store.mem_setJob hother with rfl | hother
    · exact absurd hpend hstate
    · exact (h.pending other hother hpend).congr hopening
  running other hother hother_run := by
    rcases Store.mem_setJob hother with rfl | hother
    · have hpend := h.pending job (List.mem_of_getElem? hi)
        (h.todo i List.mem_cons_self job hi)
      rw [← hid] at hpend
      exact ⟨(hrun hother_run).1, Or.inl (hpend.congr hopening)⟩
    · obtain ⟨hset, hopen⟩ := h.running other hother hother_run
      refine ⟨hsettled _ hset, ?_⟩
      rcases hopen with hopen | hopen
      · exact Or.inl (hopen.congr hopening)
      · exact Or.inr (hopen.congr hopening)
  reserved other hother hother_run device hdevice := by
    rcases Store.mem_setJob hother with rfl | hother
    · exact (hrun hother_run).2 device hdevice
    · exact hsub (h.reserved other hother hother_run device hdevice)

/-- The head of the loop may be marked on free devices. -/
theorem mark (h : Starting m₀ live₀ (i :: rest) reserved m v) {job : Job}
    (hi : m.jobs[i]? = some job) {devices : List Device} (now : Nat)
    (hfree : ∀ device ∈ devices, device.key ∉ reserved) :
    Change v m job { job with devices, state := .running, startedAt := some now } := by
  have hpend := h.todo i List.mem_cons_self job hi
  refine Change.mark devices now hpend (h.pending job (List.mem_of_getElem? hi) hpend) ?_
    h.synced.mem h.ticking.tick
  intro other hother hrun d hd d' hd' heq
  exact hfree d hd (heq ▸ h.reserved other hother hrun d' hd')

end Starting

/-- The head of the loop has been marked as running on its devices: `m` and `v` are from
    before the mark, `job'` is the marked job. -/
structure Marked (m₀ : Store) (live₀ : List Nat) (i : Nat) (rest : List Nat)
    (reserved : Finset String) (m : Store) (v : View) (job job' : Job) : Prop where
  before : Starting m₀ live₀ (i :: rest) reserved m v
  head : m.jobs[i]? = some job
  change : Change v m job job'
  running : job'.state = .running
  unsettled : job.id ∉ v.hist.settled
  unspawned : job.id ∉ v.hist.spawned

namespace Marked

variable {i : Nat} {rest : List Nat} {reserved reserved' : Finset String} {job job' : Job}
  {e e' : Entry}

theorem intro (h : Starting m₀ live₀ (i :: rest) reserved m v) (hinv : Inv ⟨some m, v⟩)
    (hi : m.jobs[i]? = some job) (hc : Change v m job job') (hrun : job'.state = .running) :
    Marked m₀ live₀ i rest reserved m v job job' := by
  have hpend := h.todo i List.mem_cons_self job hi
  -- A settled job is past its pending state for good, and a spawned one is settled.
  have hunset : job.id ∉ v.hist.settled := fun hset =>
    (hinv.past job.id hset).pending job (Or.inr ⟨_, rfl, List.mem_of_getElem? hi⟩) rfl hpend
  exact ⟨h, hi, hc, hrun, hunset, fun hspawn =>
    hunset (Hist.started_settled (hinv.spawned_started job.id hspawn))⟩

theorem lt (h : Marked m₀ live₀ i rest reserved m v job job') : i < m.jobs.length :=
  (List.getElem?_eq_some_iff.mp h.head).choose

theorem mem (h : Marked m₀ live₀ i rest reserved m v job job') :
    job' ∈ (m.setJob i job').jobs :=
  List.mem_set h.lt job'

theorem opening (h : Marked m₀ live₀ i rest reserved m v job job') :
    v.hist.PendingAtOpening job'.id := by
  rw [h.change.id_eq]
  exact h.before.pending job (List.mem_of_getElem? h.head)
    (h.before.todo i List.mem_cons_self job h.head)

/-- Once the mark is saved the job may be started. -/
theorem guard (h : Marked m₀ live₀ i rest reserved m v job job')
    (hstore : s.store = m.setJob i job') (hdisk : v'.disk = m.setJob i job')
    (hhist : v'.hist = v.hist) : Guard (.start job') s v' := by
  refine ⟨h.running, hstore ▸ h.mem, hdisk ▸ h.mem, ?_, ?_, ?_⟩ <;> rw [hhist]
  · exact h.opening
  · rw [h.change.id_eq]
    exact h.unsettled
  · exact h.before.ticking.tick

/-- The worker runs and holds the devices. -/
theorem started (h : Marked m₀ live₀ i rest reserved m v job job')
    (hinv : Inv ⟨some (m.setJob i job'), v'⟩) (hdisk : v'.disk = m.setJob i job')
    (he : e.event = .started job') (he' : e'.event = .spawned job')
    (hhist : v'.hist = e' :: e :: v.hist) (hsub : reserved ⊆ reserved')
    (hdevices : ∀ device ∈ job'.devices, device.key ∈ reserved') :
    Starting m₀ live₀ rest reserved' (m.setJob i job') v' := by
  have hexec : e.event.ofExecutor = true := by rw [he]; rfl
  have hexec' : e'.event.ofExecutor = true := by rw [he']; rfl
  refine h.before.updated hinv h.head h.change.id_eq ?_ ?_ ?_ ?_ hdisk hsub
    fun _ => ⟨?_, hdevices⟩
  · rw [h.running]
    simp
  · rw [hhist, Hist.opening_executor hexec', Hist.opening_executor hexec]
  · rw [hhist]
    exact fun hticking => (hticking.executor hexec).executor hexec'
  · intro id hset
    rw [hhist, Hist.mem_ids_cons, Hist.mem_ids_cons]
    exact Or.inr (Or.inr hset)
  · rw [hhist, Hist.mem_ids_cons, Hist.mem_ids_cons, he]
    exact Or.inr (Or.inl rfl)

/-- A failed start leaves no worker behind, so the job may be marked as failed. -/
theorem fails (h : Marked m₀ live₀ i rest reserved m v job job') (outcome : Outcome)
    (he : e.event = .started job') (hhist : v'.hist = e :: v.hist) :
    Change v' (m.setJob i job') job' { job' with state := .failed, result := some outcome } := by
  have hexec : e.event.ofExecutor = true := by rw [he]; rfl
  refine Change.fail outcome h.running (h.opening.congr ?_) ?_ ?_
  · rw [hhist, Hist.opening_executor hexec]
  · rw [hhist, Hist.mem_ids_cons, he]
    rintro (hspawn | hspawn)
    · cases hspawn
    · rw [h.change.id_eq] at hspawn
      exact h.unspawned hspawn
  · rw [hhist, Hist.tickOpen_executor hexec]
    exact h.before.ticking.tick

/-- The failure is on disk: on to the next position, with the same devices free. -/
theorem failed (h : Marked m₀ live₀ i rest reserved m v job job') {failed : Job}
    (hid : failed.id = job'.id) (hstate : failed.state = .failed)
    (hinv : Inv ⟨some (m.setJob i failed), v'⟩) (hdisk : v'.disk = m.setJob i failed)
    (he : e.event = .started job') (hhist : v'.hist = e :: v.hist) :
    Starting m₀ live₀ rest reserved (m.setJob i failed) v' := by
  have hexec : e.event.ofExecutor = true := by rw [he]; rfl
  refine h.before.updated hinv h.head (hid.trans h.change.id_eq) ?_ ?_ ?_ ?_ hdisk
    (Finset.Subset.refl _) ?_
  · rw [hstate]
    simp
  · rw [hhist, Hist.opening_executor hexec]
  · rw [hhist]
    exact fun hticking => hticking.executor hexec
  · intro id hset
    rw [hhist, Hist.mem_ids_cons]
    exact Or.inr hset
  · intro hrun
    rw [hstate] at hrun
    cases hrun

/-- The branch of the loop after a failed start, for any continuation `k`. -/
theorem failed_wp (h : Marked m₀ live₀ i rest reserved m v job job') (outcome : Outcome)
    (hstore : s.store = m.setJob i job') (hr : Reach L₀ ⟨some s.store, v'⟩)
    (he : e.event = .started job') (hhist : v'.hist = e :: v.hist)
    {k : Sched Unit} {Q : Scheduler → Except Error Unit → Scene → Prop}
    (herr : ∀ s error (v : Scene), Reach L₀ ⟨some s.store, v⟩ → Q s (.error error) v)
    (hk : ∀ s (v : Scene), Reach L₀ ⟨some s.store, v⟩ → Starting m₀ live₀ rest reserved s.store v →
      wp (contract L₀) k Q s v) :
    wp (contract L₀) (do
      modify (·.setJob i { job' with state := .failed, result := some outcome })
      save
      k) Q s v' := by
  have hfails := h.fails outcome he hhist
  generalize hfailed : ({ job' with
    state := .failed, result := some outcome } : Job) = failed at hfails ⊢
  have hstate : failed.state = .failed := by rw [← hfailed]
  have hnow : (s.setJob i failed).store = m.setJob i failed := by
    show s.store.setJob i failed = _
    simp only [hstore, Store.setJob, List.set_set]
  have hr₁ : Reach L₀ ⟨some (s.setJob i failed).store, v'⟩ := by
    refine hr.step (Step.set s.store v' i job' failed ?_ (hstore ▸ hfails))
    rw [hstore, Store.setJob_jobs, List.getElem?_set_self h.lt]
  rw [wp_bind, wp_modify, andThen_ok, wp_bind]
  refine wp_save hr₁ ?_
  rintro (error | ⟨⟨⟩⟩) v₁ hr₂ hsaved
  · exact herr _ error v₁ hr₂
  · rw [andThen_ok]
    refine hk _ _ hr₂ ?_
    have hdisk := hsaved.ok rfl
    rw [hnow] at hdisk hr₂ ⊢
    exact h.failed hfails.id_eq hstate hr₂.inv hdisk he (hsaved.hist.trans hhist)

end Marked

theorem startJobs_wp (todo : List Nat) (reserved : Finset String) (running : Nat)
    (hr : Reach L₀ ⟨some s.store, v⟩) (h : Starting m₀ live₀ todo reserved s.store v) :
    wp (contract L₀) (startJobs todo reserved running) (fun s' r v' =>
      Reach L₀ ⟨some s'.store, v'⟩ ∧
        (r = .ok () → ∃ reserved', Starting m₀ live₀ [] reserved' s'.store v')) s v := by
  -- The loop goes over `todo`; what is reserved and in memory changes on the way.
  induction todo generalizing s v reserved running with
  | nil => exact ⟨hr, fun _ => ⟨reserved, h⟩⟩
  | cons i rest ih =>
      rw [startJobs, wp_bind, wp_get, andThen_ok]
      dsimp only
      split
      · exact ⟨hr, fun _ => ⟨reserved, h.shrink (List.nil_sublist _)⟩⟩
      · split
        · exact ih reserved running hr h.skip
        · rename_i job hi
          split
          · exact ih reserved running hr h.skip
          · rename_i devices halloc
            rw [wp_bind]
            refine wp_calm (Calm.call .now rfl) hr ?_
            rintro s₁ (e | now) v₁ hstore hm hr₁
            · exact ⟨hr₁, by rintro ⟨⟩⟩
            · rw [← hstore] at h hi
              have h₁ := h.congr hm
              have change := h₁.mark hi now (allocate_free halloc)
              rw [andThen_ok]
              generalize hjob' : ({ job with
                devices, state := .running, startedAt := some now } : Job) = job' at change ⊢
              have marked := Marked.intro h₁ hr₁.inv hi change (by rw [← hjob'])
              have hr₂ : Reach L₀ ⟨some (s₁.setJob i job').store, v₁⟩ :=
                hr₁.step (Step.set s₁.store v₁ i job job' hi change)
              rw [wp_bind, wp_modify, andThen_ok, wp_bind]
              refine wp_save hr₂ ?_
              rintro (e | ⟨⟨⟩⟩) v₂ hr₃ hsaved
              · exact ⟨hr₃, by rintro ⟨⟩⟩
              · have hdisk := hsaved.ok rfl
                rw [andThen_ok, wp_bind, wp_call]
                refine ⟨⟨hr₃, marked.guard rfl hdisk hsaved.hist⟩, ?_⟩
                rintro (e | ⟨⟨⟩⟩) v₃ ⟨hr₄, hdisk₃, e₁, he₁, hhist⟩
                · rw [hsaved.hist] at hhist
                  rw [andThen_ok, wp_bind]
                  refine wp_calm (Calm.call .now rfl) hr₄ ?_
                  rintro s₄ (e | now') v₄ hstore₄ hm₄ hr₅
                  · exact ⟨hr₅, by rintro ⟨⟩⟩
                  · subst hjob'
                    exact marked.failed_wp (failure e now') hstore₄ hr₅ he₁
                      (hm₄.hist.trans hhist) (fun _ _ _ hr => ⟨hr, by rintro ⟨⟩⟩)
                      fun _ _ hr h => ih reserved running hr h
                · obtain ⟨e₂, he₂, hhist⟩ := hhist
                  rw [hsaved.hist] at hhist
                  rw [andThen_ok]
                  refine ih _ _ hr₄ (marked.started hr₄.inv (hdisk₃.trans hdisk) he₁ he₂ hhist
                    Finset.subset_union_left fun device hdevice => ?_)
                  rw [← hjob'] at hdevice
                  exact Finset.mem_union_right _
                    (List.mem_toFinset.mpr (List.mem_map_of_mem hdevice))

/-! ## The whole tick -/

/-- What a successful `tick` leaves behind. -/
structure Ticked (m : Store) (v : View) : Prop where
  synced : Synced m v
  ticking : v.hist.Ticking
  running : ∀ job ∈ m.jobs, job.state = .running → job.id ∈ v.hist.settled ∧
    (v.hist.PendingAtOpening job.id ∨ v.hist.LiveAtOpening job.id)

/-- The state in which the start loop begins. -/
theorem Starting.first (h : Polling m₀ live₀ [] false s.store v) :
    Starting m₀ live₀ (pendingOrder s.store) s.reserved s.store v where
  opening := h.opening
  ticking := h.ticking
  synced := ⟨h.synced rfl, h.disk, h.drawn⟩
  nodup := pendingOrder_nodup _
  todo i hi job hjob := by
    obtain ⟨job', hjob', hpend⟩ := mem_pendingOrder.mp hi
    rw [hjob] at hjob'
    cases hjob'
    exact hpend
  pending := h.pending
  running job hj hrun := by
    obtain ⟨i, hi⟩ := List.mem_iff_getElem?.mp hj
    obtain ⟨hset, hlive⟩ := h.polled i job hi hrun List.not_mem_nil
    exact ⟨hset, Or.inr ⟨m₀, live₀, h.opening, hlive⟩⟩
  reserved _ hj hrun _ hdevice := mem_reserved_of_running hj hrun hdevice

/-- Once the polls are saved, memory and disk are the same. -/
theorem Polling.saved {changed : Bool} (h : Polling m₀ live₀ [] changed m v) (hm : m.Ordered)
    {r : Except Error Unit} (hsaved : Saved m v r v') (hr : r = .ok ()) :
    Polling m₀ live₀ [] false m v' := by
  have hdisk := hsaved.ok hr
  have hs := Synced.of_eq hm hdisk
  refine ⟨?_, ?_, fun job hj => h.live job (hsaved.live hj), hs.disk, hs.drawn,
    fun _ => hs.mem, ?_, ?_⟩ <;> rw [hsaved.hist]
  · exact h.opening
  · exact h.ticking
  · exact h.pending
  · exact h.polled

theorem startJobs_from_polls (hr : Reach L₀ ⟨some s.store, v⟩)
    (h : Polling m₀ live₀ [] false s.store v) :
    wp (contract L₀) (startJobs (pendingOrder s.store) s.reserved (runningCount s.store))
      (fun s' r v' => Reach L₀ ⟨some s'.store, v'⟩ ∧ (r = .ok () → Ticked s'.store v')) s v := by
  refine wp_mono (startJobs_wp _ _ _ hr (Starting.first h)) ?_
  rintro s' r v' ⟨hr', hdone⟩
  refine ⟨hr', fun hok => ?_⟩
  obtain ⟨_, h'⟩ := hdone hok
  exact ⟨h'.synced, h'.ticking, h'.running⟩

/-- `tick` polls every running job and starts pending ones. -/
theorem tick_wp (hr : Reach L₀ ⟨some s.store, v⟩)
    (hopen : v.hist.opening = some (s.store, live₀)) (hticking : v.hist.Ticking)
    (hlive : ∀ job ∈ v.live, job.id ∈ live₀) (hs : Synced s.store v) :
    wp (contract L₀) tick (fun s' r v' =>
      Reach L₀ ⟨some s'.store, v'⟩ ∧ (r = .ok () → Ticked s'.store v')) s v := by
  have hstart : Polling s.store live₀ (List.range s.store.jobs.length) false s.store v := by
    refine ⟨hopen, hticking, hlive, hs.disk, hs.drawn, fun _ => hs.mem, ?_, ?_⟩
    · exact fun job hj hpend => ⟨s.store, live₀, hopen, job, hj, rfl, hpend⟩
    · intro i job hi _ hnot
      exact absurd (List.mem_range.mpr (List.getElem?_eq_some_iff.mp hi).1) hnot
  rw [tick, wp_bind, wp_get, andThen_ok]
  refine wp_bind_of (pollJobs_wp _ false hr hstart) ?_ ?_
  · rintro s₁ changed v₁ ⟨hr₁, hdone⟩
    have h₁ := hdone changed rfl
    cases changed with
    | false => exact startJobs_from_polls hr₁ h₁
    | true =>
        rw [if_pos rfl, wp_bind]
        refine wp_save hr₁ ?_
        rintro (e | ⟨⟨⟩⟩) v₂ hr₂ hsaved
        · exact ⟨hr₂, by rintro ⟨⟩⟩
        · exact startJobs_from_polls hr₂
            (h₁.saved (hr₁.inv.memOrdered _ rfl) hsaved rfl)
  · rintro s₁ e v₁ ⟨hr₁, _⟩
    exact ⟨hr₁, by rintro ⟨⟩⟩

end Xlurm
