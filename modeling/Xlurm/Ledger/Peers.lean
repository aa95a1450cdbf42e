/-
  Xlurm.Ledger.Peers

  Who asked for what.  Every stored job belongs to the peer whose submission drew
  its id, and while a request is handled the stores are what they were when it
  arrived, up to the one change that the request allows to its peer.
-/

import Xlurm.Ledger.History

namespace Xlurm

/-! ## What a request may change -/

/-- What the handling of a request of the peer `uid`, `gid` may make of the store `before`. -/
inductive Touches (uid gid : Nat) (request : Request) (before m : Store) : Prop
  /-- The jobs are as they were; an id may have been drawn. -/
  | same (jobs : m.jobs = before.jobs) : Touches uid gid request before m
  | submitted (spec : Submission) (job : Job) (asked : request = .submit spec)
      (pending : job.state = .pending) (owner : job.owner.uid = uid ∧ job.owner.gid = gid)
      (jobs : m.jobs = before.jobs ++ [job]) : Touches uid gid request before m
  | cancelled (i : Nat) (job : Job) (now : Nat) (asked : request = .cancel job.id)
      (at_i : before.jobs[i]? = some job) (pending : job.state = .pending)
      (allowed : uid = 0 ∨ uid = job.owner.uid)
      (jobs : m.jobs = before.jobs.set i
        { job with state := .cancelled, result := some (cancelledOutcome now) }) :
      Touches uid gid request before m

/-- The jobs of other users than `uid`. -/
def Store.others (m : Store) (uid : Nat) : List Job := m.jobs.filter (·.owner.uid ≠ uid)

/-- Overwriting an element that is not selected with one that is not selected either. -/
theorem filter_set_of_false {α : Type} {p : α → Bool} {xs : List α} {i : Nat} {x y : α}
    (hx : xs[i]? = some x) (hpx : p x = false) (hpy : p y = false) :
    (xs.set i y).filter p = xs.filter p := by
  induction xs generalizing i with
  | nil => rfl
  | cons z zs ih =>
      cases i with
      | zero =>
          cases hx
          rw [List.set_cons_zero, List.filter_cons, List.filter_cons, hpx, hpy]
          rfl
      | succ k =>
          rw [List.set_cons_succ, List.filter_cons, List.filter_cons, ih hx]

namespace Touches

variable {uid gid : Nat} {request : Request} {before m : Store}

/-- The jobs of other users stay as they were. -/
theorem others (h : Touches uid gid request before m) (huser : uid ≠ 0) :
    m.others uid = before.others uid := by
  unfold Store.others
  cases h with
  | same jobs => rw [jobs]
  | submitted spec job asked pending owner jobs =>
      rw [jobs, List.filter_append, List.filter_singleton, decide_eq_false (by simp [owner.1])]
      exact List.append_nil _
  | cancelled i job now asked at_i pending allowed jobs =>
      have hmine : job.owner.uid = uid := by omega
      rw [jobs]
      exact filter_set_of_false at_i (by simp [hmine]) (by simp [hmine])

/-- A job that was not there before is pending and belongs to the peer. -/
theorem added (h : Touches uid gid request before m) {job : Job} (hj : job ∈ m.jobs) :
    (∃ old ∈ before.jobs, old.id = job.id ∧ old.owner = job.owner) ∨
      (job.state = .pending ∧ job.owner.uid = uid ∧ job.owner.gid = gid) := by
  cases h with
  | same jobs => exact Or.inl ⟨job, jobs ▸ hj, rfl, rfl⟩
  | submitted spec new asked pending owner jobs =>
      rw [jobs] at hj
      rcases List.mem_append.mp hj with hj | hj
      · exact Or.inl ⟨job, hj, rfl, rfl⟩
      · rw [List.mem_singleton.mp hj]
        exact Or.inr ⟨pending, owner⟩
  | cancelled i old now asked at_i pending allowed jobs =>
      rw [jobs] at hj
      rcases List.mem_or_eq_of_mem_set hj with hj | heq
      · exact Or.inl ⟨job, hj, rfl, rfl⟩
      · rw [heq]
        exact Or.inl ⟨old, List.mem_of_getElem? at_i, rfl, rfl⟩

end Touches

/-! ## While a request is handled -/

/-- A request arrived when the stores were `before` and `disk`, and is being handled. -/
def Hist.Handles (hist : Hist) (uid gid : Nat) (request : Request) (before disk : Store) : Prop :=
  ∃ live rest, hist = ⟨.began (.request uid gid request) before, disk, live⟩ :: rest

theorem Hist.Handles.serving {hist : Hist} {uid gid : Nat} {request : Request}
    {before disk : Store} (h : hist.Handles uid gid request before disk) :
    hist.serving = some (uid, gid, request) := by
  obtain ⟨live, rest, rfl⟩ := h
  rfl

/-- What is known of both stores while a request is handled. -/
structure Handling (L : Ledger) : Prop where
  mem : ∀ uid gid request before disk, L.view.hist.Handles uid gid request before disk →
    ∀ m, L.mem = some m → Touches uid gid request before m
  disk : ∀ uid gid request before disk, L.view.hist.Handles uid gid request before disk →
    L.view.disk = disk ∨ Touches uid gid request before L.view.disk
  closed : ∀ uid gid request before disk, L.view.hist.Handles uid gid request before disk →
    L.view.hist.tickOpen = false

variable {L L' : Ledger}

theorem Handling.init : Handling Ledger.init where
  mem := by rintro _ _ _ _ _ ⟨_, _, ⟨⟩⟩
  disk := by rintro _ _ _ _ _ ⟨_, _, ⟨⟩⟩
  closed := by rintro _ _ _ _ _ ⟨_, _, ⟨⟩⟩

/-- In the middle of a request only an allowed cancellation overwrites a job. -/
theorem Touches.set {uid gid : Nat} {request : Request} {before disk m : Store} {v : View}
    {i : Nat} {job job' : Job} (h : Touches uid gid request before m) (hm : m.Ordered)
    (hserving : v.hist.Handles uid gid request before disk) (hclosed : v.hist.tickOpen = false)
    (at_i : m.jobs[i]? = some job) (change : Change v m job job') :
    Touches uid gid request before (m.setJob i job') := by
  have hidle : v.hist.tickOpen ≠ true := by simp [hclosed]
  cases change with
  | record outcome running polled ticking => exact absurd ticking hidle
  | mark devices now pending opening free synced ticking => exact absurd ticking hidle
  | fail outcome running opening unspawned ticking => exact absurd ticking hidle
  | cancel now pending allowed =>
      obtain ⟨uid', gid', hcancel, hallowed⟩ := allowed
      rw [hserving.serving] at hcancel
      cases hcancel
      cases h with
      | same jobs =>
          refine Touches.cancelled i job now rfl (jobs ▸ at_i) pending hallowed ?_
          rw [Store.setJob_jobs, jobs]
      | submitted spec _ asked => cases asked
      | cancelled k old now' asked at_k pending' allowed' jobs =>
          -- The request has cancelled this job already: it is not pending any more.
          have hlt : k < before.jobs.length := (List.getElem?_eq_some_iff.mp at_k).1
          have hmem : ({ old with state := .cancelled, result := some (cancelledOutcome now') } :
              Job) ∈ m.jobs := by
            rw [jobs]
            exact List.mem_set hlt _
          have hid : job.id = old.id := Request.cancel.inj asked
          have heq := hm.eq_of_id (List.mem_of_getElem? at_i) hmem hid
          rw [heq] at pending
          cases pending

theorem Handling.step (h : Inv L) (hs : Step L L') (hh : Handling L) : Handling L' := by
  cases hs with
  | die | publish | misread => exact ⟨hh.mem, hh.disk, hh.closed⟩
  -- An operation begins and nothing has been touched yet, or another event takes its place.
  | log m v event legit =>
      refine ⟨?_, ?_, ?_⟩
      · rintro uid gid request before disk ⟨live, rest, heq⟩ _ ⟨⟩
        cases heq
        cases legit
        exact Touches.same rfl
      · rintro uid gid request before disk ⟨live, rest, heq⟩
        cases heq
        exact Or.inl rfl
      · rintro uid gid request before disk ⟨live, rest, heq⟩
        cases heq
        cases legit with
        | began op closed staying => exact closed (by simp)
  | spawn m v job =>
      refine ⟨?_, ?_, ?_⟩
      · rintro _ _ _ _ _ ⟨_, _, ⟨⟩⟩
      · rintro _ _ _ _ _ ⟨_, _, ⟨⟩⟩
      · rintro _ _ _ _ _ ⟨_, _, ⟨⟩⟩
  | save m v =>
      exact ⟨hh.mem, fun uid gid request before disk hserving =>
        Or.inr (hh.mem uid gid request before disk hserving m rfl), hh.closed⟩
  -- Only a cleanup forgets jobs, and a cleanup serves no request.
  | saveRetained m v timestamp disk live rest head =>
      refine ⟨hh.mem, ?_, hh.closed⟩
      rintro uid gid request before disk' ⟨live', rest', heq⟩
      cases head.symm.trans heq
  | retain m v timestamp disk live rest head =>
      refine ⟨?_, hh.disk, hh.closed⟩
      rintro uid gid request before disk' ⟨live', rest', heq⟩
      cases head.symm.trans heq
  | push m v job uid gid spec disk live rest head next pending owner bounded =>
      refine ⟨?_, hh.disk, hh.closed⟩
      rintro uid' gid' request before disk' ⟨live', rest', heq⟩ _ ⟨⟩
      cases head.symm.trans heq
      exact Touches.submitted spec job rfl pending owner rfl
  -- A failed submission leaves the jobs that it found.
  | pop nextId jobs v job pending unanswered began =>
      refine ⟨?_, hh.disk, hh.closed⟩
      rintro uid gid request before disk ⟨live, rest, heq⟩ _ ⟨⟩
      obtain ⟨uid', gid', spec, before', disk', live', rest', head, hjobs⟩ := began
      cases head.symm.trans heq
      exact Touches.same hjobs.symm
  | set m v i job job' at_i change =>
      refine ⟨?_, hh.disk, hh.closed⟩
      rintro uid gid request before disk hserving _ ⟨⟩
      exact (hh.mem uid gid request before disk hserving m rfl).set (h.memOrdered m rfl) hserving
        (hh.closed uid gid request before disk hserving) at_i change
  | crash m v => exact ⟨(by rintro _ _ _ _ _ _ _ ⟨⟩), hh.disk, hh.closed⟩
  | boot v =>
      refine ⟨?_, ?_, ?_⟩
      · rintro _ _ _ _ _ ⟨_, _, ⟨⟩⟩
      · rintro _ _ _ _ _ ⟨_, _, ⟨⟩⟩
      · rintro _ _ _ _ _ ⟨_, _, ⟨⟩⟩

/-- At every moment of every run. -/
theorem Reach.handling (h : Reach Ledger.init L) : Handling L :=
  h.keeps Inv.init Handling.init fun _ _ hinv hs hh => hh.step hinv hs

/-! ## Who submitted a job -/

/-- The peer of the last submission that could draw `id`. -/
def Hist.submitter (id : Nat) : Hist → Option (Nat × Nat)
  | [] => none
  | e :: older =>
      match e.event with
      | .began (.request uid gid (.submit _)) mem =>
          if mem.nextId + 1 = id then some (uid, gid) else submitter id older
      | _ => submitter id older

/-- Every job belongs to the peer that submitted it. -/
def Ledger.Owned (L : Ledger) : Prop :=
  ∀ job, L.Stored job → L.view.hist.submitter job.id = some (job.owner.uid, job.owner.gid)

/-- A submission that arrives now draws another id than those in use. -/
theorem submitter_log {m : Store} {v : View} {event : Event} (h : Inv ⟨some m, v⟩)
    (legit : Legit v m event) {job : Job} (hj : Ledger.Stored ⟨some m, v⟩ job) :
    (v.log event).hist.submitter job.id = v.hist.submitter job.id := by
  have hle : job.id ≤ m.nextId := by
    rcases hj with hj | ⟨_, ⟨⟩, hj⟩
    · have hdisk := h.diskOrdered.bounded job hj
      have hmem := h.nextId_le m rfl
      exact Nat.le_trans hdisk hmem
    · exact (h.memOrdered m rfl).bounded job hj
  cases legit with
  | began op closed staying =>
      cases op with
      | request uid gid request =>
          cases request with
          | submit spec =>
              show (if m.nextId + 1 = job.id then some (uid, gid) else v.hist.submitter job.id) = _
              rw [if_neg (by omega)]
          | _ => rfl
      | _ => rfl
  | _ => rfl

theorem Ledger.Owned.step (h : Inv L) (hs : Step L L') (ho : L.Owned) : L'.Owned := by
  intro job hj
  cases hs with
  | die | publish | misread => exact ho job hj
  | log m v event legit =>
      have hold : Ledger.Stored ⟨some m, v⟩ job := hj
      exact (submitter_log h legit hold).trans (ho job hold)
  | spawn m v job₁ => exact ho job hj
  -- Saving and forgetting move jobs between memory and disk; their owners are not changed.
  | save m v =>
      rcases hj with hj | hj
      · exact ho job (Or.inr ⟨m, rfl, hj⟩)
      · exact ho job (Or.inr hj)
  | saveRetained m v =>
      rcases hj with hj | hj
      · exact ho job (Or.inr ⟨m, rfl, (Store.mem_retain.mp hj).1⟩)
      · exact ho job (Or.inr hj)
  | retain m v =>
      rcases hj with hj | ⟨_, ⟨⟩, hj⟩
      · exact ho job (Or.inl hj)
      · exact ho job (Or.inr ⟨m, rfl, (Store.mem_retain.mp hj).1⟩)
  | push m v new uid gid spec disk live rest head next pending owner =>
      rcases hj with hj | ⟨_, ⟨⟩, hj⟩
      · exact ho job (Or.inl hj)
      · rcases List.mem_append.mp hj with hj | hj
        · exact ho job (Or.inr ⟨m, rfl, hj⟩)
        -- the submission that is being handled has drawn this id
        · rw [List.mem_singleton.mp hj, head]
          show (if m.nextId + 1 = new.id then some (uid, gid) else _) = _
          rw [if_pos next.symm, owner.1, owner.2]
  | pop nextId jobs v job₁ =>
      rcases hj with hj | ⟨_, ⟨⟩, hj⟩
      · exact ho job (Or.inl hj)
      · exact ho job (Or.inr ⟨_, rfl, List.mem_append_left _ hj⟩)
  | set m v i old new at_i change =>
      rcases hj with hj | ⟨_, ⟨⟩, hj⟩
      · exact ho job (Or.inl hj)
      · rcases Store.mem_setJob hj with rfl | hj
        · have hold := ho old (Or.inr ⟨m, rfl, List.mem_of_getElem? at_i⟩)
          rw [change.id_eq, change.owner_eq]
          exact hold
        · exact ho job (Or.inr ⟨m, rfl, hj⟩)
  | crash m v =>
      rcases hj with hj | ⟨_, ⟨⟩, _⟩
      exact ho job (Or.inl hj)
  | boot v =>
      have hold : job ∈ v.disk.jobs := by
        rcases hj with hj | ⟨_, ⟨⟩, hj⟩
        · exact hj
        · exact hj
      exact ho job (Or.inl hold)

/-- In every state of every run. -/
theorem Reach.owned (h : Reach Ledger.init L) : L.Owned := by
  refine h.keeps Inv.init ?_ fun _ _ hinv hs ho => ho.step hinv hs
  rintro job (hj | ⟨_, ⟨⟩, _⟩)
  cases hj

end Xlurm
