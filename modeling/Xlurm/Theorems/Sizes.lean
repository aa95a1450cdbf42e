/-
  Xlurm.Theorems.Sizes

  How long the daemon's answers are on the wire, and which of them fit the limit of
  the client.  The answer to `Queue` grows with the history of all users; the others
  do not, but for a refusal of `Restart`, which is shorter.
-/

import Xlurm.Theorems.Bounded
import Xlurm.Theorems.LifeCycle
import Xlurm.Theorems.Wire

namespace Xlurm

open Json Prog.Comp

/-- The response, with its newline, is one that the client accepts. -/
def Fits (serde : Codec) (response : Response) : Prop :=
  (send serde Response.format response).length ≤ responseLimit

/-! ## Refusing a restart -/

theorem textSize_intercalate_le {texts : List String}
    (h : ∀ text ∈ texts, textSize text.toList ≤ 20) :
    textSize (", ".intercalate texts).toList ≤ 22 * texts.length := by
  induction texts with
  | nil => decide
  | cons text texts ih =>
      have htext := h text List.mem_cons_self
      have hrest := ih fun other hother => h other (List.mem_cons_of_mem _ hother)
      have hcomma : textSize ", ".toList = 2 := by decide
      -- The last text has no comma after it.
      by_cases hnil : texts = []
      · subst hnil
        rw [String.intercalate_singleton, List.length_singleton]
        omega
      · rw [String.intercalate_cons_of_ne_nil hnil, String.toList_append, String.toList_append,
          textSize_append, textSize_append, hcomma, List.length_cons]
        omega

/-- The list of the running jobs is shorter than the queue. -/
theorem size_runningIds_le {store : Store} (h : store.Bounded)
    (hqueue : (store.jobs.map summarySize).sum + 12 ≤ responseLimit) :
    size (str ("cannot restart while jobs are running: " ++
      ", ".intercalate store.runningIds)) + 11 ≤ responseLimit := by
  have hids : ∀ text ∈ store.runningIds, textSize text.toList ≤ 20 := by
    intro text htext
    obtain ⟨job, hjob, rfl⟩ := List.mem_map.mp htext
    exact textSize_toString_le (h job (List.mem_of_mem_filter hjob)).id
  have hlist := textSize_intercalate_le hids
  have hsize := size_str_le
    ("cannot restart while jobs are running: " ++ ", ".intercalate store.runningIds)
  have htext : textSize "cannot restart while jobs are running: ".toList = 39 := by decide
  have hrunning : store.runningIds.length ≤ store.jobs.length := by
    rw [Store.runningIds, List.length_map]
    exact List.length_filter_le _ _
  -- A running job takes at most 6 * 22 bytes in the printed list, and at least 142 in the queue.
  have hsum : store.jobs.length * 142 ≤ (store.jobs.map summarySize).sum := by
    have hsizes : ∀ n ∈ store.jobs.map summarySize, 142 ≤ n := by
      intro n hn
      obtain ⟨job, _, rfl⟩ := List.mem_map.mp hn
      exact summarySize_ge job
    have hle := List.card_nsmul_le_sum _ 142 hsizes
    simpa using hle
  rw [String.toList_append, textSize_append, htext] at hsize
  rw [responseLimit] at *
  omega

/-! ## Which answers fit -/

section

variable {serde : Codec} (hcompact : ∀ j, serde.print j = utf8 (compact j))

include hcompact

theorem fits_iff (response : Response) :
    Fits serde response ↔ size (Response.format.encode response) + 1 ≤ responseLimit := by
  rw [Fits, length_send hcompact]

theorem fits_queue (jobs : List Job) :
    Fits serde (.queue (jobs.map JobSummary.from)) ↔
      (jobs.map summarySize).sum + 12 ≤ responseLimit := by
  rw [fits_iff hcompact, size_response_queue, responseLimit]
  cases jobs with
  | nil => decide
  | cons job jobs =>
      rw [if_neg (by simp)]

/-- An answer about one job or about the devices. -/
theorem Response.Bounded.fits {response : Response} (h : response.Bounded) : Fits serde response := by
  cases response with
  | job job =>
      have hsize := Job.Bounded.size_le h
      rw [fits_iff hcompact, size_response_job, responseLimit]
      omega
  | queue jobs => exact absurd h id
  | log bytes offset =>
      have hsize := size_bytes_le bytes
      have hbytes : bytes.length ≤ 64 * 1024 := h.1
      have hoffset : size (u64.encode offset) ≤ 20 := size_num_le (by decide) h.2
      rw [fits_iff hcompact, size_response_log, responseLimit]
      omega
  | info views =>
      have hviews : size (arr (views.map DeviceView.format.encode)) ≤ _ := h
      rw [fits_iff hcompact, size_response_info, responseLimit]
      simp only [deviceLimit, textLimit] at hviews
      omega
  | ok =>
      have hok : size (Response.format.encode .ok) = 4 := by decide
      rw [fits_iff hcompact, hok, responseLimit]
      omega
  | error e =>
      have hsize : size (str e) ≤ errorLimit := h
      rw [fits_iff hcompact, size_response_error, responseLimit]
      rw [errorLimit] at hsize
      omega

theorem fits_restart {ω : Env} {s : Scheduler} {tr : Calls} (euid uid gid : Nat) (h : s.Bounded)
    (hqueue : (s.store.jobs.map summarySize).sum + 12 ≤ responseLimit) :
    Fits serde (Response.ofResult ((handle euid uid gid .restart s).run ω tr).value) := by
  rw [handle, run_bind, run_ensure]
  by_cases hadmin : uid = 0 ∨ uid = euid
  · rw [if_pos hadmin]
    dsimp only
    rw [run_bind, run_get]
    dsimp only
    rw [run_bind, run_ensure]
    by_cases hidle : s.store.runningIds = []
    · rw [if_pos hidle]
      have hok : Response.Bounded .ok := trivial
      exact hok.fits hcompact
    · rw [if_neg hidle]
      show Fits serde (.error _)
      rw [fits_iff hcompact, size_response_error]
      exact size_runningIds_le h.store hqueue
  · rw [if_neg hadmin]
    have hrefused : Response.Bounded (.error
        "only the administrator may stop or restart the scheduler") :=
      Error.bounded_of_short (by decide)
    exact hrefused.fits hcompact

/-- The client gives up on an answer that does not fit. -/
theorem requestAnswer_exceeds {response : Response} (htyped : response.Typed)
    (hlong : ¬Fits serde response) {stream : List Fill} {rest : List UInt8}
    (hstream : received stream = send serde Response.format response ++ rest) :
    requestAnswer serde stream = .error exceedsLimit := by
  have hnative : Native 127 (Response.format.encode response) :=
    Response.format.native_le htyped (by decide)
  have hnot : newline ∉ serde.print (Response.format.encode response) := by
    rw [hcompact]
    exact newline_notMem_utf8 (newline_notMem_compact hnative)
  have hmem := newline_mem_send serde Response.format response
  have hlength : responseLimit < (send serde Response.format response).length :=
    Nat.lt_of_not_le hlong
  rw [requestAnswer, receive_eq, hstream, frame, line_append_of_mem hmem, line_send hnot,
    if_pos hlength]
  rfl

/-- In every state that a daemon reaches, all answers but those to `Queue` and `Restart` fit, and
    all answers fit if and only if the summaries of all jobs do.  The client gives up on an
    answer that does not fit. -/
theorem answers_fit {ω : Env} (hω : SizedReplies ω) {euid : Nat} {tr : Calls}
    (hlived : Lived ω euid tr) {life : Life} (hloads : life.Loads tr) (hlife : life.Bounded) :
    let done := life.run ω euid tr
    let answer := fun uid gid request =>
      Response.ofResult ((handle euid uid gid request done.state).run ω done.trace).value
    (∀ uid gid request, uid < 2 ^ 32 → gid < 2 ^ 32 → request.Bounded → request ≠ .queue →
      request ≠ .restart → Fits serde (answer uid gid request)) ∧
    ((∀ uid gid request, uid < 2 ^ 32 → gid < 2 ^ 32 → request.Bounded →
        Fits serde (answer uid gid request)) ↔
      (done.state.store.jobs.map summarySize).sum + 12 ≤ responseLimit) ∧
    ∀ uid gid request, (answer uid gid request).Typed → ¬Fits serde (answer uid gid request) →
      ∀ stream rest, received stream = send serde Response.format (answer uid gid request) ++ rest →
        requestAnswer serde stream = .error exceedsLimit := by
  intro done answer
  have hbounded : done.state.Bounded := hlived.bounded hω hloads hlife
  have hothers : ∀ uid gid request, uid < 2 ^ 32 → gid < 2 ^ 32 → request.Bounded →
      request ≠ .queue → request ≠ .restart → Fits serde (answer uid gid request) := by
    intro uid gid request huid hgid hrequest hqueue hrestart
    have hhandle := handle_bounded hω euid huid hgid hrequest hqueue hrestart done.state done.trace
      hbounded
    obtain ⟨⟨_, hok, herror⟩, _⟩ := Prog.safe_guarded.mp hhandle
    apply Response.Bounded.fits hcompact
    show (Response.ofResult _).Bounded
    generalize ((handle euid uid gid request done.state).run ω done.trace).value = r at *
    cases r with
    | ok response => exact hok response rfl
    | error e => exact herror e rfl
  have hqueue : ∀ uid gid, answer uid gid .queue =
      .queue (done.state.store.jobs.map JobSummary.from) := by
    intro uid gid
    show Response.ofResult ((handle euid uid gid .queue done.state).run ω done.trace).value = _
    rw [handle_queue, Response.ofResult]
  refine ⟨hothers, ⟨fun hall => ?_, fun hsum => ?_⟩, ?_⟩
  · -- `Queue` is open to everybody, so its answer is among those that fit.
    have hfits := hall 0 0 .queue (by decide) (by decide) ⟨trivial, by decide⟩
    rw [hqueue] at hfits
    exact (fits_queue hcompact _).mp hfits
  · intro uid gid request huid hgid hrequest
    by_cases hisQueue : request = .queue
    · rw [hisQueue, hqueue]
      exact (fits_queue hcompact _).mpr hsum
    by_cases hisRestart : request = .restart
    · rw [hisRestart]
      exact fits_restart hcompact euid uid gid hbounded hsum
    · exact hothers uid gid request huid hgid hrequest hisQueue hisRestart
  · intro uid gid request htyped hlong stream rest hstream
    exact requestAnswer_exceeds hcompact htyped hlong hstream

end

theorem instantWorkers_sized : SizedReplies instantWorkers where
  now _ := show 5 < 2 ^ 64 by decide
  account := by
    rintro tr uid gid name ⟨⟩
    decide
  readLog := by
    rintro tr id offset limit bytes ⟨⟩
    exact Nat.zero_le _
  outcome := by
    rintro tr id outcome ⟨⟩
    show size _ ≤ errorLimit + 1024
    decide
  failure tr c e h := by
    cases c <;> cases h

/-! ## A crowded queue -/

/-- A submission with this name. -/
def Submission.named (name : String) : Submission := { Submission.noop with name }

def crowdJob (name : String) (id : Nat) : Job where
  id := id
  owner := ⟨1000, 1000, "user"⟩
  spec := .named name
  state := .pending
  devices := []
  submittedAt := 5
  startedAt := none
  result := none

theorem submit_named (name : String) (s : Scheduler) (tr : Calls)
    (hid : s.store.nextId + 1 < 2 ^ 64) :
    ∃ tr', (submit (.named name) ⟨1000, 1000, "user"⟩ s).run instantWorkers tr =
      ⟨tr', s.push (crowdJob name (s.store.nextId + 1)),
        .ok (crowdJob name (s.store.nextId + 1))⟩ := by
  have hcheck : (checkSubmission (.named name) s).run instantWorkers tr =
      ⟨tr ++ [⟨.isDir "/", true⟩], s, .ok (.named name)⟩ := rfl
  rw [submit, run_bind, hcheck]
  dsimp only
  rw [run_bind, run_get]
  dsimp only
  rw [run_bind, run_ensure, if_pos hid]
  exact ⟨_, rfl⟩

/-- One accepted submission. -/
theorem serveOp_named (name : String) (s : Scheduler) (tr : Calls)
    (hid : s.store.nextId + 1 < 2 ^ 64) :
    ∃ tr', (serveOp 0 (.request 1000 1000 (.submit (.named name))) s).run instantWorkers tr =
      ⟨tr', s.push (crowdJob name (s.store.nextId + 1)), .ok .loop⟩ := by
  have hbegan : ∃ tr₁, (serveOp 0 (.request 1000 1000 (.submit (.named name))) s).run
      instantWorkers tr = (serveRequest 0 1000 1000 (.submit (.named name)) s).run
        instantWorkers tr₁ := ⟨_, rfl⟩
  obtain ⟨tr₁, hbegan⟩ := hbegan
  obtain ⟨tr₂, hsubmit⟩ := submit_named name s (tr₁ ++ [⟨.account 1000 1000, .ok "user"⟩]) hid
  have hhandle : ∃ tr₃, (handle 0 1000 1000 (.submit (.named name)) s).run instantWorkers tr₁ =
      ⟨tr₃, s.push (crowdJob name (s.store.nextId + 1)),
        .ok (.job (crowdJob name (s.store.nextId + 1)))⟩ := by
    have hrun : (handle 0 1000 1000 (.submit (.named name)) s).run instantWorkers tr₁ =
        ((submit (.named name) ⟨1000, 1000, "user"⟩ >>= fun job => pure (.job job) :
          Sched Response) s).run instantWorkers (tr₁ ++ [⟨.account 1000 1000, .ok "user"⟩]) := rfl
    rw [hrun, run_bind, hsubmit]
    exact ⟨_, rfl⟩
  obtain ⟨tr₃, hhandle⟩ := hhandle
  rw [hbegan, serveRequest, run_bind, serveAnswer, run_bind, run_get]
  dsimp only
  rw [run_bind, run_attempt, hhandle]
  exact ⟨_, rfl⟩

def crowd (name : String) (n : Nat) : List Op :=
  List.replicate n (.request 1000 1000 (.submit (.named name)))

/-- All of them are accepted. -/
theorem serveLoop_crowd (name : String) (n : Nat) (s : Scheduler) (tr : Calls)
    (hid : s.store.nextId + n < 2 ^ 64) :
    ((serveLoop 0 (crowd name n) s).run instantWorkers tr).state.store.jobs =
      s.store.jobs ++ (List.range' (s.store.nextId + 1) n).map (crowdJob name) := by
  induction n generalizing s tr with
  | zero => simp [crowd, serveLoop]
  | succ n ih =>
      obtain ⟨tr', hop⟩ := serveOp_named name s tr (by omega)
      have hnext : (s.push (crowdJob name (s.store.nextId + 1))).store.nextId =
          s.store.nextId + 1 := rfl
      have hrest := ih (s.push (crowdJob name (s.store.nextId + 1))) tr' (by omega)
      rw [crowd, List.replicate_succ, serveLoop, run_bind, hop]
      dsimp only
      rw [crowd] at hrest
      rw [hrest, hnext, List.range'_succ, List.map_cons]
      simp [Scheduler.push]

/-- A new daemon that gets `n` submissions. -/
def Life.crowd (name : String) (n : Nat) : Life :=
  ⟨Store.default, UniqueInventory.none.toInventory, 1, [], Xlurm.crowd name n⟩

def crowded (name : String) (n : Nat) : Prog.Done Scheduler Call Call.Reply (Except Error Next) :=
  (Life.crowd name n).run instantWorkers 0 []

theorem crowded_jobs (name : String) (n : Nat) (hn : n < 2 ^ 64) :
    (crowded name n).state.store.jobs = (List.range' 1 n).map (crowdJob name) := by
  obtain ⟨tr, hstart⟩ : ∃ tr, (serveStart [] ⟨Store.default, UniqueInventory.none.toInventory, 1,
      ∅⟩).run instantWorkers [] =
        ⟨tr, ⟨Store.default, UniqueInventory.none.toInventory, 1, ∅⟩, .ok .loop⟩ := ⟨_, rfl⟩
  show ((serve 0 [] (crowd name n) ⟨Store.default, UniqueInventory.none.toInventory, 1, ∅⟩).run
    instantWorkers []).state.store.jobs = _
  rw [serve, run_bind, hstart]
  dsimp only
  rw [serveLoop_crowd name n _ tr]
  · rfl
  · show 0 + n < 2 ^ 64
    omega

/-- The answer for another user. -/
def crowdedAnswer (name : String) (n : Nat) : Response :=
  Response.ofResult ((handle 0 1001 1001 .queue (crowded name n).state).run instantWorkers
    (crowded name n).trace).value

theorem crowdedAnswer_eq (name : String) (n : Nat) (hn : n < 2 ^ 64) :
    crowdedAnswer name n = .queue (((List.range' 1 n).map (crowdJob name)).map JobSummary.from) := by
  rw [crowdedAnswer, handle_queue, crowded_jobs name n hn]
  rfl

/-- A name of `n` characters. -/
def repeated (n : Nat) : String := String.ofList (List.replicate n 'a')

theorem size_repeated (n : Nat) : size (str (repeated n)) = n + 2 := by
  have hescaped : textSize ((List.replicate n 'a').flatMap escape) = n := by
    induction n with
    | zero => rfl
    | succ n ih =>
        have ha : textSize (escape 'a') = 1 := by decide
        rw [List.replicate_succ, List.flatMap_cons, textSize_append, ha, ih, Nat.add_comm]
  have hquote : (String.utf8EncodeChar '"').length = 1 := rfl
  show textSize (quoted (repeated n)) = _
  rw [quoted, repeated, String.toList_ofList, textSize_append, textSize_cons, textSize_cons,
    textSize_nil, hescaped, hquote]
  omega

theorem size_named (name : String) :
    size (Submission.format.encode (.named name)) = size (str name) + 101 := by
  have hnoop : size (Submission.format.encode .noop) = 107 := by decide
  have htrue : size (str "true") = 6 := by decide
  -- The two submissions differ in the name only.
  have hsame : size (Submission.format.encode (.named name)) + size (str "true") =
      size (str name) + size (Submission.format.encode .noop) := by
    simp only [Submission.format, Submission.named, Submission.noop, List.cons_append,
      size_obj_cons, List.map_append, List.map_cons, List.map_nil, List.sum_append, List.sum_cons,
      List.sum_nil, entrySize_mk, Format.string]
    omega
  omega

/-- The summary has the whole name. -/
theorem size_name_le (job : Job) : size (str job.spec.name) ≤ summarySize job := by
  simp only [summarySize, JobSummary.format, List.cons_append, size_obj_cons, List.map_append,
    List.map_cons, List.sum_append, List.sum_cons, entrySize_mk]
  show size (str job.spec.name) ≤ _
  have hname : size (Format.string.encode (JobSummary.from job).name) = size (str job.spec.name) := rfl
  omega

theorem crowdJob_typed (name : String) {id : Nat} (hid : id < 2 ^ 64) :
    (JobSummary.from (crowdJob name id)).Typed where
  id := hid
  owner := ⟨show 1000 < 2 ^ 32 by decide, show 1000 < 2 ^ 32 by decide⟩
  count := show 0 < 2 ^ 64 by decide
  deviceIds := nofun
  devices := nofun
  submittedAt := show 5 < 2 ^ 64 by decide
  startedAt := nofun
  finishedAt := nofun

theorem crowdedAnswer_typed (name : String) (n : Nat) (hn : n < 2 ^ 64) :
    (crowdedAnswer name n).Typed := by
  rw [crowdedAnswer_eq name n hn]
  intro summary hsummary
  simp only [List.mem_map, List.mem_range'_1] at hsummary
  obtain ⟨_, ⟨id, hid, rfl⟩, rfl⟩ := hsummary
  exact crowdJob_typed name (by omega)

/-- Every name counts. -/
theorem crowded_sum_le (k n : Nat) :
    n * (k + 2) ≤ (((List.range' 1 n).map (crowdJob (repeated k))).map summarySize).sum := by
  have hsizes : ∀ size ∈ ((List.range' 1 n).map (crowdJob (repeated k))).map summarySize,
      k + 2 ≤ size := by
    intro size hsize
    simp only [List.mem_map] at hsize
    obtain ⟨_, ⟨id, _, rfl⟩, rfl⟩ := hsize
    have hname := size_name_le (crowdJob (repeated k) id)
    have hrepeated := size_repeated k
    exact hrepeated ▸ hname
  have hle := List.card_nsmul_le_sum _ (k + 2) hsizes
  simpa using hle

/-- Seventeen accepted submissions of one user, each within the limit for requests, make the answer
    to another user's `Queue` too long for his client. -/
theorem queue_exceeds :
    (send Codec.compact Request.format (.submit (.named (repeated 4000000)))).length ≤ requestLimit ∧
    (crowded (repeated 4000000) 17).state.store.jobs.length = 17 ∧
    responseLimit <
      (send Codec.compact Response.format (crowdedAnswer (repeated 4000000) 17)).length ∧
    requestAnswer Codec.compact
      [.chunk (send Codec.compact Response.format (crowdedAnswer (repeated 4000000) 17))] =
        .error exceedsLimit := by
  have hcompact : ∀ j, Codec.compact.print j = utf8 (Json.compact j) := fun _ => rfl
  have hlong : ¬Fits Codec.compact (crowdedAnswer (repeated 4000000) 17) := by
    have hsum := crowded_sum_le 4000000 17
    rw [crowdedAnswer_eq _ 17 (by decide), fits_queue hcompact, responseLimit]
    omega
  refine ⟨?_, ?_, Nat.lt_of_not_le hlong, ?_⟩
  · have hkey : textSize (quoted "Submit") = 8 := by decide
    have hcontent : size (Request.format.encode (.submit (.named (repeated 4000000)))) = _ :=
      size_content "Submit" (Submission.format.encode (.named (repeated 4000000)))
    have hname := size_repeated 4000000
    rw [length_send hcompact, hcontent, hkey, size_named, hname, requestLimit]
    omega
  · rw [crowded_jobs _ 17 (by decide), List.length_map, List.length_range']
  · have hne : send Codec.compact Response.format (crowdedAnswer (repeated 4000000) 17) ≠ [] := by
      rw [send]
      exact List.append_ne_nil_of_right_ne_nil _ (by simp)
    apply requestAnswer_exceeds hcompact (crowdedAnswer_typed _ 17 (by decide)) hlong
    rw [received, if_neg hne]

/-! ## A short queue -/

/-- A daemon that finds the job that an earlier one has accepted. -/
def Life.second : Life :=
  ⟨(crowded "n" 1).state.store, UniqueInventory.none.toInventory, 1, [], []⟩

theorem UniqueInventory.none_bounded : UniqueInventory.none.toInventory.Bounded where
  few := by decide
  devices _ hdevice := absurd hdevice List.not_mem_nil
  nodup := List.nodup_nil
  status := by rintro _ _ ⟨⟩
  errors := by rintro _ _ ⟨⟩

theorem Life.crowd_bounded : (Life.crowd "n" 1).Bounded where
  inventory := UniqueInventory.none_bounded
  excluded _ hid := absurd hid List.not_mem_nil
  ops op hop := by
    obtain rfl := List.eq_of_mem_replicate hop
    refine ⟨by decide, by decide, ⟨?_, by decide, ?_, ?_, ?_⟩, by decide +kernel⟩
    · unfold Format.Sorted
      decide
    · rintro _ ⟨⟩
    · decide
    · rintro _ ⟨⟩

theorem Life.second_lived : Lived instantWorkers 0 (crowded "n" 1).trace := by
  rw [← List.nil_append (crowded "n" 1).trace]
  exact Lived.next (Life.crowd "n" 1) Lived.none (Or.inl rfl) Life.crowd_bounded List.prefix_rfl

theorem Life.second_loads : Life.second.Loads (crowded "n" 1).trace :=
  Or.inr ⟨.ok (), List.mem_of_getElem? (i := 8) rfl⟩

/-- A job that the first daemon has accepted runs under the second one, and everybody's
    answers fit. -/
theorem answers_fit_second :
    let done := Life.second.run instantWorkers 0 (crowded "n" 1).trace
    let answer := fun uid gid request =>
      Response.ofResult ((handle 0 uid gid request done.state).run instantWorkers done.trace).value
    done.state.store.jobs.map (·.state) = [.running] ∧
      Fits Codec.compact (answer 1001 1001 .queue) ∧
      Fits Codec.compact (answer 1000 1000 (.get 1)) ∧
      Fits Codec.compact (answer 0 0 .restart) := by
  intro done answer
  have hcompact : ∀ j, Codec.compact.print j = utf8 (Json.compact j) := fun _ => rfl
  have hbounded : Life.second.Bounded :=
    ⟨UniqueInventory.none_bounded, by decide, fun _ hop => absurd hop List.not_mem_nil⟩
  obtain ⟨_, hall, _⟩ := answers_fit hcompact instantWorkers_sized Life.second_lived
    Life.second_loads hbounded
  have hfits := hall.mpr (by decide +kernel)
  exact ⟨by decide, hfits 1001 1001 .queue (by decide) (by decide) ⟨trivial, by decide⟩,
    hfits 1000 1000 (.get 1) (by decide) (by decide) ⟨show 1 < 2 ^ 64 by decide, by decide⟩,
    hfits 0 0 .restart (by decide) (by decide) ⟨trivial, by decide⟩⟩

end Xlurm
