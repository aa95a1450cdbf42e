/-
  Xlurm.Refine.Serving

  What the answer to a `Get` or a `Log` says about the world in which it is
  received, later than it was given: a `Get` shows a job as it is in memory, and
  a `Log` a part of the log as it was at some moment since the request.
-/

import Xlurm.Os.Client
import Xlurm.Refine.Log

namespace Xlurm

open Prog.Comp

variable {L₀ : Ledger} {id since : Nat} {w₀ w w' w'' : World} {request : Request}

/-! ## Time passes -/

/-- From `w` to `w'` the log of job `id` has grown, and no daemon was booted. -/
structure Passes (id : Nat) (w w' : World) : Prop where
  log : w.logOf id <+: w'.logOf id
  hist : w.hist <:+ w'.hist
  boots : w'.hist.boots = w.hist.boots

/-- The same, and the daemon has added nothing to the history. -/
structure Drifts (id : Nat) (w w' : World) : Prop where
  log : w.logOf id <+: w'.logOf id
  hist : w'.hist = w.hist

namespace Passes

theorem refl (w : World) : Passes id w w := ⟨List.prefix_refl _, List.suffix_refl _, rfl⟩

theorem trans (h : Passes id w w') (h' : Passes id w' w'') : Passes id w w'' :=
  ⟨h.log.trans h'.log, h.hist.trans h'.hist, h'.boots.trans h.boots⟩

end Passes

namespace Drifts

theorem refl (w : World) : Drifts id w w := ⟨List.prefix_refl _, rfl⟩

theorem trans (h : Drifts id w w') (h' : Drifts id w' w'') : Drifts id w w'' :=
  ⟨h.log.trans h'.log, h'.hist.trans h.hist⟩

theorem passes (h : Drifts id w w') : Passes id w w' :=
  ⟨h.log, h.hist ▸ List.suffix_refl _, congrArg Hist.boots h.hist⟩

end Drifts

/-- Other processes leave the history to the daemon. -/
theorem Interferes.drifts {mem : Option Store} (hi : Interferes w w') (h : w.Sound)
    (hr : Reach L₀ ⟨mem, w.view⟩) : Drifts id w w' := by
  obtain ⟨_, _, hb⟩ := hi.sound h hr
  exact ⟨(hi.grows h id).log, hb.hist⟩

/-! ## Answers -/

namespace Hist

variable {hist hist' : Hist} {response : Response}

theorem answer_mono (h : hist.answer since = some response) (hsuffix : hist <:+ hist') :
    hist'.answer since = some response := by
  obtain ⟨new, rfl⟩ := hsuffix
  rw [answer, List.reverse_append, List.drop_append, List.findSome?_append]
  rw [answer] at h
  rw [h, Option.some_or]

/-- No response was sent since the history had `since` entries. -/
structure Unanswered (since : Nat) (hist : Hist) : Prop where
  le : since ≤ hist.length
  none : hist.answer since = none

/-- The response in a new entry is the first one. -/
theorem Unanswered.answer_cons (h : hist.Unanswered since) (e : Entry) :
    Hist.answer since (e :: hist) = e.event.response? := by
  have hle : since ≤ hist.reverse.length := by
    rw [List.length_reverse]
    exact h.le
  have hnone := h.none
  rw [answer] at hnone
  rw [answer, List.reverse_cons, List.drop_append_of_le_length hle, List.findSome?_append, hnone,
    Option.none_or]
  cases hresponse : e.event.response? <;> simp [hresponse]

theorem Unanswered.cons (h : hist.Unanswered since) {e : Entry}
    (he : e.event.response? = Option.none) : Hist.Unanswered since (e :: hist) :=
  ⟨Nat.le_succ_of_le h.le, (h.answer_cons e).trans he⟩

end Hist

/-- What the response to a request that was sent in `w₀` says about `w`. -/
structure Informs (id : Nat) (w₀ : World) (request : Request) (response : Response)
    (w : World) : Prop where
  get : ∀ job, request = .get id → response = .job job → w.hist.Shown id job
  log : ∀ offset bytes next, request = .log id offset → response = .log bytes next →
    next = offset + bytes.length ∧ ∃ content, w₀.logOf id <+: content ∧ content <+: w.logOf id ∧
      bytes = (content.drop offset).take (64 * 1024)

theorem Informs.mono {response : Response} (h : Informs id w₀ request response w)
    (hp : Passes id w w') : Informs id w₀ request response w' := by
  refine ⟨?_, ?_⟩
  · intro job hget hresponse
    exact (h.get job hget hresponse).mono hp.hist hp.boots
  · intro offset bytes next hlog hresponse
    obtain ⟨hnext, content, hold, hnew, hbytes⟩ := h.log offset bytes next hlog hresponse
    exact ⟨hnext, content, hold, hnew.trans hp.log, hbytes⟩

/-- What is known since a later moment is known since an earlier one. -/
theorem Informs.earlier {response : Response} (h : Informs id w request response w')
    (hlog : w₀.logOf id <+: w.logOf id) : Informs id w₀ request response w' := by
  refine ⟨h.get, ?_⟩
  intro offset bytes next hrequest hresponse
  obtain ⟨hnext, content, hold, hnew, hbytes⟩ := h.log offset bytes next hrequest hresponse
  exact ⟨hnext, content, hlog.trans hold, hnew, hbytes⟩

/-- The request that was taken up when the history had `since` entries is answered. -/
def Answered (id since : Nat) (w₀ : World) (request : Request) (w : World) : Prop :=
  ∃ response, w.hist.answer since = some response ∧ Informs id w₀ request response w

theorem Answered.mono (h : Answered id since w₀ request w) (hp : Passes id w w') :
    Answered id since w₀ request w' := by
  obtain ⟨response, hanswer, hinforms⟩ := h
  exact ⟨response, Hist.answer_mono hanswer hp.hist, hinforms.mono hp⟩

/-! ## Handling a request -/

/-- What a call does that serves a `Get` or a `Log`. -/
def Call.Serves (id : Nat) : (c : Call) → World → c.Reply → World → Prop
  | .note event, w, _, w' => ∃ w₁, Drifts id w w₁ ∧ w' = w₁.log event
  | .openLog job, w, r, w' => Drifts id w w' ∧ (r = .notFound → w'.logOf job = [])
  | .readLog job offset limit, w, r, w' => Drifts id w w' ∧
      ∀ bytes, r = .ok bytes → bytes = ((w'.logOf job).drop offset).take limit
  | _, _, _, _ => True

def Call.forReading : Call → Bool
  | note _ | openLog _ | readLog _ _ _ => true
  | _ => false

def readingSpec (id since : Nat) : Prog.Spec Scheduler Call Call.Reply World where
  pre c _ w := c.forReading = true ∧ w.hist.Unanswered since
  post c _ w r w' := c.Serves id w r w'

/-- The daemon has not yet answered; others may move before its call takes effect. -/
def waitingSpec (id since : Nat) :
    Prog.Spec (Scheduler × ProcessExecutor) Sys Sys.Reply World where
  pre _ _ w := w.hist.Unanswered since
  post c _ w r w' := ∃ w₁ raw, Drifts id w w₁ ∧ c.exec .daemon w₁ raw = some (r, w')

theorem handler_reads (id since pid : Nat) :
    Prog.Safe.Implements (readingSpec id since) (waitingSpec id since) (fun w => w)
      (fun _ => True) (handler pid) := by
  rintro c s e w _ ⟨hc, hun⟩
  cases c with
  | note event =>
      refine ⟨hun, ?_⟩
      rintro r w' ⟨w₁, raw, hd, hexec⟩
      cases hexec
      exact ⟨trivial, w₁, hd, rfl⟩
  | openLog job =>
      refine ⟨hun, ?_⟩
      rintro r w' ⟨w₁, raw, hd, hexec⟩
      obtain rfl := exec_idle rfl hexec
      refine ⟨trivial, hd, ?_⟩
      rintro rfl
      exact exec_openLog hexec
  | readLog job offset limit =>
      refine ⟨hun, ?_⟩
      rintro r w' ⟨w₁, raw, hd, hexec⟩
      obtain rfl := exec_idle rfl hexec
      refine ⟨trivial, hd, ?_⟩
      rintro bytes rfl
      exact (exec_readLog hexec).2
  | _ => cases hc

section Serve

variable {s : Scheduler} {euid uid gid : Nat}

/-- A request whose handling leaves the scheduler alone is answered with its result. -/
theorem serveOp_answers {P : Except Error Response → World → Prop}
    (hun : w.hist.Unanswered since)
    (hhandle : ∀ w₁, Passes id w w₁ → w₁.hist.Unanswered since →
      wp (readingSpec id since) (handle euid uid gid request)
        (fun s' r w' => s' = s ∧ w'.hist.Unanswered since ∧ P r w') s w₁)
    (hinforms : ∀ r w₁ w₂, P r w₁ → Drifts id w₁ w₂ →
      Informs id w₀ request (Response.ofResult r) (w₂.log
        (.answered uid gid request (Response.ofResult r) s.store s.store))) :
    wp (readingSpec id since) (serveOp euid (.request uid gid request))
      (fun _ _ w' => Answered id since w₀ request w') s w := by
  simp only [serveOp, serveRequest, serveAnswer, note, wp_bind, wp_get, andThen_ok, wp_call, wp_attempt]
  refine ⟨⟨rfl, hun⟩, ?_⟩
  rintro ⟨⟩ w₁ ⟨w₁', hd₁, rfl⟩
  have hun₁ : Hist.Unanswered since (w₁'.log (.began (.request uid gid request) s.store)).hist := by
    have hsame : w₁'.hist.Unanswered since := hd₁.hist ▸ hun
    exact hsame.cons rfl
  have hp₁ : Passes id w (w₁'.log (.began (.request uid gid request) s.store)) := by
    refine ⟨hd₁.log, ?_, ?_⟩
    · rw [← hd₁.hist]
      exact List.suffix_cons _ _
    · rw [← hd₁.hist]
      rfl
  refine wp_mono (hhandle _ hp₁ hun₁) ?_
  rintro _ r w₂ ⟨rfl, hun₂, hP⟩
  simp only [andThen_ok, wp_get, wp_bind, wp_call, wp_pure]
  refine ⟨⟨rfl, hun₂⟩, ?_⟩
  rintro ⟨⟩ w₃ ⟨w₂', hd₂, rfl⟩
  have hsame : w₂'.hist.Unanswered since := hd₂.hist ▸ hun₂
  exact ⟨Response.ofResult r, hsame.answer_cons _, hinforms r w₂ w₂' hP hd₂⟩

theorem serveOp_get (hun : w.hist.Unanswered since) :
    wp (readingSpec id since) (serveOp euid (.request uid gid (.get id)))
      (fun _ _ w' => Answered id since w₀ (.get id) w') s w := by
  refine serveOp_answers (P := fun r _ => ∀ job, r = .ok (.job job) →
    job ∈ s.store.jobs ∧ job.id = id) hun ?_ ?_
  · intro w₁ _ hun₁
    simp only [handle, wp_bind]
    apply getJob_wp
    · intro job hj hid
      rw [andThen_ok, authorize, wp_bind, wp_ensure]
      refine ⟨fun _ => ⟨rfl, hun₁, ?_⟩, fun _ => ⟨rfl, hun₁, ?_⟩⟩
      · rintro _ ⟨⟩
        exact ⟨hj, hid⟩
      · rintro _ ⟨⟩
    · intro e
      refine ⟨rfl, hun₁, ?_⟩
      rintro _ ⟨⟩
  · intro r w₁ w₂ hP hd
    refine ⟨?_, by rintro _ _ _ ⟨⟩⟩
    intro job _ hresponse
    cases r with
    | error e => cases hresponse
    | ok response =>
        obtain rfl : response = .job job := hresponse
        obtain ⟨hj, hid⟩ := hP job rfl
        exact ⟨[], _, w₂.hist, uid, gid, s.store, s.store, rfl, rfl, rfl, hj, hid⟩

/-- The result of a `Log` is an error, or a part of the log as it was since the request. -/
def ReadsLog (id : Nat) (w₀ : World) (offset : Nat) (r : Except Error Response) (w : World) :
    Prop :=
  ∀ bytes next, r = .ok (.log bytes next) → next = offset + bytes.length ∧
    ∃ content, w₀.logOf id <+: content ∧ content <+: w.logOf id ∧
      bytes = (content.drop offset).take (64 * 1024)

theorem serveOp_log {offset : Nat} (hun : w.hist.Unanswered since)
    (hlog : w₀.logOf id <+: w.logOf id) :
    wp (readingSpec id since) (serveOp euid (.request uid gid (.log id offset)))
      (fun _ _ w' => Answered id since w₀ (.log id offset) w') s w := by
  refine serveOp_answers (P := ReadsLog id w₀ offset) hun ?_ ?_
  · intro w₁ hp₁ hun₁
    have refused : ∀ (w' : World) (e : Error), w'.hist.Unanswered since →
        s = s ∧ w'.hist.Unanswered since ∧ ReadsLog id w₀ offset (.error e) w' :=
      fun w' e hun' => ⟨rfl, hun', by rintro _ _ ⟨⟩⟩
    simp only [handle, handleLog, wp_bind]
    apply getJob_wp
    · intro job hj hid
      rw [andThen_ok, authorize, wp_bind, wp_ensure]
      refine ⟨fun _ => ?_, fun _ => refused w₁ _ hun₁⟩
      rw [andThen_ok, wp_bind, wp_call]
      refine ⟨⟨rfl, hun₁⟩, ?_⟩
      rintro reply w₂ ⟨hd₂, habsent⟩
      have hun₂ : w₂.hist.Unanswered since := hd₂.hist ▸ hun₁
      have hlog₂ : w₀.logOf id <+: w₂.logOf id := (hlog.trans hp₁.log).trans hd₂.log
      cases reply with
      | error e => exact refused w₂ e hun₂
      | notFound =>
          -- There is no log yet: its empty content is what was read.
          refine ⟨rfl, hun₂, ?_⟩
          rintro _ _ ⟨⟩
          rw [habsent rfl] at hlog₂
          exact ⟨rfl, [], hlog₂, List.nil_prefix, by simp⟩
      | ok =>
          simp only [andThen_ok, wp_bind, wp_call]
          refine ⟨⟨rfl, hun₂⟩, ?_⟩
          rintro reply w₃ ⟨hd₃, hread⟩
          have hun₃ : w₃.hist.Unanswered since := hd₃.hist ▸ hun₂
          rw [wp_lift]
          cases reply with
          | error e => exact refused w₃ e hun₃
          | ok bytes =>
              refine ⟨rfl, hun₃, ?_⟩
              rintro _ _ ⟨⟩
              exact ⟨rfl, w₃.logOf id, hlog₂.trans hd₃.log, List.prefix_refl _, hread bytes rfl⟩
    · exact fun e => refused w₁ e hun₁
  · intro r w₁ w₂ hP hd
    refine ⟨by rintro _ ⟨⟩, ?_⟩
    rintro _ bytes next ⟨⟩ hresponse
    cases r with
    | error e => cases hresponse
    | ok response =>
        obtain rfl : response = .log bytes next := hresponse
        obtain ⟨hnext, content, hold, hnew, hbytes⟩ := hP bytes next rfl
        exact ⟨hnext, content, hold, hnew.trans hd.log, hbytes⟩

end Serve

/-! ## The daemon at work -/

/-- The rest of the daemon's program answers the request. -/
abbrev DaemonProg.Answers (prog : DaemonProg) (id since : Nat) (w₀ : World) (request : Request)
    (w : World) : Prop :=
  prog.Safe (waitingSpec id since) (fun _ _ w' => Answered id since w₀ request w') w

/-- The request is answered, or the daemon is still at it, or it has ended before. -/
inductive Awaits (id since : Nat) (w₀ : World) (request : Request) (sys : System) : Prop
  | answered (answer : Answered id since w₀ request sys.world)
  | working (prog : DaemonProg) (up : sys.daemon = some prog)
      (safe : prog.Answers id since w₀ request sys.world)
  | gone (down : sys.daemon = none) (none : sys.world.hist.answer since = none)

theorem World.Passes_released (w : World) (who : Holder) : Passes id w (w.released who) := by
  refine ⟨?_, List.suffix_refl _, rfl⟩
  rw [World.logOf_congr (World.dataAt_released w _ who)]

namespace DaemonProg.Answers

/-- A request that shows job `id` or its log is going to be answered. -/
theorem begin {s : Scheduler} {e : ProcessExecutor} {pid euid uid gid : Nat}
    (hrequest : request = .get id ∨ ∃ offset, request = .log id offset) :
    DaemonProg.Answers ((serveOp euid (.request uid gid request) s).interp (handler pid) e) id
      w.hist.length w request w := by
  have hun : w.hist.Unanswered w.hist.length := by
    refine ⟨Nat.le_refl _, ?_⟩
    rw [Hist.answer, ← List.length_reverse, List.drop_length]
    rfl
  have hserve : wp (readingSpec id w.hist.length) (serveOp euid (.request uid gid request))
      (fun _ _ w' => Answered id w.hist.length w request w') s w := by
    rcases hrequest with rfl | ⟨offset, rfl⟩
    · exact serveOp_get hun
    · exact serveOp_log hun (List.prefix_refl _)
  have hsafe := Prog.Safe.interp (handler_reads id w.hist.length pid) hserve trivial e
  refine hsafe.mono ?_
  rintro st r w' ⟨_, hanswered⟩
  exact hanswered

theorem settle {prog : DaemonProg} (h : prog.Answers id since w₀ request w) :
    Awaits id since w₀ request (System.settle w prog) := by
  cases prog with
  | call st c k => exact Awaits.working _ rfl h
  | ret st r =>
      have hanswered : Answered id since w₀ request w := h
      apply Awaits.answered
      unfold System.settle
      split
      · exact hanswered.mono (World.Passes_released w _)
      · exact hanswered.mono (World.Passes_released w _)
      · exact hanswered

theorem drifts {prog : DaemonProg} (h : prog.Answers id since w₀ request w) (hd : Drifts id w w') :
    prog.Answers id since w₀ request w' := by
  refine Prog.Safe.stable (R := Drifts id) h hd ?_ ?_ ?_
  · intro c st w w' hd hun
    show w'.hist.Unanswered since
    rw [hd.hist]
    exact hun
  · rintro c st w w' r w'' hd ⟨w₁, raw, hd₁, hexec⟩
    exact ⟨w₁, raw, hd.trans hd₁, hexec⟩
  · exact fun st r w w' hd hanswered => hanswered.mono hd.passes

end DaemonProg.Answers

/-- Until a daemon is booted, the request stays answered, or about to be. -/
theorem Awaits.moves {sys sys' : System} {euid : Nat} (h : Awaits id since w₀ request sys)
    (hgood : sys.Good L₀) (hm : System.Moves euid sys sys') (hp : Passes id sys.world sys'.world) :
    Awaits id since w₀ request sys' := by
  cases h with
  | answered answer => exact Awaits.answered (answer.mono hp)
  | working prog up safe =>
      cases hm with
      | idle => exact Awaits.working prog up safe
      | boot pid inventory maxRunning excluded s down =>
          rw [up] at down
          cases down
      | begin op s e rest =>
          -- the daemon is done with the request
          rw [up] at rest
          cases rest
          have hanswered : Answered id since w₀ request sys.world := safe
          exact Awaits.answered (hanswered.mono hp)
      | daemon st c k raw r w' next exec =>
          rw [up] at next
          cases next
          have hnext : (k r).Answers id since w₀ request w' :=
            safe.2 r w' ⟨sys.world, raw, Drifts.refl _, exec⟩
          exact hnext.settle
      | crash =>
          cases prog with
          | call st c k => exact Awaits.gone rfl safe.1.none
          | ret st r =>
              have hanswered : Answered id since w₀ request sys.world := safe
              exact Awaits.answered (hanswered.mono hp)
      | beside w' hi =>
          have hd : Drifts id sys.world w' := hi.drifts hgood.sound hgood.reach
          exact Awaits.working prog up (safe.drifts hd)
  | gone down none =>
      cases hm with
      | idle => exact Awaits.gone down none
      | boot =>
          -- a boot is an entry
          have hboots := hp.boots
          rw [System.settle_hist] at hboots
          simp only [World.log, Hist.boots, List.countP_cons, Event.isBoot, if_true] at hboots
          omega
      | begin op s e rest =>
          rw [down] at rest
          cases rest
      | daemon st c k raw r w' next =>
          rw [down] at next
          cases next
      | crash prog up =>
          rw [down] at up
          cases up
      | beside w' hi =>
          have hd : Drifts id sys.world w' := hi.drifts hgood.sound hgood.reach
          refine Awaits.gone down ?_
          rw [hd.hist]
          exact none

/-- A response that the client can receive is the answer to its request. -/
theorem Awaits.informs {sys : System} {response : Response}
    (h : Awaits id since w₀ request sys) (hresponse : sys.world.hist.answer since = some response) :
    Informs id w₀ request response sys.world := by
  have done : Answered id since w₀ request sys.world → Informs id w₀ request response sys.world := by
    rintro ⟨response', hanswer, hinforms⟩
    rw [hresponse] at hanswer
    cases hanswer
    exact hinforms
  cases h with
  | answered answer => exact done answer
  | working prog up safe =>
      cases prog with
      | ret st r => exact done safe
      | call st c k =>
          have hnone := safe.1.none
          rw [hresponse] at hnone
          cases hnone
  | gone down none =>
      rw [hresponse] at none
      cases none

end Xlurm
