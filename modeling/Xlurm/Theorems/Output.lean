/-
  Xlurm.Theorems.Output

  The output of a foreground job.  `follow` decides that a job is over from a
  `Get` that it makes before it reads the log: the worker is dead by then, so
  what it reads up to the end of the log is all that there will ever be.
-/

import Xlurm.Refine.Serving

namespace Xlurm

open Prog.Comp

variable {id : Nat} {w w' w'' : World}

/-! ## What the client relies on -/

/-- Time passes, and a log does not grow any more once its job was seen to be over. -/
structure Later (id : Nat) (w w' : World) : Prop extends Passes id w w' where
  final : ∀ job, w.hist.Shown id job → job.result ≠ none → w'.logOf id = w.logOf id

namespace Later

theorem refl (w : World) : Later id w w := ⟨Passes.refl w, fun _ _ _ => rfl⟩

theorem shown (h : Later id w w') {job : Job} (hj : w.hist.Shown id job) :
    w'.hist.Shown id job := hj.mono h.hist h.boots

theorem trans (h : Later id w w') (h' : Later id w' w'') : Later id w w'' := by
  refine ⟨h.toPasses.trans h'.toPasses, ?_⟩
  intro job hj hresult
  rw [h'.final job (h.shown hj) hresult, h.final job hj hresult]

end Later

namespace ClientCall

/-- What a call prints. -/
def output : ClientCall → List UInt8
  | write bytes => bytes
  | _ => []

/-- What a call does to what the client has written, and what a request tells. -/
def Does (id : Nat) : (c : ClientCall) → List UInt8 × World → c.Reply → List UInt8 × World → Prop
  | request asked, v, r, v' =>
      v'.1 = v.1 ∧ ∀ response, r = .ok response → Informs id v.2 asked response v'.2
  | write bytes, v, r, v' => (∃ n, v'.1 = v.1 ++ bytes.take n) ∧ (r = .ok () → v'.1 = v.1 ++ bytes)
  | _, v, _, v' => v'.1 = v.1

end ClientCall

/-- The client has written a part of the log, and what it prints continues it. -/
def clientSpec (id : Nat) : Prog.Spec Follow ClientCall ClientCall.Reply (List UInt8 × World) where
  pre c _ v := v.1 ++ c.output <+: v.2.logOf id
  post c _ v r v' := Later id v.2 v'.2 ∧ c.Does id v r v'

/-! ## One turn -/

/-- Nothing was read or printed since `v₀`. -/
structure Steady (id : Nat) (v₀ : List UInt8 × World) (offset : Nat) (st : Follow)
    (v : List UInt8 × World) : Prop where
  offset : st.offset = offset
  written : v.1 = v₀.1
  later : Later id v₀.2 v.2
  part : v₀.1 <+: v₀.2.logOf id

section Steady

variable {v₀ v : List UInt8 × World} {offset : Nat} {st : Follow}

theorem Steady.follows (h : Steady id v₀ offset st v) : v.1 <+: v.2.logOf id := by
  rw [h.written]
  exact h.part.trans h.later.log

theorem Steady.refl (h : v.1 <+: v.2.logOf id) : Steady id v st.offset st v :=
  ⟨rfl, rfl, Later.refl _, h⟩

theorem Steady.call {c : ClientCall} (hc : ∀ bytes, c ≠ .write bytes) :
    Keeps (clientSpec id) (Steady id v₀ offset) (call c : Foreground c.Reply) := by
  apply Keeps.call
  · intro st v h
    have hquiet : c.output = [] := by
      cases c with
      | write bytes => exact absurd rfl (hc bytes)
      | _ => rfl
    show v.1 ++ c.output <+: v.2.logOf id
    rw [hquiet, List.append_nil]
    exact h.follows
  · rintro st v r v' h ⟨hlater, hdoes⟩
    have hwritten : v'.1 = v.1 := by
      cases c with
      | write bytes => exact absurd rfl (hc bytes)
      | request => exact hdoes.1
      | _ => exact hdoes
    exact ⟨h.offset, hwritten.trans h.written, h.later.trans hlater, h.part⟩

theorem forwardInterrupt_steady :
    Keeps (clientSpec id) (Steady id v₀ offset) (forwardInterrupt id) := by
  apply (Steady.call (by simp)).bind
  intro interrupted
  cases interrupted with
  | false => exact Keeps.pure ()
  | true =>
      refine Keeps.get.bind fun st => ?_
      split
      · refine (Steady.call (by simp)).bind fun reply => (Keeps.lift reply).bind fun _ => ?_
        exact Keeps.modify fun _ _ h => ⟨h.offset, h.written, h.later, h.part⟩
      · exact Keeps.pure ()

theorem reportWaiting_steady (job : Job) :
    Keeps (clientSpec id) (Steady id v₀ offset) (reportWaiting id job) := by
  refine Keeps.get.bind fun st => ?_
  split
  · refine (Steady.call (by simp)).bind fun waited => ?_
    split
    · refine (Steady.call (by simp)).bind fun time => (Steady.call (by simp)).bind fun _ => ?_
      exact Keeps.modify fun _ _ h => ⟨h.offset, h.written, h.later, h.part⟩
    · exact Keeps.pure ()
  · exact Keeps.pure ()

theorem reportStarted_steady (job : Job) :
    Keeps (clientSpec id) (Steady id v₀ offset) (reportStarted id job) := by
  refine Keeps.get.bind fun st => ?_
  split
  · refine (Steady.call (by simp)).bind fun time => (Steady.call (by simp)).bind fun _ => ?_
    exact Keeps.modify fun _ _ h => ⟨h.offset, h.written, h.later, h.part⟩
  · exact Keeps.pure ()

end Steady

/-- The client has printed the log up to its offset; when it is drained, and the job was
    over in `w`, that is the whole log. -/
structure Printed (id : Nat) (w : World) (drained : Bool) (st : Follow) (v : List UInt8 × World) :
    Prop where
  offset : st.offset = v.1.length
  whole : drained = true → ∀ job, w.hist.Shown id job → job.result ≠ none → v.1 = v.2.logOf id

/-- Where printing may end. -/
structure Prints (id : Nat) (w : World) (st : Follow) (r : Except Error Bool)
    (v : List UInt8 × World) : Prop where
  later : Later id w v.2
  part : v.1 <+: v.2.logOf id
  printed : ∀ drained, r = .ok drained → Printed id w drained st v

section Chunk

variable {v : List UInt8 × World} {st : Follow}

/-- A chunk that was read behind a part of the log continues it. -/
theorem chunk_continues {α : Type} {part old content : List α} (h : part <+: old)
    (hold : old <+: content) (n : Nat) :
    part ++ (content.drop part.length).take n <+: content ∧
      (0 < n → (content.drop part.length).take n = [] → part = old) := by
  obtain ⟨rest, rfl⟩ := h.trans hold
  rw [List.drop_left]
  refine ⟨(List.prefix_append_right_inj part).mpr (List.take_prefix n rest), ?_⟩
  intro hpos hnone
  have hrest : rest = [] := by
    cases rest with
    | nil => rfl
    | cons x rest =>
        rw [List.take_eq_nil_iff] at hnone
        rcases hnone with hzero | hnil
        · omega
        · exact hnil
  rw [hrest, List.append_nil] at hold
  exact h.eq_of_length_le hold.length_le

theorem printLogChunk_wp (hoffset : st.offset = v.1.length) (hpart : v.1 <+: v.2.logOf id) :
    wp (clientSpec id) (printLogChunk id) (fun st' r v' => Prints id v.2 st' (r.map (!·)) v') st v := by
  rw [printLogChunk, wp_bind, wp_get, andThen_ok, wp_bind, wp_call]
  have hpre : v.1 ++ [] <+: v.2.logOf id := by
    rw [List.append_nil]
    exact hpart
  refine ⟨hpre, ?_⟩
  rintro reply v₁ ⟨hlater₁, hwritten₁, hinforms⟩
  have hpart₁ : v₁.1 <+: v₁.2.logOf id := by
    rw [hwritten₁]
    exact hpart.trans hlater₁.log
  -- Where the client gives up, what it has written is still a part of the log.
  have failed : ∀ e, Prints id v.2 st (Except.map (!·) (.error e)) v₁ := fun e =>
    ⟨hlater₁, hpart₁, by rintro _ ⟨⟩⟩
  rw [andThen_ok, wp_bind, wp_lift]
  cases reply with
  | error e => exact failed e
  | ok response =>
      rw [andThen_ok]
      cases response with
      | log bytes next =>
          obtain ⟨hnext, content, hold, hnew, hbytes⟩ :=
            (hinforms _ rfl).log st.offset bytes next rfl rfl
          rw [hoffset] at hbytes
          obtain ⟨hcontinues, hempty⟩ := chunk_continues hpart hold (64 * 1024)
          rw [← hbytes] at hcontinues hempty
          rw [wp_bind, wp_call]
          refine ⟨?_, ?_⟩
          · show v₁.1 ++ bytes <+: v₁.2.logOf id
            rw [hwritten₁]
            exact hcontinues.trans hnew
          -- The terminal may take only the first `n` bytes before it fails.
          rintro reply v₂ ⟨hlater₂, ⟨n, hsome⟩, hall⟩
          have hlater : Later id v.2 v₂.2 := hlater₁.trans hlater₂
          have hpart₂ : v₂.1 <+: v₂.2.logOf id := by
            rw [hsome, hwritten₁]
            have htake : v.1 ++ bytes.take n <+: v.1 ++ bytes :=
              (List.prefix_append_right_inj v.1).mpr (List.take_prefix n bytes)
            exact (htake.trans (hcontinues.trans hnew)).trans hlater₂.log
          rw [andThen_ok, wp_bind, wp_lift]
          cases reply with
          | error e => exact ⟨hlater, hpart₂, by rintro _ ⟨⟩⟩
          | ok _ =>
              have hwritten₂ : v₂.1 = v.1 ++ bytes := by rw [hall rfl, hwritten₁]
              rw [andThen_ok, wp_bind, wp_modify, andThen_ok, wp_pure]
              refine ⟨hlater, hpart₂, ?_⟩
              rintro _ ⟨⟩
              refine ⟨?_, ?_⟩
              · show next = v₂.1.length
                rw [hnext, hoffset, hwritten₂, List.length_append]
              -- nothing was left when the job was over already
              · intro hnone job hj hresult
                have hnil : bytes = [] := by simpa using hnone
                have hwhole : v.1 = v.2.logOf id := hempty (by omega) hnil
                rw [hwritten₂, hnil, List.append_nil, hwhole, hlater.final job hj hresult]
      | _ => exact failed _

theorem drain_wp (n : Nat) (hoffset : st.offset = v.1.length) (hpart : v.1 <+: v.2.logOf id) :
    wp (clientSpec id) (drain id n) (Prints id v.2) st v := by
  -- A chunk that was not empty is printed, and the rest is drained from there.
  induction n generalizing st v with
  | zero =>
      refine ⟨Later.refl _, hpart, ?_⟩
      rintro _ ⟨⟩
      exact ⟨hoffset, by rintro ⟨⟩⟩
  | succ n ih =>
      rw [drain]
      apply wp_bind_of (printLogChunk_wp hoffset hpart)
      · intro st₁ more v₁ h₁
        have hprinted := h₁.printed (!more) rfl
        cases more with
        | false =>
            refine ⟨h₁.later, h₁.part, ?_⟩
            rintro _ ⟨⟩
            exact hprinted
        | true =>
            refine wp_mono (ih hprinted.offset h₁.part) ?_
            intro st₂ r v₂ h₂
            refine ⟨h₁.later.trans h₂.later, h₂.part, ?_⟩
            intro drained hr
            have h := h₂.printed drained hr
            exact ⟨h.offset, fun hdrained job hj => h.whole hdrained job (h₁.later.shown hj)⟩
      · intro st₁ e v₁ h₁
        exact ⟨h₁.later, h₁.part, by rintro _ ⟨⟩⟩

end Chunk

/-- Where a turn may end: with a code the client has written the whole log. -/
def Followed (id : Nat) (st : Follow) (r : Except Error (Option Int)) (v : List UInt8 × World) :
    Prop :=
  v.1 <+: v.2.logOf id ∧
    match r with
    | .error _ => True
    | .ok none => st.offset = v.1.length
    | .ok (some code) => v.1 = v.2.logOf id ∧ ∃ job outcome, v.2.hist.Shown id job ∧
        job.result = some outcome ∧ outcome.exitCode = code

section Turn

variable {v : List UInt8 × World} {st : Follow}

/-- Anything that prints nothing can come before the end of a turn. -/
theorem Followed.steady {r : Except Error (Option Int)} {st' : Follow} {v' : List UInt8 × World}
    (h : Followed id st r v) (hs : Steady id v st.offset st' v') : Followed id st' r v' := by
  obtain ⟨hpart, hrest⟩ := h
  refine ⟨hs.follows, ?_⟩
  rcases r with e | _ | code
  · trivial
  · show st'.offset = v'.1.length
    rw [hs.offset, hs.written]
    exact hrest
  · obtain ⟨hwhole, job, outcome, hj, hresult, hcode⟩ := hrest
    have hsame : v'.2.logOf id = v.2.logOf id := by
      apply hs.later.final job hj
      rw [hresult]
      exact Option.some_ne_none outcome
    refine ⟨?_, job, outcome, hs.later.shown hj, hresult, hcode⟩
    rw [hs.written, hsame]
    exact hwhole

theorem concludeTurn_wp {job : Job} {drained : Bool} (hj : v.2.hist.Shown id job)
    (hpart : v.1 <+: v.2.logOf id) (hoffset : st.offset = v.1.length)
    (hwhole : drained = true → job.result ≠ none → v.1 = v.2.logOf id) :
    wp (clientSpec id) (concludeTurn job drained) (Followed id) st v := by
  have hstart : Steady id v st.offset st v := Steady.refl hpart
  have asleep : wp (clientSpec id) (do call ClientCall.sleep; return none : Foreground (Option Int))
      (Followed id) st v := by
    have hnone : Followed id st (.ok none) v := ⟨hpart, hoffset⟩
    apply (Steady.call (by simp)).wp_bind hstart
    · exact fun _ _ _ h => hnone.steady h
    · exact fun _ _ _ h => ⟨h.follows, trivial⟩
  unfold concludeTurn
  split
  · rename_i result hresult
    have hsome : Followed id st (.ok (some result.exitCode)) v := by
      refine ⟨hpart, hwhole rfl ?_, job, result, hj, hresult, rfl⟩
      rw [hresult]
      exact Option.some_ne_none result
    split
    · apply (Steady.call (by simp)).wp_bind hstart
      · exact fun _ _ _ h => hsome.steady h
      · exact fun _ _ _ h => ⟨h.follows, trivial⟩
    · exact hsome
  · exact asleep

theorem followTurn_wp (hoffset : st.offset = v.1.length) (hpart : v.1 <+: v.2.logOf id) :
    wp (clientSpec id) (followTurn id) (Followed id) st v := by
  have hstart : Steady id v st.offset st v := Steady.refl hpart
  apply forwardInterrupt_steady.wp_bind hstart
  · intro st₁ _ v₁ h₁
    rw [wp_bind, wp_call]
    refine ⟨?_, ?_⟩
    · show v₁.1 ++ [] <+: v₁.2.logOf id
      rw [List.append_nil]
      exact h₁.follows
    rintro reply v₂ ⟨hlater₂, hwritten₂, hinforms⟩
    have hpart₂ : v₂.1 <+: v₂.2.logOf id := by
      rw [hwritten₂]
      exact h₁.follows.trans hlater₂.log
    have hoffset₂ : st₁.offset = v₂.1.length := by
      rw [h₁.offset, hwritten₂, h₁.written]
      exact hoffset
    rw [andThen_ok, wp_bind, wp_lift]
    cases reply with
    | error e => exact ⟨hpart₂, trivial⟩
    | ok response =>
        rw [andThen_ok]
        cases response with
        | job job =>
            have hj₂ : v₂.2.hist.Shown id job := (hinforms _ rfl).get job rfl rfl
            have hstart₂ : Steady id v₂ st₁.offset st₁ v₂ := Steady.refl hpart₂
            apply (reportWaiting_steady job).wp_bind hstart₂
            · intro st₃ _ v₃ h₃
              apply (reportStarted_steady job).wp_bind h₃
              · intro st₄ _ v₄ h₄
                have hoffset₄ : st₄.offset = v₄.1.length := by
                  rw [h₄.offset, h₄.written]
                  exact hoffset₂
                -- The job as it was when the reads began.
                have hj₄ : v₄.2.hist.Shown id job := h₄.later.shown hj₂
                apply wp_bind_of (drain_wp 16 hoffset₄ h₄.follows)
                · intro st₅ drained v₅ h₅
                  have hprinted := h₅.printed drained rfl
                  apply concludeTurn_wp (h₅.later.shown hj₄) h₅.part hprinted.offset
                  exact fun hdrained => hprinted.whole hdrained job hj₄
                · exact fun _ _ _ h => ⟨h.part, trivial⟩
              · exact fun _ _ _ h => ⟨h.follows, trivial⟩
            · exact fun _ _ _ h => ⟨h.follows, trivial⟩
        | _ => exact ⟨hpart₂, trivial⟩
  · exact fun _ _ _ h => ⟨h.follows, trivial⟩

end Turn

/-! ## Sessions -/

/-- Everything that one move can do. -/
inductive Session.Moves (euid uid gid id : Nat) (s : Session) : Session → Prop
  | idle : Moves euid uid gid id s s
  | system (action : Action) : Moves euid uid gid id s { s with sys := s.sys.step euid action }
  | send (st : Follow) (request : Request) (k : Except Error Response → ClientProg)
      (sched : Scheduler) (e : ProcessExecutor)
      (next : s.client = .acting (.call st (.request request) k))
      (rest : s.sys.daemon = some (.ret (sched, e) (.ok .loop))) :
      Moves euid uid gid id s { s with
        sys := s.sys.step euid (.begin (.request uid gid request))
        client := .waiting s.sys.world.hist.length request k }
  | receive (since : Nat) (request : Request) (k : Except Error Response → ClientProg)
      (response : Response) (waits : s.client = .waiting since request k)
      (answer : s.sys.world.hist.answer since = some response) :
      Moves euid uid gid id s { s with client := .acting (k response.received) }
  | fail (since : Nat) (request : Request) (k : Except Error Response → ClientProg) (e : Error)
      (waits : s.client = .waiting since request k) :
      Moves euid uid gid id s { s with client := .acting (k (.error e)) }
  | call (st : Follow) (c : ClientCall) (k : c.Reply → ClientProg) (raw : c.Raw)
      (next : s.client = .acting (.call st c k)) :
      Moves euid uid gid id s { s with
        written := (c.exec s.written raw).2
        client := .acting (k (c.exec s.written raw).1) }
  | turn (st : Follow) (next : s.client = .acting (.ret st (.ok none))) :
      Moves euid uid gid id s { s with client := .acting (followTurn id st) }

theorem Session.step_moves (euid uid gid id : Nat) (s : Session) (move : Move) :
    Moves euid uid gid id s (s.step euid uid gid id move) := by
  cases move with
  | system action => exact Moves.system action
  | send =>
      unfold Session.step
      dsimp only
      split
      · rename_i st request k dst hclient hdaemon
        obtain ⟨sched, e⟩ := dst
        exact Moves.send st request k sched e hclient hdaemon
      · exact Moves.idle
  | receive =>
      unfold Session.step
      dsimp only
      split
      · rename_i since request k hclient
        split
        · rename_i response hanswer
          exact Moves.receive since request k response hclient hanswer
        · exact Moves.idle
      · exact Moves.idle
  | client env =>
      unfold Session.step
      dsimp only
      split
      · rename_i st c k hclient
        exact Moves.call st c k (env c) hclient
      · rename_i since request k hclient
        exact Moves.fail since request k _ hclient
      · exact Moves.idle
  | turn =>
      unfold Session.step
      dsimp only
      split
      · rename_i st hclient
        exact Moves.turn st hclient
      · exact Moves.idle

/-- The log of job `id` is not removed, and no daemon is booted. -/
def System.Spares (id : Nat) (sys sys' : System) : Prop :=
  ((sys.world.file (.job id .log)).isSome → (sys'.world.file (.job id .log)).isSome) ∧
    sys'.world.hist.boots = sys.world.hist.boots

theorem System.Moves.later {sys sys' : System} {euid : Nat} (hm : System.Moves euid sys sys')
    (h : sys.Good Ledger.init) (hs : System.Spares id sys sys') :
    Later id sys.world sys'.world where
  log := (hm.grows h hs.1).log
  hist := hm.hist_suffix h
  boots := hs.2
  final job hj hresult := by
    obtain ⟨outcome, hsome⟩ := Option.ne_none_iff_exists'.mp hresult
    have hover : sys.ledger.Over id outcome := h.reach.over hj hsome
    exact (hm.grows h hs.1).idle hover.idle

/-- The rest of the client's program follows the log, whatever it is answered. -/
def Client.Sound (id : Nat) (written : List UInt8) (sys : System) : Client → Prop
  | .acting prog => prog.Safe (clientSpec id) (Followed id) (written, sys.world)
  | .waiting since request k => ∃ w₀, Later id w₀ sys.world ∧
      ((request = .get id ∨ ∃ offset, request = .log id offset) →
        Awaits id since w₀ request sys) ∧
      ∀ reply w', Later id w₀ w' →
        (∀ response, reply = .ok response → Informs id w₀ request response w') →
        (k reply).Safe (clientSpec id) (Followed id) (written, w')

structure Session.Sound (id : Nat) (s : Session) : Prop where
  good : s.sys.Good Ledger.init
  part : s.written <+: s.sys.world.logOf id
  client : s.client.Sound id s.written s.sys

section Session

variable {s s' : Session} {euid uid gid : Nat}

theorem ClientCall.Does.earlier {c : ClientCall} {written : List UInt8} {r : c.Reply}
    {v : List UInt8 × World} (hlog : w.logOf id <+: w'.logOf id)
    (h : c.Does id (written, w') r v) : c.Does id (written, w) r v := by
  cases c with
  | request asked => exact ⟨h.1, fun response hr => (h.2 response hr).earlier hlog⟩
  | _ => exact h

/-- The client's program survives what happens between two of its calls. -/
theorem Client.later {prog : ClientProg} {written : List UInt8}
    (h : prog.Safe (clientSpec id) (Followed id) (written, w)) (hpart : written <+: w.logOf id)
    (hlater : Later id w w') : prog.Safe (clientSpec id) (Followed id) (written, w') := by
  cases prog with
  | ret st r =>
      have hend : Followed id st r (written, w) := h
      exact hend.steady ⟨rfl, rfl, hlater, hpart⟩
  | call st c k =>
      refine ⟨h.1.trans hlater.log, ?_⟩
      rintro r v' ⟨hlater', hdoes⟩
      exact h.2 r v' ⟨hlater.trans hlater', hdoes.earlier hlater.log⟩

/-- What happens on the machine while the client does nothing. -/
theorem Session.Sound.system {sys' : System} (h : s.Sound id)
    (hm : System.Moves euid s.sys sys') (hs : System.Spares id s.sys sys') :
    Session.Sound id { s with sys := sys' } := by
  have hlater : Later id s.sys.world sys'.world := hm.later h.good hs
  refine ⟨h.good.moves hm, h.part.trans hlater.log, ?_⟩
  have hclient := h.client
  cases hc : s.client with
  | acting prog =>
      rw [hc] at hclient
      exact Client.later hclient h.part hlater
  | waiting since request k =>
      rw [hc] at hclient
      obtain ⟨w₀, hsince, hawaits, hk⟩ := hclient
      refine ⟨w₀, hsince.trans hlater, ?_, hk⟩
      exact fun hrequest => (hawaits hrequest).moves h.good hm hlater.toPasses

/-- The daemon takes up a request. -/
theorem Session.Sound.send {st : Follow} {request : Request}
    {k : Except Error Response → ClientProg} {sched : Scheduler} {e : ProcessExecutor}
    (h : s.Sound id) (next : s.client = .acting (.call st (.request request) k))
    (rest : s.sys.daemon = some (.ret (sched, e) (.ok .loop)))
    (hs : System.Spares id s.sys (s.sys.step euid (.begin (.request uid gid request)))) :
    Session.Sound id { s with
      sys := s.sys.step euid (.begin (.request uid gid request))
      client := .waiting s.sys.world.hist.length request k } := by
  have hm := System.step_moves euid s.sys (.begin (.request uid gid request))
  have hlater := hm.later h.good hs
  refine ⟨h.good.moves hm, h.part.trans hlater.log, s.sys.world, hlater, ?_, ?_⟩
  · intro hrequest
    have hbegin : s.sys.step euid (.begin (.request uid gid request)) =
        System.settle s.sys.world ((serveOp euid (.request uid gid request) sched).interp
          (handler s.sys.world.pid) e) := by
      simp only [System.step, rest]
    rw [hbegin]
    exact (DaemonProg.Answers.begin hrequest).settle
  · intro reply w' hlater' hinforms
    have hclient := h.client
    rw [next] at hclient
    exact hclient.2 reply (s.written, w') ⟨hlater', rfl, hinforms⟩

/-- The client receives the answer to its request. -/
theorem Session.Sound.receive {since : Nat} {request : Request}
    {k : Except Error Response → ClientProg} {response : Response} (h : s.Sound id)
    (waits : s.client = .waiting since request k)
    (answer : s.sys.world.hist.answer since = some response) :
    Session.Sound id { s with client := .acting (k response.received) } := by
  have hclient := h.client
  rw [waits] at hclient
  obtain ⟨w₀, hsince, hawaits, hk⟩ := hclient
  refine ⟨h.good, h.part, hk response.received _ hsince ?_⟩
  intro response' hreceived
  obtain rfl : response = response' := by
    cases response <;> cases hreceived <;> rfl
  refine ⟨?_, ?_⟩
  · intro job hget hresponse
    exact ((hawaits (Or.inl hget)).informs answer).get job hget hresponse
  · intro offset bytes next hlog hresponse
    exact ((hawaits (Or.inr ⟨offset, hlog⟩)).informs answer).log offset bytes next hlog hresponse

/-- Any other call of the client. -/
theorem Session.Sound.call {st : Follow} {c : ClientCall} {k : c.Reply → ClientProg}
    (raw : c.Raw) (h : s.Sound id) (next : s.client = .acting (.call st c k)) :
    Session.Sound id { s with
      written := (c.exec s.written raw).2
      client := .acting (k (c.exec s.written raw).1) } := by
  have hclient := h.client
  rw [next] at hclient
  obtain ⟨hprints, hrest⟩ := hclient
  have hdoes : c.Does id (s.written, s.sys.world) (c.exec s.written raw).1
      ((c.exec s.written raw).2, s.sys.world) := by
    cases c with
    | request asked => exact ⟨rfl, by rintro _ ⟨⟩⟩
    | write bytes =>
        cases raw with
        | none => exact ⟨⟨bytes.length, by rw [List.take_length]; rfl⟩, fun _ => rfl⟩
        | some failure => exact ⟨⟨failure.1, rfl⟩, by rintro ⟨⟩⟩
    | _ => rfl
  have hpart : (c.exec s.written raw).2 <+: s.written ++ c.output := by
    cases c with
    | write bytes =>
        cases raw with
        | none => exact List.prefix_refl _
        | some failure => exact (List.prefix_append_right_inj s.written).mpr (List.take_prefix _ _)
    | _ => exact List.prefix_append _ _
  exact ⟨h.good, hpart.trans hprints, hrest _ _ ⟨Later.refl _, hdoes⟩⟩

/-- Every move keeps the invariant. -/
theorem Session.Sound.moves (h : s.Sound id) (hm : Session.Moves euid uid gid id s s')
    (hs : System.Spares id s.sys s'.sys) : s'.Sound id := by
  cases hm with
  | idle => exact h
  | system action => exact h.system (System.step_moves euid s.sys action) hs
  | send st request k sched e next rest => exact h.send next rest hs
  | receive since request k response waits answer => exact h.receive waits answer
  | fail since request k e waits =>
      have hclient := h.client
      rw [waits] at hclient
      obtain ⟨w₀, hsince, _, hk⟩ := hclient
      exact ⟨h.good, h.part, hk (.error e) _ hsince (by rintro _ ⟨⟩)⟩
  | call st c k raw next => exact h.call raw next
  | turn st next =>
      have hclient := h.client
      rw [next] at hclient
      obtain ⟨hpart, hoffset⟩ := hclient
      exact ⟨h.good, h.part, followTurn_wp hoffset hpart⟩

end Session

/-- During these moves the log of job `id` is not removed, and no daemon is booted. -/
def Session.Undisturbed (euid uid gid id : Nat) : Session → List Move → Prop
  | _, [] => True
  | s, move :: rest => System.Spares id s.sys (s.step euid uid gid id move).sys ∧
      Undisturbed euid uid gid id (s.step euid uid gid id move) rest

section Run

variable {s : Session} {euid uid gid : Nat} {moves : List Move}

theorem Session.Sound.start {sys : System} (h : sys.Good Ledger.init) :
    (Session.start sys id).Sound id :=
  ⟨h, List.nil_prefix, followTurn_wp rfl List.nil_prefix⟩

theorem Session.Sound.run (h : s.Sound id) (hun : s.Undisturbed euid uid gid id moves) :
    (s.run euid uid gid id moves).Sound id := by
  induction moves generalizing s with
  | nil => exact h
  | cons move rest ih =>
      obtain ⟨hspares, hrest⟩ := hun
      exact ih (h.moves (Session.step_moves euid uid gid id s move) hspares) hrest

/-- What a code says. -/
theorem Session.Sound.returned {code : Int} (h : s.Sound id) (hcode : s.code = some code) :
    s.written = s.sys.world.logOf id ∧ ∃ job outcome, s.sys.world.hist.Shown id job ∧
      job.result = some outcome ∧ outcome.exitCode = code := by
  have hclient := h.client
  unfold Session.code at hcode
  split at hcode
  · rename_i st code' hret
    subst hcode
    rw [hret] at hclient
    exact hclient.2
  · cases hcode

/-- A client that has returned does nothing any more. -/
theorem Session.Moves.returned {s' : Session} {code : Int}
    (hm : Session.Moves euid uid gid id s s') (hcode : s.code = some code) :
    s'.code = some code ∧ s'.written = s.written := by
  have busy : ∀ client, s.client = client → (∀ st, client ≠ .acting (.ret st (.ok (some code)))) →
      False := by
    rintro client rfl hnot
    unfold Session.code at hcode
    split at hcode
    · rename_i st code' hret
      subst hcode
      exact hnot st hret
    · cases hcode
  cases hm with
  | idle | system => exact ⟨hcode, rfl⟩
  | send _ _ _ _ _ next | call _ _ _ _ next | turn _ next => exact (busy _ next (by simp)).elim
  | receive _ _ _ _ waits | fail _ _ _ _ waits => exact (busy _ waits (by simp)).elim

theorem Session.run_returned {code : Int} (hcode : s.code = some code) (moves : List Move) :
    (s.run euid uid gid id moves).code = some code ∧
      (s.run euid uid gid id moves).written = s.written := by
  induction moves generalizing s with
  | nil => exact ⟨hcode, rfl⟩
  | cons move rest ih =>
      obtain ⟨hcode', hwritten'⟩ := (Session.step_moves euid uid gid id s move).returned hcode
      obtain ⟨hend, hwritten⟩ := ih hcode'
      exact ⟨hend, hwritten.trans hwritten'⟩

/-- The output of a foreground job is complete.  Whatever the daemon, the workers, other
    clients and the one that follows job `id` do, as long as the log is not removed and no
    other daemon is booted: what the client has written is a part of the log; and when it
    returns a code, it is the whole log, once and for all, and the code is the exit code of
    the result that memory has for the job. -/
theorem output_complete (euid uid gid id : Nat) (actions : List Action) (moves : List Move)
    (hun : (Session.start (System.init.run euid actions) id).Undisturbed euid uid gid id moves) :
    let s := (Session.start (System.init.run euid actions) id).run euid uid gid id moves
    s.written <+: s.sys.world.logOf id ∧
    ∀ code, s.code = some code →
      s.written = s.sys.world.logOf id ∧
      (∀ later, s.Undisturbed euid uid gid id later →
        (s.run euid uid gid id later).sys.world.logOf id = s.written) ∧
      ∃ job outcome, s.sys.world.hist.Shown id job ∧ job.result = some outcome ∧
        outcome.exitCode = code ∧
        ∀ scheduler, s.sys.mem = some scheduler → ∀ job' ∈ scheduler.store.jobs, job'.id = id →
          job'.result = some outcome := by
  intro s
  have hsound : s.Sound id := (Session.Sound.start (System.init_good.run euid actions)).run hun
  refine ⟨hsound.part, ?_⟩
  intro code hcode
  obtain ⟨hwhole, job, outcome, hshown, hresult, hexit⟩ := hsound.returned hcode
  refine ⟨hwhole, ?_, job, outcome, hshown, hresult, hexit, ?_⟩
  · intro later hlater
    -- A client that has returned writes no more, and its output is still the whole log.
    obtain ⟨hcode', hwritten⟩ : (s.run euid uid gid id later).code = some code ∧
        (s.run euid uid gid id later).written = s.written := Session.run_returned hcode later
    obtain ⟨hwhole', _⟩ := (hsound.run hlater).returned hcode'
    rw [← hwhole', hwritten]
  · intro scheduler hmem job' hj hid
    have hover : s.sys.ledger.Over id outcome := hsound.good.reach.over hshown hresult
    exact (hover.mem scheduler.store (System.ledger_mem hmem) job' hj hid).2

end Run

/-! ## A session -/

instance (id : Nat) (sys sys' : System) : Decidable (System.Spares id sys sys') :=
  inferInstanceAs (Decidable (_ ∧ _))

instance Session.decidableUndisturbed (euid uid gid id : Nat) :
    (s : Session) → (moves : List Move) → Decidable (s.Undisturbed euid uid gid id moves)
  | _, [] => isTrue trivial
  | s, move :: rest =>
      have := decidableUndisturbed euid uid gid id (s.step euid uid gid id move) rest
      inferInstanceAs (Decidable (_ ∧ _))

/-- Nobody interrupts the client, and its standard output takes everything. -/
def ClientCall.fair : (c : ClientCall) → c.Raw
  | interrupted => false
  | request _ => "timed out"
  | waitedSecond => true
  | timestamp => "2026-01-01 00:00:00 UTC"
  | report _ => ()
  | write _ => none
  | sleep => ()

/-- A request and its answer. -/
def Move.asked : List Move :=
  [.send] ++ List.replicate 4 (.system (.daemon Sys.fair)) ++ [.receive]

/-- Its worker prints once more while it ends, and the next tick records the result. -/
def endedNoop : List Action :=
  List.replicate 30 (.worker 100 Sys.fair) ++ [.output 100 [105], .kill 100, .begin .tick] ++
    List.replicate 20 (.daemon Sys.fair)

/-- The client reads one byte while the job runs; it finds the other one, and the result,
    in its second turn. -/
def printedTwice : List Move :=
  [.client ClientCall.fair] ++ Move.asked ++ List.replicate 2 (.client ClientCall.fair) ++
    [.system (.output 100 [104])] ++ Move.asked ++ [.client ClientCall.fair] ++ Move.asked ++
    List.replicate 2 (.client ClientCall.fair) ++ endedNoop.map .system ++ [.turn] ++
    [.client ClientCall.fair] ++ Move.asked ++ Move.asked ++ [.client ClientCall.fair] ++
    Move.asked ++ [.client ClientCall.fair]

set_option maxRecDepth 20000 in
theorem output_complete_twice :
    let s := (Session.start (System.init.run 0 startedNoop) 1).run 0 0 0 1 printedTwice
    s.code = some 0 ∧ s.written = [104, 105] ∧ s.written = s.sys.world.logOf 1 := by
  have hcode : ((Session.start (System.init.run 0 startedNoop) 1).run 0 0 0 1
      printedTwice).code = some 0 := by decide
  have hcomplete := output_complete 0 0 0 1 startedNoop printedTwice (by decide)
  exact ⟨hcode, by decide, (hcomplete.2 0 hcode).1⟩

end Xlurm
