/-
  Xlurm.Refine.Answers

  What the commands `start` and `restart` learn from the daemon's answers, and what
  becomes of the child that `start` has spawned.

  `epoch` counts how often the lock was taken.  An answer carries the epoch in which
  it was sent; a command that has seen the lock free knows that later answers come
  from a later epoch than earlier ones.
-/

import Xlurm.Refine.Log
import Xlurm.Refine.Processes

namespace Xlurm

open Prog.Comp

variable {euid pid : Nat} {m m' : Machine}

/-! ## Hearing -/

/-- What a process has heard. -/
structure Hearing where
  /-- The lock was taken at least this often. -/
  floor : Nat
  /-- The request that waits for its answer. -/
  asked : Option Request
  /-- The client that was accepted last has no answer yet. -/
  client : Bool
  /-- Who this client is. -/
  peer : Option (Nat × Nat)
  /-- What this client has asked. -/
  received : Option Request
  /-- What its scheduler has answered last. -/
  decided : Option Decision
  /-- Newest first. -/
  heard : List SentAnswer
  /-- It has a child. -/
  child : Bool

namespace Hearing

def first : Hearing := ⟨0, none, false, none, none, none, [], false⟩

/-- A request has been sent. -/
def asking (φ : Hearing) (request : Request) : Hearing :=
  { φ with asked := some request, client := false, peer := none, received := none, decided := none }

/-- A client has been accepted. -/
def accepted (φ : Hearing) : Hearing :=
  { φ with asked := none, client := true, peer := none, received := none, decided := none }

end Hearing

namespace HostCall

def Attends : HostCall → Hearing → Prop
  | sendError _, φ => φ.client = true
  | sendResponse answer, φ => φ.client = true ∧ ∃ uid gid request, φ.peer = some (uid, gid) ∧
      φ.received = some request ∧ φ.decided = some ⟨uid, gid, request, answer⟩
  | response, φ => φ.asked ≠ none
  | spawnDaemon _, φ => φ.child = false
  | tryWait, φ | killChild, φ | waitChild, φ => φ.child = true
  | _, _ => True

/-- What a process learns from a reply. -/
def Hears : (c : HostCall) → Hearing → c.Reply → Hearing → Prop
  | tryLock, φ, r, φ' =>
      if r = .ok true then ∃ n, φ.floor < n ∧ φ' = { φ with floor := n, asked := none }
      else φ' = φ
  | accept, φ, r, φ' =>
      match r with
      | .client => φ' = φ.accepted
      | _ => φ' = φ
  | peer, φ, r, φ' =>
      match r with
      | .ok credentials => φ' = { φ with peer := some credentials }
      | .error _ => φ' = φ
  | receive, φ, r, φ' =>
      match r with
      | .ok request => φ' = { φ with received := some request, decided := none }
      | .error _ => φ' = φ
  | sys c, φ, _, φ' => φ' = { φ with decided := c.decision.or φ.decided }
  | sendError _, φ, _, φ' | sendResponse _, φ, _, φ' =>
      φ' = { φ with client := false, decided := none }
  | connect request, φ, r, φ' =>
      match r with
      | .ok () => φ' = φ.asking request
      | .error _ => φ' = φ
  | response, φ, r, φ' =>
      match r with
      | .ok answer => ∃ a : SentAnswer, a.response = answer ∧ φ.asked = some a.request ∧
          φ.floor ≤ a.epoch ∧ φ' = { φ with floor := a.epoch, asked := none, heard := a :: φ.heard }
      | .error _ => φ' = φ
  | spawnDaemon _, φ, r, φ' =>
      match r with
      | .ok () => φ' = { φ with child := true }
      | .error _ => φ' = φ
  -- A process can always wait for its child, and kill it.
  | tryWait, φ, r, φ' =>
      match r with
      | .ok status => φ' = { φ with child := status.isNone }
      | .error _ => False
  | killChild, φ, r, φ' => r = .ok () ∧ φ' = φ
  | waitChild, φ, r, φ' => r = .ok () ∧ φ' = { φ with child := false }
  | _, φ, _, φ' => φ' = φ

end HostCall

/-- The discipline of questions and answers. -/
def hearing : Prog.Spec Unit HostCall HostCall.Reply Hearing where
  pre c _ φ := c.Attends φ
  post c _ φ r φ' := c.Hears φ r φ'

/-! ## What the commands learn -/

/-- A later hearing of the same process. -/
structure Hearing.Later (φ φ' : Hearing) : Prop where
  floor : φ.floor ≤ φ'.floor
  heard : φ.heard ⊆ φ'.heard

namespace Hearing.Later

theorem refl (φ : Hearing) : φ.Later φ := ⟨Nat.le_refl _, List.Subset.refl _⟩

theorem trans {φ φ' φ'' : Hearing} (h : φ.Later φ') (h' : φ'.Later φ'') : φ.Later φ'' :=
  ⟨Nat.le_trans h.floor h'.floor, List.Subset.trans h.heard h'.heard⟩

end Hearing.Later

/-- The daemon of this epoch has granted the request. -/
structure SentAnswer.Grants (a : SentAnswer) (request : Request) : Prop where
  request : a.request = request
  granted : ∀ e, a.response ≠ .error e

/-- How `daemonRequest` ends. -/
structure Requested (request : Request) (φ φ' : Hearing) (r : Except Error Response) : Prop where
  later : φ.Later φ'
  child : φ'.child = φ.child
  granted : ∀ response, r = .ok response → ∃ a ∈ φ'.heard, a.Grants request ∧ φ.floor ≤ a.epoch ∧
    a.epoch ≤ φ'.floor

theorem daemonRequest_wp (request : Request) (φ : Hearing) :
    wp hearing (daemonRequest request) (fun _ r φ' => Requested request φ φ' r) () φ := by
  simp only [daemonRequest, host, wp_bind, wp_call]
  refine ⟨trivial, ?_⟩
  rintro (e | _) φ₁ hφ₁
  · obtain rfl : φ₁ = φ := hφ₁
    exact ⟨.refl _, rfl, by rintro _ ⟨⟩⟩
  obtain rfl : φ₁ = φ.asking request := hφ₁
  simp only [andThen_ok, wp_bind, wp_call, wp_lift]
  refine ⟨Option.some_ne_none _, ?_⟩
  rintro (e | answer) φ₂ hφ₂
  · obtain rfl : φ₂ = φ.asking request := hφ₂
    exact ⟨⟨Nat.le_refl _, List.Subset.refl _⟩, rfl, by rintro _ ⟨⟩⟩
  obtain ⟨a, rfl, hasked, hfloor, rfl⟩ := hφ₂
  have hrequest : a.request = request := (Option.some.inj hasked).symm
  have hlater : φ.Later { φ.asking request with
      floor := a.epoch, asked := none, heard := a :: φ.heard } :=
    ⟨hfloor, List.subset_cons_self _ _⟩
  simp only [andThen_ok]
  cases hresponse : a.response with
  | error e => exact ⟨hlater, rfl, by rintro _ ⟨⟩⟩
  | job | queue | log | info | ok =>
      refine ⟨hlater, rfl, fun _ _ => ⟨a, List.mem_cons_self, ⟨hrequest, ?_⟩, hfloor, Nat.le_refl _⟩⟩
      rw [hresponse]
      rintro _ ⟨⟩

/-- How `infoAnswered` ends. -/
structure Informed (φ φ' : Hearing) (r : Except Error Bool) : Prop where
  later : φ.Later φ'
  child : φ'.child = φ.child
  ok : ∃ answered, r = .ok answered
  granted : r = .ok true → ∃ a ∈ φ'.heard, a.Grants .info ∧ φ.floor ≤ a.epoch

theorem infoAnswered_wp (φ : Hearing) :
    wp hearing infoAnswered (fun _ r φ' => Informed φ φ' r) () φ := by
  simp only [infoAnswered, wp_bind, wp_attempt]
  refine wp_mono (daemonRequest_wp .info φ) ?_
  rintro _ (e | response) φ' ⟨hlater, hchild, hgranted⟩
  · exact ⟨hlater, hchild, ⟨false, rfl⟩, by rintro ⟨⟩⟩
  · refine ⟨hlater, hchild, ⟨true, rfl⟩, fun _ => ?_⟩
    obtain ⟨a, ha, hgrants, hfloor, _⟩ := hgranted response rfl
    exact ⟨a, ha, hgrants, hfloor⟩

/-- How `start` ends: with success only after a daemon has answered, and with an error only
    when it has no child. -/
structure Started (φ φ' : Hearing) (r : Except Error Unit) : Prop where
  later : φ.Later φ'
  granted : r = .ok () → ∃ a ∈ φ'.heard, a.Grants .info ∧ φ.floor ≤ a.epoch
  childless : ∀ e, r = .error e → φ'.child = false

theorem Started.later_than {φ φ' φ'' : Hearing} {r : Except Error Unit} (hlater : φ.Later φ')
    (h : Started φ' φ'' r) : Started φ φ'' r := by
  refine ⟨hlater.trans h.later, fun hr => ?_, h.childless⟩
  obtain ⟨a, ha, hgrants, hfloor⟩ := h.granted hr
  exact ⟨a, ha, hgrants, Nat.le_trans hlater.floor hfloor⟩

theorem awaitDaemon_wp (fuel : Nat) (φ : Hearing) (hchild : φ.child = true) :
    wp hearing (awaitDaemon fuel) (fun _ r φ' => Started φ φ' r) () φ := by
  induction fuel generalizing φ with
  | zero => exact ⟨trivial, fun never => nomatch never⟩
  | succ fuel ih =>
      simp only [awaitDaemon, wp_bind]
      refine wp_mono (infoAnswered_wp φ) ?_
      rintro _ r φ₁ ⟨hlater, hsame, ⟨answered, rfl⟩, hgranted⟩
      rw [hchild] at hsame
      cases answered with
      | true =>
          simp only [andThen_ok, if_true, host, wp_call]
          refine ⟨trivial, ?_⟩
          rintro _ φ₂ hφ₂
          obtain rfl : φ₂ = φ₁ := hφ₂
          exact ⟨hlater, fun _ => hgranted rfl, by rintro _ ⟨⟩⟩
      | false =>
          simp only [andThen_ok, Bool.false_eq_true, if_false, host, wp_bind, wp_call, wp_lift]
          refine ⟨hsame, ?_⟩
          rintro (e | _ | status) φ₂ hφ₂
          · exact hφ₂.elim
          · obtain rfl : φ₂ = { φ₁ with child := true } := hφ₂
            have hlater₂ : φ.Later { φ₁ with child := true } := ⟨hlater.floor, hlater.heard⟩
            simp only [andThen_ok, wp_bind, wp_call]
            refine ⟨trivial, ?_⟩
            rintro expired φ₃ hφ₃
            obtain rfl : φ₃ = { φ₁ with child := true } := hφ₃
            cases expired with
            | false =>
                refine ⟨trivial, ?_⟩
                rintro _ φ₄ hφ₄
                obtain rfl : φ₄ = { φ₁ with child := true } := hφ₄
                exact wp_mono (ih _ rfl) fun _ _ _ h => h.later_than hlater₂
            | true =>
                refine ⟨rfl, ?_⟩
                rintro _ φ₄ ⟨rfl, rfl⟩
                refine ⟨rfl, ?_⟩
                rintro _ φ₅ ⟨rfl, rfl⟩
                exact ⟨⟨hlater.floor, hlater.heard⟩, by rintro ⟨⟩, fun _ _ => rfl⟩
          · obtain rfl : φ₂ = { φ₁ with child := false } := hφ₂
            exact ⟨⟨hlater.floor, hlater.heard⟩, by rintro ⟨⟩, fun _ _ => rfl⟩

theorem startCommand_wp (fuel : Nat) (args : DaemonArgs) (φ : Hearing)
    (hchild : φ.child = false) :
    wp hearing (startCommand fuel args) (fun _ r φ' => Started φ φ' r) () φ := by
  simp only [startCommand, wp_bind]
  refine wp_mono (infoAnswered_wp φ) ?_
  rintro _ r φ₁ ⟨hlater, hsame, ⟨answered, rfl⟩, hgranted⟩
  rw [hchild] at hsame
  have hfails : ∀ e, Started φ φ₁ (.error e) := fun e =>
    ⟨hlater, by rintro ⟨⟩, fun _ _ => hsame⟩
  cases answered with
  | true =>
      simp only [andThen_ok, if_true, host, wp_call]
      refine ⟨trivial, ?_⟩
      rintro _ φ₂ hφ₂
      obtain rfl : φ₂ = φ₁ := hφ₂
      exact ⟨hlater, fun _ => hgranted rfl, by rintro _ ⟨⟩⟩
  | false =>
      simp only [andThen_ok, Bool.false_eq_true, if_false, wp_bind, wp_ensure]
      refine ⟨fun _ => ?_, fun _ => hfails _⟩
      simp only [andThen_ok, host, wp_bind, wp_call, wp_lift]
      refine ⟨trivial, ?_⟩
      rintro (e | _) φ₂ hφ₂ <;> obtain rfl : φ₂ = φ₁ := hφ₂
      · exact hfails e
      simp only [andThen_ok, wp_bind, wp_call, wp_lift]
      refine ⟨trivial, ?_⟩
      rintro (e | _) φ₃ hφ₃ <;> obtain rfl : φ₃ = φ₂ := hφ₃
      · exact hfails e
      simp only [andThen_ok, wp_bind, wp_call, wp_lift]
      refine ⟨hsame, ?_⟩
      rintro (e | _) φ₄ hφ₄
      · obtain rfl : φ₄ = φ₃ := hφ₄
        exact hfails e
      · obtain rfl : φ₄ = { φ₃ with child := true } := hφ₄
        have hlater₄ : φ.Later { φ₃ with child := true } := ⟨hlater.floor, hlater.heard⟩
        exact wp_mono (awaitDaemon_wp fuel _ rfl) fun _ _ _ h => h.later_than hlater₄

/-- How `restart` waits for the lock: once it has seen it free, a later epoch has begun. -/
structure Unlocked (φ φ' : Hearing) (r : Except Error Unit) : Prop where
  later : φ.Later φ'
  child : φ'.child = φ.child
  passed : r = .ok () → φ.floor < φ'.floor

theorem awaitUnlocked_wp (fuel : Nat) (φ : Hearing) :
    wp hearing (awaitUnlocked fuel) (fun _ r φ' => Unlocked φ φ' r) () φ := by
  induction fuel generalizing φ with
  | zero => exact ⟨trivial, fun never => nomatch never⟩
  | succ fuel ih =>
      simp only [awaitUnlocked, host, wp_bind, wp_call]
      refine ⟨trivial, ?_⟩
      rintro (e | _ | _) φ₁ hφ₁
      · obtain rfl : φ₁ = φ := hφ₁
        exact ⟨.refl _, rfl, by rintro ⟨⟩⟩
      · obtain rfl : φ₁ = φ := hφ₁
        refine ⟨trivial, ?_⟩
        rintro expired φ₂ hφ₂
        obtain rfl : φ₂ = φ₁ := hφ₂
        cases expired with
        | true => exact ⟨.refl _, rfl, by rintro ⟨⟩⟩
        | false =>
            refine ⟨trivial, ?_⟩
            rintro _ φ₃ hφ₃
            obtain rfl : φ₃ = φ₂ := hφ₃
            exact ih φ₃
      · obtain ⟨n, hn, rfl⟩ : ∃ n, φ.floor < n ∧ φ₁ = { φ with floor := n, asked := none } := hφ₁
        refine ⟨trivial, ?_⟩
        rintro _ φ₂ hφ₂
        obtain rfl : φ₂ = { φ with floor := n, asked := none } := hφ₂
        exact ⟨⟨Nat.le_of_lt hn, List.Subset.refl _⟩, rfl, fun _ => hn⟩

/-- How `restart` ends. -/
structure Restarted (φ' : Hearing) (r : Except Error Unit) : Prop where
  granted : r = .ok () → ∃ a ∈ φ'.heard, ∃ a' ∈ φ'.heard, a.Grants .restart ∧ a'.Grants .info ∧
    a.epoch < a'.epoch
  childless : ∀ e, r = .error e → φ'.child = false

theorem restartCommand_wp (fuel : Nat) (args : DaemonArgs) (φ : Hearing)
    (hchild : φ.child = false) :
    wp hearing (restartCommand fuel args) (fun _ r φ' => Restarted φ' r) () φ := by
  simp only [restartCommand, wp_bind]
  refine wp_mono (daemonRequest_wp .restart φ) ?_
  rintro _ (e | response) φ₁ ⟨hlater, hsame, hgranted⟩
  · exact ⟨by rintro ⟨⟩, fun _ _ => hsame.trans hchild⟩
  obtain ⟨a, ha, hgrants, _, hfloor⟩ := hgranted response rfl
  simp only [andThen_ok, wp_bind]
  refine wp_mono (awaitUnlocked_wp fuel φ₁) ?_
  rintro _ (e | _) φ₂ ⟨hlater₂, hsame₂, hpassed⟩
  · exact ⟨by rintro ⟨⟩, fun _ _ => (hsame₂.trans hsame).trans hchild⟩
  simp only [andThen_ok]
  refine wp_mono (startCommand_wp fuel args φ₂ ((hsame₂.trans hsame).trans hchild)) ?_
  rintro _ r φ₃ hstarted
  refine ⟨fun hr => ?_, hstarted.childless⟩
  obtain ⟨a', ha', hgrants', hfloor'⟩ := hstarted.granted hr
  have hepoch : a.epoch < a'.epoch :=
    Nat.lt_of_le_of_lt hfloor (Nat.lt_of_lt_of_le (hpassed rfl) hfloor')
  exact ⟨a, hstarted.later.heard (hlater₂.heard ha), a', ha', hgrants, hgrants', hepoch⟩

/-! ## What the daemon says -/

/-- The calls of a scheduler, as far as its answers are concerned. -/
def answering (σ : Type) : Prog.Spec σ Sys Sys.Reply (Option Decision) where
  pre _ _ _ := True
  post c _ d _ d' := d' = c.decision.or d

/-- Of the calls of the handlers, only a recorded answer is followed. -/
def deciding : Prog.Spec Scheduler Call Call.Reply (Option Decision) where
  pre _ _ _ := True
  post c _ _ _ d' := ∀ event decision, c = .note event → event.decision = some decision →
    d' = some decision

theorem handler_decides (pid : Nat) :
    Prog.Safe.Implements deciding (answering (Scheduler × ProcessExecutor)) id (fun _ => True)
      (handler pid) := by
  intro c s e d _ _
  by_cases hnote : ∃ event, c = .note event
  · obtain ⟨event, rfl⟩ := hnote
    refine ⟨trivial, ?_⟩
    rintro r d' hd'
    refine ⟨trivial, ?_⟩
    rintro _ decision ⟨⟩ hdecision
    rw [show d' = event.decision.or d from hd', hdecision]
    rfl
  · refine Prog.Safe.mono (Prog.Safe.of_pre (fun _ _ _ => trivial) _ _) fun _ _ _ _ => ⟨trivial, ?_⟩
    rintro event _ rfl _
    exact absurd ⟨event, rfl⟩ hnote

/-- A request is answered with what the scheduler has recorded for it. -/
theorem answerOp_decides (uid gid : Nat) (request : Request) (s : Scheduler)
    (d : Option Decision) :
    wp deciding (answerOp euid uid gid request) (fun _ r d' => ∀ response next,
      r = .ok (response, next) → d' = some ⟨uid, gid, request, response⟩) s d := by
  simp only [answerOp, serveAnswer, note, wp_bind, wp_get, andThen_ok, wp_call, wp_attempt]
  refine ⟨trivial, ?_⟩
  rintro _ d₁ _
  refine wp_mono (Prog.Safe.of_pre (fun _ _ _ => trivial) _ _) ?_
  rintro s₁ result d₂ _
  simp only [andThen_ok, wp_bind, wp_get, wp_call, wp_pure]
  refine ⟨trivial, ?_⟩
  rintro _ d₃ hd₃ response next ⟨⟩
  exact hd₃ _ _ rfl rfl

theorem answerCalls_decides (uid gid : Nat) (request : Request) (st : Daemon)
    (d : Option Decision) :
    (answerCalls euid pid uid gid request st).Safe (answering _) (fun _ r d' => ∀ response next,
      r = .ok (response, next) → d' = some ⟨uid, gid, request, response⟩) d :=
  Prog.Safe.mono (Prog.Safe.interp (handler_decides pid)
    (answerOp_decides uid gid request st.1 d) trivial st.2) fun _ _ _ h => h.2

/-- The calls of `serve` that need nothing. -/
def HostCall.unasked : HostCall → Bool
  | sendError _ | sendResponse _ | response | spawnDaemon _ | tryWait | killChild
  | waitChild => false
  | _ => true

/-- A computation that needs nothing. -/
abbrev Attentive {α : Type} (x : Host α) : Prop := Keeps hearing (fun _ _ => True) x

namespace Attentive

theorem host {c : HostCall} (hc : c.unasked = true) : Attentive (host c) := by
  apply Keeps.call
  · intro _ φ _
    cases c <;> first | exact trivial | cases hc
  · exact fun _ _ _ _ _ _ => trivial

theorem attempt {α : Type} {x : Host α} (hx : Attentive x) : Attentive (attempt x) := by
  intro s φ hφ
  rw [wp_attempt]
  exact hx s φ hφ

/-- The scheduler says nothing to clients by itself. -/
theorem scheduled_wp {α : Type} {prog : Scheduled α} {φ : Hearing}
    {Q : Daemon → Except Error α → Option Decision → Prop}
    (hprog : prog.Safe (answering _) Q φ.decided) :
    wp hearing (scheduled prog) (fun _ r φ' => ∃ d, φ' = { φ with decided := d } ∧
      ∀ st a, r = .ok (st, a) → Q st (.ok a) d) () φ := by
  induction prog generalizing φ with
  | ret st r =>
      refine match r with
        | .error e => ⟨φ.decided, rfl, ?_⟩
        | .ok a => ⟨φ.decided, rfl, ?_⟩
      · rintro _ _ ⟨⟩
      · rintro _ _ ⟨⟩
        exact hprog
  | call st c k ih =>
      refine ⟨trivial, ?_⟩
      rintro r φ' hφ'
      obtain rfl : φ' = { φ with decided := c.decision.or φ.decided } := hφ'
      exact ih r (φ := { φ with decided := c.decision.or φ.decided }) (hprog.2 r _ rfl)

theorem scheduled {α : Type} (prog : Scheduled α) : Attentive (scheduled prog) :=
  fun _ _ _ => wp_mono (scheduled_wp (Prog.Safe.of_pre (fun _ _ _ => trivial) _ _))
    fun _ _ _ _ => trivial

theorem operation (op : Op) (st : Daemon) : Attentive (operation euid pid op st) :=
  Keeps.bind (host rfl) fun _ => scheduled _

/-- An accepted client gets the answer to its own request, computed for its own credentials. -/
theorem serveClient (st : Daemon) (φ : Hearing) (hclient : φ.client = true) :
    wp hearing (serveClient euid pid st) (fun _ _ _ => True) () φ := by
  simp only [Xlurm.serveClient, Xlurm.host, wp_bind, wp_call]
  refine ⟨trivial, ?_⟩
  rintro (e | _) φ₁ hφ₁ <;> obtain rfl : φ₁ = φ := hφ₁
  · exact trivial
  refine ⟨trivial, ?_⟩
  rintro (e | _) φ₂ hφ₂ <;> obtain rfl : φ₂ = φ₁ := hφ₂
  · exact trivial
  refine ⟨trivial, ?_⟩
  rintro (e | ⟨uid, gid⟩) φ₃ hφ₃
  · obtain rfl : φ₃ = φ₂ := hφ₃
    exact ⟨hclient, fun _ _ _ => trivial⟩
  obtain rfl : φ₃ = { φ₂ with peer := some (uid, gid) } := hφ₃
  refine ⟨trivial, ?_⟩
  rintro (e | request) φ₄ hφ₄
  · obtain rfl : φ₄ = { φ₂ with peer := some (uid, gid) } := hφ₄
    exact ⟨hclient, fun _ _ _ => trivial⟩
  obtain rfl : φ₄ = { φ₂ with
    peer := some (uid, gid), received := some request, decided := none } := hφ₄
  refine ⟨trivial, ?_⟩
  rintro _ φ₅ hφ₅
  obtain rfl : φ₅ = { φ₂ with
    peer := some (uid, gid), received := some request, decided := none } := hφ₅
  apply wp_bind_of (scheduled_wp (answerCalls_decides uid gid request st _))
  · rintro _ ⟨st', response, next⟩ φ₆ ⟨d, rfl, hdecided⟩
    have hd := hdecided st' (response, next) rfl response next rfl
    exact ⟨⟨hclient, uid, gid, request, rfl, rfl, hd⟩, fun _ _ _ => trivial⟩
  · exact fun _ _ _ _ => trivial

theorem serveClients (n : Nat) (st : Daemon) : Attentive (serveClients euid pid n st) := by
  induction n generalizing st with
  | zero => exact Keeps.pure _
  | succ n ih =>
      intro s φ _
      refine (wp_bind _ _ _).mpr ⟨trivial, ?_⟩
      rintro (_ | _ | e) φ' hφ'
      · obtain rfl : φ' = φ.accepted := hφ'
        refine wp_bind_of (serveClient st _ rfl) ?_ fun _ _ _ _ => trivial
        rintro _ ⟨st', _ | _⟩ φ'' _
        · exact ih st' () φ'' trivial
        · exact trivial
      · exact trivial
      · exact trivial

theorem serveMain (fuel : Nat) (st : Daemon) : Attentive (serveMain euid pid fuel st) := by
  induction fuel generalizing st with
  | zero => exact Keeps.bind (host rfl) fun never => nomatch never
  | succ fuel ih =>
      apply Keeps.bind (host rfl)
      rintro (_ | _)
      · apply Keeps.bind (serveClients 16 st)
        rintro ⟨st₁, _ | _⟩
        · apply Keeps.bind
          · apply Keeps.bind (host rfl)
            rintro (_ | _)
            · exact Keeps.pure _
            · exact Keeps.bind (host rfl) fun _ => Keeps.bind (operation _ _) fun _ => Keeps.pure _
          · intro st₂
            apply Keeps.bind (operation _ _)
            rintro ⟨st₃, _⟩
            apply Keeps.bind
            · apply Keeps.bind (host rfl)
              rintro (_ | _)
              · exact Keeps.pure _
              · exact Keeps.bind (operation _ _) fun _ => Keeps.pure _
            · intro st₄
              apply Keeps.bind (host rfl)
              intro polled
              exact Keeps.bind (Keeps.lift _) fun _ => ih st₄
        · exact Keeps.pure _
      · exact Keeps.pure _

theorem serveProcess (fuel : Nat) (args : DaemonArgs) :
    Attentive (serveProcess euid pid fuel args) := by
  have hbound : ∀ st, Attentive (serveBound euid pid fuel st) := by
    intro st
    apply Keeps.bind (host rfl)
    intro permissions
    apply Keeps.bind (Keeps.lift _)
    intro _
    apply Keeps.bind (host rfl)
    intro nonblocking
    apply Keeps.bind (Keeps.lift _)
    intro _
    apply Keeps.bind (attempt (serveMain fuel st))
    intro result
    exact Keeps.bind (host rfl) fun _ => Keeps.lift _
  have hbind : ∀ st, Attentive (do
      lift (← Xlurm.host .bind)
      let result ← Prog.Comp.attempt (serveBound euid pid fuel st)
      Xlurm.host .closeListener
      lift result) := by
    intro st
    apply Keeps.bind (host rfl)
    intro bound
    apply Keeps.bind (Keeps.lift _)
    intro _
    apply Keeps.bind (attempt (hbound st))
    intro result
    exact Keeps.bind (host rfl) fun _ => Keeps.lift _
  have hsocket : ∀ st, Attentive (serveSocket euid pid fuel st) := by
    intro st
    apply Keeps.bind (host rfl)
    rintro (_ | _)
    · exact hbind st
    · apply Keeps.bind (host rfl)
      intro removed
      exact Keeps.bind (Keeps.lift _) fun _ => hbind st
  have hlocked : Attentive (serveLocked euid pid fuel args) := by
    apply Keeps.bind (host rfl)
    intro installed
    apply Keeps.bind (Keeps.lift _)
    intro _
    apply Keeps.bind (host rfl)
    intro discovered
    apply Keeps.bind (Keeps.lift _)
    intro inventory
    apply Keeps.bind (host rfl)
    intro new
    apply Keeps.bind (Keeps.lift _)
    intro s
    exact Keeps.bind (scheduled _) fun next => hsocket next.1
  apply Keeps.bind (host rfl)
  intro initialized
  apply Keeps.bind (Keeps.lift _)
  intro _
  apply Keeps.bind (host rfl)
  intro tried
  apply Keeps.bind (Keeps.lift _)
  rintro (_ | _)
  · exact Keeps.lift _
  · apply Keeps.bind (attempt hlocked)
    intro result
    exact Keeps.bind (host rfl) fun _ => Keeps.lift _

end Attentive

end Xlurm
