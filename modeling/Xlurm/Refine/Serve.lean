/-
  Xlurm.Refine.Serve

  Whoever acts for the daemon holds its lock: the discipline of `serve`, and what
  it gives for every run of the machine.

  A process has the lock before it creates the scheduler, touches the socket or
  serves a client, and gives it up when all of that is over.  So the machine with
  its many processes goes through states of the system with one daemon.
-/

import Xlurm.Refine.Processes
import Xlurm.Refine.System

namespace Xlurm

open Prog.Comp
open Relation (ReflTransGen)

variable {euid pid : Nat}

/-! ## Stages -/

/-- What the system has for a daemon with this program: nothing once `serve` is to end. -/
def DaemonProg.running : DaemonProg → Option DaemonProg
  | .ret _ (.error _) => none
  | .ret _ (.ok .stop) => none
  | prog => some prog

/-- How far a process has got. -/
structure Stage where
  /-- It holds the lock. -/
  locked : Bool
  /-- It has made sure that the socket has no name. -/
  clear : Bool
  listens : Bool
  /-- The name of the socket leads to its listener. -/
  named : Bool
  /-- What is left of the scheduler's program. -/
  daemon : Option DaemonProg
  /-- The requests since the last tick. -/
  requests : Nat

namespace Stage

def first : Stage := ⟨false, false, false, false, none, 0⟩

/-- The scheduler is not in the middle of an operation. -/
def Quiet (φ : Stage) : Prop := ∀ st c k, φ.daemon ≠ some (.call st c k)

/-- The scheduler can begin an operation. -/
def Idle (φ : Stage) (st : Daemon) : Prop := φ.daemon = some (.ret st (.ok .loop))

/-- It serves clients. -/
def Serves (φ : Stage) : Prop := φ.locked = true ∧ φ.listens = true ∧ φ.named = true

end Stage

/-- The requests since the last tick, when one more operation begins. -/
def Op.requestsAfter (n : Nat) : Op → Nat
  | request _ _ _ => n + 1
  | tick => 0
  | cleanup | refresh _ _ => n

namespace HostCall

/-- What `serve` has to ensure before a call. -/
def Needs : HostCall → Stage → Prop
  | tryLock, φ => φ.locked = false
  | unlock, φ => φ.locked = true ∧ φ.listens = false ∧ φ.Quiet
  | newScheduler _ _, φ => φ.locked = true ∧ φ.daemon = none
  | socketExists, φ => φ.locked = true
  | removeSocket, φ => φ.locked = true ∧ (φ.listens = true → φ.named = true)
  | bind, φ => φ.locked = true ∧ φ.clear = true ∧ φ.listens = false
  | closeListener, φ => φ.locked = true ∧ φ.listens = true
  | accept, φ | peer, φ | receive, φ | sendError _, φ | sendResponse _, φ | poll, φ => φ.Serves
  | begin op, φ => φ.Serves ∧ (∃ st, φ.Idle st) ∧ op.requestsAfter φ.requests ≤ 16
  | sys c, φ => φ.locked = true ∧ ∃ st k, φ.daemon = some (.call st c k)
  | _, _ => True

/-- Where a call leads. -/
def Leads (euid pid : Nat) : (c : HostCall) → Stage → c.Reply → Stage → Prop
  | tryLock, φ, r, φ' => φ' = if r = .ok true then { φ with locked := true } else φ
  | unlock, φ, _, φ' => φ' = { φ with locked := false, clear := false, daemon := none }
  | newScheduler _ args, φ, r, φ' =>
      φ' = match r with
        | .ok s =>
            { φ with
              daemon := (bootCalls pid args.excludeDeviceIds s).running
              requests := 0 }
        | .error _ => φ
  | socketExists, φ, b, φ' => φ' = { φ with clear := !b }
  | removeSocket, φ, r, φ' =>
      φ' = match r with
        | .ok () => { φ with clear := true, named := false }
        | .error _ => φ
  | bind, φ, r, φ' =>
      φ' = match r with
        | .ok () => { φ with clear := false, listens := true, named := true }
        | .error _ => φ
  | closeListener, φ, _, φ' => φ' = { φ with listens := false, named := false }
  | begin op, φ, _, φ' => ∃ st, φ.Idle st ∧
      φ' = { φ with
        daemon := (opCalls euid pid op st).running
        requests := op.requestsAfter φ.requests }
  | sys c, φ, r, φ' => ∃ st k, φ.daemon = some (.call st c k) ∧
      φ' = { φ with daemon := DaemonProg.running (k r) }
  | _, φ, _, φ' => φ' = φ

end HostCall

/-- The discipline of the lock. -/
def ownership (euid pid : Nat) : Prog.Spec Unit HostCall HostCall.Reply Stage where
  pre c _ φ := c.Needs φ
  post c _ φ r φ' := c.Leads euid pid φ r φ'

/-! ## The programs keep to the discipline -/

/-- Whatever its calls reply, the program returns a value in `P`. -/
def Scheduled.Returns {α : Type} (P : α → Prop) (prog : Scheduled α) : Prop :=
  prog.Safe (Prog.Spec.any _ _ _) (fun _ r _ => ∀ a, r = .ok a → P a) ()

theorem Scheduled.returns {α : Type} (prog : Scheduled α) : prog.Returns fun _ => True :=
  Prog.Safe.mono (Prog.Safe.any _) fun _ _ _ _ _ _ => trivial

theorem Scheduled.map_id {α : Type} (prog : Scheduled α) : prog = prog.map (Except.map id) := by
  rw [Except.map_id, Prog.map_id]

/-- A part of `serve` that lets the scheduler work; of its value, the system knows `f`. -/
theorem scheduled_wp {α : Type} {P : α → Prop} {prog : Scheduled α} {f : α → Next}
    {daemon : DaemonProg} (hdaemon : daemon = prog.map (Except.map f)) {φ : Stage}
    {Q : Unit → Except Error (Daemon × α) → Stage → Prop} (hlocked : φ.locked = true)
    (hreturns : prog.Returns P)
    (hok : ∀ st a, P a → Q () (.ok (st, a))
      { φ with daemon := DaemonProg.running (.ret st (.ok (f a))) })
    (herr : ∀ e, Q () (.error e) { φ with daemon := none }) :
    wp (ownership euid pid) (scheduled prog) Q () { φ with daemon := daemon.running } := by
  subst hdaemon
  induction prog with
  | ret st r =>
      cases r with
      | error e => exact herr e
      | ok a => exact hok st a (hreturns a rfl)
  | call st c k ih =>
      refine ⟨⟨hlocked, st, fun r => (k r).map (Except.map f), rfl⟩, ?_⟩
      rintro r φ' ⟨st', k', hk, rfl⟩
      cases hk
      exact ih r (hreturns.2 r () trivial)

/-- An operation of the main loop that is not a request. -/
def Op.internal : Op → Bool
  | request _ _ _ => false
  | tick | cleanup | refresh _ _ => true

/-- Go on after a computation of which nothing is known. -/
theorem wp_bind_any {σ ι ε α β : Type} {ρ : ι → Type} {x : Prog.Comp σ ι ρ ε α}
    {f : α → Prog.Comp σ ι ρ ε β} {P : β → Prop} {s : σ}
    (hf : ∀ a s, wp (Prog.Spec.any σ ι ρ) (f a) (fun _ r _ => ∀ b, r = .ok b → P b) s ()) :
    wp (Prog.Spec.any σ ι ρ) (x >>= f) (fun _ r _ => ∀ b, r = .ok b → P b) s () :=
  wp_bind_of (Prog.Safe.any (x s)) (fun s a _ _ => hf a s) fun _ _ _ _ _ => nofun

/-- Only a request ends the main loop. -/
theorem opCalls_returns {op : Op} (hop : op.internal = true) (st : Daemon) :
    Scheduled.Returns (· = .loop) (opCalls euid pid op st) := by
  apply Prog.Safe.interp_any
  apply wp_bind_any
  intro s s'
  apply wp_bind_any
  intro _ s''
  cases op with
  | request => cases hop
  | tick | cleanup | refresh =>
      apply wp_bind_any
      rintro _ _ next ⟨⟩
      rfl

/-- The calls before the main loop do not end it. -/
theorem bootCalls_returns (excluded : List Nat) (s : Scheduler) :
    Scheduled.Returns (· = .loop) (bootCalls pid excluded s) := by
  apply Prog.Safe.interp_any
  iterate 5
    apply wp_bind_any
    intro _ _
  rintro next ⟨⟩
  rfl

/-- The system does not know the response to a request. -/
theorem opCalls_request (euid pid uid gid : Nat) (request : Request) (st : Daemon) :
    opCalls euid pid (.request uid gid request) st =
      (answerCalls euid pid uid gid request st).map (Except.map Prod.snd) := by
  rw [opCalls, answerCalls, ← Prog.interp_map]
  have hanswer : ∀ s, serveRequest euid uid gid request s =
      (serveAnswer euid uid gid request s).map (Except.map Prod.snd) :=
    fun s => bind_pure_comp _ Prod.snd s
  have hop : serveOp euid (.request uid gid request) st.1 =
      Prog.call st.1 (Call.note (.began (.request uid gid request) st.1.store)) fun _ =>
        (serveRequest euid uid gid request) st.1 := rfl
  rw [hop]
  simp only [hanswer]
  rfl

/-- After a part of the main loop: the scheduler waits for its next operation, or is to end. -/
def Stage.After (n : Nat) : Except Error (Daemon × Next) → Stage → Prop
  | .ok (st, .loop), φ => φ.Serves ∧ φ.Idle st ∧ φ.requests ≤ n
  | _, φ => φ.Serves ∧ φ.Quiet

theorem Stage.Idle.quiet {φ : Stage} {st : Daemon} (h : φ.Idle st) : φ.Quiet := by
  intro st' c k hcall
  rw [Stage.Idle, hcall] at h
  cases h

theorem Stage.quiet {φ : Stage} (hdaemon : φ.daemon = none) : φ.Quiet := by
  intro st c k hcall
  rw [hdaemon] at hcall
  cases hcall

theorem Stage.After.over {φ : Stage} {n : Nat} {r : Except Error (Daemon × Next)}
    (h : φ.After n r) : φ.Serves ∧ φ.Quiet := by
  rcases r with e | ⟨st, next⟩
  · exact h
  · cases next
    · exact ⟨h.1, h.2.1.quiet⟩
    · exact h

theorem operation_wp {P : Next → Prop} (op : Op) {st : Daemon} {φ : Stage}
    (hserves : φ.Serves) (hidle : φ.Idle st) (hbound : op.requestsAfter φ.requests ≤ 16)
    (hreturns : Scheduled.Returns P (opCalls euid pid op st)) :
    wp (ownership euid pid) (operation euid pid op st)
      (fun _ r φ' => φ'.After (op.requestsAfter φ.requests) r ∧
        ∀ st next, r = .ok (st, next) → P next) () φ := by
  simp only [operation, host, wp_bind, wp_call, andThen_ok]
  refine ⟨⟨hserves, ⟨st, hidle⟩, hbound⟩, ?_⟩
  rintro _ φ' ⟨st', hidle', rfl⟩
  rw [Stage.Idle, hidle] at hidle'
  cases hidle'
  apply scheduled_wp (Scheduled.map_id _)
    (φ := { φ with requests := op.requestsAfter φ.requests }) hserves.1 hreturns
  · intro st' next hP
    refine ⟨?_, ?_⟩
    · cases next
      · exact ⟨hserves, rfl, Nat.le_refl _⟩
      · exact ⟨hserves, Stage.quiet rfl⟩
    · rintro _ _ ⟨⟩
      exact hP
  · intro e
    refine ⟨⟨hserves, Stage.quiet rfl⟩, ?_⟩
    rintro _ _ ⟨⟩

theorem serveClient_wp {st : Daemon} {φ : Stage} (hserves : φ.Serves) (hidle : φ.Idle st)
    (hbound : φ.requests < 16) :
    wp (ownership euid pid) (serveClient euid pid st)
      (fun _ r φ' => φ'.After (φ.requests + 1) r) () φ := by
  have hback : φ.After (φ.requests + 1) (.ok (st, .loop)) := ⟨hserves, hidle, Nat.le_succ _⟩
  simp only [serveClient, wp_bind, host, wp_call, wp_lift, andThen_ok]
  refine ⟨trivial, ?_⟩
  rintro (e | _) _ rfl
  · exact hback.over
  simp only [andThen_ok, wp_bind, wp_call, wp_lift]
  refine ⟨trivial, ?_⟩
  rintro (e | _) _ rfl
  · exact hback.over
  simp only [andThen_ok, wp_bind, wp_call]
  refine ⟨hserves, ?_⟩
  rintro (e | ⟨uid, gid⟩) _ rfl
  · simp only [andThen_ok, wp_bind, wp_call, wp_pure]
    refine ⟨hserves, ?_⟩
    rintro _ _ rfl
    exact hback
  · simp only [andThen_ok, wp_bind, wp_call]
    refine ⟨hserves, ?_⟩
    rintro (e | request) _ rfl
    · simp only [andThen_ok, wp_bind, wp_call, wp_pure]
      refine ⟨hserves, ?_⟩
      rintro _ _ rfl
      exact hback
    · simp only [andThen_ok, wp_bind, wp_call]
      refine ⟨⟨hserves, ⟨st, hidle⟩, hbound⟩, ?_⟩
      rintro _ φ' ⟨st', hidle', rfl⟩
      rw [Stage.Idle, hidle] at hidle'
      cases hidle'
      apply scheduled_wp (opCalls_request euid pid uid gid request st) (φ := ⟨_, _, _, _, none, _⟩)
        hserves.1 (Scheduled.returns _)
      · rintro st' ⟨response, next⟩ _
        simp only [andThen_ok, wp_bind, wp_call, wp_pure]
        refine ⟨hserves, ?_⟩
        rintro _ _ rfl
        cases next
        · exact ⟨hserves, rfl, Nat.le_refl _⟩
        · exact ⟨hserves, Stage.quiet rfl⟩
      · exact fun e => ⟨hserves, Stage.quiet rfl⟩

theorem serveClients_wp {n : Nat} {st : Daemon} {φ : Stage} (hserves : φ.Serves)
    (hidle : φ.Idle st) (hbound : φ.requests + n ≤ 16) :
    wp (ownership euid pid) (serveClients euid pid n st) (fun _ r φ' => φ'.After 16 r) () φ := by
  induction n generalizing st φ with
  | zero => exact ⟨hserves, hidle, hbound⟩
  | succ n ih =>
      simp only [serveClients, wp_bind, host, wp_call]
      refine ⟨hserves, ?_⟩
      rintro accepted _ rfl
      cases accepted with
      | wouldBlock => exact ⟨hserves, hidle, by omega⟩
      | error e => exact ⟨hserves, hidle.quiet⟩
      | client =>
          simp only [andThen_ok]
          apply wp_bind_of (serveClient_wp hserves hidle (by omega))
          · rintro _ ⟨st', next⟩ φ' hafter
            cases next with
            | loop => exact ih hafter.1 hafter.2.1 (by have := hafter.2.2; omega)
            | stop => exact hafter
          · exact fun _ _ _ hafter => hafter

/-- An operation that is not a request, between others of the main loop. -/
theorem operation_loop {α : Type} {op : Op} {st : Daemon} {φ : Stage} {n : Nat}
    {f : Daemon × Next → Host α} {Q : Unit → Except Error α → Stage → Prop}
    (hop : op.internal = true) (hserves : φ.Serves) (hidle : φ.Idle st)
    (hn : op.requestsAfter φ.requests ≤ n) (hbound : n ≤ 16)
    (hok : ∀ st' φ', φ'.Serves → φ'.Idle st' → φ'.requests ≤ n →
      wp (ownership euid pid) (f (st', .loop)) Q () φ')
    (herr : ∀ e φ', φ'.Serves → φ'.Quiet → Q () (.error e) φ') :
    wp (ownership euid pid) (operation euid pid op st >>= f) Q () φ := by
  apply wp_bind_of (operation_wp _ hserves hidle (Nat.le_trans hn hbound) (opCalls_returns hop st))
  · rintro _ ⟨st', next⟩ φ' ⟨hafter, hnext⟩
    cases hnext st' next rfl
    exact hok st' φ' hafter.1 hafter.2.1 (Nat.le_trans hafter.2.2 hn)
  · exact fun _ e φ' hafter => herr e φ' hafter.1.1 hafter.1.2

/-- The main loop, between its operations. -/
def Stage.Loops (n : Nat) : Except Error Daemon → Stage → Prop
  | .ok st, φ => φ.Serves ∧ φ.Idle st ∧ φ.requests ≤ n
  | .error _, φ => φ.Serves ∧ φ.Quiet

theorem serveRefresh_wp {st : Daemon} {φ : Stage} {n : Nat} (hserves : φ.Serves)
    (hidle : φ.Idle st) (hn : φ.requests ≤ n) (hbound : n ≤ 16) :
    wp (ownership euid pid) (serveRefresh euid pid st) (fun _ r φ' => φ'.Loops n r) () φ := by
  simp only [serveRefresh, host, wp_bind, wp_call]
  refine ⟨trivial, ?_⟩
  rintro (_ | _) _ rfl
  · exact ⟨hserves, hidle, hn⟩
  · simp only [andThen_ok, if_true]
    refine (wp_bind _ _ _).mpr ⟨trivial, ?_⟩
    rintro ⟨status, monitoringErrors⟩ _ rfl
    apply operation_loop rfl hserves hidle hn hbound
    · exact fun st' φ' hserves' hidle' hn' => ⟨hserves', hidle', hn'⟩
    · exact fun _ φ' hserves' hquiet => ⟨hserves', hquiet⟩

theorem serveSweep_wp {st : Daemon} {φ : Stage} {n : Nat} (hserves : φ.Serves)
    (hidle : φ.Idle st) (hn : φ.requests ≤ n) (hbound : n ≤ 16) :
    wp (ownership euid pid) (serveSweep euid pid st) (fun _ r φ' => φ'.Loops n r) () φ := by
  simp only [serveSweep, host, wp_bind, wp_call]
  refine ⟨trivial, ?_⟩
  rintro (_ | _) _ rfl
  · exact ⟨hserves, hidle, hn⟩
  · simp only [andThen_ok, if_true]
    apply operation_loop rfl hserves hidle hn hbound
    · exact fun st' φ' hserves' hidle' hn' => ⟨hserves', hidle', hn'⟩
    · exact fun _ φ' hserves' hquiet => ⟨hserves', hquiet⟩

theorem hang_wp {Q : Unit → Except Error Unit → Stage → Prop} (φ : Stage) :
    wp (ownership euid pid) hang Q () φ :=
  ⟨trivial, fun never => nomatch never⟩

/-- The main loop serves at most 16 clients before it ticks again. -/
theorem serveMain_wp {fuel : Nat} {st : Daemon} {φ : Stage} (hserves : φ.Serves)
    (hidle : φ.Idle st) (hfresh : φ.requests = 0) :
    wp (ownership euid pid) (serveMain euid pid fuel st)
      (fun _ _ φ' => φ'.Serves ∧ φ'.Quiet) () φ := by
  induction fuel generalizing st φ with
  | zero => exact hang_wp φ
  | succ fuel ih =>
      simp only [serveMain, host, wp_bind, wp_call]
      refine ⟨trivial, ?_⟩
      rintro (_ | _) _ rfl
      · simp only [andThen_ok, Bool.false_eq_true, if_false]
        apply wp_bind_of (serveClients_wp hserves hidle (by omega))
        · rintro _ ⟨st₁, next⟩ φ₁ hafter
          cases next with
          | stop => exact hafter
          | loop =>
              obtain ⟨hserves₁, hidle₁, hn₁⟩ := hafter
              apply wp_bind_of (serveRefresh_wp hserves₁ hidle₁ hn₁ (Nat.le_refl _))
              · rintro _ st₂ φ₂ ⟨hserves₂, hidle₂, _⟩
                apply operation_loop rfl hserves₂ hidle₂ (Nat.le_refl 0) (Nat.zero_le _)
                · intro st₃ φ₃ hserves₃ hidle₃ hn₃
                  apply wp_bind_of (serveSweep_wp hserves₃ hidle₃ hn₃ (Nat.zero_le _))
                  · rintro _ st₄ φ₄ ⟨hserves₄, hidle₄, hn₄⟩
                    simp only [wp_bind, wp_call, andThen_ok, wp_lift]
                    refine ⟨hserves₄, ?_⟩
                    rintro (e | _) _ rfl
                    · exact ⟨hserves₄, hidle₄.quiet⟩
                    · exact ih hserves₄ hidle₄ (Nat.le_zero.mp hn₄)
                  · exact fun _ _ _ h => h
                · exact fun _ _ hserves' hquiet => ⟨hserves', hquiet⟩
              · exact fun _ _ _ h => h
        · exact fun _ _ _ hafter => hafter
      · exact ⟨hserves, hidle.quiet⟩

/-- Whatever `serve` was doing, its lock and its listener are still its own. -/
def Stage.Listens (φ : Stage) : Prop := φ.locked = true ∧ φ.listens = true ∧ φ.Quiet

theorem serveBound_wp {fuel : Nat} {st : Daemon} {φ : Stage} (hserves : φ.Serves)
    (hidle : φ.Idle st) (hfresh : φ.requests = 0) :
    wp (ownership euid pid) (serveBound euid pid fuel st) (fun _ _ φ' => φ'.Listens) () φ := by
  have hlistens : φ.Listens := ⟨hserves.1, hserves.2.1, hidle.quiet⟩
  simp only [serveBound, host, wp_bind, wp_call, wp_lift, andThen_ok]
  refine ⟨trivial, ?_⟩
  rintro (e | _) _ rfl
  · exact hlistens
  simp only [andThen_ok, wp_bind, wp_call, wp_lift]
  refine ⟨trivial, ?_⟩
  rintro (e | _) _ rfl
  · exact hlistens
  simp only [andThen_ok, wp_bind, wp_attempt]
  refine wp_mono (serveMain_wp hserves hidle hfresh) ?_
  rintro _ r φ' ⟨hserves', hquiet'⟩
  simp only [andThen_ok, wp_bind, wp_call, wp_lift]
  refine ⟨⟨hserves'.1, fun _ => hserves'.2.2⟩, ?_⟩
  rintro (e | _) _ rfl <;> exact ⟨hserves'.1, hserves'.2.1, hquiet'⟩

/-- Before `serve` has the listener, and after it has closed it. -/
def Stage.Apart (φ : Stage) : Prop := φ.locked = true ∧ φ.listens = false ∧ φ.Quiet

/-- Once no file has the name, the listener can have it. -/
theorem bind_wp {fuel : Nat} {st : Daemon} {φ : Stage} (hlocked : φ.locked = true)
    (hclear : φ.clear = true) (hlistens : φ.listens = false) (hidle : φ.Idle st)
    (hfresh : φ.requests = 0) :
    wp (ownership euid pid) (do
      lift (← host .bind)
      let result ← attempt (serveBound euid pid fuel st)
      host .closeListener
      lift result) (fun _ _ φ' => φ'.Apart) () φ := by
  simp only [host, wp_bind, wp_call]
  refine ⟨⟨hlocked, hclear, hlistens⟩, ?_⟩
  rintro (e | _) _ rfl
  · exact ⟨hlocked, hlistens, hidle.quiet⟩
  simp only [andThen_ok, wp_bind, wp_attempt, wp_lift]
  refine wp_mono (serveBound_wp ⟨hlocked, rfl, rfl⟩ hidle hfresh) ?_
  rintro _ r φ' ⟨hlocked', hlistens', hquiet'⟩
  simp only [andThen_ok, wp_bind, wp_call, wp_lift]
  refine ⟨⟨hlocked', hlistens'⟩, ?_⟩
  rintro _ _ rfl
  exact ⟨hlocked', rfl, hquiet'⟩

theorem serveSocket_wp {fuel : Nat} {st : Daemon} {φ : Stage} (hlocked : φ.locked = true)
    (hlistens : φ.listens = false) (hidle : φ.Idle st) (hfresh : φ.requests = 0) :
    wp (ownership euid pid) (serveSocket euid pid fuel st) (fun _ _ φ' => φ'.Apart) () φ := by
  refine (wp_bind _ _ _).mpr ⟨hlocked, ?_⟩
  rintro (_ | _) _ rfl
  · exact bind_wp hlocked rfl hlistens hidle hfresh
  · refine ⟨⟨hlocked, fun h => absurd h (by simp [hlistens])⟩, ?_⟩
    rintro (e | _) _ rfl
    · exact ⟨hlocked, hlistens, hidle.quiet⟩
    · exact bind_wp (φ := ⟨_, true, _, false, _, _⟩) hlocked rfl hlistens hidle hfresh

theorem serveLocked_wp {fuel : Nat} {args : DaemonArgs} {φ : Stage} (hlocked : φ.locked = true)
    (hlistens : φ.listens = false) (hdaemon : φ.daemon = none) :
    wp (ownership euid pid) (serveLocked euid pid fuel args) (fun _ _ φ' => φ'.Apart) () φ := by
  have hapart : φ.Apart := ⟨hlocked, hlistens, Stage.quiet hdaemon⟩
  simp only [serveLocked, host, wp_bind, wp_call, wp_lift, andThen_ok]
  refine ⟨trivial, ?_⟩
  rintro (e | _) _ rfl
  · exact hapart
  simp only [andThen_ok, wp_bind, wp_call, wp_lift]
  refine ⟨trivial, ?_⟩
  rintro (e | inventory) _ rfl
  · exact hapart
  simp only [andThen_ok, wp_bind, wp_call, wp_lift]
  refine ⟨⟨hlocked, hdaemon⟩, ?_⟩
  rintro (e | s) _ rfl
  · exact hapart
  simp only [andThen_ok, wp_bind]
  refine scheduled_wp (Scheduled.map_id _) (φ := ⟨_, _, _, _, none, 0⟩) hlocked
    (bootCalls_returns args.excludeDeviceIds s) ?_ ?_
  · rintro st next rfl
    exact serveSocket_wp hlocked hlistens rfl rfl
  · exact fun _ => ⟨hlocked, hlistens, Stage.quiet rfl⟩

theorem serveProcess_wp (fuel : Nat) (args : DaemonArgs) :
    wp (ownership euid pid) (serveProcess euid pid fuel args)
      (fun _ _ φ' => φ'.locked = false) () Stage.first := by
  simp only [serveProcess, host, wp_bind, wp_call]
  refine ⟨trivial, ?_⟩
  rintro (e | _) _ rfl
  · rfl
  simp only [andThen_ok, wp_bind, wp_call, wp_lift]
  refine ⟨rfl, ?_⟩
  rintro (e | _ | _) _ rfl
  · rfl
  · rfl
  simp only [andThen_ok, if_true, wp_bind, wp_attempt]
  refine wp_mono (serveLocked_wp rfl rfl rfl) ?_
  rintro _ r φ' ⟨hlocked, hlistens, hquiet⟩
  simp only [andThen_ok, wp_bind, wp_call, wp_lift]
  refine ⟨⟨hlocked, hlistens, hquiet⟩, ?_⟩
  rintro _ _ rfl
  rfl

/-! ### The commands -/

/-- The calls of a command that have nothing to do with the lock. -/
def HostCall.civil : HostCall → Bool
  | initializePaths | connect _ | response | openDaemonLog | spawnDaemon _ | tryWait | deadline
  | killChild | waitChild | print _ | sleep | hang => true
  | _ => false

/-- A computation that stays at `Stage.first`. -/
abbrev Outside (euid pid : Nat) {α : Type} (x : Host α) : Prop :=
  Keeps (ownership euid pid) (fun _ φ => φ = Stage.first) x

theorem Outside.host {c : HostCall} (hc : c.civil = true) : Outside euid pid (host c) := by
  apply Keeps.call
  · rintro _ φ rfl
    cases c <;> first | exact trivial | cases hc
  · rintro _ φ r φ' rfl hpost
    cases c <;> first | exact hpost | cases hc

theorem Outside.attempt {α : Type} {x : Host α} (hx : Outside euid pid x) :
    Outside euid pid (attempt x) := by
  intro s φ hφ
  rw [wp_attempt]
  exact hx s φ hφ

theorem Outside.daemonRequest (request : Request) : Outside euid pid (daemonRequest request) := by
  apply Keeps.bind (Outside.host rfl)
  intro connected
  apply Keeps.bind (Keeps.lift _)
  intro _
  apply Keeps.bind (Outside.host rfl)
  intro response
  apply Keeps.bind (Keeps.lift _)
  intro response
  cases response <;> exact Keeps.lift _

theorem Outside.infoAnswered : Outside euid pid infoAnswered := by
  apply Keeps.bind (Outside.attempt (Outside.daemonRequest .info))
  intro answered
  cases answered <;> exact Keeps.pure _

theorem Outside.awaitDaemon (fuel : Nat) : Outside euid pid (awaitDaemon fuel) := by
  induction fuel with
  | zero => exact Keeps.bind (Outside.host rfl) fun never => nomatch never
  | succ fuel ih =>
      apply Keeps.bind Outside.infoAnswered
      rintro (_ | _)
      · apply Keeps.bind (Outside.host rfl)
        intro waited
        apply Keeps.bind (Keeps.lift _)
        rintro (_ | status)
        · apply Keeps.bind (Outside.host rfl)
          rintro (_ | _)
          · exact Keeps.bind (Outside.host rfl) fun _ => ih
          · apply Keeps.bind (Outside.host rfl)
            intro killed
            apply Keeps.bind (Keeps.lift _)
            intro _
            apply Keeps.bind (Outside.host rfl)
            intro exited
            exact Keeps.bind (Keeps.lift _) fun _ => Keeps.lift _
        · exact Keeps.lift _
      · exact Outside.host rfl

theorem Outside.startCommand (fuel : Nat) (args : DaemonArgs) :
    Outside euid pid (startCommand fuel args) := by
  apply Keeps.bind Outside.infoAnswered
  rintro (_ | _)
  · apply Keeps.bind (Keeps.ensure _ _)
    intro _
    apply Keeps.bind (Outside.host rfl)
    intro initialized
    apply Keeps.bind (Keeps.lift _)
    intro _
    apply Keeps.bind (Outside.host rfl)
    intro opened
    apply Keeps.bind (Keeps.lift _)
    intro _
    apply Keeps.bind (Outside.host rfl)
    intro spawned
    exact Keeps.bind (Keeps.lift _) fun _ => Outside.awaitDaemon fuel
  · exact Outside.host rfl

/-- `restart` takes the lock only to see that it is free. -/
theorem Outside.awaitUnlocked (fuel : Nat) : Outside euid pid (awaitUnlocked fuel) := by
  induction fuel with
  | zero => exact Keeps.bind (Outside.host rfl) fun never => nomatch never
  | succ fuel ih =>
      rintro s φ rfl
      refine (wp_bind _ _ _).mpr ⟨rfl, ?_⟩
      rintro (e | _ | _) _ rfl
      · rfl
      · have hrest : ∀ e, Outside euid pid (do
            ensure (!(← Xlurm.host .deadline)) e
            Xlurm.host .sleep
            Xlurm.awaitUnlocked fuel) := by
          intro e
          apply Keeps.bind (Outside.host rfl)
          intro expired
          apply Keeps.bind (Keeps.ensure _ _)
          exact fun _ => Keeps.bind (Outside.host rfl) fun _ => ih
        exact hrest _ () _ (if_neg (by simp))
      · refine ⟨⟨rfl, rfl, fun _ _ _ => nofun⟩, ?_⟩
        rintro _ _ rfl
        rfl

theorem Outside.restartCommand (fuel : Nat) (args : DaemonArgs) :
    Outside euid pid (restartCommand fuel args) := by
  apply Keeps.bind (Outside.daemonRequest .restart)
  intro _
  exact Keeps.bind (Outside.awaitUnlocked fuel) fun _ => Outside.startCommand fuel args

/-- Every program keeps to the discipline and ends without the lock. -/
theorem Role.prog_wp (pid fuel : Nat) (role : Role) :
    (role.prog euid pid fuel).Safe (ownership euid pid) (fun _ _ φ => φ.locked = false)
      Stage.first := by
  cases role with
  | daemon args => exact serveProcess_wp fuel args
  | start args => exact wp_mono (Outside.startCommand fuel args () _ rfl) fun _ _ _ h => h ▸ rfl
  | restart args => exact wp_mono (Outside.restartCommand fuel args () _ rfl) fun _ _ _ h => h ▸ rfl

end Xlurm
