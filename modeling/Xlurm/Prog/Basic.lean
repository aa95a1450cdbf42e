/-
  Xlurm.Prog.Basic

  Sequential programs over an effect signature, as trees.

  A signature is a type `ι` of calls together with the reply type `ρ i` of
  each call.  A `Prog σ ι ρ α` is either finished, with its private state and
  its value, or it waits for the reply of one call; the private state at every
  call is part of the tree, so whoever runs the program sees it there.

  * `seq` / `bind` compose programs, `interp` replaces every call of one
    signature by a program over another one (a handler).
  * `run` answers the calls from an oracle that may look at everything that
    was called before.
  * `Comp` is the state-and-error monad whose effects are the calls: the
    shape in which imperative code with early returns is written down.
-/

import Mathlib.Init

/-- A program with private state `σ` that issues calls `i : ι`, is answered in
    `ρ i`, and returns a value in `α`. -/
inductive Prog (σ ι : Type) (ρ : ι → Type) (α : Type) : Type
  | ret (s : σ) (a : α)
  | call (s : σ) (i : ι) (k : ρ i → Prog σ ι ρ α)

namespace Prog

variable {σ τ ι ι' : Type} {ρ : ι → Type} {ρ' : ι' → Type} {α β γ ε : Type}

/-- The private state a program carries right now. -/
def state : Prog σ ι ρ α → σ
  | ret s _ => s
  | call s _ _ => s

/-- Run `p`, showing its states through `c`, and go on with `f`. -/
def seq (c : τ → σ) : Prog τ ι ρ β → (τ → β → Prog σ ι ρ α) → Prog σ ι ρ α
  | ret t b, f => f t b
  | call t i k, f => call (c t) i (fun r => (k r).seq c f)

/-- Sequential composition over one state. -/
def bind (p : Prog σ ι ρ α) (f : σ → α → Prog σ ι ρ β) : Prog σ ι ρ β :=
  p.seq id f

/-- Change the value that `p` returns. -/
def map (f : α → β) (p : Prog σ ι ρ α) : Prog σ ι ρ β :=
  p.seq id fun s a => ret s (f a)

/-- Replace every call `i` of `p` by the program `h i`, which keeps a state of
    its own from one call to the next and cannot touch the state of `p`. -/
def interp (h : (i : ι) → τ → Prog τ ι' ρ' (ρ i)) :
    Prog σ ι ρ α → τ → Prog (σ × τ) ι' ρ' α
  | ret s a, t => ret (s, t) a
  | call s i k, t => (h i t).seq (fun t => (s, t)) (fun t r => (k r).interp h t)

theorem map_seq (c : τ → σ) (f : α → β) (p : Prog τ ι ρ γ) (g : τ → γ → Prog σ ι ρ α) :
    (p.seq c g).map f = p.seq c fun t b => (g t b).map f := by
  induction p with
  | ret t b => rfl
  | call t i k ih => exact congrArg _ (funext ih)

@[simp] theorem map_id (p : Prog σ ι ρ α) : p.map id = p := by
  induction p with
  | ret s a => rfl
  | call s i k ih => exact congrArg _ (funext ih)

/-- A handler does not see the value of the program. -/
theorem interp_map (h : (i : ι) → τ → Prog τ ι' ρ' (ρ i)) (f : α → β) (p : Prog σ ι ρ α)
    (t : τ) : (p.map f).interp h t = (p.interp h t).map f := by
  induction p generalizing t with
  | ret s a => rfl
  | call s i k ih =>
      rw [interp, map_seq]
      exact congrArg _ (funext fun t => funext fun r => ih r t)

/-! ## Running a program against an oracle -/

/-- The calls issued so far with their replies, oldest first. -/
abbrev Trace (ι : Type) (ρ : ι → Type) := List (Σ i, ρ i)

/-- An environment that answers every call, knowing the whole past. -/
abbrev Oracle (ι : Type) (ρ : ι → Type) := Trace ι ρ → (i : ι) → ρ i

/-- How a run ended. -/
structure Done (σ ι : Type) (ρ : ι → Type) (α : Type) where
  trace : Trace ι ρ
  state : σ
  value : α

/-- Run `p` against the oracle `ω`, after the calls in `tr`. -/
def run (ω : Oracle ι ρ) : Prog σ ι ρ α → Trace ι ρ → Done σ ι ρ α
  | ret s a, tr => ⟨tr, s, a⟩
  | call _ i k, tr => (k (ω tr i)).run ω (tr ++ [⟨i, ω tr i⟩])

theorem run_bind (ω : Oracle ι ρ) (p : Prog σ ι ρ α) (f : σ → α → Prog σ ι ρ β)
    (tr : Trace ι ρ) :
    (p.bind f).run ω tr =
      (f (p.run ω tr).state (p.run ω tr).value).run ω (p.run ω tr).trace := by
  induction p generalizing tr with
  | ret s a => rfl
  | call s i k ih => exact ih (ω tr i) (tr ++ [⟨i, ω tr i⟩])

/-- Running a program only appends to the trace it starts from, and the oracle gives
    every reply. -/
theorem run_trace (ω : Oracle ι ρ) (p : Prog σ ι ρ α) (tr : Trace ι ρ) :
    ∃ own, (p.run ω tr).trace = tr ++ own ∧ ∀ i r, ⟨i, r⟩ ∈ own → ∃ tr', r = ω tr' i := by
  induction p generalizing tr with
  | ret s a => exact ⟨[], (List.append_nil tr).symm, by rintro _ _ ⟨⟩⟩
  | call s i k ih =>
      obtain ⟨own, hown, hanswers⟩ := ih (ω tr i) (tr ++ [⟨i, ω tr i⟩])
      refine ⟨⟨i, ω tr i⟩ :: own, ?_, ?_⟩
      · rw [run, hown, List.append_assoc]
        rfl
      · intro i' r hmem
        rcases List.mem_cons.mp hmem with heq | hmem
        · cases heq
          exact ⟨tr, rfl⟩
        · exact hanswers i' r hmem

/-! ## Computations with errors -/

/-- A computation: reads and changes the state `σ`, issues calls, and returns a
    value or stops early with an error in `ε`. -/
def Comp (σ ι : Type) (ρ : ι → Type) (ε α : Type) : Type :=
  σ → Prog σ ι ρ (Except ε α)

namespace Comp

protected def pure (a : α) : Comp σ ι ρ ε α := fun s => ret s (.ok a)

/-- An error of the first part ends the whole computation. -/
protected def bind (x : Comp σ ι ρ ε α) (f : α → Comp σ ι ρ ε β) : Comp σ ι ρ ε β :=
  fun s => (x s).bind fun s r =>
    match r with
    | .ok a => f a s
    | .error e => ret s (.error e)

instance : Monad (Comp σ ι ρ ε) where
  pure := Comp.pure
  bind := Comp.bind

/-- Issue one call. -/
def call (i : ι) : Comp σ ι ρ ε (ρ i) := fun s => .call s i fun r => ret s (.ok r)

def get : Comp σ ι ρ ε σ := fun s => ret s (.ok s)

def modify (f : σ → σ) : Comp σ ι ρ ε Unit := fun s => ret (f s) (.ok ())

def throw (e : ε) : Comp σ ι ρ ε α := fun s => ret s (.error e)

/-- Run `x` and hand its error to the caller as a value. -/
def attempt (x : Comp σ ι ρ ε α) : Comp σ ι ρ ε (Except ε α) := fun s =>
  (x s).bind fun s r => ret s (.ok r)

/-- Go on with a value, or stop with the error it is. -/
def lift (r : Except ε α) : Comp σ ι ρ ε α := fun s => ret s r

/-- Stop with `e` unless `c` holds. -/
def ensure (c : Prop) [Decidable c] (e : ε) : Comp σ ι ρ ε Unit :=
  if c then Comp.pure () else throw e

/-! ### Changing the value -/

theorem bind_pure_comp (x : Comp σ ι ρ ε α) (g : α → β) (s : σ) :
    (x >>= fun a => pure (g a)) s = (x s).map (Except.map g) := by
  show (x s).seq id _ = (x s).seq id _
  congr 1
  funext s r
  cases r <;> rfl

/-! ### Running a computation -/

variable (ω : Oracle ι ρ) (s : σ) (tr : Trace ι ρ)

@[simp] theorem run_pure (a : α) :
    Prog.run ω ((pure a : Comp σ ι ρ ε α) s) tr = ⟨tr, s, .ok a⟩ := rfl

@[simp] theorem run_get :
    Prog.run ω ((get : Comp σ ι ρ ε σ) s) tr = ⟨tr, s, .ok s⟩ := rfl

@[simp] theorem run_modify (f : σ → σ) :
    Prog.run ω ((modify f : Comp σ ι ρ ε Unit) s) tr = ⟨tr, f s, .ok ()⟩ := rfl

@[simp] theorem run_throw (e : ε) :
    Prog.run ω ((throw e : Comp σ ι ρ ε α) s) tr = ⟨tr, s, .error e⟩ := rfl

@[simp] theorem run_lift (r : Except ε α) :
    Prog.run ω ((lift r : Comp σ ι ρ ε α) s) tr = ⟨tr, s, r⟩ := rfl

@[simp] theorem run_call (i : ι) :
    Prog.run ω ((call i : Comp σ ι ρ ε (ρ i)) s) tr =
      ⟨tr ++ [⟨i, ω tr i⟩], s, .ok (ω tr i)⟩ := rfl

@[simp] theorem run_attempt (x : Comp σ ι ρ ε α) :
    Prog.run ω (attempt x s) tr =
      ⟨(Prog.run ω (x s) tr).trace, (Prog.run ω (x s) tr).state,
        .ok (Prog.run ω (x s) tr).value⟩ := by
  rw [attempt, run_bind]
  rfl

theorem run_bind (x : Comp σ ι ρ ε α) (f : α → Comp σ ι ρ ε β) :
    Prog.run ω ((x >>= f) s) tr =
      match (Prog.run ω (x s) tr).value with
      | .ok a => Prog.run ω (f a (Prog.run ω (x s) tr).state) (Prog.run ω (x s) tr).trace
      | .error e => ⟨(Prog.run ω (x s) tr).trace, (Prog.run ω (x s) tr).state, .error e⟩ := by
  show Prog.run ω (Prog.bind (x s) _) tr = _
  rw [Prog.run_bind]
  cases (Prog.run ω (x s) tr).value <;> rfl

@[simp] theorem run_ensure (c : Prop) [Decidable c] (e : ε) :
    Prog.run ω ((ensure c e : Comp σ ι ρ ε Unit) s) tr =
      ⟨tr, s, if c then .ok () else .error e⟩ := by
  unfold ensure
  split <;> rfl

end Comp

end Prog
