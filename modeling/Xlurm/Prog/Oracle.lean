/-
  Xlurm.Prog.Oracle

  The program logic for one environment: with the trace as the world, safety
  against the oracle is the same as a statement about the run.

  `Quiet` computations never change their state, whatever they are answered,
  `Only P` computations never make other calls than those in `P`, and `FailsBy B`
  computations fail only after a call in `B`, and what `Yields P`
  computations return is in `P`.  `Spec.guarded` is for computations
  whose calls are in `P` because of what they have computed before.
-/

import Xlurm.Prog.Safe

namespace Prog

variable {σ ι : Type} {ρ : ι → Type} {α β ε : Type}

/-- Every call is answered by the oracle, and recorded. -/
def Spec.oracle (σ : Type) (ω : Oracle ι ρ) : Spec σ ι ρ (Trace ι ρ) where
  pre _ _ _ := True
  post i _ tr r tr' := r = ω tr i ∧ tr' = tr ++ [⟨i, r⟩]

theorem safe_oracle {ω : Oracle ι ρ} {Q : σ → α → Trace ι ρ → Prop} {p : Prog σ ι ρ α}
    {tr : Trace ι ρ} :
    p.Safe (Spec.oracle σ ω) Q tr ↔
      Q (p.run ω tr).state (p.run ω tr).value (p.run ω tr).trace := by
  induction p generalizing tr with
  | ret s a => exact Iff.rfl
  | call s i k ih =>
      constructor
      · intro h
        exact (ih (ω tr i)).mp (h.2 _ _ ⟨rfl, rfl⟩)
      · intro h
        refine ⟨trivial, ?_⟩
        rintro r tr' ⟨rfl, rfl⟩
        exact (ih (ω tr i)).mpr h

/-- The oracle answers every call, and every call is in `P`. -/
def Spec.guarded (σ : Type) (ω : Oracle ι ρ) (P : ι → Prop) : Spec σ ι ρ (Trace ι ρ) where
  pre i _ _ := P i
  post i _ tr r tr' := r = ω tr i ∧ tr' = tr ++ [⟨i, r⟩]

theorem safe_guarded {ω : Oracle ι ρ} {P : ι → Prop} {Q : σ → α → Trace ι ρ → Prop}
    {p : Prog σ ι ρ α} {tr : Trace ι ρ} :
    p.Safe (Spec.guarded σ ω P) Q tr ↔
      Q (p.run ω tr).state (p.run ω tr).value (p.run ω tr).trace ∧
        ∃ own, (p.run ω tr).trace = tr ++ own ∧ ∀ i r, ⟨i, r⟩ ∈ own → P i := by
  induction p generalizing tr with
  | ret s a =>
      constructor
      · intro h
        exact ⟨h, [], (List.append_nil tr).symm, by rintro _ _ ⟨⟩⟩
      · intro h
        exact h.1
  | call s i k ih =>
      constructor
      · rintro ⟨hi, hk⟩
        obtain ⟨hQ, own, hown, hcalls⟩ := (ih (ω tr i)).mp (hk _ _ ⟨rfl, rfl⟩)
        refine ⟨hQ, ⟨i, ω tr i⟩ :: own, ?_, ?_⟩
        · rw [run, hown, List.append_assoc]
          rfl
        · intro j r hmem
          rcases List.mem_cons.mp hmem with heq | hmem
          · cases heq
            exact hi
          · exact hcalls j r hmem
      · rintro ⟨hQ, own, hown, hcalls⟩
        -- The calls of the rest are the tail of `own`.
        obtain ⟨rest, hrest, _⟩ := run_trace ω (k (ω tr i)) (tr ++ [⟨i, ω tr i⟩])
        have hsplit : own = ⟨i, ω tr i⟩ :: rest := by
          refine List.append_cancel_left (?_ : tr ++ own = tr ++ _)
          rw [← hown, run, hrest, List.append_assoc]
          rfl
        subst hsplit
        refine ⟨hcalls i _ List.mem_cons_self, ?_⟩
        rintro r tr' ⟨rfl, rfl⟩
        exact (ih (ω tr i)).mpr ⟨hQ, rest, hrest, fun j r hmem =>
          hcalls j r (List.mem_cons_of_mem _ hmem)⟩

namespace Comp

variable {ω : Oracle ι ρ} {s : σ} {tr : Trace ι ρ}

theorem wp_oracle {x : Comp σ ι ρ ε α} {Q : σ → Except ε α → Trace ι ρ → Prop} :
    wp (Spec.oracle σ ω) x Q s tr ↔
      Q (Prog.run ω (x s) tr).state (Prog.run ω (x s) tr).value (Prog.run ω (x s) tr).trace :=
  safe_oracle

@[simp] theorem wp_oracle_call (i : ι) (Q : σ → Except ε (ρ i) → Trace ι ρ → Prop) :
    wp (Spec.oracle σ ω) (call i) Q s tr ↔ Q s (.ok (ω tr i)) (tr ++ [⟨i, ω tr i⟩]) :=
  wp_oracle

/-- The state is the same at every end. -/
def Quiet (x : Comp σ ι ρ ε α) : Prop :=
  ∀ (ω : Oracle ι ρ) (s : σ) (tr : Trace ι ρ), (Prog.run ω (x s) tr).state = s

namespace Quiet

theorem pure (a : α) : Quiet (Pure.pure a : Comp σ ι ρ ε α) := fun _ _ _ => rfl

theorem throw (e : ε) : Quiet (Comp.throw e : Comp σ ι ρ ε α) := fun _ _ _ => rfl

theorem lift (r : Except ε α) : Quiet (Comp.lift r : Comp σ ι ρ ε α) := fun _ _ _ => rfl

theorem get : Quiet (Comp.get : Comp σ ι ρ ε σ) := fun _ _ _ => rfl

theorem call (i : ι) : Quiet (Comp.call i : Comp σ ι ρ ε (ρ i)) := fun _ _ _ => rfl

theorem ensure (c : Prop) [Decidable c] (e : ε) :
    Quiet (Comp.ensure c e : Comp σ ι ρ ε Unit) := by
  intro ω s tr
  rw [run_ensure]

theorem bind {x : Comp σ ι ρ ε α} {f : α → Comp σ ι ρ ε β} (hx : Quiet x)
    (hf : ∀ a, Quiet (f a)) : Quiet (x >>= f) := by
  intro ω s tr
  rw [run_bind]
  split
  · rw [hf, hx]
  · exact hx ω s tr

end Quiet

/-- Go on after a quiet first part. -/
theorem wp_quiet {x : Comp σ ι ρ ε α} {f : α → Comp σ ι ρ ε β}
    {Q : σ → Except ε β → Trace ι ρ → Prop} (hx : Quiet x)
    (hok : ∀ a tr', wp (Spec.oracle σ ω) (f a) Q s tr')
    (herr : ∀ e tr', Q s (.error e) tr') : wp (Spec.oracle σ ω) (x >>= f) Q s tr := by
  rw [wp_bind, wp_oracle, hx]
  cases (Prog.run ω (x s) tr).value with
  | ok a => exact hok a _
  | error e => exact herr e _

/-! ## The calls of a computation -/

/-- All calls are in `P`. -/
def Only (P : ι → Prop) (x : Comp σ ι ρ ε α) : Prop :=
  ∀ (ω : Oracle ι ρ) (s : σ) (tr : Trace ι ρ),
    ∃ own, (Prog.run ω (x s) tr).trace = tr ++ own ∧ ∀ i r, ⟨i, r⟩ ∈ own → P i

namespace Only

variable {P P' : ι → Prop}

theorem silent {x : Comp σ ι ρ ε α} (h : ∀ ω s tr, (Prog.run ω (x s) tr).trace = tr) :
    Only P x :=
  fun ω s tr => ⟨[], (h ω s tr).trans (List.append_nil tr).symm, by rintro _ _ ⟨⟩⟩

theorem pure (a : α) : Only P (Pure.pure a : Comp σ ι ρ ε α) := silent fun _ _ _ => rfl

theorem throw (e : ε) : Only P (Comp.throw e : Comp σ ι ρ ε α) := silent fun _ _ _ => rfl

theorem lift (r : Except ε α) : Only P (Comp.lift r : Comp σ ι ρ ε α) :=
  silent fun _ _ _ => rfl

theorem get : Only P (Comp.get : Comp σ ι ρ ε σ) := silent fun _ _ _ => rfl

theorem modify (f : σ → σ) : Only P (Comp.modify f : Comp σ ι ρ ε Unit) :=
  silent fun _ _ _ => rfl

theorem ensure (c : Prop) [Decidable c] (e : ε) :
    Only P (Comp.ensure c e : Comp σ ι ρ ε Unit) := by
  refine silent fun ω s tr => ?_
  rw [run_ensure]

theorem call {i : ι} (hi : P i) : Only P (Comp.call i : Comp σ ι ρ ε (ρ i)) := by
  intro ω s tr
  refine ⟨[⟨i, ω tr i⟩], rfl, fun j r hmem => ?_⟩
  cases List.mem_singleton.mp hmem
  exact hi

theorem attempt {x : Comp σ ι ρ ε α} (hx : Only P x) : Only P (Comp.attempt x) := by
  intro ω s tr
  rw [run_attempt]
  exact hx ω s tr

/-- The calls of the second part may depend on what the first part returns. -/
theorem bind_of {Q : α → Prop} {x : Comp σ ι ρ ε α} {f : α → Comp σ ι ρ ε β} (hx : Only P x)
    (hQ : ∀ ω s tr a, (Prog.run ω (x s) tr).value = .ok a → Q a)
    (hf : ∀ a, Q a → Only P (f a)) : Only P (x >>= f) := by
  intro ω s tr
  obtain ⟨own, hown, hcalls⟩ := hx ω s tr
  rw [run_bind]
  split
  · rename_i a ha
    obtain ⟨own', hown', hcalls'⟩ := hf a (hQ ω s tr a ha) ω (Prog.run ω (x s) tr).state
      (Prog.run ω (x s) tr).trace
    refine ⟨own ++ own', by rw [hown', hown, List.append_assoc], fun i r hmem => ?_⟩
    exact (List.mem_append.mp hmem).elim (hcalls i r) (hcalls' i r)
  · exact ⟨own, hown, hcalls⟩

theorem bind {x : Comp σ ι ρ ε α} {f : α → Comp σ ι ρ ε β} (hx : Only P x)
    (hf : ∀ a, Only P (f a)) : Only P (x >>= f) :=
  hx.bind_of (fun _ _ _ _ _ => trivial) fun a _ => hf a

theorem mono {x : Comp σ ι ρ ε α} (hx : Only P x) (hP : ∀ i, P i → P' i) : Only P' x := by
  intro ω s tr
  obtain ⟨own, hown, hcalls⟩ := hx ω s tr
  exact ⟨own, hown, fun i r hmem => hP i (hcalls i r hmem)⟩

end Only

/-! ## Calls in a set -/

@[simp] theorem wp_guarded_call {P : ι → Prop} (i : ι)
    (Q : σ → Except ε (ρ i) → Trace ι ρ → Prop) :
    wp (Spec.guarded σ ω P) (call i) Q s tr ↔
      P i ∧ Q s (.ok (ω tr i)) (tr ++ [⟨i, ω tr i⟩]) := by
  rw [wp_call]
  refine and_congr Iff.rfl ⟨fun h => h _ _ ⟨rfl, rfl⟩, ?_⟩
  rintro h r tr' ⟨rfl, rfl⟩
  exact h

/-- A computation that makes no other calls. -/
theorem Only.guarded {P : ι → Prop} {x : Comp σ ι ρ ε α} (hx : Only P x)
    {Q : σ → Except ε α → Trace ι ρ → Prop} (h : wp (Spec.oracle σ ω) x Q s tr) :
    wp (Spec.guarded σ ω P) x Q s tr :=
  safe_guarded.mpr ⟨wp_oracle.mp h, hx ω s tr⟩

/-- Go on after a quiet first part that makes no other calls. -/
theorem wp_quiet_guarded {P : ι → Prop} {x : Comp σ ι ρ ε α} {f : α → Comp σ ι ρ ε β}
    {Q : σ → Except ε β → Trace ι ρ → Prop} (hx : Quiet x) (ho : Only P x)
    (hok : ∀ a tr', wp (Spec.guarded σ ω P) (f a) Q s tr')
    (herr : ∀ e tr', Q s (.error e) tr') : wp (Spec.guarded σ ω P) (x >>= f) Q s tr := by
  rw [wp_bind]
  apply ho.guarded
  rw [wp_oracle, hx]
  cases (Prog.run ω (x s) tr).value with
  | ok a => exact hok a _
  | error e => exact herr e _

/-! ## Where errors come from -/

/-- An error is preceded by a call with a reply in `B`. -/
def FailsBy (B : (Σ i, ρ i) → Prop) (x : Comp σ ι ρ ε α) : Prop :=
  ∀ (ω : Oracle ι ρ) (s : σ) (tr : Trace ι ρ),
    ∃ own, (Prog.run ω (x s) tr).trace = tr ++ own ∧
      ∀ e, (Prog.run ω (x s) tr).value = .error e → ∃ c ∈ own, B c

namespace FailsBy

variable {B : (Σ i, ρ i) → Prop}

/-- Without errors. -/
theorem never {x : Comp σ ι ρ ε α} (h : ∀ ω s tr e, (Prog.run ω (x s) tr).value ≠ .error e) :
    FailsBy B x := by
  intro ω s tr
  obtain ⟨own, hown, _⟩ := Prog.run_trace ω (x s) tr
  exact ⟨own, hown, fun e he => absurd he (h ω s tr e)⟩

theorem pure (a : α) : FailsBy B (Pure.pure a : Comp σ ι ρ ε α) := never fun _ _ _ _ => nofun

theorem get : FailsBy B (Comp.get : Comp σ ι ρ ε σ) := never fun _ _ _ _ => nofun

theorem modify (f : σ → σ) : FailsBy B (Comp.modify f : Comp σ ι ρ ε Unit) :=
  never fun _ _ _ _ => nofun

theorem call (i : ι) : FailsBy B (Comp.call i : Comp σ ι ρ ε (ρ i)) := never fun _ _ _ _ => nofun

theorem bind {x : Comp σ ι ρ ε α} {f : α → Comp σ ι ρ ε β} (hx : FailsBy B x)
    (hf : ∀ a, FailsBy B (f a)) : FailsBy B (x >>= f) := by
  intro ω s tr
  obtain ⟨own, hown, hfails⟩ := hx ω s tr
  rw [run_bind]
  split
  · rename_i a _
    obtain ⟨own', hown', hfails'⟩ := hf a ω (Prog.run ω (x s) tr).state (Prog.run ω (x s) tr).trace
    refine ⟨own ++ own', by rw [hown', hown, List.append_assoc], fun e he => ?_⟩
    obtain ⟨c, hc, hB⟩ := hfails' e he
    exact ⟨c, List.mem_append_right own hc, hB⟩
  · rename_i e he
    exact ⟨own, hown, fun _ _ => hfails e he⟩

/-- A reply that may be an error, which is passed on. -/
theorem reply {i : ι} {g : ρ i → Except ε α} (hB : ∀ r e, g r = .error e → B ⟨i, r⟩) :
    FailsBy B (Comp.call i >>= fun r => Comp.lift (g r) : Comp σ ι ρ ε α) := by
  intro ω s tr
  exact ⟨[⟨i, ω tr i⟩], rfl, fun e he => ⟨_, List.mem_cons_self, hB _ e he⟩⟩

/-- Go on with such a reply. -/
theorem call_lift {i : ι} {g : ρ i → Except ε α} {f : α → Comp σ ι ρ ε β}
    (hB : ∀ r e, g r = .error e → B ⟨i, r⟩) (hf : ∀ a, FailsBy B (f a)) :
    FailsBy B (Comp.call i >>= fun r => Comp.lift (g r) >>= f) := by
  intro ω s tr
  have hcall : Prog.run ω ((Comp.call i >>= fun r => Comp.lift (g r) >>= f) s) tr =
      Prog.run ω ((Comp.lift (g (ω tr i)) >>= f) s) (tr ++ [⟨i, ω tr i⟩]) := by
    rw [run_bind, run_call]
  rw [hcall, run_bind, run_lift]
  cases hg : g (ω tr i) with
  | ok a =>
      obtain ⟨own, hown, hfails⟩ := hf a ω s (tr ++ [⟨i, ω tr i⟩])
      refine ⟨⟨i, ω tr i⟩ :: own, by rw [hown, List.append_assoc]; rfl, fun e he => ?_⟩
      obtain ⟨c, hc, hcB⟩ := hfails e he
      exact ⟨c, List.mem_cons_of_mem _ hc, hcB⟩
  | error e => exact ⟨[⟨i, ω tr i⟩], rfl, fun _ _ => ⟨_, List.mem_cons_self, hB _ e hg⟩⟩

end FailsBy

/-! ## What is returned -/

/-- What is returned is in `P`, whatever the calls are answered. -/
def Yields (P : α → Prop) (x : Comp σ ι ρ ε α) : Prop :=
  ∀ (ω : Oracle ι ρ) (s : σ) (tr : Trace ι ρ) (a : α),
    (Prog.run ω (x s) tr).value = .ok a → P a

namespace Yields

variable {P : α → Prop} {P' : β → Prop}

theorem any (x : Comp σ ι ρ ε α) : Yields (fun _ => True) x := fun _ _ _ _ _ => trivial

theorem pure {a : α} (h : P a) : Yields P (Pure.pure a : Comp σ ι ρ ε α) := by
  rintro ω s tr _ ⟨⟩
  exact h

theorem lift {r : Except ε α} (h : ∀ a, r = .ok a → P a) :
    Yields P (Comp.lift r : Comp σ ι ρ ε α) :=
  fun _ _ _ a ha => h a ha

/-- After a check its condition holds. -/
theorem ensure (c : Prop) [Decidable c] (e : ε) :
    Yields (fun _ => c) (Comp.ensure c e : Comp σ ι ρ ε Unit) := by
  intro ω s tr a h
  rw [run_ensure] at h
  dsimp only at h
  split at h
  · assumption
  · cases h

theorem bind {x : Comp σ ι ρ ε α} {f : α → Comp σ ι ρ ε β} (hx : Yields P x)
    (hf : ∀ a, P a → Yields P' (f a)) : Yields P' (x >>= f) := by
  intro ω s tr b h
  rw [run_bind] at h
  split at h
  · rename_i a ha
    exact hf a (hx ω s tr a ha) ω _ _ b h
  · cases h

/-- The first part does not matter. -/
theorem of_rest {x : Comp σ ι ρ ε α} {f : α → Comp σ ι ρ ε β} (hf : ∀ a, Yields P' (f a)) :
    Yields P' (x >>= f) := (any x).bind fun a _ => hf a

end Yields

end Comp

end Prog
