/-
  Xlurm.Prog.Lockstep

  Two runs side by side.

  Two computations over one signature run against two oracles.  `S` relates
  their states and `E` the calls they make, with the replies.  `Lockstep` says
  that from related states and pasts both end in related states and pasts, both
  with the same error or both with values that `R` relates.  The rules follow
  the combinators of `Comp`.
-/

import Mathlib.Data.List.Forall2
import Xlurm.Prog.Basic

namespace Prog

variable {σ ι : Type} {ρ : ι → Type} {α β γ δ ε : Type}

/-! ## Related lists -/

section Lists

variable {R : α → β → Prop} {xs : List α} {ys : List β}

theorem forall₂_find? {p : α → Bool} {q : β → Bool} (h : List.Forall₂ R xs ys)
    (hpq : ∀ x y, R x y → p x = q y) : Option.Rel R (xs.find? p) (ys.find? q) := by
  induction h with
  | nil => exact Option.Rel.none
  | @cons x y _ _ hR _ ih =>
      rw [List.find?_cons, List.find?_cons, hpq x y hR]
      cases q y with
      | true => exact Option.Rel.some hR
      | false => exact ih

theorem forall₂_findIdx? {p : α → Bool} {q : β → Bool} (h : List.Forall₂ R xs ys)
    (hpq : ∀ x y, R x y → p x = q y) : xs.findIdx? p = ys.findIdx? q := by
  induction h with
  | nil => rfl
  | @cons x y _ _ hR _ ih => rw [List.findIdx?_cons, List.findIdx?_cons, hpq x y hR, ih]

theorem forall₂_getElem? (h : List.Forall₂ R xs ys) (i : Nat) : Option.Rel R xs[i]? ys[i]? := by
  induction h generalizing i with
  | nil => exact Option.Rel.none
  | cons hR _ ih =>
      cases i with
      | zero => exact Option.Rel.some hR
      | succ i => exact ih i

theorem forall₂_set {a : α} {b : β} (h : List.Forall₂ R xs ys) (hR : R a b) (i : Nat) :
    List.Forall₂ R (xs.set i a) (ys.set i b) := by
  induction h generalizing i with
  | nil => exact List.Forall₂.nil
  | cons hd hl ih =>
      cases i with
      | zero => exact List.Forall₂.cons hR hl
      | succ i => exact List.Forall₂.cons hd (ih i)

theorem forall₂_concat {a : α} {b : β} (h : List.Forall₂ R xs ys) (hR : R a b) :
    List.Forall₂ R (xs ++ [a]) (ys ++ [b]) := by
  induction h with
  | nil => exact List.Forall₂.cons hR List.Forall₂.nil
  | cons hd _ ih => exact List.Forall₂.cons hd ih

theorem forall₂_dropLast (h : List.Forall₂ R xs ys) :
    List.Forall₂ R xs.dropLast ys.dropLast := by
  induction h with
  | nil => exact List.Forall₂.nil
  | cons hd hl ih =>
      cases hl with
      | nil => exact List.Forall₂.nil
      | cons hd' hl' => exact List.Forall₂.cons hd ih

theorem forall₂_map_eq {f : α → γ} {g : β → γ} (h : List.Forall₂ R xs ys)
    (hfg : ∀ x y, R x y → f x = g y) : xs.map f = ys.map g := by
  induction h with
  | nil => rfl
  | cons hd _ ih => rw [List.map_cons, List.map_cons, hfg _ _ hd, ih]

end Lists

/-! ## Two runs -/

/-- The same error, or related values. -/
inductive SameResult (R : α → β → Prop) : Except ε α → Except ε β → Prop
  | ok {a b} (h : R a b) : SameResult R (.ok a) (.ok b)
  | error (e : ε) : SameResult R (.error e) (.error e)

namespace SameResult

variable {R R' : α → β → Prop}

theorem refl (r : Except ε α) : SameResult Eq r r := by
  cases r with
  | ok a => exact ok rfl
  | error e => exact error e

/-- Results that agree in full. -/
theorem eq {r r' : Except ε α} (h : SameResult Eq r r') : r = r' := by
  cases h with
  | ok h => rw [h]
  | error e => rfl

theorem mono {r : Except ε α} {r' : Except ε β} (h : SameResult R r r')
    (hR : ∀ a b, R a b → R' a b) : SameResult R' r r' := by
  cases h with
  | ok h => exact ok (hR _ _ h)
  | error e => exact error e

end SameResult

namespace Comp

/-- Two environments, with what relates the two runs in them. -/
structure Pairing (σ ι : Type) (ρ : ι → Type) where
  left : Oracle ι ρ
  right : Oracle ι ρ
  states : σ → σ → Prop
  calls : (Σ i, ρ i) → (Σ i, ρ i) → Prop

/-- The two pasts consist of related calls. -/
def Pairing.Pasts (P : Pairing σ ι ρ) (tr tr' : Trace ι ρ) : Prop := List.Forall₂ P.calls tr tr'

theorem Pairing.Pasts.concat {P : Pairing σ ι ρ} {tr tr' : Trace ι ρ} {c c' : Σ i, ρ i}
    (h : P.Pasts tr tr') (hc : P.calls c c') : P.Pasts (tr ++ [c]) (tr' ++ [c']) :=
  forall₂_concat h hc

variable (P : Pairing σ ι ρ)

/-- From related states and pasts, `x` and `y` lead to related ends. -/
def Lockstep (R : α → β → Prop) (x : Comp σ ι ρ ε α) (y : Comp σ ι ρ ε β) : Prop :=
  ∀ s s' tr tr', P.states s s' → P.Pasts tr tr' →
    SameResult R ((x s).run P.left tr).value ((y s').run P.right tr').value ∧
    P.states ((x s).run P.left tr).state ((y s').run P.right tr').state ∧
    P.Pasts ((x s).run P.left tr).trace ((y s').run P.right tr').trace

namespace Lockstep

variable {P} {R : α → β → Prop} {Q : γ → δ → Prop}

theorem pure {a : α} {b : β} (h : R a b) :
    Lockstep P R (Pure.pure a : Comp σ ι ρ ε α) (Pure.pure b) :=
  fun _ _ _ _ hs htr => ⟨SameResult.ok h, hs, htr⟩

theorem throw (e : ε) :
    Lockstep P R (Comp.throw e : Comp σ ι ρ ε α) (Comp.throw e : Comp σ ι ρ ε β) :=
  fun _ _ _ _ hs htr => ⟨SameResult.error e, hs, htr⟩

theorem lift {r : Except ε α} {r' : Except ε β} (h : SameResult R r r') :
    Lockstep P R (Comp.lift r : Comp σ ι ρ ε α) (Comp.lift r') :=
  fun _ _ _ _ hs htr => ⟨h, hs, htr⟩

theorem get : Lockstep P P.states (Comp.get : Comp σ ι ρ ε σ) Comp.get :=
  fun _ _ _ _ hs htr => ⟨SameResult.ok hs, hs, htr⟩

theorem modify {f g : σ → σ} (h : ∀ s s', P.states s s' → P.states (f s) (g s')) :
    Lockstep P (fun _ _ => True) (Comp.modify f : Comp σ ι ρ ε Unit) (Comp.modify g) :=
  fun s s' _ _ hs htr => ⟨SameResult.ok trivial, h s s' hs, htr⟩

/-- The same check; it holds wherever the computations go on. -/
theorem ensure {c d : Prop} [Decidable c] [Decidable d] (h : c ↔ d) (e : ε) :
    Lockstep P (fun _ _ => c ∧ d) (Comp.ensure c e : Comp σ ι ρ ε Unit) (Comp.ensure d e) := by
  intro s s' tr tr' hs htr
  rw [run_ensure, run_ensure]
  by_cases hc : c
  · rw [if_pos hc, if_pos (h.mp hc)]
    exact ⟨SameResult.ok ⟨hc, h.mp hc⟩, hs, htr⟩
  · rw [if_neg hc, if_neg fun hd => hc (h.mpr hd)]
    exact ⟨SameResult.error e, hs, htr⟩

/-- A call on either side; what is known of the past says how the replies are related. -/
theorem call {i j : ι} {V : ρ i → ρ j → Prop}
    (hreply : ∀ tr tr', P.Pasts tr tr' → V (P.left tr i) (P.right tr' j))
    (hcalls : ∀ r r', V r r' → P.calls ⟨i, r⟩ ⟨j, r'⟩) :
    Lockstep P V (Comp.call i : Comp σ ι ρ ε (ρ i)) (Comp.call j) := by
  intro s s' tr tr' hs htr
  have hV := hreply tr tr' htr
  exact ⟨SameResult.ok hV, hs, htr.concat (hcalls _ _ hV)⟩

theorem bind {x : Comp σ ι ρ ε α} {y : Comp σ ι ρ ε β} {f : α → Comp σ ι ρ ε γ}
    {g : β → Comp σ ι ρ ε δ} (hx : Lockstep P R x y)
    (hf : ∀ a b, R a b → Lockstep P Q (f a) (g b)) : Lockstep P Q (x >>= f) (y >>= g) := by
  intro s s' tr tr' hs htr
  obtain ⟨hvalue, hstate, htrace⟩ := hx s s' tr tr' hs htr
  rw [run_bind, run_bind]
  generalize (Prog.run P.left (x s) tr).value = u at hvalue ⊢
  generalize (Prog.run P.right (y s') tr').value = v at hvalue ⊢
  cases hvalue with
  | ok h => exact hf _ _ h _ _ _ _ hstate htrace
  | error e => exact ⟨SameResult.error e, hstate, htrace⟩

theorem attempt {x : Comp σ ι ρ ε α} {y : Comp σ ι ρ ε β} (h : Lockstep P R x y) :
    Lockstep P (SameResult R) (Comp.attempt x : Comp σ ι ρ ε (Except ε α)) (Comp.attempt y) := by
  intro s s' tr tr' hs htr
  obtain ⟨hvalue, hstate, htrace⟩ := h s s' tr tr' hs htr
  rw [run_attempt, run_attempt]
  exact ⟨SameResult.ok hvalue, hstate, htrace⟩

theorem mono {R' : α → β → Prop} {x : Comp σ ι ρ ε α} {y : Comp σ ι ρ ε β}
    (h : Lockstep P R x y) (hR : ∀ a b, R a b → R' a b) : Lockstep P R' x y := by
  intro s s' tr tr' hs htr
  obtain ⟨hvalue, hstate, htrace⟩ := h s s' tr tr' hs htr
  exact ⟨hvalue.mono hR, hstate, htrace⟩

end Lockstep

end Comp

end Prog
