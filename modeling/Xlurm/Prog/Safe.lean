/-
  Xlurm.Prog.Safe

  A program logic for `Prog` trees running in a shared world `W`.

  A `Spec` gives every call a condition `pre` that has to hold when the call
  is reached, and a relation `post` that says how the world may change and
  what may be answered.  `Safe T Q p w` means: started in `w`, the program
  meets `pre` at every call it reaches, and if it finishes, `Q` holds.
  Since `pre` is checked at every call, an invariant put into it holds at every
  point where the program can be interrupted, stopped, or observed.

  `Safe.interp` composes two such logics: if every handler keeps to the
  contract of the call it implements, a program that is safe against the
  contracts is safe when its calls are replaced by the handlers.
-/

import Xlurm.Prog.Basic

namespace Prog

variable {σ τ ι ι' : Type} {ρ : ι → Type} {ρ' : ι' → Type} {α β ε W W' : Type}

/-- What a call requires and what it may do to the world `W`. -/
structure Spec (σ ι : Type) (ρ : ι → Type) (W : Type) where
  pre : (i : ι) → σ → W → Prop
  post : (i : ι) → σ → W → ρ i → W → Prop

namespace Spec

/-- The specification as seen by a program whose state is shown through `c`. -/
def comap (T : Spec σ ι ρ W) (c : τ → σ) : Spec τ ι ρ W where
  pre i t := T.pre i (c t)
  post i t := T.post i (c t)

/-- Calls of which nothing is required and nothing is known. -/
def any (σ ι : Type) (ρ : ι → Type) : Spec σ ι ρ Unit where
  pre _ _ _ := True
  post _ _ _ _ _ := True

/-- Calls in `P`, of which nothing is known. -/
def calls (σ : Type) (P : ι → Prop) : Spec σ ι ρ Unit where
  pre i _ _ := P i
  post _ _ _ _ _ := True

end Spec

/-- Every call `p` reaches from `w` meets its precondition, and `Q` holds
    wherever `p` finishes. -/
def Safe (T : Spec σ ι ρ W) (Q : σ → α → W → Prop) : Prog σ ι ρ α → W → Prop
  | ret s a, w => Q s a w
  | call s i k, w => T.pre i s w ∧ ∀ r w', T.post i s w r w' → (k r).Safe T Q w'

namespace Safe

variable {T : Spec σ ι ρ W} {Q Q' : σ → α → W → Prop}

theorem mono {p : Prog σ ι ρ α} {w : W} (hp : p.Safe T Q w)
    (hQ : ∀ s a w, Q s a w → Q' s a w) : p.Safe T Q' w := by
  induction p generalizing w with
  | ret s a => exact hQ s a w hp
  | call s i k ih => exact ⟨hp.1, fun r w' hr => ih r (hp.2 r w' hr)⟩

/-- Where nothing is required of a call. -/
theorem of_pre (hpre : ∀ i s w, T.pre i s w) (p : Prog σ ι ρ α) (w : W) :
    p.Safe T (fun _ _ _ => True) w := by
  induction p generalizing w with
  | ret s a => trivial
  | call s i k ih => exact ⟨hpre i s w, fun r w' _ => ih r w'⟩

theorem any (p : Prog σ ι ρ α) : p.Safe (Spec.any σ ι ρ) (fun _ _ _ => True) () :=
  of_pre (fun _ _ _ => trivial) p ()

theorem seq (c : τ → σ) (p : Prog τ ι ρ β) (f : τ → β → Prog σ ι ρ α) (w : W) :
    (p.seq c f).Safe T Q w ↔ p.Safe (T.comap c) (fun t b => (f t b).Safe T Q) w := by
  induction p generalizing w with
  | ret t b => exact Iff.rfl
  | call t i k ih =>
      refine and_congr Iff.rfl ⟨fun h r w' hr => ?_, fun h r w' hr => ?_⟩
      · exact (ih r w').mp (h r w' hr)
      · exact (ih r w').mpr (h r w' hr)

theorem bind (p : Prog σ ι ρ β) (f : σ → β → Prog σ ι ρ α) (w : W) :
    (p.bind f).Safe T Q w ↔ p.Safe T (fun s b => (f s b).Safe T Q) w :=
  seq id p f w

/-- Safety survives a change of the world that neither breaks a precondition
    or the final condition nor widens what a call may do. -/
theorem stable {R : W → W → Prop} {p : Prog σ ι ρ α} {w w' : W} (hp : p.Safe T Q w)
    (hR : R w w')
    (hpre : ∀ i s w w', R w w' → T.pre i s w → T.pre i s w')
    (hpost : ∀ i s w w' r w'', R w w' → T.post i s w' r w'' → T.post i s w r w'')
    (hQ : ∀ s a w w', R w w' → Q s a w → Q s a w') : p.Safe T Q w' := by
  cases p with
  | ret s a => exact hQ s a w w' hR hp
  | call s i k =>
      exact ⟨hpre i s w w' hR hp.1, fun r w'' hr => hp.2 r w'' (hpost i s w w' r w'' hR hr)⟩

/-- A run against an oracle whose answers the specification allows ends in a
    state that satisfies the final condition. -/
theorem run {ω : Oracle ι ρ} {p : Prog σ ι ρ α} {w : W} (hp : p.Safe T Q w)
    (hω : ∀ tr i s w, T.pre i s w → ∃ w', T.post i s w (ω tr i) w') (tr : Trace ι ρ) :
    ∃ w', Q (p.run ω tr).state (p.run ω tr).value w' := by
  induction p generalizing w tr with
  | ret s a => exact ⟨w, hp⟩
  | call s i k ih =>
      obtain ⟨w', hw'⟩ := hω tr i s w hp.1
      exact ih (ω tr i) (hp.2 _ w' hw') (tr ++ [⟨i, ω tr i⟩])

end Safe

/-- `p` makes this call, if the calls before it are answered so. -/
inductive Issues (i : ι) : Prog σ ι ρ α → Prop
  | here (s : σ) (k : ρ i → Prog σ ι ρ α) : Issues i (.call s i k)
  | later {s : σ} {j : ι} {k : ρ j → Prog σ ι ρ α} (r : ρ j) (rest : Issues i (k r)) :
      Issues i (.call s j k)

/-- Whatever is answered, all calls are in `P`. -/
theorem Safe.issues {P : ι → Prop} {Q : σ → α → Unit → Prop} {p : Prog σ ι ρ α} {i : ι}
    (hp : p.Safe (Spec.calls σ P) Q ()) (h : p.Issues i) : P i := by
  induction h with
  | here s k => exact hp.1
  | later r rest ih => exact ih (hp.2 r () trivial)

/-- One way in which `p`, started in `w`, may end. -/
inductive Ends (T : Spec σ ι ρ W) : Prog σ ι ρ α → W → σ → α → W → Prop
  | ret (s : σ) (a : α) (w : W) : Ends T (ret s a) w s a w
  | call {s s' : σ} {i : ι} {k : ρ i → Prog σ ι ρ α} {r : ρ i} {a : α} {w w' w'' : W}
      (post : T.post i s w r w') (rest : Ends T (k r) w' s' a w'') :
      Ends T (.call s i k) w s' a w''

namespace Safe

variable {T : Spec σ ι ρ W} {Q Q' : σ → α → W → Prop}

/-- Wherever a safe program ends, the final condition holds. -/
theorem ends {p : Prog σ ι ρ α} {w w' : W} {s : σ} {a : α} (hp : p.Safe T Q w)
    (h : Ends T p w s a w') : Q s a w' := by
  induction h with
  | ret s a w => exact hp
  | call post rest ih => exact ih (hp.2 _ _ post)

/-- A safe program whose calls all get an answer comes to an end. -/
theorem can_end {p : Prog σ ι ρ α} {w : W} (hp : p.Safe T Q w)
    (hpost : ∀ i s w, T.pre i s w → ∃ r w', T.post i s w r w') :
    ∃ s a w', Ends T p w s a w' := by
  induction p generalizing w with
  | ret s a => exact ⟨s, a, w, .ret s a w⟩
  | call s i k ih =>
      obtain ⟨r, w₁, hr⟩ := hpost i s w hp.1
      obtain ⟨s', a, w', hends⟩ := ih r (hp.2 r w₁ hr)
      exact ⟨s', a, w', .call hr hends⟩

/-! ## Handlers -/

/-- Every handler, started where its call's precondition and the invariant `J`
    of the lower world hold, is safe and keeps to the call's contract; the upper
    world is the abstraction `abs` of the lower one. -/
def Implements (T : Spec σ ι ρ W) (T' : Spec (σ × τ) ι' ρ' W') (abs : W' → W) (J : W' → Prop)
    (h : (i : ι) → τ → Prog τ ι' ρ' (ρ i)) : Prop :=
  ∀ i s t w, J w → T.pre i s (abs w) →
    (h i t).Safe (T'.comap fun t => (s, t))
      (fun _ r w' => J w' ∧ T.post i s (abs w) r (abs w')) w

/-- A program that is safe against the contracts is safe over the handlers. -/
theorem interp {T' : Spec (σ × τ) ι' ρ' W'} {abs : W' → W} {J : W' → Prop}
    {h : (i : ι) → τ → Prog τ ι' ρ' (ρ i)} (hh : Implements T T' abs J h)
    {p : Prog σ ι ρ α} {w : W'} (hp : p.Safe T Q (abs w)) (hJ : J w) (t : τ) :
    (p.interp h t).Safe T' (fun st a w => J w ∧ Q st.1 a (abs w)) w := by
  induction p generalizing w t with
  | ret s a => exact ⟨hJ, hp⟩
  | call s i k ih =>
      rw [Prog.interp, seq]
      refine mono (hh i s t w hJ hp.1) ?_
      rintro t' r w' ⟨hJ', hpost⟩
      exact ih r (hp.2 r (abs w') hpost) hJ' t'

/-- How a program may end does not depend on the handlers. -/
theorem interp_any {P : α → Prop} {h : (i : ι) → τ → Prog τ ι' ρ' (ρ i)} {p : Prog σ ι ρ α}
    (hp : p.Safe (Spec.any σ ι ρ) (fun _ a _ => P a) ()) (t : τ) :
    (p.interp h t).Safe (Spec.any (σ × τ) ι' ρ') (fun _ a _ => P a) () := by
  have hh : Implements (Spec.any σ ι ρ) (Spec.any (σ × τ) ι' ρ') id (fun _ => True) h :=
    fun i _ t _ _ _ => mono (any (h i t)) fun _ _ _ _ => ⟨trivial, trivial⟩
  have habs : p.Safe (Spec.any σ ι ρ) (fun _ a _ => P a) (id ()) := hp
  exact mono (interp hh habs trivial t) fun _ _ _ hQ => hQ.2

end Safe

/-! ## Weakest preconditions of computations -/

namespace Comp

/-- `x`, started in state `s` and world `w`, is safe and ends in `Q`. -/
def wp (T : Spec σ ι ρ W) (x : Comp σ ι ρ ε α) (Q : σ → Except ε α → W → Prop)
    (s : σ) (w : W) : Prop :=
  (x s).Safe T Q w

variable {T : Spec σ ι ρ W} {s : σ} {w : W}

theorem wp_mono {x : Comp σ ι ρ ε α} {Q Q' : σ → Except ε α → W → Prop}
    (hx : wp T x Q s w) (hQ : ∀ s r w, Q s r w → Q' s r w) : wp T x Q' s w :=
  Safe.mono hx hQ

@[simp] theorem wp_pure (a : α) (Q : σ → Except ε α → W → Prop) :
    wp T (pure a : Comp σ ι ρ ε α) Q s w ↔ Q s (.ok a) w := Iff.rfl

@[simp] theorem wp_get (Q : σ → Except ε σ → W → Prop) :
    wp T (get : Comp σ ι ρ ε σ) Q s w ↔ Q s (.ok s) w := Iff.rfl

@[simp] theorem wp_modify (f : σ → σ) (Q : σ → Except ε Unit → W → Prop) :
    wp T (modify f : Comp σ ι ρ ε Unit) Q s w ↔ Q (f s) (.ok ()) w := Iff.rfl

@[simp] theorem wp_throw (e : ε) (Q : σ → Except ε α → W → Prop) :
    wp T (throw e : Comp σ ι ρ ε α) Q s w ↔ Q s (.error e) w := Iff.rfl

@[simp] theorem wp_lift (r : Except ε α) (Q : σ → Except ε α → W → Prop) :
    wp T (lift r : Comp σ ι ρ ε α) Q s w ↔ Q s r w := Iff.rfl

@[simp] theorem wp_call (i : ι) (Q : σ → Except ε (ρ i) → W → Prop) :
    wp T (call i : Comp σ ι ρ ε (ρ i)) Q s w ↔
      T.pre i s w ∧ ∀ r w', T.post i s w r w' → Q s (.ok r) w' := Iff.rfl

@[simp] theorem wp_attempt (x : Comp σ ι ρ ε α)
    (Q : σ → Except ε (Except ε α) → W → Prop) :
    wp T (attempt x) Q s w ↔ wp T x (fun s r => Q s (.ok r)) s w :=
  Safe.bind (x s) _ w

@[simp] theorem wp_ensure (c : Prop) [Decidable c] (e : ε)
    (Q : σ → Except ε Unit → W → Prop) :
    wp T (ensure c e : Comp σ ι ρ ε Unit) Q s w ↔
      (c → Q s (.ok ()) w) ∧ (¬ c → Q s (.error e) w) := by
  unfold ensure
  by_cases h : c
  · simp only [h, forall_const, not_true_eq_false, false_implies, and_true]
    exact Iff.rfl
  · simp only [h, false_implies, not_false_eq_true, forall_const, true_and]
    exact Iff.rfl

/-- An error of the first part skips the second. -/
def andThen (f : α → Comp σ ι ρ ε β) (T : Spec σ ι ρ W) (Q : σ → Except ε β → W → Prop) :
    σ → Except ε α → W → Prop
  | s, .ok a, w => wp T (f a) Q s w
  | s, .error e, w => Q s (.error e) w

@[simp] theorem andThen_ok (f : α → Comp σ ι ρ ε β) (Q : σ → Except ε β → W → Prop) (a : α) :
    andThen f T Q s (.ok a) w ↔ wp T (f a) Q s w := Iff.rfl

@[simp] theorem andThen_error (f : α → Comp σ ι ρ ε β) (Q : σ → Except ε β → W → Prop)
    (e : ε) : andThen f T Q s (.error e) w ↔ Q s (.error e) w := Iff.rfl

@[simp] theorem wp_bind (x : Comp σ ι ρ ε α) (f : α → Comp σ ι ρ ε β)
    (Q : σ → Except ε β → W → Prop) :
    wp T (x >>= f) Q s w ↔ wp T x (andThen f T Q) s w := by
  show (Prog.bind (x s) _).Safe T Q w ↔ _
  rw [Safe.bind]
  constructor
  · intro h
    refine Safe.mono h ?_
    rintro s (e | a) w hs <;> exact hs
  · intro h
    refine Safe.mono h ?_
    rintro s (e | a) w hs <;> exact hs

/-- Prove a first part once and go on from what it guarantees. -/
theorem wp_bind_of {x : Comp σ ι ρ ε α} {f : α → Comp σ ι ρ ε β}
    {P : σ → Except ε α → W → Prop} {Q : σ → Except ε β → W → Prop}
    (hx : wp T x P s w) (hok : ∀ s a w, P s (.ok a) w → wp T (f a) Q s w)
    (herr : ∀ s e w, P s (.error e) w → Q s (.error e) w) : wp T (x >>= f) Q s w := by
  rw [wp_bind]
  refine wp_mono hx ?_
  rintro s (e | a) w hP
  · exact herr s e w hP
  · exact hok s a w hP

/-! ### Invariants -/

/-- From wherever `I` holds, `x` is safe and ends where `I` holds. -/
def Keeps (T : Spec σ ι ρ W) (I : σ → W → Prop) (x : Comp σ ι ρ ε α) : Prop :=
  ∀ s w, I s w → wp T x (fun s' _ w' => I s' w') s w

namespace Keeps

variable {I : σ → W → Prop} {x : Comp σ ι ρ ε α} {f : α → Comp σ ι ρ ε β}

theorem pure (a : α) : Keeps T I (Pure.pure a : Comp σ ι ρ ε α) := fun _ _ hI => hI

theorem get : Keeps T I (Comp.get : Comp σ ι ρ ε σ) := fun _ _ hI => hI

theorem lift (r : Except ε α) : Keeps T I (Comp.lift r : Comp σ ι ρ ε α) := fun _ _ hI => hI

theorem throw (e : ε) : Keeps T I (Comp.throw e : Comp σ ι ρ ε α) := fun _ _ hI => hI

theorem modify {g : σ → σ} (hg : ∀ s w, I s w → I (g s) w) :
    Keeps T I (Comp.modify g : Comp σ ι ρ ε Unit) := hg

theorem ensure (c : Prop) [Decidable c] (e : ε) :
    Keeps T I (Comp.ensure c e : Comp σ ι ρ ε Unit) := by
  intro s w hI
  rw [wp_ensure]
  exact ⟨fun _ => hI, fun _ => hI⟩

theorem call {i : ι} (hpre : ∀ s w, I s w → T.pre i s w)
    (hpost : ∀ s w r w', I s w → T.post i s w r w' → I s w') :
    Keeps T I (Comp.call i : Comp σ ι ρ ε (ρ i)) :=
  fun s w hI => ⟨hpre s w hI, fun r w' hr => hpost s w r w' hI hr⟩

theorem attempt (hx : Keeps T I x) : Keeps T I (Comp.attempt x) := by
  intro s w hI
  rw [wp_attempt]
  exact hx s w hI

theorem bind (hx : Keeps T I x) (hf : ∀ a, Keeps T I (f a)) : Keeps T I (x >>= f) := by
  intro s w hI
  apply wp_bind_of (hx s w hI)
  · exact fun s' a w' hI' => hf a s' w' hI'
  · exact fun _ _ _ hI' => hI'

/-- Go on where `I` still holds. -/
theorem wp_bind {Q : σ → Except ε β → W → Prop} (hx : Keeps T I x) (hI : I s w)
    (hok : ∀ s' a w', I s' w' → wp T (f a) Q s' w')
    (herr : ∀ s' e w', I s' w' → Q s' (.error e) w') : wp T (x >>= f) Q s w :=
  wp_bind_of (hx s w hI) hok herr

end Keeps

/-- `x` keeps `I`, returns something in `R`, and fails with an error in `E`. -/
def Within (T : Spec σ ι ρ W) (I : σ → W → Prop) (R : α → Prop) (E : ε → Prop)
    (x : Comp σ ι ρ ε α) : Prop :=
  ∀ s w, I s w → wp T x
    (fun s' r w' => I s' w' ∧ (∀ a, r = .ok a → R a) ∧ ∀ e, r = .error e → E e) s w

namespace Within

variable {I : σ → W → Prop} {R : α → Prop} {R' : β → Prop} {E E' : ε → Prop}
  {x : Comp σ ι ρ ε α} {f : α → Comp σ ι ρ ε β}

theorem mono {S : α → Prop} (hx : Within T I R E x) (hR : ∀ a, R a → S a)
    (hE : ∀ e, E e → E' e) : Within T I S E' x := by
  intro s w hI
  refine wp_mono (hx s w hI) ?_
  rintro s' r w' ⟨hI', hok, herr⟩
  exact ⟨hI', fun a ha => hR a (hok a ha), fun e he => hE e (herr e he)⟩

theorem pure {a : α} (ha : R a) : Within T I R E (Pure.pure a : Comp σ ι ρ ε α) := by
  refine fun s w hI => ⟨hI, ?_, nofun⟩
  rintro _ ⟨⟩
  exact ha

theorem throw {e : ε} (he : E e) : Within T I R E (Comp.throw e : Comp σ ι ρ ε α) := by
  refine fun s w hI => ⟨hI, nofun, ?_⟩
  rintro _ ⟨⟩
  exact he

theorem lift {r : Except ε α} (hok : ∀ a, r = .ok a → R a) (herr : ∀ e, r = .error e → E e) :
    Within T I R E (Comp.lift r : Comp σ ι ρ ε α) :=
  fun _ _ hI => ⟨hI, hok, herr⟩

theorem get {S : σ → Prop} (hS : ∀ s w, I s w → S s) :
    Within T I S E (Comp.get : Comp σ ι ρ ε σ) := by
  refine fun s w hI => ⟨hI, ?_, nofun⟩
  rintro _ ⟨⟩
  exact hS s w hI

theorem modify {g : σ → σ} (hg : ∀ s w, I s w → I (g s) w) :
    Within T I (fun _ => True) E (Comp.modify g : Comp σ ι ρ ε Unit) :=
  fun s w hI => ⟨hg s w hI, fun _ _ => trivial, nofun⟩

theorem ensure {c : Prop} [Decidable c] {e : ε} (he : ¬ c → E e) :
    Within T I (fun _ => c) E (Comp.ensure c e : Comp σ ι ρ ε Unit) := by
  intro s w hI
  rw [wp_ensure]
  refine ⟨fun hc => ⟨hI, fun _ _ => hc, nofun⟩, fun hc => ⟨hI, nofun, ?_⟩⟩
  rintro _ ⟨⟩
  exact he hc

theorem call {i : ι} {S : ρ i → Prop} (hpre : ∀ s w, I s w → T.pre i s w)
    (hpost : ∀ s w r w', I s w → T.post i s w r w' → I s w' ∧ S r) :
    Within T I S E (Comp.call i : Comp σ ι ρ ε (ρ i)) := by
  refine fun s w hI => ⟨hpre s w hI, fun r w' hr => ⟨(hpost s w r w' hI hr).1, ?_, nofun⟩⟩
  rintro _ ⟨⟩
  exact (hpost s w r w' hI hr).2

theorem bind (hx : Within T I R E x) (hf : ∀ a, R a → Within T I R' E (f a)) :
    Within T I R' E (x >>= f) := by
  intro s w hI
  apply wp_bind_of (hx s w hI)
  · rintro s' a w' ⟨hI', hok, _⟩
    exact hf a (hok a rfl) s' w' hI'
  · rintro s' e w' ⟨hI', _, herr⟩
    refine ⟨hI', nofun, ?_⟩
    rintro _ ⟨⟩
    exact herr e rfl

theorem attempt (hx : Within T I R E x) :
    Within T I (fun r => (∀ a, r = .ok a → R a) ∧ ∀ e, r = .error e → E e) E'
      (Comp.attempt x) := by
  intro s w hI
  rw [wp_attempt]
  refine wp_mono (hx s w hI) ?_
  rintro s' r w' ⟨hI', hr⟩
  refine ⟨hI', ?_, nofun⟩
  rintro _ ⟨⟩
  exact hr

end Within

end Comp

end Prog
