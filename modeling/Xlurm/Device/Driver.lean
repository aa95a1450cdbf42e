/-
  Xlurm.Device.Driver

  Calls into a vendor's library, as `device/*.rs` makes them.

  A call returns a code and may leave a value in each of its out-parameters;
  what it does not touch keeps the value the caller put there.  A buffer may be
  written in any of its places.  What a library does is an oracle: every answer
  may depend on everything that was asked before.
-/

import Mathlib.Data.List.Forall2
import Xlurm.Json.Codec
import Xlurm.Model.Types
import Xlurm.Prog.Oracle

namespace Xlurm

open Prog.Comp (call lift throw attempt ensure)

/-- The out-parameters of a function: one number, a text buffer, or a buffer of numbers
    together with a count.  `int` is C's, with 32 bits; `uint` stands for the unsigned types
    and for pointers, null being 0. -/
inductive Shape
  | int | uint | bytes | ints | uints
  deriving DecidableEq

/-- What a call may leave there: `none` is what it does not touch. -/
@[reducible] def Shape.Out : Shape → Type
  | int => Option Int32
  | uint => Option Nat
  | bytes => Nat → Option UInt8
  | ints => (Nat → Option Int32) × Option Int32
  | uints => (Nat → Option Nat) × Option Nat

/-- A call of the function `name`. -/
structure Ffi where
  name : String
  args : List Int
  shape : Shape
  deriving DecidableEq

/-- The return code, and the out-parameters. -/
structure Returned (α : Type) where
  code : Int
  out : α

@[reducible] def Ffi.Reply (f : Ffi) : Type := Returned f.shape.Out

abbrev Driver (α : Type) := Prog.Comp Unit Ffi Ffi.Reply Error α

/-- The behaviour of a vendor's library. -/
abbrev Vendor := Prog.Oracle Ffi Ffi.Reply

/-- What was asked, and the answers. -/
abbrev Asked := Prog.Trace Ffi Ffi.Reply

/-- The answer to the call after those in `asked`. -/
def Vendor.answer (ω : Vendor) (asked : Asked) (name : String) (args : List Int) (shape : Shape) :
    Returned shape.Out := ω asked ⟨name, args, shape⟩

/-- A call with its answer. -/
def asked (name : String) (args : List Int) (shape : Shape) (answer : Returned shape.Out) :
    Σ f : Ffi, f.Reply := ⟨⟨name, args, shape⟩, answer⟩

/-- `check`, which each of the modules has for its own library. -/
def check (api operation : String) (code : Int) : Driver Unit :=
  ensure (code = 0) (operation ++ " failed with " ++ api ++ " error " ++ toString code)

/-- Call a function and check its return code. -/
def invoke (api operation : String) (args : List Int) (shape : Shape) : Driver shape.Out := do
  let answer ← call (⟨operation, args, shape⟩ : Ffi)
  check api operation answer.code
  return answer.out

/-- `.context(..)`. -/
def withContext {α : Type} (message : String) (x : Driver α) : Driver α := do
  match ← attempt x with
  | .ok a => return a
  | .error e => throw (message ++ ": " ++ e)

/-- `.unwrap_or("unknown")`. -/
def orUnknown (x : Driver String) : Driver String := do
  match ← attempt x with
  | .ok status => return status
  | .error _ => return "unknown"

/-- One after the other. -/
def each {α β : Type} (f : α → Driver β) : List α → Driver (List β)
  | [] => return []
  | a :: as => do
      let b ← f a
      let bs ← each f as
      return b :: bs

/-- The first `size` entries of a buffer that was filled with `initial`. -/
def buffer {α : Type} (out : Nat → Option α) (size : Nat) (initial : α) : List α :=
  (List.range size).map fun i => (out i).getD initial

/-- `CStr::from_bytes_until_nul` and `to_str`; the position in the error of an invalid
    text is left out. -/
def cText (operation : String) (bytes : List UInt8) : Except Error String :=
  if 0 ∈ bytes then
    match Json.ofUtf8 (bytes.takeWhile (· ≠ 0)) with
    | some cs => .ok (String.ofList cs)
    | none => .error ("invalid UTF-8 from " ++ operation)
  else .error ("unterminated " ++ operation ++ " response: data provided does not contain a nul")

theorem cText_toOption (operation operation' : String) (bytes : List UInt8) :
    (cText operation bytes).toOption = (cText operation' bytes).toOption := by
  unfold cText
  split
  · split
    · rfl
    · rfl
  · rfl

/-- `validate`. -/
def validate (devices : List Device) : Except Error (List Device) :=
  if devices = [] then .error "no compute devices discovered"
  else if (devices.map (·.key)).Nodup then .ok devices
  else .error "duplicate device IDs in inventory"

/-- Every element on the left of related lists has its partner. -/
theorem exists_of_mem_left {α β : Type} {R : α → β → Prop} {as : List α} {bs : List β}
    (h : List.Forall₂ R as bs) {a : α} (ha : a ∈ as) : ∃ b ∈ bs, R a b := by
  induction h with
  | nil => cases ha
  | cons hhead _ ih =>
      rcases List.mem_cons.mp ha with rfl | ha
      · exact ⟨_, List.mem_cons_self, hhead⟩
      · obtain ⟨b, hb, hab⟩ := ih ha
        exact ⟨b, List.mem_cons_of_mem _ hb, hab⟩

theorem exists_of_mem_right {α β : Type} {R : α → β → Prop} {as : List α} {bs : List β}
    (h : List.Forall₂ R as bs) {b : β} (hb : b ∈ bs) : ∃ a ∈ as, R a b :=
  exists_of_mem_left h.flip hb

theorem validate_eq_ok {devices ds : List Device} :
    validate devices = .ok ds ↔ ds = devices ∧ ds ≠ [] ∧ (ds.map (·.key)).Nodup := by
  rw [validate]
  split
  · rename_i hempty
    constructor
    · rintro ⟨⟩
    · rintro ⟨rfl, hne, -⟩
      exact absurd hempty hne
  · rename_i hne
    split
    · rename_i hnodup
      constructor
      · rintro ⟨⟩
        exact ⟨rfl, hne, hnodup⟩
      · rintro ⟨rfl, -, -⟩
        rfl
    · rename_i hdup
      constructor
      · rintro ⟨⟩
      · rintro ⟨rfl, -, hnodup⟩
        exact absurd hnodup hdup

/-! ## Running a driver -/

section Running

open Prog (Spec)
open Prog.Comp

variable {α β : Type} {ω : Vendor} {tr : Asked}

theorem wp_invoke {api operation : String} {args : List Int} {shape : Shape}
    {Q : Unit → Except Error shape.Out → Asked → Prop}
    (hok : ∀ out, ω.answer tr operation args shape = ⟨0, out⟩ →
      Q () (.ok out) (tr ++ [asked operation args shape ⟨0, out⟩]))
    (herr : ∀ e tr', Q () (.error e) tr') :
    wp (Spec.oracle Unit ω) (invoke api operation args shape) Q () tr := by
  rw [invoke, wp_bind, wp_oracle_call, andThen_ok, wp_bind, check, wp_ensure]
  constructor
  · intro hcode
    have hanswer : ω tr ⟨operation, args, shape⟩ = ⟨0, (ω tr ⟨operation, args, shape⟩).out⟩ := by
      rw [← hcode]
    have hdone := hok _ hanswer
    rw [asked, ← hanswer] at hdone
    exact hdone
  · intro _
    exact herr _ _

/-- The call is made, whether it succeeds or fails. -/
theorem wp_invoke_asked {api operation : String} {args : List Int} {shape : Shape}
    {Q : Unit → Except Error shape.Out → Asked → Prop}
    (hok : ∀ out, Q () (.ok out) (tr ++ [asked operation args shape ⟨0, out⟩]))
    (herr : ∀ answer e, answer.code ≠ 0 →
      Q () (.error e) (tr ++ [asked operation args shape answer])) :
    wp (Spec.oracle Unit ω) (invoke api operation args shape) Q () tr := by
  rw [invoke, wp_bind, wp_oracle_call, andThen_ok, wp_bind, check, wp_ensure]
  generalize ω tr ⟨operation, args, shape⟩ = answer
  obtain ⟨code, out⟩ := answer
  constructor
  · rintro rfl
    exact hok out
  · intro hcode
    exact herr ⟨code, out⟩ _ hcode

/-- A call whose answer is known, and a success. -/
theorem wp_invoke_ok {api operation : String} {args : List Int} {shape : Shape} {out : shape.Out}
    {Q : Unit → Except Error shape.Out → Asked → Prop}
    (hanswer : ω.answer tr operation args shape = ⟨0, out⟩)
    (hQ : Q () (.ok out) (tr ++ [asked operation args shape ⟨0, out⟩])) :
    wp (Spec.oracle Unit ω) (invoke api operation args shape) Q () tr := by
  have hcall : ω tr ⟨operation, args, shape⟩ = ⟨0, out⟩ := hanswer
  rw [invoke, wp_bind, wp_oracle_call, hcall, andThen_ok, wp_bind, check, wp_ensure]
  exact ⟨fun _ => hQ, fun hne => absurd rfl hne⟩

theorem wp_withContext {message : String} {x : Driver α} {Q : Unit → Except Error α → Asked → Prop}
    (h : wp (Spec.oracle Unit ω) x (fun _ r tr' =>
      (∀ a, r = .ok a → Q () (.ok a) tr') ∧
        ∀ e, r = .error e → Q () (.error (message ++ ": " ++ e)) tr') () tr) :
    wp (Spec.oracle Unit ω) (withContext message x) Q () tr := by
  rw [withContext, wp_bind, wp_attempt]
  apply wp_mono h
  rintro _ (e | a) tr' ⟨hok, herr⟩
  · exact herr e rfl
  · exact hok a rfl

/-- A status that is known was reported by the query. -/
theorem wp_orUnknown {x : Driver String} {P : Asked → Prop} {known : String}
    (hknown : known ≠ "unknown")
    (h : wp (Spec.oracle Unit ω) x (fun _ r tr' => r = .ok known → P tr') () tr) :
    wp (Spec.oracle Unit ω) (orUnknown x) (fun _ r tr' => r = .ok known → P tr') () tr := by
  rw [orUnknown, wp_bind, wp_attempt]
  apply wp_mono h
  rintro _ (e | status) tr' hP
  · intro hr
    exact absurd (Except.ok.inj hr).symm hknown
  · exact hP

/-- The calls `own` were made for the elements of a list, one after the other, with what each
    of them gave. -/
inductive Each (R : α → β → Asked → Prop) : List α → List β → Asked → Prop
  | nil : Each R [] [] []
  | cons {a : α} {b : β} {own rest : Asked} {as : List α} {bs : List β}
      (head : R a b own) (tail : Each R as bs rest) : Each R (a :: as) (b :: bs) (own ++ rest)

theorem wp_each {R : α → β → Asked → Prop} {f : α → Driver β} {as : List α}
    (hf : ∀ a ∈ as, ∀ tr, wp (Spec.oracle Unit ω) (f a) (fun _ r tr' =>
      ∀ b, r = .ok b → ∃ own, tr' = tr ++ own ∧ R a b own) () tr) :
    wp (Spec.oracle Unit ω) (each f as) (fun _ r tr' =>
      ∀ bs, r = .ok bs → ∃ own, tr' = tr ++ own ∧ Each R as bs own) () tr := by
  induction as generalizing tr with
  | nil =>
      rintro bs ⟨⟩
      exact ⟨[], (List.append_nil tr).symm, .nil⟩
  | cons a as ih =>
      rw [each]
      apply wp_bind_of (hf a List.mem_cons_self tr)
      · rintro _ b tr₁ hb
        obtain ⟨own, rfl, hhead⟩ := hb b rfl
        apply wp_bind_of (ih fun a' ha' => hf a' (List.mem_cons_of_mem _ ha'))
        · rintro _ bs tr₂ hbs
          obtain ⟨rest, rfl, htail⟩ := hbs bs rfl
          rintro _ ⟨⟩
          exact ⟨own ++ rest, List.append_assoc tr own rest, .cons hhead htail⟩
        · rintro _ e tr₂ _ _ ⟨⟩
      · rintro _ e tr₁ _ _ ⟨⟩

/-- What is yielded for every element. -/
theorem each_yields {S : α → β → Prop} {f : α → Driver β} {as : List α}
    (hf : ∀ a ∈ as, Yields (S a) (f a)) : Yields (List.Forall₂ S as) (each f as) := by
  induction as with
  | nil => exact Yields.pure .nil
  | cons a as ih =>
      have htail := ih fun a' ha' => hf a' (List.mem_cons_of_mem _ ha')
      exact (hf a List.mem_cons_self).bind fun b hb => htail.bind fun bs hbs =>
        Yields.pure (.cons hb hbs)

namespace Each

variable {R : α → β → Asked → Prop} {as : List α} {bs : List β} {own : Asked}

theorem imp {R' : α → β → Asked → Prop} (h : Each R as bs own)
    (hR : ∀ a b own, b ∈ bs → R a b own → R' a b own) : Each R' as bs own := by
  induction h with
  | nil => exact .nil
  | cons head tail ih =>
      apply Each.cons (hR _ _ _ List.mem_cons_self head)
      apply ih
      intro a b own hb
      exact hR a b own (List.mem_cons_of_mem _ hb)

end Each

end Running

/-! ## Buffers -/

variable {α : Type}

theorem take_buffer (out : Nat → Option α) {size count : Nat} (initial : α) (h : count ≤ size) :
    (buffer out size initial).take count = buffer out count initial := by
  rw [buffer, ← List.map_take, List.take_range, Nat.min_eq_left h, buffer]

end Xlurm
