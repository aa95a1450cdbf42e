/-
  Xlurm.Json.Format

  How the values of a type are written as JSON values and read back.

  A `Format` carries the proof that what it writes is read back.  The reading
  side accepts what derived readers accept: an object in any order of its
  fields, the fields of a struct by position, and a variant without content as
  a string or as an object.
-/

import Xlurm.Json.Text

namespace Json

structure Format (α : Type) where
  encode : α → Json
  decode : Json → Option α
  /-- The values that are read back. -/
  Valid : α → Prop
  depth : Nat
  native : ∀ a, Valid a → Native depth (encode a)
  round_trip : ∀ a, Valid a → decode (encode a) = some a

namespace Format

variable {α : Type}

theorem native_le (f : Format α) {a : α} {d : Nat} (ha : f.Valid a) (hle : f.depth ≤ d) :
    Native d (f.encode a) :=
  (f.native a ha).mono hle

/-! ## Numbers and strings -/

/-- Unsigned integers of `bits` bits. -/
def unsigned (bits : Nat) (hbits : bits ≤ 64) : Format Nat where
  encode n := num (.ofNat n)
  decode
    | num (.ofNat n) => if n < 2 ^ bits then some n else none
    | _ => none
  Valid n := n < 2 ^ bits
  depth := 0
  native := by
    intro n hn
    have hle : 2 ^ bits ≤ 2 ^ 64 := Nat.pow_le_pow_right (by decide) hbits
    apply Native.num
    · show -2 ^ 63 ≤ (n : Int)
      omega
    · show (n : Int) < 2 ^ 64
      omega
  round_trip _ hn := if_pos hn

/-- Signed integers of 32 bits. -/
def int32 : Format Int where
  encode n := num n
  decode
    | num n => if -2 ^ 31 ≤ n ∧ n < 2 ^ 31 then some n else none
    | _ => none
  Valid n := -2 ^ 31 ≤ n ∧ n < 2 ^ 31
  depth := 0
  native n hn := Native.num 0 (by omega) (by omega)
  round_trip n hn := if_pos hn

def byte : Format UInt8 :=
  let octet := unsigned 8 (by decide)
  { encode := fun b => octet.encode b.toNat
    decode := fun j => (octet.decode j).map UInt8.ofNat
    Valid := fun _ => True
    depth := 0
    native := fun b _ => octet.native b.toNat b.toNat_lt
    round_trip := by
      intro b _
      rw [octet.round_trip b.toNat b.toNat_lt, Option.map_some, UInt8.ofNat_toNat] }

def string : Format String where
  encode s := str s
  decode
    | str s => some s
    | _ => none
  Valid _ := True
  depth := 0
  native s _ := Native.str 0 s
  round_trip _ _ := rfl

/-! ## Options and lists -/

/-- `null`, or the value; no value is written as `null`. -/
def option (f : Format α) (hne : ∀ a, f.encode a ≠ null) : Format (Option α) where
  encode
    | none => null
    | some a => f.encode a
  decode
    | null => some none
    | j => (f.decode j).map some
  Valid o := ∀ a ∈ o, f.Valid a
  depth := f.depth
  native := by
    intro o ho
    cases o with
    | none => exact Native.null _
    | some a => exact f.native a (ho a rfl)
  round_trip := by
    intro o ho
    cases o with
    | none => rfl
    | some a =>
        have hread := f.round_trip a (ho a rfl)
        dsimp only
        split
        · rename_i heq
          exact absurd heq (hne a)
        · rw [hread]
          rfl

theorem mapM_map {β : Type} {encode : α → β} {decode : β → Option α} {as : List α}
    (h : ∀ a ∈ as, decode (encode a) = some a) : (as.map encode).mapM decode = some as := by
  induction as with
  | nil => rfl
  | cons a as ih =>
      have hread := h a List.mem_cons_self
      have hrest := ih fun a ha => h a (List.mem_cons_of_mem _ ha)
      rw [List.map_cons, List.mapM_cons, hread, hrest]
      rfl

def list (f : Format α) : Format (List α) where
  encode as := arr (as.map f.encode)
  decode
    | arr items => items.mapM f.decode
    | _ => none
  Valid as := ∀ a ∈ as, f.Valid a
  depth := f.depth + 1
  native := by
    intro as h
    apply Native.arr
    intro j hj
    obtain ⟨a, ha, rfl⟩ := List.mem_map.mp hj
    exact f.native a (h a ha)
  round_trip _ h := mapM_map fun a ha => f.round_trip a (h a ha)

/-! ## Sorted maps -/

/-- Put an entry in its place; the last entry of a key counts. -/
def insertEntry (entries : List (String × α)) (entry : String × α) : List (String × α) :=
  match entries with
  | [] => [entry]
  | first :: rest =>
      if entry.1 < first.1 then entry :: first :: rest
      else if entry.1 = first.1 then entry :: rest
      else first :: insertEntry rest entry

theorem insertEntry_last {entries : List (String × α)} {entry : String × α}
    (h : ∀ other ∈ entries, other.1 < entry.1) : insertEntry entries entry = entries ++ [entry] := by
  induction entries with
  | nil => rfl
  | cons first rest ih =>
      have hfirst := h first List.mem_cons_self
      have hrest := ih fun other hother => h other (List.mem_cons_of_mem _ hother)
      have hne : entry.1 ≠ first.1 := fun heq => String.lt_irrefl _ (heq ▸ hfirst)
      rw [insertEntry, if_neg (String.lt_asymm hfirst), if_neg hne, hrest]
      rfl

/-- In the order of the keys, each key once. -/
def Sorted (entries : List (String × α)) : Prop := entries.Pairwise fun a b => a.1 < b.1

theorem foldl_insertEntry {done entries : List (String × α)} (h : Sorted (done ++ entries)) :
    entries.foldl insertEntry done = done ++ entries := by
  induction entries generalizing done with
  | nil => rw [List.append_nil]; rfl
  | cons entry rest ih =>
      have hlast : ∀ other ∈ done, other.1 < entry.1 := fun other hother =>
        (List.pairwise_append.mp h).2.2 other hother entry List.mem_cons_self
      have happend : done ++ entry :: rest = done ++ [entry] ++ rest := by simp
      rw [happend] at h ⊢
      rw [List.foldl_cons, insertEntry_last hlast, ih h]

/-- Maps with their keys in order. -/
def map (f : Format α) : Format (List (String × α)) where
  encode entries := obj (entries.map fun entry => (entry.1, f.encode entry.2))
  decode
    | obj entries => do
        let entries ← entries.mapM fun entry => (f.decode entry.2).map fun a => (entry.1, a)
        return entries.foldl insertEntry []
    | _ => none
  Valid entries := Sorted entries ∧ ∀ entry ∈ entries, f.Valid entry.2
  depth := f.depth + 1
  native := by
    rintro entries ⟨_, h⟩
    apply Native.obj
    intro entry hentry
    obtain ⟨source, hsource, rfl⟩ := List.mem_map.mp hentry
    exact f.native source.2 (h source hsource)
  round_trip := by
    rintro entries ⟨hsorted, h⟩
    have hread : (entries.map fun entry => (entry.1, f.encode entry.2)).mapM
        (fun entry => (f.decode entry.2).map fun a => (entry.1, a)) = some entries := by
      apply mapM_map
      intro entry hentry
      rw [f.round_trip entry.2 (h entry hentry), Option.map_some]
    dsimp only
    rw [hread]
    have hsame : entries.foldl insertEntry [] = [] ++ entries := foldl_insertEntry hsorted
    show some (entries.foldl insertEntry []) = some entries
    rw [hsame, List.nil_append]

end Format

@[simp] theorem lookup_cons_of_ne {β : Type} {name key : String} (value : β)
    (entries : List (String × β)) (hne : name ≠ key) :
    ((key, value) :: entries).lookup name = entries.lookup name := by
  rw [List.lookup_cons, beq_eq_false_iff_ne.mpr hne]

/-! ## Structs -/

/-- The fields that a message gives of a struct: by name in an object, by position in an array. -/
structure Members where
  entries : List (String × Json)
  named : Bool

/-- No field of the struct twice and, if `deny` is set, no other field. -/
def Listed (names : List String) (deny : Bool) (keys : List String) : Prop :=
  (∀ name ∈ names, keys.count name ≤ 1) ∧ (deny = true → ∀ key ∈ keys, key ∈ names)

instance (names : List String) (deny : Bool) (keys : List String) :
    Decidable (Listed names deny keys) :=
  inferInstanceAs (Decidable (_ ∧ _))

/-- The fields of a struct with the fields `names`. -/
def members (names : List String) (deny : Bool) : Json → Option Members
  | obj entries =>
      if Listed names deny (entries.map Prod.fst) then some ⟨entries, true⟩ else none
  | arr items => if items.length ≤ names.length then some ⟨names.zip items, false⟩ else none
  | _ => none

theorem members_of_listed {names : List String} {deny : Bool} {entries : List (String × Json)}
    (h : Listed names deny (entries.map Prod.fst)) :
    members names deny (obj entries) = some ⟨entries, true⟩ :=
  if_pos h

/-- A field that is left out when `skip` is set. -/
def fieldUnless (skip : Bool) (name : String) (j : Json) : List (String × Json) :=
  if skip then [] else [(name, j)]

theorem native_fieldUnless {d : Nat} {j : Json} (skip : Bool) (name : String) (h : Native d j) :
    ∀ entry ∈ fieldUnless skip name j, Native d entry.2 := by
  intro entry hentry
  cases skip with
  | true => cases hentry
  | false => exact List.mem_singleton.mp hentry ▸ h

namespace Members

variable {α : Type}

def get (m : Members) (name : String) : Option Json := m.entries.lookup name

/-- A field that must be there. -/
def required (m : Members) (f : Format α) (name : String) : Option α := (m.get name).bind f.decode

/-- A field that an object may leave out. -/
def optional (m : Members) (f : Format (Option α)) (name : String) : Option (Option α) :=
  match m.get name with
  | some j => f.decode j
  | none => if m.named then some none else none

/-- A field with a default value. -/
def defaulted (m : Members) (f : Format α) (default : α) (name : String) : Option α :=
  match m.get name with
  | some j => f.decode j
  | none => some default

end Members

/-! ## Variants -/

/-- The name of a variant, and its content. -/
def variant : Json → Option (String × Option Json)
  | str name => some (name, none)
  | obj [(name, content)] => some (name, some content)
  | _ => none

/-- A variant without content. -/
def bare {α : Type} (a : α) : Option Json → Option α
  | none | some null => some a
  | some _ => none

/-- A variant whose content is read by `decode`. -/
def content {α β : Type} (decode : Json → Option β) (wrap : β → α) (j : Option Json) : Option α :=
  (j.bind decode).map wrap

theorem native_content {α : Type} (f : Format α) (name : String) {a : α} {d : Nat} (ha : f.Valid a)
    (hle : f.depth ≤ d) : Native (d + 1) (obj [(name, f.encode a)]) :=
  Native.obj d (List.forall_mem_singleton.mpr (f.native_le ha hle))

def decodeVariant {α : Type} (variants : List (String × (Option Json → Option α))) (j : Json) :
    Option α := do
  let (name, j) ← variant j
  let read ← variants.lookup name
  read j

theorem decodeVariant_bare {α : Type} {variants : List (String × (Option Json → Option α))}
    {name : String} {a : α} (h : variants.lookup name = some (bare a)) :
    decodeVariant variants (str name) = some a := by
  show (variants.lookup name).bind (fun read => read none) = some a
  rw [h]
  rfl

theorem decodeVariant_content {α β : Type} {variants : List (String × (Option Json → Option α))}
    {name : String} (f : Format β) (wrap : β → α) {b : β}
    (h : variants.lookup name = some (content f.decode wrap)) (hb : f.Valid b) :
    decodeVariant variants (obj [(name, f.encode b)]) = some (wrap b) := by
  show (variants.lookup name).bind (fun read => read (some (f.encode b))) = some (wrap b)
  rw [h]
  show (f.decode (f.encode b)).map wrap = some (wrap b)
  rw [f.round_trip b hb, Option.map_some]

/-- An enumeration whose values are written by their names. -/
def Format.enumeration {α : Type} (all : List α) (name : α → String) (hall : ∀ a, a ∈ all)
    (hname : ∀ a b, name a = name b → a = b) : Format α where
  encode a := str (name a)
  decode := decodeVariant (all.map fun a => (name a, bare a))
  Valid _ := True
  depth := 0
  native a _ := Native.str 0 (name a)
  round_trip := by
    intro a _
    apply decodeVariant_bare
    have hlookup : (all.map fun a => (name a, bare a)).lookup (name a) = some (bare a) := by
      have ha := hall a
      clear hall
      induction all with
      | nil => cases ha
      | cons first rest ih =>
          rw [List.map_cons, List.lookup_cons]
          by_cases heq : name a = name first
          · rw [hname a first heq, beq_self_eq_true]
          · have hne : (name a == name first) = false := beq_eq_false_iff_ne.mpr heq
            rw [hne]
            exact ih ((List.mem_cons.mp ha).resolve_left fun h => heq (congrArg name h))
    exact hlookup

end Json
