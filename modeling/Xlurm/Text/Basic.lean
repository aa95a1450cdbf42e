/-
  Xlurm.Text.Basic

  The methods of Rust's `str` that split and trim, on lists of characters, and
  maps that are kept as lists of pairs.
-/

import Mathlib.Data.List.Basic
import Mathlib.Data.List.TakeWhile

namespace Text

/-- `char::is_whitespace`: the property `White_Space` of Unicode. -/
def isWhitespace (c : Char) : Bool :=
  (9 ≤ c.val && c.val ≤ 13) || c.val == 0x20 || c.val == 0x85 || c.val == 0xa0 ||
    c.val == 0x1680 || (0x2000 ≤ c.val && c.val ≤ 0x200a) || c.val == 0x2028 ||
    c.val == 0x2029 || c.val == 0x202f || c.val == 0x205f || c.val == 0x3000

/-- `trim_start`. -/
def trimStart (cs : List Char) : List Char := cs.dropWhile isWhitespace

/-- `trim_end_matches`. -/
def trimEndMatches (p : Char → Bool) (cs : List Char) : List Char :=
  (cs.reverse.dropWhile p).reverse

/-- `trim`. -/
def trim (cs : List Char) : List Char := trimEndMatches isWhitespace (trimStart cs)

/-- `split_once`. -/
def splitOnce (c : Char) : List Char → Option (List Char × List Char)
  | [] => none
  | x :: xs => if x = c then some ([], xs) else (splitOnce c xs).map fun p => (x :: p.1, p.2)

/-- `splitn`. -/
def splitn (c : Char) : Nat → List Char → List (List Char)
  | 0, _ => []
  | 1, cs => [cs]
  | n + 2, cs =>
      match splitOnce c cs with
      | none => [cs]
      | some (piece, rest) => piece :: splitn c (n + 1) rest

/-- `rsplit(c).next()`: what follows the last `c`. -/
def afterLast (c : Char) (cs : List Char) : List Char := (cs.reverse.takeWhile (· ≠ c)).reverse

/-- `strip_suffix` of one character. -/
def stripLast (c : Char) (cs : List Char) : List Char :=
  if cs.getLast? = some c then cs.dropLast else cs

/-- `strip_prefix`. -/
def stripPrefix (start cs : List Char) : Option (List Char) :=
  if start.isPrefixOf cs then some (cs.drop start.length) else none

/-- `lines`: a line ends at a line feed, which may follow a carriage return; the last one need
    not end. -/
def lines (cs : List Char) : List (List Char) :=
  let pieces := cs.splitOn '\n'
  pieces.dropLast.map (stripLast '\r') ++ pieces.getLast?.toList.filter (· ≠ [])

/-- `trim().is_empty()`. -/
def isBlank (cs : List Char) : Bool := trim cs == []

/-- `eq_ignore_ascii_case`. -/
def eqIgnoreAsciiCase (a b : List Char) : Bool := a.map Char.toLower == b.map Char.toLower

/-! ## Trimming -/

/-- Only blanks. -/
def Blank (cs : List Char) : Prop := ∀ c ∈ cs, isWhitespace c = true

theorem dropWhile_of_all {p : Char → Bool} {pad cs : List Char} (h : ∀ c ∈ pad, p c = true) :
    (pad ++ cs).dropWhile p = cs.dropWhile p := by
  rw [List.dropWhile_append, List.dropWhile_eq_nil_iff.mpr h, List.isEmpty_nil, if_pos rfl]

theorem trimEndMatches_append {p : Char → Bool} {cs pad : List Char} (h : ∀ c ∈ pad, p c = true) :
    trimEndMatches p (cs ++ pad) = trimEndMatches p cs := by
  rw [trimEndMatches, List.reverse_append, dropWhile_of_all, trimEndMatches]
  intro c hc
  exact h c (List.mem_reverse.mp hc)

theorem trimEndMatches_spec (p : Char → Bool) (cs : List Char) :
    ∃ pad, cs = trimEndMatches p cs ++ pad ∧ ∀ c ∈ pad, p c = true := by
  refine ⟨(cs.reverse.takeWhile p).reverse, ?_, ?_⟩
  · rw [trimEndMatches, ← List.reverse_append, List.takeWhile_append_dropWhile,
      List.reverse_reverse]
  · intro c hc
    exact List.mem_takeWhile_imp (List.mem_reverse.mp hc)

theorem trimStart_append {pad cs : List Char} (h : Blank pad) :
    trimStart (pad ++ cs) = trimStart cs := dropWhile_of_all h

theorem trimStart_spec (cs : List Char) : ∃ pad, cs = pad ++ trimStart cs ∧ Blank pad :=
  ⟨cs.takeWhile isWhitespace, List.takeWhile_append_dropWhile.symm,
    fun _ hc => List.mem_takeWhile_imp hc⟩

/-- Blanks at the start do not matter. -/
theorem trim_append_left {pad cs : List Char} (h : Blank pad) : trim (pad ++ cs) = trim cs := by
  rw [trim, trimStart_append h, trim]

/-- Nor at the end. -/
theorem trim_append_right {pad cs : List Char} (h : Blank pad) : trim (cs ++ pad) = trim cs := by
  obtain ⟨front, hcs, hfront⟩ := trimStart_spec cs
  by_cases hblank : trimStart cs = []
  · rw [hblank, List.append_nil] at hcs
    rw [trim, trim, hblank, hcs, trimStart_append hfront]
    show trimEndMatches _ (pad.dropWhile _) = _
    rw [List.dropWhile_eq_nil_iff.mpr h]
  · have hkeep : trimStart (cs ++ pad) = trimStart cs ++ pad := by
      show (cs ++ pad).dropWhile _ = cs.dropWhile _ ++ pad
      rw [List.dropWhile_append, if_neg]
      intro hempty
      exact hblank (List.isEmpty_iff.mp hempty)
    rw [trim, hkeep, trimEndMatches_append h, trim]

theorem trim_spec (cs : List Char) :
    ∃ front back, cs = front ++ trim cs ++ back ∧ Blank front ∧ Blank back := by
  obtain ⟨front, hfront, hblank⟩ := trimStart_spec cs
  obtain ⟨back, hback, hblank'⟩ := trimEndMatches_spec isWhitespace (trimStart cs)
  refine ⟨front, back, ?_, hblank, hblank'⟩
  rw [trim, List.append_assoc, ← hback]
  exact hfront

theorem trim_of_blank {cs : List Char} (h : Blank cs) : trim cs = [] := by
  rw [← List.append_nil cs, trim_append_left h]
  rfl

theorem trim_eq_self {cs : List Char} (h : ∀ c ∈ cs, isWhitespace c = false) : trim cs = cs := by
  have hkeep : ∀ {l : List Char}, (∀ c ∈ l, isWhitespace c = false) →
      l.dropWhile isWhitespace = l := by
    intro l hl
    cases l with
    | nil => rfl
    | cons c l =>
        apply List.dropWhile_cons_of_neg
        rw [hl c List.mem_cons_self]
        exact Bool.false_ne_true
  rw [trim, trimStart, hkeep h, trimEndMatches, hkeep, List.reverse_reverse]
  intro c hc
  exact h c (List.mem_reverse.mp hc)

theorem isBlank_iff {cs : List Char} : isBlank cs = true ↔ Blank cs := by
  rw [isBlank, beq_iff_eq]
  constructor
  · intro h
    obtain ⟨front, back, hcs, hfront, hback⟩ := trim_spec cs
    rw [hcs, h, List.append_nil]
    intro c hc
    rcases List.mem_append.mp hc with hc | hc
    · exact hfront c hc
    · exact hback c hc
  · exact trim_of_blank

theorem Blank.notMem {cs : List Char} {c : Char} (h : Blank cs) (hc : isWhitespace c = false) :
    c ∉ cs := by
  intro hmem
  rw [h c hmem] at hc
  cases hc

/-! ## Splitting -/

theorem splitOnce_append {c : Char} {a b : List Char} (h : c ∉ a) :
    splitOnce c (a ++ c :: b) = some (a, b) := by
  induction a with
  | nil => rw [List.nil_append, splitOnce, if_pos rfl]
  | cons x a ih =>
      rw [List.mem_cons, not_or] at h
      rw [List.cons_append, splitOnce, if_neg (Ne.symm h.1), ih h.2]
      rfl

theorem splitOnce_eq_none {c : Char} {cs : List Char} : splitOnce c cs = none ↔ c ∉ cs := by
  induction cs with
  | nil => simp [splitOnce]
  | cons x cs ih =>
      rw [splitOnce]
      by_cases hx : x = c
      · simp [hx]
      · rw [if_neg hx, Option.map_eq_none_iff, ih, List.mem_cons, not_or]
        exact (and_iff_right (Ne.symm hx)).symm

theorem splitOnce_eq_some {c : Char} {cs a b : List Char} :
    splitOnce c cs = some (a, b) ↔ cs = a ++ c :: b ∧ c ∉ a := by
  constructor
  · intro h
    induction cs generalizing a with
    | nil => cases h
    | cons x cs ih =>
        rw [splitOnce] at h
        split at h
        · rename_i hx
          cases h
          exact ⟨by rw [hx, List.nil_append], by simp⟩
        · rename_i hx
          obtain ⟨⟨a', b'⟩, hrest, heq⟩ := Option.map_eq_some_iff.mp h
          cases heq
          obtain ⟨rfl, hc⟩ := ih hrest
          refine ⟨rfl, ?_⟩
          rw [List.mem_cons, not_or]
          exact ⟨Ne.symm hx, hc⟩
  · rintro ⟨rfl, hc⟩
    exact splitOnce_append hc

theorem splitn_two {c : Char} {cs a b : List Char} :
    splitn c 2 cs = [a, b] ↔ cs = a ++ c :: b ∧ c ∉ a := by
  rw [splitn]
  cases h : splitOnce c cs with
  | none =>
      have hc : c ∉ cs := splitOnce_eq_none.mp h
      constructor
      · intro heq
        cases heq
      · rintro ⟨rfl, -⟩
        exact absurd (List.mem_append_right a List.mem_cons_self) hc
  | some parts =>
      show [parts.1, parts.2] = [a, b] ↔ _
      rw [← splitOnce_eq_some, h, Option.some.injEq, Prod.ext_iff]
      simp only [List.cons.injEq, and_true]

/-- Three pieces: the first two have no separator. -/
theorem splitn_three {c : Char} {cs a b d : List Char} :
    splitn c 3 cs = [a, b, d] ↔ cs = a ++ c :: (b ++ c :: d) ∧ c ∉ a ∧ c ∉ b := by
  rw [splitn]
  cases h : splitOnce c cs with
  | none =>
      have hc : c ∉ cs := splitOnce_eq_none.mp h
      constructor
      · intro heq
        cases heq
      · rintro ⟨rfl, -⟩
        exact absurd (List.mem_append_right a List.mem_cons_self) hc
  | some parts =>
      obtain ⟨front, rest⟩ := parts
      obtain ⟨rfl, hfront⟩ := splitOnce_eq_some.mp h
      show front :: splitn c 2 rest = [a, b, d] ↔ _
      rw [List.cons.injEq, splitn_two]
      constructor
      · rintro ⟨rfl, rfl, hb⟩
        exact ⟨rfl, hfront, hb⟩
      · rintro ⟨heq, ha, hb⟩
        have hparts := splitOnce_append (b := rest) hfront
        rw [heq, splitOnce_append ha, Option.some.injEq, Prod.mk.injEq] at hparts
        exact ⟨hparts.1.symm, hparts.2.symm, hb⟩

theorem stripLast_spec (c : Char) (cs : List Char) :
    cs = stripLast c cs ∨ cs = stripLast c cs ++ [c] := by
  by_cases h : cs.getLast? = some c
  · right
    rw [stripLast, if_pos h, List.dropLast_append_getLast? c h]
  · left
    rw [stripLast, if_neg h]

/-- What is before a `c` does not matter. -/
theorem afterLast_append_cons (c : Char) (a b : List Char) :
    afterLast c (a ++ c :: b) = afterLast c b := by
  have hsplit : (a ++ c :: b).reverse = b.reverse ++ c :: a.reverse := by simp
  rw [afterLast, hsplit, List.takeWhile_append, afterLast]
  split
  · rename_i hall
    rw [List.takeWhile_cons_of_neg (by simp), List.append_nil]
    have hwhole : b.reverse.takeWhile (· ≠ c) = b.reverse :=
      (List.takeWhile_prefix _).eq_of_length hall
    rw [hwhole]
  · rfl

/-- What follows without a `c` is kept. -/
theorem afterLast_append {c : Char} {a b : List Char} (h : c ∉ b) :
    afterLast c (a ++ b) = afterLast c a ++ b := by
  have hall : ∀ x ∈ b.reverse, decide (x ≠ c) = true := by
    intro x hx
    rw [decide_eq_true_iff]
    rintro rfl
    exact h (List.mem_reverse.mp hx)
  rw [afterLast, List.reverse_append, List.takeWhile_append_of_pos hall, List.reverse_append,
    List.reverse_reverse, afterLast]

/-! ## Maps as lists of pairs -/

section Map

variable {α β : Type} [DecidableEq α]

/-- Without the pairs of a key only that key is lost. -/
theorem lookup_erase (map : List (α × β)) (erased key : α) :
    (map.filter (·.1 ≠ erased)).lookup key = if key = erased then none else map.lookup key := by
  induction map with
  | nil => simp
  | cons entry map ih =>
      by_cases hentry : entry.1 = erased
      · rw [List.filter_cons_of_neg (by simpa using hentry), ih, List.lookup_cons]
        by_cases hkey : key = erased
        · rw [if_pos hkey, if_pos hkey]
        · have hne : (key == entry.1) = false := by
            rw [beq_eq_false_iff_ne, hentry]
            exact hkey
          rw [if_neg hkey, if_neg hkey, hne]
      · rw [List.filter_cons_of_pos (by simpa using hentry), List.lookup_cons, ih,
          List.lookup_cons]
        by_cases hkey : key = erased
        · have hne : (key == entry.1) = false := by
            rw [beq_eq_false_iff_ne, hkey]
            exact Ne.symm hentry
          rw [if_pos hkey, if_pos hkey, hne]
        · rw [if_neg hkey, if_neg hkey]

/-- A pair in front, after the other pairs of its key are gone. -/
theorem lookup_insert (map : List (α × β)) (inserted key : α) (value : β) :
    ((inserted, value) :: map.filter (·.1 ≠ inserted)).lookup key =
      if key = inserted then some value else map.lookup key := by
  rw [List.lookup_cons]
  by_cases hkey : key = inserted
  · rw [beq_iff_eq.mpr hkey, if_pos hkey]
  · rw [beq_eq_false_iff_ne.mpr hkey, if_neg hkey]
    show (map.filter (·.1 ≠ inserted)).lookup key = map.lookup key
    rw [lookup_erase, if_neg hkey]

end Map

end Text
