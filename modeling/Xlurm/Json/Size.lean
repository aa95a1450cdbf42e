/-
  Xlurm.Json.Size

  How many bytes the compact text of a value takes.
-/

import Mathlib.Algebra.GroupWithZero.Nat
import Mathlib.Algebra.Order.BigOperators.Group.List
import Mathlib.Algebra.Order.Group.Nat
import Xlurm.Json.Codec

namespace Json

/-- The bytes of a text. -/
def textSize (cs : List Char) : Nat := (utf8 cs).length

/-- The bytes of the compact text of a value. -/
def size (j : Json) : Nat := textSize (compact j)

/-! ## Texts -/

@[simp] theorem textSize_nil : textSize [] = 0 := rfl

theorem textSize_append (cs cs' : List Char) :
    textSize (cs ++ cs') = textSize cs + textSize cs' := by
  simp only [textSize, utf8, List.flatMap_append, List.length_append]

theorem textSize_cons (c : Char) (cs : List Char) :
    textSize (c :: cs) = (String.utf8EncodeChar c).length + textSize cs := by
  simp only [textSize, utf8, List.flatMap_cons, List.length_append]

theorem utf8EncodeChar_pos (c : Char) : 1 ≤ (String.utf8EncodeChar c).length := by
  simp only [String.utf8EncodeChar]
  split
  · exact Nat.le_refl 1
  · split
    · show 1 ≤ 2
      omega
    · split
      · show 1 ≤ 3
        omega
      · show 1 ≤ 4
        omega

theorem textSize_ascii {cs : List Char} (h : ∀ c ∈ cs, (String.utf8EncodeChar c).length = 1) :
    textSize cs = cs.length := by
  induction cs with
  | nil => rfl
  | cons c cs ih =>
      have hc := h c List.mem_cons_self
      have hcs := ih fun c hc => h c (List.mem_cons_of_mem _ hc)
      rw [textSize_cons, List.length_cons, hc, hcs, Nat.add_comm]

theorem textSize_toDigits (n : Nat) : textSize (Nat.toDigits 10 n) = (Nat.toDigits 10 n).length := by
  apply textSize_ascii
  intro c hc
  have hdigit : c.isDigit = true := Nat.isDigit_of_mem_toDigits (by decide) (by decide) hc
  have hle : c.val.toNat ≤ 0x7f := by
    have hnine : c.val ≤ 57 := by
      simp only [Char.isDigit, Bool.and_eq_true, decide_eq_true_eq] at hdigit
      exact hdigit.2
    have hnat : c.val.toNat ≤ 57 := hnine
    omega
  simp only [String.utf8EncodeChar, if_pos hle, List.length_singleton]

/-- A text takes at most six bytes in a string for each of its own. -/
theorem textSize_escape_le (c : Char) :
    textSize (escape c) ≤ 6 * (String.utf8EncodeChar c).length := by
  have hpos := utf8EncodeChar_pos c
  rw [escape]
  cases hfind : escapes.find? (·.1 == c) with
  | some entry =>
      have hletters : ∀ entry ∈ escapes, textSize ['\\', entry.2] = 2 := by decide
      have hsize := hletters _ (List.mem_of_find?_eq_some hfind)
      dsimp only
      omega
  | none =>
      have hdigits : ∀ n < 16, (String.utf8EncodeChar (Nat.digitChar n)).length = 1 := by decide
      dsimp only
      split
      · rename_i hlow
        have hhigh := hdigits (c.toNat / 16) (by omega)
        have hrest := hdigits (c.toNat % 16) (by omega)
        have hu : textSize ['\\', 'u', '0', '0'] = 4 := by decide
        have hsize : textSize ['\\', 'u', '0', '0', Nat.digitChar (c.toNat / 16),
            Nat.digitChar (c.toNat % 16)] = 6 := by
          show textSize (['\\', 'u', '0', '0'] ++ [_, _]) = 6
          rw [textSize_append, hu, textSize_cons, textSize_cons, hhigh, hrest, textSize_nil]
        omega
      · rw [textSize_cons, textSize_nil]
        omega

theorem size_str_le (s : String) : size (str s) ≤ 6 * textSize s.toList + 2 := by
  have hescaped : ∀ cs : List Char, textSize (cs.flatMap escape) ≤ 6 * textSize cs := by
    intro cs
    induction cs with
    | nil => exact Nat.le_refl 0
    | cons c cs ih =>
        have hc := textSize_escape_le c
        rw [List.flatMap_cons, textSize_append, textSize_cons]
        omega
  have hquote : (String.utf8EncodeChar '"').length = 1 := rfl
  have hs := hescaped s.toList
  show textSize (quoted s) ≤ _
  rw [quoted, textSize_append, textSize_cons, textSize_cons, textSize_nil, hquote]
  omega

/-! ## Values -/

theorem size_num_le {n k : Nat} (hk : 0 < k) (h : n < 10 ^ k) : size (num (.ofNat n)) ≤ k := by
  show textSize (Nat.toDigits 10 n) ≤ k
  rw [textSize_toDigits]
  exact (Nat.length_toDigits_le_iff (by decide) hk).mpr h

theorem textSize_compactItems (items : List Json) :
    textSize (compactItems items) = (items.map fun j => size j + 1).sum + 1 := by
  induction items with
  | nil => rfl
  | cons j items ih =>
      have hcomma : (String.utf8EncodeChar ',').length = 1 := rfl
      rw [compactItems, textSize_cons, textSize_append, ih, hcomma, List.map_cons, List.sum_cons]
      show 1 + (size j + _) = _
      omega

/-- A byte before each item, and the last bracket. -/
theorem size_arr (items : List Json) :
    size (arr items) = if items = [] then 2 else (items.map fun j => size j + 1).sum + 1 := by
  cases items with
  | nil => rfl
  | cons j items =>
      have hbracket : (String.utf8EncodeChar '[').length = 1 := rfl
      rw [if_neg (by simp), size, compact, textSize_cons, textSize_append, textSize_compactItems,
        hbracket, List.map_cons, List.sum_cons]
      show 1 + (size j + _) = _
      omega

theorem size_arr_le {items : List Json} {n k : Nat} (hlength : items.length ≤ n)
    (hsizes : ∀ j ∈ items, size j ≤ k) : size (arr items) ≤ n * (k + 1) + 2 := by
  have hsum : (items.map fun j => size j + 1).sum ≤ items.length * (k + 1) := by
    have hmap : ∀ m ∈ items.map fun j => size j + 1, m ≤ k + 1 := by
      intro m hm
      obtain ⟨j, hj, rfl⟩ := List.mem_map.mp hm
      exact Nat.succ_le_succ (hsizes j hj)
    have hle := List.sum_le_card_nsmul _ (k + 1) hmap
    simpa using hle
  have hmul : items.length * (k + 1) ≤ n * (k + 1) := Nat.mul_le_mul_right _ hlength
  rw [size_arr]
  split
  · omega
  · omega

/-- A field with the punctuation around it. -/
def entrySize (entry : String × Json) : Nat := textSize (quoted entry.1) + size entry.2 + 2

theorem entrySize_mk (key : String) (j : Json) :
    entrySize (key, j) = textSize (quoted key) + size j + 2 := rfl

theorem textSize_compactEntries (entries : List (String × Json)) :
    textSize (compactEntries entries) = (entries.map entrySize).sum + 1 := by
  induction entries with
  | nil => rfl
  | cons entry entries ih =>
      obtain ⟨key, j⟩ := entry
      have hcomma : (String.utf8EncodeChar ',').length = 1 := rfl
      have hcolon : (String.utf8EncodeChar ':').length = 1 := rfl
      rw [compactEntries, textSize_cons, textSize_append, textSize_cons, textSize_append, ih, hcomma,
        hcolon, List.map_cons, List.sum_cons]
      show 1 + (textSize (quoted key) + (1 + (size j + _))) = entrySize (key, j) + _ + 1
      rw [entrySize_mk]
      omega

theorem size_obj_cons (entry : String × Json) (entries : List (String × Json)) :
    size (obj (entry :: entries)) = entrySize entry + (entries.map entrySize).sum + 1 := by
  obtain ⟨key, j⟩ := entry
  have hbrace : (String.utf8EncodeChar '\x7b').length = 1 := rfl
  have hcolon : (String.utf8EncodeChar ':').length = 1 := rfl
  rw [size, compact, textSize_cons, textSize_append, textSize_cons, textSize_append,
    textSize_compactEntries, hbrace, hcolon]
  show 1 + (textSize (quoted key) + (1 + (size j + _))) = _
  rw [entrySize_mk]
  omega

theorem size_content (name : String) (j : Json) :
    size (obj [(name, j)]) = textSize (quoted name) + size j + 3 := by
  rw [size_obj_cons, entrySize_mk]
  show _ + 0 + 1 = _
  omega

end Json
