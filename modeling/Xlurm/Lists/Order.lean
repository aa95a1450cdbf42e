/-
  Xlurm.Lists.Order

  Lists whose order matters: sorts that keep the order of equal elements, and the
  last elements of a list.
-/

import Mathlib.Data.List.DropRight
import Mathlib.Data.List.Sort

namespace Lists

variable {α : Type}

/-! ## Stable sorting -/

section Stable

variable {r S : α → α → Prop} [DecidableRel r] [Std.Total r] [IsTrans α r]

theorem orderedInsert_stable {a : α} {l : List α}
    (hl : l.Pairwise fun x y => r x y ∧ (r y x → S x y)) (ha : ∀ b ∈ l, S a b) :
    (l.orderedInsert r a).Pairwise fun x y => r x y ∧ (r y x → S x y) := by
  induction l with
  | nil => exact List.pairwise_singleton _ a
  | cons b l ih =>
      obtain ⟨hb, hl⟩ := List.pairwise_cons.mp hl
      rw [List.orderedInsert_cons]
      split
      -- `a` goes first
      · rename_i hab
        refine List.pairwise_cons.mpr ⟨?_, List.pairwise_cons.mpr ⟨hb, hl⟩⟩
        intro c hc
        refine ⟨?_, fun _ => ha c hc⟩
        rcases List.mem_cons.mp hc with rfl | hc
        · exact hab
        · exact IsTrans.trans _ _ _ hab (hb c hc).1
      · rename_i hab
        have hba : r b a := (total_of r a b).resolve_left hab
        refine List.pairwise_cons.mpr ⟨?_, ih hl fun c hc => ha c (List.mem_cons_of_mem b hc)⟩
        intro c hc
        rcases (List.mem_orderedInsert r).mp hc with rfl | hc
        · exact ⟨hba, fun hac => absurd hac hab⟩
        · exact hb c hc

/-- Insertion sort keeps the order `S` of the list among equal elements. -/
theorem insertionSort_stable {l : List α} (hl : l.Pairwise S) :
    (l.insertionSort r).Pairwise fun x y => r x y ∧ (r y x → S x y) := by
  induction l with
  | nil => exact List.Pairwise.nil
  | cons a l ih =>
      obtain ⟨ha, hl⟩ := List.pairwise_cons.mp hl
      refine orderedInsert_stable (ih hl) fun b hb => ha b ?_
      exact (List.perm_insertionSort r l).mem_iff.mp hb

end Stable

/-! ## Sorting by a key -/

section Key

variable {β : Type} [LinearOrder β] {S : α → α → Prop}

theorem total_key (key : α → β) : Std.Total fun a b => key a ≤ key b :=
  ⟨fun a b => le_total (key a) (key b)⟩

theorem trans_key (key : α → β) : IsTrans α fun a b => key a ≤ key b :=
  ⟨fun _ _ _ => le_trans⟩

/-- The smaller key first, equal keys in the order of the list. -/
theorem insertionSort_key (key : α → β) {l : List α} (hl : l.Pairwise S) :
    (l.insertionSort fun a b => key a ≤ key b).Pairwise fun a b =>
      key a < key b ∨ (key a = key b ∧ S a b) := by
  have := total_key key
  have := trans_key key
  refine (insertionSort_stable hl).imp ?_
  rintro a b ⟨hle, hstable⟩
  rcases lt_or_eq_of_le hle with hlt | heq
  · exact Or.inl hlt
  · exact Or.inr ⟨heq, hstable heq.ge⟩

/-- The elements with one key are in the sorted list as they are in the list. -/
theorem filter_insertionSort (key : α → β) (k : β) (l : List α) :
    (l.insertionSort fun a b => key a ≤ key b).filter (fun a => key a = k) =
      l.filter fun a => key a = k := by
  have := total_key key
  have := trans_key key
  have hkey : ∀ a ∈ l.filter fun a => key a = k, key a = k := by
    intro a ha
    exact of_decide_eq_true (List.mem_filter.mp ha).2
  have hsorted : (l.filter fun a => key a = k).Pairwise fun a b => key a ≤ key b := by
    apply List.pairwise_of_forall_mem_list
    intro a ha b hb
    rw [hkey a ha, hkey b hb]
  have hsub := (List.sublist_insertionSort hsorted List.filter_sublist).filter fun a => key a = k
  rw [List.filter_filter] at hsub
  simp only [Bool.and_self] at hsub
  have hlength := ((List.perm_insertionSort (fun a b => key a ≤ key b) l).filter
    fun a => key a = k).length_eq
  exact (hsub.eq_of_length hlength.symm).symm

/-- What is sorted by a Boolean key are the elements without it, then those with it. -/
theorem eq_filter_append_filter {key : α → Bool} {l : List α}
    (h : l.Pairwise fun a b => key a ≤ key b) :
    l = l.filter (fun a => key a = false) ++ l.filter fun a => key a = true := by
  induction l with
  | nil => rfl
  | cons a l ih =>
      obtain ⟨ha, hl⟩ := List.pairwise_cons.mp h
      cases hkey : key a with
      | false =>
          rw [List.filter_cons_of_pos (by simp [hkey]), List.filter_cons_of_neg (by simp [hkey]),
            List.cons_append, ← ih hl]
      | true =>
          have htrue : ∀ b ∈ a :: l, key b = true := by
            intro b hb
            rcases List.mem_cons.mp hb with rfl | hb
            · exact hkey
            · exact ha b hb hkey
          have hnone : (a :: l).filter (fun b => key b = false) = [] := by
            rw [List.filter_eq_nil_iff]
            intro b hb
            simp [htrue b hb]
          have hall : (a :: l).filter (fun b => key b = true) = a :: l := by
            rw [List.filter_eq_self]
            intro b hb
            simp [htrue b hb]
          rw [hnone, hall, List.nil_append]

/-- Sorting by a Boolean key splits the list in two. -/
theorem insertionSort_bool (key : α → Bool) (l : List α) :
    (l.insertionSort fun a b => key a ≤ key b) =
      l.filter (fun a => key a = false) ++ l.filter fun a => key a = true := by
  have := total_key key
  have := trans_key key
  have hsorted := eq_filter_append_filter
    (List.pairwise_insertionSort (fun a b => key a ≤ key b) l)
  rw [filter_insertionSort, filter_insertionSort] at hsorted
  exact hsorted

end Key

/-! ## The last elements -/

/-- Backwards through the list, the first `n` that match are the last `n` that match. -/
theorem reverse_take_filter_reverse (p : α → Bool) (n : Nat) (l : List α) :
    ((l.reverse.filter p).take n).reverse = (l.filter p).rtake n := by
  rw [List.filter_reverse, List.rtake_eq_reverse_take_reverse]

theorem rtake_suffix (l : List α) (n : Nat) : l.rtake n <:+ l := List.drop_suffix _ l

theorem length_rtake (l : List α) (n : Nat) : (l.rtake n).length = min n l.length := by
  rw [List.rtake, List.length_drop]
  omega

/-- What is not among the last `n` elements comes before them, and they are `n`. -/
theorem mem_rtake_or {S : α → α → Prop} {l : List α} (h : l.Pairwise S) {a : α} (ha : a ∈ l)
    (n : Nat) : a ∈ l.rtake n ∨ ((l.rtake n).length = n ∧ ∀ b ∈ l.rtake n, S a b) := by
  have hsplit : l.take (l.length - n) ++ l.rtake n = l := List.take_append_drop _ l
  rw [← hsplit] at h ha
  rcases List.mem_append.mp ha with htake | htake
  -- Something was left out, so the list has more than `n` elements.
  · refine Or.inr ⟨?_, fun b hb => (List.pairwise_append.mp h).2.2 a htake b hb⟩
    have hpos := List.length_pos_of_mem htake
    rw [List.length_take] at hpos
    rw [length_rtake]
    omega
  · exact Or.inl htake

end Lists
