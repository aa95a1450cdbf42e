/-
  Xlurm.Unix.Environ

  The environment of a process: a map before `execve`, a list of strings
  `key=value` after it.

  `getenv` takes the first string that begins with the name and `=`.  A key of the
  map may contain `=`, and then its string can be taken for that of another name.
-/

import Mathlib.Data.List.Sort
import Mathlib.Data.String.Basic
import Xlurm.Text.Basic

namespace Unix

/-- What `execve` is given: the entries of the map, in the order of their keys. -/
def envp (env : List (String × String)) : List String :=
  (env.insertionSort fun a b => a.1 ≤ b.1).map fun entry => entry.1 ++ "=" ++ entry.2

/-- The value, if this is a string for the name. -/
def valueOf (name : String) (s : String) : Option String :=
  (Text.stripPrefix (name ++ "=").toList s.toList).map String.ofList

def getenv (strings : List String) (name : String) : Option String :=
  strings.findSome? (valueOf name)

variable {env : List (String × String)} {name key value : String}

theorem valueOf_eq_none {s : String} :
    valueOf name s = none ↔ ¬ (name ++ "=").toList <+: s.toList := by
  unfold valueOf Text.stripPrefix
  rw [← List.isPrefixOf_iff_prefix]
  split <;> simp_all

/-- A name without `=` is found in front of its own value. -/
theorem valueOf_self (name value : String) : valueOf name (name ++ "=" ++ value) = some value := by
  have hprefix : (name ++ "=").toList.isPrefixOf (name ++ "=" ++ value).toList = true := by
    rw [List.isPrefixOf_iff_prefix, String.toList_append (s := name ++ "=")]
    exact List.prefix_append _ _
  rw [valueOf, Text.stripPrefix, if_pos hprefix, String.toList_append (s := name ++ "="),
    List.drop_left, Option.map_some, String.ofList_toList]

/-- Only the key itself, or one that goes on after a `=`, can be taken for the name. -/
theorem prefix_entry (hname : '=' ∉ name.toList) :
    (name ++ "=").toList <+: (key ++ "=" ++ value).toList ↔
      key = name ∨ (name ++ "=").toList <+: key.toList := by
  have hlist : (key ++ "=" ++ value).toList = key.toList ++ '=' :: value.toList := by
    simp
  have hnames : (name ++ "=").toList = name.toList ++ ['='] := by
    simp
  rw [hlist, hnames]
  constructor
  · intro h
    by_cases hlong : name.toList.length < key.toList.length
    · apply Or.inr
      apply List.prefix_of_prefix_length_le h (List.prefix_append _ _)
      rw [List.length_append]
      exact hlong
    · apply Or.inl
      have hshort : key.toList ++ ['='] <+: name.toList ++ ['='] := by
        apply List.prefix_of_prefix_length_le _ h
        · rw [List.length_append, List.length_append]
          exact Nat.add_le_add_right (Nat.le_of_not_lt hlong) _
        · exact ⟨value.toList, by simp⟩
      rcases List.prefix_concat_iff.mp hshort with heq | hstart
      · exact String.toList_injective (List.append_cancel_right heq)
      · -- Then the name would contain the `=` after the key.
        exact absurd (hstart.subset (List.mem_append_right _ (List.mem_singleton_self _))) hname
  · rintro (rfl | h)
    · exact ⟨value.toList, by simp⟩
    · exact h.trans (List.prefix_append _ _)

/-- All entries of this key have the value that is looked up. -/
def Alone (env : List (String × String)) (name : String) : Prop :=
  ∀ entry ∈ env, entry.1 = name → env.lookup name = some entry.2

/-- In the order of the keys, a name comes before the keys that begin with it. -/
theorem findSome_sorted (hname : '=' ∉ name.toList)
    (hsorted : env.Pairwise fun a b => a.1 ≤ b.1) (hmem : (name, value) ∈ env)
    (halone : ∀ entry ∈ env, entry.1 = name → entry.2 = value) :
    env.findSome? (fun entry => valueOf name (entry.1 ++ "=" ++ entry.2)) = some value := by
  induction env with
  | nil => cases hmem
  | cons entry rest ih =>
      rw [List.pairwise_cons] at hsorted
      rw [List.findSome?_cons]
      by_cases hkey : entry.1 = name
      · rw [hkey, valueOf_self, halone entry List.mem_cons_self hkey]
      · have hrest : (name, value) ∈ rest := by
          rcases List.mem_cons.mp hmem with heq | hrest
          · exact absurd (congrArg Prod.fst heq).symm hkey
          · exact hrest
        have hnone : valueOf name (entry.1 ++ "=" ++ entry.2) = none := by
          rw [valueOf_eq_none, prefix_entry hname]
          rintro (heq | hlonger)
          · exact hkey heq
          · have hbefore : entry.1.toList ≤ name.toList :=
              String.le_iff_toList_le.mp (hsorted.1 _ hrest)
            have hprefix : name.toList <+: entry.1.toList := by
              refine List.IsPrefix.trans ?_ hlonger
              rw [String.toList_append]
              exact List.prefix_append _ _
            have hafter : ¬ entry.1.toList < name.toList := hprefix.le
            exact hkey (String.toList_injective (le_antisymm hbefore (not_lt.mp hafter)))
        rw [hnone]
        exact ih hsorted.2 hrest fun e he => halone e (List.mem_cons_of_mem _ he)

theorem getenv_envp_eq (env : List (String × String)) (name : String) :
    getenv (envp env) name = (env.insertionSort fun a b => a.1 ≤ b.1).findSome?
      fun entry => valueOf name (entry.1 ++ "=" ++ entry.2) := by
  rw [getenv, envp, List.findSome?_map]
  rfl

/-- The process sees a variable as it is in the map, whatever other keys there are. -/
theorem getenv_envp (hname : '=' ∉ name.toList) (halone : Alone env name)
    (h : env.lookup name = some value) : getenv (envp env) name = some value := by
  have hmem : (name, value) ∈ env := by
    obtain ⟨before, after, rfl, -⟩ := List.lookup_eq_some_iff.mp h
    exact List.mem_append_right _ List.mem_cons_self
  rw [getenv_envp_eq]
  apply findSome_sorted hname
  · exact List.pairwise_insertionSort _ _
  · exact (List.mem_insertionSort _).mpr hmem
  · intro entry hentry hkey
    rw [List.mem_insertionSort] at hentry
    rw [halone entry hentry hkey] at h
    exact Option.some.inj h

/-- A variable that is not in the map is not seen, unless a key begins with its name and `=`. -/
theorem getenv_envp_eq_none (hname : '=' ∉ name.toList) (h : env.lookup name = none) :
    getenv (envp env) name = none ↔
      ∀ entry ∈ env, ¬ (name ++ "=").toList <+: entry.1.toList := by
  rw [getenv_envp_eq, List.findSome?_eq_none_iff]
  have hkey : ∀ entry ∈ env, entry.1 ≠ name := by
    intro entry hentry heq
    rw [List.lookup_eq_none_iff] at h
    have hne := h entry hentry
    rw [heq] at hne
    simp at hne
  constructor
  · intro hnone entry hentry hprefix
    have hentry' := hnone entry ((List.mem_insertionSort _).mpr hentry)
    rw [valueOf_eq_none, prefix_entry hname] at hentry'
    exact hentry' (Or.inr hprefix)
  · intro hnone entry hentry
    rw [List.mem_insertionSort] at hentry
    rw [valueOf_eq_none, prefix_entry hname]
    rintro (heq | hprefix)
    · exact hkey entry hentry heq
    · exact hnone entry hentry hprefix

end Unix
