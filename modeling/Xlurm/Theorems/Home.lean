/-
  Xlurm.Theorems.Home

  The state directory of a daemon that runs as root is out of the reach of every user, even
  though they may act between any two of the calls with which the daemon checks and makes it.

  The ancestors are checked from the nearest one up.  What one check finds about a path counts
  only if everything above it is as it should be, and this is what the next checks find; in
  between, users can neither break a chain of trusted directories nor make one.
-/

import Xlurm.Os.Home
import Xlurm.Prog.Safe

namespace Xlurm

open Prog.Comp
open Unix (Tree Inode UserOp rootDir)

variable {t t' : Tree} {h h' : HomeState} {home path parent : List String} {name : String}
  {follow : Bool} {raw : RawLookup} {d e i j : Nat} {x : Inode}

/-! ## Looking up a path -/

theorem RawLookup.target_ok (htarget : raw.target t follow path = .ok i) :
    t.walk follow rootDir path = .found i ∨ t.walk follow rootDir path = .elsewhere := by
  rw [target] at htarget
  split at htarget
  · cases htarget
  cases hwalk : t.walk follow rootDir path with
  | found k =>
      rw [hwalk] at htarget
      cases htarget
      exact Or.inl rfl
  | notFound | notDirectory =>
      rw [hwalk] at htarget
      cases htarget
  | elsewhere => exact Or.inr rfl

theorem inodeAt_ok {k : Nat} (h : inodeAt t k = .ok (i, x)) : k = i ∧ t.inode i = some x := by
  rw [inodeAt] at h
  split at h
  · rename_i y hy
    cases h
    exact ⟨rfl, hy⟩
  · cases h

theorem RawLookup.resolve_ok (hraw : raw.resolve t follow path = .ok (i, x)) :
    t.inode i = some x ∧
      (t.walk follow rootDir path = .found i ∨ t.walk follow rootDir path = .elsewhere) := by
  rw [resolve] at hraw
  cases htarget : raw.target t follow path with
  | error e =>
      rw [htarget] at hraw
      cases hraw
  | ok k =>
      rw [htarget] at hraw
      obtain ⟨rfl, hx⟩ := inodeAt_ok hraw
      exact ⟨hx, target_ok htarget⟩

theorem RawLookup.resolve_found (hwalk : t.walk follow rootDir path = .found j)
    (hraw : raw.resolve t follow path = .ok (i, x)) : i = j ∧ t.inode j = some x := by
  obtain ⟨hx, hfound | helse⟩ := resolve_ok hraw
  · cases hwalk.symm.trans hfound
    exact ⟨rfl, hx⟩
  · cases hwalk.symm.trans helse

/-- What is found below a chain is an entry of its end. -/
theorem RawLookup.resolve_entry (hchain : t.Chain rootDir parent e)
    (hraw : raw.resolve t false (parent ++ [name]) = .ok (i, x)) :
    t.entry e name = some i ∧ t.inode i = some x := by
  have hwalk := hchain.walk false [name]
  rcases t.walk_last e name with ⟨k, hfound, hentry⟩ | hnone | hnone
  · obtain ⟨rfl, hx⟩ := resolve_found (hwalk.trans hfound) hraw
    exact ⟨hentry, hx⟩
  all_goals
    obtain ⟨_, hfound | helse⟩ := resolve_ok hraw
    · cases (hwalk.trans hnone).symm.trans hfound
    · cases (hwalk.trans hnone).symm.trans helse

/-! ## The calls of the daemon -/

namespace HomeCall

/-- The call gives nobody else the right to write. -/
def Mild : HomeCall → Prop
  | setPermissions _ mode => mode &&& 0o022 = 0
  | _ => True

theorem execMkdir_grows {i : Nat} {r : Except IoError Unit}
    (hexec : execMkdir 0 h d x name i = some (r, h')) :
    h.tree.Grows h'.tree ∧ h'.missing = h.missing := by
  rw [execMkdir] at hexec
  split at hexec
  · cases hexec
    exact ⟨.refl _, rfl⟩
  split at hexec
  · cases hexec
    exact ⟨.refl _, rfl⟩
  rename_i hentry
  rw [if_neg (fun hdenied => hdenied.1 rfl)] at hexec
  split at hexec
  · cases hexec
  rename_i hfresh
  cases hexec
  simp only [Bool.not_eq_true, Option.isSome_eq_false_iff, Option.isNone_iff_eq_none]
    at hentry hfresh
  exact ⟨Tree.grows_mkdir hentry hfresh (by decide), rfl⟩

/-- Calls of root only add directories and take rights away. -/
theorem exec_grows {c : HomeCall} {raw : c.Raw} {r : c.Reply} (hc : c.Mild)
    (hexec : c.exec 0 h raw = some (r, h')) :
    h.tree.Grows h'.tree ∧ (h'.missing = false → h.missing = false) := by
  cases c with
  | symlinkMetadata path =>
      rw [exec] at hexec
      split at hexec <;> cases hexec
      · exact ⟨.refl _, id⟩
      · refine ⟨.refl _, ?_⟩
        rintro ⟨⟩
      · exact ⟨.refl _, id⟩
  | isDir path =>
      rw [exec] at hexec
      split at hexec <;> cases hexec <;> exact ⟨.refl _, id⟩
  | setPermissions path mode =>
      rw [exec] at hexec
      split at hexec
      · rename_i i x hresolve
        rw [if_pos (Or.inl rfl)] at hexec
        cases hexec
        exact ⟨Tree.grows_chmod mode hc (RawLookup.resolve_ok hresolve).1, id⟩
      · cases hexec
        exact ⟨.refl _, id⟩
  | mkdir path =>
      rw [exec] at hexec
      split at hexec
      · cases hexec
        exact ⟨.refl _, id⟩
      split at hexec
      · obtain ⟨hgrows, hmissing⟩ := execMkdir_grows hexec
        exact ⟨hgrows, fun hfalse => hmissing.symm.trans hfalse⟩
      · cases hexec
        exact ⟨.refl _, id⟩

end HomeCall

/-- A call of the daemon as root, after what the users have done since its last one. -/
def homeSpec : Prog.Spec Unit HomeCall HomeCall.Reply HomeState where
  pre c _ _ := c.Mild
  post c _ h r h' := ∃ t raw, h.tree.Agrees t ∧ c.exec 0 { h with tree := t } raw = some (r, h')

theorem error_ne {P : Prop} (e : Error) : (Except.error e : Except Error Unit) = .ok () → P := by
  rintro ⟨⟩

/-! ## What stays true -/

/-- What is known of the tree if nothing was missing. -/
def Known (P : Tree → Prop) (h : HomeState) : Prop :=
  h.tree.Sheltered ∧ (h.missing = false → P h.tree)

/-- Neither the users nor the calls of the daemon make it false. -/
structure Enduring (P : Tree → Prop) : Prop where
  agrees : ∀ t t', t.Agrees t' → P t → P t'
  grows : ∀ t t', t.Grows t' → P t → P t'

section

variable {P : Tree → Prop} (hP : Enduring P)
include hP

theorem known_call (c : HomeCall) (hc : c.Mild) :
    Keeps homeSpec (fun _ => Known P) (call c : Setup c.Reply) := by
  apply Keeps.call
  · exact fun _ _ _ => hc
  · rintro _ h r h' ⟨_, hknown⟩ ⟨t, raw, hagrees, hexec⟩
    obtain ⟨hgrows, hmissing⟩ := HomeCall.exec_grows hc hexec
    refine ⟨hgrows.sheltered hagrees.sheltered, fun hfalse => ?_⟩
    exact hP.grows _ _ hgrows (hP.agrees _ _ hagrees (hknown (hmissing hfalse)))

theorem known_orExisting (path : List String) (result : Except IoError Unit) :
    Keeps homeSpec (fun _ => Known P) (orExisting path result) := by
  cases result with
  | ok _ => exact Keeps.pure ()
  | error e =>
      apply Keeps.bind (known_call hP (.isDir path) trivial)
      intro found
      cases found with
      | true => exact Keeps.pure ()
      | false => exact Keeps.lift (.error e.text)

theorem known_createDirAll (up : List String) :
    Keeps homeSpec (fun _ => Known P) (createDirAll up) := by
  induction up with
  | nil =>
      apply Keeps.bind (known_call hP (.mkdir []) trivial)
      rintro ((_ | e) | result)
      · exact Keeps.lift (.error _)
      · exact known_orExisting hP [] (.error (.other e))
      · exact known_orExisting hP [] (.ok result)
  | cons name parent ih =>
      apply Keeps.bind (known_call hP (.mkdir (name :: parent).reverse) trivial)
      rintro ((_ | e) | result)
      · apply Keeps.bind ih
        intro _
        exact Keeps.bind (known_call hP (.mkdir (name :: parent).reverse) trivial) fun _ =>
          known_orExisting hP _ _
      · exact known_orExisting hP _ (.error (.other e))
      · exact known_orExisting hP _ (.ok result)

end

/-! ## The ancestors -/

/-- A check of `path` finds a trusted directory. -/
def Vetted (path : List String) (t : Tree) : Prop :=
  ∃ (raw : RawLookup) (i : Nat) (x : Inode),
    raw.resolve t false path = .ok (i, x) ∧ x.trusted = true

theorem Vetted.root (hvetted : Vetted [] t) : t.Chain rootDir [] rootDir := by
  obtain ⟨raw, i, x, hraw, htrusted⟩ := hvetted
  obtain ⟨rfl, hx⟩ := RawLookup.resolve_found rfl hraw
  exact ⟨rfl, x, hx, htrusted⟩

theorem Vetted.chain (hvetted : Vetted (parent ++ [name]) t) (hchain : t.Chain rootDir parent e) :
    ∃ i, t.Chain rootDir (parent ++ [name]) i := by
  obtain ⟨raw, i, x, hraw, htrusted⟩ := hvetted
  obtain ⟨hentry, hx⟩ := RawLookup.resolve_entry hchain hraw
  exact ⟨i, hchain.concat hentry ⟨x, hx, htrusted⟩⟩

theorem symlinkMetadata_wp {Q : Unit → Except Error (Except IoError Inode) → HomeState → Prop}
    (hok : ∀ t i x (raw : RawLookup), h.tree.Agrees t → raw.resolve t false path = .ok (i, x) →
      Q () (.ok (.ok x)) ⟨t, h.missing⟩)
    (herr : ∀ t e missing, h.tree.Agrees t → (e = .notFound → missing = true) →
      Q () (.ok (.error e)) ⟨t, missing⟩) :
    wp homeSpec (call (.symlinkMetadata path)) Q () h := by
  refine ⟨trivial, ?_⟩
  rintro r h' ⟨t, raw, hagrees, hexec⟩
  rw [HomeCall.exec] at hexec
  split at hexec <;> cases hexec
  · rename_i i x hraw
    exact hok t i x raw hagrees hraw
  · exact herr t .notFound true hagrees fun _ => rfl
  · rename_i e hne hraw
    exact herr t e h.missing hagrees fun heq => absurd heq hne

theorem checkAncestors_cons {next : List (List String)}
    {Q : Unit → Except Error Unit → HomeState → Prop}
    (hgo : ∀ t missing, h.tree.Agrees t → (missing = false → h.missing = false ∧ Vetted path t) →
      wp homeSpec (checkAncestors next) Q () ⟨t, missing⟩)
    (hstop : ∀ e h', Q () (.error e) h') :
    wp homeSpec (checkAncestors (path :: next)) Q () h := by
  rw [checkAncestors, wp_bind]
  apply symlinkMetadata_wp
  · intro t i x raw hagrees hraw
    simp only [andThen_ok, wp_bind, wp_ensure]
    refine ⟨fun htrusted => ?_, fun _ => hstop _ _⟩
    exact hgo t h.missing hagrees fun hfalse => ⟨hfalse, raw, i, x, hraw, htrusted⟩
  · intro t e missing hagrees hmissing
    cases e with
    | notFound =>
        apply hgo t missing hagrees
        rw [hmissing rfl]
        rintro ⟨⟩
    | other e => exact hstop e _

theorem ancestors_concat (parent : List String) (name : String) :
    (parent ++ [name]).inits.reverse = (parent ++ [name]) :: parent.inits.reverse := by
  simp [List.inits_append]

/-- If `path` is a chain, it goes on as one. -/
def Confirms (path rest : List String) (t : Tree) : Prop :=
  ∀ e, t.Chain rootDir path e → ∃ e', t.Chain rootDir (path ++ rest) e'

theorem checkAncestors_wp (path rest : List String) (h : HomeState)
    (hknown : h.missing = false → Confirms path rest h.tree) :
    wp homeSpec (checkAncestors path.inits.reverse)
      (fun _ r h' => r = .ok () → Known (fun t => ∃ e, t.Chain rootDir (path ++ rest) e) h')
      () h := by
  -- From the end of the path to the root; what was found below is kept in `Confirms`.
  induction path using List.reverseRecOn generalizing rest h with
  | nil =>
      refine checkAncestors_cons ?_ (fun e _ => error_ne e)
      intro t missing hagrees hvetted _
      refine ⟨hagrees.sheltered, fun hfalse => ?_⟩
      obtain ⟨hmissing, hroot⟩ := hvetted hfalse
      obtain ⟨e, he⟩ := hknown hmissing _ ((hagrees.chain _ _ _).mp hroot.root)
      exact ⟨e, (hagrees.chain _ _ _).mpr he⟩
  | append_singleton parent name ih =>
      rw [ancestors_concat, List.append_assoc]
      refine checkAncestors_cons ?_ (fun e _ => error_ne e)
      intro t missing hagrees hvetted
      apply ih (name :: rest)
      intro hfalse e hchain
      obtain ⟨hmissing, hhere⟩ := hvetted hfalse
      obtain ⟨i, hi⟩ := hhere.chain hchain
      obtain ⟨e', he'⟩ := hknown hmissing i ((hagrees.chain _ _ _).mp hi)
      rw [List.append_assoc] at he'
      exact ⟨e', (hagrees.chain _ _ _).mpr he'⟩

/-! ## The directories -/

/-- The directory in which `home` lies, if it is not the root, is the end of a chain. -/
def Parented (home : List String) (t : Tree) : Prop :=
  ∀ parent name, home = parent ++ [name] → ∃ e, t.Chain rootDir parent e

/-- The chain `home` ends in a directory that only root may change. -/
def Opens (home : List String) (i : Nat) (t : Tree) : Prop := t.Chain rootDir home i ∧ t.Closed i

theorem Parented.enduring (home : List String) : Enduring (Parented home) := by
  refine ⟨?_, ?_⟩
  · intro t t' hagrees hparented parent name hhome
    obtain ⟨e, he⟩ := hparented parent name hhome
    exact ⟨e, (hagrees.chain _ _ _).mpr he⟩
  · intro t t' hgrows hparented parent name hhome
    obtain ⟨e, he⟩ := hparented parent name hhome
    exact ⟨e, hgrows.chain he⟩

theorem Opens.enduring (home : List String) : Enduring fun t => ∃ i, Opens home i t := by
  refine ⟨?_, ?_⟩
  · rintro t t' hagrees ⟨i, hchain, hclosed⟩
    exact ⟨i, (hagrees.chain _ _ _).mpr hchain, hagrees.is_closed hclosed⟩
  · rintro t t' hgrows ⟨i, hchain, hclosed⟩
    exact ⟨i, hgrows.chain hchain, hgrows.closed hclosed⟩

theorem Parented.opens (hparented : Parented home t) (hraw : raw.resolve t false home = .ok (i, x))
    (hclosed : x.closed = true) : Opens home i t := by
  rcases List.eq_nil_or_concat home with rfl | ⟨parent, name, rfl⟩
  · obtain ⟨rfl, hx⟩ := RawLookup.resolve_found rfl hraw
    exact ⟨⟨rfl, x, hx, Inode.trusted_of_closed hclosed⟩, x, hx, hclosed⟩
  · rw [List.concat_eq_append] at *
    obtain ⟨e, hchain⟩ := hparented parent name rfl
    obtain ⟨hentry, hx⟩ := RawLookup.resolve_entry hchain hraw
    have hi : t.Closed i := ⟨x, hx, hclosed⟩
    exact ⟨hchain.concat hentry hi.trusted, hi⟩

theorem initializeHome_wp (home : List String) (h : HomeState) (hknown : Known (Parented home) h) :
    wp homeSpec (initializeHome 0 home)
      (fun _ r h' => r = .ok () → Known (fun t => ∃ i, Opens home i t) h') () h := by
  rw [initializeHome, wp_bind, wp_attempt]
  refine wp_mono (known_createDirAll (Parented.enduring home) home.reverse () h hknown) ?_
  rintro _ (e | _) h₁ ⟨hsheltered, hparented⟩
  · exact error_ne _
  simp only [andThen_ok, wp_bind, wp_lift, ProcessExecutor.context]
  apply symlinkMetadata_wp
  · intro t i x raw hagrees hraw
    simp only [andThen_ok, orText, wp_bind, wp_pure, wp_ensure]
    refine ⟨fun howner => ⟨fun hmode => ?_, fun _ => error_ne _⟩, fun _ => error_ne _⟩
    have hopens : Known (fun t => ∃ i, Opens home i t) ⟨t, h₁.missing⟩ := by
      refine ⟨hagrees.sheltered, fun hfalse => ⟨i, ?_⟩⟩
      have hclosed : x.closed = true := by
        rw [Inode.closed, howner, hmode]
        rfl
      have hparented' := (Parented.enduring home).agrees _ _ hagrees (hparented hfalse)
      exact hparented'.opens hraw hclosed
    refine wp_mono (known_call (Opens.enduring home) (.setPermissions home 0o755) rfl () _
      hopens) ?_
    rintro _ (e | (e | _)) h₂ hknown₂
    · exact error_ne _
    · exact error_ne _
    · exact fun _ => hknown₂
  · intro t e missing _ _
    exact error_ne _

/-- The state directory and its directory of jobs have the inodes `i` and `j`. -/
structure Founded (home : List String) (i j : Nat) (t : Tree) : Prop where
  opens : Opens home i t
  chain : t.Chain rootDir (home ++ ["jobs"]) j
  jobs : t.inode j = some ⟨.dir, 0, 0o700⟩

theorem Founded.agrees (hfounded : Founded home i j t) (hagrees : t.Agrees t') :
    Founded home i j t' :=
  ⟨⟨(hagrees.chain _ _ _).mpr hfounded.opens.1, hagrees.is_closed hfounded.opens.2⟩,
    (hagrees.chain _ _ _).mpr hfounded.chain, (hagrees.inode _ _ rfl).mpr hfounded.jobs⟩

/-- What was root's in the state directory when it was checked is there when its mode is set. -/
theorem Opens.founded {j' : Nat} {x' : Inode} (hopens : Opens home i t)
    (hentry : t.entry i "jobs" = some j) (hx : t.inode j = some x) (hdir : x.isDir = true)
    (hroot : x.owner = 0) (hagrees : t.Agrees t')
    (hraw : raw.resolve t' true (home ++ ["jobs"]) = .ok (j', x')) :
    Founded home i j (t'.setInode j' { x' with mode := 0o700 }) := by
  have hchain := (hagrees.chain _ _ _).mpr hopens.1
  have hclosed := hagrees.is_closed hopens.2
  have hentry' : t'.entry i "jobs" = some j := by
    rw [hagrees.closed i hopens.2]
    exact hentry
  have hx' : t'.inode j = some x := (hagrees.inode j x hroot).mpr hx
  have hnode : x.node = .dir := eq_of_beq hdir
  have hlink : (t'.inode j).any (·.node == .link) = false := by
    rw [hx', Option.any_some, hnode]
    rfl
  have hwalk := (hchain.walk true ["jobs"]).trans
    (Tree.walk_entry hclosed.trusted.isDir hentry' hlink true)
  obtain ⟨rfl, hfound⟩ := RawLookup.resolve_found hwalk hraw
  cases hx'.symm.trans hfound
  have hgrows := Tree.grows_chmod 0o700 rfl hx'
  have hjobs : (t'.setInode j' { x with mode := 0o700 }).inode j' = some ⟨.dir, 0, 0o700⟩ := by
    refine (Function.update_self _ _ _).trans ?_
    rw [hnode, hroot]
  exact ⟨⟨hgrows.chain hchain, hgrows.closed hclosed⟩,
    (hgrows.chain hchain).concat (hgrows.entry _ _ _ hentry') ⟨_, hjobs, rfl⟩, hjobs⟩

theorem initializeJobs_wp (home : List String) (h : HomeState)
    (hknown : Known (fun t => ∃ i, Opens home i t) h) :
    wp homeSpec (initializeJobs 0 (home ++ ["jobs"]))
      (fun _ r h' => r = .ok () → Known (fun t => ∃ i j, Founded home i j t) h') () h := by
  rw [initializeJobs, wp_bind]
  refine wp_mono (known_createDirAll (Opens.enduring home) _ () h hknown) ?_
  rintro _ (e | _) h₁ ⟨hsheltered, hopens⟩
  · exact error_ne _
  simp only [andThen_ok, wp_bind]
  apply symlinkMetadata_wp
  · intro t j x raw hagrees hraw
    simp only [andThen_ok, orText, wp_bind, wp_pure, wp_ensure]
    refine ⟨fun howner => ⟨rfl, ?_⟩, fun _ => error_ne _⟩
    -- Users have acted once more between the check and the change of the mode.
    rintro r h' ⟨t', raw', hagrees', hexec⟩
    rw [HomeCall.exec] at hexec
    split at hexec
    · rename_i j' x' hraw'
      rw [if_pos (Or.inl rfl)] at hexec
      cases hexec
      have hgrows := Tree.grows_chmod 0o700 rfl (RawLookup.resolve_ok hraw').1
      refine fun _ => ⟨hgrows.sheltered hagrees'.sheltered, fun hfalse => ?_⟩
      obtain ⟨i, hi⟩ := (Opens.enduring home).agrees _ _ hagrees (hopens hfalse)
      obtain ⟨hentry, hx⟩ := RawLookup.resolve_entry hi.1 hraw
      simp only [Bool.and_eq_true, beq_iff_eq] at howner
      exact ⟨i, j, hi.founded hentry hx howner.1 howner.2 hagrees' hraw'⟩
    · cases hexec
      exact error_ne _
  · intro t e missing _ _
    exact error_ne _

theorem initializePaths_wp (home : List String) (h : HomeState) (hsheltered : h.tree.Sheltered) :
    wp homeSpec (initializePaths 0 home)
      (fun _ r h' => r = .ok () → Known (fun t => ∃ i j, Founded home i j t) h') () h := by
  have hrest : ∀ h₁, Known (Parented home) h₁ → wp homeSpec
      (do initializeHome 0 home; initializeJobs 0 (home ++ ["jobs"]) : Setup Unit)
      (fun _ r h' => r = .ok () → Known (fun t => ∃ i j, Founded home i j t) h') () h₁ := by
    intro h₁ hknown
    apply wp_bind_of (initializeHome_wp home h₁ hknown)
    · exact fun _ _ h₂ hopens => initializeJobs_wp home h₂ (hopens rfl)
    · exact fun _ e _ _ => error_ne e
  rw [initializePaths, if_pos rfl]
  rcases List.eq_nil_or_concat home with rfl | ⟨parent, name, rfl⟩
  · apply hrest h ⟨hsheltered, fun _ parent name hhome => ?_⟩
    simp at hhome
  · rw [List.concat_eq_append] at *
    rw [ancestors_concat, List.tail_cons]
    have hconfirms : h.missing = false → Confirms parent [] h.tree := by
      intro _ e he
      rw [List.append_nil]
      exact ⟨e, he⟩
    apply wp_bind_of (checkAncestors_wp parent [] h hconfirms)
    · intro _ _ h₁ hchecked
      obtain ⟨hsheltered₁, hchain⟩ := hchecked rfl
      refine hrest h₁ ⟨hsheltered₁, fun hfalse parent' name' hhome => ?_⟩
      obtain ⟨rfl, _⟩ := List.append_inj' hhome rfl
      rw [List.append_nil] at hchain
      exact hchain hfalse
    · exact fun _ e _ _ => error_ne e

/-! ## Runs -/

/-- The tree is sheltered, and the daemon will know what it needs when it returns. -/
def HomeSetup.Good (home : List String) (s : HomeSetup) : Prop :=
  s.state.tree.Sheltered ∧ s.prog.Safe homeSpec
    (fun _ r h => r = .ok () → Known (fun t => ∃ i j, Founded home i j t) h) s.state

namespace HomeSetup

variable {s : HomeSetup}

theorem Good.step (hgood : s.Good home) (action : HomeAction) : (s.step 0 action).Good home := by
  obtain ⟨hsheltered, hsafe⟩ := hgood
  cases action with
  | user uid op =>
      rw [HomeSetup.step]
      split
      · exact ⟨hsheltered, hsafe⟩
      rename_i huid
      refine ⟨hsheltered.user huid, hsafe.stable
        (R := fun h h' => h.tree.Agrees h'.tree ∧ h'.missing = h.missing)
        ⟨.user hsheltered huid op, rfl⟩ ?_ ?_ ?_⟩
      · exact fun _ _ _ _ _ => id
      · rintro c _ h ⟨tree, missing⟩ r h'' ⟨hagrees, rfl⟩ ⟨t, raw, hagrees', hexec⟩
        exact ⟨t, raw, hagrees.trans hagrees', hexec⟩
      · rintro _ r h h' ⟨hagrees, hmissing⟩ hknown hok
        refine ⟨hagrees.sheltered, fun hfalse => ?_⟩
        obtain ⟨i, j, hfounded⟩ := (hknown hok).2 (hmissing.symm.trans hfalse)
        exact ⟨i, j, hfounded.agrees hagrees⟩
  | daemon raw =>
      obtain ⟨h, prog⟩ := s
      cases prog with
      | ret _ r => exact ⟨hsheltered, hsafe⟩
      | call u c k =>
          simp only [HomeSetup.step]
          split
          · rename_i r h' hexec
            refine ⟨(HomeCall.exec_grows hsafe.1 hexec).1.sheltered hsheltered, ?_⟩
            exact hsafe.2 r h' ⟨h.tree, raw c, .refl hsheltered, hexec⟩
          · exact ⟨hsheltered, hsafe⟩

theorem Good.run (hgood : s.Good home) (actions : List HomeAction) :
    (s.run 0 actions).Good home := by
  induction actions generalizing s with
  | nil => exact hgood
  | cons action rest ih => exact ih (hgood.step action)

theorem Good.init (home : List String) {t : Tree} (ht : t.Sheltered) :
    (HomeSetup.init 0 home t).Good home :=
  ⟨ht, initializePaths_wp home ⟨t, false⟩ ht⟩

/-- Once the daemon is done, only users act. -/
theorem returned_run {r : Except Error Unit} (hsheltered : s.state.tree.Sheltered)
    (hprog : s.prog = .ret () r) (rest : List HomeAction) :
    s.state.tree.Agrees (s.run 0 rest).state.tree := by
  induction rest generalizing s with
  | nil => exact .refl hsheltered
  | cons action rest ih =>
      have hstep : s.state.tree.Agrees (s.step 0 action).state.tree ∧
          (s.step 0 action).prog = .ret () r := by
        cases action with
        | user uid op =>
            rw [HomeSetup.step]
            split
            · exact ⟨.refl hsheltered, hprog⟩
            · rename_i huid
              exact ⟨.user hsheltered huid op, hprog⟩
        | daemon raw =>
            rw [HomeSetup.step, hprog]
            exact ⟨.refl hsheltered, hprog⟩
      exact hstep.1.trans (ih hstep.1.sheltered hstep.2)

end HomeSetup

/-- The path of the state directory and that of the job files in it lead to the inodes `i` and
    `j`; only root may change the first, and only root may use the second. -/
structure Secured (home : List String) (i j : Nat) (t : Tree) : Prop where
  path : ∀ follow, t.walk follow rootDir home = .found i
  closed : t.Closed i
  jobs : ∀ follow, t.walk follow rootDir (home ++ ["jobs"]) = .found j
  mode : t.inode j = some ⟨.dir, 0, 0o700⟩

/-- Whatever the users do while the daemon starts as root, and whatever they do later: if it finds
    its state directory in order, and all ancestors existed when it looked at them, the paths lead
    to the same two directories from then on, and the users change nothing in them. -/
theorem home_secured (home : List String) (t : Tree) (ht : t.Sheltered)
    (actions : List HomeAction) :
    let s := (HomeSetup.init 0 home t).run 0 actions
    s.prog = .ret () (.ok ()) → s.state.missing = false →
      ∃ i j, ∀ rest, let t' := (s.run 0 rest).state.tree
        Secured home i j t' ∧ t'.entry i = s.state.tree.entry i ∧
          t'.entry j = s.state.tree.entry j := by
  intro s hprog hmissing
  obtain ⟨hsheltered, hsafe⟩ := (HomeSetup.Good.init home ht).run actions
  rw [show ((HomeSetup.init 0 home t).run 0 actions).prog = _ from hprog] at hsafe
  obtain ⟨i, j, hfounded⟩ := (hsafe rfl).2 hmissing
  refine ⟨i, j, fun rest => ?_⟩
  have hagrees := HomeSetup.returned_run hsheltered hprog rest
  have hlater := hfounded.agrees hagrees
  have hclosed : s.state.tree.Closed j := ⟨_, hfounded.jobs, rfl⟩
  exact ⟨⟨hlater.opens.1.found, hlater.opens.2, hlater.chain.found, hlater.jobs⟩,
    hagrees.closed i hfounded.opens.2, hagrees.closed j hclosed⟩

/-- `/var/lib`, and `/tmp` for everybody. -/
def usualTree : Tree where
  inode
    | 0 | 1 | 2 => some ⟨.dir, 0, 0o755⟩
    | 3 => some ⟨.dir, 0, 0o1777⟩
    | _ => none
  entry
    | 0, "var" => some 1
    | 0, "tmp" => some 3
    | 1, "lib" => some 2
    | _, _ => none

theorem usualTree_sheltered : usualTree.Sheltered := by
  intro dir name i x hentry hx _ _ hwritable
  simp only [usualTree] at hentry
  split at hentry <;> cases hentry
  · cases hx
    cases hwritable
  · exact ⟨⟨.dir, 0, 0o755⟩, rfl, rfl⟩
  · cases hx
    cases hwritable

/-- No call fails, links lead nowhere, and a new directory gets the inode `i`. -/
def HomeCall.fair (i : Nat) : (c : HomeCall) → c.Raw
  | symlinkMetadata _ | isDir _ | setPermissions _ _ => ⟨none, .error .notFound⟩
  | mkdir _ => ⟨⟨none, .error .notFound⟩, i⟩

/-- The user 1000 is at work in `/tmp` meanwhile. -/
def usualStart : List HomeAction :=
  [.daemon (HomeCall.fair 4), .user 1000 (.create 5 3 "a" .dir 0o755)] ++
    (List.range 12).map fun n => .daemon (HomeCall.fair (n + 6))

theorem home_secured_usual :
    let s := (HomeSetup.init 0 ["var", "lib", "xlurm"] usualTree).run 0 usualStart
    ∃ i j, ∀ rest, let t' := (s.run 0 rest).state.tree
      Secured ["var", "lib", "xlurm"] i j t' ∧ t'.entry i = s.state.tree.entry i ∧
        t'.entry j = s.state.tree.entry j :=
  home_secured ["var", "lib", "xlurm"] usualTree usualTree_sheltered usualStart rfl rfl

-- Where an ancestor was missing, a user who makes it in time can put another directory in place.
example : let s := (HomeSetup.init 0 ["tmp", "a", "xlurm"] usualTree).run 0 (usualStart ++
      [.user 1000 (.rename 5 "xlurm" 5 "b"), .user 1000 (.create 30 5 "xlurm" .dir 0o755)])
    s.prog = .ret () (.ok ()) ∧ s.state.missing = true ∧
      s.state.tree.walk false rootDir ["tmp", "a", "xlurm"] = .found 30 :=
  ⟨rfl, by decide +kernel⟩

end Xlurm
