/-
  Xlurm.Theorems.Ghosts

  Submissions that were answered with an error.

  `write_json` can fail after the rename, when it syncs the directory.  `submit`
  then takes the job back in memory, while `state.json` already has it; if the
  daemon ends before the next save, the next daemon finds the job there.
-/

import Xlurm.Ledger.Kept
import Xlurm.Refine.System

namespace Xlurm

namespace Hist

/-- The last submission that drew `id` was answered with an error. -/
def rejected (id : Nat) : Hist → Bool
  | [] => false
  | e :: older =>
      match e.event with
      | .answered _ _ (.submit _) (.error _) before after =>
          (before.nextId < id && after.nextId == id) || rejected id older
      | .began (.request _ _ (.submit _)) mem => mem.nextId + 1 != id && rejected id older
      | _ => rejected id older

/-- A job was started whose submission had been answered with an error. -/
def startsGhost : Hist → Bool
  | [] => false
  | e :: older =>
      (match e.event with
        | .started job => rejected job.id older
        | _ => false) || startsGhost older

/-- A daemon was booted while `state.json` had such a job. -/
def bootsGhost : Hist → Bool
  | [] => false
  | e :: older =>
      (match e.event with
        | .booted => e.disk.jobs.any fun job => rejected job.id older
        | _ => false) || bootsGhost older

end Hist

variable {L L' : Ledger}

/-- No job in memory belongs to a rejected submission. -/
structure Unhaunted (L : Ledger) : Prop where
  absent : ∀ id, L.view.hist.rejected id = true → ∀ m, L.mem = some m → ¬ m.Has id
  began : ∀ op mem disk live rest, L.view.hist = ⟨.began op mem, disk, live⟩ :: rest → mem.Ordered

namespace Unhaunted

theorem init : Unhaunted Ledger.init := ⟨(by rintro _ ⟨⟩), by rintro _ _ _ _ _ ⟨⟩⟩

/-- Events that tell nothing about submissions. -/
theorem rejected_cons {e : Entry} {hist : Hist} {id : Nat}
    (hbegan : ∀ op mem, e.event ≠ .began op mem)
    (hanswered : ∀ uid gid request response before after,
      e.event ≠ .answered uid gid request response before after) :
    Hist.rejected id (e :: hist) = hist.rejected id := by
  cases hev : e.event with
  | began op mem => exact absurd hev (hbegan op mem)
  | answered uid gid request response before after => exact absurd hev (hanswered _ _ _ _ _ _)
  | _ => simp only [Hist.rejected, hev]

theorem log_absent (hu : Unhaunted L) {m : Store} (hm : L.mem = some m) {event : Event}
    (legit : Legit L.view m event) (id : Nat)
    (hrej : (L.view.log event).hist.rejected id = true) : ¬ m.Has id := by
  have old : L.view.hist.rejected id = true → ¬ m.Has id := fun h => hu.absent id h m hm
  cases legit with
  | began op closed =>
      refine old ?_
      cases op with
      | request uid gid request =>
          cases request with
          | submit spec =>
              simp only [View.log, Hist.rejected, Bool.and_eq_true] at hrej
              exact hrej.2
          | _ => exact hrej
      | _ => exact hrej
  | answered uid gid request response before disk live rest head answer settled =>
      cases request with
      | submit spec =>
          cases response with
          | error err =>
              simp only [View.log, Hist.rejected, Bool.or_eq_true, Bool.and_eq_true,
                decide_eq_true_eq] at hrej
              rcases hrej with ⟨hlt, _⟩ | hrej
              -- the job list is what it was before the id was drawn
              · rintro ⟨job, hj, rfl⟩
                rw [answer.rejected spec err rfl rfl] at hj
                have hle := (hu.began _ _ _ _ _ head).bounded job hj
                omega
              · exact old hrej
          | _ => exact old hrej
      | _ => exact old hrej
  | ticked | cleaning | started | polled =>
      refine old ?_
      rw [View.log, rejected_cons (by simp) (by simp)] at hrej
      exact hrej

theorem step (h : Inv L) (hs : Step L L') (hu : Unhaunted L)
    (hboot : L'.view.hist.bootsGhost = false) : Unhaunted L' := by
  refine ⟨?_, ?_⟩
  · intro id hrej m' hm'
    cases hs with
    | die | publish | misread => exact hu.absent id hrej m' hm'
    | log m v event legit =>
        cases hm'
        exact hu.log_absent rfl legit id hrej
    | spawn m v job =>
        cases hm'
        rw [View.log, rejected_cons (by simp) (by simp)] at hrej
        exact hu.absent id hrej m' rfl
    | save m v => exact Option.some.inj hm' ▸ hu.absent id hrej m rfl
    | saveRetained m v => exact Option.some.inj hm' ▸ hu.absent id hrej m rfl
    | retain m v =>
        cases hm'
        rintro ⟨job, hj, hid⟩
        exact hu.absent id hrej m rfl ⟨job, (Store.mem_retain.mp hj).1, hid⟩
    | push m v job uid gid spec disk live rest head next pending =>
        cases hm'
        rintro ⟨old, hold, rfl⟩
        rcases List.mem_append.mp hold with hold | hold
        · exact hu.absent _ hrej m rfl ⟨old, hold, rfl⟩
        -- this submission draws the id again
        · rw [List.mem_singleton.mp hold, head] at hrej
          simp only [Hist.rejected, Bool.and_eq_true, bne_iff_ne] at hrej
          exact hrej.1 next.symm
    | pop nextId jobs v job =>
        cases hm'
        rintro ⟨old, hold, hid⟩
        exact hu.absent id hrej _ rfl ⟨old, List.mem_append_left _ hold, hid⟩
    | set m v i job job' at_i change =>
        cases hm'
        rintro ⟨old, hold, hid⟩
        rcases Store.mem_setJob hold with rfl | hold
        · exact hu.absent id hrej m rfl
            ⟨job, List.mem_of_getElem? at_i, change.id_eq.symm.trans hid⟩
        · exact hu.absent id hrej m rfl ⟨old, hold, hid⟩
    | crash => cases hm'
    | boot v =>
        cases hm'
        rintro ⟨job, hj, rfl⟩
        simp only [View.log, Hist.bootsGhost, Bool.or_eq_false_iff, List.any_eq_false] at hboot
        rw [View.log, rejected_cons (by simp) (by simp)] at hrej
        exact hboot.1 job hj hrej
  -- An operation begins with the store of this moment, whose ids are bounded.
  · intro op mem disk live rest head
    cases hs with
    | log m v event legit =>
        obtain ⟨hentry, _⟩ := List.cons.inj head
        cases hentry
        cases legit with
        | began => exact h.memOrdered _ rfl
    | spawn | boot =>
        obtain ⟨hentry, _⟩ := List.cons.inj head
        cases hentry
    | _ => exact hu.began op mem disk live rest head

/-- A step does not start a job of a rejected submission. -/
theorem startsGhost_step (hs : Step L L') (hu : Unhaunted L)
    (hold : L.view.hist.startsGhost = false) : L'.view.hist.startsGhost = false := by
  rcases hs.hist with hsame | ⟨e, hadd⟩
  · exact hsame ▸ hold
  · rw [hadd, Hist.startsGhost, hold, Bool.or_false]
    cases hev : e.event with
    | started job =>
        obtain ⟨m, hm, _, legit, _⟩ := hs.logged hadd hev (by simp) (by simp)
        cases legit with
        | started _ running mem =>
            refine Bool.eq_false_iff.mpr fun hrej => ?_
            exact hu.absent job.id hrej m hm ⟨job, mem, rfl⟩
    | _ => rfl

end Unhaunted

theorem Hist.bootsGhost_of_cons {e : Entry} {hist : Hist}
    (h : Hist.bootsGhost (e :: hist) = false) : hist.bootsGhost = false := by
  rw [Hist.bootsGhost, Bool.or_eq_false_iff] at h
  exact h.2

/-- In a run in which no daemon is booted on a rejected submission, none is started. -/
theorem rejected_not_started (euid : Nat) (actions : List Action)
    (hboot : (System.init.run euid actions).world.hist.bootsGhost = false) :
    (System.init.run euid actions).world.hist.startsGhost = false := by
  have hreach := run_reach euid actions
  have hrun : (System.init.run euid actions).ledger.view.hist.bootsGhost = false →
      Unhaunted (System.init.run euid actions).ledger ∧
        (System.init.run euid actions).ledger.view.hist.startsGhost = false := by
    refine hreach.keeps (I := fun L => L.view.hist.bootsGhost = false →
      Unhaunted L ∧ L.view.hist.startsGhost = false) Inv.init
      (fun _ => ⟨Unhaunted.init, rfl⟩) ?_
    intro L₁ L₂ h₁ hs ih hboot₂
    have hboot₁ : L₁.view.hist.bootsGhost = false := by
      rcases hs.hist with hsame | ⟨e, hadd⟩
      · exact hsame ▸ hboot₂
      · exact Hist.bootsGhost_of_cons (hadd ▸ hboot₂)
    obtain ⟨hu, hstarts⟩ := ih hboot₁
    exact ⟨hu.step h₁ hs hboot₂, hu.startsGhost_step hs hstarts⟩
  exact (hrun hboot).2

/-! ## Two runs -/

/-- The directory of a renamed file cannot be synced. -/
def Sys.unsynced : (c : Sys) → c.Raw
  | .syncDir => some "Input/output error (os error 5)"
  | c => c.fair

/-- A submission fails after `state.json` was replaced. -/
def halfSaved : List Action :=
  [.boot 1 .none 1 []] ++ List.replicate 5 (.daemon Sys.fair) ++
    [.begin (.request 0 0 (.submit .noop))] ++ List.replicate 11 (.daemon Sys.unsynced)

set_option maxRecDepth 10000 in
/-- The next submission is saved, and with it the roll-back. -/
theorem rejected_not_started_resaved :
    (System.init.run 0 (halfSaved ++ [.begin (.request 0 0 (.submit .noop))] ++
      List.replicate 11 (.daemon Sys.fair) ++ [.crash, .boot 1 .none 1 []] ++
      List.replicate 20 (.daemon Sys.fair))).world.hist.startsGhost = false :=
  rejected_not_started 0 _ (by decide)

/-- The daemon crashes before the next save, and comes back. -/
def ghost : List Action :=
  halfSaved ++ [.crash, .boot 1 .none 1 []] ++ List.replicate 20 (.daemon Sys.fair)

set_option maxRecDepth 10000 in
/-- The restarted daemon starts the rejected submission. -/
theorem ghost_started : (System.init.run 0 ghost).world.hist.startsGhost = true := by
  decide

end Xlurm
