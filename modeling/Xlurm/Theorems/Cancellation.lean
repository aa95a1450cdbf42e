/-
  Xlurm.Theorems.Cancellation

  When an acknowledged cancellation is final.

  `cancel` changes the job in memory before it saves.  If the save fails, the
  job is cancelled in memory and pending on disk; a second `cancel` finds
  nothing to do, does not save either, and is acknowledged.  After a crash the
  job is pending again.
-/

import Xlurm.Ledger.History
import Xlurm.Refine.System

namespace Xlurm

/-- The job whose cancellation is acknowledged. -/
def Event.cancels : Event → Option Nat
  | answered _ _ (.cancel id) .ok _ _ => some id
  | _ => none

/-- A job whose cancellation is acknowledged before it was ever started is not
    started later. -/
def Hist.CancellationsFinal (hist : Hist) : Prop :=
  ∀ (newer : Hist) (e : Entry) (older : Hist) (id : Nat), hist = newer ++ e :: older →
    e.event.cancels = some id →
    id ∉ older.started → id ∉ newer.started

/-- What it says about the `n`-th entry. -/
theorem Hist.CancellationsFinal.at_drop {hist : Hist} (h : hist.CancellationsFinal) (n : Nat)
    {id : Nat} (hcancel : (hist.drop n).head?.bind (·.event.cancels) = some id)
    (hunstarted : id ∉ Hist.started (hist.drop (n + 1))) : id ∉ Hist.started (hist.take n) := by
  cases hdrop : hist.drop n with
  | nil =>
      rw [hdrop] at hcancel
      cases hcancel
  | cons e older =>
      have htail : hist.drop (n + 1) = older := by
        rw [← List.tail_drop, hdrop, List.tail_cons]
      have hsplit : hist = hist.take n ++ e :: older := by
        rw [← hdrop, List.take_append_drop]
      rw [hdrop] at hcancel
      rw [htail] at hunstarted
      exact h _ e older id hsplit hcancel hunstarted

/-- A `Cancel` of root or the owner arrives for a job that is over in memory and still pending on
    disk. -/
def Entry.cancelsStale (e : Entry) : Bool :=
  match e.event with
  | .began (.request uid _ (.cancel id)) mem =>
      mem.jobs.any (fun job =>
          job.id == id && job.state.terminal && (uid == 0 || uid == job.owner.uid)) &&
        e.disk.jobs.any (fun job => job.id == id && job.state == .pending)
  | _ => false

/-- An acknowledged cancellation bars the job, unless it was stale. -/
theorem barred_of_cancels {L L' : Ledger} {e : Entry} {id : Nat} (hs : Step L L')
    (hadd : L'.view.hist = e :: L.view.hist) (hcancel : e.event.cancels = some id)
    (hstale : ∀ e ∈ L.view.hist, e.cancelsStale = false) : Barred L id := by
  cases hev : e.event with
  | answered uid gid request response before after =>
      obtain ⟨m, hm, _, legit, _⟩ := hs.logged hadd hev (by simp) (by simp)
      have hL : L = ⟨some m, L.view⟩ := by
        rw [← hm]
      rw [hev] at hcancel
      cases legit with
      | answered _ _ _ _ _ disk live rest head answer settled =>
          cases request with
          | cancel id' =>
              cases response with
              | ok =>
                  obtain rfl : id' = id := Option.some.inj hcancel
                  rw [hL]
                  rcases answer.cancelled id' rfl rfl with hpast | ⟨⟨job, hj, hid, hterm,
                    uid', gid', hserving, hallowed⟩, job', hj', hid', hpend⟩
                  · refine ⟨hpast, ?_⟩
                    rintro _ ⟨⟩ job hj rfl hrun
                    exact Or.inl (settled job hj hrun)
                  -- the stale case, which is excluded
                  · have hfalse := hstale _ (head ▸ List.mem_cons_self)
                    rw [head] at hserving
                    cases hserving
                    rw [Entry.cancelsStale] at hfalse
                    simp only [Bool.and_eq_false_iff, List.any_eq_false] at hfalse
                    rcases hfalse with hnot | hnot
                    · exact absurd (by simpa [hid, hterm] using hallowed) (hnot job hj)
                    · exact absurd (by simp [hid', hpend]) (hnot job' hj')
              | _ => cases hcancel
          | _ => cases hcancel
  | _ =>
      rw [hev] at hcancel
      cases hcancel

/-- In a run without stale cancellations, acknowledged cancellations are final. -/
theorem cancellations_final (euid : Nat) (actions : List Action)
    (hstale : ∀ e ∈ (System.init.run euid actions).world.hist, e.cancelsStale = false) :
    (System.init.run euid actions).world.hist.CancellationsFinal := by
  intro newer e older id heq hcancel hunstarted hstarted
  have hreach := run_reach euid actions
  -- The run is cut at the acknowledgement; from there on the job is barred from starting.
  obtain ⟨L₁, L₂, h₁, hs, hold, hadd, h₂⟩ := hreach.added_init heq
  have hstale₁ : ∀ e ∈ L₁.view.hist, e.cancelsStale = false := by
    intro e' he'
    refine hstale e' ?_
    rw [heq, ← hold]
    exact List.mem_append_right _ (List.mem_cons_of_mem _ he')
  have hbarred : Barred L₂ id := (barred_of_cancels hs hadd hcancel hstale₁).step h₁.inv hs
  have hrun := (hbarred.run (h₁.inv.step hs) h₂).2
  have hlate : id ∈ (System.init.run euid actions).ledger.view.hist.started := by
    show id ∈ Hist.ids Event.starts (System.init.run euid actions).world.hist
    rw [heq, Hist.ids_append]
    exact List.mem_append_left _ hstarted
  have hearly := hrun hlate
  rw [hadd, Hist.mem_ids_cons, hold] at hearly
  rcases hearly with hnow | hearly
  · cases hev : e.event with
    | started =>
        rw [hev] at hcancel
        cases hcancel
    | _ =>
        rw [hev] at hnow
        cases hnow
  · exact hunstarted hearly

/-! ## Two runs -/

set_option maxRecDepth 10000 in
/-- The job is cancelled, and the daemon crashes and comes back. -/
theorem cancellations_final_restart :
    (System.init.run 0 (submitted ++ [.begin (.request 0 0 (.cancel 1))] ++
      List.replicate 11 (.daemon Sys.fair) ++ [.crash, .boot 1 .none 1 []] ++
      List.replicate 20 (.daemon Sys.fair))).world.hist.CancellationsFinal :=
  cancellations_final 0 _ (by decide)

/-- The disk is full: no file can be created. -/
def Sys.diskFull : (c : Sys) → c.Raw
  | .create _ => some "No space left on device (os error 28)"
  | c => c.fair

/-- The job is cancelled while the disk is full, and cancelled again, which is
    acknowledged; then the daemon crashes and comes back. -/
def lostCancellation : List Action :=
  submitted ++ [.begin (.request 0 0 (.cancel 1))] ++ List.replicate 4 (.daemon Sys.diskFull) ++
    [.begin (.request 0 0 (.cancel 1))] ++ List.replicate 4 (.daemon Sys.diskFull) ++
    [.crash, .boot 1 .none 1 []] ++ List.replicate 20 (.daemon Sys.fair)

set_option maxRecDepth 10000 in
/-- The restarted daemon starts the job. -/
theorem lostCancellation_started :
    ¬ (System.init.run 0 lostCancellation).world.hist.CancellationsFinal := by
  intro hfinal
  exact hfinal.at_drop 4 (by decide) (by decide : 1 ∉ _) (by decide)

end Xlurm
