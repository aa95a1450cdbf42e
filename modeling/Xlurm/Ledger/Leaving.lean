/-
  Xlurm.Ledger.Leaving

  What an accepted `Restart` promises.  The daemon answers it only when nothing
  runs, and no `tick` is under way at that time; from then on the daemon begins
  no operation, so it starts no job until another daemon has loaded `state.json`.
-/

import Xlurm.Ledger.Peers

namespace Xlurm

variable {L L' : Ledger}

/-- An event that takes a job on its way to a worker process. -/
def Event.launches : Event → Bool
  | .started _ | .spawned _ => true
  | _ => false

/-- Jobs are started in the course of a `tick`. -/
theorem Step.ticking (hs : Step L L') {e : Entry} (heq : L'.view.hist = e :: L.view.hist)
    (he : e.event.launches = true) : L.view.hist.tickOpen = true := by
  have hnew : ∀ {hist : Hist}, hist ≠ e :: hist := by
    intro hist hsame
    have hlen := congrArg List.length hsame
    simp at hlen
  cases hs with
  | log m v event legit =>
      obtain ⟨rfl, _⟩ := List.cons.inj heq
      cases legit with
      | started job running mem disk opening unsettled ticking => exact ticking
      | _ => cases he
  | spawn m v job running disk mem started unspawned unfinished opening ticking => exact ticking
  | boot v =>
      obtain ⟨rfl, _⟩ := List.cons.inj heq
      cases he
  | _ => exact absurd heq hnew

/-- A daemon that is about to exit has no `tick` under way. -/
def Ledger.Winding (L : Ledger) : Prop :=
  L.view.hist.leaving = true → L.view.hist.tickOpen = false

theorem Ledger.Winding.step (hh : Handling L) (hs : Step L L') (hw : L.Winding) : L'.Winding := by
  cases hs with
  | log m v event legit =>
      intro hleaving
      cases legit with
      | began op closed staying =>
          -- An operation begins only if the daemon stays.
          have hstay : (v.log (.began op m)).hist.leaving = v.hist.leaving := rfl
          rw [hstay, staying] at hleaving
          cases hleaving
      | answered uid gid request response before disk live rest head answer settled =>
          exact hh.closed uid gid request before disk ⟨live, rest, head⟩
      | ticked => rfl
      | cleaning timestamp closed running => exact closed
      | started | polled => exact hw hleaving
  | spawn m v job => exact fun hleaving => hw hleaving
  | boot v => rintro ⟨⟩
  | _ => exact hw

theorem Reach.winding (h : Reach Ledger.init L) : L.Winding := by
  refine (h.keeps (I := fun L => Handling L ∧ L.Winding) Inv.init ⟨Handling.init, ?_⟩ ?_).2
  · rintro ⟨⟩
  · rintro L₁ L₂ hinv hs ⟨hh, hw⟩
    exact ⟨hh.step hinv hs, hw.step hh hs⟩

namespace Hist

/-- Only another daemon takes an accepted `Restart` back. -/
theorem leaving_append {newer older : Hist} (hstay : ∀ e ∈ newer, e.event ≠ .booted)
    (h : older.leaving = true) : leaving (newer ++ older) = true := by
  induction newer with
  | nil => exact h
  | cons e rest ih =>
      have hrest := ih fun e' he' => hstay e' (List.mem_cons_of_mem _ he')
      have he := hstay e List.mem_cons_self
      rw [List.cons_append, leaving.eq_def]
      dsimp only
      split
      · rename_i hboot
        exact absurd hboot he
      · rfl
      · rfl
      · exact hrest

end Hist

variable {e : Entry} {newer older : Hist} {uid gid : Nat} {before after : Store}

/-- No worker is alive when a `Restart` is accepted. -/
theorem Reach.restart_idle (h : Reach Ledger.init L) (heq : L.view.hist = newer ++ e :: older)
    (he : e.event = .answered uid gid .restart .ok before after) : e.live = [] := by
  obtain ⟨L₁, L₂, h₁, hs, rfl, hadd, _⟩ := h.added_init heq
  obtain ⟨m, hm, _, legit, hentry⟩ := hs.logged hadd he (by simp) (by simp)
  cases legit with
  | answered uid gid request response before disk live rest head answer settled =>
      have hidle : ∀ job ∈ L₁.view.live, False := by
        intro job hj
        have hrun := (h₁.inv.live job hj).1
        exact answer.restarted rfl rfl job (h₁.inv.liveMem _ hm job hj) hrun
      rw [hentry]
      show L₁.view.live.map (·.id) = []
      rw [List.eq_nil_iff_forall_not_mem.mpr hidle, List.map_nil]

/-- A job that is started after an accepted `Restart` is started by another daemon. -/
theorem Reach.restart_last {e' : Entry} {between : Hist} (h : Reach Ledger.init L)
    (heq : L.view.hist = newer ++ e' :: (between ++ e :: older))
    (he : e.event = .answered uid gid .restart .ok before after)
    (he' : e'.event.launches = true) : ∃ b ∈ between, b.event = .booted := by
  obtain ⟨L₁, L₂, h₁, hs, hold, hadd, _⟩ := h.added_init heq
  have hopen : L₁.view.hist.tickOpen = true := hs.ticking hadd he'
  -- Otherwise the same daemon would still be there, and it would be leaving.
  apply Classical.byContradiction
  intro hnone
  have hstay : ∀ b ∈ between, b.event ≠ .booted := fun b hb hboot => hnone ⟨b, hb, hboot⟩
  have hleaving : L₁.view.hist.leaving = true := by
    rw [hold]
    apply Hist.leaving_append hstay
    simp only [Hist.leaving, he]
  rw [h₁.winding hleaving] at hopen
  cases hopen

end Xlurm
