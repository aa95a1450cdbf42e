/-
  Xlurm.Refine.Log

  What happens to the log of a job: it only grows, by what the worker of the job
  writes, unless a call of the daemon removes it.
-/

import Xlurm.Ledger.Over
import Xlurm.Refine.System

namespace Xlurm

variable {L₀ : Ledger} {sys : System} {w w' w'' : World} {id : Nat}

/-! ## The content of a log -/

theorem World.logOf_eq (w : World) (id : Nat) :
    w.logOf id = match w.dataAt (.job id .log) with
      | some (.bytes bytes) => bytes
      | _ => [] := by
  unfold logOf dataAt
  cases w.file (.job id .log) with
  | none => rfl
  | some f => rcases f with ⟨_ | _, _⟩ <;> rfl

theorem World.logOf_congr (h : w'.dataAt (.job id .log) = w.dataAt (.job id .log)) :
    w'.logOf id = w.logOf id := by
  rw [logOf_eq, logOf_eq, h]

theorem World.logOf_absent (h : w.dataAt (.job id .log) = none) : w.logOf id = [] := by
  rw [logOf_eq, h]

/-- A part of the log, as `handleLog` reads it. -/
theorem exec_readLog {offset limit : Nat} {raw : Sys.Raw (.readLog id offset limit)}
    {bytes : List UInt8} (hexec : (Sys.readLog id offset limit).exec .daemon w raw =
      some (.ok bytes, w')) : w' = w ∧ bytes = ((w.logOf id).drop offset).take limit := by
  cases raw with
  | some e => cases hexec
  | none =>
      cases hexec
      exact ⟨rfl, rfl⟩

/-- A log that is not found has no content. -/
theorem exec_openLog {raw : Sys.Raw (.openLog id)}
    (hexec : (Sys.openLog id).exec .daemon w raw = some (.notFound, w')) : w'.logOf id = [] := by
  cases raw with
  | some e => cases hexec
  | none =>
      cases hf : w.file (.job id .log) with
      | none =>
          simp only [Sys.exec, hf] at hexec
          cases hexec
          rw [World.logOf, hf]
      | some f =>
          simp only [Sys.exec, hf] at hexec
          cases hexec

/-- The log of job `id` has grown at most by what a worker of the job wrote. -/
structure Grows (id : Nat) (w w' : World) : Prop where
  log : w.logOf id <+: w'.logOf id
  idle : (∀ job ∈ w.live, job.id ≠ id) → w'.logOf id = w.logOf id

theorem Grows.of_eq (h : w'.logOf id = w.logOf id) : Grows id w w' :=
  ⟨h ▸ List.prefix_refl _, fun _ => h⟩

/-! ## Workers -/

/-- The program of a worker does not touch logs; only its payload does. -/
theorem worker_logs {pid job : Nat} {v : WorkerView} {c : Sys} {raw : c.Raw} {r : c.Reply}
    (hguard : workerGuard pid job c v) (hexec : c.exec (.worker pid) w raw = some (r, w')) :
    w'.dataAt (.job id .log) = w.dataAt (.job id .log) := by
  cases exec_changes hexec with
  | nothing | pathExists => rfl
  | create =>
      obtain rfl := hguard
      obtain ⟨holders, heq, _⟩ := w.created_eq (.job job (.tmp pid))
      rw [heq, World.dataAt_setFile_of_ne]
      simp
  | @write path piece =>
      obtain rfl := hguard
      rcases w.written_eq (.job job (.tmp pid)) piece with ⟨_, heq⟩ | ⟨f, _, heq⟩
      · rw [heq]
      · rw [heq, World.dataAt_setFile_of_ne]
        simp
  | rename hf =>
      -- From its temporary file to the result.
      obtain ⟨rfl, rfl, _⟩ := hguard
      rw [World.dataAt_renamed, if_neg (by simp), if_neg (by simp)]
  | _ => cases hguard

theorem World.logOf_printed (w : World) (id : Nat) (job : Job) (bytes : List UInt8) :
    ((w.printed job bytes).logOf id = w.logOf id) ∨
      (job.id = id ∧ (w.printed job bytes).logOf id = w.logOf id ++ bytes) := by
  unfold printed
  split
  · rename_i old holders hf
    by_cases hid : job.id = id
    · subst hid
      refine Or.inr ⟨rfl, ?_⟩
      simp only [logOf, setFile_same, hf]
    · refine Or.inl (logOf_congr ?_)
      apply dataAt_setFile_of_ne
      simpa using Ne.symm hid
  · exact Or.inl rfl

/-- Other processes than the daemon only append, and only the worker of the job does. -/
theorem Interferes.grows (hi : Interferes w w') (h : w.Sound) (id : Nat) : Grows id w w' := by
  cases hi with
  | step pid env =>
      apply Grows.of_eq
      have hmoves := workerStep_moves w pid env
      generalize System.workerStep w pid env = next at hmoves
      cases hmoves with
      | stays => rfl
      | @calls job s c k raw r w₁ hwk hexec =>
          obtain ⟨hguard, _⟩ := h.workers _ hwk
          have hlogs : w₁.dataAt (.job id .log) = w.dataAt (.job id .log) := worker_logs hguard hexec
          exact World.logOf_congr hlogs
  | kill pid => exact Grows.of_eq (World.logOf_congr (World.dataAt_killed w pid _))
  | output wk bytes hwk =>
      rcases w.logOf_printed id wk.job bytes with hsame | ⟨hid, happ⟩
      · exact Grows.of_eq hsame
      · refine ⟨happ ▸ List.prefix_append _ _, ?_⟩
        intro hidle
        exact absurd hid (hidle wk.job (List.mem_map_of_mem hwk))

/-! ## The daemon -/

theorem Path.log_not_ownTemp {pid : Nat} : ¬ (Path.job id .log).ownTemp pid := fun h => h

theorem Hist.log_not_replaced {hist : Hist} {m : Store} : ¬ hist.MayReplace m (.job id .log) :=
  fun h => h

/-- A call of the daemon that does not remove the log leaves it as it is. -/
theorem exec_logOf {m : Store} {c : Sys} {raw : c.Raw} {r : c.Reply}
    (hc : c.Allowed w.pid m w.hist) (hexec : c.exec .daemon w raw = some (r, w'))
    (hkept : (w.file (.job id .log)).isSome → (w'.file (.job id .log)).isSome) :
    w'.logOf id = w.logOf id := by
  cases exec_wrote hc hexec (.job id .log) with
  | same data => exact World.logOf_congr data
  | unlinked call data =>
      cases hf : w.file (.job id .log) with
      | none =>
          have habsent : w.dataAt (.job id .log) = none := by rw [World.dataAt, hf]; rfl
          rw [World.logOf_absent data, World.logOf_absent habsent]
      | some f =>
          rw [hf] at hkept
          have hsome := hkept rfl
          rw [World.dataAt, Option.map_eq_none_iff] at data
          rw [data] at hsome
          cases hsome
  | temporary own => exact absurd own Path.log_not_ownTemp
  | replaced may => exact absurd may Hist.log_not_replaced
  | opened fresh data =>
      rw [World.logOf_absent fresh, World.logOf_eq, data]
      rfl

/-- One call adds at most one entry to the history. -/
theorem exec_hist {who : Holder} {c : Sys} {raw : c.Raw} {r : c.Reply}
    (hexec : c.exec who w raw = some (r, w')) : w.hist <:+ w'.hist := by
  have same : w'.hist = w.hist → w.hist <:+ w'.hist := fun heq => heq ▸ List.suffix_refl _
  cases exec_changes hexec with
  | nothing | unlink | pathExists => exact same rfl
  | @create path =>
      obtain ⟨holders, heq, _⟩ := w.created_eq path
      exact same (by rw [heq]; rfl)
  | @write path piece =>
      rcases w.written_eq path piece with ⟨_, heq⟩ | ⟨f, _, heq⟩
      · exact same (by rw [heq])
      · exact same (by rw [heq]; rfl)
  | rename =>
      apply same
      unfold World.renamed World.publish
      split <;> rfl
  | @flock path =>
      apply same
      unfold World.flocked
      cases w.file path with
      | none => rfl
      | some f => dsimp only; split <;> rfl
  | @close path =>
      apply same
      unfold World.closed
      cases w.file path <;> rfl
  | @openAppend path =>
      apply same
      unfold World.touched
      cases w.file path <;> rfl
  | @spawn pid fuel job =>
      -- The only call besides `note` that the history records.
      unfold World.spawned
      cases w.file (.job job.id .lock) with
      | none => exact List.suffix_cons _ _
      | some f => dsimp only; split <;> exact List.suffix_cons _ _
  | note => exact List.suffix_cons _ _

/-! ## The system -/

theorem System.settle_hist (w : World) (prog : DaemonProg) :
    (System.settle w prog).world.hist = w.hist := by
  unfold System.settle
  split <;> rfl

/-- Actions only add to the history. -/
theorem System.Moves.hist_suffix {euid : Nat} {sys' : System} (hm : System.Moves euid sys sys')
    (h : sys.Good L₀) : sys.world.hist <:+ sys'.world.hist := by
  cases hm with
  | idle => exact List.suffix_refl _
  | boot =>
      rw [System.settle_hist]
      exact List.suffix_cons _ _
  | begin => rw [System.settle_hist]
  | daemon st c k raw r w' next exec =>
      rw [System.settle_hist]
      exact exec_hist exec
  | crash => exact List.suffix_refl _
  | beside w' hi =>
      obtain ⟨_, _, hb⟩ := hi.sound h.sound h.reach
      show sys.world.hist <:+ w'.hist
      rw [hb.hist]

/-- Actions that do not remove the log of a job add to it at most what a worker of the
    job writes. -/
theorem System.Moves.grows {euid : Nat} {sys' : System} (hm : System.Moves euid sys sys')
    (h : sys.Good L₀)
    (hkept : (sys.world.file (.job id .log)).isSome → (sys'.world.file (.job id .log)).isSome) :
    Grows id sys.world sys'.world := by
  have settled : ∀ w prog, (System.settle w prog).world.logOf id = w.logOf id := fun w prog =>
    World.logOf_congr (System.settle_dataAt w prog _)
  cases hm with
  | idle => exact Grows.of_eq rfl
  | boot => exact Grows.of_eq (settled _ _)
  | begin => exact Grows.of_eq (settled _ _)
  | daemon st c k raw r w' next exec =>
      apply Grows.of_eq
      rw [settled]
      apply exec_logOf (h.allowed next) exec
      intro hsome
      have hdata := congrArg Option.isSome (System.settle_dataAt w' (k r) (.job id .log))
      rw [World.dataAt, World.dataAt, Option.isSome_map, Option.isSome_map] at hdata
      rw [← hdata]
      exact hkept hsome
  | crash => exact Grows.of_eq (World.logOf_congr (World.dataAt_released sys.world _ _))
  | beside w' hi => exact hi.grows h.sound id

end Xlurm
