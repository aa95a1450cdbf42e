/-
  Xlurm.Refine.Contract

  The contract of the scheduler's calls over the ledger: what the scheduler has
  to establish before each call, and what it may rely on afterwards.

  Between any two of its calls workers may die or publish results; nothing else
  happens without the daemon.

  A `Scene` is the view together with the files that exist: `cleanup` may forget
  a job only when no file of the job is left.
-/

import Xlurm.Ledger.Inv
import Xlurm.Model.Daemon
import Xlurm.Prog.Safe

namespace Xlurm

open Prog.Comp

/-! ## Guards and effects -/

/-- What other processes do to the view while the daemon waits. -/
structure Meanwhile (v v' : View) : Prop where
  disk : v'.disk = v.disk
  hist : v'.hist = v.hist
  live : v'.live ⊆ v.live

namespace Meanwhile

theorem refl (v : View) : Meanwhile v v := ⟨rfl, rfl, List.Subset.refl _⟩

theorem trans {v v' v'' : View} (h : Meanwhile v v') (h' : Meanwhile v' v'') :
    Meanwhile v v'' :=
  ⟨h'.disk.trans h.disk, h'.hist.trans h.hist, List.Subset.trans h'.live h.live⟩

end Meanwhile

/-- The events that the main loop adds itself. -/
def Event.ofLoop : Event → Bool
  | began _ _ | answered _ _ _ _ _ _ | ticked | cleaning _ _ => true
  | booted | started _ | spawned _ | polled _ _ => false

/-- The main loop's events do not depend on what the workers do meanwhile. -/
theorem Legit.stable {v v' : View} {m : Store} {event : Event} (legit : Legit v m event)
    (hloop : event.ofLoop = true) (hm : Meanwhile v v') : Legit v' m event := by
  have hstored : ∀ job, Ledger.Stored ⟨some m, v'⟩ job → Ledger.Stored ⟨some m, v⟩ job := by
    rintro job (hj | hj)
    · exact Or.inl (hm.disk ▸ hj)
    · exact Or.inr hj
  cases legit with
  | began op closed staying => exact Legit.began op (hm.hist ▸ closed) (hm.hist ▸ staying)
  | answered uid gid request response before disk live rest head answer settled =>
      refine Legit.answered uid gid request response before disk live rest (hm.hist ▸ head)
        ⟨?_, answer.rejected, ?_, answer.restarted⟩ (hm.hist ▸ settled)
      · intro spec job hreq hresp
        rw [hm.disk, hm.hist]
        exact answer.accepted spec job hreq hresp
      · intro id hreq hresp
        rcases answer.cancelled id hreq hresp with hpast | hbad
        · refine Or.inl ⟨fun job hj => hpast.pending job (hstored job hj), ?_⟩
          have hdrawn := hpast.drawn
          rw [← hm.disk] at hdrawn
          exact hdrawn
        · exact Or.inr (hm.hist ▸ hbad)
  | ticked ticking running =>
      rw [← hm.hist] at ticking running
      rw [← hm.disk] at running
      exact Legit.ticked ticking running
  | cleaning timestamp closed running =>
      rw [← hm.hist] at closed
      rw [← hm.disk] at running
      exact Legit.cleaning timestamp closed running
  | started | polled => cases hloop

/-- The view and which files exist. -/
structure Scene extends View where
  files : Path → Bool

instance : Coe Scene View := ⟨Scene.toView⟩

/-- A process id in an extension has 32 bits. -/
def Ext.Fits : Ext → Prop
  | tmp pid => pid < 2 ^ 32
  | _ => True

/-- Job `id` does not run on disk. -/
def View.Dormant (v : View) (id : Nat) : Prop :=
  ∀ job ∈ v.disk.jobs, job.state = .running → job.id ≠ id

/-- A file that `cleanup` may delete. -/
def View.Removable (v : View) : Path → Prop
  | .job id _ => v.Dormant id
  | .other _ => True
  | .state | .stateTmp _ => False

/-- Job `id` does not run, and has no files. -/
def Scene.Gone (v : Scene) (id : Nat) : Prop :=
  v.Dormant id ∧ ∀ ext, v.files (.job id ext) = false

/-- No file of a job that does not run comes back. -/
def Scene.Tidy (v v' : Scene) : Prop :=
  ∀ id, v.Dormant id → ∀ ext, v.files (.job id ext) = false → v'.files (.job id ext) = false

theorem View.Dormant.congr {v v' : View} {id : Nat} (h : v.Dormant id) (hdisk : v'.disk = v.disk) :
    v'.Dormant id := fun job hj => h job (hdisk ▸ hj)

theorem Scene.Tidy.refl (v : Scene) : v.Tidy v := fun _ _ _ h => h

theorem Scene.Tidy.trans {v v' v'' : Scene} (h : v.Tidy v') (hm : Meanwhile v v')
    (h' : v'.Tidy v'') : v.Tidy v'' := fun id hid ext habsent =>
  h' id (hid.congr hm.disk) ext (h id hid ext habsent)

/-- What the scheduler `s` has to establish before a call. -/
def Guard : Call → Scheduler → Scene → Prop
  | .save store, s, v =>
      store = s.store ∨
        ∃ timestamp disk live rest,
          v.hist = ⟨.cleaning timestamp s.store, disk, live⟩ :: rest ∧
            store = s.store.retain (s.store.expired timestamp) ∧
            ∀ id ∈ s.store.expired timestamp, v.Gone id
  | .start job, s, v =>
      job.state = .running ∧ job ∈ s.store.jobs ∧ job ∈ v.disk.jobs ∧
        v.hist.PendingAtOpening job.id ∧ job.id ∉ v.hist.settled ∧ v.hist.tickOpen = true
  | .poll id, s, v =>
      (∃ job ∈ s.store.jobs, job.id = id ∧ job.state = .running ∧ job ∈ v.disk.jobs) ∧
        ∀ job ∈ v.live, v.hist.LiveAtOpening job.id
  | .cancel id, s, v =>
      ∃ job ∈ s.store.jobs, job.id = id ∧ job.state = .running ∧ job ∈ v.disk.jobs ∧
        v.hist.MayCancel job
  | .removeFile entry, _, v => v.Removable entry
  | .note event, s, v => event.ofLoop = true ∧ Legit v s.store event
  | _, _, _ => True

/-- What a call may do to the scene, given its reply. -/
def Effect : (c : Call) → Scene → c.Reply → Scene → Prop
  | .save store, v, r, v' =>
      v'.hist = v.hist ∧ v'.live ⊆ v.live ∧ (v'.disk = store ∨ v'.disk = v.disk) ∧
        (r = .ok () → v'.disk = store)
  | .start job, v, r, v' =>
      v'.disk = v.disk ∧ ∃ e : Entry, e.event = .started job ∧
        match r with
        | .error _ => v'.hist = e :: v.hist
        | .ok () => ∃ e' : Entry, e'.event = .spawned job ∧ v'.hist = e' :: e :: v.hist
  | .poll id, v, r, v' =>
      v'.disk = v.disk ∧ v'.live ⊆ v.live ∧
        match r with
        | .error _ => v'.hist = v.hist
        | .ok outcome => (outcome = none → v.hist.LiveAtOpening id) ∧
            ∃ e : Entry, e.event = .polled id outcome ∧ v'.hist = e :: v.hist
  | .note event, v, _, v' =>
      v'.disk = v.disk ∧ ∃ live, v'.hist = ⟨event, v.disk, live⟩ :: v.hist ∧
        ∀ job ∈ v'.live, job.id ∈ live
  | .readDir, v, r, v' =>
      Meanwhile v v' ∧ ∀ entries, r = .ok entries →
        (∀ path, .ok path ∈ entries → path.inJobs = true) ∧
        ((∀ e, .error e ∉ entries) → ∀ id ext, v'.files (.job id ext) = true →
          .ok (.job id ext) ∈ entries ∧ ext.Fits)
  | .removeFile entry, v, r, v' =>
      Meanwhile v v' ∧ v.Tidy v' ∧ ((∀ e, r ≠ .error e) → v'.files entry = false)
  | _, v, _, v' => Meanwhile v v'

/-- The contract of the calls, for runs that began in the ledger `L₀`. -/
def contract (L₀ : Ledger) : Prog.Spec Scheduler Call Call.Reply Scene where
  pre c s v := Reach L₀ ⟨some s.store, v⟩ ∧ Guard c s v
  post c s v r v' := Reach L₀ ⟨some s.store, v'⟩ ∧ Effect c v r v'

/-! ## Calm computations -/

/-- The calls without a guard, except `readDir`. -/
def Call.plain : Call → Bool
  | now | isDir _ | account _ _ | openLog _ | readLog _ _ _ => true
  | save _ | start _ | poll _ | cancel _ | readDir | removeFile _ | note _ => false

variable {L₀ : Ledger} {s : Scheduler} {v : Scene} {α β : Type}

/-- A computation that leaves the store and the ledger alone. -/
def Calm (L₀ : Ledger) (x : Sched α) : Prop :=
  ∀ s (v : Scene), Reach L₀ ⟨some s.store, v⟩ →
    wp (contract L₀) x (fun s' _ v' =>
      s'.store = s.store ∧ Meanwhile v v' ∧ Reach L₀ ⟨some s.store, v'⟩) s v

namespace Calm

theorem pure (a : α) : Calm L₀ (Pure.pure a) :=
  fun _ v hr => ⟨rfl, Meanwhile.refl v, hr⟩

theorem throw (e : Error) : Calm L₀ (Prog.Comp.throw e : Sched α) :=
  fun _ v hr => ⟨rfl, Meanwhile.refl v, hr⟩

theorem lift (r : Except Error α) : Calm L₀ (Prog.Comp.lift r : Sched α) :=
  fun _ v hr => ⟨rfl, Meanwhile.refl v, hr⟩

theorem get : Calm L₀ (Prog.Comp.get : Sched Scheduler) :=
  fun _ v hr => ⟨rfl, Meanwhile.refl v, hr⟩

theorem modify {f : Scheduler → Scheduler} (hf : ∀ s, (f s).store = s.store) :
    Calm L₀ (Prog.Comp.modify f : Sched Unit) :=
  fun s v hr => ⟨hf s, Meanwhile.refl v, hr⟩

theorem ensure (c : Prop) [Decidable c] (e : Error) :
    Calm L₀ (Prog.Comp.ensure c e : Sched Unit) := by
  intro s v hr
  rw [wp_ensure]
  exact ⟨fun _ => ⟨rfl, Meanwhile.refl v, hr⟩, fun _ => ⟨rfl, Meanwhile.refl v, hr⟩⟩

theorem call (c : Call) (hc : c.plain = true) : Calm L₀ (Prog.Comp.call c : Sched c.Reply) := by
  intro s v hr
  rw [wp_call]
  cases c with
  | now | isDir | account | openLog | readLog =>
      exact ⟨⟨hr, trivial⟩, fun r v' hpost => ⟨rfl, hpost.2, hpost.1⟩⟩
  | save | start | poll | cancel | readDir | removeFile | note => cases hc

theorem bind {x : Sched α} {f : α → Sched β} (hx : Calm L₀ x) (hf : ∀ a, Calm L₀ (f a)) :
    Calm L₀ (x >>= f) := by
  intro s v hr
  refine wp_bind_of (hx s v hr) ?_ (fun _ _ _ h => h)
  rintro s' a v' ⟨hstore, hm, hr'⟩
  rw [← hstore] at hr'
  refine wp_mono (hf a s' v' hr') ?_
  rintro s'' r v'' ⟨hstore', hm', hr''⟩
  exact ⟨hstore'.trans hstore, hm.trans hm', hstore ▸ hr''⟩

end Calm

/-- Go on after a calm computation. -/
theorem wp_calm {x : Sched α} {Q : Scheduler → Except Error α → Scene → Prop} (hx : Calm L₀ x)
    (hr : Reach L₀ ⟨some s.store, v⟩)
    (hQ : ∀ s' r (v' : Scene), s'.store = s.store → Meanwhile v v' → Reach L₀ ⟨some s'.store, v'⟩ →
      Q s' r v') : wp (contract L₀) x Q s v := by
  refine wp_mono (hx s v hr) ?_
  rintro s' r v' ⟨hstore, hm, hr'⟩
  exact hQ s' r v' hstore hm (hstore ▸ hr')

/-- Go on after a calm first part. -/
theorem wp_calm_bind {x : Sched α} {f : α → Sched β}
    {Q : Scheduler → Except Error β → Scene → Prop} (hx : Calm L₀ x)
    (hr : Reach L₀ ⟨some s.store, v⟩)
    (hok : ∀ s' a (v' : Scene), s'.store = s.store → Meanwhile v v' → Reach L₀ ⟨some s'.store, v'⟩ →
      wp (contract L₀) (f a) Q s' v')
    (herr : ∀ s' e (v' : Scene), s'.store = s.store → Meanwhile v v' → Reach L₀ ⟨some s'.store, v'⟩ →
      Q s' (.error e) v') : wp (contract L₀) (x >>= f) Q s v := by
  rw [wp_bind]
  refine wp_calm hx hr ?_
  rintro s' (e | a) v' hstore hm hr'
  · exact herr s' e v' hstore hm hr'
  · exact hok s' a v' hstore hm hr'

/-! ## Saving -/

/-- What `save` leaves behind. -/
structure Saved (store : Store) (v : View) (r : Except Error Unit) (v' : View) : Prop where
  hist : v'.hist = v.hist
  live : v'.live ⊆ v.live
  disk : v'.disk = store ∨ v'.disk = v.disk
  ok : r = .ok () → v'.disk = store

theorem wp_save {Q : Scheduler → Except Error Unit → Scene → Prop}
    (hr : Reach L₀ ⟨some s.store, v⟩)
    (hQ : ∀ r (v' : Scene), Reach L₀ ⟨some s.store, v'⟩ → Saved s.store v r v' → Q s r v') :
    wp (contract L₀) save Q s v := by
  simp only [save, wp_bind, wp_get, andThen_ok, wp_call, wp_lift]
  refine ⟨⟨hr, Or.inl rfl⟩, ?_⟩
  rintro r v' ⟨hr', hhist, hlive, hdisk, hok⟩
  exact hQ r v' hr' ⟨hhist, hlive, hdisk, hok⟩

end Xlurm
