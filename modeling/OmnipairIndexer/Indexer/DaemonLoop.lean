/-
The daemon loop around `run_pipeline`.

`run_daemon_loop` calls `run_indexer_instance`, sleeps and starts over, whatever
the instance returned.  `run_pipeline` answers a shutdown request with the `Ok` of
a pipeline that ended by itself, so the loop has nothing to tell the two apart by.
`shutdown_final_iff` states what is left of a shutdown: it is final as long as the
sleep after it is not over.
-/
import OmnipairIndexer.Indexer.RunPipeline

namespace OmnipairIndexer

open Transition

/-- The branches that are taken because a signal was received. -/
def RunPipeline.Action.receives {U : Type} : RunPipeline.Action U → Bool
  | interrupt | ctrlC | shutdownSignal => true
  | _ => false

namespace DaemonLoop

variable {U : Type}

inductive Phase (U : Type) where
  /-- In `create_pipeline`. -/
  | starting
  | running (pipeline : RunPipeline.State U)
  /-- In the sleep, after which `retry_delay` has the given value. -/
  | sleeping (nextDelay : Nat)

structure State (U : Type) where
  phase : Phase U
  retryDelay : Nat
  /-- The calls of `run_indexer_instance`. -/
  instances : Nat
  /-- The calls made when the first shutdown request was received. -/
  requested : Option Nat

def maxRetryDelay : Nat := 30

def start : State U := ⟨.starting, 1, 1, none⟩

inductive Action (U : Type) where
  | created
  | createFailed (e : CarbonError)
  | pipeline (action : RunPipeline.Action U)
  | wake

/-- The match of the loop on what an instance returned. -/
def State.finished (s : State U) : Except CarbonError Unit → State U
  | .ok _ => { s with phase := .sleeping 1, retryDelay := 1 }
  | .error _ => { s with phase := .sleeping (min (s.retryDelay * 2) maxRetryDelay) }

def State.resume (s : State U) (action : RunPipeline.Action U) (pipeline : RunPipeline.State U) :
    State U :=
  let s := if action.receives then { s with requested := s.requested <|> some s.instances } else s
  match pipeline.returned with
  | none => { s with phase := .running pipeline }
  | some result => s.finished result

def step (capacity : Nat) (s : State U) : Action U → Option (State U)
  | .created =>
    match s.phase with
    | .starting => some { s with phase := .running RunPipeline.start }
    | _ => none
  | .createFailed e =>
    match s.phase with
    | .starting => some (s.finished (.error e))
    | _ => none
  | .pipeline action =>
    match s.phase with
    | .running pipeline =>
      (RunPipeline.step capacity .processPending pipeline action).map (s.resume action)
    | _ => none
  | .wake =>
    match s.phase with
    | .sleeping nextDelay =>
      some { s with phase := .starting, retryDelay := nextDelay, instances := s.instances + 1 }
    | _ => none

/-! ## What a step does to the counts -/

section Steps

variable {capacity : Nat} {s t : State U}

@[simp] theorem finished_instances (r : Except CarbonError Unit) :
    (s.finished r).instances = s.instances := by
  cases r <;> rfl

@[simp] theorem finished_requested (r : Except CarbonError Unit) :
    (s.finished r).requested = s.requested := by
  cases r <;> rfl

theorem finished_sleeps (r : Except CarbonError Unit) :
    ∃ nextDelay, (s.finished r).phase = .sleeping nextDelay := by
  cases r <;> exact ⟨_, rfl⟩

theorem resume_running (action : RunPipeline.Action U) {pipeline : RunPipeline.State U}
    (h : pipeline.returned = none) : (s.resume action pipeline).phase = .running pipeline := by
  simp [State.resume, h]

theorem resume_sleeps (action : RunPipeline.Action U) {pipeline : RunPipeline.State U}
    (h : pipeline.returned.isSome) :
    ∃ nextDelay, (s.resume action pipeline).phase = .sleeping nextDelay := by
  obtain ⟨r, hr⟩ := Option.isSome_iff_exists.mp h
  obtain ⟨nextDelay, hsleeps⟩ := finished_sleeps r
  refine ⟨nextDelay, ?_⟩
  rw [State.resume, hr]
  exact hsleeps

theorem resume_counts (action : RunPipeline.Action U) (pipeline : RunPipeline.State U) :
    (s.resume action pipeline).instances = s.instances ∧
      ((s.resume action pipeline).requested = s.requested ∨
        s.requested = none ∧ (s.resume action pipeline).requested = some s.instances) := by
  have hcases : s.requested = none ∨ ∃ n, s.requested = some n := by
    cases s.requested with
    | none => exact .inl rfl
    | some n => exact .inr ⟨n, rfl⟩
  unfold State.resume
  by_cases ha : action.receives
  · obtain hnone | ⟨n, hn⟩ := hcases
    · cases pipeline.returned <;> simp [ha, hnone]
    · cases pipeline.returned <;> simp [ha, hn]
  · cases pipeline.returned <;> simp [ha]

/-- Only the end of a sleep makes a new instance. -/
theorem step_counts {action : Action U} (h : step capacity s action = some t) :
    (action = .wake ∧ t.instances = s.instances + 1 ∧ t.requested = s.requested) ∨
    (action ≠ .wake ∧ t.instances = s.instances ∧
      (t.requested = s.requested ∨ s.requested = none ∧ t.requested = some s.instances)) := by
  cases action with
  | created =>
    simp only [step] at h
    split at h <;> cases h
    exact .inr ⟨nofun, rfl, .inl rfl⟩
  | createFailed e =>
    simp only [step] at h
    split at h <;> cases h
    exact .inr ⟨nofun, rfl, .inl rfl⟩
  | pipeline action =>
    simp only [step] at h
    split at h
    · obtain ⟨pipeline, -, rfl⟩ := Option.map_eq_some_iff.mp h
      exact .inr ⟨nofun, resume_counts action pipeline⟩
    · cases h
  | wake =>
    simp only [step] at h
    split at h <;> cases h
    exact .inl ⟨rfl, rfl, rfl⟩

end Steps

/-! ## Shutdown -/

/-- No instance has been made since the first shutdown request. -/
def Final (s : State U) : Prop := ∀ n ∈ s.requested, s.instances = n

/-- The sleep does not end once a shutdown was requested. -/
def Killed (s : State U) (action : Action U) : Prop := s.requested.isSome → action ≠ .wake

theorem final_iff_killed {capacity : Nat} {s t : State U} {action : Action U} (hs : Final s)
    (h : step capacity s action = some t) : Final t ↔ Killed s action := by
  obtain ⟨rfl, hinstances, hrequested⟩ | ⟨hwake, hinstances, hrequested⟩ := step_counts h
  · constructor
    · intro ht hsome
      obtain ⟨n, hn⟩ := Option.isSome_iff_exists.mp hsome
      have hbefore := hs n hn
      have hafter := ht n (hrequested ▸ hn)
      omega
    · intro hkilled n hn
      rw [hrequested] at hn
      exact absurd rfl (hkilled (Option.isSome_iff_exists.mpr ⟨n, hn⟩))
  · constructor
    · intro _ _
      exact hwake
    · intro _ n hn
      rw [hinstances]
      obtain hsame | ⟨-, hnew⟩ := hrequested
      · exact hs n (hsame ▸ hn)
      · exact Option.some.inj (hnew ▸ hn)

/-- The loop has not dropped the pipeline it is running. -/
def Live (s : State U) : Prop := ∀ pipeline, s.phase = .running pipeline → pipeline.returned = none

theorem finished_live {s : State U} (r : Except CarbonError Unit) : Live (s.finished r) := by
  intro pipeline hpipeline
  obtain ⟨nextDelay, hsleeps⟩ := finished_sleeps (s := s) r
  rw [hsleeps] at hpipeline
  exact nomatch hpipeline

theorem step_live {capacity : Nat} {s t : State U} {action : Action U}
    (h : step capacity s action = some t) : Live t := by
  cases action with
  | created =>
    simp only [step] at h
    split at h <;> cases h
    intro pipeline hpipeline
    cases hpipeline
    rfl
  | createFailed e =>
    simp only [step] at h
    split at h <;> cases h
    exact finished_live _
  | pipeline action =>
    simp only [step] at h
    split at h
    · obtain ⟨next, -, rfl⟩ := Option.map_eq_some_iff.mp h
      unfold State.resume
      cases hreturned : next.returned with
      | none =>
        intro pipeline hpipeline
        simp only [Phase.running.injEq] at hpipeline
        exact hpipeline ▸ hreturned
      | some r => exact finished_live r
    · cases h
  | wake =>
    simp only [step] at h
    split at h <;> cases h
    intro pipeline hpipeline
    exact nomatch hpipeline

theorem pipeline_step {capacity : Nat} {s : State U} {action : RunPipeline.Action U}
    {pipeline next : RunPipeline.State U} (hphase : s.phase = .running pipeline)
    (h : RunPipeline.step capacity .processPending pipeline action = some next) :
    step capacity s (.pipeline action) = some (s.resume action next) := by
  rw [step, hphase]
  simp only [h, Option.map_some]

theorem run_live {capacity : Nat} {s t : State U} {actions : List (Action U)} (hs : Live s)
    (h : run (step capacity) s actions = some t) : Live t := by
  induction actions generalizing s with
  | nil => exact Option.some.inj h ▸ hs
  | cons action actions ih =>
    obtain ⟨u, hu, h⟩ := run_cons_eq_some.mp h
    exact ih (step_live hu) h

/-- Whatever the loop is doing, it can get to its next sleep. -/
theorem exists_sleep (capacity : Nat) {s : State U} (hs : Live s) :
    ∃ actions t nextDelay, run (step capacity) s actions = some t ∧
      t.phase = .sleeping nextDelay := by
  cases hphase : s.phase with
  | starting =>
    obtain ⟨nextDelay, hsleeps⟩ := finished_sleeps (s := s) (.error .missingFeePayer)
    refine ⟨[.createFailed .missingFeePayer], _, nextDelay, ?_, hsleeps⟩
    rw [run_cons, step, hphase]
    rfl
  | sleeping nextDelay => exact ⟨[], s, nextDelay, rfl, hphase⟩
  | running pipeline =>
    obtain ⟨signalled, hsignal⟩ := RunPipeline.signal_enabled .sigterm (hs pipeline hphase)
    obtain ⟨-, -, -, hreturned⟩ := RunPipeline.signal_step hsignal
    have hfirst := pipeline_step hphase hsignal
    have hphase' := resume_running (s := s) (.signal .sigterm) hreturned
    have hsecond := pipeline_step hphase' (RunPipeline.shutdownSignal_step hsignal)
    have hleft : (signalled.leave (.ok ())).returned.isSome := rfl
    obtain ⟨nextDelay, hsleeps⟩ := resume_sleeps (.shutdownSignal (U := U)) hleft
    refine ⟨[.pipeline (.signal .sigterm), .pipeline .shutdownSignal], _, nextDelay, ?_, hsleeps⟩
    rw [run_cons, hfirst, Option.bind_some, run_cons, hsecond]
    rfl

theorem wake_step (capacity : Nat) {s : State U} {nextDelay : Nat}
    (h : s.phase = .sleeping nextDelay) :
    step capacity s .wake = some
      { s with phase := .starting, retryDelay := nextDelay, instances := s.instances + 1 } := by
  rw [step, h]

theorem run_instances_le {capacity : Nat} {s t : State U} {actions : List (Action U)}
    (h : run (step capacity) s actions = some t) : s.instances ≤ t.instances := by
  induction actions generalizing s with
  | nil => exact Option.some.inj h ▸ Nat.le_refl _
  | cons action actions ih =>
    obtain ⟨u, hu, h⟩ := run_cons_eq_some.mp h
    have hrest := ih h
    obtain ⟨-, hinstances, -⟩ | ⟨-, hinstances, -⟩ := step_counts hu <;> omega

/-- No instance is made after a shutdown request exactly as long as no sleep ends
after it, and the loop always has a way to the end of its next sleep. -/
theorem shutdown_final_iff {capacity : Nat} {actions : List (Action U)} {t : State U}
    (hrun : run (step capacity) start actions = some t) :
    (Always (step capacity) Final start actions ↔ Along (step capacity) Killed start actions) ∧
    ∃ more u, run (step capacity) t more = some u ∧ t.instances < u.instances := by
  constructor
  · refine always_iff_along (I := fun _ => True) (fun _ _ _ _ _ => trivial) ?_ trivial ?_ hrun
    · intro s action t _ hs h
      exact final_iff_killed hs h
    · intro n hn
      exact nomatch hn
  · have hstart : Live (start : State U) := fun pipeline hpipeline => nomatch hpipeline
    have hlive : Live t := run_live hstart hrun
    obtain ⟨more, u, nextDelay, hmore, hsleeps⟩ := exists_sleep capacity hlive
    have hwake := wake_step capacity hsleeps
    refine ⟨more ++ [.wake], _, run_concat_eq_some.mpr ⟨u, hmore, hwake⟩, ?_⟩
    exact Nat.lt_succ_of_le (run_instances_le hmore)

/-- SIGINT while the pipeline runs, and the sleep after it. -/
def restarted : List (Action Nat) :=
  [.created, .pipeline (.signal .sigint), .pipeline .ctrlC, .wake]

theorem shutdown_final_iff_restarted :
    ∃ t, run (step 1000) start restarted = some t ∧
      ((Always (step 1000) Final start restarted ↔ Along (step 1000) Killed start restarted) ∧
      ∃ more u, run (step 1000) t more = some u ∧ t.instances < u.instances) :=
  ⟨_, rfl, shutdown_final_iff rfl⟩

/-- The loop starts a second instance after it was told to stop. -/
theorem instance_after_shutdown :
    ¬ ∀ (actions : List (Action Nat)) (t : State Nat),
      run (step 1000) start actions = some t → Final t := by
  intro hall
  have hfinal := hall restarted _ rfl 1 rfl
  exact absurd hfinal (by decide)

end DaemonLoop

end OmnipairIndexer
