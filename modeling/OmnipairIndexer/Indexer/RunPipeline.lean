/-
Running a pipeline until it ends or a signal arrives.

Two selects are nested.  `Pipeline::run` waits for an update, for `ctrl_c` and for
the cancellation of its datasources, which it brings about itself, and
`run_pipeline` waits for `Pipeline::run`, for `ctrl_c` and for `shutdown_signal`.
A select may take any branch that is ready and drops the others, so a step is a
branch that is taken, and a run is one interleaving with the datasources.  A
branch that ends `Pipeline::run` ends `run_pipeline` with it.

`drains_iff` says what a shutdown guarantees for the updates in the channel: they
are processed unless one of four branches is taken first, and two of these are
open from the moment the signal arrives.
-/
import OmnipairIndexer.Library.Transition
import OmnipairIndexer.Core.Pipeline

namespace OmnipairIndexer

open Transition

inductive ShutdownStrategy where
  | immediate
  | processPending
  deriving DecidableEq

inductive Signal where
  | sigint
  | sigterm
  deriving DecidableEq

namespace RunPipeline

variable {U : Type}

structure State (U : Type) where
  channel : List U
  sendersOpen : Bool
  cancelled : Bool
  /-- The update that `Pipeline::run` is processing. -/
  current : Option U
  /-- The `ctrl_c` of the select that `Pipeline::run` waits in has fired. -/
  interrupted : Bool
  /-- The signals since `run_pipeline` listens. -/
  signals : List Signal
  processed : List U
  /-- What `run_pipeline` returned. -/
  returned : Option (Except CarbonError Unit)

def start : State U := ⟨[], true, false, none, false, [], [], none⟩

inductive Action (U : Type) where
  -- from outside
  | send (update : U)
  | close
  | signal (sig : Signal)
  -- `Pipeline::run`
  | tick
  | receive
  | complete
  | closed
  | interrupt
  | datasourceCancelled
  | metricsFailed (e : CarbonError)
  -- the other branches of `run_pipeline`
  | ctrlC
  | shutdownSignal

/-- The branches that end `run_pipeline` without a look at the channel. -/
def Action.abandons : Action U → Bool
  | datasourceCancelled | metricsFailed _ | ctrlC | shutdownSignal => true
  | _ => false

def Action.sent : Action U → List U
  | send update => [update]
  | _ => []

namespace State

/-- The updates in the channel or being processed. -/
def pending (s : State U) : List U := s.current.toList ++ s.channel

/-- `Pipeline::run` waits in its select. -/
def selecting (s : State U) : Bool := s.current.isNone

def leave (s : State U) (result : Except CarbonError Unit) : State U :=
  { s with returned := some result }

/-- What was pending in `s` has been processed. -/
def Drained (s t : State U) : Prop := s.processed ++ s.pending <+: t.processed

end State

/-- One step before `run_pipeline` has returned. -/
def advance (capacity : Nat) (strategy : ShutdownStrategy) (s : State U) :
    Action U → Option (State U)
  | .send update =>
    if s.sendersOpen ∧ s.channel.length < capacity then
      some { s with channel := s.channel ++ [update] }
    else none
  | .close => some { s with sendersOpen := false }
  -- A select makes a new `ctrl_c`, which only sees the signals that arrive while it waits.
  | .signal sig =>
    some { s with
      signals := s.signals ++ [sig]
      interrupted := s.interrupted || (decide (sig = .sigint) && s.selecting) }
  | .tick => if s.selecting then some { s with interrupted := false } else none
  | .receive =>
    match s.current, s.channel with
    | none, update :: channel =>
      some { s with channel := channel, current := some update, interrupted := false }
    | _, _ => none
  -- An update whose processing fails is logged and counts as processed.
  | .complete =>
    match s.current with
    | some update => some { s with current := none, processed := s.processed ++ [update] }
    | none => none
  | .closed =>
    if s.selecting ∧ s.channel = [] ∧ ¬ s.sendersOpen then some (s.leave (.ok ())) else none
  | .interrupt =>
    if s.selecting ∧ s.interrupted then
      if strategy = .immediate then some ({ s with cancelled := true }.leave (.ok ()))
      else some { s with cancelled := true, interrupted := false }
    else none
  | .datasourceCancelled =>
    if s.selecting ∧ s.cancelled then some (s.leave (.ok ())) else none
  | .metricsFailed e => some (s.leave (.error e))
  | .ctrlC => if .sigint ∈ s.signals then some (s.leave (.ok ())) else none
  | .shutdownSignal => if s.signals ≠ [] then some (s.leave (.ok ())) else none

def step (capacity : Nat) (strategy : ShutdownStrategy) (s : State U) (action : Action U) :
    Option (State U) :=
  if s.returned.isNone then advance capacity strategy s action else none

/-! ## What a step can do -/

section Steps

variable {capacity : Nat} {strategy : ShutdownStrategy} {s t : State U} {action : Action U}

theorem step_eq_some :
    step capacity strategy s action = some t ↔
      s.returned = none ∧ advance capacity strategy s action = some t := by
  rw [step]
  by_cases h : s.returned.isNone
  · rw [if_pos h, and_iff_right (Option.isNone_iff_eq_none.mp h)]
  · rw [if_neg h]
    constructor
    · intro ht
      exact nomatch ht
    · intro ht
      exact absurd (Option.isNone_iff_eq_none.mpr ht.1) h

/-- A step that stays keeps the updates in their order and adds what is sent. -/
def Stays (s : State U) (action : Action U) (t : State U) : Prop :=
  t.returned = none ∧ action.abandons = false ∧ s.processed <+: t.processed ∧
    t.processed ++ t.pending = s.processed ++ s.pending ++ action.sent

/-- A step that leaves drops what is pending. -/
def Leaves (s : State U) (action : Action U) (t : State U) : Prop :=
  t.returned.isSome ∧ action.sent = [] ∧ t.processed = s.processed ∧ t.pending = s.pending ∧
    (action.abandons ∨ s.pending = [])

/-- Under `ProcessPending` a step that leaves takes one of the four abandoning
branches or finds nothing pending. -/
theorem step_cases (h : step capacity .processPending s action = some t) :
    Stays s action t ∨ Leaves s action t := by
  obtain ⟨hs, h⟩ := step_eq_some.mp h
  cases action <;> simp only [advance] at h
  case send update =>
    split at h <;> cases h
    exact .inl ⟨hs, rfl, List.prefix_rfl, by simp [State.pending, Action.sent]⟩
  case close =>
    cases h
    exact .inl ⟨hs, rfl, List.prefix_rfl, by simp [State.pending, Action.sent]⟩
  case signal sig =>
    cases h
    exact .inl ⟨hs, rfl, List.prefix_rfl, by simp [State.pending, Action.sent]⟩
  case tick =>
    split at h <;> cases h
    exact .inl ⟨hs, rfl, List.prefix_rfl, by simp [State.pending, Action.sent]⟩
  case receive =>
    split at h <;> cases h
    rename_i hcurrent hchannel
    exact .inl ⟨hs, rfl, List.prefix_rfl, by simp [State.pending, Action.sent, hcurrent, hchannel]⟩
  case complete =>
    split at h <;> cases h
    rename_i hcurrent
    exact .inl ⟨hs, rfl, List.prefix_append _ _, by simp [State.pending, Action.sent, hcurrent]⟩
  case closed =>
    split at h <;> cases h
    rename_i hclosed
    obtain ⟨hselecting, hchannel, -⟩ := hclosed
    have hpending : s.pending = [] := by
      rw [State.pending, hchannel, Option.isNone_iff_eq_none.mp hselecting]
      rfl
    exact .inr ⟨rfl, rfl, rfl, rfl, .inr hpending⟩
  case interrupt =>
    split at h
    · rw [if_neg (by decide)] at h
      cases h
      exact .inl ⟨hs, rfl, List.prefix_rfl, by simp [State.pending, Action.sent]⟩
    · cases h
  case metricsFailed e =>
    cases h
    exact .inr ⟨rfl, rfl, rfl, rfl, .inl rfl⟩
  all_goals
    split at h <;> cases h
    exact .inr ⟨rfl, rfl, rfl, rfl, .inl rfl⟩

theorem accounted (h : step capacity .processPending s action = some t) :
    t.processed ++ t.pending = s.processed ++ s.pending ++ action.sent := by
  obtain ⟨-, -, -, haccounted⟩ | ⟨-, hsent, hprocessed, hpending, -⟩ := step_cases h
  · exact haccounted
  · rw [hsent, hprocessed, hpending, List.append_nil]

theorem processed_prefix (h : step capacity .processPending s action = some t) :
    s.processed <+: t.processed := by
  obtain ⟨-, -, hprefix, -⟩ | ⟨-, -, hprocessed, -⟩ := step_cases h
  · exact hprefix
  · exact hprocessed ▸ List.prefix_rfl

theorem no_run_of_returned (h : s.returned.isSome) {actions : List (Action U)}
    (hrun : run (step capacity strategy) s actions = some t) : actions = [] := by
  cases actions with
  | nil => rfl
  | cons action actions =>
    obtain ⟨u, hu, -⟩ := run_cons_eq_some.mp hrun
    rw [(step_eq_some.mp hu).1] at h
    exact nomatch h

end Steps

/-! ## A shutdown -/

section Shutdown

variable {capacity : Nat} {s t : State U} {sig : Signal} {after : List (Action U)}

theorem run_processed_prefix (hrun : run (step capacity .processPending) s after = some t) :
    s.processed <+: t.processed := by
  induction after generalizing s with
  | nil => exact Option.some.inj hrun ▸ List.prefix_rfl
  | cons action after ih =>
    obtain ⟨u, hu, hrun⟩ := run_cons_eq_some.mp hrun
    have hstep : s.processed <+: u.processed := processed_prefix hu
    exact hstep.trans (ih hrun)

/-- What was pending in `s` is pending or processed in `t`, and processed once the
pipeline has returned. -/
structure Owed (s t : State U) : Prop where
  kept : s.processed ++ s.pending <+: t.processed ++ t.pending
  drained : t.returned.isSome → s.Drained t

theorem Owed.step {u v : State U} {action : Action U} (h : Owed s u)
    (hv : step capacity .processPending u action = some v)
    (ha : action.abandons → s.Drained u) : Owed s v where
  kept := by
    rw [accounted hv]
    exact h.kept.trans (List.prefix_append _ _)
  drained := by
    intro hreturned
    obtain ⟨hnone, -⟩ | ⟨-, -, hprocessed, -, habandons | hpending⟩ := step_cases hv
    · rw [hnone] at hreturned
      exact nomatch hreturned
    · rw [State.Drained, hprocessed]
      exact ha habandons
    · have hkept := h.kept
      rw [hpending, List.append_nil] at hkept
      rw [State.Drained, hprocessed]
      exact hkept

/-- A run that returns has drained what was pending in `s` exactly when it takes no
abandoning branch before that. -/
theorem drained_iff_along {u : State U} (hu : Owed s u)
    (hrun : run (step capacity .processPending) u after = some t) (ht : t.returned.isSome) :
    s.Drained t ↔
      Along (step capacity .processPending) (fun u action => action.abandons → s.Drained u)
        u after := by
  constructor
  · intro hdrained
    clear hu
    induction after generalizing u with
    | nil => exact trivial
    | cons action after ih =>
      obtain ⟨v, hv, hrun⟩ := run_cons_eq_some.mp hrun
      refine (along_cons hv).mpr ⟨fun habandons => ?_, ih hrun⟩
      -- An abandoning branch is the last one of the run.
      obtain ⟨-, hfalse, -⟩ | ⟨hreturned, -, hprocessed, -⟩ := step_cases hv
      · rw [hfalse] at habandons
        exact nomatch habandons
      · obtain rfl := no_run_of_returned hreturned hrun
        obtain rfl := Option.some.inj hrun
        rw [State.Drained, ← hprocessed]
        exact hdrained
  · intro halong
    exact (run_invariant (I := Owed s) (fun u action v hu ha hv => hu.step hv ha) hu halong
      hrun).drained ht

theorem signal_step (h : step capacity .processPending s (.signal sig) = some t) :
    t.processed = s.processed ∧ t.pending = s.pending ∧ sig ∈ t.signals ∧ t.returned = none := by
  obtain ⟨hs, h⟩ := step_eq_some.mp h
  cases h
  exact ⟨rfl, rfl, by simp, hs⟩

theorem signal_enabled (sig : Signal) (hs : s.returned = none) :
    ∃ t, step capacity .processPending s (.signal sig) = some t :=
  ⟨_, step_eq_some.mpr ⟨hs, rfl⟩⟩

/-- The outer select is free to take `shutdown_signal` at once. -/
theorem shutdownSignal_step (h : step capacity .processPending s (.signal sig) = some t) :
    step capacity .processPending t .shutdownSignal = some (t.leave (.ok ())) := by
  obtain ⟨-, -, hsig, hreturned⟩ := signal_step h
  exact step_eq_some.mpr ⟨hreturned, if_pos (List.ne_nil_of_mem hsig)⟩

/-- After a signal a run processes everything that was pending exactly when it
takes none of the four abandoning branches before that, and every run does so only
if nothing was pending. -/
theorem drains_iff (hs : step capacity .processPending s (.signal sig) = some t) :
    (∀ after u, run (step capacity .processPending) t after = some u → u.returned.isSome →
      (s.Drained u ↔
        Along (step capacity .processPending) (fun v action => action.abandons → s.Drained v)
          t after)) ∧
    ((∀ after u, run (step capacity .processPending) t after = some u → u.returned.isSome →
      s.Drained u) ↔ s.pending = []) := by
  obtain ⟨hprocessed, hpending, -, hreturned⟩ := signal_step hs
  constructor
  · intro after u hrun hu
    refine drained_iff_along ⟨?_, ?_⟩ hrun hu
    · exact hprocessed ▸ hpending ▸ List.prefix_rfl
    · intro ht
      rw [hreturned] at ht
      exact nomatch ht
  · constructor
    · intro hall
      have hrun : run (step capacity .processPending) t [.shutdownSignal] =
          some (t.leave (.ok ())) := by
        rw [run_cons, shutdownSignal_step hs]
        rfl
      have hdrained : s.processed ++ s.pending <+: t.processed :=
        hall _ (t.leave (.ok ())) hrun rfl
      rw [hprocessed] at hdrained
      have hlength := hdrained.length_le
      rw [List.length_append] at hlength
      exact List.length_eq_zero_iff.mp (by omega)
    · intro hnone after u hrun _
      rw [State.Drained, hnone, List.append_nil, ← hprocessed]
      exact run_processed_prefix hrun

theorem drains_iff_queued :
    (∀ after u, run (step 1000 .processPending)
        { start with channel := [7], signals := [.sigterm] } after = some u →
      u.returned.isSome →
      (State.Drained { start with channel := [7] } u ↔
        Along (step 1000 .processPending)
          (fun v action => action.abandons → State.Drained { start with channel := [7] } v)
          { start with channel := [7], signals := [.sigterm] } after)) ∧
    ((∀ after u, run (step 1000 .processPending)
        { start with channel := [7], signals := [.sigterm] } after = some u →
      u.returned.isSome → State.Drained { start with channel := [7] } u) ↔
      State.pending { start with channel := [7] } = []) :=
  drains_iff (rfl : step 1000 .processPending { start with channel := [7] } (.signal .sigterm) =
    some { start with channel := [7], signals := [.sigterm] })

/-- SIGTERM arrives while an update waits, and `shutdown_signal` is the branch taken. -/
theorem queued_update_dropped :
    ¬ ∀ (before after : List (Action Nat)) (sig : Signal) (s u : State Nat),
      run (step 1000 .processPending) start before = some s →
      run (step 1000 .processPending) s (.signal sig :: after) = some u →
      u.returned.isSome → s.Drained u := by
  intro hall
  have hdrained := hall [.send 7] [.shutdownSignal] .sigterm _ _ rfl rfl rfl
  exact absurd hdrained.length_le (by decide)

end Shutdown

end RunPipeline

end OmnipairIndexer
