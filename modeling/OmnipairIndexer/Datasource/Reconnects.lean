/-
The reconnect loop of the realtime datasource.

The loop counts the attempts to connect that have failed since the last connection, and
gives up at thirty.  `connections_account` says that it does so on thirty failures in a row
and on nothing else, and that it leaves no connection behind without cancelling its token,
so that the tasks of at most one connection are not told to stop.
-/
import OmnipairIndexer.Datasource.NeverDeaf

namespace OmnipairIndexer

open Transition

namespace HeliusWebsocket

variable {s t : State} {action : Action}

/-! ## Failed attempts -/

/-- The attempts that have failed since the last one that has not. -/
def Action.failures (n : Nat) : Action → Nat
  | connectFailed _ => n + 1
  | connected => 0
  | _ => n

def failedInARow (actions : List Action) : Nat := actions.foldl Action.failures 0

def Filters.None (filters : Filters) : Prop := filters.accounts = [] ∧ filters.transactions = false

/-- Where the loop is after `n` failed attempts in a row. -/
def Counted (filters : Filters) (n : Nat) (s : State) : Prop :=
  match s.phase with
  | .loopTop | .connecting | .sleeping =>
    s.reconnectionAttempts = n ∧ n < maxReconnectionAttempts ∧ ¬ filters.None
  | .running => n = 0 ∧ ¬ filters.None
  | .returned (.ok _) => n < maxReconnectionAttempts ∧ ¬ filters.None
  | .returned (.error _) => n = maxReconnectionAttempts ∨ n = 0 ∧ filters.None

variable {filters : Filters} {n : Nat}

theorem counted_consume (filters : Filters) (accountDeletionsTracked : List Pubkey)
    (channel : Channel) : Counted filters 0 (consume filters accountDeletionsTracked channel) := by
  have hnone : (filters.accounts.isEmpty && !filters.transactions) = true ↔ filters.None := by
    rw [Bool.and_eq_true, List.isEmpty_iff, Bool.not_eq_true']
    rfl
  unfold Counted consume
  by_cases h : filters.None
  · simp only [if_pos (hnone.mpr h)]
    exact Or.inr ⟨trivial, h⟩
  · simp only [if_neg (mt hnone.mp h)]
    exact ⟨trivial, Nat.succ_pos 29, h⟩

theorem counted_of_eq (h : Counted filters n s) (hphase : t.phase = s.phase)
    (hattempts : t.reconnectionAttempts = s.reconnectionAttempts) : Counted filters n t := by
  unfold Counted
  rw [hphase, hattempts]
  exact h

theorem counted_select {branch : SelectBranch} (h : Counted filters n s)
    (hstep : step s (.select branch) = some t) : Counted filters n t := by
  simp only [step] at hstep
  split at hstep
  · rename_i it hphase _
    have hrunning : n = 0 ∧ ¬ filters.None := by simpa only [Counted, hphase] using h
    obtain ⟨rfl, hfilters⟩ := hrunning
    cases branch <;>
      simp only [selectStep, Option.ite_none_right_eq_some, Option.some.injEq] at hstep
    · obtain ⟨-, rfl⟩ := hstep
      exact ⟨Nat.succ_pos 29, hfilters⟩
    · obtain ⟨-, rfl⟩ := hstep
      exact ⟨rfl, Nat.succ_pos 29, hfilters⟩
    · obtain ⟨-, rfl⟩ := hstep
      exact ⟨rfl, Nat.succ_pos 29, hfilters⟩
  · cases hstep

theorem counted_step (h : Counted filters n s) (hstep : step s action = some t) :
    Counted filters (action.failures n) t := by
  cases action with
  | select branch => exact counted_select h hstep
  | current act =>
    simp only [step, Option.bind_eq_bind, Option.bind_eq_some_iff] at hstep
    obtain ⟨_, -, _, -, heq⟩ := hstep
    cases heq
    exact counted_of_eq h rfl rfl
  | past idx act =>
    simp only [step, Option.bind_eq_bind, Option.bind_eq_some_iff] at hstep
    obtain ⟨_, -, _, -, heq⟩ := hstep
    cases heq
    exact counted_of_eq h rfl rfl
  | receive =>
    simp only [step] at hstep
    split at hstep <;> cases hstep
    exact counted_of_eq h rfl rfl
  | requestCancellation =>
    cases hstep
    exact counted_of_eq h rfl rfl
  | closeChannel =>
    cases hstep
    exact counted_of_eq h rfl rfl
  | checkCancellation =>
    simp only [step] at hstep
    split at hstep <;> cases hstep
    rename_i hphase
    have hloop : s.reconnectionAttempts = n ∧ n < maxReconnectionAttempts ∧ ¬ filters.None := by
      simpa only [Counted, hphase] using h
    cases hmain : s.mainCancelled with
    | true => simpa only [Counted, hmain, if_true, Action.failures] using hloop.2
    | false =>
      simpa only [Counted, hmain, Bool.false_eq_true, if_false, Action.failures] using hloop
  | connectFailed error =>
    simp only [step] at hstep
    split at hstep <;> cases hstep
    rename_i hphase
    have hloop : s.reconnectionAttempts = n ∧ n < maxReconnectionAttempts ∧ ¬ filters.None := by
      simpa only [Counted, hphase] using h
    obtain ⟨rfl, hlt, hfilters⟩ := hloop
    by_cases hgive : maxReconnectionAttempts ≤ s.reconnectionAttempts + 1
    · simp only [Counted, if_pos hgive, Action.failures]
      exact Or.inl (by omega)
    · simp only [Counted, if_neg hgive, Action.failures]
      exact ⟨trivial, by omega, hfilters⟩
  | connected =>
    simp only [step] at hstep
    split at hstep <;> cases hstep
    rename_i hphase
    have hloop : s.reconnectionAttempts = n ∧ n < maxReconnectionAttempts ∧ ¬ filters.None := by
      simpa only [Counted, hphase] using h
    exact ⟨rfl, hloop.2.2⟩
  | wake =>
    simp only [step] at hstep
    split at hstep <;> cases hstep
    rename_i hphase
    simpa only [Counted, hphase, Action.failures] using h

theorem counted_run {actions : List Action} (h : Counted filters n s)
    (hrun : run step s actions = some t) :
    Counted filters (actions.foldl Action.failures n) t := by
  induction actions generalizing n s with
  | nil =>
    cases hrun
    exact h
  | cons action actions ih =>
    obtain ⟨u, hu, hrun⟩ := run_cons_eq_some.mp hrun
    exact ih (counted_step h hu) hrun

/-- Short of an error there is something to subscribe to, and the attempts are not used up. -/
theorem Counted.of_not_error (h : Counted filters n s)
    (hphase : ∀ e, s.phase ≠ .returned (.error e)) :
    n < maxReconnectionAttempts ∧ ¬ filters.None := by
  unfold Counted at h
  split at h
  · exact h.2
  · exact h.2
  · exact h.2
  · exact ⟨h.1 ▸ Nat.succ_pos 29, h.2⟩
  · exact h
  · rename_i e herror
    exact absurd herror (hphase e)

theorem Counted.of_error (h : Counted filters n s) {e : CarbonError}
    (hphase : s.phase = .returned (.error e)) :
    n = maxReconnectionAttempts ∨ n = 0 ∧ filters.None := by
  simpa only [Counted, hphase] using h

theorem Counted.returned_iff (h : Counted filters n s) :
    (∃ e, s.phase = .returned (.error e)) ↔ filters.None ∨ n = maxReconnectionAttempts := by
  constructor
  · intro ⟨e, hphase⟩
    exact (h.of_error hphase).symm.imp_left And.right
  · intro hcause
    by_contra hnot
    obtain ⟨hlt, hfilters⟩ := h.of_not_error fun e hphase => hnot ⟨e, hphase⟩
    rcases hcause with hnone | hn
    · exact hfilters hnone
    · omega

theorem Counted.le (h : Counted filters n s) : n ≤ maxReconnectionAttempts := by
  by_cases herror : ∃ e, s.phase = .returned (.error e)
  · obtain ⟨e, hphase⟩ := herror
    rcases h.of_error hphase with hn | ⟨hn, -⟩
    · exact Nat.le_of_eq hn
    · exact hn ▸ Nat.zero_le _
  · exact Nat.le_of_lt (h.of_not_error fun e hphase => herror ⟨e, hphase⟩).1

/-! ## Tokens -/

/-- The tasks of every connection but a running one are told to stop. -/
structure ToldToStop (s : State) : Prop where
  supervised : Supervised s
  past : ∀ it ∈ s.past, it.cancelled = true
  current : s.phase ≠ .running → ∀ it ∈ s.current, it.cancelled = true

theorem Iteration.cancelled_of_step {accountDeletionsTracked : List Pubkey} {mainCancelled : Bool}
    {channel channel' : Channel} {it it' : Iteration} {act : IterationAction}
    (h : it.step accountDeletionsTracked mainCancelled channel act = some (it', channel'))
    (hcancelled : it.cancelled = true) : it'.cancelled = true := by
  obtain ⟨_, _, _, -, -, rfl⟩ | ⟨_, _, _, -, rfl⟩ | ⟨_, _, _, -, -, -, rfl⟩ | ⟨-, rfl⟩ | ⟨-, rfl⟩ :=
    step_cases h
  · show (it.cancelled || _) = true
    rw [hcancelled, Bool.true_or]
  · exact hcancelled
  · exact hcancelled
  · exact hcancelled
  · rfl

theorem ToldToStop.of_eq (h : ToldToStop s) (hstep : step s action = some t)
    (hpast : t.past = s.past) (hcurrent : t.current = s.current)
    (hphase : t.phase ≠ .running → s.phase ≠ .running) : ToldToStop t where
  supervised := h.supervised.step hstep
  past := hpast ▸ h.past
  current hrunning := hcurrent ▸ h.current (hphase hrunning)

theorem ToldToStop.select {branch : SelectBranch} (h : ToldToStop s)
    (hstep : step s (.select branch) = some t) : ToldToStop t := by
  have hsupervised := h.supervised.step hstep
  simp only [step] at hstep
  split at hstep
  · rename_i it hphase hcurrent
    cases branch <;>
      simp only [selectStep, Option.ite_none_right_eq_some, Option.some.injEq] at hstep
    · obtain ⟨-, rfl⟩ := hstep
      refine ⟨hsupervised, h.past, fun _ it' hit' => ?_⟩
      cases hit'
      rfl
    · obtain ⟨hcancelled, rfl⟩ := hstep
      refine ⟨hsupervised, h.past, fun _ it' hit' => ?_⟩
      obtain rfl : it = it' := Option.some.inj (hcurrent.symm.trans hit')
      exact hcancelled
    · obtain ⟨hfinished, rfl⟩ := hstep
      refine ⟨hsupervised, h.past, fun _ it' hit' => ?_⟩
      obtain rfl : it = it' := Option.some.inj (hcurrent.symm.trans hit')
      exact (h.supervised it hcurrent).finished hfinished
  · cases hstep

theorem ToldToStop.step (h : ToldToStop s) (hstep : step s action = some t) : ToldToStop t := by
  have hsupervised := h.supervised.step hstep
  have hstep' := hstep
  cases action with
  | select branch => exact h.select hstep
  | current act =>
    simp only [HeliusWebsocket.step, Option.bind_eq_bind, Option.bind_eq_some_iff] at hstep
    obtain ⟨it, hcurrent, _, hit, heq⟩ := hstep
    cases heq
    refine ⟨hsupervised, h.past, fun hphase it' hit' => ?_⟩
    cases hit'
    exact Iteration.cancelled_of_step hit (h.current hphase it hcurrent)
  | past idx act =>
    simp only [HeliusWebsocket.step, Option.bind_eq_bind, Option.bind_eq_some_iff] at hstep
    obtain ⟨it, hpast, _, hit, heq⟩ := hstep
    cases heq
    refine ⟨hsupervised, fun it' hit' => ?_, h.current⟩
    obtain hold | rfl := List.mem_or_eq_of_mem_set hit'
    · exact h.past it' hold
    · exact Iteration.cancelled_of_step hit (h.past it (List.mem_of_getElem? hpast))
  | connected =>
    simp only [HeliusWebsocket.step] at hstep
    split at hstep <;> cases hstep
    rename_i hphase
    refine ⟨hsupervised, fun it hit => ?_, fun hrunning => absurd rfl hrunning⟩
    obtain hold | hlast := List.mem_append.mp hit
    · exact h.past it hold
    · exact h.current (by simp [hphase]) it (Option.mem_toList.mp hlast)
  | receive =>
    simp only [HeliusWebsocket.step] at hstep
    split at hstep <;> cases hstep
    exact h.of_eq hstep' rfl rfl id
  | requestCancellation =>
    cases hstep
    exact h.of_eq hstep' rfl rfl id
  | closeChannel =>
    cases hstep
    exact h.of_eq hstep' rfl rfl id
  | checkCancellation =>
    simp only [HeliusWebsocket.step] at hstep
    split at hstep <;> cases hstep
    rename_i hphase
    exact h.of_eq hstep' rfl rfl fun _ => by simp [hphase]
  | connectFailed error =>
    simp only [HeliusWebsocket.step] at hstep
    split at hstep <;> cases hstep
    rename_i hphase
    exact h.of_eq hstep' rfl rfl fun _ => by simp [hphase]
  | wake =>
    simp only [HeliusWebsocket.step] at hstep
    split at hstep <;> cases hstep
    rename_i hphase
    exact h.of_eq hstep' rfl rfl fun _ => by simp [hphase]

/-- For every run of `consume`: it has returned an error exactly when there is nothing to
subscribe to or thirty attempts in a row have failed, and never are there more.  The token
of every connection is cancelled, but for the one that is running. -/
theorem connections_account (filters : Filters) (accountDeletionsTracked : List Pubkey)
    (channel : Channel) (actions : List Action) (s : State)
    (hrun : run step (consume filters accountDeletionsTracked channel) actions = some s) :
    ((∃ e, s.phase = .returned (.error e)) ↔
        filters.None ∨ failedInARow actions = maxReconnectionAttempts) ∧
      failedInARow actions ≤ maxReconnectionAttempts ∧
      (∀ it ∈ s.past, it.cancelled = true) ∧
      (s.phase ≠ .running → ∀ it ∈ s.current, it.cancelled = true) := by
  have hstart : ToldToStop (consume filters accountDeletionsTracked channel) :=
    ⟨nofun, nofun, fun _ => nofun⟩
  have htold : ToldToStop s := run_preserves (fun _ _ _ h hstep => h.step hstep) hstart hrun
  have hcounted : Counted filters (failedInARow actions) s :=
    counted_run (counted_consume filters accountDeletionsTracked channel) hrun
  exact ⟨hcounted.returned_iff, hcounted.le, htold.past, htold.current⟩

/-- Attempts to connect that fail, one after the other. -/
def refusals (n : Nat) : List Action :=
  (List.replicate n [.checkCancellation, .connectFailed (.client "refused"), .wake]).flatten

theorem connections_account_refusals :
    ∃ s, run step (consume ⟨[], true⟩ [] ⟨[], 1, false⟩)
        (refusals 29 ++ [.checkCancellation, .connectFailed (.client "refused")]) = some s ∧
      ∃ e, s.phase = .returned (.error e) := by
  have hrun : (run step (consume ⟨[], true⟩ [] ⟨[], 1, false⟩)
      (refusals 29 ++ [.checkCancellation, .connectFailed (.client "refused")])).isSome := by
    decide +kernel
  obtain ⟨s, hs⟩ := Option.isSome_iff_exists.mp hrun
  refine ⟨s, hs, (connections_account ⟨[], true⟩ [] ⟨[], 1, false⟩ _ s hs).1.mpr (Or.inr ?_)⟩
  decide +kernel

end HeliusWebsocket

end OmnipairIndexer
