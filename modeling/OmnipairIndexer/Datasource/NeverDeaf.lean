/-
Whether the realtime feed can go deaf.

The clock task cancels the token of its iteration on every way out, so a broken
clock subscription leads to a reconnect.  The transaction task cancels nothing:
when it ends by itself the supervisor is still waiting for the clock task, and
the iteration stays up without a feed.  `never_deaf_iff` says that this is the
only way to go deaf.
-/
import OmnipairIndexer.Datasource.HeliusWebsocket

namespace OmnipairIndexer

open Transition

namespace HeliusWebsocket

/-! ## One task -/

def SubscriptionEvent.endsTask {ε : Type} (toUpdate : ε → Option Update) (channel : Channel) :
    SubscriptionEvent ε → Bool
  | wsMissing => true
  | subscribeFailed => true
  | frame event => (toUpdate event).isSome && !channel.hasRoom
  | streamClosed => true
  | subscribed => false
  | cancelled => false

namespace SubscriptionTask

variable {ε : Type} {toUpdate : ε → Option Update} {cancelled : Bool} {channel channel' : Channel}
  {task task' : SubscriptionTask} {event : SubscriptionEvent ε}

/-- A step starts from a task that has not ended.  It ends the task on an event of
`endsTask`, or because a cancellation was seen. -/
theorem step_spec (h : task.step toUpdate cancelled channel event = some (task', channel')) :
    task ≠ ended ∧
      (task' = ended ↔ event.endsTask toUpdate channel = true ∨ event = .cancelled) ∧
      (event = .cancelled → cancelled = true) := by
  cases task with
  | starting =>
    cases event <;> simp_all [step, SubscriptionEvent.endsTask] <;> simp [← h.1]
  | streaming =>
    cases event with
    | frame event =>
      simp only [step, Channel.trySend] at h
      cases hupdate : toUpdate event with
      | none =>
        simp only [hupdate, Option.some.injEq, Prod.mk.injEq] at h
        simp [← h.1, SubscriptionEvent.endsTask, hupdate]
      | some update =>
        cases hroom : channel.hasRoom <;>
          simp only [hupdate, hroom, if_true, if_false, Bool.false_eq_true, Option.some.injEq,
            Prod.mk.injEq] at h <;>
          simp [← h.1, SubscriptionEvent.endsTask, hupdate, hroom]
    | cancelled =>
      simp only [step] at h
      split at h <;> cases h
      simp_all [SubscriptionEvent.endsTask]
    | streamClosed =>
      cases h
      simp [SubscriptionEvent.endsTask]
    | _ => simp [step] at h
  | ended => cases event <;> simp [step] at h

end SubscriptionTask

theorem ClockTask.cancels_of_ended {cancelled cancels : Bool} {task : ClockTask}
    {event : ClockEvent} (h : task.step cancelled event = some (.ended, cancels)) :
    cancels = true ∨ cancelled = true := by
  cases task with
  | starting => cases event <;> simp_all [step]
  | streaming lastSlot =>
    cases event with
    | cancelled =>
      simp only [step] at h
      split at h
      · exact Or.inr ‹_›
      · cases h
    | slept elapsedMillis =>
      simp only [step] at h
      split at h <;> simp_all
    | clock slot =>
      cases slot with
      | none => simp [step] at h
      | some currentSlot =>
        simp only [step] at h
        split at h <;> simp_all
    | _ => simp_all [step]
  | ended => cases event <;> simp [step] at h

/-! ## One iteration -/

def IterationAction.endsFeed (channel : Channel) : IterationAction → Bool
  | transaction event => event.endsTask TransactionNotification.toUpdate channel
  | _ => false

namespace Iteration

/-- Holds of every iteration that `consume` is in: a finished supervisor and an
ended clock task have left a cancellation behind. -/
structure Supervised (mainCancelled : Bool) (it : Iteration) : Prop where
  finished : it.finished = true → it.cancelled = true
  clock : it.clock = .ended → mainCancelled = true ∨ it.cancelled = true

def Noticed (mainCancelled : Bool) (it : Iteration) : Prop :=
  it.transaction = some .ended → mainCancelled = false → it.cancelled = true ∨ it.finished = true

variable {accountDeletionsTracked : List Pubkey} {mainCancelled : Bool}
  {channel channel' : Channel} {it it' : Iteration} {action : IterationAction}

theorem supervised_spawn (filters : Filters) : (spawn filters).Supervised mainCancelled where
  finished h := by cases h
  clock h := by cases h

theorem noticed_spawn (filters : Filters) : (spawn filters).Noticed mainCancelled := by
  intro h
  simp only [spawn] at h
  split at h <;> cases h

theorem step_cases
    (h : it.step accountDeletionsTracked mainCancelled channel action = some (it', channel')) :
    (∃ event clock cancels, action = .clock event ∧
      it.clock.step (mainCancelled || it.cancelled) event = some (clock, cancels) ∧
      it' = { it with clock := clock, cancelled := it.cancelled || cancels }) ∨
    (∃ idx event accounts, action = .account idx event ∧ it' = { it with accounts := accounts }) ∨
    (∃ event task task', action = .transaction event ∧ it.transaction = some task ∧
      transactionTask (mainCancelled || it.cancelled) channel task event = some (task', channel') ∧
      it' = { it with transaction := some task' }) ∨
    (action = .join ∧ it' = { it with joined := it.joined + 1 }) ∨
    (action = .finish ∧ it' = { it with cancelled := true, finished := true }) := by
  cases action with
  | clock event =>
    simp only [step, Option.bind_eq_bind, Option.bind_eq_some_iff] at h
    obtain ⟨⟨clock, cancels⟩, hstep, heq⟩ := h
    cases heq
    exact Or.inl ⟨event, clock, cancels, rfl, hstep, rfl⟩
  | account idx event =>
    simp only [step, Option.bind_eq_bind, Option.bind_eq_some_iff] at h
    obtain ⟨⟨account, task⟩, -, ⟨task', _⟩, -, heq⟩ := h
    cases heq
    exact Or.inr (Or.inl ⟨idx, event, _, rfl, rfl⟩)
  | transaction event =>
    simp only [step, Option.bind_eq_bind, Option.bind_eq_some_iff] at h
    obtain ⟨task, htask, ⟨task', _⟩, hstep, heq⟩ := h
    cases heq
    exact Or.inr (Or.inr (Or.inl ⟨event, task, task', rfl, htask, hstep, rfl⟩))
  | join =>
    simp only [step, Option.ite_none_right_eq_some, Option.some.injEq, Prod.mk.injEq] at h
    exact Or.inr (Or.inr (Or.inr (Or.inl ⟨rfl, h.2.1.symm⟩)))
  | finish =>
    simp only [step, Option.ite_none_right_eq_some, Option.some.injEq, Prod.mk.injEq] at h
    exact Or.inr (Or.inr (Or.inr (Or.inr ⟨rfl, h.2.1.symm⟩)))

theorem Supervised.step (hsup : it.Supervised mainCancelled)
    (h : it.step accountDeletionsTracked mainCancelled channel action = some (it', channel')) :
    it'.Supervised mainCancelled := by
  obtain ⟨event, clock, cancels, -, hstep, rfl⟩ | ⟨_, _, _, -, rfl⟩ | ⟨_, _, _, -, -, -, rfl⟩ |
    ⟨-, rfl⟩ | ⟨-, rfl⟩ := step_cases h
  · constructor
    · intro hfin
      simp [hsup.finished hfin]
    · intro hended
      dsimp only at hended
      subst hended
      have := ClockTask.cancels_of_ended hstep
      simp only [Bool.or_eq_true] at this ⊢
      tauto
  · exact ⟨hsup.finished, hsup.clock⟩
  · exact ⟨hsup.finished, hsup.clock⟩
  · exact ⟨hsup.finished, hsup.clock⟩
  · exact ⟨fun _ => rfl, fun _ => Or.inr rfl⟩

/-- A step leaves the end of the feed unnoticed exactly when it is the one that
ends the feed, with no cancellation under way. -/
theorem Noticed.step_iff (hsup : it.Supervised mainCancelled) (hnoticed : it.Noticed mainCancelled)
    (h : it.step accountDeletionsTracked mainCancelled channel action = some (it', channel')) :
    it'.Noticed mainCancelled ↔
      (mainCancelled = false → it.cancelled = false → action.endsFeed channel = false) := by
  obtain ⟨event, clock, cancels, rfl, -, rfl⟩ | ⟨_, _, _, rfl, rfl⟩ |
    ⟨event, task, task', rfl, htask, hstep, rfl⟩ | ⟨rfl, rfl⟩ | ⟨rfl, rfl⟩ := step_cases h
  · refine iff_of_true (fun hended hmain => ?_) fun _ _ => rfl
    rcases hnoticed hended hmain with hc | hf
    · simp [hc]
    · exact Or.inr hf
  · exact iff_of_true hnoticed fun _ _ => rfl
  · obtain ⟨-, hended, hcancelled⟩ := SubscriptionTask.step_spec hstep
    have hfinished := hsup.finished
    simp only [Noticed, Option.some.injEq, hended, IterationAction.endsFeed]
    cases hends : event.endsTask TransactionNotification.toUpdate channel with
    | false =>
      refine iff_of_true (fun hseen hmain => ?_) fun _ _ => rfl
      have := hcancelled (by simpa using hseen)
      simp only [hmain, Bool.false_or] at this
      exact Or.inl this
    | true =>
      -- The supervisor cannot have finished without cancelling the token.
      cases hmain : mainCancelled <;> cases hc : it.cancelled <;>
        cases hf : it.finished <;> simp_all
  · exact iff_of_true hnoticed fun _ _ => rfl
  · exact iff_of_true (fun _ _ => Or.inl rfl) fun _ _ => rfl

end Iteration

/-! ## The reconnect loop -/

/-- In a state where cancellation was not requested, if the transaction task of
the current iteration has ended then its token is cancelled or its supervisor has
finished. -/
def NeverDeaf (s : State) : Prop :=
  ∀ it, s.current = some it → it.Noticed s.mainCancelled

/-- The action does not end the transaction task of the current iteration while
its token and the main token are uncancelled. -/
def FeedKept (s : State) (action : Action) : Prop :=
  match action with
  | .current action => ∀ it, s.current = some it → s.mainCancelled = false →
      it.cancelled = false → action.endsFeed s.channel = false
  | _ => True

def Supervised (s : State) : Prop :=
  ∀ it, s.current = some it → it.Supervised s.mainCancelled

variable {s t : State} {action : Action}

theorem step_cases (h : step s action = some t) :
    (∃ it it' act, action = .current act ∧ s.current = some it ∧
      it.step s.accountDeletionsTracked s.mainCancelled s.channel act = some (it', t.channel) ∧
      t.current = some it' ∧ t.mainCancelled = s.mainCancelled) ∨
    ((∀ act, action ≠ .current act) ∧ (s.mainCancelled = true → t.mainCancelled = true) ∧
      (t.current = s.current ∨ t.current = some (Iteration.spawn s.filters) ∨
        ∃ it, s.current = some it ∧ t.current = some { it with cancelled := true })) := by
  cases action with
  | requestCancellation =>
    cases h
    exact Or.inr ⟨by simp, fun _ => rfl, Or.inl rfl⟩
  | checkCancellation =>
    simp only [step] at h
    split at h <;> cases h
    exact Or.inr ⟨by simp, id, Or.inl rfl⟩
  | connectFailed error =>
    simp only [step] at h
    split at h <;> cases h
    exact Or.inr ⟨by simp, id, Or.inl rfl⟩
  | connected =>
    simp only [step] at h
    split at h <;> cases h
    exact Or.inr ⟨by simp, id, Or.inr (Or.inl rfl)⟩
  | select branch =>
    simp only [step] at h
    split at h
    · rename_i it _ hcurrent
      refine Or.inr ⟨by simp, ?_⟩
      cases branch <;> simp only [selectStep, Option.ite_none_right_eq_some, Option.some.injEq] at h
      · exact h.2 ▸ ⟨id, Or.inr (Or.inr ⟨it, hcurrent, rfl⟩)⟩
      · exact h.2 ▸ ⟨id, Or.inl rfl⟩
      · exact h.2 ▸ ⟨id, Or.inl rfl⟩
    · cases h
  | wake =>
    simp only [step] at h
    split at h <;> cases h
    exact Or.inr ⟨by simp, id, Or.inl rfl⟩
  | current act =>
    simp only [step, Option.bind_eq_bind, Option.bind_eq_some_iff] at h
    obtain ⟨it, hcurrent, ⟨it', channel⟩, hstep, heq⟩ := h
    cases heq
    exact Or.inl ⟨it, it', act, rfl, hcurrent, hstep, rfl, rfl⟩
  | past idx act =>
    simp only [step, Option.bind_eq_bind, Option.bind_eq_some_iff] at h
    obtain ⟨it, -, ⟨it', channel⟩, -, heq⟩ := h
    cases heq
    exact Or.inr ⟨by simp, id, Or.inl rfl⟩
  | receive =>
    simp only [step] at h
    split at h <;> cases h
    exact Or.inr ⟨by simp, id, Or.inl rfl⟩
  | closeChannel =>
    cases h
    exact Or.inr ⟨by simp, id, Or.inl rfl⟩

theorem feedKept_of_not_current (h : ∀ act, action ≠ .current act) : FeedKept s action := by
  cases action with
  | current act => exact absurd rfl (h act)
  | _ => trivial

theorem Supervised.step (hsup : Supervised s) (h : step s action = some t) : Supervised t := by
  intro it' hit'
  obtain ⟨it, it₁, act, -, hcurrent, hstep, ht, hmain⟩ | ⟨-, hmain, ht | ht | ⟨it, hcurrent, ht⟩⟩ :=
    step_cases h
  · cases ht.symm.trans hit'
    exact hmain ▸ (hsup it hcurrent).step hstep
  · have := hsup it' (ht ▸ hit')
    exact ⟨this.finished, fun hended => (this.clock hended).imp_left hmain⟩
  · cases ht.symm.trans hit'
    exact Iteration.supervised_spawn _
  · cases ht.symm.trans hit'
    exact ⟨fun _ => rfl, fun _ => Or.inr rfl⟩

theorem NeverDeaf.step_iff (hsup : Supervised s) (hdeaf : NeverDeaf s)
    (h : step s action = some t) : NeverDeaf t ↔ FeedKept s action := by
  obtain ⟨it, it', act, rfl, hcurrent, hstep, ht, hmain⟩ | ⟨hother, hmain, ht⟩ := step_cases h
  · have hiff := (hdeaf it hcurrent).step_iff (hsup it hcurrent) hstep
    simp only [NeverDeaf, FeedKept, ht, hcurrent, hmain, Option.some.injEq, forall_eq', hiff]
  · refine iff_of_true (fun it' hit' hended hnot => ?_) (feedKept_of_not_current hother)
    have hnot' : s.mainCancelled = false := by
      cases hm : s.mainCancelled with
      | false => rfl
      | true => exact absurd (hmain hm) (by simp [hnot])
    obtain ht | ht | ⟨it, hcurrent, ht⟩ := ht
    · exact hdeaf it' (ht ▸ hit') hended hnot'
    · cases ht.symm.trans hit'
      exact Iteration.noticed_spawn _ hended hnot
    · cases ht.symm.trans hit'
      exact Or.inl rfl

/-- For every run of `consume`, whatever the tasks, the supervisor and the channel
do: no state of it is deaf exactly when the transaction task never ends by itself
in an iteration that is not being cancelled. -/
theorem never_deaf_iff (filters : Filters) (accountDeletionsTracked : List Pubkey)
    (channel : Channel) (actions : List Action) (s : State)
    (h : run step (consume filters accountDeletionsTracked channel) actions = some s) :
    Always step NeverDeaf (consume filters accountDeletionsTracked channel) actions ↔
      Along step FeedKept (consume filters accountDeletionsTracked channel) actions :=
  always_iff_along (fun _ _ _ => Supervised.step) (fun _ _ _ => NeverDeaf.step_iff)
    (fun _ h => nomatch h) (fun _ h => nomatch h) h

/-- The transaction filter of the indexer, and a channel of a thousand updates. -/
def connectAndWatch : State := consume ⟨[], true⟩ [] ⟨[], 1000, false⟩

/-- The clock streams, and the transaction subscription is refused. -/
def refusedFeed : List Action :=
  [.checkCancellation, .connected, .current (.clock .subscribed),
    .current (.clock (.clock (some 100))), .current (.transaction .subscribeFailed),
    .current (.clock (.clock (some 101)))]

theorem refusedFeed_runs : ∃ s, run step connectAndWatch refusedFeed = some s :=
  Option.isSome_iff_exists.mp (by rfl)

theorem never_deaf_iff_refusedFeed :
    Always step NeverDeaf connectAndWatch refusedFeed ↔
      Along step FeedKept connectAndWatch refusedFeed :=
  refusedFeed_runs.elim fun s h => never_deaf_iff ⟨[], true⟩ [] ⟨[], 1000, false⟩ refusedFeed s h

/-- After the refusal the clock goes on, nothing is cancelled, and no branch of
the select is enabled. -/
theorem deaf_after_refused_feed :
    ¬ Always step NeverDeaf connectAndWatch refusedFeed ∧
      ∃ s, run step connectAndWatch refusedFeed = some s ∧ ¬ NeverDeaf s ∧
        ∀ branch, step s (.select branch) = none := by
  have hlast : ∀ s, run step connectAndWatch refusedFeed = some s → ¬ NeverDeaf s := by
    rintro s ⟨⟩ h
    exact absurd (h _ rfl rfl rfl) (by decide)
  obtain ⟨s, hs⟩ := refusedFeed_runs
  refine ⟨fun h => hlast s hs (h.last hs), s, hs, hlast s hs, ?_⟩
  rintro branch
  cases hs
  cases branch <;> rfl

end HeliusWebsocket

end OmnipairIndexer
