/-
What the realtime datasource hands on.

`Forwarding` records beside the state each update that a task offers to the channel and
each update that the pipeline takes.  `forwarded_account` compares the two: the pipeline
gets what the channel took, in that order.  A task that is refused an update ends with it,
so a task loses one update at most, and none in the middle.
-/
import OmnipairIndexer.Datasource.NeverDeaf

namespace OmnipairIndexer

open Transition

namespace HeliusWebsocket

/-! ## Tasks -/

/-- The update that a task makes of what it polls. -/
def SubscriptionEvent.update? {ε : Type} (toUpdate : ε → Option Update) :
    SubscriptionEvent ε → Option Update
  | frame event => toUpdate event
  | _ => none

namespace SubscriptionTask

variable {ε : Type} {toUpdate : ε → Option Update} {cancelled : Bool} {channel channel' : Channel}
  {task task' : SubscriptionTask} {event : SubscriptionEvent ε}

theorem channel_of_step (h : task.step toUpdate cancelled channel event = some (task', channel'))
    (hupdate : event.update? toUpdate = none) : channel' = channel := by
  cases task with
  | starting => cases event <;> cases h <;> rfl
  | streaming =>
    cases event with
    | frame event =>
      have hnone : toUpdate event = none := hupdate
      simp only [step, hnone, Option.some.injEq, Prod.mk.injEq] at h
      exact h.2.symm
    | cancelled =>
      simp only [step, Option.ite_none_right_eq_some, Option.some.injEq, Prod.mk.injEq] at h
      exact h.2.2.symm
    | streamClosed =>
      cases h
      rfl
    | _ => cases h
  | ended => cases event <;> cases h

/-- An update is put into the channel, or the task ends. -/
theorem send_of_step (h : task.step toUpdate cancelled channel event = some (task', channel'))
    {update : Update} (hupdate : event.update? toUpdate = some update) :
    if channel.hasRoom then channel' = { channel with queued := channel.queued ++ [update] }
    else channel' = channel ∧ task' = ended := by
  cases event with
  | frame event =>
    have hsome : toUpdate event = some update := hupdate
    cases task with
    | streaming =>
      cases hroom : channel.hasRoom <;>
        simp only [step, hsome, Channel.trySend, hroom, if_true, if_false, Bool.false_eq_true,
          Option.some.injEq, Prod.mk.injEq] at h ⊢
      · exact ⟨h.2.symm, h.1.symm⟩
      · exact h.2.symm
    | _ => cases h
  | _ => cases hupdate

end SubscriptionTask

/-! ## Connections -/

/-- The task of an account filter by its place, or the transaction task. -/
def Iteration.task? (it : Iteration) : Option Nat → Option SubscriptionTask
  | some idx => it.accounts[idx]?.map Prod.snd
  | none => it.transaction

/-- The update that a task makes in an action, and which task. -/
def IterationAction.update? (accountDeletionsTracked : List Pubkey) (it : Iteration) :
    IterationAction → Option (Option Nat × Update)
  | account idx event => it.accounts[idx]?.bind fun entry =>
    (event.update? (AccountNotification.toUpdate accountDeletionsTracked entry.1)).map fun update =>
      (some idx, update)
  | transaction event =>
    (event.update? TransactionNotification.toUpdate).map fun update => (none, update)
  | _ => none

namespace Iteration

variable {accountDeletionsTracked : List Pubkey} {mainCancelled : Bool}
  {channel channel' : Channel} {it it' : Iteration} {act : IterationAction}

/-- What a step of a connection does to the channel and to the tasks. -/
structure Forwards (accountDeletionsTracked : List Pubkey) (channel : Channel) (it : Iteration)
    (act : IterationAction) (it' : Iteration) (channel' : Channel) : Prop where
  silent : act.update? accountDeletionsTracked it = none → channel' = channel
  alive : ∀ p ∈ act.update? accountDeletionsTracked it, it.task? p.1 ≠ some .ended
  sends : ∀ p ∈ act.update? accountDeletionsTracked it,
    if channel.hasRoom then channel' = { channel with queued := channel.queued ++ [p.2] }
    else channel' = channel ∧ it'.task? p.1 = some .ended
  ended : ∀ id, it.task? id = some .ended → it'.task? id = some .ended

/-- A step that touches none of the forwarding tasks. -/
theorem forwards_of_others (hupdate : act.update? accountDeletionsTracked it = none)
    (hchannel : channel' = channel) (htasks : ∀ id, it'.task? id = it.task? id) :
    Forwards accountDeletionsTracked channel it act it' channel' where
  silent _ := hchannel
  alive p hp := by
    rw [hupdate] at hp
    cases hp
  sends p hp := by
    rw [hupdate] at hp
    cases hp
  ended id h := (htasks id).trans h

theorem forwards_account {idx : Nat} {event : SubscriptionEvent AccountNotification}
    (h : it.step accountDeletionsTracked mainCancelled channel (.account idx event) =
      some (it', channel')) :
    Forwards accountDeletionsTracked channel it (.account idx event) it' channel' := by
  simp only [step, Option.bind_eq_bind, Option.bind_eq_some_iff] at h
  obtain ⟨⟨account, task⟩, htask, ⟨task', _⟩, hstep, heq⟩ := h
  cases heq
  have halive := (SubscriptionTask.step_spec hstep).1
  have hlt : idx < it.accounts.length := (List.getElem?_eq_some_iff.mp htask).1
  have hupdate : IterationAction.update? accountDeletionsTracked it (.account idx event) =
      (event.update? (AccountNotification.toUpdate accountDeletionsTracked account)).map
        fun update => (some idx, update) := by
    rw [IterationAction.update?, htask, Option.bind_some]
  refine ⟨?_, ?_, ?_, ?_⟩
  · intro hnone
    rw [hupdate, Option.map_eq_none_iff] at hnone
    exact SubscriptionTask.channel_of_step hstep hnone
  · intro p hp
    rw [hupdate] at hp
    obtain ⟨update, -, rfl⟩ := Option.map_eq_some_iff.mp hp
    simp only [task?, htask, Option.map_some, ne_eq, Option.some.injEq]
    exact halive
  · intro p hp
    rw [hupdate] at hp
    obtain ⟨update, hsome, rfl⟩ := Option.map_eq_some_iff.mp hp
    have hsend := SubscriptionTask.send_of_step hstep hsome
    split
    · rwa [if_pos ‹_›] at hsend
    · rw [if_neg ‹_›] at hsend
      refine ⟨hsend.1, ?_⟩
      simp only [task?, List.getElem?_set_self hlt, Option.map_some, hsend.2]
  · intro id hended
    cases id with
    | none => exact hended
    | some k =>
      by_cases hk : k = idx
      · simp only [task?, hk, htask, Option.map_some, Option.some.injEq] at hended
        exact absurd hended halive
      · simpa only [task?, List.getElem?_set_ne (Ne.symm hk)] using hended

theorem forwards_transaction {event : SubscriptionEvent TransactionNotification}
    (h : it.step accountDeletionsTracked mainCancelled channel (.transaction event) =
      some (it', channel')) :
    Forwards accountDeletionsTracked channel it (.transaction event) it' channel' := by
  simp only [step, Option.bind_eq_bind, Option.bind_eq_some_iff] at h
  obtain ⟨task, htask, ⟨task', _⟩, hstep, heq⟩ := h
  cases heq
  have halive := (SubscriptionTask.step_spec hstep).1
  have hupdate : IterationAction.update? accountDeletionsTracked it (.transaction event) =
      (event.update? TransactionNotification.toUpdate).map fun update => (none, update) := rfl
  refine ⟨?_, ?_, ?_, ?_⟩
  · intro hnone
    rw [hupdate, Option.map_eq_none_iff] at hnone
    exact SubscriptionTask.channel_of_step hstep hnone
  · intro p hp
    rw [hupdate] at hp
    obtain ⟨update, -, rfl⟩ := Option.map_eq_some_iff.mp hp
    simp only [task?, htask, ne_eq, Option.some.injEq]
    exact halive
  · intro p hp
    rw [hupdate] at hp
    obtain ⟨update, hsome, rfl⟩ := Option.map_eq_some_iff.mp hp
    have hsend := SubscriptionTask.send_of_step hstep hsome
    split
    · rwa [if_pos ‹_›] at hsend
    · rw [if_neg ‹_›] at hsend
      exact ⟨hsend.1, congrArg some hsend.2⟩
  · intro id hended
    cases id with
    | none =>
      rw [task?, htask, Option.some.injEq] at hended
      exact absurd hended halive
    | some k => exact hended

theorem forwards_of_step
    (h : it.step accountDeletionsTracked mainCancelled channel act = some (it', channel')) :
    Forwards accountDeletionsTracked channel it act it' channel' := by
  cases act with
  | account idx event => exact forwards_account h
  | transaction event => exact forwards_transaction h
  | clock event =>
    simp only [step, Option.bind_eq_bind, Option.bind_eq_some_iff] at h
    obtain ⟨_, -, heq⟩ := h
    cases heq
    exact forwards_of_others rfl rfl fun id => by cases id <;> rfl
  | join =>
    simp only [step, Option.ite_none_right_eq_some, Option.some.injEq, Prod.mk.injEq] at h
    exact forwards_of_others rfl h.2.2.symm fun id => by rw [← h.2.1]; cases id <;> rfl
  | finish =>
    simp only [step, Option.ite_none_right_eq_some, Option.some.injEq, Prod.mk.injEq] at h
    exact forwards_of_others rfl h.2.2.symm fun id => by rw [← h.2.1]; cases id <;> rfl

end Iteration

/-! ## Steps -/

/-- A forwarding task of a run: the number of its connection, and the place of its account
among the filters. -/
structure TaskId where
  connection : Nat
  account : Option Nat
  deriving DecidableEq

/-- An update that a task hands to the channel, and whether the channel takes it. -/
structure Offer where
  task : TaskId
  update : Update
  taken : Bool

/-- The connections of a run, in the order in which they were made. -/
def State.connections (s : State) : List Iteration := s.past ++ s.current.toList

def State.task? (s : State) (id : TaskId) : Option SubscriptionTask :=
  s.connections[id.connection]?.bind fun it => it.task? id.account

/-- The connection in which something happens, and what. -/
def Action.inConnection (s : State) : Action → Option (Nat × IterationAction)
  | current act => some (s.past.length, act)
  | past idx act => if idx < s.past.length then some (idx, act) else none
  | _ => none

def Action.offer? (s : State) (action : Action) : Option Offer := do
  let (connection, act) ← action.inConnection s
  let it ← s.connections[connection]?
  let (account, update) ← act.update? s.accountDeletionsTracked it
  return ⟨⟨connection, account⟩, update, s.channel.hasRoom⟩

/-- The update that the pipeline takes from the channel. -/
def Action.received? (s : State) : Action → Option Update
  | receive => s.channel.queued.head?
  | _ => none

variable {s t : State} {action : Action}

/-- An action within a connection. -/
structure Moves (s t : State) (connection : Nat) (act : IterationAction) (it it' : Iteration) :
    Prop where
  before : s.connections[connection]? = some it
  step : it.step s.accountDeletionsTracked s.mainCancelled s.channel act = some (it', t.channel)
  after : t.connections = s.connections.set connection it'

theorem moves_of_current {act : IterationAction} (h : step s (.current act) = some t) :
    ∃ it it', Moves s t s.past.length act it it' := by
  simp only [step, Option.bind_eq_bind, Option.bind_eq_some_iff] at h
  obtain ⟨it, hcurrent, ⟨it', channel⟩, hstep, heq⟩ := h
  cases heq
  refine ⟨it, it', ?_, hstep, ?_⟩
  · rw [State.connections, hcurrent, List.getElem?_append_right (Nat.le_refl _), Nat.sub_self]
    rfl
  · simp only [State.connections, hcurrent, Option.toList_some]
    rw [List.set_append_right _ _ (Nat.le_refl _), Nat.sub_self]
    rfl

theorem moves_of_past {idx : Nat} {act : IterationAction} (h : step s (.past idx act) = some t) :
    idx < s.past.length ∧ ∃ it it', Moves s t idx act it it' := by
  simp only [step, Option.bind_eq_bind, Option.bind_eq_some_iff] at h
  obtain ⟨it, hpast, ⟨it', channel⟩, hstep, heq⟩ := h
  cases heq
  have hlt : idx < s.past.length := (List.getElem?_eq_some_iff.mp hpast).1
  refine ⟨hlt, it, it', ?_, hstep, ?_⟩
  · rw [State.connections, List.getElem?_append_left hlt, hpast]
  · simp only [State.connections]
    rw [List.set_append_left _ _ hlt]

/-- What an action outside the connections leaves. -/
structure Stays (s t : State) (action : Action) : Prop where
  queued : (action.received? s).toList ++ t.channel.queued = s.channel.queued
  task : ∀ id task, s.task? id = some task → t.task? id = some task

theorem stays_of_eq (hreceived : action.received? s = none)
    (hqueued : t.channel.queued = s.channel.queued)
    (hconnections : t.connections = s.connections) : Stays s t action where
  queued := by
    rw [hreceived, hqueued]
    rfl
  task id task h := by rwa [State.task?, hconnections]

/-- A connection that is made leaves the others in their places. -/
theorem task?_of_grows {it : Iteration} (h : t.connections = s.connections ++ [it]) (id : TaskId)
    (task : SubscriptionTask) (htask : s.task? id = some task) : t.task? id = some task := by
  obtain ⟨it', hit', htask'⟩ := Option.bind_eq_some_iff.mp htask
  have hlt := (List.getElem?_eq_some_iff.mp hit').1
  rw [State.task?, h, List.getElem?_append_left hlt, hit']
  exact htask'

theorem stays_select {branch : SelectBranch} (h : step s (.select branch) = some t) :
    Stays s t (.select branch) := by
  simp only [step] at h
  split at h
  · rename_i it _ hcurrent
    cases branch <;> simp only [selectStep, Option.ite_none_right_eq_some, Option.some.injEq] at h
    · obtain ⟨-, rfl⟩ := h
      refine ⟨rfl, fun id task htask => ?_⟩
      obtain ⟨it', hit', htask'⟩ := Option.bind_eq_some_iff.mp htask
      simp only [State.task?, State.connections, hcurrent, Option.toList_some] at hit' ⊢
      by_cases hlt : id.connection < s.past.length
      · rw [List.getElem?_append_left hlt] at hit' ⊢
        rw [hit']
        exact htask'
      · rw [List.getElem?_append_right (Nat.le_of_not_lt hlt)] at hit' ⊢
        cases hindex : id.connection - s.past.length with
        | zero =>
          rw [hindex] at hit'
          cases hit'
          simpa [Iteration.task?] using htask'
        | succ n =>
          rw [hindex] at hit'
          cases hit'
    · obtain ⟨-, rfl⟩ := h
      exact stays_of_eq rfl rfl rfl
    · obtain ⟨-, rfl⟩ := h
      exact stays_of_eq rfl rfl rfl
  · cases h

/-- An action is within a connection, or leaves the tasks and the updates where they are. -/
theorem moves_or_stays (h : step s action = some t) :
    (∃ connection act it it', action.inConnection s = some (connection, act) ∧
      action.received? s = none ∧ Moves s t connection act it it') ∨
    (action.inConnection s = none ∧ Stays s t action) := by
  cases action with
  | current act =>
    obtain ⟨it, it', hmoves⟩ := moves_of_current h
    exact Or.inl ⟨_, act, it, it', rfl, rfl, hmoves⟩
  | past idx act =>
    obtain ⟨hlt, it, it', hmoves⟩ := moves_of_past h
    exact Or.inl ⟨idx, act, it, it', if_pos hlt, rfl, hmoves⟩
  | select branch => exact Or.inr ⟨rfl, stays_select h⟩
  | connected =>
    simp only [step] at h
    split at h <;> cases h
    exact Or.inr ⟨rfl, rfl, task?_of_grows rfl⟩
  | receive =>
    simp only [step] at h
    split at h <;> cases h
    rename_i update rest hqueued
    refine Or.inr ⟨rfl, ?_, fun _ _ => id⟩
    simp only [Action.received?, hqueued, List.head?_cons]
    rfl
  | requestCancellation =>
    cases h
    exact Or.inr ⟨rfl, stays_of_eq rfl rfl rfl⟩
  | closeChannel =>
    cases h
    exact Or.inr ⟨rfl, stays_of_eq rfl rfl rfl⟩
  | checkCancellation =>
    simp only [step] at h
    split at h <;> cases h
    exact Or.inr ⟨rfl, stays_of_eq rfl rfl rfl⟩
  | connectFailed error =>
    simp only [step] at h
    split at h <;> cases h
    exact Or.inr ⟨rfl, stays_of_eq rfl rfl rfl⟩
  | wake =>
    simp only [step] at h
    split at h <;> cases h
    exact Or.inr ⟨rfl, stays_of_eq rfl rfl rfl⟩

/-! ## Runs -/

/-- A run of `consume`, with what was offered to the channel and what was taken out. -/
structure Forwarding where
  state : State
  offers : List Offer
  received : List Update

namespace Forwarding

def start (s : State) : Forwarding := ⟨s, [], []⟩

def step (f : Forwarding) (action : Action) : Option Forwarding :=
  (HeliusWebsocket.step f.state action).map fun t =>
    ⟨t, f.offers ++ (action.offer? f.state).toList,
      f.received ++ (action.received? f.state).toList⟩

/-- The updates that the channel has taken, in order. -/
def taken (offers : List Offer) : List Update := (offers.filter Offer.taken).map Offer.update

theorem run_of_forwarding {f g : Forwarding} {actions : List Action}
    (hrun : run step f actions = some g) :
    run HeliusWebsocket.step f.state actions = some g.state := by
  induction actions generalizing f with
  | nil =>
    cases hrun
    rfl
  | cons action actions ih =>
    obtain ⟨u, hu, hrun⟩ := run_cons_eq_some.mp hrun
    obtain ⟨t, ht, rfl⟩ := Option.map_eq_some_iff.mp hu
    exact run_cons_eq_some.mpr ⟨t, ht, ih hrun⟩

/-- What was in the channel at first and what it took is what was taken out of it and what
is in it, and a task that was refused has ended and offered nothing since. -/
structure Sound (queued : List Update) (f : Forwarding) : Prop where
  account : f.received ++ f.state.channel.queued = queued ++ taken f.offers
  refused : ∀ x ∈ f.offers, x.taken = false → f.state.task? x.task = some .ended
  last : f.offers.Pairwise fun x y => x.taken = false → y.task ≠ x.task

theorem sound_start (s : State) : (start s).Sound s.channel.queued :=
  ⟨(List.append_nil _).symm, nofun, .nil⟩

variable {queued : List Update} {f : Forwarding} {action : Action} {t : State}

theorem offer?_eq {connection : Nat} {act : IterationAction} {it it' : Iteration}
    (hin : action.inConnection f.state = some (connection, act))
    (hmoves : Moves f.state t connection act it it') :
    action.offer? f.state = (act.update? f.state.accountDeletionsTracked it).map fun p =>
      ⟨⟨connection, p.1⟩, p.2, f.state.channel.hasRoom⟩ := by
  simp only [Action.offer?, hin, hmoves.before, Option.bind_eq_bind, Option.bind_some]
  cases act.update? f.state.accountDeletionsTracked it <;> rfl

/-- A task that has ended has ended for good. -/
theorem ended_of_moves {connection : Nat} {act : IterationAction} {it it' : Iteration} {s : State}
    (hmoves : Moves s t connection act it it') {id : TaskId} (h : s.task? id = some .ended) :
    t.task? id = some .ended := by
  obtain ⟨it₁, hit₁, htask⟩ := Option.bind_eq_some_iff.mp h
  rw [State.task?, hmoves.after]
  by_cases hid : connection = id.connection
  · obtain rfl : it = it₁ := Option.some.inj ((hid ▸ hmoves.before).symm.trans hit₁)
    rw [hid, List.getElem?_set_self (List.getElem?_eq_some_iff.mp hit₁).1]
    exact (Iteration.forwards_of_step hmoves.step).ended _ htask
  · rw [List.getElem?_set_ne hid, hit₁]
    exact htask

theorem Sound.stays (h : f.Sound queued) (hin : action.inConnection f.state = none)
    (hstays : Stays f.state t action) :
    Sound queued ⟨t, f.offers ++ (action.offer? f.state).toList,
      f.received ++ (action.received? f.state).toList⟩ := by
  have hoffer : action.offer? f.state = none := by rw [Action.offer?, hin]; rfl
  rw [hoffer, Option.toList_none, List.append_nil]
  refine ⟨?_, ?_, h.last⟩
  · rw [List.append_assoc, hstays.queued, h.account]
  · intro x hx hrefused
    exact hstays.task _ _ (h.refused x hx hrefused)

theorem Sound.moves (h : f.Sound queued) {connection : Nat} {act : IterationAction}
    {it it' : Iteration} (hin : action.inConnection f.state = some (connection, act))
    (hreceived : action.received? f.state = none)
    (hmoves : Moves f.state t connection act it it') :
    Sound queued ⟨t, f.offers ++ (action.offer? f.state).toList,
      f.received ++ (action.received? f.state).toList⟩ := by
  have hforwards := Iteration.forwards_of_step hmoves.step
  have hended : ∀ x ∈ f.offers, x.taken = false → t.task? x.task = some .ended :=
    fun x hx hrefused => ended_of_moves hmoves (h.refused x hx hrefused)
  rw [hreceived, offer?_eq hin hmoves, Option.toList_none, List.append_nil]
  cases hupdate : act.update? f.state.accountDeletionsTracked it with
  | none =>
    rw [Option.map_none, Option.toList_none, List.append_nil]
    refine ⟨?_, hended, h.last⟩
    show f.received ++ t.channel.queued = _
    rw [hforwards.silent hupdate, h.account]
  | some p =>
    obtain ⟨account, update⟩ := p
    have halive := hforwards.alive _ hupdate
    have hsends := hforwards.sends _ hupdate
    have htask : f.state.task? ⟨connection, account⟩ = it.task? account := by
      rw [State.task?, hmoves.before, Option.bind_some]
    rw [Option.map_some, Option.toList_some]
    refine ⟨?_, ?_, ?_⟩
    · show f.received ++ t.channel.queued = _
      rw [taken, List.filter_append, List.map_append, ← taken, ← List.append_assoc, ← h.account,
        List.append_assoc]
      cases hroom : f.state.channel.hasRoom with
      | true =>
        rw [hroom, if_pos rfl] at hsends
        rw [hsends]
        rfl
      | false =>
        rw [hroom, if_neg Bool.false_ne_true] at hsends
        rw [hsends.1]
        exact congrArg _ (List.append_nil _).symm
    · intro x hx hrefused
      obtain hold | hnew := List.mem_append.mp hx
      · exact hended x hold hrefused
      · obtain rfl := List.mem_singleton.mp hnew
        have hroom : f.state.channel.hasRoom = false := hrefused
        rw [hroom, if_neg Bool.false_ne_true] at hsends
        have hlt := (List.getElem?_eq_some_iff.mp hmoves.before).1
        show t.task? ⟨connection, account⟩ = _
        rw [State.task?, hmoves.after, List.getElem?_set_self hlt, Option.bind_some]
        exact hsends.2
    · -- the task that offers has not ended, so it was not refused before
      rw [List.pairwise_append]
      refine ⟨h.last, List.pairwise_singleton _ _, ?_⟩
      intro x hx y hy hrefused heq
      obtain rfl := List.mem_singleton.mp hy
      have hbefore := h.refused x hx hrefused
      rw [← heq, htask] at hbefore
      exact halive hbefore

theorem Sound.step {f g : Forwarding} (h : f.Sound queued) (hstep : f.step action = some g) :
    g.Sound queued := by
  obtain ⟨t, ht, rfl⟩ := Option.map_eq_some_iff.mp hstep
  obtain ⟨connection, act, it, it', hin, hreceived, hmoves⟩ | ⟨hin, hstays⟩ := moves_or_stays ht
  · exact h.moves hin hreceived hmoves
  · exact h.stays hin hstays

theorem sound_of_run {s : State} {actions : List Action} (hrun : run step (start s) actions = some f) :
    f.Sound s.channel.queued :=
  run_preserves (fun _ _ _ h hstep => h.step hstep) (sound_start s) hrun

end Forwarding

/-- For every run of `consume`, whatever the connections, the tasks, the channel and the
pipeline do: what the pipeline has taken and what waits for it is what was in the channel
at first and what the tasks offered while there was room, in the order of the offers.  A
task whose offer is refused has ended, and offers nothing after that one. -/
theorem forwarded_account (filters : Filters) (accountDeletionsTracked : List Pubkey)
    (channel : Channel) (actions : List Action) (f : Forwarding)
    (hrun : run Forwarding.step (.start (consume filters accountDeletionsTracked channel)) actions =
      some f) :
    run step (consume filters accountDeletionsTracked channel) actions = some f.state ∧
      f.received ++ f.state.channel.queued =
        channel.queued ++ (f.offers.filter Offer.taken).map Offer.update ∧
      (∀ x ∈ f.offers, x.taken = false → f.state.task? x.task = some .ended) ∧
      f.offers.Pairwise fun x y => x.taken = false → y.task ≠ x.task := by
  have hsound := Forwarding.sound_of_run hrun
  exact ⟨Forwarding.run_of_forwarding hrun, hsound.account, hsound.refused, hsound.last⟩

def transferFrame (slot : UInt64) : TransactionNotification :=
  ⟨some "transfer", some ⟨false, none, none⟩, some (.v0 [.filled 1] [] 1), slot⟩

/-- Two transactions for a channel with room for one. -/
def overflow : List Action :=
  [.checkCancellation, .connected, .current (.transaction .subscribed),
    .current (.transaction (.frame (transferFrame 5))),
    .current (.transaction (.frame (transferFrame 6))), .receive]

theorem overflow_run :
    ∃ f, run Forwarding.step (.start (consume ⟨[], true⟩ [] ⟨[], 1, false⟩)) overflow = some f ∧
      f.offers.map Offer.taken = [true, false] := by
  have h : (run Forwarding.step (.start (consume ⟨[], true⟩ [] ⟨[], 1, false⟩)) overflow).any
      fun f => decide (f.offers.map Offer.taken = [true, false]) := by
    decide +kernel
  obtain ⟨f, hf, h⟩ := (Option.any_eq_true ..).mp h
  exact ⟨f, hf, of_decide_eq_true h⟩

/-- One update arrives, and the refused task has ended. -/
theorem forwarded_account_overflow :
    ∃ f, run Forwarding.step (.start (consume ⟨[], true⟩ [] ⟨[], 1, false⟩)) overflow = some f ∧
      (f.received ++ f.state.channel.queued).length = 1 ∧
      ∃ x ∈ f.offers, f.state.task? x.task = some .ended := by
  obtain ⟨f, hrun, htaken⟩ := overflow_run
  obtain ⟨-, haccount, hrefused, -⟩ :=
    forwarded_account ⟨[], true⟩ [] ⟨[], 1, false⟩ overflow f hrun
  have hfilter : (f.offers.filter Offer.taken).length = 1 := by
    have hcount := congrArg (List.count true) htaken
    rw [List.count_eq_countP, List.countP_map] at hcount
    rw [← List.countP_eq_length_filter]
    simpa [Function.comp_def] using hcount
  have hmem : false ∈ f.offers.map Offer.taken := by
    rw [htaken]
    exact List.mem_cons_of_mem _ List.mem_cons_self
  obtain ⟨x, hx, hfalse⟩ := List.mem_map.mp hmem
  refine ⟨f, hrun, ?_, x, hx, hrefused x hx hfalse⟩
  rw [haccount, List.nil_append, List.length_map, hfilter]

end HeliusWebsocket

end OmnipairIndexer
