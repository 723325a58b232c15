/-
The clients of the gRPC server: `stream_swaps_updates`.

A client that calls subscribes to the channel into which the listener sends what it
emits.  Its stream passes on the updates it receives and adds up what it missed since
the last one; when that is more than a thousand the stream says so with an error.

The listener sends its updates one by one, and clients may call and read between any
two of them.  An action is a step of the listener, the sending of the next update it
has emitted, a call, or one receive of a client.  Where a client started and what it
received are kept for the statements.
-/
import Mathlib.Data.List.Infix
import OmnipairIndexer.Grpc.Dedup
import OmnipairIndexer.Library.Broadcast

namespace OmnipairIndexer

open Transition Broadcast DbListener

namespace SwapStreamServer

inductive Status where
  | resourceExhausted (message : String)
deriving DecidableEq

def maxLagThreshold : Nat := 1000

def tooSlow : Status := .resourceExhausted "Client too slow, connection terminated"

/-- The closure of the stream: the lag counted from here on, and the item it lets through. -/
def filterMap (lagCount : Nat) : Received SwapsUpdate → Nat × Option (Except Status SwapsUpdate)
  | .value swapUpdate => (0, some (.ok swapUpdate))
  | .lagged skipped =>
    let lagCount := lagCount + skipped
    (lagCount, if maxLagThreshold < lagCount then some (.error tooSlow) else none)

structure Client where
  start : Nat
  next : Nat
  lagCount : Nat := 0
  received : List (Received SwapsUpdate) := []
  items : List (Except Status SwapsUpdate) := []

namespace Client

def subscribe (tail : Nat) : Client := { start := tail, next := tail }

def poll (capacity : Nat) (sent : List SwapsUpdate) (client : Client) : Client :=
  match recv capacity sent client.next with
  | none => client
  | some (result, next) =>
    { client with
      next := next
      lagCount := (filterMap client.lagCount result).1
      received := client.received ++ [result]
      items := client.items ++ (filterMap client.lagCount result).2.toList }

/-- The updates a client was given. -/
def updates (client : Client) : List SwapsUpdate := client.items.filterMap Except.toOption

/-- The places, among all updates sent, of those it was given. -/
def places (client : Client) : List Nat := (placed client.start client.received).map Prod.fst

end Client

structure State where
  listener : DbListener.State
  /-- How many of the emitted updates are in the channel. -/
  sent : Nat
  clients : List Client

def start : State := ⟨DbListener.start, 0, []⟩

def State.channel (s : State) : List SwapsUpdate := s.listener.emitted.take s.sent

inductive Action where
  | listener (action : DbListener.Action)
  | send
  | streamSwapsUpdates
  | poll (client : Nat)

/-- The listener goes on when it has sent everything. -/
def step (capacity dedupTimeout : Nat) (s : State) : Action → Option State
  | .listener action =>
    if s.sent = s.listener.emitted.length then
      (DbListener.step dedupTimeout s.listener action).map fun t => { s with listener := t }
    else none
  | .send =>
    if s.sent < s.listener.emitted.length then some { s with sent := s.sent + 1 } else none
  | .streamSwapsUpdates => some { s with clients := s.clients ++ [.subscribe s.sent] }
  | .poll i =>
    s.clients[i]?.map fun client =>
      { s with clients := s.clients.set i (client.poll capacity s.channel) }

def listenerAction : Action → Option DbListener.Action
  | .listener action => some action
  | .send => none
  | .streamSwapsUpdates => none
  | .poll _ => none

/-- What a run of the server is for the listener. -/
def listenerActions (actions : List Action) : List DbListener.Action :=
  actions.filterMap listenerAction

/-! ## The listener -/

theorem emitted_foldl_flush_grows (order : List String) (s : DbListener.State) :
    s.emitted <+: (order.foldl flush s).emitted := by
  induction order generalizing s with
  | nil => exact List.prefix_refl _
  | cons txSig order ih =>
    refine List.IsPrefix.trans ?_ (ih (flush s txSig))
    unfold flush
    cases s.buffer.lookup txSig with
    | none => exact List.prefix_refl _
    | some held => exact List.prefix_append _ _

/-- The listener takes nothing back. -/
theorem emitted_grows {dedupTimeout : Nat} {s t : DbListener.State} {action : DbListener.Action}
    (h : DbListener.step dedupTimeout s action = some t) : s.emitted <+: t.emitted := by
  cases action with
  | notification now parsed =>
    cases parsed with
    | none =>
      simp only [DbListener.step, Option.ite_none_right_eq_some, Option.some.injEq] at h
      rw [← h.2]
    | some notif =>
      simp only [DbListener.step, Option.ite_none_right_eq_some, Option.some.injEq] at h
      rw [← h.2, handle]
      by_cases hop : toUppercase notif.op = "INSERT"
      · rw [if_pos hop]
      · rw [if_neg hop]
        exact List.prefix_append _ _
  | recvError =>
    cases h
    exact List.prefix_refl _
  | tick now order =>
    simp only [DbListener.step, Option.ite_none_right_eq_some, Option.some.injEq] at h
    rw [← h.2]
    exact emitted_foldl_flush_grows order { s with clock := now }

/-! ## One client -/

namespace Client

variable {capacity : Nat} {sent : List SwapsUpdate} {client : Client}

/-- What a client was given and how it counts, in terms of the places of the channel. -/
structure Accounts (sent : List SwapsUpdate) (client : Client) : Prop where
  start_le : client.start ≤ sent.length
  reads : Reads sent client.start client.received client.next
  updates : client.updates = values client.received
  /-- The count reaches back to the last update the client was given, or to its start. -/
  counts : ∃ base, client.next = base + client.lagCount ∧ client.start ≤ base ∧
    (∀ place ∈ client.places, place < base) ∧
    (base = client.start ∨ ∃ place ∈ client.places, place + 1 = base)
  /-- The stream has said that the client is too slow exactly if the client was given
  nothing of a stretch of more than a thousand updates. -/
  slow : .error tooSlow ∈ client.items ↔
    ∃ first last, client.start ≤ first ∧ first + maxLagThreshold < last ∧ last ≤ client.next ∧
      ∀ place ∈ client.places, place < first ∨ last ≤ place

theorem Accounts.subscribe (sent : List SwapsUpdate) : Accounts sent (.subscribe sent.length) where
  start_le := Nat.le_refl _
  reads := rfl
  updates := rfl
  counts := ⟨sent.length, rfl, Nat.le_refl _, fun _ h => absurd h List.not_mem_nil, .inl rfl⟩
  slow := by
    constructor
    · exact fun h => absurd h List.not_mem_nil
    · rintro ⟨first, last, hstart, hlong, hlast, -⟩
      simp only [Client.subscribe] at hstart hlast
      omega

theorem Accounts.append (h : Accounts sent client) (more : List SwapsUpdate) :
    Accounts (sent ++ more) client where
  start_le := by
    rw [List.length_append]
    exact Nat.le_add_right_of_le h.start_le
  reads := h.reads.append more
  updates := h.updates
  counts := h.counts
  slow := h.slow

theorem Accounts.next_le (h : Accounts sent client) : client.next ≤ sent.length :=
  h.reads.next_le h.start_le

/-- The client after a result. -/
def after (client : Client) (result : Received SwapsUpdate) : Client :=
  { client with
    next := client.next + result.width
    lagCount := (filterMap client.lagCount result).1
    received := client.received ++ [result]
    items := client.items ++ (filterMap client.lagCount result).2.toList }

theorem poll_cases (capacity : Nat) (sent : List SwapsUpdate) (client : Client) :
    (sent.length ≤ client.next ∧ client.poll capacity sent = client) ∨
      ∃ result, recv capacity sent client.next = some (result, client.next + result.width) ∧
        client.poll capacity sent = client.after result := by
  cases h : recv capacity sent client.next with
  | none => exact .inl ⟨recv_eq_none_iff.mp h, by rw [poll, h]⟩
  | some received =>
    obtain ⟨result, next⟩ := received
    obtain ⟨-, rfl⟩ := recv_fits h
    exact .inr ⟨result, rfl, by rw [poll, h]; rfl⟩

theorem Accounts.value (h : Accounts sent client) {swap : SwapsUpdate}
    (hswap : sent[client.next]? = some swap) : Accounts sent (client.after (.value swap)) := by
  have hplaces : (client.after (.value swap)).places = client.places ++ [client.next] := by
    simp only [places, after, h.reads.placed_value, List.map_append, List.map_cons, List.map_nil]
  refine ⟨h.start_le, h.reads.concat hswap, ?_, ?_, ?_⟩
  · rw [Client.updates, after, List.filterMap_append, values_append, ← h.updates]
    rfl
  · refine ⟨client.next + 1, rfl, ?_, ?_, .inr ⟨client.next, ?_, rfl⟩⟩
    · obtain ⟨base, hnext, hbase, -⟩ := h.counts
      show client.start ≤ client.next + 1
      omega
    · rw [hplaces]
      intro place hplace
      obtain ⟨base, hnext, -, hbelow, -⟩ := h.counts
      obtain hplace | hplace := List.mem_append.mp hplace
      · have := hbelow place hplace
        omega
      · rw [List.mem_singleton.mp hplace]
        omega
    · rw [hplaces]
      exact List.mem_append_right _ (List.mem_singleton_self _)
  · have hitems : .error tooSlow ∈ (client.after (.value swap)).items ↔
        .error tooSlow ∈ client.items := by
      simp [after, filterMap]
    rw [hitems, h.slow, hplaces]
    show _ ↔ ∃ first last, client.start ≤ first ∧ first + maxLagThreshold < last ∧
      last ≤ client.next + 1 ∧ _
    constructor
    · rintro ⟨first, last, hfirst, hlong, hlast, hnone⟩
      refine ⟨first, last, hfirst, hlong, by omega, List.forall_mem_append.mpr ⟨hnone, ?_⟩⟩
      exact List.forall_mem_singleton.mpr (.inr hlast)
    · rintro ⟨first, last, hfirst, hlong, hlast, hnone⟩
      obtain ⟨hnone, hthis⟩ := List.forall_mem_append.mp hnone
      have hthis := List.forall_mem_singleton.mp hthis
      exact ⟨first, last, hfirst, hlong, by omega, hnone⟩

theorem Accounts.lagged (h : Accounts sent client) {skipped : Nat}
    (hskipped : 0 < skipped ∧ client.next + skipped ≤ sent.length) :
    Accounts sent (client.after (.lagged skipped)) := by
  have hplaces : (client.after (.lagged skipped)).places = client.places := by
    simp only [places, after, placed_lagged]
  obtain ⟨base, hnext, hbase, hbelow, hlast⟩ := h.counts
  refine ⟨h.start_le, h.reads.concat hskipped, ?_, ⟨base, ?_, hbase, ?_, ?_⟩, ?_⟩
  · rw [Client.updates, after, List.filterMap_append, values_append, ← h.updates]
    by_cases hslow : maxLagThreshold < client.lagCount + skipped
    · rw [filterMap, if_pos hslow]
      rfl
    · rw [filterMap, if_neg hslow]
      rfl
  · show client.next + skipped = base + (client.lagCount + skipped)
    omega
  · rw [hplaces]
    exact hbelow
  · rw [hplaces]
    exact hlast
  · have hitems : .error tooSlow ∈ (client.after (.lagged skipped)).items ↔
        .error tooSlow ∈ client.items ∨ maxLagThreshold < client.lagCount + skipped := by
      by_cases hslow : maxLagThreshold < client.lagCount + skipped <;>
        simp [after, filterMap, hslow]
    rw [hitems, h.slow, hplaces]
    show _ ↔ ∃ first last, client.start ≤ first ∧ first + maxLagThreshold < last ∧
      last ≤ client.next + skipped ∧ _
    constructor
    · rintro (⟨first, last, hfirst, hlong, hle, hnone⟩ | hslow)
      · exact ⟨first, last, hfirst, hlong, by omega, hnone⟩
      · exact ⟨base, client.next + skipped, hbase, by omega, Nat.le_refl _,
          fun place hplace => .inl (hbelow place hplace)⟩
    · rintro ⟨first, last, hfirst, hlong, hle, hnone⟩
      by_cases hold : last ≤ client.next
      · exact .inl ⟨first, last, hfirst, hlong, hold, hnone⟩
      · -- The stretch ends behind the old place, so it lies after the last update given.
        right
        obtain hlast | ⟨place, hplace, hlast⟩ := hlast
        · omega
        · obtain hbefore | hbehind := hnone place hplace
          · omega
          · have := hbelow place hplace
            omega

theorem Accounts.poll (h : Accounts sent client) : Accounts sent (client.poll capacity sent) := by
  obtain ⟨-, hpoll⟩ | ⟨result, hrecv, hpoll⟩ := poll_cases capacity sent client
  · rw [hpoll]
    exact h
  · rw [hpoll]
    obtain ⟨hfits, -⟩ := recv_fits hrecv
    cases result with
    | value swap => exact h.value hfits
    | lagged skipped => exact h.lagged hfits

end Client

/-! ## The server -/

section Server

variable {capacity dedupTimeout : Nat} {s t : State}

structure State.Accounts (s : State) : Prop where
  sent_le : s.sent ≤ s.listener.emitted.length
  clients : ∀ client ∈ s.clients, client.Accounts s.channel

theorem State.Accounts.length_channel (h : s.Accounts) : s.channel.length = s.sent :=
  List.length_take_of_le h.sent_le

/-- Updates only come in at the end of the channel. -/
theorem channel_grows {action : Action} (hstep : step capacity dedupTimeout s action = some t) :
    s.channel <+: t.channel := by
  cases action with
  | listener action =>
    simp only [step, Option.ite_none_right_eq_some, Option.map_eq_some_iff] at hstep
    obtain ⟨-, listener, hlistener, rfl⟩ := hstep
    obtain ⟨more, hmore⟩ := emitted_grows hlistener
    rw [State.channel, State.channel, ← hmore]
    exact List.IsPrefix.take (List.prefix_append _ more) s.sent
  | send =>
    simp only [step, Option.ite_none_right_eq_some, Option.some.injEq] at hstep
    obtain ⟨-, rfl⟩ := hstep
    exact List.take_prefix_take_left (Nat.le_succ _)
  | streamSwapsUpdates =>
    cases hstep
    exact List.prefix_refl _
  | poll i =>
    simp only [step, Option.map_eq_some_iff] at hstep
    obtain ⟨client, -, rfl⟩ := hstep
    exact List.prefix_refl _

/-- Whoever subscribed keeps its account while the channel grows. -/
theorem State.Accounts.grow (h : s.Accounts) (hclients : t.clients = s.clients)
    (hchannel : s.channel <+: t.channel) (hsent : t.sent ≤ t.listener.emitted.length) :
    t.Accounts where
  sent_le := hsent
  clients client hclient := by
    obtain ⟨more, hmore⟩ := hchannel
    rw [← hmore]
    exact (h.clients client (hclients ▸ hclient)).append more

theorem State.Accounts.step (h : s.Accounts) {action : Action}
    (hstep : step capacity dedupTimeout s action = some t) : t.Accounts := by
  have hchannel := channel_grows hstep
  cases action with
  | listener action =>
    simp only [SwapStreamServer.step, Option.ite_none_right_eq_some, Option.map_eq_some_iff] at hstep
    obtain ⟨-, listener, hlistener, rfl⟩ := hstep
    exact h.grow rfl hchannel (Nat.le_trans h.sent_le (emitted_grows hlistener).length_le)
  | send =>
    simp only [SwapStreamServer.step, Option.ite_none_right_eq_some, Option.some.injEq] at hstep
    obtain ⟨hlt, rfl⟩ := hstep
    exact h.grow rfl hchannel hlt
  | streamSwapsUpdates =>
    cases hstep
    refine ⟨h.sent_le, List.forall_mem_append.mpr ⟨h.clients, List.forall_mem_singleton.mpr ?_⟩⟩
    have hnew := Client.Accounts.subscribe s.channel
    rw [h.length_channel] at hnew
    exact hnew
  | poll i =>
    simp only [SwapStreamServer.step, Option.map_eq_some_iff] at hstep
    obtain ⟨client, hclient, rfl⟩ := hstep
    refine ⟨h.sent_le, fun other hother => ?_⟩
    obtain hother | rfl := List.mem_or_eq_of_mem_set hother
    · exact h.clients other hother
    · exact (h.clients client (List.mem_of_getElem? hclient)).poll

theorem accounts_of_run {actions : List Action}
    (hrun : run (step capacity dedupTimeout) start actions = some s) : s.Accounts :=
  run_preserves (fun _ _ _ h hstep => h.step hstep)
    ⟨Nat.le_refl _, fun _ h => absurd h List.not_mem_nil⟩ hrun

/-- The listener runs as if there were no clients. -/
theorem run_listener {actions : List Action}
    (hrun : run (step capacity dedupTimeout) s actions = some t) :
    run (DbListener.step dedupTimeout) s.listener (listenerActions actions) = some t.listener := by
  induction actions generalizing s with
  | nil =>
    cases hrun
    rfl
  | cons action actions ih =>
    obtain ⟨u, hstep, hrun⟩ := run_cons_eq_some.mp hrun
    have hrest := ih hrun
    cases action with
    | listener action =>
      simp only [step, Option.ite_none_right_eq_some, Option.map_eq_some_iff] at hstep
      obtain ⟨-, listener, hlistener, rfl⟩ := hstep
      exact run_cons_eq_some.mpr ⟨listener, hlistener, hrest⟩
    | send =>
      simp only [step, Option.ite_none_right_eq_some, Option.some.injEq] at hstep
      obtain ⟨-, rfl⟩ := hstep
      exact hrest
    | streamSwapsUpdates =>
      cases hstep
      exact hrest
    | poll i =>
      simp only [step, Option.map_eq_some_iff] at hstep
      obtain ⟨client, -, rfl⟩ := hstep
      exact hrest

theorem channel_grows_of_run {actions : List Action}
    (hrun : run (step capacity dedupTimeout) s actions = some t) : s.channel <+: t.channel :=
  run_preserves (I := fun u => s.channel <+: u.channel)
    (fun _ _ _ h hstep => List.IsPrefix.trans h (channel_grows hstep)) (List.prefix_refl _) hrun

/-- What the listener emitted for a signature, if all of it is in the channel. -/
theorem channel_filter {actions : List Action}
    (hrun : run (step capacity dedupTimeout) start actions = some s)
    (hsent : s.sent = s.listener.emitted.length) (txSig : String) :
    s.channel.filter (fun swap => swap.txSig = txSig) =
      Slot.emits dedupTimeout none (eventsOf txSig (listenerActions actions)) := by
  rw [State.channel, hsent, List.take_length, ← emissions_eq (run_listener hrun) txSig]
  rfl

end Server

/-! ## What a client is given -/

/-- The notification of an update, and its sending. -/
def emitAndSend (id txSig : String) : List Action :=
  [.listener (.notification 0 (some { inserted id txSig with op := "UPDATE" })), .send]

/-- A client that calls after the first update and reads after three more, of which the
channel keeps two. -/
def lagging : List Action :=
  emitAndSend "2" "b" ++ emitAndSend "3" "a" ++ emitAndSend "4" "a" ++
    [.poll 0, .poll 0, .poll 0]

/-- The same client, reading earlier. -/
def keepingUp : List Action :=
  emitAndSend "2" "b" ++ emitAndSend "3" "a" ++ [.poll 0, .poll 0] ++ emitAndSend "4" "a" ++
    [.poll 0]

theorem lagging_run :
    ∃ s client, run (step 2 5) start (emitAndSend "1" "a" ++ .streamSwapsUpdates :: lagging) =
        some s ∧ s.clients[0]? = some client ∧ client.start = 1 ∧
      client.updates.map SwapsUpdate.id = ["3", "4"] ∧ client.next = 4 := by
  have h : (run (step 2 5) start (emitAndSend "1" "a" ++ .streamSwapsUpdates :: lagging)).any
      (fun s => (s.clients[0]?).any fun client => client.start = 1 ∧
        client.updates.map SwapsUpdate.id = ["3", "4"] ∧ client.next = 4) := by
    decide +kernel
  obtain ⟨s, hs, h⟩ := (Option.any_eq_true ..).mp h
  obtain ⟨client, hclient, h⟩ := (Option.any_eq_true ..).mp h
  exact ⟨s, client, hs, hclient, of_decide_eq_true h⟩

/-- In every run each client is given, in the order in which they were sent and each at
most once, updates that were sent since it called; those it was not given are counted as
skipped up to its place in the channel.  For each signature these are part of what the
listener emits for it. -/
theorem updates_in_order (capacity dedupTimeout : Nat) (actions : List Action) (s : State)
    (hrun : run (step capacity dedupTimeout) start actions = some s) (client : Client)
    (hclient : client ∈ s.clients) :
    client.updates.Sublist (s.channel.drop client.start) ∧
      client.next = client.start + client.updates.length + skipped client.received ∧
      client.next ≤ s.sent ∧
      ∀ txSig, (client.updates.filter fun swap => swap.txSig = txSig).Sublist
        (Slot.emits dedupTimeout none (eventsOf txSig (listenerActions actions))) := by
  have haccounts := accounts_of_run hrun
  have h := haccounts.clients client hclient
  have hsub : client.updates.Sublist (s.channel.drop client.start) :=
    h.updates ▸ h.reads.values_sublist
  refine ⟨hsub, ?_, haccounts.length_channel ▸ h.next_le, fun txSig => ?_⟩
  · rw [h.updates]
    exact h.reads.next_eq
  · rw [← emissions_eq (run_listener hrun) txSig]
    exact (hsub.trans ((List.drop_sublist _ _).trans (List.take_sublist _ _))).filter _

/-- The client that lags is given the last two updates, and has skipped one. -/
theorem updates_in_order_lagging :
    ∃ (s : State) (client : Client), client.updates.map SwapsUpdate.id = ["3", "4"] ∧
      client.updates.Sublist (s.channel.drop 1) ∧ skipped client.received = 1 := by
  obtain ⟨s, client, hrun, hclient, hstart, hids, hnext⟩ := lagging_run
  obtain ⟨hsub, hplace, -⟩ :=
    updates_in_order 2 5 _ s hrun client (List.mem_of_getElem? hclient)
  have hlength : client.updates.length = 2 := by
    rw [← List.length_map SwapsUpdate.id, hids]
    rfl
  rw [hstart] at hsub hplace
  exact ⟨s, client, hids, hsub, by omega⟩

/-- In every run a client has been told that it is too slow exactly if there are more than
a thousand updates in a row, sent since it called and before its place in the channel, none
of which it was given. -/
theorem too_slow_iff (capacity dedupTimeout : Nat) (actions : List Action) (s : State)
    (hrun : run (step capacity dedupTimeout) start actions = some s) (client : Client)
    (hclient : client ∈ s.clients) :
    client.places.map (fun place => s.channel[place]?) = client.updates.map some ∧
      (.error tooSlow ∈ client.items ↔
        ∃ first last, client.start ≤ first ∧ first + maxLagThreshold < last ∧
          last ≤ client.next ∧ ∀ place ∈ client.places, place < first ∨ last ≤ place) := by
  have h := (accounts_of_run hrun).clients client hclient
  refine ⟨?_, h.slow⟩
  rw [h.updates, ← map_snd_placed client.start, Client.places, List.map_map, List.map_map]
  exact List.map_congr_left fun p hp => h.reads.getElem_of_placed hp

/-- A channel of one update, and a client that reads after more than a thousand. -/
def sleeping : List Action :=
  .streamSwapsUpdates :: (List.replicate 1002 (emitAndSend "1" "a")).flatten ++ [.poll 0]

theorem sleeping_run :
    ∃ s client, run (step 1 5) start sleeping = some s ∧ s.clients[0]? = some client ∧
      client.start = 0 ∧ client.places = [] ∧ client.next = 1001 := by
  have h : (run (step 1 5) start sleeping).any (fun s => (s.clients[0]?).any fun client =>
      client.start = 0 ∧ client.places = [] ∧ client.next = 1001) := by
    decide +kernel
  obtain ⟨s, hs, h⟩ := (Option.any_eq_true ..).mp h
  obtain ⟨client, hclient, h⟩ := (Option.any_eq_true ..).mp h
  exact ⟨s, client, hs, hclient, of_decide_eq_true h⟩

theorem too_slow_iff_sleeping :
    ∃ (s : State) (client : Client), run (step 1 5) start sleeping = some s ∧
      s.clients[0]? = some client ∧ .error tooSlow ∈ client.items := by
  obtain ⟨s, client, hrun, hclient, hstart, hplaces, hnext⟩ := sleeping_run
  refine ⟨s, client, hrun, hclient,
    (too_slow_iff 1 5 _ s hrun client (List.mem_of_getElem? hclient)).2.mpr ⟨0, 1001, ?_⟩⟩
  rw [hstart, hplaces, hnext]
  exact ⟨Nat.le_refl 0, by decide, Nat.le_refl 1001, fun _ h => absurd h List.not_mem_nil⟩

/-! ## A client that keeps up -/

/-- When client `i` reads, the update it reads next is still kept. -/
def KeepsUp (capacity i : Nat) (s : State) : Action → Prop
  | .poll j => j = i → ∀ client ∈ s.clients[i]?, s.sent ≤ client.next + capacity
  | .listener _ => True
  | .send => True
  | .streamSwapsUpdates => True

instance (capacity i : Nat) (s : State) :
    (action : Action) → Decidable (KeepsUp capacity i s action)
  | .poll j => inferInstanceAs (Decidable
      (j = i → ∀ client ∈ s.clients[i]?, s.sent ≤ client.next + capacity))
  | .listener _ => .isTrue trivial
  | .send => .isTrue trivial
  | .streamSwapsUpdates => .isTrue trivial

/-- Client `i`, as it was, has become `after`, and missed nothing on the way exactly if
`keeps`. -/
structure Client.Becomes (i : Nat) (client after : Client) (t : State) (keeps : Prop) : Prop where
  here : t.clients[i]? = some after
  same : after.start = client.start
  missed : skipped after.received = 0 ↔ skipped client.received = 0 ∧ keeps

section KeepsUp

variable {capacity dedupTimeout i : Nat} {s t : State} {client : Client}

theorem poll_becomes (h : s.Accounts) (hclient : s.clients[i]? = some client) :
    client.Becomes i (client.poll capacity s.channel)
      { s with clients := s.clients.set i (client.poll capacity s.channel) }
      (s.sent ≤ client.next + capacity) := by
  have hlt : i < s.clients.length := (List.getElem?_eq_some_iff.mp hclient).1
  have hget : (s.clients.set i (client.poll capacity s.channel))[i]? =
      some (client.poll capacity s.channel) := List.getElem?_set_self hlt
  obtain ⟨hwait, hpoll⟩ | ⟨result, hrecv, hpoll⟩ :=
    Client.poll_cases capacity s.channel client
  · rw [h.length_channel] at hwait
    refine ⟨hget, by rw [hpoll], ?_⟩
    rw [hpoll]
    exact ⟨fun hskip => ⟨hskip, by omega⟩, And.left⟩
  · refine ⟨hget, by rw [hpoll]; rfl, ?_⟩
    rw [hpoll]
    show Broadcast.skipped (client.received ++ [result]) = 0 ↔ _
    rw [skipped_append, Nat.add_eq_zero_iff, ← h.length_channel]
    obtain ⟨hlag, rfl, -⟩ | ⟨hkept, ⟨swap, rfl, -⟩, -⟩ := recv_cases hrecv
    · constructor
      · rintro ⟨-, hzero⟩
        have : s.channel.length - capacity - client.next + 0 = 0 := hzero
        omega
      · exact fun hkeeps => absurd hkeeps.2 (by omega)
    · exact ⟨fun hskip => ⟨hskip.1, hkept⟩, fun hskip => ⟨hskip.1, rfl⟩⟩

theorem step_becomes {action : Action} (h : s.Accounts) (hclient : s.clients[i]? = some client)
    (hstep : step capacity dedupTimeout s action = some t) :
    ∃ client', client.Becomes i client' t (KeepsUp capacity i s action) := by
  cases action with
  | listener action =>
    simp only [step, Option.ite_none_right_eq_some, Option.map_eq_some_iff] at hstep
    obtain ⟨-, listener, -, rfl⟩ := hstep
    exact ⟨client, hclient, rfl, (and_iff_left trivial).symm⟩
  | send =>
    simp only [step, Option.ite_none_right_eq_some, Option.some.injEq] at hstep
    obtain ⟨-, rfl⟩ := hstep
    exact ⟨client, hclient, rfl, (and_iff_left trivial).symm⟩
  | streamSwapsUpdates =>
    cases hstep
    have hlt : i < s.clients.length := (List.getElem?_eq_some_iff.mp hclient).1
    exact ⟨client, (List.getElem?_append_left hlt).trans hclient, rfl,
      (and_iff_left trivial).symm⟩
  | poll j =>
    simp only [step, Option.map_eq_some_iff] at hstep
    obtain ⟨other, hother, rfl⟩ := hstep
    by_cases hj : j = i
    · subst hj
      cases hclient.symm.trans hother
      have hpoll := @poll_becomes capacity j s client h hclient
      refine ⟨_, hpoll.here, hpoll.same, hpoll.missed.trans (and_congr_right fun _ => ?_)⟩
      constructor
      · intro hkept _ client' hclient'
        cases hclient.symm.trans hclient'
        exact hkept
      · exact fun hkeeps => hkeeps rfl client hclient
    · refine ⟨client, ?_, rfl, (and_iff_left fun heq => absurd heq hj).symm⟩
      exact (List.getElem?_set_ne hj).trans hclient

theorem run_client {actions : List Action} (h : s.Accounts) (hclient : s.clients[i]? = some client)
    (hrun : run (step capacity dedupTimeout) s actions = some t) :
    ∃ client', client.Becomes i client' t
      (Along (step capacity dedupTimeout) (KeepsUp capacity i) s actions) := by
  induction actions generalizing s client with
  | nil =>
    cases hrun
    exact ⟨client, hclient, rfl, (and_iff_left trivial).symm⟩
  | cons action actions ih =>
    obtain ⟨u, hstep, hrun⟩ := run_cons_eq_some.mp hrun
    obtain ⟨between, hbetween⟩ := step_becomes h hclient hstep
    obtain ⟨client', hclient'⟩ := ih (h.step hstep) hbetween.here hrun
    refine ⟨client', hclient'.here, hclient'.same.trans hbetween.same, ?_⟩
    rw [along_cons hstep, hclient'.missed, hbetween.missed, and_assoc]

end KeepsUp

/-- A client that has read to the end of a channel that holds everything emitted: what was
sent for a signature before the client called, followed by what the client was given for
it, is what the listener emits for that signature, for every signature, exactly if the
client kept up at every receive. -/
theorem given_everything_iff (capacity dedupTimeout : Nat) (before after : List Action)
    (u s : State) (hbefore : run (step capacity dedupTimeout) start before = some u)
    (hafter : run (step capacity dedupTimeout) u (.streamSwapsUpdates :: after) = some s)
    (client : Client) (hclient : s.clients[u.clients.length]? = some client)
    (hread : client.next = s.sent) (hsent : s.sent = s.listener.emitted.length) :
    (∀ txSig, (u.channel ++ client.updates).filter (fun swap => swap.txSig = txSig) =
        Slot.emits dedupTimeout none
          (eventsOf txSig (listenerActions (before ++ .streamSwapsUpdates :: after)))) ↔
      Along (step capacity dedupTimeout) (KeepsUp capacity u.clients.length) u
        (.streamSwapsUpdates :: after) := by
  have hrun := run_append_eq_some.mpr ⟨u, hbefore, hafter⟩
  have hu := accounts_of_run hbefore
  have hs := accounts_of_run hrun
  obtain ⟨called, hcall, hrest⟩ := run_cons_eq_some.mp hafter
  have hcalled : called.clients[u.clients.length]? = some (.subscribe u.sent) := by
    cases hcall
    exact List.getElem?_concat_length
  obtain ⟨client', hbecomes⟩ := run_client (hu.step hcall) hcalled hrest
  cases hclient.symm.trans hbecomes.here
  have h := hs.clients client (List.mem_of_getElem? hclient)
  have hstart : client.start = u.channel.length := hbecomes.same.trans hu.length_channel.symm
  have hchannel : s.channel = u.channel ++ s.channel.drop client.start := by
    obtain ⟨more, hmore⟩ := channel_grows_of_run hafter
    rw [hstart, ← hmore, List.drop_left]
  calc (∀ txSig, (u.channel ++ client.updates).filter (fun swap => swap.txSig = txSig) = _)
      ↔ ∀ txSig, client.updates.filter (fun swap => swap.txSig = txSig) =
          (s.channel.drop client.start).filter fun swap => swap.txSig = txSig := by
        refine forall_congr' fun txSig => ?_
        rw [← channel_filter hrun hsent, hchannel, List.filter_append, List.filter_append,
          List.append_right_inj, ← hchannel]
    _ ↔ client.updates = s.channel.drop client.start := by
        constructor
        · exact eq_of_filter_key SwapsUpdate.txSig (h.updates ▸ h.reads.values_sublist)
        · exact fun heq txSig => by rw [heq]
    _ ↔ skipped client.received = 0 := by
        have hreads := h.reads
        rw [hread, ← hs.length_channel] at hreads
        rw [h.updates]
        exact hreads.values_eq_iff
    _ ↔ _ := by
        rw [hbecomes.missed, along_cons hcall]
        exact ⟨fun hkeeps => ⟨trivial, hkeeps.2⟩, fun hkeeps => ⟨rfl, hkeeps.2⟩⟩

/-- The server after the first update. -/
def firstSent : State := (run (step 2 5) start (emitAndSend "1" "a")).get (by decide +kernel)

/-- A client calls then, and reads to the end of the channel. -/
def ReadsToEnd (after : List Action) (client : Client) : Prop :=
  ∃ s, run (step 2 5) firstSent (.streamSwapsUpdates :: after) = some s ∧
    s.clients[firstSent.clients.length]? = some client ∧ client.next = s.sent ∧
    s.sent = s.listener.emitted.length

theorem readsToEnd_of_any {after : List Action}
    (h : (run (step 2 5) firstSent (.streamSwapsUpdates :: after)).any (fun s =>
      (s.clients[firstSent.clients.length]?).any fun client =>
        client.next = s.sent ∧ s.sent = s.listener.emitted.length) = true) :
    ∃ client, ReadsToEnd after client := by
  obtain ⟨s, hs, h⟩ := (Option.any_eq_true ..).mp h
  obtain ⟨client, hclient, h⟩ := (Option.any_eq_true ..).mp h
  exact ⟨client, s, hs, hclient, of_decide_eq_true h⟩

/-- With what was sent before it called, the client is given all that is emitted. -/
def GivenEverything (after : List Action) (client : Client) : Prop :=
  ∀ txSig, (firstSent.channel ++ client.updates).filter (fun swap => swap.txSig = txSig) =
    Slot.emits 5 none
      (eventsOf txSig (listenerActions (emitAndSend "1" "a" ++ .streamSwapsUpdates :: after)))

/-- The client that reads earlier is given everything, and the one that lags is not. -/
theorem given_everything_iff_keepingUp :
    (∃ client, ReadsToEnd keepingUp client ∧ GivenEverything keepingUp client) ∧
      ∃ client, ReadsToEnd lagging client ∧ ¬ GivenEverything lagging client := by
  have hbefore : run (step 2 5) start (emitAndSend "1" "a") = some firstSent :=
    (Option.some_get _).symm
  constructor
  · obtain ⟨client, s, hs, hclient, hread, hsent⟩ := @readsToEnd_of_any keepingUp (by decide +kernel)
    exact ⟨client, ⟨s, hs, hclient, hread, hsent⟩, (given_everything_iff 2 5 _ keepingUp firstSent s
      hbefore hs client hclient hread hsent).mpr (by decide +kernel)⟩
  · obtain ⟨client, s, hs, hclient, hread, hsent⟩ := @readsToEnd_of_any lagging (by decide +kernel)
    exact ⟨client, ⟨s, hs, hclient, hread, hsent⟩, fun hall => absurd ((given_everything_iff 2 5 _
      lagging firstSent s hbefore hs client hclient hread hsent).mp hall) (by decide +kernel)⟩

end SwapStreamServer

end OmnipairIndexer
