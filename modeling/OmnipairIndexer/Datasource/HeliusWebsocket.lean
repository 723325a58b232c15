/-
The realtime datasource: `HeliusWebsocket::consume`.

One connection iteration runs a clock task, a task per account filter and a task
for the transaction filter.  A supervisor awaits them in that order and cancels
the iteration's token after the last; `consume` itself waits for the main token,
the iteration's token or the supervisor, whichever comes first.  The tasks of an
iteration that was left keep running until they see its token.

A step is one poll of one of these parties, or something from outside: a frame of
the WebSocket, an error, a cancellation request, the pipeline taking an update
from the channel.  The time between two clock updates is read from outside.
-/
import OmnipairIndexer.Library.Transition
import OmnipairIndexer.Core.Pipeline

namespace OmnipairIndexer

/-! ## Updates and the pipeline channel -/

structure Account where
  lamports : UInt64
  data : List UInt8
  owner : Pubkey

inductive Update where
  | account (pubkey : Pubkey) (account : Account) (slot : UInt64)
  | accountDeletion (pubkey : Pubkey) (slot : UInt64)
  | transaction (update : TransactionUpdate)

structure Channel where
  queued : List Update
  capacity : Nat
  closed : Bool

namespace Channel

def hasRoom (channel : Channel) : Bool :=
  !channel.closed && decide (channel.queued.length < channel.capacity)

/-- `Sender::try_send`, which fails on a channel that is closed or full. -/
def trySend (channel : Channel) (update : Update) : Option Channel :=
  if channel.hasRoom then some { channel with queued := channel.queued ++ [update] } else none

end Channel

namespace HeliusWebsocket

/-! ## Frames of the WebSocket -/

/-- An account frame; the account is missing when its data does not decode. -/
structure AccountNotification where
  account : Option Account
  slot : UInt64

/-- The update of an account frame.  An emptied system account is a deletion, and
reported only if the account is tracked. -/
def AccountNotification.toUpdate (accountDeletionsTracked : List Pubkey) (account : Pubkey)
    (accEvent : AccountNotification) : Option Update :=
  accEvent.account.bind fun decodedAccount =>
    if decodedAccount.lamports = 0 ∧ decodedAccount.data = [] ∧
        decodedAccount.owner = Pubkey.filled 0 then
      if account ∈ accountDeletionsTracked then
        some (.accountDeletion account accEvent.slot)
      else none
    else some (.account account decodedAccount accEvent.slot)

/-- A compiled instruction; `data` is missing when it is not base58. -/
structure UiCompiledInstruction where
  programIdIndex : UInt8
  accounts : List UInt8
  data : Option (List UInt8)
  stackHeight : Option UInt32

inductive UiInstruction where
  | compiled (instruction : UiCompiledInstruction)
  | parsed

def UiInstruction.toInner : UiInstruction → InnerInstruction
  | compiled ix => ⟨⟨ix.programIdIndex, ix.accounts, ix.data.getD []⟩, ix.stackHeight⟩
  | parsed => ⟨⟨0, [], []⟩, none⟩

structure UiInnerInstructions where
  index : UInt8
  instructions : List UiInstruction

/-- Addresses as text; one that is not a key is missing. -/
structure UiLoadedAddresses where
  writable : List (Option Pubkey)
  readonly : List (Option Pubkey)

structure UiTransactionStatusMeta where
  statusIsErr : Bool
  innerInstructions : Option (List UiInnerInstructions)
  loadedAddresses : Option UiLoadedAddresses

/-- The fields of `meta_needed` that the pipeline reads. -/
def UiTransactionStatusMeta.metaNeeded (metaOriginal : UiTransactionStatusMeta) :
    TransactionStatusMeta where
  innerInstructions := some ((metaOriginal.innerInstructions.getD []).map fun group =>
    ⟨group.index, group.instructions.map UiInstruction.toInner⟩)
  loadedAddresses :=
    let loaded := metaOriginal.loadedAddresses.getD ⟨[], []⟩
    ⟨loaded.writable.map (·.getD Pubkey.default), loaded.readonly.map (·.getD Pubkey.default)⟩

/-- A transaction frame; a part that does not parse is missing. -/
structure TransactionNotification where
  signature : Option String
  statusMeta : Option UiTransactionStatusMeta
  transaction : Option VersionedMessage
  slot : UInt64

/-- The update of a transaction frame.  Failed transactions and frames that do not
parse are skipped. -/
def TransactionNotification.toUpdate (txEvent : TransactionNotification) : Option Update := do
  let signature ← txEvent.signature
  let metaOriginal ← txEvent.statusMeta
  if metaOriginal.statusIsErr then none
  else
    let decodedTransaction ← txEvent.transaction
    return .transaction ⟨signature, decodedTransaction, metaOriginal.metaNeeded, txEvent.slot⟩

/-! ## The tasks of an iteration -/

/-- What a select of an account or transaction task can see. -/
inductive SubscriptionEvent (ε : Type) where
  | wsMissing
  | subscribeFailed
  | subscribed
  | cancelled
  | frame (event : ε)
  | streamClosed

inductive SubscriptionTask where
  | starting
  | streaming
  | ended
  deriving DecidableEq

/-- A task that forwards the updates of one subscription. -/
def SubscriptionTask.step {ε : Type} (toUpdate : ε → Option Update) (cancelled : Bool)
    (channel : Channel) :
    SubscriptionTask → SubscriptionEvent ε → Option (SubscriptionTask × Channel)
  | starting, .wsMissing => some (ended, channel)
  | starting, .subscribeFailed => some (ended, channel)
  | starting, .subscribed => some (streaming, channel)
  | streaming, .cancelled => if cancelled then some (ended, channel) else none
  | streaming, .frame event =>
    match toUpdate event with
    | none => some (streaming, channel)
    | some update =>
      match channel.trySend update with
      | some channel => some (streaming, channel)
      | none => some (ended, channel)
  | streaming, .streamClosed => some (ended, channel)
  | _, _ => none

def accountTask (accountDeletionsTracked : List Pubkey) (account : Pubkey) :
    Bool → Channel → SubscriptionTask → SubscriptionEvent AccountNotification →
      Option (SubscriptionTask × Channel) :=
  SubscriptionTask.step (AccountNotification.toUpdate accountDeletionsTracked account)

def transactionTask : Bool → Channel → SubscriptionTask →
    SubscriptionEvent TransactionNotification → Option (SubscriptionTask × Channel) :=
  SubscriptionTask.step TransactionNotification.toUpdate

def maxMissedBlocks : UInt64 := 10

inductive ClockEvent where
  | wsMissing
  | subscribeFailed
  | subscribed
  | cancelled
  | slept (elapsedMillis : Nat)
  | clock (slot : Option UInt64)
  | streamClosed

inductive ClockTask where
  | starting
  | streaming (lastSlot : UInt64)
  | ended
  deriving DecidableEq

/-- The clock subscription.  The flag says that the task cancels the iteration's
token: it does on every exit, other than one a cancellation asks for. -/
def ClockTask.step (cancelled : Bool) : ClockTask → ClockEvent → Option (ClockTask × Bool)
  | starting, .wsMissing => some (ended, true)
  | starting, .subscribeFailed => some (ended, true)
  | starting, .subscribed => some (streaming 0, false)
  | streaming _, .cancelled => if cancelled then some (ended, false) else none
  | streaming lastSlot, .slept elapsedMillis =>
    if 5000 < elapsedMillis then some (ended, true) else some (streaming lastSlot, false)
  | streaming lastSlot, .clock slot =>
    match slot with
    | none => some (streaming lastSlot, false)
    | some currentSlot =>
      if 0 < lastSlot ∧ lastSlot + maxMissedBlocks < currentSlot then some (ended, true)
      else some (streaming currentSlot, false)
  | streaming _, .streamClosed => some (ended, true)
  | _, _ => none

/-! ## An iteration -/

structure Filters where
  accounts : List Pubkey
  transactions : Bool

/-- The tasks of one connection, its token and its supervisor, which has awaited
the first `joined` tasks. -/
structure Iteration where
  cancelled : Bool
  clock : ClockTask
  accounts : List (Pubkey × SubscriptionTask)
  transaction : Option SubscriptionTask
  joined : Nat
  finished : Bool

inductive IterationAction where
  | clock (event : ClockEvent)
  | account (idx : Nat) (event : SubscriptionEvent AccountNotification)
  | transaction (event : SubscriptionEvent TransactionNotification)
  | join
  | finish

namespace Iteration

def spawn (filters : Filters) : Iteration where
  cancelled := false
  clock := .starting
  accounts := filters.accounts.map fun account => (account, .starting)
  transaction := if filters.transactions then some .starting else none
  joined := 0
  finished := false

/-- The tasks in the order of `handles`; `true` for one that has ended. -/
def handles (it : Iteration) : List Bool :=
  decide (it.clock = .ended) :: it.accounts.map (fun p => decide (p.2 = .ended)) ++
    it.transaction.toList.map (fun task => decide (task = .ended))

def step (accountDeletionsTracked : List Pubkey) (mainCancelled : Bool) (channel : Channel)
    (it : Iteration) : IterationAction → Option (Iteration × Channel)
  | .clock event => do
    let (clock, cancels) ← it.clock.step (mainCancelled || it.cancelled) event
    return ({ it with clock := clock, cancelled := it.cancelled || cancels }, channel)
  | .account idx event => do
    let (account, task) ← it.accounts[idx]?
    let (task, channel) ← accountTask accountDeletionsTracked account
      (mainCancelled || it.cancelled) channel task event
    return ({ it with accounts := it.accounts.set idx (account, task) }, channel)
  | .transaction event => do
    let task ← it.transaction
    let (task, channel) ← transactionTask (mainCancelled || it.cancelled) channel task event
    return ({ it with transaction := some task }, channel)
  | .join =>
    if it.handles[it.joined]? = some true then
      some ({ it with joined := it.joined + 1 }, channel)
    else none
  | .finish =>
    if it.joined = it.handles.length then
      some ({ it with cancelled := true, finished := true }, channel)
    else none

end Iteration

/-! ## The reconnect loop -/

def maxReconnectionAttempts : Nat := 30

inductive Phase where
  | loopTop
  | connecting
  | running
  | sleeping
  | returned (result : Except CarbonError Unit)

inductive SelectBranch where
  | mainCancelled
  | iterationCancelled
  | supervisorFinished

inductive ConnectError where
  | client (err : String)
  | webSocket (err : String)

def ConnectError.giveUp : ConnectError → CarbonError
  | client err =>
    .custom s!"Failed to create Helius client after {maxReconnectionAttempts} attempts: {err}"
  | webSocket err =>
    .custom
      s!"Failed to create Enhanced Helius Websocket after {maxReconnectionAttempts} attempts: {err}"

structure State where
  filters : Filters
  accountDeletionsTracked : List Pubkey
  mainCancelled : Bool
  phase : Phase
  reconnectionAttempts : Nat
  current : Option Iteration
  past : List Iteration
  channel : Channel

inductive Action where
  | requestCancellation
  | checkCancellation
  | connectFailed (error : ConnectError)
  | connected
  | select (branch : SelectBranch)
  | wake
  | current (action : IterationAction)
  | past (idx : Nat) (action : IterationAction)
  | receive
  | closeChannel

def consume (filters : Filters) (accountDeletionsTracked : List Pubkey) (channel : Channel) :
    State where
  filters := filters
  accountDeletionsTracked := accountDeletionsTracked
  mainCancelled := false
  phase :=
    if filters.accounts.isEmpty && !filters.transactions then
      .returned (.error (.custom ("Error creating Filters for the Helius WebSocket: " ++
        "accounts and transactions can't be both empty")))
    else .loopTop
  reconnectionAttempts := 0
  current := none
  past := []
  channel := channel

def selectStep (s : State) (it : Iteration) : SelectBranch → Option State
  | .mainCancelled =>
    if s.mainCancelled then
      some { s with current := some { it with cancelled := true }, phase := .returned (.ok ()) }
    else none
  | .iterationCancelled =>
    if it.cancelled then some { s with reconnectionAttempts := 0, phase := .sleeping } else none
  | .supervisorFinished =>
    if it.finished then some { s with reconnectionAttempts := 0, phase := .sleeping } else none

def step (s : State) : Action → Option State
  | .requestCancellation => some { s with mainCancelled := true }
  | .checkCancellation =>
    match s.phase with
    | .loopTop =>
      some { s with phase := if s.mainCancelled then .returned (.ok ()) else .connecting }
    | _ => none
  | .connectFailed error =>
    match s.phase with
    | .connecting =>
      let attempts := s.reconnectionAttempts + 1
      some { s with
        reconnectionAttempts := attempts
        phase := if maxReconnectionAttempts ≤ attempts then .returned (.error error.giveUp)
          else .sleeping }
    | _ => none
  | .connected =>
    match s.phase with
    | .connecting =>
      some { s with
        phase := .running
        current := some (Iteration.spawn s.filters)
        past := s.past ++ s.current.toList }
    | _ => none
  | .select branch =>
    match s.phase, s.current with
    | .running, some it => selectStep s it branch
    | _, _ => none
  | .wake =>
    match s.phase with
    | .sleeping => some { s with phase := .loopTop }
    | _ => none
  | .current action => do
    let it ← s.current
    let (it, channel) ← it.step s.accountDeletionsTracked s.mainCancelled s.channel action
    return { s with current := some it, channel := channel }
  | .past idx action => do
    let it ← s.past[idx]?
    let (it, channel) ← it.step s.accountDeletionsTracked s.mainCancelled s.channel action
    return { s with past := s.past.set idx it, channel := channel }
  | .receive =>
    match s.channel.queued with
    | _ :: rest => some { s with channel := { s.channel with queued := rest } }
    | [] => none
  | .closeChannel => some { s with channel := { s.channel with closed := true } }

end HeliusWebsocket

end OmnipairIndexer
