/-
The programs around the `swaps` table.

The indexer inserts swaps and pools, the trigger notifies the enricher and the
gRPC listener, and the enricher and the backfill update volumes.  Each process has
its own queue of notifications, in commit order.  A step is one step of one
process, so a run is one interleaving of all of them.
-/
import OmnipairIndexer.Scripts.BackfillVolume
import OmnipairIndexer.Scripts.VolumeEnricher

namespace OmnipairIndexer

namespace Stream

structure Settings where
  priceCacheTtl : Nat
  dedupTimeout : Nat

structure System (N : Type) where
  table : SwapTable
  pools : String → Option PoolInfo
  enricher : Enricher N
  backfill : Option (Backfill N)
  listenerQueue : List SwapPayload
  listener : DbListener.State

inductive Action (N : Type) where
  | insertSwap (cols : SwapColumns)
  | insertPool (pair : String) (poolInfo : PoolInfo)
  | enricher (action : EnricherAction N)
  | startBackfill (pairFilter : Option String) (maxLimit : Option Int) (batchSize : Nat)
  | backfill (action : BackfillAction N)
  | notification (now : Nat)
  | tick (now : Nat) (timedOut : List String)

variable {N : Type}

/-- No swap yet, and the processes just started. -/
def System.start (pools : String → Option PoolInfo) : System N :=
  ⟨.empty, pools, .start, none, [], DbListener.start⟩

/-- `pg_notify` to the two processes that listen on `swap_updates`. -/
def notify (payloads : List SwapPayload) (s : System N) : System N :=
  { s with
    enricher := { s.enricher with queue := s.enricher.queue ++ payloads }
    listenerQueue := s.listenerQueue ++ payloads }

/-- Run the update of a step, if it makes one. -/
def execute (s : System N) : Option VolumeUpdate → Option (System N)
  | none => some s
  | some u => (s.table.update u.volumeUsd u.txSig u.order).map fun (table, payloads) =>
      notify payloads { s with table := table }

def updater (s : System N) : Action N → Option Trade
  | .enricher action => s.enricher.updater action
  | .backfill action => s.backfill.bind fun b => b.updater action
  | _ => none

variable [JsNumber N]

def step (settings : Settings) (s : System N) : Action N → Option (System N)
  | .insertSwap cols => (s.table.insert cols).map fun (table, payloads) =>
      notify payloads { s with table := table }
  | .insertPool pair poolInfo =>
    if s.pools pair = none then
      some { s with pools := Function.update s.pools pair (some poolInfo) }
    else none
  | .enricher action => do
    let (enricher, update) ← s.enricher.step settings.priceCacheTtl s.pools action
    execute { s with enricher := enricher } update
  | .startBackfill pairFilter maxLimit batchSize =>
    match s.backfill.map Backfill.phase with
    | none | some .finished =>
      some { s with backfill := some (.start pairFilter maxLimit batchSize) }
    | _ => none
  | .backfill action => do
    let backfill ← s.backfill
    let (backfill, update) ← backfill.step s.table s.pools action
    execute { s with backfill := some backfill } update
  | .notification now =>
    match s.listenerQueue with
    | payload :: queue =>
      (DbListener.step settings.dedupTimeout s.listener (.notification now payload.parsed)).map
        fun listener => { s with listenerQueue := queue, listener := listener }
    | [] => none
  | .tick now timedOut =>
    (DbListener.step settings.dedupTimeout s.listener (.tick now timedOut)).map
      fun listener => { s with listener := listener }

/-! ## What a step does -/

variable {settings : Settings} {s t : System N} {action : Action N}

omit [JsNumber N] in
theorem execute_some {u : VolumeUpdate} (h : execute s (some u) = some t) :
    u.order.Perm ((s.table.withVolume u.volumeUsd u.txSig).rowsOf u.txSig) ∧
      t = notify (u.order.map (notifySwapUpdated "UPDATE"))
        { s with table := s.table.withVolume u.volumeUsd u.txSig } := by
  simp only [execute, SwapTable.update, Option.map_eq_some_iff, Option.ite_none_right_eq_some,
    Option.some.injEq] at h
  obtain ⟨_, ⟨horder, rfl⟩, rfl⟩ := h
  exact ⟨horder, rfl⟩

theorem step_insertSwap {cols : SwapColumns} (h : step settings s (.insertSwap cols) = some t) :
    t = notify [notifySwapUpdated "INSERT" (s.table.newRow cols)]
      { s with table := s.table.push cols } := by
  simp only [step, SwapTable.insert, Option.map_eq_some_iff, Option.ite_none_right_eq_some,
    Option.some.injEq] at h
  obtain ⟨_, ⟨-, rfl⟩, rfl⟩ := h
  rfl

theorem step_insertPool {pair : String} {poolInfo : PoolInfo}
    (h : step settings s (.insertPool pair poolInfo) = some t) :
    s.pools pair = none ∧ t = { s with pools := Function.update s.pools pair (some poolInfo) } := by
  simp only [step, Option.ite_none_right_eq_some, Option.some.injEq] at h
  exact ⟨h.1, h.2.symm⟩

theorem step_enricher {act : EnricherAction N} (h : step settings s (.enricher act) = some t) :
    ∃ enricher update,
      s.enricher.step settings.priceCacheTtl s.pools act = some (enricher, update) ∧
      execute { s with enricher := enricher } update = some t := by
  simp only [step, Option.bind_eq_bind, Option.bind_eq_some_iff] at h
  obtain ⟨⟨enricher, update⟩, hstep, hexec⟩ := h
  exact ⟨enricher, update, hstep, hexec⟩

theorem step_startBackfill {pairFilter : Option String} {maxLimit : Option Int} {batchSize : Nat}
    (h : step settings s (.startBackfill pairFilter maxLimit batchSize) = some t) :
    t = { s with backfill := some (.start pairFilter maxLimit batchSize) } := by
  simp only [step] at h
  split at h <;> cases h <;> rfl

theorem step_backfill {act : BackfillAction N} (h : step settings s (.backfill act) = some t) :
    ∃ old backfill update, s.backfill = some old ∧
      old.step s.table s.pools act = some (backfill, update) ∧
      execute { s with backfill := some backfill } update = some t := by
  simp only [step, Option.bind_eq_bind, Option.bind_eq_some_iff] at h
  obtain ⟨old, hold, ⟨backfill, update⟩, hstep, hexec⟩ := h
  exact ⟨old, backfill, update, hold, hstep, hexec⟩

theorem step_notification {now : Nat} (h : step settings s (.notification now) = some t) :
    ∃ payload queue, s.listenerQueue = payload :: queue ∧
      t = { s with
        listenerQueue := queue
        listener := DbListener.handle now payload.parsed { s.listener with clock := now } } := by
  simp only [step] at h
  split at h
  · rename_i payload queue hqueue
    simp only [DbListener.step, Option.map_eq_some_iff, Option.ite_none_right_eq_some,
      Option.some.injEq] at h
    obtain ⟨_, ⟨-, rfl⟩, rfl⟩ := h
    exact ⟨payload, queue, hqueue, rfl⟩
  · cases h

theorem step_tick {now : Nat} {timedOut : List String}
    (h : step settings s (.tick now timedOut) = some t) :
    timedOut.Perm (DbListener.timedOut settings.dedupTimeout now s.listener) ∧
      t = { s with
        listener := timedOut.foldl DbListener.flush { s.listener with clock := now } } := by
  simp only [step, DbListener.step, Option.map_eq_some_iff, Option.ite_none_right_eq_some,
    Option.some.injEq] at h
  obtain ⟨_, ⟨⟨-, horder⟩, rfl⟩, rfl⟩ := h
  exact ⟨horder, rfl⟩

/-! ## A run with two swaps of one transaction -/

def swapOf (amountIn : String) (timestamp : Nat) : SwapColumns where
  pair := "pair"
  isToken0In := true
  amountIn := amountIn
  amountOut := "1"
  txSig := "tx"
  userAddress := "user"
  reserve0 := "1"
  reserve1 := "1"
  timestamp := timestamp
  slot := "7"
  feePaid0 := "0"
  feePaid1 := "0"

def onePool : String → Option PoolInfo := fun pair =>
  if pair = "pair" then some ⟨"x", "y"⟩ else none

/-- Both swaps are inserted and enriched one after the other. -/
def enrichedInTurn : List (Action ℚ) :=
  let handler (idx : Nat) (action : HandlerAction ℚ) : Action ℚ := .enricher (.handler idx action)
  let rows (volumeUsd : String) : List Swap :=
    [⟨swapOf "10" 1, 1, none, some volumeUsd⟩, ⟨swapOf "20" 2, 2, none, some volumeUsd⟩]
  [.insertSwap (swapOf "10" 1), .insertSwap (swapOf "20" 2), .enricher .deliver,
    .enricher .deliver, handler 0 (.poolQuery true), handler 0 (.readPrices 0),
    handler 0 (.response 0 (some fun _ => some ⟨some 1, some 0⟩)),
    handler 0 (.update (some (rows "10"))), handler 1 (.poolQuery true), handler 1 (.readPrices 0),
    handler 1 (.update (some (rows "20")))]

def defaults : Settings := ⟨30000, 5⟩

end Stream

end OmnipairIndexer
