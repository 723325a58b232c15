/-
`database.rs`: the nine `upsert_*` functions.

A call runs in a `CallEnv`, which resolves everything the program does not
decide: whether the pool has been initialized, what the clocks show, and which
statements the driver fails.  A statement that reaches the database fails only
when a value is outside the range of its `BIGINT` column.

Each function is the list of its statements with the text it puts in front of a
driver error.  `UpsertCall` names the nine functions with their arguments, as a
processor calls them, and `perform` runs one against a `World`, which supplies a
fresh environment to every call.
-/
import OmnipairIndexer.Library.Binary64
import OmnipairIndexer.Core.Pipeline
import OmnipairIndexer.Indexer.Schema

namespace OmnipairIndexer

open Fallible Binary64

/-- What one call of an `upsert_*` function finds outside the program. -/
structure CallEnv where
  poolReady : Bool
  /-- The first reading of `chrono::Utc::now()` in the call. -/
  eventTimestamp : Instant
  /-- The second one, where there is a second. -/
  updatedAt : Instant
  /-- `now()` in the database while the n-th statement runs. -/
  now : Nat → Instant
  /-- The driver error of the n-th statement, if it never reaches the table. -/
  fault : Nat → Option String

def CallEnv.stamp (env : CallEnv) (i : Nat) : Stamp :=
  ⟨env.eventTimestamp, env.updatedAt, env.now i⟩

/-- Nothing outside the program fails. -/
def CallEnv.Healthy (env : CallEnv) : Prop := env.poolReady = true ∧ ∀ i, env.fault i = none

def CallEnv.healthyAt (t : Instant) : CallEnv := ⟨true, t, t, fun _ => t, fun _ => none⟩

theorem CallEnv.healthyAt_healthy (t : Instant) : (healthyAt t).Healthy := ⟨rfl, fun _ => rfl⟩

def getDbPool (env : CallEnv) : Action CarbonError Database := fun db =>
  if env.poolReady then (.ok (), db)
  else (.error (.custom "Database pool not initialized. Call init_db_pool() first"), db)

/-- How Postgres rejects a `NUMERIC` value outside the range of a `BIGINT`. -/
def outOfRange : String := "error returned from database: bigint out of range"

def Statement.error? (env : CallEnv) (i : Nat) (st : Statement) : Option String :=
  (env.fault i).or (if st.InRange then none else some outOfRange)

/-- Execute the i-th statement of a call, with the text that goes in front of its
error. -/
def execute (env : CallEnv) (i : Nat) (failedTo : String) (st : Statement) :
    Action CarbonError Database := fun db =>
  match st.error? env i with
  | some e => (.error (.custom (failedTo ++ e)), db)
  | none => (.ok (), st.apply (env.stamp i) db)

/-! ## The upsert functions -/

section Upserts

variable (txSignature : String) (slot : Int64) (env : CallEnv)

/-- The fee a swap event reports; the subtraction wraps. -/
def SwapEvent.feeAmount (swapEvent : SwapEvent) : UInt64 :=
  swapEvent.amountIn - swapEvent.amountInAfterFee

/-- A fee in one token, valued in the other at the ratio of the reserves. -/
def convertFee (reserveTo reserveFrom feeAmount : UInt64) : UInt64 :=
  (((F64.ofUInt64 reserveTo).div (F64.ofUInt64 reserveFrom)).mul (F64.ofUInt64 feeAmount)).toUInt64

def SwapEvent.feePaid0 (swapEvent : SwapEvent) : UInt64 :=
  if swapEvent.isToken0In then swapEvent.feeAmount
  else convertFee swapEvent.reserve0 swapEvent.reserve1 swapEvent.feeAmount

def SwapEvent.feePaid1 (swapEvent : SwapEvent) : UInt64 :=
  if swapEvent.isToken0In then
    convertFee swapEvent.reserve1 swapEvent.reserve0 swapEvent.feeAmount
  else swapEvent.feeAmount

def SwapEvent.row (swapEvent : SwapEvent) (txSignature : String) (slot : Int64) : SwapRow where
  pair := swapEvent.metadata.pair
  userAddress := swapEvent.metadata.signer
  isToken0In := swapEvent.isToken0In
  amountIn := swapEvent.amountIn.toNat
  amountOut := swapEvent.amountOut.toNat
  reserve0 := swapEvent.reserve0.toNat
  reserve1 := swapEvent.reserve1.toNat
  txSig := txSignature
  slot := slot.toInt
  feePaid0 := swapEvent.feePaid0.toNat
  feePaid1 := swapEvent.feePaid1.toNat

/-- Upsert a swap event into the database (handles duplicate tx_sig). -/
def upsertSwapEvent (swapEvent : SwapEvent) : Action CarbonError Database :=
  andThen (getDbPool env)
    (execute env 0 "Failed to upsert swap: "
      (.swaps (swapEvent.row txSignature slot)))

def MintEvent.row (event : MintEvent) (txSignature : String) : AdjustLiquidityRow where
  pair := event.metadata.pair
  userAddress := event.metadata.signer
  amount0 := event.amount0.toNat
  amount1 := event.amount1.toNat
  liquidity := event.liquidity.toNat
  txSig := txSignature
  eventType := .add
  slot := event.metadata.slot.toNat

def upsertMintEvent (event : MintEvent) : Action CarbonError Database :=
  andThen (getDbPool env)
    (execute env 0 "Failed to upsert mint event: "
      (.adjustLiquidity (event.row txSignature)))

def BurnEvent.row (event : BurnEvent) (txSignature : String) : AdjustLiquidityRow where
  pair := event.metadata.pair
  userAddress := event.metadata.signer
  amount0 := event.amount0.toNat
  amount1 := event.amount1.toNat
  liquidity := event.liquidity.toNat
  txSig := txSignature
  eventType := .remove
  slot := event.metadata.slot.toNat

def upsertBurnEvent (event : BurnEvent) : Action CarbonError Database :=
  andThen (getDbPool env)
    (execute env 0 "Failed to upsert burn event: "
      (.adjustLiquidity (event.row txSignature)))

def AdjustCollateralEvent.row (event : AdjustCollateralEvent) (txSignature : String)
    (slot : Int64) : AdjustEventRow where
  pair := event.metadata.pair
  signer := event.metadata.signer
  amount0 := event.amount0.toInt
  amount1 := event.amount1.toInt
  transactionSignature := txSignature
  slot := slot.toInt

def upsertAdjustCollateralEvent (event : AdjustCollateralEvent) : Action CarbonError Database :=
  andThen (getDbPool env)
    (execute env 0 "Failed to upsert adjust collateral event: "
      (.adjustCollateralEvents (event.row txSignature slot)))

def AdjustDebtEvent.row (event : AdjustDebtEvent) (txSignature : String) (slot : Int64) :
    AdjustEventRow where
  pair := event.metadata.pair
  signer := event.metadata.signer
  amount0 := event.amount0.toInt
  amount1 := event.amount1.toInt
  transactionSignature := txSignature
  slot := slot.toInt

def upsertAdjustDebtEvent (event : AdjustDebtEvent) : Action CarbonError Database :=
  andThen (getDbPool env)
    (execute env 0 "Failed to upsert adjust debt event: "
      (.adjustDebtEvents (event.row txSignature slot)))

def UserPositionUpdatedEvent.row (event : UserPositionUpdatedEvent) (txSignature : String)
    (slot : Int64) : UserPositionUpdatedRow where
  pair := event.metadata.pair
  signer := event.metadata.signer
  position := event.position
  collateral0 := event.collateral0.toNat
  collateral1 := event.collateral1.toNat
  debt0Shares := event.debt0Shares.toNat
  debt1Shares := event.debt1Shares.toNat
  collateral0LiquidationCfBps := event.collateral0LiquidationCfBps.toNat
  collateral1LiquidationCfBps := event.collateral1LiquidationCfBps.toNat
  collateral0MaxCfBps := event.collateral0MaxCfBps.toNat
  collateral1MaxCfBps := event.collateral1MaxCfBps.toNat
  transactionSignature := txSignature
  slot := slot.toInt

def UserPositionUpdatedEvent.borrowRow (event : UserPositionUpdatedEvent) (slot : Int64) :
    UserBorrowPositionRow where
  pair := event.metadata.pair
  signer := event.metadata.signer
  position := event.position
  collateral0 := event.collateral0.toNat
  collateral1 := event.collateral1.toNat
  debt0Shares := event.debt0Shares.toNat
  debt1Shares := event.debt1Shares.toNat
  collateral0LiquidationCfBps := event.collateral0LiquidationCfBps.toNat
  collateral1LiquidationCfBps := event.collateral1LiquidationCfBps.toNat
  collateral0MaxCfBps := event.collateral0MaxCfBps.toNat
  collateral1MaxCfBps := event.collateral1MaxCfBps.toNat
  slot := slot.toInt

/-- The event history first, then the latest position of the pair and signer. -/
def upsertUserPositionUpdatedEvent (event : UserPositionUpdatedEvent) :
    Action CarbonError Database :=
  andThen (getDbPool env)
    (andThen
      (execute env 0 "Failed to upsert user position updated event: "
        (.userPositionUpdatedEvents (event.row txSignature slot)))
      (execute env 1 "Failed to upsert user borrow position: "
        (.userBorrowPositions (event.borrowRow slot))))

def UserPositionLiquidatedEvent.row (event : UserPositionLiquidatedEvent) (txSignature : String)
    (slot : Int64) : UserPositionLiquidatedRow where
  pair := event.metadata.pair
  signer := event.metadata.signer
  position := event.position
  liquidator := event.liquidator
  collateral0Liquidated := event.collateral0Liquidated.toNat
  collateral1Liquidated := event.collateral1Liquidated.toNat
  debt0Liquidated := event.debt0Liquidated.toNat
  debt1Liquidated := event.debt1Liquidated.toNat
  collateralPrice := event.collateralPrice.toNat
  shortfall := event.shortfall.toNat
  liquidationBonusApplied := event.liquidationBonusApplied.toNat
  k0 := event.k0.toNat
  k1 := event.k1.toNat
  transactionSignature := txSignature
  slot := slot.toInt

def upsertUserPositionLiquidatedEvent (event : UserPositionLiquidatedEvent) :
    Action CarbonError Database :=
  andThen (getDbPool env)
    (execute env 0 "Failed to upsert user position liquidated event: "
      (.userPositionLiquidatedEvents (event.row txSignature slot)))

/-- The `u64` parameters go through `as i64`, which keeps the bits. -/
def PairCreatedEvent.row (event : PairCreatedEvent) : PoolRow where
  pairAddress := event.metadata.pair
  token0 := event.token0
  token1 := event.token1
  lpMint := event.lpMint
  rateModel := event.rateModel
  swapFeeBps := event.swapFeeBps.toNat
  halfLife := event.halfLife.toInt64.toInt
  fixedCfBps := event.fixedCfBps.map fun bps => bps.toNat
  paramsHash := event.paramsHash
  version := event.version.toNat
  targetUtilStartBps := event.targetUtilStartBps.toInt64.toInt
  targetUtilEndBps := event.targetUtilEndBps.toInt64.toInt
  rateHalfLifeMs := event.rateHalfLifeMs.toInt64.toInt
  minRateBps := event.minRateBps.toInt64.toInt
  maxRateBps := event.maxRateBps.toInt64.toInt

def upsertPairCreatedEvent (event : PairCreatedEvent) : Action CarbonError Database :=
  andThen (getDbPool env)
    (execute env 0 "Failed to upsert pair created event: " (.pools event.row))

def UserLiquidityPositionUpdatedEvent.logRow (event : UserLiquidityPositionUpdatedEvent) :
    UserLpPositionUpdatedRow where
  pairAddress := event.metadata.pair
  lpAmount := event.lpAmount.toNat
  amount0 := event.token0Amount.toNat
  amount1 := event.token1Amount.toNat
  signer := event.metadata.signer
  slot := event.metadata.slot.toNat

def UserLiquidityPositionUpdatedEvent.row (event : UserLiquidityPositionUpdatedEvent) :
    UserLiquidityPositionRow where
  pair := event.metadata.pair
  signer := event.metadata.signer
  token0Mint := event.token0Mint
  token1Mint := event.token1Mint
  amount0 := event.token0Amount.toNat
  amount1 := event.token1Amount.toNat
  lpMint := event.lpMint
  lpAmount := event.lpAmount.toNat
  slot := event.metadata.slot.toNat

/-- The log row first (always inserts), then the latest position. -/
def upsertUserLiquidityPositionUpdatedEvent (event : UserLiquidityPositionUpdatedEvent) :
    Action CarbonError Database :=
  andThen (getDbPool env)
    (andThen
      (execute env 0 "Failed to insert user liquidity position updated event: "
        (.userLpPositionUpdatedEvents event.logRow))
      (execute env 1 "Failed to upsert user liquidity position: "
        (.userLiquidityPositions event.row)))

end Upserts

/-! ## Calls -/

/-- The events a processor hands to an upsert function. -/
inductive PersistedEvent where
  | swap (event : SwapEvent)
  | mint (event : MintEvent)
  | burn (event : BurnEvent)
  | adjustCollateral (event : AdjustCollateralEvent)
  | adjustDebt (event : AdjustDebtEvent)
  | userPositionUpdated (event : UserPositionUpdatedEvent)
  | userPositionLiquidated (event : UserPositionLiquidatedEvent)
  | pairCreated (event : PairCreatedEvent)
  | userLiquidityPositionUpdated (event : UserLiquidityPositionUpdatedEvent)
  deriving DecidableEq

structure UpsertCall where
  event : PersistedEvent
  txSignature : String
  slot : Int64
  deriving DecidableEq

namespace UpsertCall

def run (c : UpsertCall) (env : CallEnv) : Action CarbonError Database :=
  match c.event with
  | .swap event => upsertSwapEvent c.txSignature c.slot env event
  | .mint event => upsertMintEvent c.txSignature env event
  | .burn event => upsertBurnEvent c.txSignature env event
  | .adjustCollateral event => upsertAdjustCollateralEvent c.txSignature c.slot env event
  | .adjustDebt event => upsertAdjustDebtEvent c.txSignature c.slot env event
  | .userPositionUpdated event => upsertUserPositionUpdatedEvent c.txSignature c.slot env event
  | .userPositionLiquidated event =>
    upsertUserPositionLiquidatedEvent c.txSignature c.slot env event
  | .pairCreated event => upsertPairCreatedEvent env event
  | .userLiquidityPositionUpdated event => upsertUserLiquidityPositionUpdatedEvent env event

def statements (c : UpsertCall) : List (Nat × Statement) :=
  match c.event with
  | .swap event => [(0, .swaps (event.row c.txSignature c.slot))]
  | .mint event => [(0, .adjustLiquidity (event.row c.txSignature))]
  | .burn event => [(0, .adjustLiquidity (event.row c.txSignature))]
  | .adjustCollateral event =>
    [(0, .adjustCollateralEvents (event.row c.txSignature c.slot))]
  | .adjustDebt event => [(0, .adjustDebtEvents (event.row c.txSignature c.slot))]
  | .userPositionUpdated event =>
    [(0, .userPositionUpdatedEvents (event.row c.txSignature c.slot)),
      (1, .userBorrowPositions (event.borrowRow c.slot))]
  | .userPositionLiquidated event =>
    [(0, .userPositionLiquidatedEvents (event.row c.txSignature c.slot))]
  | .pairCreated event => [(0, .pools event.row)]
  | .userLiquidityPositionUpdated event =>
    [(0, .userLpPositionUpdatedEvents event.logRow),
      (1, .userLiquidityPositions event.row)]

end UpsertCall

/-- The database and what is still to come from outside. -/
structure World where
  db : Database
  env : Nat → CallEnv
  calls : Nat

/-- An empty database in which call number `i` runs at instant `i` and nothing
outside the program fails. -/
def World.fresh : World := ⟨Database.empty, fun i => CallEnv.healthyAt i, 0⟩

def World.perform (c : UpsertCall) : Action CarbonError World := fun w =>
  let (result, db) := c.run (w.env w.calls) w.db
  (result, { w with db := db, calls := w.calls + 1 })

end OmnipairIndexer
