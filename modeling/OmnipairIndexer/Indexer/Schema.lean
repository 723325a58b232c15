/-
The tables the indexer writes, after the migrations.

A row type lists the columns a statement of the indexer supplies, under their
SQL names, except the columns that hold a clock reading: a `Clocked` row carries
those next to the others, so "the same up to wall-clock columns" is equality of
`cols`.  Serial ids come from `Relational.SerialTable`.

Keys are used as they are where the SQL stores their Base58 text, and `NUMERIC`
columns hold integers, the only numbers bound to them.  `BIGINT` columns are the
ones whose range can reject a statement; `Statement.bigints` lists what a
statement puts into them.
-/
import Mathlib.Algebra.Group.Int.Defs
import OmnipairIndexer.Library.Table
import OmnipairIndexer.Decoder.Types

namespace OmnipairIndexer

open Relational

/-- A `TIMESTAMPTZ`, in microseconds. -/
abbrev Instant := Int

/-- A row and its wall-clock columns. -/
structure Clocked (ρ τ : Type) where
  cols : ρ
  clock : τ
  deriving DecidableEq

inductive LiquidityEventType where
  | add
  | remove
  | mint
  | burn
  deriving DecidableEq, Repr

/-! ## Rows -/

structure PoolRow where
  pairAddress : Pubkey
  token0 : Pubkey
  token1 : Pubkey
  lpMint : Pubkey
  rateModel : Pubkey
  swapFeeBps : Int
  halfLife : Int
  fixedCfBps : Option Int
  paramsHash : List UInt8
  version : Int
  targetUtilStartBps : Int
  targetUtilEndBps : Int
  rateHalfLifeMs : Int
  minRateBps : Int
  maxRateBps : Int
  deriving DecidableEq

structure SwapRow where
  pair : Pubkey
  userAddress : Pubkey
  isToken0In : Bool
  amountIn : Int
  amountOut : Int
  reserve0 : Int
  reserve1 : Int
  txSig : String
  slot : Int
  feePaid0 : Int
  feePaid1 : Int
  deriving DecidableEq

structure AdjustLiquidityRow where
  pair : Pubkey
  userAddress : Pubkey
  amount0 : Int
  amount1 : Int
  liquidity : Int
  txSig : String
  eventType : LiquidityEventType
  slot : Int
  deriving DecidableEq

/-- `adjust_collateral_events` and `adjust_debt_events` have the same columns. -/
structure AdjustEventRow where
  pair : Pubkey
  signer : Pubkey
  amount0 : Int
  amount1 : Int
  transactionSignature : String
  slot : Int
  deriving DecidableEq

structure UserPositionUpdatedRow where
  pair : Pubkey
  signer : Pubkey
  position : Pubkey
  collateral0 : Int
  collateral1 : Int
  debt0Shares : Int
  debt1Shares : Int
  collateral0LiquidationCfBps : Int
  collateral1LiquidationCfBps : Int
  collateral0MaxCfBps : Int
  collateral1MaxCfBps : Int
  transactionSignature : String
  slot : Int
  deriving DecidableEq

structure UserPositionLiquidatedRow where
  pair : Pubkey
  signer : Pubkey
  position : Pubkey
  liquidator : Pubkey
  collateral0Liquidated : Int
  collateral1Liquidated : Int
  debt0Liquidated : Int
  debt1Liquidated : Int
  collateralPrice : Int
  shortfall : Int
  liquidationBonusApplied : Int
  k0 : Int
  k1 : Int
  transactionSignature : String
  slot : Int
  deriving DecidableEq

structure UserLpPositionUpdatedRow where
  pairAddress : Pubkey
  lpAmount : Int
  amount0 : Int
  amount1 : Int
  signer : Pubkey
  slot : Int
  deriving DecidableEq

structure UserBorrowPositionRow where
  pair : Pubkey
  signer : Pubkey
  position : Pubkey
  collateral0 : Int
  collateral1 : Int
  debt0Shares : Int
  debt1Shares : Int
  collateral0LiquidationCfBps : Int
  collateral1LiquidationCfBps : Int
  collateral0MaxCfBps : Int
  collateral1MaxCfBps : Int
  slot : Int
  deriving DecidableEq

structure UserLiquidityPositionRow where
  pair : Pubkey
  signer : Pubkey
  token0Mint : Pubkey
  token1Mint : Pubkey
  amount0 : Int
  amount1 : Int
  lpMint : Pubkey
  lpAmount : Int
  slot : Int
  deriving DecidableEq

/-- The clock columns of `user_borrow_positions`. -/
structure PositionClock where
  eventTimestamp : Instant
  updatedAt : Instant
  deriving DecidableEq

/-! ## Unique constraints -/

/-- `pools.pair_address UNIQUE`. -/
def PoolRow.key (r : PoolRow) : Pubkey := r.pairAddress

/-- `CONSTRAINT tx_sig UNIQUE (tx_sig, "timestamp")`. -/
def SwapRow.key (r : Clocked SwapRow Instant) : String × Instant := (r.cols.txSig, r.clock)

/-- `UNIQUE (tx_sig, "timestamp")`. -/
def AdjustLiquidityRow.key (r : Clocked AdjustLiquidityRow Instant) : String × Instant :=
  (r.cols.txSig, r.clock)

/-- `transaction_signature UNIQUE`. -/
def AdjustEventRow.key (r : Clocked AdjustEventRow Instant) : String :=
  r.cols.transactionSignature

/-- `transaction_signature UNIQUE`. -/
def UserPositionUpdatedRow.key (r : Clocked UserPositionUpdatedRow Instant) : String :=
  r.cols.transactionSignature

/-- `transaction_signature UNIQUE`. -/
def UserPositionLiquidatedRow.key (r : Clocked UserPositionLiquidatedRow Instant) : String :=
  r.cols.transactionSignature

/-- `PRIMARY KEY (pair, signer)`. -/
def UserBorrowPositionRow.key (r : Clocked UserBorrowPositionRow PositionClock) :
    Pubkey × Pubkey :=
  (r.cols.pair, r.cols.signer)

/-- `PRIMARY KEY (signer, pair)`. -/
def UserLiquidityPositionRow.key (r : Clocked UserLiquidityPositionRow Instant) :
    Pubkey × Pubkey :=
  (r.cols.pair, r.cols.signer)

structure Database where
  pools : SerialTable PoolRow.key
  swaps : SerialTable SwapRow.key
  adjustLiquidity : SerialTable AdjustLiquidityRow.key
  adjustCollateralEvents : SerialTable AdjustEventRow.key
  adjustDebtEvents : SerialTable AdjustEventRow.key
  userPositionUpdatedEvents : SerialTable UserPositionUpdatedRow.key
  userPositionLiquidatedEvents : SerialTable UserPositionLiquidatedRow.key
  userLpPositionUpdatedEvents : Log (Clocked UserLpPositionUpdatedRow Instant)
  userBorrowPositions : Table UserBorrowPositionRow.key
  userLiquidityPositions : Table UserLiquidityPositionRow.key

def Database.empty : Database :=
  ⟨.empty, .empty, .empty, .empty, .empty, .empty, .empty, .empty, .empty, .empty⟩

/-! ## Conflict clauses

Each `SET` list is the one of the statement; its `keeps_key` says that it leaves
the columns of its conflict target as they are.
-/

def PoolRow.onConflict : OnConflict PoolRow.key where
  set old excluded :=
    { old with
      token0 := excluded.token0
      token1 := excluded.token1
      lpMint := excluded.lpMint
      rateModel := excluded.rateModel
      swapFeeBps := excluded.swapFeeBps
      halfLife := excluded.halfLife
      fixedCfBps := excluded.fixedCfBps
      paramsHash := excluded.paramsHash
      version := excluded.version
      targetUtilStartBps := excluded.targetUtilStartBps
      targetUtilEndBps := excluded.targetUtilEndBps
      rateHalfLifeMs := excluded.rateHalfLifeMs
      minRateBps := excluded.minRateBps
      maxRateBps := excluded.maxRateBps }
  keeps_key _ _ h := h

def SwapRow.onConflict : OnConflict SwapRow.key where
  set old excluded :=
    { cols :=
        { old.cols with
          pair := excluded.cols.pair
          userAddress := excluded.cols.userAddress
          isToken0In := excluded.cols.isToken0In
          amountIn := excluded.cols.amountIn
          amountOut := excluded.cols.amountOut
          reserve0 := excluded.cols.reserve0
          reserve1 := excluded.cols.reserve1
          slot := excluded.cols.slot
          feePaid0 := excluded.cols.feePaid0
          feePaid1 := excluded.cols.feePaid1 }
      clock := excluded.clock }
  keeps_key _ _ h := congrArg₂ Prod.mk (congrArg Prod.fst h) rfl

def AdjustLiquidityRow.onConflict : OnConflict AdjustLiquidityRow.key where
  set old excluded :=
    { cols :=
        { old.cols with
          pair := excluded.cols.pair
          userAddress := excluded.cols.userAddress
          amount0 := excluded.cols.amount0
          amount1 := excluded.cols.amount1
          liquidity := excluded.cols.liquidity
          eventType := excluded.cols.eventType
          slot := excluded.cols.slot }
      clock := excluded.clock }
  keeps_key _ _ h := congrArg₂ Prod.mk (congrArg Prod.fst h) rfl

def AdjustEventRow.onConflict : OnConflict AdjustEventRow.key where
  set old excluded :=
    { cols :=
        { old.cols with
          pair := excluded.cols.pair
          signer := excluded.cols.signer
          amount0 := excluded.cols.amount0
          amount1 := excluded.cols.amount1
          slot := excluded.cols.slot }
      clock := excluded.clock }
  keeps_key _ _ h := h

def UserPositionUpdatedRow.onConflict : OnConflict UserPositionUpdatedRow.key where
  set old excluded :=
    { cols :=
        { old.cols with
          pair := excluded.cols.pair
          signer := excluded.cols.signer
          position := excluded.cols.position
          collateral0 := excluded.cols.collateral0
          collateral1 := excluded.cols.collateral1
          debt0Shares := excluded.cols.debt0Shares
          debt1Shares := excluded.cols.debt1Shares
          collateral0LiquidationCfBps := excluded.cols.collateral0LiquidationCfBps
          collateral1LiquidationCfBps := excluded.cols.collateral1LiquidationCfBps
          collateral0MaxCfBps := excluded.cols.collateral0MaxCfBps
          collateral1MaxCfBps := excluded.cols.collateral1MaxCfBps
          slot := excluded.cols.slot }
      clock := excluded.clock }
  keeps_key _ _ h := h

def UserPositionLiquidatedRow.onConflict : OnConflict UserPositionLiquidatedRow.key where
  set old excluded :=
    { cols :=
        { old.cols with
          pair := excluded.cols.pair
          signer := excluded.cols.signer
          position := excluded.cols.position
          liquidator := excluded.cols.liquidator
          collateral0Liquidated := excluded.cols.collateral0Liquidated
          collateral1Liquidated := excluded.cols.collateral1Liquidated
          debt0Liquidated := excluded.cols.debt0Liquidated
          debt1Liquidated := excluded.cols.debt1Liquidated
          collateralPrice := excluded.cols.collateralPrice
          shortfall := excluded.cols.shortfall
          liquidationBonusApplied := excluded.cols.liquidationBonusApplied
          k0 := excluded.cols.k0
          k1 := excluded.cols.k1
          slot := excluded.cols.slot }
      clock := excluded.clock }
  keeps_key _ _ h := h

/-- `ON CONFLICT (pair, signer) DO UPDATE SET …, updated_at = now()`. -/
def UserBorrowPositionRow.onConflict (now : Instant) : OnConflict UserBorrowPositionRow.key where
  set old excluded :=
    { cols :=
        { old.cols with
          position := excluded.cols.position
          collateral0 := excluded.cols.collateral0
          collateral1 := excluded.cols.collateral1
          debt0Shares := excluded.cols.debt0Shares
          debt1Shares := excluded.cols.debt1Shares
          collateral0LiquidationCfBps := excluded.cols.collateral0LiquidationCfBps
          collateral1LiquidationCfBps := excluded.cols.collateral1LiquidationCfBps
          collateral0MaxCfBps := excluded.cols.collateral0MaxCfBps
          collateral1MaxCfBps := excluded.cols.collateral1MaxCfBps
          slot := excluded.cols.slot }
      clock := { eventTimestamp := excluded.clock.eventTimestamp, updatedAt := now } }
  keeps_key _ _ h := h

/-- `ON CONFLICT (pair, signer) DO UPDATE SET …, updated_at = now()`. -/
def UserLiquidityPositionRow.onConflict (now : Instant) :
    OnConflict UserLiquidityPositionRow.key where
  set old excluded :=
    { cols :=
        { old.cols with
          token0Mint := excluded.cols.token0Mint
          token1Mint := excluded.cols.token1Mint
          amount0 := excluded.cols.amount0
          amount1 := excluded.cols.amount1
          lpMint := excluded.cols.lpMint
          lpAmount := excluded.cols.lpAmount
          slot := excluded.cols.slot }
      clock := now }
  keeps_key _ _ h := h

/-! ## Statements -/

/-- The row a statement of the indexer inserts, by table, without its wall-clock
columns. -/
inductive Statement where
  | pools (row : PoolRow)
  | swaps (row : SwapRow)
  | adjustLiquidity (row : AdjustLiquidityRow)
  | adjustCollateralEvents (row : AdjustEventRow)
  | adjustDebtEvents (row : AdjustEventRow)
  | userPositionUpdatedEvents (row : UserPositionUpdatedRow)
  | userPositionLiquidatedEvents (row : UserPositionLiquidatedRow)
  | userLpPositionUpdatedEvents (row : UserLpPositionUpdatedRow)
  | userBorrowPositions (row : UserBorrowPositionRow)
  | userLiquidityPositions (row : UserLiquidityPositionRow)
  deriving DecidableEq

/-- The clock readings that go into the row of one statement: the two of
`chrono::Utc::now()` in the program, and `now()` in the database. -/
structure Stamp where
  eventTimestamp : Instant
  updatedAt : Instant
  now : Instant

namespace Statement

/-- The values a statement assigns to `BIGINT` columns. -/
def bigints : Statement → List Int
  | pools row =>
    [row.targetUtilStartBps, row.targetUtilEndBps, row.rateHalfLifeMs, row.minRateBps,
      row.maxRateBps]
  | swaps row => [row.slot]
  | adjustLiquidity _ => []
  | adjustCollateralEvents row => [row.amount0, row.amount1, row.slot]
  | adjustDebtEvents row => [row.amount0, row.amount1, row.slot]
  | userPositionUpdatedEvents row =>
    [row.collateral0, row.collateral1, row.debt0Shares, row.debt1Shares, row.slot]
  | userPositionLiquidatedEvents row =>
    [row.collateral0Liquidated, row.collateral1Liquidated, row.debt0Liquidated,
      row.debt1Liquidated, row.collateralPrice, row.liquidationBonusApplied, row.slot]
  | userLpPositionUpdatedEvents _ => []
  | userBorrowPositions row => [row.slot]
  | userLiquidityPositions row => [row.slot]

/-- The range of a `BIGINT` column. -/
def InBigint (n : Int) : Prop := -2 ^ 63 ≤ n ∧ n < 2 ^ 63

instance (n : Int) : Decidable (InBigint n) := inferInstanceAs (Decidable (_ ∧ _))

def InRange (st : Statement) : Prop := ∀ n ∈ st.bigints, InBigint n

instance (st : Statement) : Decidable st.InRange := inferInstanceAs (Decidable (∀ _ ∈ _, _))

def apply (stamp : Stamp) : Statement → Database → Database
  | pools row, db => { db with pools := db.pools.upsert PoolRow.onConflict row }
  | swaps row, db =>
    { db with swaps := db.swaps.upsert SwapRow.onConflict ⟨row, stamp.eventTimestamp⟩ }
  | adjustLiquidity row, db =>
    { db with
      adjustLiquidity :=
        db.adjustLiquidity.upsert AdjustLiquidityRow.onConflict ⟨row, stamp.eventTimestamp⟩ }
  | adjustCollateralEvents row, db =>
    { db with
      adjustCollateralEvents :=
        db.adjustCollateralEvents.upsert AdjustEventRow.onConflict ⟨row, stamp.eventTimestamp⟩ }
  | adjustDebtEvents row, db =>
    { db with
      adjustDebtEvents :=
        db.adjustDebtEvents.upsert AdjustEventRow.onConflict ⟨row, stamp.eventTimestamp⟩ }
  | userPositionUpdatedEvents row, db =>
    { db with
      userPositionUpdatedEvents :=
        db.userPositionUpdatedEvents.upsert UserPositionUpdatedRow.onConflict
          ⟨row, stamp.eventTimestamp⟩ }
  | userPositionLiquidatedEvents row, db =>
    { db with
      userPositionLiquidatedEvents :=
        db.userPositionLiquidatedEvents.upsert UserPositionLiquidatedRow.onConflict
          ⟨row, stamp.eventTimestamp⟩ }
  | userLpPositionUpdatedEvents row, db =>
    { db with
      userLpPositionUpdatedEvents :=
        db.userLpPositionUpdatedEvents.insert ⟨row, stamp.eventTimestamp⟩ }
  | userBorrowPositions row, db =>
    { db with
      userBorrowPositions :=
        db.userBorrowPositions.upsert (UserBorrowPositionRow.onConflict stamp.now)
          ⟨row, ⟨stamp.eventTimestamp, stamp.updatedAt⟩⟩ }
  -- `updated_at` is not among the columns of this insert and takes its default, `now()`
  | userLiquidityPositions row, db =>
    { db with
      userLiquidityPositions :=
        db.userLiquidityPositions.upsert (UserLiquidityPositionRow.onConflict stamp.now)
          ⟨row, stamp.now⟩ }

end Statement

/-! ## A conflict replaces every column

No `SET` list leaves a column of the old row behind, so what a row holds is what
was last written under its key.
-/

theorem PoolRow.set_eq {old excluded : PoolRow} (h : old.key = excluded.key) :
    PoolRow.onConflict.set old excluded = excluded := by
  cases old
  cases excluded
  cases h
  rfl

theorem AdjustEventRow.cols_set {old excluded : Clocked AdjustEventRow Instant}
    (h : key old = key excluded) : (onConflict.set old excluded).cols = excluded.cols := by
  obtain ⟨⟨⟩, _⟩ := old
  obtain ⟨⟨⟩, _⟩ := excluded
  cases h
  rfl

theorem UserPositionUpdatedRow.set_eq {old excluded : Clocked UserPositionUpdatedRow Instant}
    (h : key old = key excluded) : onConflict.set old excluded = excluded := by
  obtain ⟨⟨⟩, _⟩ := old
  obtain ⟨⟨⟩, _⟩ := excluded
  cases h
  rfl

theorem UserPositionUpdatedRow.cols_set {old excluded : Clocked UserPositionUpdatedRow Instant}
    (h : key old = key excluded) : (onConflict.set old excluded).cols = excluded.cols :=
  congrArg Clocked.cols (set_eq h)

theorem UserPositionLiquidatedRow.cols_set
    {old excluded : Clocked UserPositionLiquidatedRow Instant}
    (h : key old = key excluded) : (onConflict.set old excluded).cols = excluded.cols := by
  obtain ⟨⟨⟩, _⟩ := old
  obtain ⟨⟨⟩, _⟩ := excluded
  cases h
  rfl

theorem UserBorrowPositionRow.cols_set (now : Instant)
    {old excluded : Clocked UserBorrowPositionRow PositionClock}
    (h : key old = key excluded) : ((onConflict now).set old excluded).cols = excluded.cols := by
  obtain ⟨⟨⟩, _⟩ := old
  obtain ⟨⟨⟩, _⟩ := excluded
  cases h
  rfl

theorem UserLiquidityPositionRow.cols_set (now : Instant)
    {old excluded : Clocked UserLiquidityPositionRow Instant}
    (h : key old = key excluded) : ((onConflict now).set old excluded).cols = excluded.cols := by
  obtain ⟨⟨⟩, _⟩ := old
  obtain ⟨⟨⟩, _⟩ := excluded
  cases h
  rfl

end OmnipairIndexer
