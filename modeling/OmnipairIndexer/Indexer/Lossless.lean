/-
Which numbers reach their column unchanged.

A number goes from the field of an event through the type it is bound as to the
type of its column.  `UpsertCall.bindings` lists these for the statements of a
call, each number next to the field it was taken from.

What is lost is the sign bit.  Unsigned fields that are bound to `BIGINT` columns
are rejected from `2 ^ 63` on, and those that go through `as i64` are stored as
negative numbers.  `lossless_iff` says that nothing else is lost: the `NUMERIC`
columns take every value, and so do the `INTEGER` columns, which only hold `u16`s.
-/
import OmnipairIndexer.Indexer.Effects

namespace OmnipairIndexer

/-! ## Columns -/

/-- The types of the columns that numbers are bound to, after the migrations. -/
inductive ColumnType where
  | numeric
  | bigint
  | integer
  deriving DecidableEq

def ColumnType.Takes : ColumnType → Int → Prop
  | numeric, _ => True
  | bigint, n => Statement.InBigint n
  | integer, n => -2 ^ 31 ≤ n ∧ n < 2 ^ 31

instance : (type : ColumnType) → (n : Int) → Decidable (type.Takes n)
  | .numeric, _ => .isTrue trivial
  | .bigint, n => inferInstanceAs (Decidable (Statement.InBigint n))
  | .integer, _ => inferInstanceAs (Decidable (_ ∧ _))

/-- A number that a statement binds. -/
inductive Binding where
  /-- It is taken from a field of the event or from the slot argument; a field that
  is missing is bound as `NULL`. -/
  | taken (type : ColumnType) (bound field : Option Int)
  | computed (type : ColumnType) (bound : Int)
  deriving DecidableEq

namespace Binding

/-- The column takes the number, and it is the one of the field. -/
def Lossless : Binding → Prop
  | taken type bound field => (∀ n ∈ bound, type.Takes n) ∧ bound = field
  | computed type bound => type.Takes bound

instance : (b : Binding) → Decidable b.Lossless
  | .taken _ _ _ => inferInstanceAs (Decidable (_ ∧ _))
  | .computed type bound => inferInstanceAs (Decidable (type.Takes bound))

/-- A field that is always there. -/
def ofField (type : ColumnType) (bound field : Int) : Binding :=
  taken type (some bound) (some field)

@[simp] theorem lossless_taken {type : ColumnType} {bound field : Option Int} :
    (taken type bound field).Lossless ↔ (∀ n ∈ bound, type.Takes n) ∧ bound = field :=
  Iff.rfl

@[simp] theorem lossless_computed {type : ColumnType} {bound : Int} :
    (computed type bound).Lossless ↔ type.Takes bound :=
  Iff.rfl

@[simp] theorem lossless_ofField {type : ColumnType} {bound field : Int} :
    (ofField type bound field).Lossless ↔ type.Takes bound ∧ bound = field := by
  simp [ofField, Lossless]

/-- The value bound to a `BIGINT` column. -/
def bigint? : Binding → Option Int
  | taken .bigint bound _ => bound
  | computed .bigint bound => some bound
  | _ => none

theorem inBigint_of_bigint? {b : Binding} {n : Int} (h : b.Lossless) (hn : b.bigint? = some n) :
    Statement.InBigint n := by
  cases b with
  | taken type bound field =>
    cases type with
    | bigint => exact h.1 n hn
    | _ => cases hn
  | computed type bound =>
    cases type with
    | bigint =>
      cases hn
      exact h
    | _ => cases hn

end Binding

/-! ## The bindings of a call -/

section

open Binding ColumnType

def SwapEvent.bindings (event : SwapEvent) (slot : Int64) : List Binding :=
  let row := event.row "" slot
  [ofField numeric row.amountIn event.amountIn.toNat,
    ofField numeric row.amountOut event.amountOut.toNat,
    ofField numeric row.reserve0 event.reserve0.toNat,
    ofField numeric row.reserve1 event.reserve1.toNat,
    ofField bigint row.slot slot.toInt,
    computed numeric row.feePaid0,
    computed numeric row.feePaid1]

def MintEvent.bindings (event : MintEvent) : List Binding :=
  let row := event.row ""
  [ofField numeric row.amount0 event.amount0.toNat,
    ofField numeric row.amount1 event.amount1.toNat,
    ofField numeric row.liquidity event.liquidity.toNat,
    ofField numeric row.slot event.metadata.slot.toNat]

def BurnEvent.bindings (event : BurnEvent) : List Binding :=
  let row := event.row ""
  [ofField numeric row.amount0 event.amount0.toNat,
    ofField numeric row.amount1 event.amount1.toNat,
    ofField numeric row.liquidity event.liquidity.toNat,
    ofField numeric row.slot event.metadata.slot.toNat]

def AdjustCollateralEvent.bindings (event : AdjustCollateralEvent) (slot : Int64) :
    List Binding :=
  let row := event.row "" slot
  [ofField bigint row.amount0 event.amount0.toInt,
    ofField bigint row.amount1 event.amount1.toInt,
    ofField bigint row.slot slot.toInt]

def AdjustDebtEvent.bindings (event : AdjustDebtEvent) (slot : Int64) : List Binding :=
  let row := event.row "" slot
  [ofField bigint row.amount0 event.amount0.toInt,
    ofField bigint row.amount1 event.amount1.toInt,
    ofField bigint row.slot slot.toInt]

/-- The history table has `BIGINT` columns where the table of the latest positions
has `NUMERIC` ones. -/
def UserPositionUpdatedEvent.bindings (event : UserPositionUpdatedEvent) (slot : Int64) :
    List Binding :=
  let row := event.row "" slot
  let borrowRow := event.borrowRow slot
  [ofField bigint row.collateral0 event.collateral0.toNat,
    ofField bigint row.collateral1 event.collateral1.toNat,
    ofField bigint row.debt0Shares event.debt0Shares.toNat,
    ofField bigint row.debt1Shares event.debt1Shares.toNat,
    ofField integer row.collateral0LiquidationCfBps event.collateral0LiquidationCfBps.toNat,
    ofField integer row.collateral1LiquidationCfBps event.collateral1LiquidationCfBps.toNat,
    ofField integer row.collateral0MaxCfBps event.collateral0MaxCfBps.toNat,
    ofField integer row.collateral1MaxCfBps event.collateral1MaxCfBps.toNat,
    ofField bigint row.slot slot.toInt,
    ofField numeric borrowRow.collateral0 event.collateral0.toNat,
    ofField numeric borrowRow.collateral1 event.collateral1.toNat,
    ofField numeric borrowRow.debt0Shares event.debt0Shares.toNat,
    ofField numeric borrowRow.debt1Shares event.debt1Shares.toNat,
    ofField integer borrowRow.collateral0LiquidationCfBps event.collateral0LiquidationCfBps.toNat,
    ofField integer borrowRow.collateral1LiquidationCfBps event.collateral1LiquidationCfBps.toNat,
    ofField integer borrowRow.collateral0MaxCfBps event.collateral0MaxCfBps.toNat,
    ofField integer borrowRow.collateral1MaxCfBps event.collateral1MaxCfBps.toNat,
    ofField bigint borrowRow.slot slot.toInt]

def UserPositionLiquidatedEvent.bindings (event : UserPositionLiquidatedEvent) (slot : Int64) :
    List Binding :=
  let row := event.row "" slot
  [ofField bigint row.collateral0Liquidated event.collateral0Liquidated.toNat,
    ofField bigint row.collateral1Liquidated event.collateral1Liquidated.toNat,
    ofField bigint row.debt0Liquidated event.debt0Liquidated.toNat,
    ofField bigint row.debt1Liquidated event.debt1Liquidated.toNat,
    ofField bigint row.collateralPrice event.collateralPrice.toNat,
    ofField numeric row.shortfall event.shortfall.toNat,
    ofField bigint row.liquidationBonusApplied event.liquidationBonusApplied.toNat,
    ofField numeric row.k0 event.k0.toNat,
    ofField numeric row.k1 event.k1.toNat,
    ofField bigint row.slot slot.toInt]

def PairCreatedEvent.bindings (event : PairCreatedEvent) : List Binding :=
  let row := event.row
  [ofField numeric row.swapFeeBps event.swapFeeBps.toNat,
    ofField numeric row.halfLife event.halfLife.toNat,
    taken numeric row.fixedCfBps (event.fixedCfBps.map fun bps => bps.toNat),
    ofField numeric row.version event.version.toNat,
    ofField bigint row.targetUtilStartBps event.targetUtilStartBps.toNat,
    ofField bigint row.targetUtilEndBps event.targetUtilEndBps.toNat,
    ofField bigint row.rateHalfLifeMs event.rateHalfLifeMs.toNat,
    ofField bigint row.minRateBps event.minRateBps.toNat,
    ofField bigint row.maxRateBps event.maxRateBps.toNat]

def UserLiquidityPositionUpdatedEvent.bindings (event : UserLiquidityPositionUpdatedEvent) :
    List Binding :=
  [ofField numeric event.logRow.lpAmount event.lpAmount.toNat,
    ofField numeric event.logRow.amount0 event.token0Amount.toNat,
    ofField numeric event.logRow.amount1 event.token1Amount.toNat,
    ofField numeric event.logRow.slot event.metadata.slot.toNat,
    ofField numeric event.row.amount0 event.token0Amount.toNat,
    ofField numeric event.row.amount1 event.token1Amount.toNat,
    ofField numeric event.row.lpAmount event.lpAmount.toNat,
    ofField bigint event.row.slot event.metadata.slot.toNat]

end

namespace UpsertCall

def bindings (c : UpsertCall) : List Binding :=
  match c.event with
  | .swap event => event.bindings c.slot
  | .mint event => event.bindings
  | .burn event => event.bindings
  | .adjustCollateral event => event.bindings c.slot
  | .adjustDebt event => event.bindings c.slot
  | .userPositionUpdated event => event.bindings c.slot
  | .userPositionLiquidated event => event.bindings c.slot
  | .pairCreated event => event.bindings
  | .userLiquidityPositionUpdated event => event.bindings

/-- Every number of the call arrives as it is, and no statement is rejected for
one that does not fit. -/
structure Lossless (c : UpsertCall) : Prop where
  bindings : ∀ b ∈ c.bindings, b.Lossless
  succeeds : ∀ env db, env.Healthy → (c.run env db).1 = .ok ()

end UpsertCall

/-! ## What fits -/

/-- The unsigned fields that are stored as signed 64-bit numbers. -/
def PersistedEvent.narrowed : PersistedEvent → List Nat
  | .userPositionUpdated event =>
    [event.collateral0.toNat, event.collateral1.toNat, event.debt0Shares.toNat,
      event.debt1Shares.toNat]
  | .userPositionLiquidated event =>
    [event.collateral0Liquidated.toNat, event.collateral1Liquidated.toNat,
      event.debt0Liquidated.toNat, event.debt1Liquidated.toNat, event.collateralPrice.toNat,
      event.liquidationBonusApplied.toNat]
  | .pairCreated event =>
    [event.halfLife.toNat, event.targetUtilStartBps.toNat, event.targetUtilEndBps.toNat,
      event.rateHalfLifeMs.toNat, event.minRateBps.toNat, event.maxRateBps.toNat]
  | .userLiquidityPositionUpdated event => [event.metadata.slot.toNat]
  | .swap _ | .mint _ | .burn _ | .adjustCollateral _ | .adjustDebt _ => []

namespace ColumnType

@[simp] theorem takes_numeric (n : Int) : numeric.Takes n := trivial

@[simp] theorem takes_bigint_natCast {n : Nat} : bigint.Takes n ↔ n < 2 ^ 63 := by
  unfold Takes Statement.InBigint
  omega

@[simp] theorem takes_bigint_toInt (n : Int64) : bigint.Takes n.toInt := ⟨n.le_toInt, n.toInt_lt⟩

@[simp] theorem takes_integer_toNat (n : UInt16) : integer.Takes n.toNat := by
  have h := n.toNat_lt
  unfold Takes
  omega

end ColumnType

/-- `as i64` keeps the numbers without a sign bit. -/
theorem toInt64_toInt_eq_iff (n : UInt64) : n.toInt64.toInt = n.toNat ↔ n.toNat < 2 ^ 63 := by
  have hlt := n.toNat_lt
  have hcast : n.toInt64.toInt = (n.toNat : Int).bmod (2 ^ 64) := by
    show n.toInt64.toBitVec.toInt = _
    rw [BitVec.toInt_eq_toNat_bmod]
    rfl
  rw [hcast, Int.bmod_def]
  split <;> omega

namespace UpsertCall

theorem bindings_lossless_iff (c : UpsertCall) :
    (∀ b ∈ c.bindings, b.Lossless) ↔ ∀ n ∈ c.event.narrowed, n < 2 ^ 63 := by
  obtain ⟨event, txSignature, slot⟩ := c
  cases event with
  | swap event =>
    simp [bindings, SwapEvent.bindings, SwapEvent.row, PersistedEvent.narrowed]
  | mint event => simp [bindings, MintEvent.bindings, MintEvent.row, PersistedEvent.narrowed]
  | burn event => simp [bindings, BurnEvent.bindings, BurnEvent.row, PersistedEvent.narrowed]
  | adjustCollateral event =>
    simp [bindings, AdjustCollateralEvent.bindings, AdjustCollateralEvent.row,
      PersistedEvent.narrowed]
  | adjustDebt event =>
    simp [bindings, AdjustDebtEvent.bindings, AdjustDebtEvent.row, PersistedEvent.narrowed]
  | userPositionUpdated event =>
    simp [bindings, UserPositionUpdatedEvent.bindings, UserPositionUpdatedEvent.row,
      UserPositionUpdatedEvent.borrowRow, PersistedEvent.narrowed]
  | userPositionLiquidated event =>
    simp [bindings, UserPositionLiquidatedEvent.bindings, UserPositionLiquidatedEvent.row,
      PersistedEvent.narrowed]
  | pairCreated event =>
    simp [bindings, PairCreatedEvent.bindings, PairCreatedEvent.row, PersistedEvent.narrowed,
      toInt64_toInt_eq_iff]
  | userLiquidityPositionUpdated event =>
    simp [bindings, UserLiquidityPositionUpdatedEvent.bindings,
      UserLiquidityPositionUpdatedEvent.logRow, UserLiquidityPositionUpdatedEvent.row,
      PersistedEvent.narrowed]

/-- The values whose range the database checks are the bindings to `BIGINT`. -/
theorem bigints_eq (c : UpsertCall) :
    c.statements.flatMap (fun p => p.2.bigints) = c.bindings.filterMap Binding.bigint? := by
  obtain ⟨event, txSignature, slot⟩ := c
  cases event <;> rfl

theorem inRange_of_lossless {c : UpsertCall} (h : ∀ b ∈ c.bindings, b.Lossless) : c.InRange := by
  intro p hp n hn
  have hmem : n ∈ c.statements.flatMap fun p => p.2.bigints := List.mem_flatMap.mpr ⟨p, hp, hn⟩
  rw [bigints_eq] at hmem
  obtain ⟨b, hb, hbigint⟩ := List.mem_filterMap.mp hmem
  exact Binding.inBigint_of_bigint? (h b hb) hbigint

/-- For every event, signature and slot: all numbers of the call arrive unchanged
and no statement is out of range exactly when the unsigned fields that are stored
as signed numbers leave the sign bit free. -/
theorem lossless_iff (c : UpsertCall) :
    c.Lossless ↔ ∀ n ∈ c.event.narrowed, n < 2 ^ 63 := by
  rw [← bindings_lossless_iff]
  constructor
  · exact Lossless.bindings
  · intro h
    refine ⟨h, fun env db henv => ?_⟩
    exact (run_ok_of_healthy henv c db).mpr (inRange_of_lossless h)

end UpsertCall

/-! ## Two losses -/

/-- A position with `2 ^ 63` debt shares. -/
def largeDebt : UpsertCall where
  event := .userPositionUpdated
    ⟨.filled 1, 0, 0, 9223372036854775808, 0, 0, 0, 0, 0, ⟨.filled 2, .filled 3, 7⟩⟩
  txSignature := "debt"
  slot := 7

/-- A pair with a half-life of `2 ^ 63`. -/
def longHalfLife : UpsertCall where
  event := .pairCreated
    ⟨.filled 1, .filled 2, .filled 3, 6, 6, .filled 4, 30, 9223372036854775808, none, 0, 0, 0, 0, 0,
      List.replicate 32 0, 1, ⟨.filled 5, .filled 6, 7⟩⟩
  txSignature := "pair"
  slot := 7

/-- The debt is rejected, and the half-life is stored as `-2 ^ 63`. -/
theorem large_values_lost :
    ¬ (∀ c : UpsertCall, c.Lossless) ∧
      (largeDebt.run (.healthyAt 0) .empty).1 =
        .error (.custom ("Failed to upsert user position updated event: " ++ outOfRange)) ∧
      (longHalfLife.run (.healthyAt 0) .empty).2.pools.cols.map PoolRow.halfLife = [-2 ^ 63] := by
  have hrejected : (largeDebt.run (.healthyAt 0) .empty).1 =
      .error (.custom ("Failed to upsert user position updated event: " ++ outOfRange)) := by
    decide +kernel
  refine ⟨fun h => ?_, hrejected, by decide +kernel⟩
  have hok := (h largeDebt).succeeds (.healthyAt 0) .empty (CallEnv.healthyAt_healthy 0)
  rw [hrejected] at hok
  cases hok

end OmnipairIndexer
