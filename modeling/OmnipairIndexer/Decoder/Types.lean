/-
The record types of the Omnipair program and their Borsh readers.

Every type stands under the name it has in `decoders/omnipair_decoder`, with its
fields in declaration order, which is the order Borsh reads them in.  The events
are also described by their `Codec.Shape`s; the lemmas at the end state that the
readers accept exactly these, so later modules argue about event bytes without
unfolding a reader.
-/
import OmnipairIndexer.Library.Codec

namespace OmnipairIndexer

open Codec

/-- A public key is 32 bytes. -/
structure Pubkey where
  bytes : List UInt8
  size : bytes.length = 32
  deriving DecidableEq

def Pubkey.filled (b : UInt8) : Pubkey := ⟨List.replicate 32 b, List.length_replicate⟩

def Pubkey.default : Pubkey := Pubkey.filled 0

instance : Inhabited Pubkey := ⟨Pubkey.default⟩

def Pubkey.deserialize : Reader Pubkey := do
  let bs ← Codec.bytes 32
  return ⟨bs.val, bs.property⟩

/-- `[u8; 32]`, which Borsh reads like a key. -/
def bytes32 : Reader (List UInt8) := do
  let bs ← bytes 32
  return bs.val

/-- A field-less enum is one byte, its variant index. -/
def variantIndex (count : Nat) : Reader (Fin count) := do
  let i ← u8
  if h : i.toNat < count then return ⟨i.toNat, h⟩ else failure

/-! ## Instruction arguments -/

structure AdjustCollateralArgs where
  amount : UInt64
  deriving DecidableEq

def AdjustCollateralArgs.deserialize : Reader AdjustCollateralArgs := return ⟨← u64⟩

structure AddLiquidityArgs where
  amount0In : UInt64
  amount1In : UInt64
  minLiquidityOut : UInt64
  deriving DecidableEq

def AddLiquidityArgs.deserialize : Reader AddLiquidityArgs :=
  return ⟨← u64, ← u64, ← u64⟩

structure AdjustDebtArgs where
  amount : UInt64
  deriving DecidableEq

def AdjustDebtArgs.deserialize : Reader AdjustDebtArgs := return ⟨← u64⟩

structure FlashloanArgs where
  amount0 : UInt64
  amount1 : UInt64
  data : List UInt8
  deriving DecidableEq

def FlashloanArgs.deserialize : Reader FlashloanArgs := return ⟨← u64, ← u64, ← byteVec⟩

structure InitFutarchyAuthorityArgs where
  authority : Pubkey
  swapBps : UInt16
  interestBps : UInt16
  futarchyTreasury : Pubkey
  futarchyTreasuryBps : UInt16
  buybacksVault : Pubkey
  buybacksVaultBps : UInt16
  teamTreasury : Pubkey
  teamTreasuryBps : UInt16
  deriving DecidableEq

def InitFutarchyAuthorityArgs.deserialize : Reader InitFutarchyAuthorityArgs :=
  return ⟨← Pubkey.deserialize, ← u16, ← u16, ← Pubkey.deserialize, ← u16, ← Pubkey.deserialize,
    ← u16, ← Pubkey.deserialize, ← u16⟩

structure InitializeAndBootstrapArgs where
  swapFeeBps : UInt16
  halfLife : UInt64
  fixedCfBps : Option UInt16
  targetUtilStartBps : Option UInt64
  targetUtilEndBps : Option UInt64
  rateHalfLifeMs : Option UInt64
  minRateBps : Option UInt64
  maxRateBps : Option UInt64
  initialRateBps : Option UInt64
  paramsHash : List UInt8
  version : UInt8
  amount0In : UInt64
  amount1In : UInt64
  minLiquidityOut : UInt64
  lpName : String
  lpSymbol : String
  lpUri : String
  deriving DecidableEq

def InitializeAndBootstrapArgs.deserialize : Reader InitializeAndBootstrapArgs :=
  return ⟨← u16, ← u64, ← option u16, ← option u64, ← option u64, ← option u64, ← option u64,
    ← option u64, ← option u64, ← bytes32, ← u8, ← u64, ← u64, ← u64, ← string, ← string,
    ← string⟩

structure RemoveLiquidityArgs where
  liquidityIn : UInt64
  minAmount0Out : UInt64
  minAmount1Out : UInt64
  deriving DecidableEq

def RemoveLiquidityArgs.deserialize : Reader RemoveLiquidityArgs :=
  return ⟨← u64, ← u64, ← u64⟩

structure SetGlobalReduceOnlyArgs where
  reduceOnly : Bool
  deriving DecidableEq

def SetGlobalReduceOnlyArgs.deserialize : Reader SetGlobalReduceOnlyArgs := return ⟨← bool⟩

structure SetPairReduceOnlyArgs where
  reduceOnly : Bool
  deriving DecidableEq

def SetPairReduceOnlyArgs.deserialize : Reader SetPairReduceOnlyArgs := return ⟨← bool⟩

structure SwapArgs where
  amountIn : UInt64
  minAmountOut : UInt64
  deriving DecidableEq

def SwapArgs.deserialize : Reader SwapArgs := return ⟨← u64, ← u64⟩

structure UpdateFutarchyAuthorityArgs where
  newAuthority : Pubkey
  deriving DecidableEq

def UpdateFutarchyAuthorityArgs.deserialize : Reader UpdateFutarchyAuthorityArgs :=
  return ⟨← Pubkey.deserialize⟩

structure RevenueDistribution where
  futarchyTreasuryBps : UInt16
  buybacksVaultBps : UInt16
  teamTreasuryBps : UInt16
  deriving DecidableEq

def RevenueDistribution.deserialize : Reader RevenueDistribution := return ⟨← u16, ← u16, ← u16⟩

structure UpdateProtocolRevenueArgs where
  swapBps : Option UInt16
  interestBps : Option UInt16
  revenueDistribution : Option RevenueDistribution
  deriving DecidableEq

def UpdateProtocolRevenueArgs.deserialize : Reader UpdateProtocolRevenueArgs :=
  return ⟨← option u16, ← option u16, ← option RevenueDistribution.deserialize⟩

structure UpdateRevenueRecipientsArgs where
  futarchyTreasury : Option Pubkey
  buybacksVault : Option Pubkey
  teamTreasury : Option Pubkey
  deriving DecidableEq

def UpdateRevenueRecipientsArgs.deserialize : Reader UpdateRevenueRecipientsArgs :=
  return ⟨← option Pubkey.deserialize, ← option Pubkey.deserialize, ← option Pubkey.deserialize⟩

structure EmitValueArgs where
  amount : Option UInt64
  tokenMint : Option Pubkey
  deriving DecidableEq

def EmitValueArgs.deserialize : Reader EmitValueArgs :=
  return ⟨← option u64, ← option Pubkey.deserialize⟩

/-- `PairViewKind`, by variant index: the ten getters of a pair. -/
abbrev PairViewKind := Fin 10

/-- `UserPositionViewKind`, by variant index: the nine getters of a position. -/
abbrev UserPositionViewKind := Fin 9

/-! ## Events -/

structure EventMetadata where
  signer : Pubkey
  pair : Pubkey
  slot : UInt64
  deriving DecidableEq

def EventMetadata.deserialize : Reader EventMetadata :=
  return ⟨← Pubkey.deserialize, ← Pubkey.deserialize, ← u64⟩

structure AdjustCollateralEvent where
  amount0 : Int64
  amount1 : Int64
  metadata : EventMetadata
  deriving DecidableEq

def AdjustCollateralEvent.deserialize : Reader AdjustCollateralEvent :=
  return ⟨← i64, ← i64, ← EventMetadata.deserialize⟩

structure AdjustDebtEvent where
  amount0 : Int64
  amount1 : Int64
  metadata : EventMetadata
  deriving DecidableEq

def AdjustDebtEvent.deserialize : Reader AdjustDebtEvent :=
  return ⟨← i64, ← i64, ← EventMetadata.deserialize⟩

structure AdjustLiquidityEvent where
  amount0 : UInt64
  amount1 : UInt64
  liquidity : UInt64
  metadata : EventMetadata
  deriving DecidableEq

def AdjustLiquidityEvent.deserialize : Reader AdjustLiquidityEvent :=
  return ⟨← u64, ← u64, ← u64, ← EventMetadata.deserialize⟩

structure BurnEvent where
  amount0 : UInt64
  amount1 : UInt64
  liquidity : UInt64
  metadata : EventMetadata
  deriving DecidableEq

def BurnEvent.deserialize : Reader BurnEvent :=
  return ⟨← u64, ← u64, ← u64, ← EventMetadata.deserialize⟩

structure ClaimProtocolFeesEvent where
  token0 : Pubkey
  token1 : Pubkey
  futarchyTreasuryAmount0 : UInt64
  futarchyTreasuryAmount1 : UInt64
  buybacksVaultAmount0 : UInt64
  buybacksVaultAmount1 : UInt64
  teamTreasuryAmount0 : UInt64
  teamTreasuryAmount1 : UInt64
  metadata : EventMetadata
  deriving DecidableEq

def ClaimProtocolFeesEvent.deserialize : Reader ClaimProtocolFeesEvent :=
  return ⟨← Pubkey.deserialize, ← Pubkey.deserialize, ← u64, ← u64, ← u64, ← u64, ← u64, ← u64,
    ← EventMetadata.deserialize⟩

structure FlashloanEvent where
  amount0 : UInt64
  amount1 : UInt64
  fee0 : UInt64
  fee1 : UInt64
  receiver : Pubkey
  metadata : EventMetadata
  deriving DecidableEq

def FlashloanEvent.deserialize : Reader FlashloanEvent :=
  return ⟨← u64, ← u64, ← u64, ← u64, ← Pubkey.deserialize, ← EventMetadata.deserialize⟩

structure MintEvent where
  amount0 : UInt64
  amount1 : UInt64
  liquidity : UInt64
  metadata : EventMetadata
  deriving DecidableEq

def MintEvent.deserialize : Reader MintEvent :=
  return ⟨← u64, ← u64, ← u64, ← EventMetadata.deserialize⟩

structure PairCreatedEvent where
  token0 : Pubkey
  token1 : Pubkey
  lpMint : Pubkey
  token0Decimals : UInt8
  token1Decimals : UInt8
  rateModel : Pubkey
  swapFeeBps : UInt16
  halfLife : UInt64
  fixedCfBps : Option UInt16
  targetUtilStartBps : UInt64
  targetUtilEndBps : UInt64
  rateHalfLifeMs : UInt64
  minRateBps : UInt64
  maxRateBps : UInt64
  paramsHash : List UInt8
  version : UInt8
  metadata : EventMetadata
  deriving DecidableEq

def PairCreatedEvent.deserialize : Reader PairCreatedEvent :=
  return ⟨← Pubkey.deserialize, ← Pubkey.deserialize, ← Pubkey.deserialize, ← u8, ← u8,
    ← Pubkey.deserialize, ← u16, ← u64, ← option u16, ← u64, ← u64, ← u64, ← u64, ← u64,
    ← bytes32, ← u8, ← EventMetadata.deserialize⟩

structure SwapEvent where
  reserve0 : UInt64
  reserve1 : UInt64
  isToken0In : Bool
  amountIn : UInt64
  amountOut : UInt64
  amountInAfterFee : UInt64
  metadata : EventMetadata
  deriving DecidableEq

def SwapEvent.deserialize : Reader SwapEvent :=
  return ⟨← u64, ← u64, ← bool, ← u64, ← u64, ← u64, ← EventMetadata.deserialize⟩

structure UpdatePairEvent where
  price0Ema : UInt64
  price1Ema : UInt64
  rate0 : UInt64
  rate1 : UInt64
  accruedInterest0 : BitVec 128
  accruedInterest1 : BitVec 128
  cashReserve0 : UInt64
  cashReserve1 : UInt64
  reserve0AfterInterest : UInt64
  reserve1AfterInterest : UInt64
  metadata : EventMetadata
  deriving DecidableEq

def UpdatePairEvent.deserialize : Reader UpdatePairEvent :=
  return ⟨← u64, ← u64, ← u64, ← u64, ← u128, ← u128, ← u64, ← u64, ← u64, ← u64,
    ← EventMetadata.deserialize⟩

structure UserLiquidityPositionUpdatedEvent where
  token0Amount : UInt64
  token1Amount : UInt64
  lpAmount : UInt64
  cashReserve0 : UInt64
  cashReserve1 : UInt64
  token0Mint : Pubkey
  token1Mint : Pubkey
  lpMint : Pubkey
  metadata : EventMetadata
  deriving DecidableEq

def UserLiquidityPositionUpdatedEvent.deserialize : Reader UserLiquidityPositionUpdatedEvent :=
  return ⟨← u64, ← u64, ← u64, ← u64, ← u64, ← Pubkey.deserialize, ← Pubkey.deserialize,
    ← Pubkey.deserialize, ← EventMetadata.deserialize⟩

structure UserPositionCreatedEvent where
  position : Pubkey
  metadata : EventMetadata
  deriving DecidableEq

def UserPositionCreatedEvent.deserialize : Reader UserPositionCreatedEvent :=
  return ⟨← Pubkey.deserialize, ← EventMetadata.deserialize⟩

structure UserPositionLiquidatedEvent where
  position : Pubkey
  liquidator : Pubkey
  collateral0Liquidated : UInt64
  collateral1Liquidated : UInt64
  debt0Liquidated : UInt64
  debt1Liquidated : UInt64
  collateralPrice : UInt64
  shortfall : BitVec 128
  liquidationBonusApplied : UInt64
  k0 : BitVec 128
  k1 : BitVec 128
  metadata : EventMetadata
  deriving DecidableEq

def UserPositionLiquidatedEvent.deserialize : Reader UserPositionLiquidatedEvent :=
  return ⟨← Pubkey.deserialize, ← Pubkey.deserialize, ← u64, ← u64, ← u64, ← u64, ← u64, ← u128,
    ← u64, ← u128, ← u128, ← EventMetadata.deserialize⟩

structure UserPositionUpdatedEvent where
  position : Pubkey
  collateral0 : UInt64
  collateral1 : UInt64
  debt0Shares : BitVec 128
  debt1Shares : BitVec 128
  collateral0MaxCfBps : UInt16
  collateral1MaxCfBps : UInt16
  collateral0LiquidationCfBps : UInt16
  collateral1LiquidationCfBps : UInt16
  metadata : EventMetadata
  deriving DecidableEq

def UserPositionUpdatedEvent.deserialize : Reader UserPositionUpdatedEvent :=
  return ⟨← Pubkey.deserialize, ← u64, ← u64, ← u128, ← u128, ← u16, ← u16, ← u16, ← u16,
    ← EventMetadata.deserialize⟩

/-! ## What the event readers accept -/

theorem follows_pubkey : Follows Pubkey.deserialize [.bytes 32] := (follows_bytes 32).map _

theorem follows_bytes32 : Follows bytes32 [.bytes 32] := (follows_bytes 32).map _

def EventMetadata.shape : List Shape := [.bytes 32, .bytes 32, .bytes 8]

theorem EventMetadata.follows : Follows deserialize shape :=
  follows_pubkey.cons fun _ => follows_pubkey.cons fun _ => follows_u64.map _

def AdjustCollateralEvent.shape : List Shape := .bytes 8 :: .bytes 8 :: EventMetadata.shape

theorem AdjustCollateralEvent.follows : Follows deserialize shape :=
  follows_i64.cons fun _ => follows_i64.cons fun _ => EventMetadata.follows.map _

def AdjustDebtEvent.shape : List Shape := .bytes 8 :: .bytes 8 :: EventMetadata.shape

theorem AdjustDebtEvent.follows : Follows deserialize shape :=
  follows_i64.cons fun _ => follows_i64.cons fun _ => EventMetadata.follows.map _

def BurnEvent.shape : List Shape := .bytes 8 :: .bytes 8 :: .bytes 8 :: EventMetadata.shape

theorem BurnEvent.follows : Follows deserialize shape :=
  follows_u64.cons fun _ => follows_u64.cons fun _ => follows_u64.cons fun _ =>
    EventMetadata.follows.map _

def MintEvent.shape : List Shape := .bytes 8 :: .bytes 8 :: .bytes 8 :: EventMetadata.shape

theorem MintEvent.follows : Follows deserialize shape :=
  follows_u64.cons fun _ => follows_u64.cons fun _ => follows_u64.cons fun _ =>
    EventMetadata.follows.map _

def PairCreatedEvent.shape : List Shape :=
  .bytes 32 :: .bytes 32 :: .bytes 32 :: .bytes 1 :: .bytes 1 :: .bytes 32 :: .bytes 2 ::
    .bytes 8 :: .optional 2 :: .bytes 8 :: .bytes 8 :: .bytes 8 :: .bytes 8 :: .bytes 8 ::
    .bytes 32 :: .bytes 1 :: EventMetadata.shape

theorem PairCreatedEvent.follows : Follows deserialize shape :=
  follows_pubkey.cons fun _ => follows_pubkey.cons fun _ => follows_pubkey.cons fun _ =>
    follows_u8.cons fun _ => follows_u8.cons fun _ => follows_pubkey.cons fun _ =>
    follows_u16.cons fun _ => follows_u64.cons fun _ => (follows_option follows_u16).cons fun _ =>
    follows_u64.cons fun _ => follows_u64.cons fun _ => follows_u64.cons fun _ =>
    follows_u64.cons fun _ => follows_u64.cons fun _ => follows_bytes32.cons fun _ =>
    follows_u8.cons fun _ => EventMetadata.follows.map _

/-- The direction flag is the only byte of a swap event that can be malformed. -/
def SwapEvent.shape : List Shape :=
  .bytes 8 :: .bytes 8 :: .flag :: .bytes 8 :: .bytes 8 :: .bytes 8 :: EventMetadata.shape

theorem SwapEvent.follows : Follows deserialize shape :=
  follows_u64.cons fun _ => follows_u64.cons fun _ => follows_bool.cons fun _ =>
    follows_u64.cons fun _ => follows_u64.cons fun _ => follows_u64.cons fun _ =>
    EventMetadata.follows.map _

def UserLiquidityPositionUpdatedEvent.shape : List Shape :=
  .bytes 8 :: .bytes 8 :: .bytes 8 :: .bytes 8 :: .bytes 8 :: .bytes 32 :: .bytes 32 ::
    .bytes 32 :: EventMetadata.shape

theorem UserLiquidityPositionUpdatedEvent.follows : Follows deserialize shape :=
  follows_u64.cons fun _ => follows_u64.cons fun _ => follows_u64.cons fun _ =>
    follows_u64.cons fun _ => follows_u64.cons fun _ => follows_pubkey.cons fun _ =>
    follows_pubkey.cons fun _ => follows_pubkey.cons fun _ => EventMetadata.follows.map _

def UserPositionLiquidatedEvent.shape : List Shape :=
  .bytes 32 :: .bytes 32 :: .bytes 8 :: .bytes 8 :: .bytes 8 :: .bytes 8 :: .bytes 8 ::
    .bytes 16 :: .bytes 8 :: .bytes 16 :: .bytes 16 :: EventMetadata.shape

theorem UserPositionLiquidatedEvent.follows : Follows deserialize shape :=
  follows_pubkey.cons fun _ => follows_pubkey.cons fun _ => follows_u64.cons fun _ =>
    follows_u64.cons fun _ => follows_u64.cons fun _ => follows_u64.cons fun _ =>
    follows_u64.cons fun _ => follows_u128.cons fun _ => follows_u64.cons fun _ =>
    follows_u128.cons fun _ => follows_u128.cons fun _ => EventMetadata.follows.map _

def UserPositionUpdatedEvent.shape : List Shape :=
  .bytes 32 :: .bytes 8 :: .bytes 8 :: .bytes 16 :: .bytes 16 :: .bytes 2 :: .bytes 2 ::
    .bytes 2 :: .bytes 2 :: EventMetadata.shape

theorem UserPositionUpdatedEvent.follows : Follows deserialize shape :=
  follows_pubkey.cons fun _ => follows_u64.cons fun _ => follows_u64.cons fun _ =>
    follows_u128.cons fun _ => follows_u128.cons fun _ => follows_u16.cons fun _ =>
    follows_u16.cons fun _ => follows_u16.cons fun _ => follows_u16.cons fun _ =>
    EventMetadata.follows.map _

end OmnipairIndexer
