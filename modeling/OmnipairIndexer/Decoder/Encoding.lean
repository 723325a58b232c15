/-
What the decoder decodes: the Borsh encodings of the Omnipair program.

The indexer only reads.  What it has to agree with is what the program writes,
so the encodings stand here: `encode` lays an instruction or an event out as its
discriminator and its fields in declaration order.  `decodeData_iff` says that
`decodeData` inverts it, in both directions.  Every encodable value is decoded
from any data that starts with its encoding, bytes behind it are ignored, and
nothing else is ever decoded, so a payload that is one byte short, carries a
flag other than `0` and `1` or an enum index that is too large, or has a string
that is not UTF-8, yields no event rather than a wrong one.

`Encodable` is the bound of the length fields: the vectors and strings whose
length does not fit a `u32` have no encoding.
-/
import OmnipairIndexer.Library.RoundTrip
import OmnipairIndexer.Decoder.Instructions

namespace OmnipairIndexer

open Codec

/-! ## Fields -/

@[simp] theorem inverts_pubkey : Inverts Any Pubkey.deserialize Pubkey.bytes := by
  intro input key rest
  simp only [Pubkey.deserialize, bind_eq_some, pure_eq_some, bytes_eq_some]
  constructor
  · rintro ⟨bs, mid, rfl, rfl, rfl⟩
    exact ⟨trivial, rfl⟩
  · rintro ⟨-, rfl⟩
    exact ⟨⟨key.bytes, key.size⟩, rest, rfl, rfl, rfl⟩

@[simp] theorem inverts_bytes32 : Inverts (·.length = 32) bytes32 id := by
  intro input bs rest
  simp only [bytes32, bind_eq_some, pure_eq_some, bytes_eq_some]
  constructor
  · rintro ⟨read, mid, rfl, rfl, rfl⟩
    exact ⟨read.property, rfl⟩
  · rintro ⟨hsize, rfl⟩
    exact ⟨⟨bs, hsize⟩, rest, rfl, rfl, rfl⟩

theorem inverts_variantIndex {count : Nat} (hcount : count ≤ 256) :
    Inverts Any (variantIndex count) fun i => u8Bytes (UInt8.ofNat i) := by
  intro input i rest
  simp only [variantIndex, bind_eq_some, inverts_u8 input, u8Bytes]
  have hi : (UInt8.ofNat i.val).toNat = i.val :=
    UInt8.toNat_ofNat_of_lt' (Nat.lt_of_lt_of_le i.isLt hcount)
  constructor
  · rintro ⟨byte, mid, ⟨-, rfl⟩, hread⟩
    split at hread
    · obtain ⟨rfl, rfl⟩ := pure_eq_some.mp hread
      rw [UInt8.ofNat_toNat]
      exact ⟨trivial, rfl⟩
    · cases hread
  · rintro ⟨-, rfl⟩
    refine ⟨UInt8.ofNat i, rest, ⟨trivial, rfl⟩, ?_⟩
    simp [hi]

/-! ## Instruction arguments -/

def AdjustCollateralArgs.encode (args : AdjustCollateralArgs) : List UInt8 := u64Bytes args.amount

@[simp] theorem AdjustCollateralArgs.inverts : Inverts Any deserialize encode := by
  intro input args rest
  cases args
  simp [deserialize, encode]

def AddLiquidityArgs.encode (args : AddLiquidityArgs) : List UInt8 :=
  [u64Bytes args.amount0In, u64Bytes args.amount1In, u64Bytes args.minLiquidityOut].flatten

@[simp] theorem AddLiquidityArgs.inverts : Inverts Any deserialize encode := by
  intro input args rest
  cases args
  simp [deserialize, encode]

def AdjustDebtArgs.encode (args : AdjustDebtArgs) : List UInt8 := u64Bytes args.amount

@[simp] theorem AdjustDebtArgs.inverts : Inverts Any deserialize encode := by
  intro input args rest
  cases args
  simp [deserialize, encode]

def FlashloanArgs.encode (args : FlashloanArgs) : List UInt8 :=
  [u64Bytes args.amount0, u64Bytes args.amount1, byteVecBytes args.data].flatten

def FlashloanArgs.Fits (args : FlashloanArgs) : Prop := args.data.length < 2 ^ 32

@[simp] theorem FlashloanArgs.inverts : Inverts Fits deserialize encode := by
  intro input args rest
  cases args
  simp [deserialize, encode, Fits]
  exact and_comm

def InitFutarchyAuthorityArgs.encode (args : InitFutarchyAuthorityArgs) : List UInt8 :=
  [args.authority.bytes, u16Bytes args.swapBps, u16Bytes args.interestBps,
    args.futarchyTreasury.bytes, u16Bytes args.futarchyTreasuryBps, args.buybacksVault.bytes,
    u16Bytes args.buybacksVaultBps, args.teamTreasury.bytes, u16Bytes args.teamTreasuryBps].flatten

@[simp] theorem InitFutarchyAuthorityArgs.inverts : Inverts Any deserialize encode := by
  intro input args rest
  cases args
  simp [deserialize, encode]

def InitializeAndBootstrapArgs.encode (args : InitializeAndBootstrapArgs) : List UInt8 :=
  [u16Bytes args.swapFeeBps, u64Bytes args.halfLife, optionBytes u16Bytes args.fixedCfBps,
    optionBytes u64Bytes args.targetUtilStartBps, optionBytes u64Bytes args.targetUtilEndBps,
    optionBytes u64Bytes args.rateHalfLifeMs, optionBytes u64Bytes args.minRateBps,
    optionBytes u64Bytes args.maxRateBps, optionBytes u64Bytes args.initialRateBps, args.paramsHash,
    u8Bytes args.version, u64Bytes args.amount0In, u64Bytes args.amount1In,
    u64Bytes args.minLiquidityOut, stringBytes args.lpName, stringBytes args.lpSymbol,
    stringBytes args.lpUri].flatten

def InitializeAndBootstrapArgs.Fits (args : InitializeAndBootstrapArgs) : Prop :=
  args.paramsHash.length = 32 ∧ Short args.lpName ∧ Short args.lpSymbol ∧ Short args.lpUri

@[simp] theorem InitializeAndBootstrapArgs.inverts : Inverts Fits deserialize encode := by
  intro input args rest
  cases args
  simp [deserialize, encode, Fits, inverts_u16.option _ _ _, inverts_u64.option _ _ _]
  exact and_comm

def RemoveLiquidityArgs.encode (args : RemoveLiquidityArgs) : List UInt8 :=
  [u64Bytes args.liquidityIn, u64Bytes args.minAmount0Out, u64Bytes args.minAmount1Out].flatten

@[simp] theorem RemoveLiquidityArgs.inverts : Inverts Any deserialize encode := by
  intro input args rest
  cases args
  simp [deserialize, encode]

def SetGlobalReduceOnlyArgs.encode (args : SetGlobalReduceOnlyArgs) : List UInt8 :=
  boolBytes args.reduceOnly

@[simp] theorem SetGlobalReduceOnlyArgs.inverts : Inverts Any deserialize encode := by
  intro input args rest
  cases args
  simp [deserialize, encode]

def SetPairReduceOnlyArgs.encode (args : SetPairReduceOnlyArgs) : List UInt8 :=
  boolBytes args.reduceOnly

@[simp] theorem SetPairReduceOnlyArgs.inverts : Inverts Any deserialize encode := by
  intro input args rest
  cases args
  simp [deserialize, encode]

def SwapArgs.encode (args : SwapArgs) : List UInt8 :=
  [u64Bytes args.amountIn, u64Bytes args.minAmountOut].flatten

@[simp] theorem SwapArgs.inverts : Inverts Any deserialize encode := by
  intro input args rest
  cases args
  simp [deserialize, encode]

def UpdateFutarchyAuthorityArgs.encode (args : UpdateFutarchyAuthorityArgs) : List UInt8 :=
  args.newAuthority.bytes

@[simp] theorem UpdateFutarchyAuthorityArgs.inverts : Inverts Any deserialize encode := by
  intro input args rest
  cases args
  simp [deserialize, encode]

def RevenueDistribution.encode (d : RevenueDistribution) : List UInt8 :=
  [u16Bytes d.futarchyTreasuryBps, u16Bytes d.buybacksVaultBps, u16Bytes d.teamTreasuryBps].flatten

@[simp] theorem RevenueDistribution.inverts : Inverts Any deserialize encode := by
  intro input d rest
  cases d
  simp [deserialize, encode]

def UpdateProtocolRevenueArgs.encode (args : UpdateProtocolRevenueArgs) : List UInt8 :=
  [optionBytes u16Bytes args.swapBps, optionBytes u16Bytes args.interestBps,
    optionBytes RevenueDistribution.encode args.revenueDistribution].flatten

@[simp] theorem UpdateProtocolRevenueArgs.inverts : Inverts Any deserialize encode := by
  intro input args rest
  cases args
  simp [deserialize, encode, RevenueDistribution.inverts.option _ _ _, inverts_u16.option _ _ _]

def UpdateRevenueRecipientsArgs.encode (args : UpdateRevenueRecipientsArgs) : List UInt8 :=
  [optionBytes Pubkey.bytes args.futarchyTreasury, optionBytes Pubkey.bytes args.buybacksVault,
    optionBytes Pubkey.bytes args.teamTreasury].flatten

@[simp] theorem UpdateRevenueRecipientsArgs.inverts : Inverts Any deserialize encode := by
  intro input args rest
  cases args
  simp [deserialize, encode, inverts_pubkey.option _ _ _]

def EmitValueArgs.encode (args : EmitValueArgs) : List UInt8 :=
  [optionBytes u64Bytes args.amount, optionBytes Pubkey.bytes args.tokenMint].flatten

@[simp] theorem EmitValueArgs.inverts : Inverts Any deserialize encode := by
  intro input args rest
  cases args
  simp [deserialize, encode, inverts_pubkey.option _ _ _, inverts_u64.option _ _ _]

/-! ## Events -/

def EventMetadata.encode (m : EventMetadata) : List UInt8 :=
  [m.signer.bytes, m.pair.bytes, u64Bytes m.slot].flatten

@[simp] theorem EventMetadata.inverts : Inverts Any deserialize encode := by
  intro input m rest
  cases m
  simp [deserialize, encode]

def AdjustCollateralEvent.encode (event : AdjustCollateralEvent) : List UInt8 :=
  [i64Bytes event.amount0, i64Bytes event.amount1, event.metadata.encode].flatten

@[simp] theorem AdjustCollateralEvent.inverts : Inverts Any deserialize encode := by
  intro input event rest
  cases event
  simp [deserialize, encode]

def AdjustDebtEvent.encode (event : AdjustDebtEvent) : List UInt8 :=
  [i64Bytes event.amount0, i64Bytes event.amount1, event.metadata.encode].flatten

@[simp] theorem AdjustDebtEvent.inverts : Inverts Any deserialize encode := by
  intro input event rest
  cases event
  simp [deserialize, encode]

def AdjustLiquidityEvent.encode (event : AdjustLiquidityEvent) : List UInt8 :=
  [u64Bytes event.amount0, u64Bytes event.amount1, u64Bytes event.liquidity,
    event.metadata.encode].flatten

@[simp] theorem AdjustLiquidityEvent.inverts : Inverts Any deserialize encode := by
  intro input event rest
  cases event
  simp [deserialize, encode]

def BurnEvent.encode (event : BurnEvent) : List UInt8 :=
  [u64Bytes event.amount0, u64Bytes event.amount1, u64Bytes event.liquidity,
    event.metadata.encode].flatten

@[simp] theorem BurnEvent.inverts : Inverts Any deserialize encode := by
  intro input event rest
  cases event
  simp [deserialize, encode]

def ClaimProtocolFeesEvent.encode (event : ClaimProtocolFeesEvent) : List UInt8 :=
  [event.token0.bytes, event.token1.bytes, u64Bytes event.futarchyTreasuryAmount0,
    u64Bytes event.futarchyTreasuryAmount1, u64Bytes event.buybacksVaultAmount0,
    u64Bytes event.buybacksVaultAmount1, u64Bytes event.teamTreasuryAmount0,
    u64Bytes event.teamTreasuryAmount1, event.metadata.encode].flatten

@[simp] theorem ClaimProtocolFeesEvent.inverts : Inverts Any deserialize encode := by
  intro input event rest
  cases event
  simp [deserialize, encode]

def FlashloanEvent.encode (event : FlashloanEvent) : List UInt8 :=
  [u64Bytes event.amount0, u64Bytes event.amount1, u64Bytes event.fee0, u64Bytes event.fee1,
    event.receiver.bytes, event.metadata.encode].flatten

@[simp] theorem FlashloanEvent.inverts : Inverts Any deserialize encode := by
  intro input event rest
  cases event
  simp [deserialize, encode]

def MintEvent.encode (event : MintEvent) : List UInt8 :=
  [u64Bytes event.amount0, u64Bytes event.amount1, u64Bytes event.liquidity,
    event.metadata.encode].flatten

@[simp] theorem MintEvent.inverts : Inverts Any deserialize encode := by
  intro input event rest
  cases event
  simp [deserialize, encode]

def PairCreatedEvent.encode (event : PairCreatedEvent) : List UInt8 :=
  [event.token0.bytes, event.token1.bytes, event.lpMint.bytes, u8Bytes event.token0Decimals,
    u8Bytes event.token1Decimals, event.rateModel.bytes, u16Bytes event.swapFeeBps,
    u64Bytes event.halfLife, optionBytes u16Bytes event.fixedCfBps,
    u64Bytes event.targetUtilStartBps, u64Bytes event.targetUtilEndBps,
    u64Bytes event.rateHalfLifeMs, u64Bytes event.minRateBps, u64Bytes event.maxRateBps,
    event.paramsHash, u8Bytes event.version, event.metadata.encode].flatten

def PairCreatedEvent.Fits (event : PairCreatedEvent) : Prop := event.paramsHash.length = 32

@[simp] theorem PairCreatedEvent.inverts : Inverts Fits deserialize encode := by
  intro input event rest
  cases event
  simp [deserialize, encode, Fits, inverts_u16.option _ _ _]
  exact and_comm

def SwapEvent.encode (event : SwapEvent) : List UInt8 :=
  [u64Bytes event.reserve0, u64Bytes event.reserve1, boolBytes event.isToken0In,
    u64Bytes event.amountIn, u64Bytes event.amountOut, u64Bytes event.amountInAfterFee,
    event.metadata.encode].flatten

@[simp] theorem SwapEvent.inverts : Inverts Any deserialize encode := by
  intro input event rest
  cases event
  simp [deserialize, encode, -Bool.exists_bool]

def UpdatePairEvent.encode (event : UpdatePairEvent) : List UInt8 :=
  [u64Bytes event.price0Ema, u64Bytes event.price1Ema, u64Bytes event.rate0, u64Bytes event.rate1,
    u128Bytes event.accruedInterest0, u128Bytes event.accruedInterest1, u64Bytes event.cashReserve0,
    u64Bytes event.cashReserve1, u64Bytes event.reserve0AfterInterest,
    u64Bytes event.reserve1AfterInterest, event.metadata.encode].flatten

@[simp] theorem UpdatePairEvent.inverts : Inverts Any deserialize encode := by
  intro input event rest
  cases event
  simp [deserialize, encode]

def UserLiquidityPositionUpdatedEvent.encode (event : UserLiquidityPositionUpdatedEvent) :
    List UInt8 :=
  [u64Bytes event.token0Amount, u64Bytes event.token1Amount, u64Bytes event.lpAmount,
    u64Bytes event.cashReserve0, u64Bytes event.cashReserve1, event.token0Mint.bytes,
    event.token1Mint.bytes, event.lpMint.bytes, event.metadata.encode].flatten

@[simp] theorem UserLiquidityPositionUpdatedEvent.inverts : Inverts Any deserialize encode := by
  intro input event rest
  cases event
  simp [deserialize, encode]

def UserPositionCreatedEvent.encode (event : UserPositionCreatedEvent) : List UInt8 :=
  [event.position.bytes, event.metadata.encode].flatten

@[simp] theorem UserPositionCreatedEvent.inverts : Inverts Any deserialize encode := by
  intro input event rest
  cases event
  simp [deserialize, encode]

def UserPositionLiquidatedEvent.encode (event : UserPositionLiquidatedEvent) : List UInt8 :=
  [event.position.bytes, event.liquidator.bytes, u64Bytes event.collateral0Liquidated,
    u64Bytes event.collateral1Liquidated, u64Bytes event.debt0Liquidated,
    u64Bytes event.debt1Liquidated, u64Bytes event.collateralPrice, u128Bytes event.shortfall,
    u64Bytes event.liquidationBonusApplied, u128Bytes event.k0, u128Bytes event.k1,
    event.metadata.encode].flatten

@[simp] theorem UserPositionLiquidatedEvent.inverts : Inverts Any deserialize encode := by
  intro input event rest
  cases event
  simp [deserialize, encode]

def UserPositionUpdatedEvent.encode (event : UserPositionUpdatedEvent) : List UInt8 :=
  [event.position.bytes, u64Bytes event.collateral0, u64Bytes event.collateral1,
    u128Bytes event.debt0Shares, u128Bytes event.debt1Shares, u16Bytes event.collateral0MaxCfBps,
    u16Bytes event.collateral1MaxCfBps, u16Bytes event.collateral0LiquidationCfBps,
    u16Bytes event.collateral1LiquidationCfBps, event.metadata.encode].flatten

@[simp] theorem UserPositionUpdatedEvent.inverts : Inverts Any deserialize encode := by
  intro input event rest
  cases event
  simp [deserialize, encode]

/-! ## Instructions and events -/

namespace OmnipairInstruction

open Candidate

def discriminator : OmnipairInstruction → List UInt8
  | .addCollateral _ => AddCollateral.discriminator
  | .addLiquidity _ => AddLiquidity.discriminator
  | .borrow _ => Borrow.discriminator
  | .claimProtocolFees => ClaimProtocolFees.discriminator
  | .flashloan _ => Flashloan.discriminator
  | .initFutarchyAuthority _ => InitFutarchyAuthority.discriminator
  | .initializeAndBootstrap _ => Initialize.discriminator
  | .liquidate => Liquidate.discriminator
  | .removeCollateral _ => RemoveCollateral.discriminator
  | .removeLiquidity _ => RemoveLiquidity.discriminator
  | .repay _ => Repay.discriminator
  | .setGlobalReduceOnly _ => SetGlobalReduceOnly.discriminator
  | .setPairReduceOnly _ => SetPairReduceOnly.discriminator
  | .swap _ => Swap.discriminator
  | .updateFutarchyAuthority _ => UpdateFutarchyAuthority.discriminator
  | .updateProtocolRevenue _ => UpdateProtocolRevenue.discriminator
  | .updateRevenueRecipients _ => UpdateRevenueRecipients.discriminator
  | .viewPairData _ _ => ViewPairData.discriminator
  | .viewUserPositionData _ => ViewUserPositionData.discriminator
  | .adjustCollateralEvent _ => AdjustCollateralEvent.discriminator
  | .adjustDebtEvent _ => AdjustDebtEvent.discriminator
  | .adjustLiquidityEvent _ => AdjustLiquidityEvent.discriminator
  | .burnEvent _ => BurnEvent.discriminator
  | .claimProtocolFeesEvent _ => ClaimProtocolFeesEvent.discriminator
  | .flashloanEvent _ => FlashloanEvent.discriminator
  | .mintEvent _ => MintEvent.discriminator
  | .pairCreatedEvent _ => PairCreatedEvent.discriminator
  | .swapEvent _ => SwapEvent.discriminator
  | .updatePairEvent _ => UpdatePairEvent.discriminator
  | .userLiquidityPositionUpdatedEvent _ => UserLiquidityPositionUpdatedEvent.discriminator
  | .userPositionCreatedEvent _ => UserPositionCreatedEvent.discriminator
  | .userPositionLiquidatedEvent _ => UserPositionLiquidatedEvent.discriminator
  | .userPositionUpdatedEvent _ => UserPositionUpdatedEvent.discriminator

def payload : OmnipairInstruction → List UInt8
  | .addCollateral args => args.encode
  | .addLiquidity args => args.encode
  | .borrow args => args.encode
  | .claimProtocolFees => []
  | .flashloan args => args.encode
  | .initFutarchyAuthority args => args.encode
  | .initializeAndBootstrap args => args.encode
  | .liquidate => []
  | .removeCollateral args => args.encode
  | .removeLiquidity args => args.encode
  | .repay args => args.encode
  | .setGlobalReduceOnly args => args.encode
  | .setPairReduceOnly args => args.encode
  | .swap args => args.encode
  | .updateFutarchyAuthority args => args.encode
  | .updateProtocolRevenue args => args.encode
  | .updateRevenueRecipients args => args.encode
  | .viewPairData getter args => u8Bytes (UInt8.ofNat getter) ++ args.encode
  | .viewUserPositionData getter => u8Bytes (UInt8.ofNat getter)
  | .adjustCollateralEvent event => event.encode
  | .adjustDebtEvent event => event.encode
  | .adjustLiquidityEvent event => event.encode
  | .burnEvent event => event.encode
  | .claimProtocolFeesEvent event => event.encode
  | .flashloanEvent event => event.encode
  | .mintEvent event => event.encode
  | .pairCreatedEvent event => event.encode
  | .swapEvent event => event.encode
  | .updatePairEvent event => event.encode
  | .userLiquidityPositionUpdatedEvent event => event.encode
  | .userPositionCreatedEvent event => event.encode
  | .userPositionLiquidatedEvent event => event.encode
  | .userPositionUpdatedEvent event => event.encode

/-- What the program writes for an instruction or an event. -/
def encode (ix : OmnipairInstruction) : List UInt8 := ix.discriminator ++ ix.payload

/-- The fields whose type admits more than can be written have a length that fits. -/
def Encodable : OmnipairInstruction → Prop
  | .flashloan args => args.Fits
  | .initializeAndBootstrap args => args.Fits
  | .pairCreatedEvent event => event.Fits
  | _ => True

/-- The values of each candidate, in the order of the candidates. -/
def families : List (OmnipairInstruction → Prop) :=
  [family Any addCollateral, family Any addLiquidity, family Any borrow, (· = claimProtocolFees),
    family FlashloanArgs.Fits flashloan, family Any initFutarchyAuthority,
    family InitializeAndBootstrapArgs.Fits initializeAndBootstrap, (· = liquidate),
    family Any removeCollateral, family Any removeLiquidity, family Any repay,
    family Any setGlobalReduceOnly, family Any setPairReduceOnly, family Any swap,
    family Any updateFutarchyAuthority, family Any updateProtocolRevenue,
    family Any updateRevenueRecipients, fun ix => ∃ getter args, viewPairData getter args = ix,
    family Any viewUserPositionData, family Any adjustCollateralEvent, family Any adjustDebtEvent,
    family Any adjustLiquidityEvent, family Any burnEvent, family Any claimProtocolFeesEvent,
    family Any flashloanEvent, family Any mintEvent,
    family PairCreatedEvent.Fits pairCreatedEvent, family Any swapEvent,
    family Any updatePairEvent, family Any userLiquidityPositionUpdatedEvent,
    family Any userPositionCreatedEvent, family Any userPositionLiquidatedEvent,
    family Any userPositionUpdatedEvent]

theorem exists_family_iff (ix : OmnipairInstruction) :
    (∃ Q ∈ families, Q ix) ↔ ix.Encodable := by
  constructor
  · rintro ⟨Q, hQ, hix⟩
    have hall : ∀ Q ∈ families, ∀ ix, Q ix → ix.Encodable := by
      simp [families, family, Encodable]
      rintro _ getter args rfl
      trivial
    exact hall Q hQ ix hix
  · -- the constructors stand in the order of the candidates
    intro h
    have hget : ∃ Q, families[ix.ctorIdx]? = some Q ∧ Q ix := by
      cases ix with
      | claimProtocolFees => exact ⟨_, rfl, rfl⟩
      | liquidate => exact ⟨_, rfl, rfl⟩
      | viewPairData getter args => exact ⟨_, rfl, getter, args, rfl⟩
      | _ => exact ⟨_, rfl, _, h, rfl⟩
    obtain ⟨Q, hQ, hix⟩ := hget
    exact ⟨Q, List.mem_of_getElem? hQ, hix⟩

theorem serves_viewPairData : Candidate.Serves discriminator payload
    ⟨ViewPairData.discriminator,
      return .viewPairData (← variantIndex 10) (← EmitValueArgs.deserialize)⟩
    (fun ix => ∃ getter args, viewPairData getter args = ix) where
  inverts := by
    intro input ix rest
    have hcount : 10 ≤ 256 := by decide
    simp only [bind_eq_some, pure_eq_some, inverts_variantIndex hcount input,
      EmitValueArgs.inverts _ _ _]
    constructor
    · rintro ⟨getter, mid, ⟨-, rfl⟩, args, mid', ⟨-, rfl⟩, rfl, rfl⟩
      exact ⟨⟨getter, args, rfl⟩, by simp [payload]⟩
    · rintro ⟨⟨getter, args, rfl⟩, rfl⟩
      exact ⟨getter, _, ⟨trivial, List.append_assoc _ _ _⟩, args, _, ⟨trivial, rfl⟩, rfl, rfl⟩
  tag := by
    rintro _ ⟨getter, args, rfl⟩
    rfl

theorem served : List.Forall₂ (Candidate.Serves discriminator payload) candidates families := by
  refine
    .cons (serves_variant AdjustCollateralArgs.inverts _ (fun _ => rfl) fun _ => rfl) <|
    .cons (serves_variant AddLiquidityArgs.inverts _ (fun _ => rfl) fun _ => rfl) <|
    .cons (serves_variant AdjustDebtArgs.inverts _ (fun _ => rfl) fun _ => rfl) <|
    .cons ⟨inverts_pure _ rfl, by rintro _ rfl; rfl⟩ <|
    .cons (serves_variant FlashloanArgs.inverts _ (fun _ => rfl) fun _ => rfl) <|
    .cons (serves_variant InitFutarchyAuthorityArgs.inverts _ (fun _ => rfl) fun _ => rfl) <|
    .cons (serves_variant InitializeAndBootstrapArgs.inverts _ (fun _ => rfl) fun _ => rfl) <|
    .cons ⟨inverts_pure _ rfl, by rintro _ rfl; rfl⟩ <|
    .cons (serves_variant AdjustCollateralArgs.inverts _ (fun _ => rfl) fun _ => rfl) <|
    .cons (serves_variant RemoveLiquidityArgs.inverts _ (fun _ => rfl) fun _ => rfl) <|
    .cons (serves_variant AdjustDebtArgs.inverts _ (fun _ => rfl) fun _ => rfl) <|
    .cons (serves_variant SetGlobalReduceOnlyArgs.inverts _ (fun _ => rfl) fun _ => rfl) <|
    .cons (serves_variant SetPairReduceOnlyArgs.inverts _ (fun _ => rfl) fun _ => rfl) <|
    .cons (serves_variant SwapArgs.inverts _ (fun _ => rfl) fun _ => rfl) <|
    .cons (serves_variant UpdateFutarchyAuthorityArgs.inverts _ (fun _ => rfl) fun _ => rfl) <|
    .cons (serves_variant UpdateProtocolRevenueArgs.inverts _ (fun _ => rfl) fun _ => rfl) <|
    .cons (serves_variant UpdateRevenueRecipientsArgs.inverts _ (fun _ => rfl) fun _ => rfl) <|
    .cons serves_viewPairData <|
    .cons (serves_variant (inverts_variantIndex (by decide)) _ (fun _ => rfl) fun _ => rfl) <|
    .cons (serves_variant AdjustCollateralEvent.inverts _ (fun _ => rfl) fun _ => rfl) <|
    .cons (serves_variant AdjustDebtEvent.inverts _ (fun _ => rfl) fun _ => rfl) <|
    .cons (serves_variant AdjustLiquidityEvent.inverts _ (fun _ => rfl) fun _ => rfl) <|
    .cons (serves_variant BurnEvent.inverts _ (fun _ => rfl) fun _ => rfl) <|
    .cons (serves_variant ClaimProtocolFeesEvent.inverts _ (fun _ => rfl) fun _ => rfl) <|
    .cons (serves_variant FlashloanEvent.inverts _ (fun _ => rfl) fun _ => rfl) <|
    .cons (serves_variant MintEvent.inverts _ (fun _ => rfl) fun _ => rfl) <|
    .cons (serves_variant PairCreatedEvent.inverts _ (fun _ => rfl) fun _ => rfl) <|
    .cons (serves_variant SwapEvent.inverts _ (fun _ => rfl) fun _ => rfl) <|
    .cons (serves_variant UpdatePairEvent.inverts _ (fun _ => rfl) fun _ => rfl) <|
    .cons (serves_variant UserLiquidityPositionUpdatedEvent.inverts _ (fun _ => rfl) fun _ => rfl) <|
    .cons (serves_variant UserPositionCreatedEvent.inverts _ (fun _ => rfl) fun _ => rfl) <|
    .cons (serves_variant UserPositionLiquidatedEvent.inverts _ (fun _ => rfl) fun _ => rfl) <|
    .cons (serves_variant UserPositionUpdatedEvent.inverts _ (fun _ => rfl) fun _ => rfl) <|
    .nil

end OmnipairInstruction

/-! ## The round trip -/

/-- The decoder inverts the encoding: an instruction or event is decoded exactly
from the data that starts with its encoding. -/
theorem decodeData_iff (data : List UInt8) (ix : OmnipairInstruction) :
    decodeData data = some ix ↔ ix.Encodable ∧ ix.encode <+: data := by
  rw [decodeData, Candidate.firstMatch_eq_some_iff_prefix candidates_apart
    OmnipairInstruction.served, OmnipairInstruction.exists_family_iff]
  rfl

end OmnipairIndexer
