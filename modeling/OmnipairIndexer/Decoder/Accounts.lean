/-
The account decoder: `OmnipairDecoder::decode_account`.

The program's state lives in four kinds of accounts.  Their decoder works like
the one of the instructions, with an 8-byte discriminator for each kind, and the
same holds of it: `decodeAccount_iff` says that it inverts the encoding.  What
surrounds the data (owner, balance, rent epoch) is copied and takes no part in
the decision, so an account of any owner whose data starts like a pair is
decoded as a pair.
-/
import OmnipairIndexer.Decoder.Encoding

namespace OmnipairIndexer

open Codec

/-! ## The record types -/

structure LastPriceEMA where
  symmetric : UInt64
  directional : UInt64
  deriving DecidableEq

def LastPriceEMA.deserialize : Reader LastPriceEMA := return ⟨← u64, ← u64⟩

structure VaultBumps where
  reserve0 : UInt8
  reserve1 : UInt8
  collateral0 : UInt8
  collateral1 : UInt8
  deriving DecidableEq

def VaultBumps.deserialize : Reader VaultBumps := return ⟨← u8, ← u8, ← u8, ← u8⟩

structure RevenueRecipients where
  futarchyTreasury : Pubkey
  buybacksVault : Pubkey
  teamTreasury : Pubkey
  deriving DecidableEq

def RevenueRecipients.deserialize : Reader RevenueRecipients :=
  return ⟨← Pubkey.deserialize, ← Pubkey.deserialize, ← Pubkey.deserialize⟩

structure RevenueShare where
  swapBps : UInt16
  interestBps : UInt16
  deriving DecidableEq

def RevenueShare.deserialize : Reader RevenueShare := return ⟨← u16, ← u16⟩

structure FutarchyAuthority where
  version : UInt8
  authority : Pubkey
  recipients : RevenueRecipients
  revenueShare : RevenueShare
  revenueDistribution : RevenueDistribution
  globalReduceOnly : Bool
  bump : UInt8
  deriving DecidableEq

def FutarchyAuthority.deserialize : Reader FutarchyAuthority :=
  return ⟨← u8, ← Pubkey.deserialize, ← RevenueRecipients.deserialize, ← RevenueShare.deserialize,
    ← RevenueDistribution.deserialize, ← bool, ← u8⟩

structure Pair where
  token0 : Pubkey
  token1 : Pubkey
  lpMint : Pubkey
  rateModel : Pubkey
  swapFeeBps : UInt16
  halfLife : UInt64
  fixedCfBps : Option UInt16
  reserve0 : UInt64
  reserve1 : UInt64
  cashReserve0 : UInt64
  cashReserve1 : UInt64
  lastPrice0Ema : LastPriceEMA
  lastPrice1Ema : LastPriceEMA
  lastUpdate : UInt64
  lastRate0 : UInt64
  lastRate1 : UInt64
  totalDebt0 : UInt64
  totalDebt1 : UInt64
  totalDebt0Shares : BitVec 128
  totalDebt1Shares : BitVec 128
  totalSupply : UInt64
  totalCollateral0 : UInt64
  totalCollateral1 : UInt64
  token0Decimals : UInt8
  token1Decimals : UInt8
  paramsHash : List UInt8
  version : UInt8
  bump : UInt8
  vaultBumps : VaultBumps
  reduceOnly : Bool
  deriving DecidableEq

def Pair.deserialize : Reader Pair :=
  return ⟨← Pubkey.deserialize, ← Pubkey.deserialize, ← Pubkey.deserialize, ← Pubkey.deserialize,
    ← u16, ← u64, ← option u16, ← u64, ← u64, ← u64, ← u64, ← LastPriceEMA.deserialize,
    ← LastPriceEMA.deserialize, ← u64, ← u64, ← u64, ← u64, ← u64, ← u128, ← u128, ← u64, ← u64,
    ← u64, ← u8, ← u8, ← bytes32, ← u8, ← u8, ← VaultBumps.deserialize, ← bool⟩

structure RateModel where
  expRate : UInt64
  targetUtilStart : UInt64
  targetUtilEnd : UInt64
  halfLifeMs : UInt64
  minRate : UInt64
  maxRate : UInt64
  initialRate : UInt64
  deriving DecidableEq

def RateModel.deserialize : Reader RateModel :=
  return ⟨← u64, ← u64, ← u64, ← u64, ← u64, ← u64, ← u64⟩

structure UserPosition where
  owner : Pubkey
  pair : Pubkey
  collateral0LiquidationCfBps : UInt16
  collateral1LiquidationCfBps : UInt16
  collateral0 : UInt64
  collateral1 : UInt64
  debt0Shares : BitVec 128
  debt1Shares : BitVec 128
  bump : UInt8
  deriving DecidableEq

def UserPosition.deserialize : Reader UserPosition :=
  return ⟨← Pubkey.deserialize, ← Pubkey.deserialize, ← u16, ← u16, ← u64, ← u64, ← u128, ← u128,
    ← u8⟩

/-! ## Decoding -/

inductive OmnipairAccount where
  | futarchyAuthority (account : FutarchyAuthority)
  | pair (account : Pair)
  | rateModel (account : RateModel)
  | userPosition (account : UserPosition)
  deriving DecidableEq

/-- `solana_account::Account`. -/
structure SolanaAccount where
  lamports : UInt64
  data : List UInt8
  owner : Pubkey
  executable : Bool
  rentEpoch : UInt64
  deriving DecidableEq

structure DecodedAccount (T : Type) where
  lamports : UInt64
  data : T
  owner : Pubkey
  executable : Bool
  rentEpoch : UInt64
  deriving DecidableEq

def FutarchyAuthority.discriminator : List UInt8 := [0xaf, 0xf7, 0xa0, 0xb6, 0x8c, 0x80, 0xd3, 0xe2]
def Pair.discriminator : List UInt8 := [0x55, 0x48, 0x31, 0xb0, 0xb6, 0xe4, 0x8d, 0x52]
def RateModel.discriminator : List UInt8 := [0x5e, 0x03, 0xcb, 0xdb, 0x6b, 0x89, 0x04, 0xa2]
def UserPosition.discriminator : List UInt8 := [0xfb, 0xf8, 0xd1, 0xf5, 0x53, 0xea, 0x11, 0x1b]

/-- The account types, in the order the decoder tries them. -/
def accountCandidates : List (Candidate OmnipairAccount) :=
  [⟨FutarchyAuthority.discriminator, return .futarchyAuthority (← FutarchyAuthority.deserialize)⟩,
    ⟨Pair.discriminator, return .pair (← Pair.deserialize)⟩,
    ⟨RateModel.discriminator, return .rateModel (← RateModel.deserialize)⟩,
    ⟨UserPosition.discriminator, return .userPosition (← UserPosition.deserialize)⟩]

def decodeAccount (account : SolanaAccount) : Option (DecodedAccount OmnipairAccount) :=
  (Candidate.firstMatch accountCandidates account.data).map fun data =>
    ⟨account.lamports, data, account.owner, account.executable, account.rentEpoch⟩

theorem accountCandidates_apart : accountCandidates.Pairwise Candidate.Apart := by decide +kernel

/-! ## Encodings -/

def LastPriceEMA.encode (ema : LastPriceEMA) : List UInt8 :=
  [u64Bytes ema.symmetric, u64Bytes ema.directional].flatten

@[simp] theorem LastPriceEMA.inverts : Inverts Any deserialize encode := by
  intro input ema rest
  cases ema
  simp [deserialize, encode]

def VaultBumps.encode (bumps : VaultBumps) : List UInt8 :=
  [u8Bytes bumps.reserve0, u8Bytes bumps.reserve1, u8Bytes bumps.collateral0,
    u8Bytes bumps.collateral1].flatten

@[simp] theorem VaultBumps.inverts : Inverts Any deserialize encode := by
  intro input bumps rest
  cases bumps
  simp [deserialize, encode]

def RevenueRecipients.encode (recipients : RevenueRecipients) : List UInt8 :=
  [recipients.futarchyTreasury.bytes, recipients.buybacksVault.bytes,
    recipients.teamTreasury.bytes].flatten

@[simp] theorem RevenueRecipients.inverts : Inverts Any deserialize encode := by
  intro input recipients rest
  cases recipients
  simp [deserialize, encode]

def RevenueShare.encode (share : RevenueShare) : List UInt8 :=
  [u16Bytes share.swapBps, u16Bytes share.interestBps].flatten

@[simp] theorem RevenueShare.inverts : Inverts Any deserialize encode := by
  intro input share rest
  cases share
  simp [deserialize, encode]

def FutarchyAuthority.encode (account : FutarchyAuthority) : List UInt8 :=
  [u8Bytes account.version, account.authority.bytes, account.recipients.encode,
    account.revenueShare.encode, account.revenueDistribution.encode,
    boolBytes account.globalReduceOnly, u8Bytes account.bump].flatten

theorem FutarchyAuthority.inverts : Inverts Any deserialize encode := by
  intro input account rest
  cases account
  simp [deserialize, encode, -Bool.exists_bool]

def Pair.encode (account : Pair) : List UInt8 :=
  [account.token0.bytes, account.token1.bytes, account.lpMint.bytes, account.rateModel.bytes,
    u16Bytes account.swapFeeBps, u64Bytes account.halfLife, optionBytes u16Bytes account.fixedCfBps,
    u64Bytes account.reserve0, u64Bytes account.reserve1, u64Bytes account.cashReserve0,
    u64Bytes account.cashReserve1, account.lastPrice0Ema.encode, account.lastPrice1Ema.encode,
    u64Bytes account.lastUpdate, u64Bytes account.lastRate0, u64Bytes account.lastRate1,
    u64Bytes account.totalDebt0, u64Bytes account.totalDebt1, u128Bytes account.totalDebt0Shares,
    u128Bytes account.totalDebt1Shares, u64Bytes account.totalSupply,
    u64Bytes account.totalCollateral0, u64Bytes account.totalCollateral1,
    u8Bytes account.token0Decimals, u8Bytes account.token1Decimals, account.paramsHash,
    u8Bytes account.version, u8Bytes account.bump, account.vaultBumps.encode,
    boolBytes account.reduceOnly].flatten

def Pair.Fits (account : Pair) : Prop := account.paramsHash.length = 32

theorem Pair.inverts : Inverts Fits deserialize encode := by
  intro input account rest
  cases account
  simp [deserialize, encode, Fits, inverts_u16.option _ _ _, -Bool.exists_bool]
  exact and_comm

def RateModel.encode (account : RateModel) : List UInt8 :=
  [u64Bytes account.expRate, u64Bytes account.targetUtilStart, u64Bytes account.targetUtilEnd,
    u64Bytes account.halfLifeMs, u64Bytes account.minRate, u64Bytes account.maxRate,
    u64Bytes account.initialRate].flatten

theorem RateModel.inverts : Inverts Any deserialize encode := by
  intro input account rest
  cases account
  simp [deserialize, encode]

def UserPosition.encode (account : UserPosition) : List UInt8 :=
  [account.owner.bytes, account.pair.bytes, u16Bytes account.collateral0LiquidationCfBps,
    u16Bytes account.collateral1LiquidationCfBps, u64Bytes account.collateral0,
    u64Bytes account.collateral1, u128Bytes account.debt0Shares, u128Bytes account.debt1Shares,
    u8Bytes account.bump].flatten

theorem UserPosition.inverts : Inverts Any deserialize encode := by
  intro input account rest
  cases account
  simp [deserialize, encode]

namespace OmnipairAccount

open Candidate

def discriminator : OmnipairAccount → List UInt8
  | .futarchyAuthority _ => FutarchyAuthority.discriminator
  | .pair _ => Pair.discriminator
  | .rateModel _ => RateModel.discriminator
  | .userPosition _ => UserPosition.discriminator

def payload : OmnipairAccount → List UInt8
  | .futarchyAuthority account => account.encode
  | .pair account => account.encode
  | .rateModel account => account.encode
  | .userPosition account => account.encode

/-- The data the program keeps in an account. -/
def encode (account : OmnipairAccount) : List UInt8 := account.discriminator ++ account.payload

def Encodable : OmnipairAccount → Prop
  | .pair account => account.Fits
  | _ => True

def kinds : List (OmnipairAccount → Prop) :=
  [family Any futarchyAuthority, family Pair.Fits pair, family Any rateModel, family Any userPosition]

theorem exists_kind_iff (account : OmnipairAccount) :
    (∃ Q ∈ kinds, Q account) ↔ account.Encodable := by
  cases account <;> simp [kinds, family, Encodable]

theorem served :
    List.Forall₂ (Candidate.Serves discriminator payload) accountCandidates kinds := by
  refine .cons (serves_variant FutarchyAuthority.inverts _ (fun _ => rfl) fun _ => rfl) <|
    .cons (serves_variant Pair.inverts _ (fun _ => rfl) fun _ => rfl) <|
    .cons (serves_variant RateModel.inverts _ (fun _ => rfl) fun _ => rfl) <|
    .cons (serves_variant UserPosition.inverts _ (fun _ => rfl) fun _ => rfl) <|
    .nil

end OmnipairAccount

/-! ## The round trip -/

/-- The decoder inverts the encoding of the four kinds of accounts, copies what
surrounds the data and decodes nothing else. -/
theorem decodeAccount_iff (account : SolanaAccount) (decoded : DecodedAccount OmnipairAccount) :
    decodeAccount account = some decoded ↔
      decoded.data.Encodable ∧ decoded.data.encode <+: account.data ∧
        decoded = ⟨account.lamports, decoded.data, account.owner, account.executable,
          account.rentEpoch⟩ := by
  rw [decodeAccount, Option.map_eq_some_iff]
  have hdata := Candidate.firstMatch_eq_some_iff_prefix accountCandidates_apart
    OmnipairAccount.served account.data
  constructor
  · rintro ⟨data, hdec, rfl⟩
    obtain ⟨hkind, hpre⟩ := (hdata data).mp hdec
    exact ⟨(OmnipairAccount.exists_kind_iff data).mp hkind, hpre, rfl⟩
  · rintro ⟨hfits, hpre, heq⟩
    refine ⟨decoded.data, (hdata _).mpr ⟨(OmnipairAccount.exists_kind_iff _).mpr hfits, hpre⟩, ?_⟩
    exact heq.symm

end OmnipairIndexer
