/-
The decoder: `OmnipairDecoder::decode_instruction` and the discriminators.

`CarbonDeserialize` compares the first bytes of the instruction data with the
discriminator of a type, reads the rest with Borsh and ignores bytes left over;
that is `Codec.Candidate.decode`.  `try_decode_instructions!` tries the types in
the order they are listed and keeps the first that accepts the data; that is
`Candidate.firstMatch`.  The program id and the accounts are copied over and
take no part in the decision.

Instructions carry the 8-byte Anchor discriminator.  Events are emitted through
a self-CPI and carry 16 bytes: the tag shared by all events and their own.
`decodeData_eq_some_iff` uses that no discriminator starts another one.
-/
import OmnipairIndexer.Decoder.Types

namespace OmnipairIndexer

open Codec

inductive OmnipairInstruction where
  | addCollateral (args : AdjustCollateralArgs)
  | addLiquidity (args : AddLiquidityArgs)
  | borrow (args : AdjustDebtArgs)
  | claimProtocolFees
  | flashloan (args : FlashloanArgs)
  | initFutarchyAuthority (args : InitFutarchyAuthorityArgs)
  -- the source's `Initialize`
  | initializeAndBootstrap (args : InitializeAndBootstrapArgs)
  | liquidate
  | removeCollateral (args : AdjustCollateralArgs)
  | removeLiquidity (args : RemoveLiquidityArgs)
  | repay (args : AdjustDebtArgs)
  | setGlobalReduceOnly (args : SetGlobalReduceOnlyArgs)
  | setPairReduceOnly (args : SetPairReduceOnlyArgs)
  | swap (args : SwapArgs)
  | updateFutarchyAuthority (args : UpdateFutarchyAuthorityArgs)
  | updateProtocolRevenue (args : UpdateProtocolRevenueArgs)
  | updateRevenueRecipients (args : UpdateRevenueRecipientsArgs)
  | viewPairData (getter : PairViewKind) (args : EmitValueArgs)
  | viewUserPositionData (getter : UserPositionViewKind)
  | adjustCollateralEvent (event : AdjustCollateralEvent)
  | adjustDebtEvent (event : AdjustDebtEvent)
  | adjustLiquidityEvent (event : AdjustLiquidityEvent)
  | burnEvent (event : BurnEvent)
  | claimProtocolFeesEvent (event : ClaimProtocolFeesEvent)
  | flashloanEvent (event : FlashloanEvent)
  | mintEvent (event : MintEvent)
  | pairCreatedEvent (event : PairCreatedEvent)
  | swapEvent (event : SwapEvent)
  | updatePairEvent (event : UpdatePairEvent)
  | userLiquidityPositionUpdatedEvent (event : UserLiquidityPositionUpdatedEvent)
  | userPositionCreatedEvent (event : UserPositionCreatedEvent)
  | userPositionLiquidatedEvent (event : UserPositionLiquidatedEvent)
  | userPositionUpdatedEvent (event : UserPositionUpdatedEvent)
  deriving DecidableEq

structure AccountMeta where
  pubkey : Pubkey
  isSigner : Bool
  isWritable : Bool
  deriving DecidableEq

structure Instruction where
  programId : Pubkey
  accounts : List AccountMeta
  data : List UInt8
  deriving DecidableEq

structure DecodedInstruction (T : Type) where
  programId : Pubkey
  data : T
  accounts : List AccountMeta
  deriving DecidableEq

/-! ## Discriminators -/

/-- The first half of every event discriminator. -/
def eventTag : List UInt8 := [0xe4, 0x45, 0xa5, 0x2e, 0x51, 0xcb, 0x9a, 0x1d]

def AddCollateral.discriminator : List UInt8 := [0x7f, 0x52, 0x79, 0x2a, 0xa1, 0xb0, 0xf9, 0xce]
def AddLiquidity.discriminator : List UInt8 := [0xb5, 0x9d, 0x59, 0x43, 0x8f, 0xb6, 0x34, 0x48]
def Borrow.discriminator : List UInt8 := [0xe4, 0xfd, 0x83, 0xca, 0xcf, 0x74, 0x59, 0x12]
def ClaimProtocolFees.discriminator : List UInt8 := [0x22, 0x8e, 0xdb, 0x70, 0x6d, 0x36, 0x85, 0x17]
def Flashloan.discriminator : List UInt8 := [0x69, 0x21, 0x01, 0x03, 0x2a, 0x9e, 0xf6, 0x43]
def InitFutarchyAuthority.discriminator : List UInt8 :=
  [0x85, 0x6e, 0x9a, 0x1d, 0xf0, 0xce, 0x47, 0x64]
def Initialize.discriminator : List UInt8 := [0xaf, 0xaf, 0x6d, 0x1f, 0x0d, 0x98, 0x9b, 0xed]
def Liquidate.discriminator : List UInt8 := [0xdf, 0xb3, 0xe2, 0x7d, 0x30, 0x2e, 0x27, 0x4a]
def RemoveCollateral.discriminator : List UInt8 := [0x56, 0xde, 0x82, 0x56, 0x5c, 0x14, 0x48, 0x41]
def RemoveLiquidity.discriminator : List UInt8 := [0x50, 0x55, 0xd1, 0x48, 0x18, 0xce, 0xb1, 0x6c]
def Repay.discriminator : List UInt8 := [0xea, 0x67, 0x43, 0x52, 0xd0, 0xea, 0xdb, 0xa6]
def SetGlobalReduceOnly.discriminator : List UInt8 :=
  [0xf2, 0x97, 0x7b, 0x8b, 0xef, 0x57, 0xf9, 0x62]
def SetPairReduceOnly.discriminator : List UInt8 := [0x93, 0x71, 0x10, 0x32, 0x40, 0x58, 0xaf, 0x12]
def Swap.discriminator : List UInt8 := [0xf8, 0xc6, 0x9e, 0x91, 0xe1, 0x75, 0x87, 0xc8]
def UpdateFutarchyAuthority.discriminator : List UInt8 :=
  [0x0f, 0xc4, 0x9d, 0xd9, 0x71, 0xe2, 0x59, 0x19]
def UpdateProtocolRevenue.discriminator : List UInt8 :=
  [0xb0, 0x8b, 0x83, 0xc5, 0x28, 0xe1, 0x7d, 0xc8]
def UpdateRevenueRecipients.discriminator : List UInt8 :=
  [0x74, 0xb3, 0x89, 0x2f, 0x76, 0xa7, 0x41, 0xd9]
def ViewPairData.discriminator : List UInt8 := [0x1e, 0xe7, 0xa9, 0x49, 0x13, 0xa1, 0x2c, 0xfc]
def ViewUserPositionData.discriminator : List UInt8 :=
  [0xcb, 0xda, 0xad, 0xd5, 0x2b, 0x1f, 0xd3, 0x98]

def AdjustCollateralEvent.discriminator : List UInt8 :=
  eventTag ++ [0x63, 0xf6, 0x43, 0x7e, 0x2c, 0xfc, 0xc1, 0x21]
def AdjustDebtEvent.discriminator : List UInt8 :=
  eventTag ++ [0x99, 0x08, 0xa9, 0x74, 0xcf, 0x74, 0x9b, 0x80]
def AdjustLiquidityEvent.discriminator : List UInt8 :=
  eventTag ++ [0xe5, 0xa2, 0xd3, 0x27, 0x9f, 0xfb, 0x18, 0x4e]
def BurnEvent.discriminator : List UInt8 :=
  eventTag ++ [0x21, 0x59, 0x2f, 0x75, 0x52, 0x7c, 0xee, 0xfa]
def ClaimProtocolFeesEvent.discriminator : List UInt8 :=
  eventTag ++ [0x83, 0xa3, 0xd1, 0x70, 0x7b, 0x85, 0x69, 0xeb]
def FlashloanEvent.discriminator : List UInt8 :=
  eventTag ++ [0x22, 0x31, 0xef, 0xf2, 0xe4, 0x2d, 0x14, 0x61]
def MintEvent.discriminator : List UInt8 :=
  eventTag ++ [0xc5, 0x90, 0x92, 0x95, 0x42, 0xa4, 0x5f, 0x10]
def PairCreatedEvent.discriminator : List UInt8 :=
  eventTag ++ [0x76, 0x00, 0x32, 0xc4, 0x37, 0xff, 0x79, 0x2b]
def SwapEvent.discriminator : List UInt8 :=
  eventTag ++ [0x40, 0xc6, 0xcd, 0xe8, 0x26, 0x08, 0x71, 0xe2]
def UpdatePairEvent.discriminator : List UInt8 :=
  eventTag ++ [0x2c, 0x06, 0x3c, 0xf5, 0x8e, 0x26, 0xa6, 0xf7]
def UserLiquidityPositionUpdatedEvent.discriminator : List UInt8 :=
  eventTag ++ [0xff, 0xe3, 0x20, 0x6b, 0xd3, 0xf6, 0x27, 0x4e]
def UserPositionCreatedEvent.discriminator : List UInt8 :=
  eventTag ++ [0xf0, 0x84, 0x5c, 0xe3, 0xd1, 0x48, 0xb2, 0xa9]
def UserPositionLiquidatedEvent.discriminator : List UInt8 :=
  eventTag ++ [0xdc, 0x89, 0xd9, 0x03, 0xf2, 0xbe, 0xee, 0xd8]
def UserPositionUpdatedEvent.discriminator : List UInt8 :=
  eventTag ++ [0x53, 0xa8, 0xc5, 0x58, 0x59, 0x2a, 0x3a, 0x66]

/-! ## Decoding -/

/-- The `CarbonDeserialize` instance of an event type. -/
def eventCandidate {T : Type} (discriminator : List UInt8) (deserialize : Reader T)
    (variant : T → OmnipairInstruction) : Candidate OmnipairInstruction :=
  ⟨discriminator, return variant (← deserialize)⟩

/-- The instruction types, in the order the decoder tries them. -/
def instructionCandidates : List (Candidate OmnipairInstruction) :=
  [⟨AddCollateral.discriminator, return .addCollateral (← AdjustCollateralArgs.deserialize)⟩,
    ⟨AddLiquidity.discriminator, return .addLiquidity (← AddLiquidityArgs.deserialize)⟩,
    ⟨Borrow.discriminator, return .borrow (← AdjustDebtArgs.deserialize)⟩,
    ⟨ClaimProtocolFees.discriminator, return .claimProtocolFees⟩,
    ⟨Flashloan.discriminator, return .flashloan (← FlashloanArgs.deserialize)⟩,
    ⟨InitFutarchyAuthority.discriminator,
      return .initFutarchyAuthority (← InitFutarchyAuthorityArgs.deserialize)⟩,
    ⟨Initialize.discriminator,
      return .initializeAndBootstrap (← InitializeAndBootstrapArgs.deserialize)⟩,
    ⟨Liquidate.discriminator, return .liquidate⟩,
    ⟨RemoveCollateral.discriminator, return .removeCollateral (← AdjustCollateralArgs.deserialize)⟩,
    ⟨RemoveLiquidity.discriminator, return .removeLiquidity (← RemoveLiquidityArgs.deserialize)⟩,
    ⟨Repay.discriminator, return .repay (← AdjustDebtArgs.deserialize)⟩,
    ⟨SetGlobalReduceOnly.discriminator,
      return .setGlobalReduceOnly (← SetGlobalReduceOnlyArgs.deserialize)⟩,
    ⟨SetPairReduceOnly.discriminator,
      return .setPairReduceOnly (← SetPairReduceOnlyArgs.deserialize)⟩,
    ⟨Swap.discriminator, return .swap (← SwapArgs.deserialize)⟩,
    ⟨UpdateFutarchyAuthority.discriminator,
      return .updateFutarchyAuthority (← UpdateFutarchyAuthorityArgs.deserialize)⟩,
    ⟨UpdateProtocolRevenue.discriminator,
      return .updateProtocolRevenue (← UpdateProtocolRevenueArgs.deserialize)⟩,
    ⟨UpdateRevenueRecipients.discriminator,
      return .updateRevenueRecipients (← UpdateRevenueRecipientsArgs.deserialize)⟩,
    ⟨ViewPairData.discriminator,
      return .viewPairData (← variantIndex 10) (← EmitValueArgs.deserialize)⟩,
    ⟨ViewUserPositionData.discriminator, return .viewUserPositionData (← variantIndex 9)⟩]

/-- The event types, in the order the decoder tries them. -/
def eventCandidates : List (Candidate OmnipairInstruction) :=
  [eventCandidate AdjustCollateralEvent.discriminator AdjustCollateralEvent.deserialize
      .adjustCollateralEvent,
    eventCandidate AdjustDebtEvent.discriminator AdjustDebtEvent.deserialize .adjustDebtEvent,
    eventCandidate AdjustLiquidityEvent.discriminator AdjustLiquidityEvent.deserialize
      .adjustLiquidityEvent,
    eventCandidate BurnEvent.discriminator BurnEvent.deserialize .burnEvent,
    eventCandidate ClaimProtocolFeesEvent.discriminator ClaimProtocolFeesEvent.deserialize
      .claimProtocolFeesEvent,
    eventCandidate FlashloanEvent.discriminator FlashloanEvent.deserialize .flashloanEvent,
    eventCandidate MintEvent.discriminator MintEvent.deserialize .mintEvent,
    eventCandidate PairCreatedEvent.discriminator PairCreatedEvent.deserialize .pairCreatedEvent,
    eventCandidate SwapEvent.discriminator SwapEvent.deserialize .swapEvent,
    eventCandidate UpdatePairEvent.discriminator UpdatePairEvent.deserialize .updatePairEvent,
    eventCandidate UserLiquidityPositionUpdatedEvent.discriminator
      UserLiquidityPositionUpdatedEvent.deserialize .userLiquidityPositionUpdatedEvent,
    eventCandidate UserPositionCreatedEvent.discriminator UserPositionCreatedEvent.deserialize
      .userPositionCreatedEvent,
    eventCandidate UserPositionLiquidatedEvent.discriminator UserPositionLiquidatedEvent.deserialize
      .userPositionLiquidatedEvent,
    eventCandidate UserPositionUpdatedEvent.discriminator UserPositionUpdatedEvent.deserialize
      .userPositionUpdatedEvent]

def candidates : List (Candidate OmnipairInstruction) := instructionCandidates ++ eventCandidates

/-- `try_decode_instructions!`, as far as the data decides. -/
def decodeData (data : List UInt8) : Option OmnipairInstruction :=
  Candidate.firstMatch candidates data

def decodeInstruction (instruction : Instruction) :
    Option (DecodedInstruction OmnipairInstruction) :=
  (decodeData instruction.data).map fun data =>
    ⟨instruction.programId, data, instruction.accounts⟩

/-! ## The order of the candidates does not matter -/

theorem candidates_apart : candidates.Pairwise Candidate.Apart := by decide +kernel

theorem decodeData_eq_some_iff (data : List UInt8) (ix : OmnipairInstruction) :
    decodeData data = some ix ↔ ∃ c ∈ candidates, c.decode data = some ix :=
  Candidate.firstMatch_eq_some_iff candidates_apart data ix

end OmnipairIndexer
