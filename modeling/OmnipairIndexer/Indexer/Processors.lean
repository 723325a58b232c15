/-
`processors.rs`: from a decoded instruction to an upsert call.

The handlers take the store as an argument: `perform` runs one call of
`database.rs`.  A handler passes an error of its upsert function on, and the
handlers without one only log.  The webhook that `process_pair_created_event`
posts after its upsert cannot fail the handler and leaves no trace in the store.
-/
import OmnipairIndexer.Indexer.Database

namespace OmnipairIndexer

open Fallible NestedInstruction

namespace OmnipairInstructionProcessor

section Handlers

variable {σ : Type} (perform : UpsertCall → Action CarbonError σ) (metadata : InstructionMetadata)

def slotOf : Int64 := metadata.transactionMetadata.slot.toInt64

def upsert (event : PersistedEvent) : Action CarbonError σ :=
  perform ⟨event, metadata.transactionMetadata.signature, slotOf metadata⟩

def processSwapEvent (event : SwapEvent) : Action CarbonError σ :=
  upsert perform metadata (.swap event)

def processAdjustCollateralEvent (event : AdjustCollateralEvent) : Action CarbonError σ :=
  upsert perform metadata (.adjustCollateral event)

def processAdjustDebtEvent (event : AdjustDebtEvent) : Action CarbonError σ :=
  upsert perform metadata (.adjustDebt event)

def processAdjustLiquidityEvent (_event : AdjustLiquidityEvent) : Action CarbonError σ := done

def processBurnEvent (event : BurnEvent) : Action CarbonError σ :=
  upsert perform metadata (.burn event)

def processMintEvent (event : MintEvent) : Action CarbonError σ :=
  upsert perform metadata (.mint event)

def processPairCreatedEvent (event : PairCreatedEvent) : Action CarbonError σ :=
  upsert perform metadata (.pairCreated event)

def processUpdatePairEvent (_event : UpdatePairEvent) : Action CarbonError σ := done

def processUserPositionCreatedEvent (_event : UserPositionCreatedEvent) : Action CarbonError σ :=
  done

def processUserPositionLiquidatedEvent (event : UserPositionLiquidatedEvent) :
    Action CarbonError σ :=
  upsert perform metadata (.userPositionLiquidated event)

def processUserPositionUpdatedEvent (event : UserPositionUpdatedEvent) : Action CarbonError σ :=
  upsert perform metadata (.userPositionUpdated event)

def processUserLiquidityPositionUpdatedEvent (event : UserLiquidityPositionUpdatedEvent) :
    Action CarbonError σ :=
  upsert perform metadata (.userLiquidityPositionUpdated event)

end Handlers

variable {σ : Type}

def process (perform : UpsertCall → Action CarbonError σ)
    (input : InstructionProcessorInput OmnipairInstruction) : Action CarbonError σ :=
  match input.decoded.data with
  | .swapEvent event => processSwapEvent perform input.metadata event
  | .adjustCollateralEvent event => processAdjustCollateralEvent perform input.metadata event
  | .adjustDebtEvent event => processAdjustDebtEvent perform input.metadata event
  | .adjustLiquidityEvent event => processAdjustLiquidityEvent event
  | .burnEvent event => processBurnEvent perform input.metadata event
  | .mintEvent event => processMintEvent perform input.metadata event
  | .pairCreatedEvent event => processPairCreatedEvent perform input.metadata event
  | .updatePairEvent event => processUpdatePairEvent event
  | .userPositionCreatedEvent event => processUserPositionCreatedEvent event
  | .userPositionLiquidatedEvent event =>
    processUserPositionLiquidatedEvent perform input.metadata event
  | .userPositionUpdatedEvent event => processUserPositionUpdatedEvent perform input.metadata event
  | .userLiquidityPositionUpdatedEvent event =>
    processUserLiquidityPositionUpdatedEvent perform input.metadata event
  | _ => done

end OmnipairInstructionProcessor

/-- The pipe `create_pipeline` registers: no filters, the decoder, the processor. -/
def indexerPipe {σ : Type} (perform : UpsertCall → Action CarbonError σ) :
    InstructionPipe OmnipairInstruction CarbonError σ where
  decoder := decodeInstruction
  processor := OmnipairInstructionProcessor.process perform

/-! ## What is persisted -/

/-- The event a decoded instruction hands to an upsert function, if any. -/
def OmnipairInstruction.persisted? : OmnipairInstruction → Option PersistedEvent
  | .swapEvent event => some (.swap event)
  | .adjustCollateralEvent event => some (.adjustCollateral event)
  | .adjustDebtEvent event => some (.adjustDebt event)
  | .burnEvent event => some (.burn event)
  | .mintEvent event => some (.mint event)
  | .pairCreatedEvent event => some (.pairCreated event)
  | .userPositionLiquidatedEvent event => some (.userPositionLiquidated event)
  | .userPositionUpdatedEvent event => some (.userPositionUpdated event)
  | .userLiquidityPositionUpdatedEvent event => some (.userLiquidityPositionUpdated event)
  | _ => none

def InstructionProcessorInput.upsertCall? (input : InstructionProcessorInput OmnipairInstruction) :
    Option UpsertCall :=
  input.decoded.data.persisted?.map fun event =>
    ⟨event, input.metadata.transactionMetadata.signature,
      OmnipairInstructionProcessor.slotOf input.metadata⟩

theorem process_eq {σ : Type} (perform : UpsertCall → Action CarbonError σ)
    (input : InstructionProcessorInput OmnipairInstruction) :
    OmnipairInstructionProcessor.process perform input = input.upsertCall?.elim done perform := by
  unfold OmnipairInstructionProcessor.process InstructionProcessorInput.upsertCall?
  cases input.decoded.data <;> rfl

/-- The upsert calls of a forest, in the order they are made. -/
def upsertCalls (forest : NestedInstructions) : List UpsertCall :=
  (decodedAlong decodeInstruction (walkAll forest)).filterMap
    InstructionProcessorInput.upsertCall?

theorem each_process_eq {σ : Type} (perform : UpsertCall → Action CarbonError σ)
    (inputs : List (InstructionProcessorInput OmnipairInstruction)) :
    each (OmnipairInstructionProcessor.process perform) inputs =
      each perform (inputs.filterMap InstructionProcessorInput.upsertCall?) := by
  induction inputs with
  | nil => rfl
  | cons input inputs ih =>
    rw [each_cons, ih, process_eq, List.filterMap_cons]
    cases input.upsertCall? <;> rfl

/-- Processing an update is performing its upsert calls up to the first failure. -/
theorem process_eq_each {σ : Type} (perform : UpsertCall → Action CarbonError σ)
    {update : TransactionUpdate} {forest : NestedInstructions}
    (h : nestedInstructions update = .ok forest) (s : σ) :
    Pipeline.process (indexerPipe perform) update s =
      (.returned (each perform (upsertCalls forest) s).1,
        (each perform (upsertCalls forest) s).2) := by
  rw [process_of_nested (indexerPipe perform) h]
  simp only [indexerPipe, each_process_eq, upsertCalls]

end OmnipairIndexer
