/-
What a failed write does to the rest of its transaction.

`?` carries the error of an upsert function out of its handler, out of the
recursive pipe run and out of the loop over the roots, and the pipeline logs it
and takes the next update.  `failed_write_ends_update` states the consequence for
every tree and every store: the decoded instructions are handed over in walk
order up to and including the first one whose handler fails, and none after it.
-/
import OmnipairIndexer.Indexer.Processors

namespace OmnipairIndexer

open Fallible NestedInstruction

abbrev Input := InstructionProcessorInput OmnipairInstruction

def decodedInputs (update : TransactionUpdate) : List Input :=
  match nestedInstructions update with
  | .error _ => []
  | .ok forest => decodedAlong decodeInstruction (walkAll forest)

section

variable {σ : Type} (perform : UpsertCall → Action CarbonError σ)

/-- The pipe of the indexer over a store that records what the processor is
handed. -/
def handingPipe : InstructionPipe OmnipairInstruction CarbonError (σ × List Input) where
  decoder := decodeInstruction
  processor := fun input r =>
    ((OmnipairInstructionProcessor.process perform input r.1).1,
      (OmnipairInstructionProcessor.process perform input r.1).2, r.2 ++ [input])

theorem handing_of_ok {inputs : List Input} {s t : σ} (handed : List Input)
    (h : each (OmnipairInstructionProcessor.process perform) inputs s = (.ok (), t)) :
    each (handingPipe perform).processor inputs (s, handed) = (.ok (), t, handed ++ inputs) := by
  induction inputs generalizing s handed with
  | nil =>
    cases h
    simp
  | cons input inputs ih =>
    obtain ⟨u, hu, hrest⟩ := andThen_eq_ok.mp h
    have hstep : (handingPipe perform).processor input (s, handed) =
        (.ok (), u, handed ++ [input]) := by
      simp only [handingPipe, hu]
    rw [each_cons, andThen_of_ok hstep, ih _ hrest, List.append_assoc, List.singleton_append]

/-- How the processing of an update ends: its inputs were all handed over and
succeeded, or they were handed over up to the first that failed. -/
theorem handing_cases (inputs : List Input) (s : σ) :
    (∃ t, each (OmnipairInstructionProcessor.process perform) inputs s = (.ok (), t) ∧
      each (handingPipe perform).processor inputs (s, []) = (.ok (), t, inputs)) ∨
    ∃ before input after t u e, inputs = before ++ input :: after ∧
      each (OmnipairInstructionProcessor.process perform) before s = (.ok (), t) ∧
      OmnipairInstructionProcessor.process perform input t = (.error e, u) ∧
      each (handingPipe perform).processor inputs (s, []) = (.error e, u, before ++ [input]) := by
  rcases hrun : each (OmnipairInstructionProcessor.process perform) inputs s with ⟨e | _, t⟩
  · right
    obtain ⟨before, input, after, u, rfl, hbefore, hfail⟩ := each_eq_error.mp hrun
    refine ⟨before, input, after, u, t, e, rfl, hbefore, hfail, ?_⟩
    have hstep : (handingPipe perform).processor input (u, [] ++ before) =
        (.error e, t, before ++ [input]) := by
      simp only [handingPipe, hfail, List.nil_append]
    rw [each_append, andThen_of_ok (handing_of_ok perform [] hbefore), each_cons,
      andThen_of_error hstep]
  · exact Or.inl ⟨t, rfl, handing_of_ok perform [] hrun⟩

end

/-- For every update and every store: either the update never reaches the pipe, or
all its decoded instructions are handed over and succeed, or they are handed over
in order up to and including the first failure, whose error and state the update
ends with.  Nothing after that failure is handed over. -/
theorem failed_write_ends_update {σ : Type} (perform : UpsertCall → Action CarbonError σ)
    (update : TransactionUpdate) (s : σ) :
    (∃ outcome, nestedInstructions update = .error outcome ∧
      Pipeline.process (handingPipe perform) update (s, []) = (outcome, s, [])) ∨
    (∃ t,
      each (OmnipairInstructionProcessor.process perform) (decodedInputs update) s = (.ok (), t) ∧
      Pipeline.process (handingPipe perform) update (s, []) =
        (.returned (.ok ()), t, decodedInputs update)) ∨
    ∃ before input after t u e, decodedInputs update = before ++ input :: after ∧
      each (OmnipairInstructionProcessor.process perform) before s = (.ok (), t) ∧
      OmnipairInstructionProcessor.process perform input t = (.error e, u) ∧
      Pipeline.process (handingPipe perform) update (s, []) =
        (.returned (.error e), u, before ++ [input]) := by
  cases hforest : nestedInstructions update with
  | error outcome =>
    refine Or.inl ⟨outcome, rfl, ?_⟩
    simp only [Pipeline.process, hforest]
  | ok forest =>
    right
    have hinputs : decodedInputs update = decodedAlong decodeInstruction (walkAll forest) := by
      simp only [decodedInputs, hforest]
    have hdecoder : (handingPipe perform).decoder = decodeInstruction := rfl
    rw [hinputs, process_of_nested _ hforest, hdecoder]
    rcases handing_cases perform (decodedAlong decodeInstruction (walkAll forest)) s with
      ⟨t, hok, hhand⟩ | ⟨before, input, after, t, u, e, hsplit, hbefore, hfail, hhand⟩
    · exact Or.inl ⟨t, hok, by rw [hhand]⟩
    · exact Or.inr ⟨before, input, after, t, u, e, hsplit, hbefore, hfail, by rw [hhand]⟩

/-! ## A lost event -/

/-- The other events of an update survive the failing ones: each is handed over,
and the store ends as if the failing events were not there. -/
def OthersSurvive {σ : Type} (perform : UpsertCall → Action CarbonError σ)
    (update : TransactionUpdate) (fails : Input → Bool) (s : σ) : Prop :=
  (∀ input ∈ decodedInputs update, fails input = false →
    input ∈ (Pipeline.process (handingPipe perform) update (s, [])).2.2) ∧
  (Pipeline.process (handingPipe perform) update (s, [])).2.1 =
    (each (OmnipairInstructionProcessor.process perform)
      ((decodedInputs update).filter fun input => !fails input) s).2

/-- The instructions of a position update, whose write can be out of range. -/
def isPositionUpdate (input : Input) : Bool :=
  match input.decoded.data with
  | .userPositionUpdatedEvent _ => true
  | _ => false

def isSwap (input : Input) : Bool :=
  match input.decoded.data with
  | .swapEvent _ => true
  | _ => false

/-- A transaction that updates a position, with `2 ^ 63` debt shares, and swaps.
The number does not fit the `BIGINT` column of `debt0_shares`. -/
def debtThenSwap : TransactionUpdate where
  signature := "composed"
  message := .legacy [.filled 1, .filled 9]
    [⟨1, [], UserPositionUpdatedEvent.discriminator ++ List.replicate 55 0 ++ [0x80] ++
        List.replicate 104 0⟩,
      ⟨1, [], SwapEvent.discriminator ++ List.replicate 113 0⟩]
    (fun _ => false) (fun _ => false)
  statusMeta := ⟨none, ⟨[], []⟩⟩
  slot := 1

/-- The position update of `debtThenSwap` is rejected, and with it the swap is
neither handed over nor written. -/
theorem swap_lost_after_rejected_debt :
    ¬ OthersSurvive World.perform debtThenSwap isPositionUpdate World.fresh ∧
      (Pipeline.process (indexerPipe World.perform) debtThenSwap World.fresh).2.db.swaps.cols.length
        = 0 ∧
      (each (OmnipairInstructionProcessor.process World.perform)
        ((decodedInputs debtThenSwap).filter fun input => !(isPositionUpdate input))
        World.fresh).2.db.swaps.cols.length = 1 := by
  have hswap : ((decodedInputs debtThenSwap).any fun input =>
      isSwap input && !(isPositionUpdate input)) = true := by decide +kernel
  have hhanded : ((Pipeline.process (handingPipe World.perform) debtThenSwap
      (World.fresh, [])).2.2.any isSwap) = false := by decide +kernel
  refine ⟨fun h => ?_, by decide +kernel, by decide +kernel⟩
  obtain ⟨input, hinput, hkind⟩ := List.any_eq_true.mp hswap
  rw [Bool.and_eq_true, Bool.not_eq_true'] at hkind
  exact List.any_eq_false.mp hhanded input (h.1 input hinput hkind.2) hkind.1

end OmnipairIndexer
