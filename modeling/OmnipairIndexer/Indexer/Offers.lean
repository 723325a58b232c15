/-
What the decoder is offered and what the processor is handed.

`observingPipe` runs the pipe of the indexer over a store that also records these two.  It
decodes an instruction to what the decoder makes of it, nothing included, so that an
instruction that does not decode is recorded too.  `process_observing` says that observing
changes neither the outcome nor the store.

`offered_in_order` is about every update of the shape that the runtime records: with no
failed write, both lists are those of the executed instructions.
-/
import OmnipairIndexer.Core.ExecutionOrder
import OmnipairIndexer.Indexer.Effects

namespace OmnipairIndexer

open Fallible NestedInstruction

structure Observed (σ : Type) where
  store : σ
  offered : List Instruction
  handed : List (InstructionProcessorInput OmnipairInstruction)

section

variable {σ : Type} (perform : UpsertCall → Action CarbonError σ)

def observingPipe :
    InstructionPipe (Option (DecodedInstruction OmnipairInstruction)) CarbonError (Observed σ) where
  decoder instruction :=
    some ⟨instruction.programId, decodeInstruction instruction, instruction.accounts⟩
  processor input o :=
    match input.decoded.data with
    | none => (.ok (), { o with offered := o.offered ++ [input.raw] })
    | some decoded =>
      let input' := ⟨input.metadata, decoded, input.nested, input.raw⟩
      let (result, store) := OmnipairInstructionProcessor.process perform input' o.store
      (result, ⟨store, o.offered ++ [input.raw], o.handed ++ [input']⟩)

/-- One instruction: the pipe of the indexer, and what is recorded of it. -/
theorem visit_observing (n : NestedInstruction) (o : Observed σ) :
    (observingPipe perform).visit n o =
      (((indexerPipe perform).visit n o.store).1,
        ⟨((indexerPipe perform).visit n o.store).2, o.offered ++ [n.instruction],
          o.handed ++ decodedAlong decodeInstruction [n]⟩) := by
  cases hdecode : decodeInstruction n.instruction with
  | none =>
    simp only [InstructionPipe.visit, observingPipe, indexerPipe, hdecode, done_apply,
      decodedAlong, List.filterMap_cons, Option.map_none, List.filterMap_nil, List.append_nil]
  | some decoded =>
    simp only [InstructionPipe.visit, observingPipe, indexerPipe, hdecode, decodedAlong,
      List.filterMap_cons, Option.map_some, List.filterMap_nil]

/-- Observing leaves the outcome and the store of the pipe as they are, and records every
instruction if none fails. -/
theorem each_visit_observing (nodes : List NestedInstruction) :
    ∀ o : Observed σ,
      (each (observingPipe perform).visit nodes o).1 =
          (each (indexerPipe perform).visit nodes o.store).1 ∧
        (each (observingPipe perform).visit nodes o).2.store =
          (each (indexerPipe perform).visit nodes o.store).2 ∧
        ((each (indexerPipe perform).visit nodes o.store).1 = .ok () →
          (each (observingPipe perform).visit nodes o).2.offered =
              o.offered ++ nodes.map NestedInstruction.instruction ∧
            (each (observingPipe perform).visit nodes o).2.handed =
              o.handed ++ decodedAlong decodeInstruction nodes) := by
  induction nodes with
  | nil => exact fun o => ⟨rfl, rfl, fun _ => ⟨(List.append_nil _).symm, (List.append_nil _).symm⟩⟩
  | cons n nodes ih =>
    intro o
    have hvisit := visit_observing perform n o
    rw [each_cons, each_cons]
    rcases hn : (indexerPipe perform).visit n o.store with ⟨e | _, store⟩
    · rw [hn] at hvisit
      rw [andThen_of_error hn, andThen_of_error hvisit]
      exact ⟨rfl, rfl, fun h => by cases h⟩
    · rw [hn] at hvisit
      rw [andThen_of_ok hn, andThen_of_ok hvisit]
      obtain ⟨hresult, hstore, hrecorded⟩ := ih ⟨store, _, _⟩
      refine ⟨hresult, hstore, fun hok => ?_⟩
      obtain ⟨hoffered, hhanded⟩ := hrecorded hok
      rw [hoffered, hhanded, List.append_assoc, List.append_assoc, List.map_cons]
      refine ⟨rfl, congrArg _ ?_⟩
      rw [decodedAlong, decodedAlong, ← List.filterMap_append]
      rfl

theorem process_observing (update : TransactionUpdate) (s : σ) :
    (Pipeline.process (observingPipe perform) update ⟨s, [], []⟩).1 =
        (Pipeline.process (indexerPipe perform) update s).1 ∧
      (Pipeline.process (observingPipe perform) update ⟨s, [], []⟩).2.store =
        (Pipeline.process (indexerPipe perform) update s).2 := by
  unfold Pipeline.process
  cases nestedInstructions update with
  | error outcome => exact ⟨rfl, rfl⟩
  | ok forest =>
    obtain ⟨hresult, hstore, -⟩ :=
      each_visit_observing perform (walkAll forest) ⟨s, [], []⟩
    simp only [each_run_eq]
    exact ⟨congrArg _ hresult, hstore⟩

/-- What an input hands over of its instruction. -/
theorem decodedAlong_events (nodes : List NestedInstruction) :
    ((decodedAlong decodeInstruction nodes).map fun input => (input.raw, input.decoded)) =
      (nodes.map NestedInstruction.instruction).filterMap fun instruction =>
        (decodeInstruction instruction).map fun decoded => (instruction, decoded) := by
  rw [decodedAlong, List.map_filterMap, List.filterMap_map]
  refine List.filterMap_congr fun n _ => ?_
  simp only [Option.map_map, Function.comp_def]

end

/-- No write of the update fails. -/
def WritesSucceed {σ : Type} (perform : UpsertCall → Action CarbonError σ)
    (update : TransactionUpdate) (s : σ) : Prop :=
  ∀ e, (Pipeline.process (indexerPipe perform) update s).1 ≠ .returned (.error e)

/-- The program and the data of a compiled instruction. -/
def TransactionUpdate.callOf (update : TransactionUpdate) (compiled : CompiledInstruction) :
    Pubkey × List UInt8 :=
  (update.messageKeys[compiled.programIdIndex.toNat]?.getD .default, compiled.data)

/-- With no failed write, an update of the recorded shape is processed to its end.  The
decoder is offered the executed instructions in the order of their execution, each as often
as it was executed, and the processor is handed those of them that decode.  The programs and
the data offered are those of the compiled instructions, each top-level one followed by its
groups.  A message without a fee payer, which `Recorded` assumes, is refused as a whole. -/
theorem offered_in_order {σ : Type} (perform : UpsertCall → Action CarbonError σ)
    {update : TransactionUpdate} (h : update.Recorded) (s : σ)
    (hwrites : WritesSucceed perform update s) :
    ∃ o, Pipeline.process (observingPipe perform) update ⟨s, [], []⟩ = (.returned (.ok ()), o) ∧
      o.offered = update.executed ∧
      (o.handed.map fun input => (input.raw, input.decoded)) =
        update.executed.filterMap (fun instruction =>
          (decodeInstruction instruction).map fun decoded => (instruction, decoded)) ∧
      o.offered.map (fun instruction => (instruction.programId, instruction.data)) =
        (executionOrder update.message.instructions update.groups).map update.callOf ∧
      update.executed.Perm ((update.message.instructions ++ update.groups.flatMap fun group =>
        group.instructions.map InnerInstruction.instruction).map update.build) := by
  obtain ⟨forest, hforest, hwalk⟩ := update.nested_in_order h
  obtain ⟨hresult, -, hrecorded⟩ := each_visit_observing perform (walkAll forest) ⟨s, [], []⟩
  have hok : (each (indexerPipe perform).visit (walkAll forest) s).1 = .ok () := by
    cases hrun : (each (indexerPipe perform).visit (walkAll forest) s).1 with
    | ok => rfl
    | error e =>
      refine absurd ?_ (hwrites e)
      simp only [Pipeline.process, hforest, each_run_eq, hrun]
  obtain ⟨hoffered, hhanded⟩ := hrecorded hok
  have hexecuted : (each (observingPipe perform).visit (walkAll forest) ⟨s, [], []⟩).2.offered =
      update.executed := by
    rw [hoffered, List.nil_append, hwalk]
  refine ⟨(each (observingPipe perform).visit (walkAll forest) ⟨s, [], []⟩).2, ?_, hexecuted, ?_,
    ?_, (executionOrder_perm h.index_lt).map update.build⟩
  · simp only [Pipeline.process, hforest, each_run_eq, hresult, hok]
  · rw [hhanded, List.nil_append, decodedAlong_events, hwalk]
  · rw [hexecuted, TransactionUpdate.executed, List.map_map]
    refine List.map_congr_left fun compiled _ => ?_
    exact Prod.ext (update.build_programId compiled) (update.build_data compiled)

/-- Two instructions.  The first one calls two programs, and the first of these one more,
which reports a swap. -/
def twoCalls : TransactionUpdate where
  signature := "calls"
  message := .legacy [.filled 1, .filled 9] [⟨1, [], [1]⟩, ⟨1, [], [2]⟩] (fun _ => false)
    (fun _ => false)
  statusMeta := ⟨some [⟨0, [⟨⟨1, [], [3]⟩, some 2⟩,
    ⟨⟨1, [], SwapEvent.discriminator ++ List.replicate 113 0⟩, some 3⟩,
    ⟨⟨1, [], [4]⟩, some 2⟩]⟩], ⟨[], []⟩⟩
  slot := 1

theorem offered_in_order_twoCalls :
    ∃ o, Pipeline.process (observingPipe World.perform) twoCalls ⟨World.fresh, [], []⟩ =
        (.returned (.ok ()), o) ∧
      o.offered.map (fun instruction => instruction.data) = [[1], [3],
        SwapEvent.discriminator ++ List.replicate 113 0, [4], [2]] := by
  have hrecorded : twoCalls.Recorded := by
    refine ⟨List.cons_ne_nil _ _, ?_, ?_⟩
    · intro group hgroup
      rw [List.mem_singleton.mp hgroup]
      decide
    · intro group hgroup
      rw [List.mem_singleton.mp hgroup]
      refine ⟨?_, ?_, ?_, ?_, ?_, ?_, ?_, ?_, ?_, trivial⟩ <;> decide
  have hwrites : WritesSucceed World.perform twoCalls World.fresh := by
    have hok : (match (Pipeline.process (indexerPipe World.perform) twoCalls World.fresh).1 with
      | .returned (.ok _) => true
      | _ => false) = true := by decide +kernel
    intro e he
    rw [he] at hok
    cases hok
  obtain ⟨o, hprocess, -, -, hcalls, -⟩ :=
    offered_in_order World.perform hrecorded World.fresh hwrites
  refine ⟨o, hprocess, ?_⟩
  have hdata := congrArg (List.map Prod.snd) hcalls
  rw [List.map_map] at hdata
  exact hdata.trans (by decide +kernel)

end OmnipairIndexer
