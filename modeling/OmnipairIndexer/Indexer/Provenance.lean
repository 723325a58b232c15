/-
Where the rows of the database come from.

The subscription filters transactions by the Omnipair program id, and nothing
behind it looks at a program id again: the decoder decides on the data of an
instruction alone and the processor on what was decoded.  So the provenance of a
row is a property of the bytes that other programs put into the transaction.

`callsMade` records, for every upsert call, the instruction it was made for, and
`upsert_provenance` says that it is one of the transaction's.  It also states exactly
when all of them belong to one program: when no instruction of another program in the
tree carries the discriminator of one of the nine persisted events with a well-formed
payload behind it.
-/
import OmnipairIndexer.Indexer.Processors

namespace OmnipairIndexer

open Codec Fallible NestedInstruction

/-! ## The bytes that decode to a persisted event -/

/-- Discriminator and payload shape of the events with an upsert function. -/
def persistedLayouts : List (List UInt8 × List Shape) :=
  [(AdjustCollateralEvent.discriminator, AdjustCollateralEvent.shape),
    (AdjustDebtEvent.discriminator, AdjustDebtEvent.shape),
    (BurnEvent.discriminator, BurnEvent.shape),
    (MintEvent.discriminator, MintEvent.shape),
    (PairCreatedEvent.discriminator, PairCreatedEvent.shape),
    (SwapEvent.discriminator, SwapEvent.shape),
    (UserLiquidityPositionUpdatedEvent.discriminator, UserLiquidityPositionUpdatedEvent.shape),
    (UserPositionLiquidatedEvent.discriminator, UserPositionLiquidatedEvent.shape),
    (UserPositionUpdatedEvent.discriminator, UserPositionUpdatedEvent.shape)]

/-- Instruction data that holds a persisted event: its discriminator, the fields
of its payload, and anything behind them. -/
def CarriesEvent (data : List UInt8) : Prop :=
  ∃ layout ∈ persistedLayouts, ∃ payload, data = layout.1 ++ payload ∧ WellFormed layout.2 payload

def persistedOf (data : List UInt8) : Option PersistedEvent :=
  (decodeData data).bind OmnipairInstruction.persisted?

/-- A candidate whose payloads are never persisted. -/
def Ignored (c : Candidate OmnipairInstruction) : Prop :=
  Yields (fun ix => ix.persisted? = none) c.reader

/-- A candidate of the given layout whose payloads are always persisted. -/
structure Persists (layout : List UInt8 × List Shape) (c : Candidate OmnipairInstruction) :
    Prop where
  tag : c.tag = layout.1
  shape : Follows c.reader layout.2
  persisted : Yields (fun ix => ix.persisted?.isSome) c.reader

theorem ignored_event {T : Type} {discriminator : List UInt8} {deserialize : Reader T}
    {variant : T → OmnipairInstruction} (hvariant : ∀ event, (variant event).persisted? = none) :
    Ignored (eventCandidate discriminator deserialize variant) :=
  Yields.bind fun event => Yields.pure (hvariant event)

theorem persists_event {T : Type} {discriminator : List UInt8} {deserialize : Reader T}
    {shape : List Shape} (hshape : Follows deserialize shape) (variant : T → OmnipairInstruction)
    (hvariant : ∀ event, (variant event).persisted?.isSome) :
    Persists (discriminator, shape) (eventCandidate discriminator deserialize variant) where
  tag := rfl
  shape := hshape.map _
  persisted := Yields.bind fun event => Yields.pure (hvariant event)

theorem ignored_of_mem_instructions : ∀ c ∈ instructionCandidates, Ignored c := by
  simp only [instructionCandidates, List.forall_mem_cons, List.not_mem_nil, false_imp_iff,
    implies_true, and_true]
  and_intros
  all_goals first
    | exact Yields.pure rfl
    | exact Yields.bind fun _ => Yields.pure rfl
    | exact Yields.bind fun _ => Yields.bind fun _ => Yields.pure rfl

/-- The candidates of the nine persisted events, in the order of their layouts. -/
def persistedCandidates : List (Candidate OmnipairInstruction) :=
  [eventCandidate AdjustCollateralEvent.discriminator AdjustCollateralEvent.deserialize
      .adjustCollateralEvent,
    eventCandidate AdjustDebtEvent.discriminator AdjustDebtEvent.deserialize .adjustDebtEvent,
    eventCandidate BurnEvent.discriminator BurnEvent.deserialize .burnEvent,
    eventCandidate MintEvent.discriminator MintEvent.deserialize .mintEvent,
    eventCandidate PairCreatedEvent.discriminator PairCreatedEvent.deserialize .pairCreatedEvent,
    eventCandidate SwapEvent.discriminator SwapEvent.deserialize .swapEvent,
    eventCandidate UserLiquidityPositionUpdatedEvent.discriminator
      UserLiquidityPositionUpdatedEvent.deserialize .userLiquidityPositionUpdatedEvent,
    eventCandidate UserPositionLiquidatedEvent.discriminator
      UserPositionLiquidatedEvent.deserialize .userPositionLiquidatedEvent,
    eventCandidate UserPositionUpdatedEvent.discriminator UserPositionUpdatedEvent.deserialize
      .userPositionUpdatedEvent]

theorem persists_of_layouts :
    List.Forall₂ Persists persistedLayouts persistedCandidates := by
  refine .cons ?_ (.cons ?_ (.cons ?_ (.cons ?_ (.cons ?_ (.cons ?_ (.cons ?_ (.cons ?_
    (.cons ?_ .nil))))))))
  · exact persists_event AdjustCollateralEvent.follows .adjustCollateralEvent fun _ => rfl
  · exact persists_event AdjustDebtEvent.follows .adjustDebtEvent fun _ => rfl
  · exact persists_event BurnEvent.follows .burnEvent fun _ => rfl
  · exact persists_event MintEvent.follows .mintEvent fun _ => rfl
  · exact persists_event PairCreatedEvent.follows .pairCreatedEvent fun _ => rfl
  · exact persists_event SwapEvent.follows .swapEvent fun _ => rfl
  · exact persists_event UserLiquidityPositionUpdatedEvent.follows
      .userLiquidityPositionUpdatedEvent fun _ => rfl
  · exact persists_event UserPositionLiquidatedEvent.follows .userPositionLiquidatedEvent
      fun _ => rfl
  · exact persists_event UserPositionUpdatedEvent.follows .userPositionUpdatedEvent fun _ => rfl

/-- Every candidate is one of the nine or is never persisted. -/
theorem ignored_or_persisted : ∀ c ∈ candidates, Ignored c ∨ c ∈ persistedCandidates := by
  rw [candidates, List.forall_mem_append]
  refine ⟨fun c hc => Or.inl (ignored_of_mem_instructions c hc), ?_⟩
  simp only [eventCandidates, List.forall_mem_cons, List.not_mem_nil, false_imp_iff,
    implies_true, and_true]
  and_intros
  all_goals first
    | exact Or.inl (ignored_event fun _ => rfl)
    | right; simp [persistedCandidates]

theorem mem_candidates_of_persisted : ∀ c ∈ persistedCandidates, c ∈ candidates := by
  simp only [persistedCandidates, List.forall_mem_cons, List.not_mem_nil, false_imp_iff,
    implies_true, and_true]
  and_intros
  all_goals exact List.mem_append_right _ (by simp [eventCandidates])

/-- An instruction reaches an upsert function exactly when its data carries one of
the nine events.  Its program id and accounts do not matter. -/
theorem persistedOf_isSome_iff (data : List UInt8) :
    (persistedOf data).isSome ↔ CarriesEvent data := by
  constructor
  · intro h
    obtain ⟨event, hevent⟩ := Option.isSome_iff_exists.mp h
    obtain ⟨ix, hix, hpersisted⟩ := Option.bind_eq_some_iff.mp hevent
    obtain ⟨c, hc, hdec⟩ := (decodeData_eq_some_iff data ix).mp hix
    rcases ignored_or_persisted c hc with hign | hmem
    · have := Candidate.decode_yields hign hdec
      rw [this] at hpersisted
      cases hpersisted
    · obtain ⟨layout, hlayout, hpersists⟩ :=
        exists_partner persists_of_layouts.flip c hmem
      obtain ⟨payload, hdata, hwf⟩ :=
        (Candidate.decode_isSome_iff hpersists.shape data).mp (Option.isSome_of_eq_some hdec)
      exact ⟨layout, hlayout, payload, hpersists.tag ▸ hdata, hwf⟩
  · rintro ⟨layout, hlayout, payload, hdata, hwf⟩
    obtain ⟨c, hmem, hpersists⟩ := exists_partner persists_of_layouts layout hlayout
    have hsome : (c.decode data).isSome :=
      (Candidate.decode_isSome_iff hpersists.shape data).mpr
        ⟨payload, hpersists.tag.symm ▸ hdata, hwf⟩
    obtain ⟨ix, hdec⟩ := Option.isSome_iff_exists.mp hsome
    have hix := (decodeData_eq_some_iff data ix).mpr ⟨c, mem_candidates_of_persisted c hmem, hdec⟩
    rw [persistedOf, hix, Option.bind_some]
    exact Candidate.decode_yields hpersists.persisted hdec

/-! ## The calls of an update, with the instructions they are made for -/

section Calls

variable {σ : Type}

abbrev Recorded (σ : Type) := σ × List (Instruction × UpsertCall)

/-- `perform`, recording the call and the instruction it is made for. -/
def recording (perform : UpsertCall → Action CarbonError σ) (raw : Instruction)
    (call : UpsertCall) : Action CarbonError (Recorded σ) := fun r =>
  ((perform call r.1).1, (perform call r.1).2, r.2 ++ [(raw, call)])

def recordingPipe (perform : UpsertCall → Action CarbonError σ) :
    InstructionPipe OmnipairInstruction CarbonError (Recorded σ) where
  decoder := decodeInstruction
  processor := fun input => OmnipairInstructionProcessor.process (recording perform input.raw) input

def callsMade (perform : UpsertCall → Action CarbonError σ) (update : TransactionUpdate) (s : σ) :
    List (Instruction × UpsertCall) :=
  (Pipeline.process (recordingPipe perform) update (s, [])).2.2

/-- The instructions of an update: what is extracted from its message. -/
def TransactionUpdate.instructions (update : TransactionUpdate) : List Instruction :=
  match TransactionMetadata.tryFrom update with
  | .error _ => []
  | .ok transactionMetadata =>
    ((extractInstructionsWithMetadata transactionMetadata update).getD []).map Prod.snd

/-- Recording changes neither the outcome of a call nor the store. -/
theorem recording_apply (perform : UpsertCall → Action CarbonError σ) (raw : Instruction)
    (call : UpsertCall) (s : σ) (log : List (Instruction × UpsertCall)) :
    recording perform raw call (s, log) =
      ((perform call s).1, (perform call s).2, log ++ [(raw, call)]) := rfl

theorem mem_instructions_of_walk {update : TransactionUpdate} {forest : NestedInstructions}
    (h : nestedInstructions update = .ok forest) {n : NestedInstruction}
    (hn : n ∈ walkAll forest) : n.instruction ∈ update.instructions := by
  obtain ⟨md, entries, hmd, hentries, hbuilt⟩ := nestedInstructions_eq_ok h
  simp only [TransactionUpdate.instructions, hmd, hentries, Option.getD_some]
  exact List.mem_map_of_mem (UnsafeNestedBuilder.mem_of_build hbuilt hn)

theorem mem_decodedAlong_iff {nodes : List NestedInstruction}
    {input : InstructionProcessorInput OmnipairInstruction} :
    input ∈ decodedAlong decodeInstruction nodes ↔
      ∃ n ∈ nodes, ∃ ix, decodeData n.instruction.data = some ix ∧
        input = ⟨n.metadata, ⟨n.instruction.programId, ix, n.instruction.accounts⟩,
          n.innerInstructions, n.instruction⟩ := by
  simp only [decodedAlong, List.mem_filterMap, decodeInstruction, Option.map_eq_some_iff]
  constructor
  · rintro ⟨n, hn, _, ⟨ix, hix, rfl⟩, rfl⟩
    exact ⟨n, hn, ix, hix, rfl⟩
  · rintro ⟨n, hn, ix, hix, rfl⟩
    exact ⟨n, hn, _, ⟨ix, hix, rfl⟩, rfl⟩

/-- A recorded call is the upsert call of an input, made for its instruction. -/
theorem recorded_sound (perform : UpsertCall → Action CarbonError σ)
    (inputs : List (InstructionProcessorInput OmnipairInstruction)) (s : σ) :
    ∀ p ∈ (each (recordingPipe perform).processor inputs (s, [])).2.2,
      ∃ input ∈ inputs, input.raw = p.1 ∧ input.upsertCall? = some p.2 := by
  refine each_invariant (I := fun r : Recorded σ => ∀ p ∈ r.2,
    ∃ input ∈ inputs, input.raw = p.1 ∧ input.upsertCall? = some p.2) ?_ (by simp)
  rintro input hinput ⟨t, log⟩ hlog p hp
  simp only [recordingPipe, process_eq] at hp
  cases hcall : input.upsertCall? with
  | none =>
    rw [hcall] at hp
    exact hlog p hp
  | some call =>
    rw [hcall, Option.elim_some, recording_apply] at hp
    rcases List.mem_append.mp hp with hp | hp
    · exact hlog p hp
    · rw [List.mem_singleton] at hp
      exact ⟨input, hinput, hp ▸ rfl, hp ▸ hcall⟩

def accepting : UpsertCall → Action CarbonError Unit := fun _ => done

/-- On a store that accepts everything no input is left out. -/
theorem recorded_complete (inputs : List (InstructionProcessorInput OmnipairInstruction))
    (log : List (Instruction × UpsertCall)) :
    (each (recordingPipe accepting).processor inputs ((), log)).2.2 =
      log ++ inputs.filterMap fun input => input.upsertCall?.map fun call => (input.raw, call) := by
  induction inputs generalizing log with
  | nil => simp
  | cons input inputs ih =>
    have hstep : (recordingPipe accepting).processor input ((), log) =
        (.ok (), (), log ++ (input.upsertCall?.map fun call => (input.raw, call)).toList) := by
      simp only [recordingPipe, process_eq]
      cases input.upsertCall? with
      | none => simp
      | some call => rfl
    rw [each_cons, andThen_of_ok hstep, ih, List.filterMap_cons]
    cases input.upsertCall? <;> simp

end Calls

/-! ## Provenance -/

/-- The claim one would like to make of the indexer: whatever the store does, the
rows it writes for an update come from instructions of `programId`. -/
def WritesOnlyFrom (programId : Pubkey) (update : TransactionUpdate) : Prop :=
  ∀ (σ : Type) (perform : UpsertCall → Action CarbonError σ) (s : σ),
    ∀ p ∈ callsMade perform update s, p.1 ∈ update.instructions ∧ p.1.programId = programId

/-- A call that is made is made for an instruction of the tree, whose data decodes to
the event of the call. -/
theorem callsMade_sound {σ : Type} {perform : UpsertCall → Action CarbonError σ}
    {update : TransactionUpdate} {s : σ} {p : Instruction × UpsertCall}
    (hp : p ∈ callsMade perform update s) :
    ∃ forest, nestedInstructions update = .ok forest ∧ ∃ n ∈ walkAll forest,
      n.instruction = p.1 ∧ persistedOf p.1.data = some p.2.event := by
  unfold callsMade at hp
  cases hforest : nestedInstructions update with
  | error outcome => simp [Pipeline.process, hforest] at hp
  | ok forest =>
    rw [process_of_nested _ hforest] at hp
    obtain ⟨input, hinput, hraw, hcall⟩ := recorded_sound perform _ s p hp
    obtain ⟨n, hn, ix, hix, rfl⟩ := mem_decodedAlong_iff.mp hinput
    obtain ⟨event, hevent, hmade⟩ := Option.map_eq_some_iff.mp hcall
    refine ⟨forest, rfl, n, hn, hraw, ?_⟩
    rw [← hraw, ← hmade, persistedOf, hix, Option.bind_some]
    exact hevent

/-- Every upsert call of an update is made for one of its instructions, which holds the
event of the call.  They are all made for instructions of `programId` exactly when no
other instruction of the tree carries one of the nine events in its data. -/
theorem upsert_provenance (programId : Pubkey) (update : TransactionUpdate) :
    (∀ (σ : Type) (perform : UpsertCall → Action CarbonError σ) (s : σ),
        ∀ p ∈ callsMade perform update s,
          p.1 ∈ update.instructions ∧ persistedOf p.1.data = some p.2.event) ∧
      (WritesOnlyFrom programId update ↔
        ∀ forest, nestedInstructions update = .ok forest → ∀ n ∈ walkAll forest,
          n.instruction.programId ≠ programId → ¬ CarriesEvent n.instruction.data) := by
  have hmade : ∀ (σ : Type) (perform : UpsertCall → Action CarbonError σ) (s : σ),
      ∀ p ∈ callsMade perform update s,
        p.1 ∈ update.instructions ∧ persistedOf p.1.data = some p.2.event := by
    intro σ perform s p hp
    obtain ⟨forest, hforest, n, hn, hraw, hevent⟩ := callsMade_sound hp
    exact ⟨hraw ▸ mem_instructions_of_walk hforest hn, hevent⟩
  refine ⟨hmade, fun h forest hforest n hn hforeign hcarries => ?_, fun h σ perform s p hp => ?_⟩
  · obtain ⟨event, hevent⟩ := Option.isSome_iff_exists.mp
      ((persistedOf_isSome_iff n.instruction.data).mpr hcarries)
    obtain ⟨ix, hix, hpersisted⟩ := Option.bind_eq_some_iff.mp hevent
    have hmade : (n.instruction, (⟨event, n.metadata.transactionMetadata.signature,
        OmnipairInstructionProcessor.slotOf n.metadata⟩ : UpsertCall)) ∈
        callsMade accepting update () := by
      rw [callsMade, process_of_nested _ hforest, recorded_complete, List.nil_append,
        List.mem_filterMap]
      refine ⟨_, mem_decodedAlong_iff.mpr ⟨n, hn, ix, hix, rfl⟩, ?_⟩
      simp only [InstructionProcessorInput.upsertCall?, hpersisted, Option.map_some]
    exact hforeign (h Unit accepting () _ hmade).2
  · obtain ⟨forest, hforest, n, hn, hraw, hevent⟩ := callsMade_sound hp
    refine ⟨(hmade σ perform s p hp).1, ?_⟩
    by_contra hforeign
    refine h forest hforest n hn (hraw ▸ hforeign) ?_
    rw [← persistedOf_isSome_iff, hraw]
    exact Option.isSome_of_eq_some hevent

/-- A transaction with one instruction, of the program `filled 2`, whose data is
the discriminator of a swap event and a payload of zeros. -/
def forgedSwap : TransactionUpdate where
  signature := "forged"
  message := .legacy [.filled 1, .filled 2]
    [⟨1, [], SwapEvent.discriminator ++ List.replicate 113 0⟩] (fun _ => false) (fun _ => false)
  statusMeta := ⟨none, ⟨[], []⟩⟩
  slot := 1

/-- A foreign instruction with the bytes of a swap event becomes a row of `swaps`. -/
theorem forged_swap_written :
    ¬ WritesOnlyFrom (.filled 9) forgedSwap ∧
      (Pipeline.process (indexerPipe World.perform) forgedSwap World.fresh).2.db.swaps.cols.map
        (fun row => row.cols.pair) = [.filled 0] := by
  have hcalls : (callsMade accepting forgedSwap ()).map (fun p => p.1.programId) = [.filled 2] := by
    decide +kernel
  refine ⟨fun h => ?_, by decide +kernel⟩
  have hmem : Pubkey.filled 2 ∈ (callsMade accepting forgedSwap ()).map (fun p => p.1.programId) :=
    hcalls ▸ List.mem_singleton_self _
  obtain ⟨p, hp, hprogram⟩ := List.mem_map.mp hmem
  exact absurd (hprogram.symm.trans (h Unit accepting () p hp).2) (by decide)

end OmnipairIndexer
