/-
From a transaction update to the instruction pipe.

`processInstructions` flattens the compiled instructions of a message into one
list: each top-level instruction and, after it, the inner instructions recorded
for its index.  It panics (`none`) on an inner stack height that does not index
the path stack.  `Pipeline.process` builds the tree from that list and runs the
registered pipe over its roots, returning the first error.

Two methods of the Solana message type are taken as given, `is_maybe_writable`
and `is_signer` of a legacy message.  They fill in account flags, which neither
the decoder nor a processor reads.
-/
import OmnipairIndexer.Core.Instruction

namespace OmnipairIndexer

open Fallible NestedInstruction

structure CompiledInstruction where
  programIdIndex : UInt8
  accounts : List UInt8
  data : List UInt8

structure InnerInstruction where
  instruction : CompiledInstruction
  stackHeight : Option UInt32

structure InnerInstructions where
  index : UInt8
  instructions : List InnerInstruction

structure LoadedAddresses where
  writable : List Pubkey
  readonly : List Pubkey

structure TransactionStatusMeta where
  innerInstructions : Option (List InnerInstructions)
  loadedAddresses : LoadedAddresses

inductive VersionedMessage where
  | legacy (accountKeys : List Pubkey) (instructions : List CompiledInstruction)
      (isMaybeWritable isSigner : Nat → Bool)
  | v0 (accountKeys : List Pubkey) (instructions : List CompiledInstruction)
      (numRequiredSignatures : Nat)

def VersionedMessage.staticAccountKeys : VersionedMessage → List Pubkey
  | legacy accountKeys _ _ _ => accountKeys
  | v0 accountKeys _ _ => accountKeys

structure TransactionUpdate where
  signature : String
  message : VersionedMessage
  statusMeta : TransactionStatusMeta
  slot : UInt64

inductive CarbonError where
  | missingFeePayer
  | custom (message : String)
  deriving DecidableEq, Repr

def TransactionMetadata.tryFrom (update : TransactionUpdate) :
    Except CarbonError TransactionMetadata :=
  match update.message.staticAccountKeys with
  | feePayer :: _ => .ok ⟨update.slot, update.signature, feePayer⟩
  | [] => .error .missingFeePayer

/-! ## Flattening -/

section Transformers

variable (accountKeys : List Pubkey) (transactionMetadata : TransactionMetadata)
  (isWritable isSigner : Pubkey → Nat → Bool)

/-- `build_instruction`; an account index without a key is skipped and a missing
program id becomes the default key. -/
def buildInstruction (instruction : CompiledInstruction) : Instruction where
  programId := accountKeys[instruction.programIdIndex.toNat]?.getD Pubkey.default
  accounts := instruction.accounts.filterMap fun accountIdx =>
    accountKeys[accountIdx.toNat]?.map fun key =>
      { pubkey := key
        isWritable := isWritable key accountIdx.toNat
        isSigner := isSigner key accountIdx.toNat }
  data := instruction.data

structure PathState where
  pathStack : List UInt8
  prevHeight : Nat

/-- One round of the loop over a group of inner instructions. -/
def processInner (index : UInt8) (st : PathState) (inner : InnerInstruction) :
    Option ((InstructionMetadata × Instruction) × PathState) :=
  let stackHeight := (inner.stackHeight.getD 1).toNat
  if stackHeight = 0 ∨ maxInstructionStackDepth < stackHeight then
    none
  else
    let pathStack :=
      if st.prevHeight < stackHeight then st.pathStack.set (stackHeight - 1) 0
      else st.pathStack.modify (stackHeight - 1) (· + 1)
    some
      ((⟨transactionMetadata, stackHeight, index.toNat, pathStack.take stackHeight⟩,
        buildInstruction accountKeys isWritable isSigner inner.instruction),
        ⟨pathStack, stackHeight⟩)

def processGroupFrom (index : UInt8) :
    PathState → List InnerInstruction → Option (List (InstructionMetadata × Instruction))
  | _, [] => some []
  | st, inner :: rest => do
    let (entry, st) ←
      processInner accountKeys transactionMetadata isWritable isSigner index st inner
    let entries ← processGroupFrom index st rest
    return entry :: entries

def processGroup (group : InnerInstructions) :
    Option (List (InstructionMetadata × Instruction)) :=
  processGroupFrom accountKeys transactionMetadata isWritable isSigner group.index
    ⟨(List.replicate maxInstructionStackDepth 0).set 0 group.index, 0⟩ group.instructions

/-- A top-level instruction and the groups recorded for its index. -/
def processTopLevel (inner : Option (List InnerInstructions))
    (entry : CompiledInstruction × Nat) : Option (List (InstructionMetadata × Instruction)) := do
  let groups ← ((inner.getD []).filter fun group => group.index.toNat = entry.2).mapM
    (processGroup accountKeys transactionMetadata isWritable isSigner)
  return (⟨transactionMetadata, 1, entry.2, [UInt8.ofNat entry.2]⟩,
    buildInstruction accountKeys isWritable isSigner entry.1) :: groups.flatten

def processInstructions (instructions : List CompiledInstruction)
    (inner : Option (List InnerInstructions)) :
    Option (List (InstructionMetadata × Instruction)) := do
  let entries ← instructions.zipIdx.mapM
    (processTopLevel accountKeys transactionMetadata isWritable isSigner inner)
  return entries.flatten

end Transformers

def extractInstructionsWithMetadata (transactionMetadata : TransactionMetadata)
    (update : TransactionUpdate) : Option (List (InstructionMetadata × Instruction)) :=
  match update.message with
  | .legacy accountKeys instructions isMaybeWritable isSigner =>
    processInstructions accountKeys transactionMetadata (fun _ idx => isMaybeWritable idx)
      (fun _ idx => isSigner idx) instructions update.statusMeta.innerInstructions
  | .v0 staticKeys instructions numRequiredSignatures =>
    let loaded := update.statusMeta.loadedAddresses
    processInstructions (staticKeys ++ loaded.writable ++ loaded.readonly) transactionMetadata
      (fun key _ => key ∈ loaded.writable) (fun _ idx => idx < numRequiredSignatures) instructions
      update.statusMeta.innerInstructions

/-! ## `Pipeline::process` -/

/-- How the processing of one update ends: with a result or with a panic. -/
inductive Outcome where
  | returned (result : Except CarbonError Unit)
  | panicked

/-- The tree `Pipeline::process` hands to its pipes. -/
def nestedInstructions (update : TransactionUpdate) : Except Outcome NestedInstructions :=
  match TransactionMetadata.tryFrom update with
  | .error e => .error (.returned (.error e))
  | .ok transactionMetadata =>
    match extractInstructionsWithMetadata transactionMetadata update with
    | none => .error .panicked
    | some instructions =>
      match UnsafeNestedBuilder.build instructions with
      | none => .error .panicked
      | some forest => .ok forest

/-- `Pipeline::process` on a transaction update, with one instruction pipe and
no transaction pipes. -/
def Pipeline.process {T σ : Type} (pipe : InstructionPipe T CarbonError σ)
    (update : TransactionUpdate) (s : σ) : Outcome × σ :=
  match nestedInstructions update with
  | .error outcome => (outcome, s)
  | .ok forest =>
    let (result, t) := each pipe.run forest s
    (.returned result, t)

theorem each_run_eq {T ε σ : Type} (pipe : InstructionPipe T ε σ) (forest : NestedInstructions) :
    each pipe.run forest = each pipe.visit (walkAll forest) := by
  rw [← pipe.runInner_eq_each]
  induction forest with
  | nil => rfl
  | cons n ns ih => rw [each_cons, ih, InstructionPipe.runInner]

/-- The instructions of the tree that decode, with what they decode to. -/
def decodedAlong {T : Type} (decoder : Instruction → Option (DecodedInstruction T))
    (nodes : List NestedInstruction) : List (InstructionProcessorInput T) :=
  nodes.filterMap fun n =>
    (decoder n.instruction).map fun decoded =>
      ⟨n.metadata, decoded, n.innerInstructions, n.instruction⟩

theorem each_visit_eq {T ε σ : Type} (pipe : InstructionPipe T ε σ)
    (nodes : List NestedInstruction) :
    each pipe.visit nodes = each pipe.processor (decodedAlong pipe.decoder nodes) := by
  induction nodes with
  | nil => rfl
  | cons n ns ih =>
    rw [each_cons, ih]
    unfold decodedAlong InstructionPipe.visit
    rw [List.filterMap_cons]
    cases pipe.decoder n.instruction <;> rfl

theorem process_of_nested {T σ : Type} (pipe : InstructionPipe T CarbonError σ)
    {update : TransactionUpdate} {forest : NestedInstructions}
    (h : nestedInstructions update = .ok forest) (s : σ) :
    Pipeline.process pipe update s =
      (.returned (each pipe.processor (decodedAlong pipe.decoder (walkAll forest)) s).1,
        (each pipe.processor (decodedAlong pipe.decoder (walkAll forest)) s).2) := by
  unfold Pipeline.process
  rw [h]
  simp only [each_run_eq, each_visit_eq]

/-! ## What reaches the pipe -/

theorem nestedInstructions_eq_ok {update : TransactionUpdate} {forest : NestedInstructions}
    (h : nestedInstructions update = .ok forest) :
    ∃ md entries, TransactionMetadata.tryFrom update = .ok md ∧
      extractInstructionsWithMetadata md update = some entries ∧
      UnsafeNestedBuilder.build entries = some forest := by
  unfold nestedInstructions at h
  split at h
  · cases h
  · rename_i md hmd
    split at h
    · cases h
    · rename_i entries hentries
      split at h
      · cases h
      · rename_i built hbuilt
        cases h
        exact ⟨md, entries, hmd, hentries, hbuilt⟩

theorem forall_of_mapM {α β : Type} {f : α → Option β} {P : β → Prop}
    (hf : ∀ a b, f a = some b → P b) {as : List α} {bs : List β} (h : as.mapM f = some bs) :
    ∀ b ∈ bs, P b := by
  induction as generalizing bs with
  | nil =>
    cases h
    simp
  | cons a as ih =>
    simp only [List.mapM_cons, Option.bind_eq_bind, Option.bind_eq_some_iff] at h
    obtain ⟨b, hb, rest, hrest, heq⟩ := h
    cases heq
    rw [List.forall_mem_cons]
    exact ⟨hf a b hb, ih hrest⟩

section

variable {accountKeys : List Pubkey} {md : TransactionMetadata}
  {isWritable isSigner : Pubkey → Nat → Bool}

theorem metadata_of_processGroupFrom {index : UInt8} {st : PathState}
    {inners : List InnerInstruction} {entries : List (InstructionMetadata × Instruction)}
    (h : processGroupFrom accountKeys md isWritable isSigner index st inners = some entries) :
    ∀ entry ∈ entries, entry.1.transactionMetadata = md := by
  induction inners generalizing st entries with
  | nil =>
    cases h
    simp
  | cons inner inners ih =>
    simp only [processGroupFrom, Option.bind_eq_bind, Option.bind_eq_some_iff] at h
    obtain ⟨⟨entry, next⟩, hentry, rest, hrest, heq⟩ := h
    cases heq
    rw [List.forall_mem_cons]
    refine ⟨?_, ih hrest⟩
    simp only [processInner, Option.ite_none_left_eq_some, Option.some.injEq, Prod.mk.injEq]
      at hentry
    rw [← hentry.2.1]

theorem metadata_of_processTopLevel {inner : Option (List InnerInstructions)}
    {top : CompiledInstruction × Nat} {entries : List (InstructionMetadata × Instruction)}
    (h : processTopLevel accountKeys md isWritable isSigner inner top = some entries) :
    ∀ entry ∈ entries, entry.1.transactionMetadata = md := by
  simp only [processTopLevel, Option.bind_eq_bind, Option.bind_eq_some_iff] at h
  obtain ⟨groups, hgroups, heq⟩ := h
  cases heq
  rw [List.forall_mem_cons]
  refine ⟨rfl, fun entry hentry => ?_⟩
  obtain ⟨group, hgroup, hmem⟩ := List.mem_flatten.mp hentry
  have hall : ∀ group ∈ groups, ∀ entry ∈ group, entry.1.transactionMetadata = md :=
    forall_of_mapM (fun _ _ => metadata_of_processGroupFrom) hgroups
  exact hall group hgroup entry hmem

theorem metadata_of_processInstructions {instructions : List CompiledInstruction}
    {inner : Option (List InnerInstructions)} {entries : List (InstructionMetadata × Instruction)}
    (h : processInstructions accountKeys md isWritable isSigner instructions inner = some entries) :
    ∀ entry ∈ entries, entry.1.transactionMetadata = md := by
  simp only [processInstructions, Option.bind_eq_bind, Option.bind_eq_some_iff] at h
  obtain ⟨tops, htops, heq⟩ := h
  cases heq
  intro entry hentry
  obtain ⟨top, htop, hmem⟩ := List.mem_flatten.mp hentry
  have hall : ∀ top ∈ tops, ∀ entry ∈ top, entry.1.transactionMetadata = md :=
    forall_of_mapM (fun _ _ => metadata_of_processTopLevel) htops
  exact hall top htop entry hmem

theorem metadata_of_extract {update : TransactionUpdate}
    {entries : List (InstructionMetadata × Instruction)}
    (h : extractInstructionsWithMetadata md update = some entries) :
    ∀ entry ∈ entries, entry.1.transactionMetadata = md := by
  unfold extractInstructionsWithMetadata at h
  split at h <;> exact metadata_of_processInstructions h

end

theorem metadata_of_walk {update : TransactionUpdate} {forest : NestedInstructions}
    (h : nestedInstructions update = .ok forest) {n : NestedInstruction} (hn : n ∈ walkAll forest) :
    n.metadata.transactionMetadata.signature = update.signature ∧
      n.metadata.transactionMetadata.slot = update.slot := by
  obtain ⟨md, entries, hmd, hentries, hbuilt⟩ := nestedInstructions_eq_ok h
  have hentry := UnsafeNestedBuilder.mem_of_build hbuilt hn
  rw [metadata_of_extract hentries _ hentry]
  unfold TransactionMetadata.tryFrom at hmd
  split at hmd <;> cases hmd
  exact ⟨rfl, rfl⟩

end OmnipairIndexer
