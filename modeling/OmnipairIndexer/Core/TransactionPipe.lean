/-
The transaction pipe: `parse_instructions` and `unnest_parsed_instructions`.

Parsing keeps the decodable instructions of a transaction and puts what is below an
undecodable one in its place.  Unnesting lists them parents first, with heights that count
from zero in the parsed tree.  So the processor is given the decodable instructions in
execution order, those that an instruction pipe with this decoder is given, and the height
of one is the number of decodable instructions above it.
-/
import OmnipairIndexer.Core.ExecutionOrder
import OmnipairIndexer.Core.Schema

namespace OmnipairIndexer

open Fallible NestedInstruction

variable {T : Type}

/-! ## Parsing -/

mutual

def parseInstruction (parse : Instruction → Option (DecodedInstruction T)) :
    NestedInstruction → List (ParsedInstruction T)
  | ⟨_, instruction, innerInstructions⟩ =>
    match parse instruction with
    | some decoded => [.mk instruction.programId decoded (parseInstructions parse innerInstructions)]
    | none => parseInstructions parse innerInstructions

def parseInstructions (parse : Instruction → Option (DecodedInstruction T)) :
    List NestedInstruction → List (ParsedInstruction T)
  | [] => []
  | nestedIx :: nestedIxs => parseInstruction parse nestedIx ++ parseInstructions parse nestedIxs

end

/-! ## Unnesting -/

mutual

def unnestParsedInstruction (transactionMetadata : TransactionMetadata) (stackHeight ixIdx : Nat) :
    ParsedInstruction T → List (InstructionMetadata × DecodedInstruction T)
  | .mk _ instruction innerInstructions =>
    (⟨transactionMetadata, stackHeight, ixIdx + 1, []⟩, instruction) ::
      unnestFrom transactionMetadata (stackHeight + 1) 0 innerInstructions

/-- The loop of `unnest_parsed_instructions`, from the `ixIdx`-th instruction on. -/
def unnestFrom (transactionMetadata : TransactionMetadata) (stackHeight ixIdx : Nat) :
    List (ParsedInstruction T) → List (InstructionMetadata × DecodedInstruction T)
  | [] => []
  | parsedInstruction :: rest =>
    unnestParsedInstruction transactionMetadata stackHeight ixIdx parsedInstruction ++
      unnestFrom transactionMetadata stackHeight (ixIdx + 1) rest

end

def unnestParsedInstructions (transactionMetadata : TransactionMetadata)
    (instructions : List (ParsedInstruction T)) (stackHeight : Nat) :
    List (InstructionMetadata × DecodedInstruction T) :=
  unnestFrom transactionMetadata stackHeight 0 instructions

/-! ## The pipe -/

structure TransactionPipe (T K ε σ : Type) where
  parse : Instruction → Option (DecodedInstruction T)
  getType : T → K
  schema : Option (List (SchemaNode K))
  processor : TransactionMetadata → List (InstructionMetadata × DecodedInstruction T) →
    Option (TransactionSchema.Output T) → Action ε σ

namespace TransactionPipe

variable {K ε σ : Type} [DecidableEq K]

/-- `matches_schema`, up to the conversion of the output with serde. -/
def matchesSchema (pipe : TransactionPipe T K ε σ) (instructions : List (ParsedInstruction T)) :
    Option (TransactionSchema.Output T) :=
  pipe.schema.bind fun schema => TransactionSchema.matchNodes pipe.getType schema instructions

def run (pipe : TransactionPipe T K ε σ) (transactionMetadata : TransactionMetadata)
    (instructions : List NestedInstruction) : Action ε σ :=
  let parsedInstructions := parseInstructions pipe.parse instructions
  pipe.processor transactionMetadata
    (unnestParsedInstructions transactionMetadata parsedInstructions 0)
    (pipe.matchesSchema parsedInstructions)

end TransactionPipe

/-! ## Execution order -/

mutual

/-- An instruction and everything below it, parents first, each with the instructions
above it. -/
def walkUnder (above : List NestedInstruction) :
    NestedInstruction → List (List NestedInstruction × NestedInstruction)
  | ⟨metadata, instruction, innerInstructions⟩ =>
    (above, ⟨metadata, instruction, innerInstructions⟩) ::
      walkAllUnder (⟨metadata, instruction, innerInstructions⟩ :: above) innerInstructions

def walkAllUnder (above : List NestedInstruction) :
    List NestedInstruction → List (List NestedInstruction × NestedInstruction)
  | [] => []
  | n :: ns => walkUnder above n ++ walkAllUnder above ns

end

mutual

theorem map_snd_walkUnder : ∀ (above : List NestedInstruction) (n : NestedInstruction),
    (walkUnder above n).map Prod.snd = walk n
  | above, ⟨metadata, instruction, innerInstructions⟩ => by
    rw [walkUnder, walk, List.map_cons, map_snd_walkAllUnder]

theorem map_snd_walkAllUnder : ∀ (above : List NestedInstruction) (ns : List NestedInstruction),
    (walkAllUnder above ns).map Prod.snd = walkAll ns
  | _, [] => rfl
  | above, n :: ns => by
    rw [walkAllUnder, walkAll, List.map_append, map_snd_walkUnder, map_snd_walkAllUnder]

end

/-- The height of an instruction among the decodable ones, and what it decodes to. -/
def decodedUnder (parse : Instruction → Option (DecodedInstruction T))
    (p : List NestedInstruction × NestedInstruction) : Option (Nat × DecodedInstruction T) :=
  (parse p.2.instruction).map fun decoded =>
    (p.1.countP fun n => (parse n.instruction).isSome, decoded)

def heights (entries : List (InstructionMetadata × DecodedInstruction T)) :
    List (Nat × DecodedInstruction T) :=
  entries.map fun entry => (entry.1.stackHeight, entry.2)

theorem unnestFrom_append (md : TransactionMetadata) (height idx : Nat)
    (ps qs : List (ParsedInstruction T)) :
    unnestFrom md height idx (ps ++ qs) =
      unnestFrom md height idx ps ++ unnestFrom md height (idx + ps.length) qs := by
  induction ps generalizing idx with
  | nil => rfl
  | cons p ps ih =>
    rw [List.cons_append, unnestFrom, unnestFrom, ih, List.append_assoc, List.length_cons,
      Nat.add_right_comm idx 1, Nat.add_assoc idx]

mutual

theorem heights_parseInstruction (parse : Instruction → Option (DecodedInstruction T))
    (md : TransactionMetadata) : ∀ (n : NestedInstruction) (above : List NestedInstruction)
    (idx : Nat),
    heights (unnestFrom md (above.countP fun n => (parse n.instruction).isSome) idx
      (parseInstruction parse n)) = (walkUnder above n).filterMap (decodedUnder parse)
  | ⟨metadata, instruction, innerInstructions⟩, above, idx => by
    have hinner := heights_parseInstructions parse md innerInstructions
      (⟨metadata, instruction, innerInstructions⟩ :: above)
    rw [walkUnder, parseInstruction]
    cases hparse : parse instruction with
    | none =>
      rw [List.filterMap_cons_none (by simp [decodedUnder, hparse]), ← hinner idx,
        List.countP_cons_of_neg (by simp [hparse])]
    | some decoded =>
      rw [List.filterMap_cons_some (by simp [decodedUnder, hparse]; rfl), ← hinner 0,
        List.countP_cons_of_pos (by simp [hparse])]
      simp [unnestFrom, unnestParsedInstruction, heights]

theorem heights_parseInstructions (parse : Instruction → Option (DecodedInstruction T))
    (md : TransactionMetadata) : ∀ (ns : List NestedInstruction) (above : List NestedInstruction)
    (idx : Nat),
    heights (unnestFrom md (above.countP fun n => (parse n.instruction).isSome) idx
      (parseInstructions parse ns)) = (walkAllUnder above ns).filterMap (decodedUnder parse)
  | [], _, _ => rfl
  | n :: ns, above, idx => by
    rw [parseInstructions, walkAllUnder, List.filterMap_append, unnestFrom_append,
      ← heights_parseInstruction parse md n above idx,
      ← heights_parseInstructions parse md ns above]
    exact List.map_append

end

theorem decodedUnder_snd (parse : Instruction → Option (DecodedInstruction T))
    (walked : List (List NestedInstruction × NestedInstruction)) :
    (walked.filterMap (decodedUnder parse)).map Prod.snd =
      ((walked.map Prod.snd).map NestedInstruction.instruction).filterMap parse := by
  rw [List.map_filterMap, List.map_map, List.filterMap_map]
  refine List.filterMap_congr fun p _ => ?_
  cases h : parse p.2.instruction <;> simp [decodedUnder, h]

/-- For every update of the shape that the runtime records, the processor of a transaction
pipe is given the instructions that decode, in the order in which they were executed, each
with the number of decodable instructions above it as its height. -/
theorem transaction_pipe_in_order {K ε σ : Type} [DecidableEq K] (pipe : TransactionPipe T K ε σ)
    {update : TransactionUpdate} (h : update.Recorded) (md : TransactionMetadata) :
    ∃ forest entries matched, nestedInstructions update = .ok forest ∧
      pipe.run md forest = pipe.processor md entries matched ∧
      entries.map Prod.snd = update.executed.filterMap pipe.parse ∧
      entries.map (fun entry => (entry.1.stackHeight, entry.2)) =
        (walkAllUnder [] forest).filterMap (decodedUnder pipe.parse) := by
  obtain ⟨forest, hforest, hwalk⟩ := update.nested_in_order h
  have hheights := heights_parseInstructions pipe.parse md forest [] 0
  refine ⟨forest, _, _, hforest, rfl, ?_, hheights⟩
  rw [← hwalk, ← map_snd_walkAllUnder [] forest, ← decodedUnder_snd, ← hheights, heights,
    List.map_map]
  rfl

/-- An instruction that calls one that decodes. -/
def oneCall : TransactionUpdate where
  signature := "call"
  message := .legacy [.filled 1, .filled 9] [⟨1, [], [1]⟩] (fun _ => false) (fun _ => false)
  statusMeta := ⟨some [⟨0, [⟨⟨1, [], [2]⟩, some 2⟩]⟩], ⟨[], []⟩⟩
  slot := 1

/-- Decodes the instructions that carry a two. -/
def twoPipe : TransactionPipe Nat Nat CarbonError Unit where
  parse instruction :=
    if instruction.data = [2] then some ⟨instruction.programId, 2, []⟩ else none
  getType := id
  schema := none
  processor _ _ _ := done

theorem transaction_pipe_in_order_oneCall :
    ∃ (forest : NestedInstructions) (entries : List (InstructionMetadata × DecodedInstruction Nat)),
      nestedInstructions oneCall = .ok forest ∧
        entries.map Prod.snd = oneCall.executed.filterMap twoPipe.parse := by
  have hrecorded : oneCall.Recorded := by
    refine ⟨List.cons_ne_nil _ _, ?_, ?_⟩
    · intro group hgroup
      rw [List.mem_singleton.mp hgroup]
      decide
    · intro group hgroup
      rw [List.mem_singleton.mp hgroup]
      refine ⟨?_, ?_, ?_, trivial⟩ <;> decide
  obtain ⟨forest, entries, -, hforest, -, hentries, -⟩ :=
    transaction_pipe_in_order twoPipe hrecorded ⟨1, "call", .filled 1⟩
  exact ⟨forest, entries, hforest, hentries⟩

end OmnipairIndexer
