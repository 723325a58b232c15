/-
Nested instructions: the tree builder and the recursive instruction pipe.

`UnsafeNestedBuilder` keeps raw pointers to the last instruction of each stack
height.  A pointer into a tree under construction is the sequence of child
indices that leads to its node, so `Ptr` is that sequence and dereferencing is
`NestedInstruction.modifyAt`.  The two assertions of `build` panic; a panic is
`none`.

`InstructionPipe.run` visits an instruction before its inner instructions and
stops at the first error.  `run_eq_each` restates it as one pass over `walk`, the
instructions of the tree in that order.
-/
import OmnipairIndexer.Library.Fallible
import OmnipairIndexer.Decoder.Instructions

namespace OmnipairIndexer

open Fallible

/-- The part of `TransactionMetadata` that the processors read. -/
structure TransactionMetadata where
  slot : UInt64
  signature : String
  feePayer : Pubkey
  deriving DecidableEq

structure InstructionMetadata where
  transactionMetadata : TransactionMetadata
  stackHeight : Nat
  index : Nat
  absolutePath : List UInt8
  deriving DecidableEq

structure NestedInstruction where
  metadata : InstructionMetadata
  instruction : Instruction
  innerInstructions : List NestedInstruction

abbrev NestedInstructions := List NestedInstruction

/-! ## `UnsafeNestedBuilder` -/

def maxInstructionStackDepth : Nat := 5

/-- A `*mut NestedInstruction`: a root of the forest and the child indices below
it. -/
structure Ptr where
  root : Nat
  path : List Nat
  deriving DecidableEq

/-- Apply `f` to the node a path leads to. -/
def NestedInstruction.modifyAt (f : NestedInstruction → NestedInstruction) :
    List Nat → NestedInstruction → NestedInstruction
  | [], n => f n
  | i :: path, n =>
    { n with innerInstructions := n.innerInstructions.modify i (modifyAt f path) }

def NestedInstruction.get? : List Nat → NestedInstruction → Option NestedInstruction
  | [], n => some n
  | i :: path, n => n.innerInstructions[i]?.bind (get? path)

structure UnsafeNestedBuilder where
  nestedIxs : NestedInstructions
  levelPtrs : List (Option Ptr)

namespace UnsafeNestedBuilder

def new : UnsafeNestedBuilder := ⟨[], List.replicate maxInstructionStackDepth none⟩

/-- `(*parent_ptr).inner_instructions.push(new_instruction)`. -/
def pushInner (forest : NestedInstructions) (parent : Ptr) (n : NestedInstruction) :
    NestedInstructions :=
  forest.modify parent.root
    (.modifyAt (fun p => { p with innerInstructions := p.innerInstructions ++ [n] }) parent.path)

/-- `(*parent_ptr).inner_instructions.last_mut()` after the push: the index of
the new child is the number of children before it. -/
def childPtr (forest : NestedInstructions) (parent : Ptr) : Ptr :=
  let children := forest[parent.root]?.bind (NestedInstruction.get? parent.path)
  { parent with path := parent.path ++ [children.elim 0 fun p => p.innerInstructions.length] }

/-- One round of the loop in `build`. -/
def push (b : UnsafeNestedBuilder) (entry : InstructionMetadata × Instruction) :
    Option UnsafeNestedBuilder :=
  let stackHeight := entry.1.stackHeight
  -- the two assertions on the stack height
  if stackHeight = 0 ∨ maxInstructionStackDepth < stackHeight then
    none
  else
    let levelPtrs := b.levelPtrs.take stackHeight ++
      List.replicate (maxInstructionStackDepth - stackHeight) none
    let newInstruction : NestedInstruction := ⟨entry.1, entry.2, []⟩
    if stackHeight = 1 then
      some
        { nestedIxs := b.nestedIxs ++ [newInstruction]
          levelPtrs := levelPtrs.set 0 (some ⟨b.nestedIxs.length, []⟩) }
    else
      match levelPtrs[stackHeight - 2]? with
      | some (some parent) =>
        some
          { nestedIxs := pushInner b.nestedIxs parent newInstruction
            levelPtrs := levelPtrs.set (stackHeight - 1) (some (childPtr b.nestedIxs parent)) }
      | _ => some { b with levelPtrs := levelPtrs }

/-- `NestedInstructions::from`. -/
def build (instructions : List (InstructionMetadata × Instruction)) :
    Option NestedInstructions :=
  (instructions.foldlM push new).map nestedIxs

end UnsafeNestedBuilder

/-! ## `InstructionPipe` -/

/-- `InstructionProcessorInputType`. -/
structure InstructionProcessorInput (T : Type) where
  metadata : InstructionMetadata
  decoded : DecodedInstruction T
  nested : NestedInstructions
  raw : Instruction

/-- A pipe without filters, the way the indexer registers it. -/
structure InstructionPipe (T ε σ : Type) where
  decoder : Instruction → Option (DecodedInstruction T)
  processor : InstructionProcessorInput T → Action ε σ

namespace InstructionPipe

variable {T ε σ : Type}

/-- Decode one instruction and hand it to the processor if that succeeds. -/
def visit (pipe : InstructionPipe T ε σ) (n : NestedInstruction) : Action ε σ :=
  match pipe.decoder n.instruction with
  | some decoded => pipe.processor ⟨n.metadata, decoded, n.innerInstructions, n.instruction⟩
  | none => done

mutual

def run (pipe : InstructionPipe T ε σ) : NestedInstruction → Action ε σ
  | ⟨metadata, instruction, innerInstructions⟩ =>
    andThen (pipe.visit ⟨metadata, instruction, innerInstructions⟩)
      (pipe.runInner innerInstructions)

def runInner (pipe : InstructionPipe T ε σ) : List NestedInstruction → Action ε σ
  | [] => done
  | n :: ns => andThen (pipe.run n) (pipe.runInner ns)

end

end InstructionPipe

/-! ## The order of the walk -/

namespace NestedInstruction

mutual

/-- An instruction and everything below it, parents first. -/
def walk : NestedInstruction → List NestedInstruction
  | ⟨metadata, instruction, innerInstructions⟩ =>
    ⟨metadata, instruction, innerInstructions⟩ :: walkAll innerInstructions

def walkAll : List NestedInstruction → List NestedInstruction
  | [] => []
  | n :: ns => walk n ++ walkAll ns

end

end NestedInstruction

open NestedInstruction

mutual

theorem InstructionPipe.run_eq_each {T ε σ : Type} (pipe : InstructionPipe T ε σ) :
    ∀ n : NestedInstruction, pipe.run n = each pipe.visit n.walk
  | ⟨metadata, instruction, innerInstructions⟩ => by
    rw [run, walk, each_cons, pipe.runInner_eq_each innerInstructions]

theorem InstructionPipe.runInner_eq_each {T ε σ : Type} (pipe : InstructionPipe T ε σ) :
    ∀ ns : List NestedInstruction, pipe.runInner ns = each pipe.visit (walkAll ns)
  | [] => rfl
  | n :: ns => by
    rw [runInner, walkAll, each_append, pipe.run_eq_each n, pipe.runInner_eq_each ns]

end

/-! ## Every instruction of the tree comes from the input -/

namespace NestedInstruction

variable {P : InstructionMetadata × Instruction → Prop}

mutual

def All (P : InstructionMetadata × Instruction → Prop) : NestedInstruction → Prop
  | ⟨metadata, instruction, innerInstructions⟩ =>
    P (metadata, instruction) ∧ AllInner P innerInstructions

def AllInner (P : InstructionMetadata × Instruction → Prop) : List NestedInstruction → Prop
  | [] => True
  | n :: ns => All P n ∧ AllInner P ns

end

theorem allInner_iff (ns : NestedInstructions) : AllInner P ns ↔ ∀ n ∈ ns, All P n := by
  induction ns with
  | nil => simp [AllInner]
  | cons n ns ih => rw [AllInner, ih, List.forall_mem_cons]

mutual

theorem All.of_mem_walk : ∀ {n m : NestedInstruction}, All P n → m ∈ walk n →
    P (m.metadata, m.instruction)
  | ⟨_, _, innerInstructions⟩, m, ⟨hroot, hinner⟩, hm => by
    rw [walk, List.mem_cons] at hm
    rcases hm with rfl | hm
    · exact hroot
    · exact @AllInner.of_mem_walkAll innerInstructions _ hinner hm

theorem AllInner.of_mem_walkAll : ∀ {ns : List NestedInstruction} {m : NestedInstruction},
    AllInner P ns → m ∈ walkAll ns → P (m.metadata, m.instruction)
  | [], _, _, hm => by cases hm
  | n :: ns, m, ⟨hn, hns⟩, hm => by
    rw [walkAll, List.mem_append] at hm
    rcases hm with hm | hm
    · exact All.of_mem_walk hn hm
    · exact AllInner.of_mem_walkAll hns hm

end

theorem AllInner.modify {ns : NestedInstructions} {f : NestedInstruction → NestedInstruction}
    (hf : ∀ n, All P n → All P (f n)) (h : AllInner P ns) (i : Nat) :
    AllInner P (ns.modify i f) := by
  induction ns generalizing i with
  | nil => cases i <;> exact h
  | cons n ns ih =>
    cases i with
    | zero => exact ⟨hf n h.1, h.2⟩
    | succ i => exact ⟨h.1, ih h.2 i⟩

theorem AllInner.append {ns ms : NestedInstructions} (hns : AllInner P ns)
    (hms : AllInner P ms) : AllInner P (ns ++ ms) := by
  rw [allInner_iff] at hns hms ⊢
  exact fun n hn => (List.mem_append.mp hn).elim (hns n) (hms n)

theorem All.modifyAt {f : NestedInstruction → NestedInstruction}
    (hf : ∀ n, All P n → All P (f n)) (path : List Nat) :
    ∀ n, All P n → All P (NestedInstruction.modifyAt f path n) := by
  induction path with
  | nil => exact hf
  | cons i path ih =>
    intro n hn
    cases n
    exact ⟨hn.1, hn.2.modify ih i⟩

end NestedInstruction

namespace UnsafeNestedBuilder

theorem push_all {P : InstructionMetadata × Instruction → Prop} {b c : UnsafeNestedBuilder}
    {entry : InstructionMetadata × Instruction} (hb : AllInner P b.nestedIxs) (he : P entry)
    (h : b.push entry = some c) : AllInner P c.nestedIxs := by
  have hnew : AllInner P [⟨entry.1, entry.2, []⟩] := ⟨⟨he, trivial⟩, trivial⟩
  unfold push at h
  dsimp only at h
  split at h
  · cases h
  split at h
  · cases h
    exact hb.append hnew
  split at h
  · cases h
    refine hb.modify (All.modifyAt (fun p hp => ?_) _) _
    cases p
    exact ⟨hp.1, hp.2.append hnew⟩
  · cases h
    exact hb

/-- The tree holds instructions of the list it is built from and no others. -/
theorem mem_of_build {instructions : List (InstructionMetadata × Instruction)}
    {forest : NestedInstructions} (h : build instructions = some forest)
    {n : NestedInstruction} (hn : n ∈ walkAll forest) :
    (n.metadata, n.instruction) ∈ instructions := by
  obtain ⟨b, hb, rfl⟩ := Option.map_eq_some_iff.mp h
  have hfold : ∀ (rest : List (InstructionMetadata × Instruction)) (start : UnsafeNestedBuilder),
      (∀ entry ∈ rest, entry ∈ instructions) → AllInner (· ∈ instructions) start.nestedIxs →
      rest.foldlM push start = some b → AllInner (· ∈ instructions) b.nestedIxs := by
    intro rest
    induction rest with
    | nil =>
      intro start _ hstart hrun
      cases hrun
      exact hstart
    | cons entry rest ih =>
      intro start hrest hstart hrun
      rw [List.foldlM_cons, Option.bind_eq_bind, Option.bind_eq_some_iff] at hrun
      obtain ⟨next, hnext, hrun⟩ := hrun
      rw [List.forall_mem_cons] at hrest
      exact ih next hrest.2 (push_all hstart hrest.1 hnext) hrun
  exact (hfold instructions new (fun _ he => he) trivial hb).of_mem_walkAll hn

end UnsafeNestedBuilder

end OmnipairIndexer
