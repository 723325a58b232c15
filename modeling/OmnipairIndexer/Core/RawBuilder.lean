/-
`UnsafeNestedBuilder` with its memory.

The builder keeps raw pointers to instructions that lie in vectors, and the vectors grow while
it runs.  In `UnsafeNestedBuilder` a pointer is the path to its instruction.  Here it is an
address, a vector that grows is taken to move, and an address in the block it leaves must not
be used again.

`build_simulates` says that none is, and that the memory holds the forest of
`UnsafeNestedBuilder.build`, also when the capacity the builder is made with is too small.  A
vector only grows when an instruction of its level is added, and then the pointer of the level
is set anew and those below it are given up.  `Edge` is this invariant.

Rust's rules about aliased references are not part of the memory.
-/
import OmnipairIndexer.Core.ExecutionOrder
import OmnipairIndexer.Library.RawVec

namespace OmnipairIndexer

open RawVec NestedInstruction

/-- A `NestedInstruction` in memory. -/
structure Node where
  metadata : InstructionMetadata
  instruction : Instruction
  innerInstructions : Vec

/-- How the builder can fail: an assertion, or a pointer that must not be used. -/
inductive Fault where
  | panic
  | undefinedBehavior

structure RawNestedBuilder where
  heap : Heap Node
  nestedIxs : Vec
  levelPtrs : List (Option Pointer)

namespace RawNestedBuilder

def new (capacity : Nat) : RawNestedBuilder :=
  let (nestedIxs, heap) := Heap.empty.withCapacity capacity
  ⟨heap, nestedIxs, List.replicate maxInstructionStackDepth none⟩

def orUndefined {α : Type} : Option α → Except Fault α
  | some a => .ok a
  | none => .error .undefinedBehavior

/-- `(*parent_ptr).inner_instructions.push(new_instruction)` and the pointer to its result. -/
def pushInner (grow : Nat → Nat) (heap : Heap Node) (parent : Pointer) (node : Node) :
    Option (Heap Node × Pointer) := do
  let parentNode ← heap.read parent
  let (innerInstructions, heap) ← heap.push grow parentNode.innerInstructions node
  let heap ← heap.write parent { parentNode with innerInstructions }
  let ptr ← heap.last innerInstructions
  return (heap, ptr)

/-- One round of the loop in `build`. -/
def push (grow : Nat → Nat) (r : RawNestedBuilder) (entry : InstructionMetadata × Instruction) :
    Except Fault RawNestedBuilder :=
  let stackHeight := entry.1.stackHeight
  if stackHeight = 0 ∨ maxInstructionStackDepth < stackHeight then
    .error .panic
  else
    let levelPtrs := r.levelPtrs.take stackHeight ++
      List.replicate (maxInstructionStackDepth - stackHeight) none
    let newInstruction : Node := ⟨entry.1, entry.2, .new⟩
    if stackHeight = 1 then do
      let (nestedIxs, heap) ← orUndefined (r.heap.push grow r.nestedIxs newInstruction)
      let ptr ← orUndefined (heap.last nestedIxs)
      return ⟨heap, nestedIxs, levelPtrs.set 0 (some ptr)⟩
    else
      match levelPtrs[stackHeight - 2]? with
      | some (some parent) => do
        let (heap, ptr) ← orUndefined (pushInner grow r.heap parent newInstruction)
        return { r with heap := heap, levelPtrs := levelPtrs.set (stackHeight - 1) (some ptr) }
      | _ => return { r with levelPtrs := levelPtrs }

def build (grow : Nat → Nat) (capacity : Nat)
    (instructions : List (InstructionMetadata × Instruction)) : Except Fault RawNestedBuilder :=
  instructions.foldlM (push grow) (new capacity)

/-! ## Forests in memory -/

/-- The nodes of a block and what is below them are a forest, in blocks of their own. -/
inductive Nodes (heap : Heap Node) : List Node → NestedInstructions → List Nat → Prop
  | nil : Nodes heap [] [] []
  | leaf {metadata : InstructionMetadata} {instruction : Instruction} {capacity : Nat}
      {nodes : List Node} {forest : NestedInstructions} {owned : List Nat}
      (hrest : Nodes heap nodes forest owned) :
      Nodes heap (⟨metadata, instruction, ⟨none, capacity⟩⟩ :: nodes)
        (⟨metadata, instruction, []⟩ :: forest) owned
  | parent {metadata : InstructionMetadata} {instruction : Instruction} {b capacity : Nat}
      {inner nodes : List Node} {children forest : NestedInstructions} {owned₁ owned₂ : List Nat}
      (hblock : heap.block? b = some inner) (hinner : Nodes heap inner children owned₁)
      (hrest : Nodes heap nodes forest owned₂) :
      Nodes heap (⟨metadata, instruction, ⟨some b, capacity⟩⟩ :: nodes)
        (⟨metadata, instruction, children⟩ :: forest) (b :: (owned₁ ++ owned₂))

/-- The vector holds the forest, in the blocks it owns. -/
def Holds (heap : Heap Node) (v : Vec) (forest : NestedInstructions) (owned : List Nat) : Prop :=
  match v.block with
  | none => forest = [] ∧ owned = []
  | some b => ∃ nodes inner, heap.block? b = some nodes ∧ Nodes heap nodes forest inner ∧
    owned = b :: inner

variable {heap heap' : Heap Node} {v : Vec} {nodes : List Node} {forest : NestedInstructions}
  {owned : List Nat}

theorem Nodes.length (h : Nodes heap nodes forest owned) : nodes.length = forest.length := by
  induction h with
  | nil => rfl
  | leaf _ ih => rw [List.length_cons, List.length_cons, ih]
  | parent _ _ _ _ ih => rw [List.length_cons, List.length_cons, ih]

theorem Nodes.frame (h : Nodes heap nodes forest owned)
    (hsame : ∀ b ∈ owned, heap'.block? b = heap.block? b) : Nodes heap' nodes forest owned := by
  induction h with
  | nil => exact .nil
  | leaf _ ih => exact .leaf (ih hsame)
  | parent hblock _ _ ihinner ihrest =>
    rw [List.forall_mem_cons, List.forall_mem_append] at hsame
    obtain ⟨hb, hinner, hrest⟩ := hsame
    exact .parent (hb.trans hblock) (ihinner hinner) (ihrest hrest)

theorem Nodes.concat {metadata : InstructionMetadata} {instruction : Instruction}
    {children : NestedInstructions} {owned' : List Nat} (h : Nodes heap nodes forest owned)
    (hv : Holds heap v children owned') :
    Nodes heap (nodes ++ [⟨metadata, instruction, v⟩])
      (forest ++ [⟨metadata, instruction, children⟩]) (owned ++ owned') := by
  induction h with
  | nil =>
    obtain ⟨block, capacity⟩ := v
    cases block with
    | none =>
      obtain ⟨rfl, rfl⟩ := hv
      exact .leaf .nil
    | some b =>
      obtain ⟨inner, innerOwned, hblock, hinner, rfl⟩ := hv
      have h : Nodes heap [⟨metadata, instruction, ⟨some b, capacity⟩⟩]
          [⟨metadata, instruction, children⟩] (b :: (innerOwned ++ [])) :=
        .parent hblock hinner .nil
      rwa [List.append_nil] at h
  | leaf _ ih => exact .leaf ih
  | parent hblock hinner _ _ ih =>
    simp only [List.cons_append, List.append_assoc]
    exact .parent hblock hinner ih

/-! ## The pointers -/

/-- The vector holds the forest, and the pointers lead down its right edge: the first one to
the last node of the vector, the others into that node.  The path is the way in the forest. -/
inductive Edge (heap : Heap Node) :
    Vec → NestedInstructions → List Pointer → List Nat → List Nat → Prop
  | stop {v : Vec} {forest : NestedInstructions} {owned : List Nat}
      (h : Holds heap v forest owned) : Edge heap v forest [] [] owned
  | down {b capacity : Nat} {nodes : List Node} {metadata : InstructionMetadata}
      {instruction : Instruction} {inner : Vec} {init children : NestedInstructions}
      {ptrs : List Pointer} {path owned₁ owned₂ : List Nat}
      (hblock : heap.block? b = some (nodes ++ [⟨metadata, instruction, inner⟩]))
      (hinit : Nodes heap nodes init owned₁) (hlast : Edge heap inner children ptrs path owned₂) :
      Edge heap ⟨some b, capacity⟩ (init ++ [⟨metadata, instruction, children⟩])
        (⟨b, nodes.length⟩ :: ptrs) (init.length :: path) (b :: owned₁ ++ owned₂)

variable {ptrs : List Pointer} {path : List Nat}

theorem Edge.holds (h : Edge heap v forest ptrs path owned) : Holds heap v forest owned := by
  induction h with
  | stop h => exact h
  | down hblock hinit _ ih => exact ⟨_, _, hblock, hinit.concat ih, rfl⟩

theorem Edge.length (h : Edge heap v forest ptrs path owned) : ptrs.length = path.length := by
  induction h with
  | stop => rfl
  | down _ _ _ ih => rw [List.length_cons, List.length_cons, ih]

/-- Pointers from below can be given up. -/
theorem Edge.take (h : Edge heap v forest ptrs path owned) (k : Nat) :
    Edge heap v forest (ptrs.take k) (path.take k) owned := by
  induction h generalizing k with
  | stop h =>
    rw [List.take_nil, List.take_nil]
    exact .stop h
  | down hblock hinit hlast ih =>
    cases k with
    | zero => exact .stop (Edge.down hblock hinit hlast).holds
    | succ k => exact .down hblock hinit (ih k)

theorem Holds.frame (h : Holds heap v forest owned)
    (hsame : ∀ b ∈ owned, heap'.block? b = heap.block? b) : Holds heap' v forest owned := by
  obtain ⟨block, capacity⟩ := v
  cases block with
  | none => exact h
  | some b =>
    obtain ⟨nodes, inner, hblock, hnodes, rfl⟩ := h
    rw [List.forall_mem_cons] at hsame
    exact ⟨nodes, inner, hsame.1.trans hblock, hnodes.frame hsame.2, rfl⟩

theorem Edge.frame (h : Edge heap v forest ptrs path owned)
    (hsame : ∀ b ∈ owned, heap'.block? b = heap.block? b) :
    Edge heap' v forest ptrs path owned := by
  induction h with
  | stop h => exact .stop (h.frame hsame)
  | down hblock hinit _ ih =>
    rw [List.forall_mem_append, List.forall_mem_cons] at hsame
    obtain ⟨⟨hb, hinner⟩, hrest⟩ := hsame
    exact .down (hb.trans hblock) (hinit.frame hinner) (ih hrest)

/-- The block of a vector and the blocks below it. -/
theorem Holds.elems (h : Holds heap v forest owned) (hnodup : owned.Nodup) :
    ∃ nodes inner, heap.elems? v = some nodes ∧ Nodes heap nodes forest inner ∧
      (∀ b, v.block = some b → b ∈ owned) ∧ (∀ b ∈ inner, b ∈ owned ∧ v.block ≠ some b) ∧
      inner.Nodup := by
  obtain ⟨block, capacity⟩ := v
  cases block with
  | none =>
    obtain ⟨rfl, rfl⟩ := h
    exact ⟨[], [], rfl, .nil, nofun, fun b hb => absurd hb List.not_mem_nil, .nil⟩
  | some b =>
    obtain ⟨nodes, inner, hblock, hnodes, rfl⟩ := h
    obtain ⟨hb, hinner⟩ := List.nodup_cons.mp hnodup
    refine ⟨nodes, inner, hblock, hnodes, ?_, fun c hc => ⟨List.mem_cons_of_mem _ hc, ?_⟩, hinner⟩
    · intro c heq
      rw [← Option.some.inj heq]
      exact List.mem_cons_self
    · intro heq
      rw [Option.some.inj heq] at hb
      exact hb hc

/-- A pushed node is the end of a new edge. -/
theorem Holds.push (h : Holds heap v forest owned) (hnodup : owned.Nodup)
    (hlt : ∀ b ∈ owned, b < heap.size) (grow : Nat → Nat)
    (entry : InstructionMetadata × Instruction) :
    ∃ v' heap' p owned', heap.push grow v ⟨entry.1, entry.2, .new⟩ = some (v', heap') ∧
      heap'.last v' = some p ∧ v'.block = some p.block ∧ p.block ∈ owned' ∧
      Edge heap' v' (forest ++ [⟨entry.1, entry.2, []⟩]) [p] [forest.length] owned' ∧
      Keeps owned heap owned' heap' := by
  obtain ⟨nodes, inner, helems, hnodes, hown, hinner, hdistinct⟩ := h.elems hnodup
  obtain ⟨⟨block', capacity'⟩, heap', ⟨b, index⟩, hpush, hlast, hpushed⟩ :=
    heap.push_spec grow helems ⟨entry.1, entry.2, .new⟩
  obtain rfl : block' = some b := hpushed.block
  obtain rfl : index = nodes.length := hpushed.index
  have hsame : ∀ b ∈ inner, heap'.block? b = heap.block? b := fun b hb =>
    hpushed.others b (hlt b (hinner b hb).1) (hinner b hb).2
  have hb : b ∉ inner := by
    intro hmem
    obtain hplace | rfl := hpushed.place
    · exact (hinner b hmem).2 hplace
    · exact absurd (hlt _ (hinner _ hmem).1) (Nat.lt_irrefl _)
  refine ⟨_, heap', ⟨b, nodes.length⟩, b :: inner ++ [], hpush, hlast, rfl, List.mem_cons_self,
    .down hpushed.elems (hnodes.frame hsame) (.stop ⟨rfl, rfl⟩), ?_⟩
  rw [List.append_nil]
  refine ⟨?_, hpushed.size, ?_, List.nodup_cons.mpr ⟨hb, hdistinct⟩, ?_⟩
  · intro c hc hnot
    exact hpushed.others c hc fun heq => hnot (hown c heq)
  · intro c hc
    obtain rfl | hc := List.mem_cons.mp hc
    · exact hpushed.place.imp (hown c) fun heq => Nat.le_of_eq heq.symm
    · exact .inl (hinner c hc).1
  · intro c hc
    obtain rfl | hc := List.mem_cons.mp hc
    · exact Heap.lt_size_of_block? hpushed.elems
    · exact Nat.lt_of_lt_of_le (hlt c (hinner c hc).1) hpushed.size

/-! ## A child of the last pointer -/

/-- Add an instruction to the forest that a path leads to. -/
def pushAt (new : NestedInstruction) : List Nat → NestedInstructions → NestedInstructions
  | [], forest => forest ++ [new]
  | i :: path, forest => forest.modify i fun n =>
    { n with innerInstructions := pushAt new path n.innerInstructions }

def childrenAt : List Nat → NestedInstructions → NestedInstructions
  | [], forest => forest
  | i :: path, forest => forest[i]?.elim [] fun n => childrenAt path n.innerInstructions

section Concat

variable (init children : NestedInstructions) (metadata : InstructionMetadata)
  (instruction : Instruction) (path : List Nat)

theorem pushAt_concat (new : NestedInstruction) :
    pushAt new (init.length :: path) (init ++ [⟨metadata, instruction, children⟩]) =
      init ++ [⟨metadata, instruction, pushAt new path children⟩] :=
  modify_concat init _ _

theorem childrenAt_concat :
    childrenAt (init.length :: path) (init ++ [⟨metadata, instruction, children⟩]) =
      childrenAt path children := by
  rw [childrenAt, List.getElem?_concat_length]
  rfl

end Concat

/-- The parent is not in a block that has been freed, and its new child is the end of the
edge. -/
theorem Edge.pushInner (h : Edge heap v forest ptrs path owned) {parent : Pointer}
    (hparent : ptrs.getLast? = some parent) (hnodup : owned.Nodup)
    (hlt : ∀ b ∈ owned, b < heap.size) (grow : Nat → Nat)
    (entry : InstructionMetadata × Instruction) :
    ∃ heap' p owned',
      RawNestedBuilder.pushInner grow heap parent ⟨entry.1, entry.2, .new⟩ = some (heap', p) ∧
      Edge heap' v (pushAt ⟨entry.1, entry.2, []⟩ path forest) (ptrs ++ [p])
        (path ++ [(childrenAt path forest).length]) owned' ∧
      Keeps owned heap owned' heap' := by
  induction h with
  | stop => cases hparent
  | @down b capacity nodes metadata instruction inner init children ptrs path owned₁ owned₂
      hblock hinit hlast ih =>
    obtain ⟨hltrest, hltlast⟩ := List.forall_mem_append.mp hlt
    have hnodup₂ := (List.nodup_append.mp hnodup).2.1
    rw [pushAt_concat, childrenAt_concat]
    cases ptrs with
    | cons q ptrs =>
      rw [List.getLast?_cons_cons] at hparent
      obtain ⟨heap', p, owned', hpush, hedge, hkeeps⟩ := ih hparent hnodup₂ hltlast
      have hsame := List.forall_mem_cons.mp (hkeeps.frame hnodup hltrest)
      exact ⟨heap', p, b :: owned₁ ++ owned', hpush,
        .down (hsame.1.trans hblock) (hinit.frame hsame.2) hedge,
        hkeeps.append_left hnodup hltrest⟩
    | nil =>
      obtain rfl := Option.some.inj hparent
      cases hlast with
      | stop hinner =>
        have hread : heap.read ⟨b, nodes.length⟩ = some ⟨metadata, instruction, inner⟩ := by
          rw [Heap.read_of_block? hblock, List.getElem?_concat_length]
        obtain ⟨inner', heap₁, p, owned', hpush, hlast, hp, hmem, hedge, hkeeps⟩ :=
          hinner.push hnodup₂ hltlast grow entry
        have hsame := List.forall_mem_cons.mp (hkeeps.frame hnodup hltrest)
        have hwhole := hkeeps.append_left hnodup hltrest
        obtain ⟨hrest, -, hdisjoint⟩ := List.nodup_append.mp hwhole.nodup
        have hb : ∀ c ∈ owned', c ≠ b := fun c hc =>
          (hdisjoint b List.mem_cons_self c hc).symm
        obtain ⟨heap₂, hwrite, hwrote⟩ := Heap.write_spec (hsame.1.trans hblock)
          (p := ⟨b, nodes.length⟩) (by simp) ⟨metadata, instruction, inner'⟩
        have hblock₂ : heap₂.block? b = some (nodes ++ [⟨metadata, instruction, inner'⟩]) := by
          rw [hwrote.block]
          simp
        have hlast₂ : heap₂.last inner' = some p := by
          rw [Heap.last_congr hp (hwrote.others _ (hb _ hmem)), hlast]
        refine ⟨heap₂, p, b :: owned₁ ++ owned', ?_,
          .down hblock₂ (hinit.frame fun c hc => ?_)
            (hedge.frame fun c hc => hwrote.others c (hb c hc)),
          hwhole.trans (.of_wrote hwrote (List.mem_append_left _ List.mem_cons_self) hwhole.nodup
            hwhole.lt)⟩
        · simp [RawNestedBuilder.pushInner, hread, hpush, hwrite, hlast₂]
        · have hne : c ≠ b := fun heq => (List.nodup_cons.mp hrest).1 (heq ▸ hc)
          rw [hwrote.others c hne, hsame.2 c hc]

/-! ## The pointers of the levels -/

section Levels

variable {β : Type} {ptrs : List β}

/-- One place for each level, filled from the top. -/
def levels (ptrs : List β) : List (Option β) :=
  ptrs.map some ++ List.replicate (maxInstructionStackDepth - ptrs.length) none

theorem getElem?_levels (h : ptrs.length ≤ maxInstructionStackDepth) (k : Nat) :
    (levels ptrs)[k]? = if k < maxInstructionStackDepth then some ptrs[k]? else none := by
  by_cases hk : k < ptrs.length
  · rw [levels, List.getElem?_append_left (by rwa [List.length_map]), List.getElem?_map,
      if_pos (by omega), List.getElem?_eq_getElem hk]
    rfl
  · rw [levels, List.getElem?_append_right (by rw [List.length_map]; omega), List.length_map,
      List.getElem?_replicate, List.getElem?_eq_none (by omega)]
    by_cases hdepth : k < maxInstructionStackDepth
    · rw [if_pos (by omega), if_pos hdepth]
    · rw [if_neg (by omega), if_neg hdepth]

theorem truncate_levels (h : ptrs.length ≤ maxInstructionStackDepth) {height : Nat}
    (hheight : height ≤ maxInstructionStackDepth) :
    (levels ptrs).take height ++ List.replicate (maxInstructionStackDepth - height) none =
      levels (ptrs.take height) := by
  have hlength : (levels ptrs).length = maxInstructionStackDepth := by
    rw [levels, List.length_append, List.length_map, List.length_replicate]
    omega
  have htake : ((levels ptrs).take height).length = height := by
    rw [List.length_take]
    omega
  have hshort : (ptrs.take height).length ≤ maxInstructionStackDepth :=
    Nat.le_trans (List.length_take_le' _ _) h
  apply List.ext_getElem?
  intro k
  rw [getElem?_levels hshort]
  by_cases hk : k < height
  · rw [List.getElem?_append_left (by omega), List.getElem?_take_of_lt hk, getElem?_levels h,
      List.getElem?_take_of_lt hk]
  · rw [List.getElem?_append_right (by omega), htake, List.getElem?_replicate,
      List.getElem?_take_eq_none (by omega)]
    by_cases hdepth : k < maxInstructionStackDepth
    · rw [if_pos (by omega), if_pos hdepth]
    · rw [if_neg (by omega), if_neg hdepth]

/-- The pointer of a level is set, and those below it are given up. -/
theorem set_levels (h : ptrs.length ≤ maxInstructionStackDepth) {k : Nat} (hk : k ≤ ptrs.length)
    (hdepth : k < maxInstructionStackDepth) (p : β) :
    (levels (ptrs.take (k + 1))).set k (some p) = levels (ptrs.take k ++ [p]) := by
  have hshort : (ptrs.take (k + 1)).length ≤ maxInstructionStackDepth :=
    Nat.le_trans (List.length_take_le' _ _) h
  have htake : (ptrs.take k).length = k := by
    rw [List.length_take]
    omega
  have hnew : (ptrs.take k ++ [p]).length ≤ maxInstructionStackDepth := by
    rw [List.length_append, htake]
    exact hdepth
  apply List.ext_getElem?
  intro i
  rw [List.getElem?_set, getElem?_levels hshort, getElem?_levels hnew]
  by_cases hi : k = i
  · subst hi
    have hlt : k < (levels (ptrs.take (k + 1))).length := by
      rw [levels, List.length_append, List.length_map, List.length_replicate]
      omega
    rw [if_pos rfl, if_pos hlt, if_pos hdepth, List.getElem?_append_right (by omega), htake,
      Nat.sub_self]
    rfl
  · rw [if_neg hi]
    by_cases hlt : i < k
    · rw [List.getElem?_append_left (by omega), List.getElem?_take_of_lt hlt,
        List.getElem?_take_of_lt (by omega)]
    · have hbehind : (ptrs.take k ++ [p]).length ≤ i := by
        rw [List.length_append, htake, List.length_singleton]
        omega
      rw [List.getElem?_take_eq_none (by omega), List.getElem?_eq_none hbehind]

end Levels

/-- The way to an instruction of the forest, as a pointer with a path. -/
def ptrTo : List Nat → Ptr
  | [] => ⟨0, []⟩
  | root :: path => ⟨root, path⟩

/-- The pointers to all that a way passes. -/
def ptrsTo (path : List Nat) : List Ptr :=
  (List.range path.length).map fun k => ptrTo (path.take (k + 1))

theorem length_ptrsTo (path : List Nat) : (ptrsTo path).length = path.length := by
  rw [ptrsTo, List.length_map, List.length_range]

theorem getElem?_ptrsTo {k : Nat} (hk : k < path.length) :
    (ptrsTo path)[k]? = some (ptrTo (path.take (k + 1))) := by
  rw [ptrsTo, List.getElem?_map, List.getElem?_range hk]
  rfl

theorem take_ptrsTo (path : List Nat) (k : Nat) : (ptrsTo path).take k = ptrsTo (path.take k) := by
  apply List.ext_getElem?
  intro i
  by_cases hi : i < k ∧ i < path.length
  · rw [List.getElem?_take_of_lt hi.1, getElem?_ptrsTo hi.2,
      getElem?_ptrsTo (by rw [List.length_take]; omega), List.take_take,
      Nat.min_eq_left (by omega)]
  · rw [List.getElem?_eq_none (by rw [List.length_take, length_ptrsTo]; omega),
      List.getElem?_eq_none (by rw [length_ptrsTo, List.length_take]; omega)]

theorem ptrsTo_concat (path : List Nat) (i : Nat) :
    ptrsTo (path ++ [i]) = ptrsTo path ++ [ptrTo (path ++ [i])] := by
  have hwhole : (path ++ [i]).take (path.length + 1) = path ++ [i] :=
    List.take_of_length_le (Nat.le_of_eq List.length_append)
  rw [ptrsTo, List.length_append, List.length_singleton, List.range_succ, List.map_append,
    List.map_singleton, hwhole]
  congr 1
  refine List.map_congr_left fun k hk => ?_
  have := List.mem_range.mp hk
  rw [List.take_append_of_le_length (by omega)]

theorem modifyAt_pushAt (new : NestedInstruction) (path : List Nat) (n : NestedInstruction) :
    modifyAt (fun p => { p with innerInstructions := p.innerInstructions ++ [new] }) path n =
      { n with innerInstructions := pushAt new path n.innerInstructions } := by
  induction path generalizing n with
  | nil => rfl
  | cons i path ih => rw [modifyAt, pushAt, funext ih]

theorem pushInner_ptrTo (new : NestedInstruction) (forest : NestedInstructions)
    (hpath : path ≠ []) :
    UnsafeNestedBuilder.pushInner forest (ptrTo path) new = pushAt new path forest := by
  cases path with
  | nil => exact absurd rfl hpath
  | cons root path =>
    show forest.modify root _ = forest.modify root _
    exact congrArg _ (funext fun n => modifyAt_pushAt new path n)

theorem get?_childrenAt (path : List Nat) (n : NestedInstruction) :
    ((get? path n).elim 0 fun p => p.innerInstructions.length) =
      (childrenAt path n.innerInstructions).length := by
  induction path generalizing n with
  | nil => rfl
  | cons i path ih =>
    rw [get?, childrenAt]
    cases n.innerInstructions[i]? with
    | none => rfl
    | some child => exact ih child

theorem childPtr_ptrTo (forest : NestedInstructions) (hpath : path ≠ []) :
    UnsafeNestedBuilder.childPtr forest (ptrTo path) =
      ptrTo (path ++ [(childrenAt path forest).length]) := by
  cases path with
  | nil => exact absurd rfl hpath
  | cons root path =>
    rw [UnsafeNestedBuilder.childPtr, ptrTo, List.cons_append, ptrTo, childrenAt]
    cases forest[root]? with
    | none => rfl
    | some n =>
      rw [Option.bind_some, get?_childrenAt]
      rfl

/-! ## The simulation -/

/-- The two builders have the same forest, and their pointers lead to the same instructions. -/
structure SimulatesAt (r : RawNestedBuilder) (b : UnsafeNestedBuilder) (ptrs : List Pointer)
    (path owned : List Nat) : Prop where
  edge : Edge r.heap r.nestedIxs b.nestedIxs ptrs path owned
  nodup : owned.Nodup
  lt : ∀ b ∈ owned, b < r.heap.size
  depth : ptrs.length ≤ maxInstructionStackDepth
  raw : r.levelPtrs = levels ptrs
  paths : b.levelPtrs = levels (ptrsTo path)

def Simulates (r : RawNestedBuilder) (b : UnsafeNestedBuilder) : Prop :=
  ∃ ptrs path owned, SimulatesAt r b ptrs path owned

theorem simulates_new (capacity : Nat) : Simulates (new capacity) .new := by
  by_cases hzero : capacity = 0
  · subst hzero
    exact ⟨[], [], [], .stop ⟨rfl, rfl⟩, .nil, fun _ h => absurd h List.not_mem_nil,
      Nat.zero_le _, rfl, rfl⟩
  · have hnew : new capacity = ⟨⟨[some []]⟩, ⟨some 0, capacity⟩,
        List.replicate maxInstructionStackDepth none⟩ := by
      rw [new, Heap.withCapacity, if_neg hzero]
      rfl
    rw [hnew]
    exact ⟨[], [], [0], .stop ⟨[], [], rfl, .nil, rfl⟩, List.nodup_singleton 0,
      fun _ h => List.mem_singleton.mp h ▸ Nat.one_pos, Nat.zero_le _, rfl, rfl⟩

variable {grow : Nat → Nat} {r : RawNestedBuilder} {b : UnsafeNestedBuilder}
  {entry : InstructionMetadata × Instruction} {height : Nat}

namespace SimulatesAt

/-- Truncating the pointers for an instruction. -/
theorem truncated (h : SimulatesAt r b ptrs path owned)
    (hdepth : height ≤ maxInstructionStackDepth) :
    r.levelPtrs.take height ++ List.replicate (maxInstructionStackDepth - height) none =
        levels (ptrs.take height) ∧
      b.ptrsUpTo height = levels (ptrsTo (path.take height)) := by
  have hpaths : (ptrsTo path).length ≤ maxInstructionStackDepth := by
    rw [length_ptrsTo, ← h.edge.length]
    exact h.depth
  rw [UnsafeNestedBuilder.ptrsUpTo, h.raw, h.paths, truncate_levels h.depth hdepth,
    truncate_levels hpaths hdepth, take_ptrsTo]
  exact ⟨rfl, rfl⟩

theorem pushRoot (h : SimulatesAt r b ptrs path owned) (hheight : entry.1.stackHeight = 1)
    (grow : Nat → Nat) :
    ∃ r' b', r.push grow entry = .ok r' ∧ b.push entry = some b' ∧ Simulates r' b' := by
  obtain ⟨nestedIxs, heap, p, owned', hpush, hlast, -, -, hedge, hkeeps⟩ :=
    h.edge.holds.push h.nodup h.lt grow entry
  obtain ⟨hraw, hpaths⟩ := h.truncated (by decide : 1 ≤ maxInstructionStackDepth)
  have hr : r.push grow entry = .ok ⟨heap, nestedIxs, (levels (ptrs.take 1)).set 0 (some p)⟩ := by
    have hbounds : ¬ (1 = 0 ∨ maxInstructionStackDepth < 1) := by decide
    rw [← hraw]
    simp only [RawNestedBuilder.push, hheight, if_neg hbounds, if_true, hpush, orUndefined, bind,
      Except.bind, hlast, pure, Except.pure]
  refine ⟨_, _, hr, UnsafeNestedBuilder.push_root hheight, [p], [b.nestedIxs.length], owned',
    hedge, hkeeps.nodup, hkeeps.lt, Nat.succ_le_succ (Nat.zero_le _), ?_, ?_⟩
  · exact set_levels h.depth (Nat.zero_le _) (by decide) p
  · show (b.ptrsUpTo 1).set 0 _ = _
    rw [hpaths, ← take_ptrsTo]
    exact set_levels (by rw [length_ptrsTo, ← h.edge.length]; exact h.depth) (Nat.zero_le _)
      (by decide) _

/-- An instruction whose parent is on the edge. -/
theorem pushInner (h : SimulatesAt r b ptrs path owned)
    (hheight : entry.1.stackHeight = height + 2) (hdepth : height + 2 ≤ maxInstructionStackDepth)
    (hparent : height < ptrs.length) (grow : Nat → Nat) :
    ∃ r' b', r.push grow entry = .ok r' ∧ b.push entry = some b' ∧ Simulates r' b' := by
  have hlength := h.edge.length
  have hplengths : (ptrsTo path).length ≤ maxInstructionStackDepth := by
    rw [length_ptrsTo, ← hlength]
    exact h.depth
  obtain ⟨hraw, hpaths⟩ := h.truncated hdepth
  have hptr : ptrs[height]? = some ptrs[height] := List.getElem?_eq_getElem hparent
  have hlast : (ptrs.take (height + 1)).getLast? = some ptrs[height] := by
    rw [List.getLast?_take, if_neg (Nat.succ_ne_zero _), Nat.add_sub_cancel, hptr]
    rfl
  obtain ⟨heap, p, owned', hpush, hedge, hkeeps⟩ :=
    (h.edge.take (height + 1)).pushInner hlast h.nodup h.lt grow entry
  have hrparent : (levels (ptrs.take (height + 2)))[height]? = some (some ptrs[height]) := by
    rw [getElem?_levels (Nat.le_trans (List.length_take_le' _ _) h.depth), if_pos (by omega),
      List.getElem?_take_of_lt (by omega), hptr]
  have hbparent : (b.ptrsUpTo (height + 2))[height]? =
      some (some (ptrTo (path.take (height + 1)))) := by
    rw [hpaths, ← take_ptrsTo,
      getElem?_levels (Nat.le_trans (List.length_take_le' _ _) hplengths), if_pos (by omega),
      List.getElem?_take_of_lt (by omega), getElem?_ptrsTo (by omega)]
  have hne : path.take (height + 1) ≠ [] := by
    intro hnil
    have := congrArg List.length hnil
    rw [List.length_take, List.length_nil] at this
    omega
  have hr : r.push grow entry = .ok { r with
      heap := heap, levelPtrs := (levels (ptrs.take (height + 2))).set (height + 1) (some p) } := by
    have hbounds : ¬ (height + 2 = 0 ∨ maxInstructionStackDepth < height + 2) := by omega
    have hone : ¬ height + 2 = 1 := by omega
    simp only [RawNestedBuilder.push, hheight, if_neg hbounds, if_neg hone, hraw,
      Nat.add_sub_cancel, hrparent, hpush, orUndefined, bind, Except.bind, pure, Except.pure]
    rfl
  refine ⟨_, _, hr, UnsafeNestedBuilder.push_inner hheight hdepth hbparent,
    ptrs.take (height + 1) ++ [p],
    path.take (height + 1) ++ [(childrenAt (path.take (height + 1)) b.nestedIxs).length], owned',
    ?_, hkeeps.nodup, hkeeps.lt, ?_, ?_, ?_⟩
  · show Edge heap r.nestedIxs (UnsafeNestedBuilder.pushInner _ _ _) _ _ _
    rw [pushInner_ptrTo _ _ hne]
    exact hedge
  · rw [List.length_append, List.length_take, List.length_singleton]
    omega
  · exact set_levels h.depth hparent (by omega) p
  · show (b.ptrsUpTo (height + 2)).set (height + 1) _ = _
    rw [hpaths, childPtr_ptrTo _ hne, ptrsTo_concat, ← take_ptrsTo, ← take_ptrsTo]
    exact set_levels hplengths (by rw [length_ptrsTo]; omega) (by omega) _

/-- An instruction without a parent is left out. -/
theorem pushOrphan (h : SimulatesAt r b ptrs path owned)
    (hheight : entry.1.stackHeight = height + 2) (hdepth : height + 2 ≤ maxInstructionStackDepth)
    (hparent : ptrs.length ≤ height) (grow : Nat → Nat) :
    ∃ r' b', r.push grow entry = .ok r' ∧ b.push entry = some b' ∧ Simulates r' b' := by
  have hlength := h.edge.length
  obtain ⟨hraw, hpaths⟩ := h.truncated hdepth
  have hptrs : ptrs.take (height + 2) = ptrs := List.take_of_length_le (by omega)
  have hpath : path.take (height + 2) = path := List.take_of_length_le (by omega)
  rw [hptrs] at hraw
  rw [hpath] at hpaths
  have hbounds : ¬ (height + 2 = 0 ∨ maxInstructionStackDepth < height + 2) := by omega
  have hone : ¬ height + 2 = 1 := by omega
  have hrparent : (levels ptrs)[height]? = some none := by
    rw [getElem?_levels h.depth, if_pos (by omega), List.getElem?_eq_none hparent]
  have hbparent : (levels (ptrsTo path))[height]? = some none := by
    rw [getElem?_levels (by rw [length_ptrsTo, ← hlength]; exact h.depth), if_pos (by omega),
      List.getElem?_eq_none (by rw [length_ptrsTo]; omega)]
  refine ⟨{ r with levelPtrs := levels ptrs }, { b with levelPtrs := levels (ptrsTo path) }, ?_,
    ?_, ptrs, path, owned, h.edge, h.nodup, h.lt, h.depth, rfl, rfl⟩
  · simp only [RawNestedBuilder.push, hheight, if_neg hbounds, if_neg hone, hraw,
      Nat.add_sub_cancel, hrparent]
    rfl
  · rw [UnsafeNestedBuilder.ptrsUpTo] at hpaths
    simp only [UnsafeNestedBuilder.push, hheight, if_neg hbounds, if_neg hone, hpaths,
      Nat.add_sub_cancel, hbparent]

end SimulatesAt

/-- One round: both builders panic, or both go on. -/
theorem Simulates.push (h : Simulates r b) (grow : Nat → Nat)
    (entry : InstructionMetadata × Instruction) :
    (r.push grow entry = .error .panic ∧ b.push entry = none) ∨
      ∃ r' b', r.push grow entry = .ok r' ∧ b.push entry = some b' ∧ Simulates r' b' := by
  obtain ⟨ptrs, path, owned, h⟩ := h
  by_cases hbounds : entry.1.stackHeight = 0 ∨ maxInstructionStackDepth < entry.1.stackHeight
  · exact .inl ⟨by simp only [RawNestedBuilder.push, if_pos hbounds],
      by simp only [UnsafeNestedBuilder.push, if_pos hbounds]⟩
  · right
    rcases hheight : entry.1.stackHeight with _ | _ | height
    · omega
    · exact h.pushRoot hheight grow
    · rcases Nat.lt_or_ge height ptrs.length with hparent | hparent
      · exact h.pushInner hheight (by omega) hparent grow
      · exact h.pushOrphan hheight (by omega) hparent grow

theorem Simulates.pushAll (h : Simulates r b) (grow : Nat → Nat)
    (instructions : List (InstructionMetadata × Instruction)) :
    (instructions.foldlM (RawNestedBuilder.push grow) r = .error .panic ∧
      instructions.foldlM UnsafeNestedBuilder.push b = none) ∨
      ∃ r' b', instructions.foldlM (RawNestedBuilder.push grow) r = .ok r' ∧
        instructions.foldlM UnsafeNestedBuilder.push b = some b' ∧ Simulates r' b' := by
  induction instructions generalizing r b with
  | nil => exact .inr ⟨r, b, rfl, rfl, h⟩
  | cons entry instructions ih =>
    rw [List.foldlM_cons, List.foldlM_cons]
    obtain ⟨hr, hb⟩ | ⟨r', b', hr, hb, h⟩ := h.push grow entry
    · rw [hr, hb]
      exact .inl ⟨rfl, rfl⟩
    · rw [hr, hb]
      exact ih h

/-- For every list of instructions, however the vectors grow and whatever room they are given
first: the builder in memory panics where the builder with paths does, and otherwise ends with
that builder's forest in its memory, each block of it owned once.  It never uses a pointer into
a block that has been freed. -/
theorem build_simulates (grow : Nat → Nat) (capacity : Nat)
    (instructions : List (InstructionMetadata × Instruction)) :
    (build grow capacity instructions = .error .panic ∧
      UnsafeNestedBuilder.build instructions = none) ∨
      ∃ r forest owned, build grow capacity instructions = .ok r ∧
        UnsafeNestedBuilder.build instructions = some forest ∧
        Holds r.heap r.nestedIxs forest owned ∧ owned.Nodup := by
  obtain ⟨hr, hb⟩ | ⟨r, b, hr, hb, ptrs, path, owned, h⟩ :=
    (simulates_new capacity).pushAll grow instructions
  · exact .inl ⟨hr, by rw [UnsafeNestedBuilder.build, hb]; rfl⟩
  · exact .inr ⟨r, b.nestedIxs, owned, hr, by rw [UnsafeNestedBuilder.build, hb]; rfl,
      h.edge.holds, h.nodup⟩

end RawNestedBuilder

end OmnipairIndexer
