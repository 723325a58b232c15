/-
Growing vectors in memory, and pointers to their elements.

A vector keeps its elements in a block.  When it is full, a push moves them to a new block and
frees the old one, and a pointer into a freed block must not be used any more.  Blocks are
numbered as they are allocated and no number is used again, so a pointer that is used too late
is always noticed: `read` and `write` give `none`.  By how much a full vector grows is a
parameter.

A part of the heap is described by the numbers of its blocks, its owned list.  `Keeps` says
that a change stays within such a part, and `Keeps.append_left` is the frame rule.
-/
import Mathlib.Data.List.Nodup

namespace RawVec

/-- The blocks by number; a freed block is missing. -/
structure Heap (α : Type*) where
  blocks : List (Option (List α))

/-- A vector without capacity has no block. -/
structure Vec where
  block : Option Nat
  capacity : Nat
  deriving DecidableEq

structure Pointer where
  block : Nat
  index : Nat
  deriving DecidableEq

def Vec.new : Vec := ⟨none, 0⟩

namespace Heap

variable {α : Type*}

def empty : Heap α := ⟨[]⟩

def size (heap : Heap α) : Nat := heap.blocks.length

def block? (heap : Heap α) (b : Nat) : Option (List α) := heap.blocks[b]?.join

/-- `Vec::with_capacity`. -/
def withCapacity (heap : Heap α) (capacity : Nat) : Vec × Heap α :=
  if capacity = 0 then (.new, heap)
  else (⟨some heap.size, capacity⟩, ⟨heap.blocks ++ [some []]⟩)

def elems? (heap : Heap α) (v : Vec) : Option (List α) :=
  match v.block with
  | none => some []
  | some b => heap.block? b

def read (heap : Heap α) (p : Pointer) : Option α := (heap.block? p.block).bind (·[p.index]?)

def write (heap : Heap α) (p : Pointer) (a : α) : Option (Heap α) :=
  (heap.block? p.block).bind fun elems =>
    if p.index < elems.length then some ⟨heap.blocks.set p.block (some (elems.set p.index a))⟩
    else none

/-- `Vec::push`. -/
def push (grow : Nat → Nat) (heap : Heap α) (v : Vec) (a : α) : Option (Vec × Heap α) :=
  match v.block with
  | none => some (⟨some heap.size, grow v.capacity⟩, ⟨heap.blocks ++ [some [a]]⟩)
  | some b =>
    (heap.block? b).map fun elems =>
      if elems.length < v.capacity then (v, ⟨heap.blocks.set b (some (elems ++ [a]))⟩)
      else
        (⟨some heap.size, grow v.capacity⟩, ⟨heap.blocks.set b none ++ [some (elems ++ [a])]⟩)

/-- `last_mut`. -/
def last (heap : Heap α) (v : Vec) : Option Pointer :=
  v.block.bind fun b => (heap.block? b).bind fun elems =>
    if elems.isEmpty then none else some ⟨b, elems.length - 1⟩

variable {heap heap' heap'' : Heap α} {v v' : Vec} {p : Pointer} {a : α} {elems : List α} {b : Nat}

theorem lt_size_of_block? (h : heap.block? b = some elems) : b < heap.size := by
  rw [block?, Option.join_eq_some_iff] at h
  exact (List.getElem?_eq_some_iff.mp h).1

theorem last_of_block? (hv : v.block = some b) (h : heap.block? b = some (elems ++ [a])) :
    heap.last v = some ⟨b, elems.length⟩ := by
  simp [last, hv, h]

theorem last_congr (hv : v.block = some b) (h : heap'.block? b = heap.block? b) :
    heap'.last v = heap.last v := by
  simp only [last, hv, Option.bind_some, h]

/-! ## Writing -/

theorem read_of_block? (h : heap.block? p.block = some elems) : heap.read p = elems[p.index]? := by
  rw [read, h, Option.bind_some]

/-- What a write changes. -/
structure Wrote (heap : Heap α) (p : Pointer) (elems : List α) (heap' : Heap α) : Prop where
  block : heap'.block? p.block = some elems
  others : ∀ b, b ≠ p.block → heap'.block? b = heap.block? b
  size : heap'.size = heap.size

theorem write_spec (h : heap.block? p.block = some elems) (hindex : p.index < elems.length)
    (a : α) : ∃ heap', heap.write p a = some heap' ∧
      Wrote heap p (elems.set p.index a) heap' := by
  have hlt := lt_size_of_block? h
  refine ⟨_, by rw [write, h, Option.bind_some, if_pos hindex], ?_, ?_, ?_⟩
  · simp only [block?]
    rw [List.getElem?_set_self hlt, Option.join_some]
  · intro b hb
    simp only [block?]
    rw [List.getElem?_set_ne hb.symm]
  · exact List.length_set

/-! ## Pushing -/

/-- What a push does to a vector with the given elements; `p` points to the new one. -/
structure Pushed (heap : Heap α) (v : Vec) (elems : List α) (a : α) (heap' : Heap α) (v' : Vec)
    (p : Pointer) : Prop where
  block : v'.block = some p.block
  index : p.index = elems.length
  elems : heap'.block? p.block = some (elems ++ [a])
  place : v.block = some p.block ∨ p.block = heap.size
  others : ∀ b < heap.size, v.block ≠ some b → heap'.block? b = heap.block? b
  size : heap.size ≤ heap'.size

theorem push_spec (grow : Nat → Nat) (h : heap.elems? v = some elems) (a : α) :
    ∃ v' heap' p, heap.push grow v a = some (v', heap') ∧ heap'.last v' = some p ∧
      Pushed heap v elems a heap' v' p := by
  obtain ⟨block, capacity⟩ := v
  cases block with
  | none =>
    obtain rfl : [] = elems := Option.some.inj h
    have hblock : (⟨heap.blocks ++ [some [a]]⟩ : Heap α).block? heap.size = some ([] ++ [a]) := by
      rw [block?, size, List.getElem?_concat_length]
      rfl
    refine ⟨_, _, ⟨heap.size, 0⟩, rfl, last_of_block? rfl hblock, rfl, rfl, hblock, .inr rfl, ?_,
      ?_⟩
    · intro b hb _
      rw [block?, List.getElem?_append_left hb]
      rfl
    · simp [size]
  | some b =>
    have hb : heap.block? b = some elems := h
    have hlt := lt_size_of_block? hb
    by_cases hroom : elems.length < capacity
    · have hblock : (⟨heap.blocks.set b (some (elems ++ [a]))⟩ : Heap α).block? b =
          some (elems ++ [a]) := by
        rw [block?, List.getElem?_set_self hlt, Option.join_some]
      refine ⟨⟨some b, capacity⟩, _, ⟨b, elems.length⟩, ?_, last_of_block? rfl hblock, rfl, rfl,
        hblock, .inl rfl, ?_, ?_⟩
      · simp only [push, hb, Option.map_some, if_pos hroom]
      · intro c _ hne
        have hbc : b ≠ c := fun heq => hne (congrArg some heq)
        simp only [block?]
        rw [List.getElem?_set_ne hbc]
      · exact Nat.le_of_eq List.length_set.symm
    · -- the elements move, and the old block is freed
      have hblock : (⟨heap.blocks.set b none ++ [some (elems ++ [a])]⟩ : Heap α).block? heap.size =
          some (elems ++ [a]) := by
        have hlength : heap.size = (heap.blocks.set b none).length := List.length_set.symm
        rw [block?, hlength, List.getElem?_concat_length, Option.join_some]
      refine ⟨⟨some heap.size, grow capacity⟩, _, ⟨heap.size, elems.length⟩, ?_,
        last_of_block? rfl hblock, rfl, rfl, hblock, .inr rfl, ?_, ?_⟩
      · simp only [push, hb, Option.map_some, if_neg hroom]
      · intro c hc hne
        have hbc : b ≠ c := fun heq => hne (congrArg some heq)
        simp only [block?]
        rw [List.getElem?_append_left (by rwa [List.length_set]), List.getElem?_set_ne hbc]
      · simp [size]

end Heap

/-! ## Parts of the heap -/

/-- A change of a part of the heap, and the part that comes of it: other blocks stay as they
are, and new ones are added at the end. -/
structure Keeps {α : Type*} (owned : List Nat) (heap : Heap α) (owned' : List Nat)
    (heap' : Heap α) : Prop where
  others : ∀ b < heap.size, b ∉ owned → heap'.block? b = heap.block? b
  size : heap.size ≤ heap'.size
  owned : ∀ b ∈ owned', b ∈ owned ∨ heap.size ≤ b
  nodup : owned'.Nodup
  lt : ∀ b ∈ owned', b < heap'.size

namespace Keeps

variable {α : Type*} {heap heap' heap'' : Heap α} {owned owned' owned'' rest : List Nat}

theorem trans (h : Keeps owned heap owned' heap') (h' : Keeps owned' heap' owned'' heap'') :
    Keeps owned heap owned'' heap'' where
  others b hb hnot := by
    have hnot' : b ∉ owned' := fun hmem => by
      obtain hmem | hle := h.owned b hmem
      · exact hnot hmem
      · omega
    rw [h'.others b (Nat.lt_of_lt_of_le hb h.size) hnot', h.others b hb hnot]
  size := Nat.le_trans h.size h'.size
  owned b hmem := by
    obtain hmem | hle := h'.owned b hmem
    · exact h.owned b hmem
    · exact .inr (Nat.le_trans h.size hle)
  nodup := h'.nodup
  lt := h'.lt

/-- The frame rule: what else is owned stays owned. -/
theorem append_left (h : Keeps owned heap owned' heap') (hnodup : (rest ++ owned).Nodup)
    (hlt : ∀ b ∈ rest, b < heap.size) : Keeps (rest ++ owned) heap (rest ++ owned') heap' where
  others b hb hnot := h.others b hb fun hmem => hnot (List.mem_append_right _ hmem)
  size := h.size
  owned b hmem := by
    obtain hmem | hmem := List.mem_append.mp hmem
    · exact .inl (List.mem_append_left _ hmem)
    · exact (h.owned b hmem).imp_left (List.mem_append_right _)
  nodup := by
    obtain ⟨hrest, -, hdisjoint⟩ := List.nodup_append.mp hnodup
    refine List.nodup_append.mpr ⟨hrest, h.nodup, ?_⟩
    intro b hb c hc heq
    subst heq
    obtain hmem | hle := h.owned b hc
    · exact hdisjoint b hb b hmem rfl
    · have := hlt b hb
      omega
  lt b hmem := by
    obtain hmem | hmem := List.mem_append.mp hmem
    · exact Nat.lt_of_lt_of_le (hlt b hmem) h.size
    · exact h.lt b hmem

/-- What is owned elsewhere is as before. -/
theorem frame (h : Keeps owned heap owned' heap') (hnodup : (rest ++ owned).Nodup)
    (hlt : ∀ b ∈ rest, b < heap.size) : ∀ b ∈ rest, heap'.block? b = heap.block? b := by
  intro b hb
  refine h.others b (hlt b hb) fun hmem => ?_
  exact (List.nodup_append.mp hnodup).2.2 b hb b hmem rfl

theorem of_wrote {p : Pointer} {elems : List α} (h : heap.Wrote p elems heap') (hp : p.block ∈ owned)
    (hnodup : owned.Nodup) (hlt : ∀ b ∈ owned, b < heap.size) : Keeps owned heap owned heap' where
  others b _ hnot := h.others b fun heq => hnot (heq ▸ hp)
  size := Nat.le_of_eq h.size.symm
  owned _ hmem := .inl hmem
  nodup := hnodup
  lt b hmem := by
    rw [h.size]
    exact hlt b hmem

end Keeps

end RawVec
