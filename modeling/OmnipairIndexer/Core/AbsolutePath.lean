/-
The absolute path of an instruction leads to it.

Two parts of the code keep track of where an instruction stands.  The flattening counts on
a stack and writes the path into the metadata, and the builder follows pointers and sees
only the heights.  `nextAddress` is what they have in common: the address of an instruction
follows from its height and the address of the instruction before it.

On the side of the builder this holds because a node stands as deep as its height says, so
that a preorder walk with its depths determines the shape.  On the side of the flattening it
holds as long as each top-level instruction has one group of inner instructions, and all
their heights are 2 at least.

The metadata counts in bytes, so the path in it is the address as long as no level has more
than 256 instructions.
-/
import Mathlib.Data.List.Forall2
import OmnipairIndexer.Core.ExecutionOrder

namespace OmnipairIndexer

open NestedInstruction

/-! ## Addresses from heights -/

/-- The address of an instruction of the given height that comes after another one: below
it, or next to the last instruction of its own height. -/
def nextAddress (prev : List Nat) (height : Nat) : List Nat :=
  prev.take (height - 1) ++ [prev[height - 1]?.elim 0 (· + 1)]

/-- The addresses of instructions of the given heights, one after the other. -/
def addressesFrom : List Nat → List Nat → List (List Nat)
  | _, [] => []
  | prev, height :: heights =>
    nextAddress prev height :: addressesFrom (nextAddress prev height) heights

def lastAddress (prev : List Nat) (heights : List Nat) : List Nat := heights.foldl nextAddress prev

theorem addressesFrom_append (prev as bs : List Nat) :
    addressesFrom prev (as ++ bs) =
      addressesFrom prev as ++ addressesFrom (lastAddress prev as) bs := by
  induction as generalizing prev with
  | nil => rfl
  | cons a as ih => exact congrArg (List.cons _) (ih _)

theorem lastAddress_append (prev as bs : List Nat) :
    lastAddress prev (as ++ bs) = lastAddress (lastAddress prev as) bs := List.foldl_append

/-- A first child. -/
theorem nextAddress_below (a : List Nat) : nextAddress a (a.length + 1) = a ++ [0] := by
  rw [nextAddress, Nat.add_sub_cancel, List.take_length, List.getElem?_eq_none (Nat.le_refl _)]
  rfl

/-- A sibling, whatever has come below the instruction before it. -/
theorem nextAddress_beside {prev a : List Nat} {i : Nat} (h : a ++ [i] <+: prev) :
    nextAddress prev (a.length + 1) = a ++ [i + 1] := by
  obtain ⟨rest, rfl⟩ := h
  rw [nextAddress, Nat.add_sub_cancel, List.append_assoc, List.take_left,
    List.getElem?_append_right (Nat.le_refl _), Nat.sub_self]
  rfl

namespace NestedInstruction

mutual

/-- The nodes of a tree that stands at an address, in the order of the walk. -/
def addressed (a : List Nat) : NestedInstruction → List (List Nat × NestedInstruction)
  | ⟨metadata, instruction, innerInstructions⟩ =>
    (a, ⟨metadata, instruction, innerInstructions⟩) :: addressedFrom a 0 innerInstructions

/-- The nodes of trees that stand side by side, the first at place `i` below the address. -/
def addressedFrom (a : List Nat) (i : Nat) :
    List NestedInstruction → List (List Nat × NestedInstruction)
  | [] => []
  | n :: ns => addressed (a ++ [i]) n ++ addressedFrom a (i + 1) ns

end

mutual

/-- Each node has the height at which it stands. -/
def Leveled (height : Nat) : NestedInstruction → Prop
  | ⟨metadata, _, innerInstructions⟩ =>
    metadata.stackHeight = height ∧ LeveledAll (height + 1) innerInstructions

def LeveledAll (height : Nat) : List NestedInstruction → Prop
  | [] => True
  | n :: ns => Leveled height n ∧ LeveledAll height ns

end

mutual

theorem map_snd_addressed (a : List Nat) : ∀ n : NestedInstruction,
    (addressed a n).map Prod.snd = walk n
  | ⟨_, _, innerInstructions⟩ => by
    rw [addressed, walk, List.map_cons, map_snd_addressedFrom a 0 innerInstructions]

theorem map_snd_addressedFrom (a : List Nat) (i : Nat) : ∀ ns : List NestedInstruction,
    (addressedFrom a i ns).map Prod.snd = walkAll ns
  | [] => by rw [addressedFrom, walkAll, List.map_nil]
  | n :: ns => by
    rw [addressedFrom, walkAll, List.map_append, map_snd_addressed, map_snd_addressedFrom]

end

/-- The heights along the walk. -/
def heights (n : NestedInstruction) : List Nat := (walk n).map fun m => m.metadata.stackHeight

def heightsAll (ns : List NestedInstruction) : List Nat :=
  (walkAll ns).map fun m => m.metadata.stackHeight

theorem heights_mk (metadata : InstructionMetadata) (instruction : Instruction)
    (ns : List NestedInstruction) :
    heights ⟨metadata, instruction, ns⟩ = metadata.stackHeight :: heightsAll ns := by
  rw [heights, walk, List.map_cons]
  rfl

theorem heightsAll_cons (n : NestedInstruction) (ns : List NestedInstruction) :
    heightsAll (n :: ns) = heights n ++ heightsAll ns := by
  rw [heightsAll, walkAll, List.map_append]
  rfl

theorem heightsAll_nil : heightsAll [] = [] := by rw [heightsAll, walkAll, List.map_nil]

mutual

/-- Where the nodes of a leveled tree stand follows from their heights, and the last of them
stands below its root. -/
theorem addressed_eq (prev a : List Nat) : ∀ n : NestedInstruction, Leveled a.length n →
    nextAddress prev a.length = a →
      (addressed a n).map Prod.fst = addressesFrom prev (heights n) ∧
        a <+: lastAddress prev (heights n)
  | ⟨metadata, instruction, innerInstructions⟩, ⟨hheight, hinner⟩, hnext => by
    obtain ⟨haddresses, hlast⟩ :=
      addressedFrom_eq a a 0 innerInstructions hinner (nextAddress_below a) List.prefix_rfl
    rw [heights_mk, hheight, addressed, List.map_cons, addressesFrom, lastAddress, List.foldl_cons,
      hnext, haddresses]
    exact ⟨rfl, hlast⟩

theorem addressedFrom_eq (prev a : List Nat) (i : Nat) : ∀ ns : List NestedInstruction,
    LeveledAll (a.length + 1) ns → nextAddress prev (a.length + 1) = a ++ [i] → a <+: prev →
      (addressedFrom a i ns).map Prod.fst = addressesFrom prev (heightsAll ns) ∧
        a <+: lastAddress prev (heightsAll ns)
  | [], _, _, hbelow => by
    rw [heightsAll_nil, addressedFrom]
    exact ⟨rfl, hbelow⟩
  | n :: ns, ⟨hn, hns⟩, hnext, _ => by
    have hlength : (a ++ [i]).length = a.length + 1 := List.length_append
    obtain ⟨hfirst, hlast⟩ :=
      addressed_eq prev (a ++ [i]) n (hlength ▸ hn) (hlength ▸ hnext)
    obtain ⟨hrest, hend⟩ := addressedFrom_eq (lastAddress prev (heights n)) a (i + 1) ns hns
      (nextAddress_beside hlast) ((List.prefix_append a [i]).trans hlast)
    rw [heightsAll_cons, addressedFrom, List.map_append, addressesFrom_append, hfirst, hrest,
      lastAddress_append]
    exact ⟨rfl, hend⟩

end

mutual

theorem height_of_mem_addressed {a : List Nat} {p : List Nat × NestedInstruction} :
    ∀ {n : NestedInstruction}, Leveled a.length n → p ∈ addressed a n →
      p.2.metadata.stackHeight = p.1.length
  | ⟨metadata, instruction, innerInstructions⟩, ⟨hheight, hinner⟩, hp => by
    rw [addressed, List.mem_cons] at hp
    rcases hp with rfl | hp
    · exact hheight
    · exact height_of_mem_addressedFrom hinner hp

theorem height_of_mem_addressedFrom {a : List Nat} {i : Nat} {p : List Nat × NestedInstruction} :
    ∀ {ns : List NestedInstruction}, LeveledAll (a.length + 1) ns → p ∈ addressedFrom a i ns →
      p.2.metadata.stackHeight = p.1.length
  | [], _, hp => absurd hp (by rw [addressedFrom]; exact List.not_mem_nil)
  | n :: ns, ⟨hn, hns⟩, hp => by
    rw [addressedFrom, List.mem_append] at hp
    rcases hp with hp | hp
    · have hlength : (a ++ [i]).length = a.length + 1 := List.length_append
      exact height_of_mem_addressed (hlength ▸ hn) hp
    · exact height_of_mem_addressedFrom hns hp

end

theorem addressed_subset {ns : List NestedInstruction} (a : List Nat) (i : Nat) {k : Nat}
    {n : NestedInstruction} (h : ns[k]? = some n) :
    addressed (a ++ [i + k]) n ⊆ addressedFrom a i ns := by
  induction ns generalizing i k with
  | nil => cases h
  | cons m ns ih =>
    rw [addressedFrom]
    cases k with
    | zero =>
      cases h
      exact List.subset_append_left _ _
    | succ k =>
      have hrest := ih (i + 1) h
      rw [Nat.add_right_comm] at hrest
      exact fun x hx => List.mem_append_right _ (hrest hx)

/-- A path leads to the node that the walk has under its address. -/
theorem mem_addressed_of_get? {path : List Nat} :
    ∀ {a : List Nat} {n m : NestedInstruction}, get? path n = some m →
      (a ++ path, m) ∈ addressed a n := by
  induction path with
  | nil =>
    intro a n m h
    cases h
    cases n
    rw [addressed, List.append_nil]
    exact List.mem_cons_self
  | cons i path ih =>
    intro a n m h
    obtain ⟨child, hchild, hm⟩ := Option.bind_eq_some_iff.mp h
    cases n
    rw [addressed]
    have hmem := addressed_subset a 0 hchild (ih hm)
    rw [Nat.zero_add, List.append_assoc] at hmem
    exact List.mem_cons_of_mem _ hmem

theorem walk_subset_walkAll {ns : List NestedInstruction} {n : NestedInstruction} (h : n ∈ ns) :
    walk n ⊆ walkAll ns := by
  induction ns with
  | nil => cases h
  | cons m ns ih =>
    rw [walkAll]
    obtain rfl | h := List.mem_cons.mp h
    · exact List.subset_append_left _ _
    · exact fun x hx => List.mem_append_right _ (ih h hx)

/-- A path that leads somewhere only counts children that are there. -/
theorem lt_of_get? {bound : Nat} {path : List Nat} :
    ∀ {n m : NestedInstruction}, get? path n = some m →
      (∀ k ∈ walk n, k.innerInstructions.length ≤ bound) → ∀ i ∈ path, i < bound := by
  induction path with
  | nil => exact fun _ _ i hi => nomatch hi
  | cons i path ih =>
    intro n m h hbound
    obtain ⟨child, hchild, hm⟩ := Option.bind_eq_some_iff.mp h
    cases n
    rw [walk] at hbound
    have hi : i < bound :=
      Nat.lt_of_lt_of_le (List.getElem?_eq_some_iff.mp hchild).1 (hbound _ List.mem_cons_self)
    have hpath : ∀ j ∈ path, j < bound := by
      refine ih hm fun k hk => hbound k (List.mem_cons_of_mem _ ?_)
      exact walk_subset_walkAll (List.mem_of_getElem? hchild) hk
    exact List.forall_mem_cons.mpr ⟨hi, hpath⟩

/-! ## The bytes of a path -/

/-- No level has more instructions than a byte counts. -/
def Narrow (forest : NestedInstructions) : Prop :=
  forest.length ≤ 256 ∧ ∀ n ∈ walkAll forest, n.innerInstructions.length ≤ 256

instance (forest : NestedInstructions) : Decidable (Narrow forest) :=
  inferInstanceAs (Decidable (_ ∧ _))

/-- Where the path of some metadata leads, from the root of the forest. -/
def follow (forest : NestedInstructions) : List UInt8 → Option NestedInstruction
  | [] => none
  | i :: path => forest[i.toNat]?.bind fun root => root.get? (path.map UInt8.toNat)

theorem toNat_ofNat_of_lt {path : List Nat} (h : ∀ i ∈ path, i < 256) :
    (path.map UInt8.ofNat).map UInt8.toNat = path := by
  rw [List.map_map]
  refine (List.map_congr_left fun i hi => ?_).trans (List.map_id path)
  exact UInt8.toNat_ofNat_of_lt' (h i hi)

theorem Narrow.follow_eq {forest : NestedInstructions} (h : Narrow forest) {i : Nat}
    {path : List Nat} {n : NestedInstruction}
    (hn : (forest[i]?.bind fun root => root.get? path) = some n) :
    follow forest ((i :: path).map UInt8.ofNat) = some n := by
  obtain ⟨root, hroot, hpath⟩ := Option.bind_eq_some_iff.mp hn
  have hi : i < 256 := Nat.lt_of_lt_of_le (List.getElem?_eq_some_iff.mp hroot).1 h.1
  have hrest : ∀ j ∈ path, j < 256 := lt_of_get? hpath fun k hk =>
    h.2 k (walk_subset_walkAll (List.mem_of_getElem? hroot) hk)
  rw [List.map_cons, follow, toNat_ofNat_of_lt hrest, UInt8.toNat_ofNat_of_lt' hi]
  exact hn

/-! ## The builder puts a node where its height says -/

theorem LeveledAll.append {height : Nat} {ns ms : List NestedInstruction}
    (hns : LeveledAll height ns) (hms : LeveledAll height ms) : LeveledAll height (ns ++ ms) := by
  induction ns with
  | nil => exact hms
  | cons n ns ih => exact ⟨hns.1, ih hns.2⟩

theorem LeveledAll.modify {height : Nat} {f : NestedInstruction → NestedInstruction}
    (hf : ∀ n, Leveled height n → Leveled height (f n)) {ns : List NestedInstruction}
    (h : LeveledAll height ns) (i : Nat) : LeveledAll height (ns.modify i f) := by
  induction ns generalizing i with
  | nil => cases i <;> exact h
  | cons n ns ih =>
    cases i with
    | zero => exact ⟨hf n h.1, h.2⟩
    | succ i => exact ⟨h.1, ih h.2 i⟩

theorem Leveled.modifyAt {f : NestedInstruction → NestedInstruction} {path : List Nat} :
    ∀ {height : Nat} {n : NestedInstruction},
      (∀ m, Leveled (height + path.length) m → Leveled (height + path.length) (f m)) →
        Leveled height n → Leveled height (NestedInstruction.modifyAt f path n) := by
  induction path with
  | nil => exact fun hf h => hf _ h
  | cons i path ih =>
    intro height n hf h
    cases n
    refine ⟨h.1, h.2.modify (fun m hm => ih ?_ hm) i⟩
    rwa [Nat.add_assoc, Nat.add_comm 1]

theorem Leveled.addInner {height : Nat} {n new : NestedInstruction} (h : Leveled height n)
    (hnew : Leveled (height + 1) new) : Leveled height (addInner new n) := by
  cases n
  exact ⟨h.1, h.2.append ⟨hnew, trivial⟩⟩

end NestedInstruction

namespace UnsafeNestedBuilder

/-- The forest is leveled, and a pointer of the list leads to a node of its height. -/
structure Aligned (b : UnsafeNestedBuilder) : Prop where
  forest : LeveledAll 1 b.nestedIxs
  ptrs : ∀ (k : Nat) (p : Ptr), b.levelPtrs[k]? = some (some p) → p.path.length = k

theorem aligned_new : Aligned new where
  forest := trivial
  ptrs k p h := by
    have hmem := List.mem_of_getElem? h
    cases (List.mem_replicate.mp hmem).2

variable {b c : UnsafeNestedBuilder} {entry : InstructionMetadata × Instruction}

theorem Aligned.ptrsUpTo (h : b.Aligned) (height : Nat) {k : Nat} {p : Ptr}
    (hp : (b.ptrsUpTo height)[k]? = some (some p)) : p.path.length = k := by
  rw [UnsafeNestedBuilder.ptrsUpTo, List.getElem?_append] at hp
  split at hp
  · rw [List.getElem?_take] at hp
    split at hp
    · exact h.ptrs k p hp
    · cases hp
  · cases (List.mem_replicate.mp (List.mem_of_getElem? hp)).2

theorem Aligned.ptrs_set (h : b.Aligned) (height : Nat) {i : Nat} {ptr : Ptr}
    (hptr : ptr.path.length = i) {k : Nat} {p : Ptr}
    (hp : ((b.ptrsUpTo height).set i (some ptr))[k]? = some (some p)) : p.path.length = k := by
  by_cases hk : i = k
  · rw [List.getElem?_set, if_pos hk] at hp
    split at hp
    · cases hp
      exact hptr.trans hk
    · cases hp
  · rw [List.getElem?_set_ne hk] at hp
    exact h.ptrsUpTo height hp

theorem Aligned.push (h : b.Aligned) (hpush : b.push entry = some c) : c.Aligned := by
  have hnew : Leveled entry.1.stackHeight ⟨entry.1, entry.2, []⟩ :=
    ⟨rfl, trivial⟩
  unfold UnsafeNestedBuilder.push at hpush
  dsimp only at hpush
  split at hpush
  · cases hpush
  rename_i hbounds
  split at hpush
  · rename_i hone
    cases hpush
    rw [hone] at hnew
    have hroot : (Ptr.mk b.nestedIxs.length []).path.length = 0 := rfl
    exact ⟨h.forest.append ⟨hnew, trivial⟩, fun k p => h.ptrs_set _ hroot⟩
  rename_i hinner
  split at hpush
  · rename_i parent hparent
    cases hpush
    have hlength : parent.path.length = entry.1.stackHeight - 2 :=
      h.ptrsUpTo entry.1.stackHeight hparent
    refine ⟨h.forest.modify (fun root hroot => hroot.modifyAt fun m hm => hm.addInner ?_) _,
      fun k p => h.ptrs_set _ ?_⟩
    · rwa [hlength, show 1 + (entry.1.stackHeight - 2) + 1 = entry.1.stackHeight by omega]
    · rw [childPtr, List.length_append, hlength, List.length_singleton]
      omega
  · cases hpush
    exact ⟨h.forest, fun k p => h.ptrsUpTo _⟩

theorem leveled_of_build {list : List (InstructionMetadata × Instruction)}
    {forest : NestedInstructions} (h : build list = some forest) : LeveledAll 1 forest := by
  obtain ⟨b, hb, rfl⟩ := Option.map_eq_some_iff.mp h
  have hfold : ∀ (rest : List (InstructionMetadata × Instruction)) (start : UnsafeNestedBuilder),
      start.Aligned → rest.foldlM UnsafeNestedBuilder.push start = some b → b.Aligned := by
    intro rest
    induction rest with
    | nil =>
      intro start hstart hrun
      cases hrun
      exact hstart
    | cons entry rest ih =>
      intro start hstart hrun
      rw [List.foldlM_cons, Option.bind_eq_bind, Option.bind_eq_some_iff] at hrun
      obtain ⟨next, hnext, hrun⟩ := hrun
      exact ih next (hstart.push hnext) hrun
  exact (hfold list new aligned_new hb).forest

end UnsafeNestedBuilder

/-! ## The flattening writes the address -/

/-- The path in the metadata is the address, and the index is where it starts. -/
def Shows (entry : InstructionMetadata × Instruction) (a : List Nat) : Prop :=
  entry.1.absolutePath = a.map UInt8.ofNat ∧ a.head? = some entry.1.index

def heightsOf (entries : List (InstructionMetadata × Instruction)) : List Nat :=
  entries.map fun entry => entry.1.stackHeight

/-- The entries show the addresses that follow from their heights. -/
def ShownFrom (prev : List Nat) (entries : List (InstructionMetadata × Instruction)) : Prop :=
  List.Forall₂ Shows entries (addressesFrom prev (heightsOf entries))

theorem ShownFrom.append {prev : List Nat} {as bs : List (InstructionMetadata × Instruction)}
    (has : ShownFrom prev as) (hbs : ShownFrom (lastAddress prev (heightsOf as)) bs) :
    ShownFrom prev (as ++ bs) := by
  rw [ShownFrom, heightsOf, List.map_append, addressesFrom_append]
  exact List.rel_append has hbs

theorem length_nextAddress {prev : List Nat} {height : Nat} (hpos : 0 < height)
    (hrise : height ≤ prev.length + 1) : (nextAddress prev height).length = height := by
  rw [nextAddress, List.length_append, List.length_take, List.length_singleton]
  omega

/-- Inner instructions stay below the same top-level instruction. -/
theorem head?_nextAddress {prev : List Nat} {height : Nat} (hdeep : 2 ≤ height)
    (hprev : prev ≠ []) : (nextAddress prev height).head? = prev.head? := by
  obtain ⟨i, rest, rfl⟩ := List.exists_cons_of_ne_nil hprev
  obtain ⟨k, hk⟩ := Nat.exists_eq_add_of_le hdeep
  rw [nextAddress, show height - 1 = k + 1 by omega, List.take_succ_cons]
  rfl

theorem head?_lastAddress {heights : List Nat} (hdeep : ∀ height ∈ heights, 2 ≤ height) :
    ∀ {prev : List Nat}, prev ≠ [] → (lastAddress prev heights).head? = prev.head? := by
  induction heights with
  | nil => exact fun _ => rfl
  | cons height heights ih =>
    intro prev hprev
    rw [List.forall_mem_cons] at hdeep
    have hnext := head?_nextAddress hdeep.1 hprev
    rw [lastAddress, List.foldl_cons, ← lastAddress, ih hdeep.2, hnext]
    exact List.append_ne_nil_of_right_ne_nil _ (List.cons_ne_nil _ _)

/-- The stack of the flattening shows the address of the last instruction. -/
structure Counting (st : PathState) (a : List Nat) : Prop where
  length : st.pathStack.length = maxInstructionStackDepth
  shows : st.pathStack.take a.length = a.map UInt8.ofNat
  nonempty : a ≠ []
  prevHeight : st.prevHeight = a.length ∨ st.prevHeight = 0 ∧ a.length = 1

section

variable {accountKeys : List Pubkey} {md : TransactionMetadata}
  {isWritable isSigner : Pubkey → Nat → Bool}

theorem Counting.first {index : UInt8} :
    Counting ⟨(List.replicate maxInstructionStackDepth 0).set 0 index, 0⟩ [index.toNat] where
  length := rfl
  shows := by
    rw [List.map_singleton, UInt8.ofNat_toNat]
    rfl
  nonempty := List.cons_ne_nil _ _
  prevHeight := Or.inr ⟨rfl, rfl⟩

/-- The stack after an instruction of the given height. -/
def PathState.next (st : PathState) (height : Nat) : PathState :=
  ⟨if st.prevHeight < height then st.pathStack.set (height - 1) 0
    else st.pathStack.modify (height - 1) (· + 1), height⟩

theorem take_succ_modify {α : Type} {l : List α} {k : Nat} {x : α} (h : l[k]? = some x)
    (f : α → α) : (l.modify k f).take (k + 1) = l.take k ++ [f x] := by
  induction l generalizing k with
  | nil => cases h
  | cons y l ih =>
    cases k with
    | zero =>
      cases h
      rfl
    | succ k => exact congrArg (List.cons y) (ih h)

theorem take_succ_set {α : Type} {l : List α} {k : Nat} (h : k < l.length) (x : α) :
    (l.set k x).take (k + 1) = l.take k ++ [x] := by
  rw [List.set_eq_modify]
  exact take_succ_modify (List.getElem?_eq_getElem h) fun _ => x

theorem Counting.next {st : PathState} {a : List Nat} {height : Nat} (h : Counting st a)
    (hdeep : 2 ≤ height) (hrise : height ≤ a.length + 1)
    (hdepth : height ≤ maxInstructionStackDepth) :
    Counting (st.next height) (nextAddress a height) := by
  have hlength := length_nextAddress (by omega) hrise
  have hstack := h.length
  have hprev := h.prevHeight
  refine ⟨?_, ?_, List.append_ne_nil_of_right_ne_nil _ (List.cons_ne_nil _ _), Or.inl hlength.symm⟩
  · rw [PathState.next]
    split
    · rw [List.length_set, h.length]
    · rw [List.length_modify, h.length]
  · obtain ⟨k, rfl⟩ : ∃ k, height = k + 1 := ⟨height - 1, by omega⟩
    have htake : st.pathStack.take k = (a.take k).map UInt8.ofNat := by
      rw [List.map_take, ← h.shows, List.take_take, Nat.min_eq_left (by omega)]
    rw [hlength, PathState.next, nextAddress, Nat.add_sub_cancel, List.map_append, ← htake]
    by_cases hnew : st.prevHeight < k + 1
    · rw [if_pos hnew, List.getElem?_eq_none (by omega), take_succ_set (by omega)]
      rfl
    · have hk : k < a.length := by omega
      have hget : st.pathStack[k]? = some (UInt8.ofNat a[k]) := by
        have hshows : (st.pathStack.take a.length)[k]? = (a.map UInt8.ofNat)[k]? := by
          rw [h.shows]
        rwa [List.getElem?_take_of_lt hk, List.getElem?_map, List.getElem?_eq_getElem hk] at hshows
      rw [if_neg hnew, take_succ_modify hget, List.getElem?_eq_getElem hk]
      exact congrArg (fun x => _ ++ [x]) (UInt8.ofNat_add _ _).symm

theorem processInner_next {index : UInt8} {st : PathState} {inner : InnerInstruction}
    (hpos : 0 < inner.height) (hdepth : inner.height ≤ maxInstructionStackDepth) :
    processInner accountKeys md isWritable isSigner index st inner =
      some ((⟨md, inner.height, index.toNat, (st.next inner.height).pathStack.take inner.height⟩,
        buildInstruction accountKeys isWritable isSigner inner.instruction),
        st.next inner.height) := by
  have hbounds : ¬ (inner.height = 0 ∨ maxInstructionStackDepth < inner.height) := by omega
  exact if_neg hbounds

theorem shown_processGroupFrom {index : UInt8} {inners : List InnerInstruction}
    (hdeep : ∀ inner ∈ inners, 2 ≤ inner.height) :
    ∀ {st a entries}, Counting st a → a.head? = some index.toNat →
      Rising a.length (inners.map InnerInstruction.height) →
      processGroupFrom accountKeys md isWritable isSigner index st inners = some entries →
        ShownFrom a entries ∧ heightsOf entries = inners.map InnerInstruction.height := by
  induction inners with
  | nil =>
    intro st a entries _ _ _ h
    cases h
    exact ⟨.nil, rfl⟩
  | cons inner inners ih =>
    intro st a entries hcounting hhead ⟨hpos, hrise, hdepth, hrest⟩ h
    rw [List.forall_mem_cons] at hdeep
    have hnext := hcounting.next hdeep.1 hrise hdepth
    have hlength := length_nextAddress hpos hrise
    have hhead' := (head?_nextAddress hdeep.1 hcounting.nonempty).trans hhead
    simp only [processGroupFrom, processInner_next hpos hdepth, Option.bind_eq_bind,
      Option.bind_some, Option.bind_eq_some_iff] at h
    obtain ⟨rest, hgroup, heq⟩ := h
    cases heq
    obtain ⟨hshown, hheights⟩ := ih hdeep.2 hnext hhead' (hlength.symm ▸ hrest) hgroup
    have hshows := hnext.shows
    rw [hlength] at hshows
    refine ⟨.cons ⟨hshows, hhead'⟩ hshown, ?_⟩
    rw [heightsOf, List.map_cons, List.map_cons, ← heightsOf, hheights]

theorem shown_processGroup {group : InnerInstructions}
    (hdeep : ∀ inner ∈ group.instructions, 2 ≤ inner.height)
    (hrise : Rising 1 (group.instructions.map InnerInstruction.height))
    {entries : List (InstructionMetadata × Instruction)}
    (h : processGroup accountKeys md isWritable isSigner group = some entries) :
    ShownFrom [group.index.toNat] entries ∧
      heightsOf entries = group.instructions.map InnerInstruction.height :=
  shown_processGroupFrom hdeep Counting.first rfl hrise h

/-- At most one group has the index. -/
theorem filter_index_eq {groups : List InnerInstructions}
    (honce : (groups.map InnerInstructions.index).Nodup) (i : Nat) :
    (groups.filter fun group => group.index.toNat = i) = [] ∨
      ∃ group ∈ groups, group.index.toNat = i ∧
        (groups.filter fun group => group.index.toNat = i) = [group] := by
  induction groups with
  | nil => exact Or.inl rfl
  | cons group groups ih =>
    rw [List.map_cons, List.nodup_cons] at honce
    by_cases hindex : group.index.toNat = i
    · have hrest : (groups.filter fun group => group.index.toNat = i) = [] := by
        rw [List.filter_eq_nil_iff]
        intro other hother hsame
        apply honce.1
        have heq : other.index = group.index :=
          UInt8.toNat_inj.mp ((of_decide_eq_true hsame).trans hindex.symm)
        exact heq ▸ List.mem_map_of_mem hother
      refine Or.inr ⟨group, List.mem_cons_self, hindex, ?_⟩
      rw [List.filter_cons, if_pos (decide_eq_true hindex), hrest]
    · rw [List.filter_cons, if_neg (mt of_decide_eq_true hindex)]
      obtain hnone | ⟨other, hother, hsame, heq⟩ := ih honce.2
      · exact Or.inl hnone
      · exact Or.inr ⟨other, List.mem_cons_of_mem _ hother, hsame, heq⟩

/-- The inner instructions of each top-level instruction are recorded as one group, and
stand at height 2 or more. -/
structure Grouped (groups : List InnerInstructions) : Prop where
  once : (groups.map InnerInstructions.index).Nodup
  deep : ∀ group ∈ groups, ∀ inner ∈ group.instructions, 2 ≤ inner.height
  rising : ∀ group ∈ groups, Rising 1 (group.instructions.map InnerInstruction.height)

/-- The instruction before stands in the tree before that of top-level instruction `i`. -/
def Before (i : Nat) (prev : List Nat) : Prop := nextAddress prev 1 = [i]

theorem before_of_head? {prev : List Nat} {i : Nat} (h : prev.head? = some i) :
    Before (i + 1) prev := by
  obtain ⟨rest, rfl⟩ : ∃ rest, prev = i :: rest := by
    cases prev with
    | nil => cases h
    | cons j rest =>
      cases h
      exact ⟨rest, rfl⟩
  rfl

theorem shown_processTopLevel {inner : Option (List InnerInstructions)}
    (hgroups : Grouped (inner.getD [])) {compiled : CompiledInstruction} {i : Nat}
    {prev : List Nat} (hprev : Before i prev)
    {entries : List (InstructionMetadata × Instruction)}
    (h : processTopLevel accountKeys md isWritable isSigner inner (compiled, i) = some entries) :
    ShownFrom prev entries ∧ Before (i + 1) (lastAddress prev (heightsOf entries)) := by
  simp only [processTopLevel, Option.bind_eq_bind, Option.bind_eq_some_iff] at h
  obtain ⟨lists, hlists, heq⟩ := h
  cases heq
  have hroot : ∀ rest, ShownFrom [i] rest → (∀ height ∈ heightsOf rest, 2 ≤ height) →
      ShownFrom prev ((⟨md, 1, i, [UInt8.ofNat i]⟩,
          buildInstruction accountKeys isWritable isSigner compiled) :: rest) ∧
        Before (i + 1) (lastAddress prev (1 :: heightsOf rest)) := by
    intro rest hshown hdeep
    constructor
    · refine .cons ?_ ?_
      · rw [hprev]
        exact ⟨rfl, rfl⟩
      · rw [hprev]
        exact hshown
    · rw [lastAddress, List.foldl_cons, hprev, ← lastAddress]
      exact before_of_head? (head?_lastAddress hdeep (List.cons_ne_nil _ _))
  obtain hnone | ⟨group, hgroup, hindex, hone⟩ := filter_index_eq hgroups.once i
  · rw [hnone, List.mapM_nil] at hlists
    cases hlists
    exact hroot [] .nil fun height h => absurd h List.not_mem_nil
  · rw [hone, List.mapM_cons, List.mapM_nil, Option.bind_eq_bind, Option.bind_eq_some_iff] at hlists
    obtain ⟨entries, hentries, hlists⟩ := hlists
    cases hlists
    obtain ⟨hshown, hheights⟩ :=
      shown_processGroup (hgroups.deep group hgroup) (hgroups.rising group hgroup) hentries
    have hdeep : ∀ height ∈ heightsOf entries, 2 ≤ height := by
      rw [hheights, List.forall_mem_map]
      exact hgroups.deep group hgroup
    rw [List.flatten_singleton]
    exact hroot entries (hindex ▸ hshown) hdeep

theorem shown_mapM_processTopLevel {inner : Option (List InnerInstructions)}
    (hgroups : Grouped (inner.getD [])) {instructions : List CompiledInstruction} :
    ∀ {i prev tops}, Before i prev →
      (instructions.zipIdx i).mapM (processTopLevel accountKeys md isWritable isSigner inner) =
        some tops → ShownFrom prev tops.flatten := by
  induction instructions with
  | nil =>
    intro i prev tops _ h
    cases h
    exact .nil
  | cons compiled instructions ih =>
    intro i prev tops hprev h
    rw [List.zipIdx_cons, List.mapM_cons, Option.bind_eq_bind, Option.bind_eq_some_iff] at h
    obtain ⟨entries, hentries, h⟩ := h
    rw [Option.bind_eq_bind, Option.bind_eq_some_iff] at h
    obtain ⟨rest, hrest, heq⟩ := h
    cases heq
    obtain ⟨hshown, hnext⟩ := shown_processTopLevel hgroups hprev hentries
    exact hshown.append (ih hnext hrest)

theorem shown_processInstructions {inner : Option (List InnerInstructions)}
    (hgroups : Grouped (inner.getD [])) {instructions : List CompiledInstruction}
    {entries : List (InstructionMetadata × Instruction)}
    (h : processInstructions accountKeys md isWritable isSigner instructions inner =
      some entries) : ShownFrom [] entries := by
  simp only [processInstructions, Option.bind_eq_bind, Option.bind_eq_some_iff] at h
  obtain ⟨tops, htops, heq⟩ := h
  cases heq
  exact shown_mapM_processTopLevel hgroups rfl htops

end

/-! ## Updates -/

namespace TransactionUpdate

variable {update : TransactionUpdate}

theorem shown_extract (hgroups : Grouped update.groups) {md : TransactionMetadata}
    {entries : List (InstructionMetadata × Instruction)}
    (h : extractInstructionsWithMetadata md update = some entries) : ShownFrom [] entries := by
  unfold extractInstructionsWithMetadata at h
  split at h
  · exact shown_processInstructions hgroups h
  · exact shown_processInstructions hgroups h

/-- The builder makes a forest in which each node shows its address. -/
theorem shows_of_build {list : List (InstructionMetadata × Instruction)}
    (hrising : Rising 0 (heightsOf list)) (hshown : ShownFrom [] list) :
    ∃ forest, UnsafeNestedBuilder.build list = some forest ∧
      ∀ p ∈ addressedFrom [] 0 forest, Shows p.2.entry p.1 ∧
        p.2.metadata.stackHeight = p.1.length := by
  obtain ⟨forest, hforest, hwalk⟩ := UnsafeNestedBuilder.entries_build hrising
  have hleveled := UnsafeNestedBuilder.leveled_of_build hforest
  obtain ⟨haddresses, -⟩ := addressedFrom_eq [] [] 0 forest hleveled rfl List.prefix_rfl
  have hlist : list = (addressedFrom [] 0 forest).map fun p => p.2.entry := by
    rw [← hwalk, entriesAll, ← map_snd_addressedFrom [] 0 forest, List.map_map]
    rfl
  have hheights : heightsOf list = heightsAll forest := by
    rw [← hwalk, entriesAll, heightsOf, List.map_map]
    rfl
  rw [ShownFrom, hheights, ← haddresses, hlist, List.forall₂_map_left_iff,
    List.forall₂_map_right_iff, List.forall₂_same] at hshown
  exact ⟨forest, hforest, fun p hp =>
    ⟨hshown p hp, @height_of_mem_addressedFrom [] 0 p forest hleveled hp⟩⟩

/-- For every update of the recorded shape, with one group for each top-level instruction
and inner heights from 2 on: the path in the metadata of an instruction is its address in
bytes, and leads from the root of the forest to this instruction if no level has more than
256.  Its index is that of its top-level instruction, and its height is the length of the
path. -/
theorem absolute_path_leads_there (update : TransactionUpdate) (h : update.Recorded)
    (honce : (update.groups.map InnerInstructions.index).Nodup)
    (hdeep : ∀ group ∈ update.groups, ∀ inner ∈ group.instructions, 2 ≤ inner.height) :
    ∃ forest, nestedInstructions update = .ok forest ∧
      ∀ (i : Nat) (path : List Nat) (n : NestedInstruction),
        (forest[i]?.bind fun root => root.get? path) = some n →
          n.metadata.index = i ∧ n.metadata.absolutePath = (i :: path).map UInt8.ofNat ∧
            n.metadata.stackHeight = path.length + 1 ∧
            (Narrow forest → follow forest n.metadata.absolutePath = some n) := by
  have hgroups : Grouped update.groups := ⟨honce, hdeep, h.heights⟩
  obtain ⟨feePayer, rest, hkeys⟩ := List.exists_cons_of_ne_nil h.feePayer
  have hmd : TransactionMetadata.tryFrom update =
      .ok ⟨update.slot, update.signature, feePayer⟩ := by
    rw [TransactionMetadata.tryFrom, hkeys]
  obtain ⟨entries, hentries, -, hrising⟩ :=
    extract_flattened h ⟨update.slot, update.signature, feePayer⟩
  obtain ⟨forest, hforest, hshows⟩ := shows_of_build hrising (shown_extract hgroups hentries)
  refine ⟨forest, by simp only [nestedInstructions, hmd, hentries, hforest], ?_⟩
  intro i path n hn
  obtain ⟨root, hroot, hpath⟩ := Option.bind_eq_some_iff.mp hn
  have hmem := addressed_subset [] 0 hroot (mem_addressed_of_get? hpath)
  rw [Nat.zero_add] at hmem
  obtain ⟨⟨habsolute, hindex⟩, hheight⟩ := hshows _ hmem
  exact ⟨(Option.some.inj hindex).symm, habsolute, hheight, fun hnarrow =>
    (congrArg (follow forest) habsolute).trans (hnarrow.follow_eq hn)⟩

/-- Two instructions.  The second one calls three programs, and the second of these one
more. -/
def callsInside : TransactionUpdate where
  signature := "inside"
  message := .legacy [.filled 1, .filled 9] [⟨1, [], [1]⟩, ⟨1, [], [2]⟩] (fun _ => false)
    (fun _ => false)
  statusMeta := ⟨some [⟨1, [⟨⟨1, [], [3]⟩, some 2⟩, ⟨⟨1, [], [4]⟩, some 2⟩,
    ⟨⟨1, [], [5]⟩, some 3⟩, ⟨⟨1, [], [6]⟩, some 2⟩]⟩], ⟨[], []⟩⟩
  slot := 1

theorem callsInside_recorded : callsInside.Recorded where
  feePayer := List.cons_ne_nil _ _
  index_lt group hgroup := by
    rw [List.mem_singleton.mp hgroup]
    decide
  heights group hgroup := by
    rw [List.mem_singleton.mp hgroup]
    refine ⟨?_, ?_, ?_, ?_, ?_, ?_, ?_, ?_, ?_, ?_, ?_, ?_, trivial⟩ <;> decide

/-- The innermost call has the path `[1, 1, 0]`, which leads to it. -/
theorem absolute_path_leads_there_callsInside :
    ∃ forest, nestedInstructions callsInside = .ok forest ∧
      ∃ n, (forest[1]?.bind fun root => root.get? [1, 0]) = some n ∧
        n.instruction.data = [5] ∧ n.metadata.absolutePath = [1, 1, 0] ∧
        follow forest [1, 1, 0] = some n := by
  obtain ⟨forest, hforest, hpaths⟩ :=
    absolute_path_leads_there callsInside callsInside_recorded (by decide) (by decide)
  have hdata : ((nestedInstructions callsInside).toOption.bind fun forest =>
      (forest[1]?.bind fun root => root.get? [1, 0]).map fun n => n.instruction.data) =
        some [5] := by
    decide +kernel
  have hnarrow : (nestedInstructions callsInside).toOption.all fun forest => Narrow forest := by
    decide +kernel
  rw [hforest] at hdata hnarrow
  obtain ⟨n, hn, hfive⟩ := Option.map_eq_some_iff.mp hdata
  obtain ⟨-, hpath, -, hleads⟩ := hpaths 1 [1, 0] n hn
  exact ⟨forest, hforest, n, hn, hfive, hpath,
    (congrArg (follow forest) hpath).symm.trans (hleads (of_decide_eq_true hnarrow))⟩

end TransactionUpdate

end OmnipairIndexer
