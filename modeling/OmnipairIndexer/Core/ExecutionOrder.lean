/-
The order of the instructions is kept on the way to the pipe.

Flattening puts the inner instructions of a group after their top-level instruction, the
builder makes a forest of the list again, and the walk visits the forest with parents
first.  `entries_build` says that the last two undo each other whenever no stack height
rises by more than one: the pointers of the builder then lead down the right edge of the
forest, and a new instruction goes to the end of the walk.

`nested_in_order` adds the flattening: nothing panics, and the walk has the instructions in
the order in which they were executed.
-/
import OmnipairIndexer.Core.Pipeline

namespace OmnipairIndexer

open NestedInstruction

/-! ## The right edge -/

namespace NestedInstruction

def entry (n : NestedInstruction) : InstructionMetadata × Instruction := (n.metadata, n.instruction)

/-- What a tree is built from, in the order of the walk. -/
def entries (n : NestedInstruction) : List (InstructionMetadata × Instruction) :=
  n.walk.map entry

def entriesAll (ns : NestedInstructions) : List (InstructionMetadata × Instruction) :=
  (walkAll ns).map entry

def addInner (new n : NestedInstruction) : NestedInstruction :=
  { n with innerInstructions := n.innerInstructions ++ [new] }

/-- The path takes the last child at every step. -/
def OnEdge : List Nat → NestedInstruction → Prop
  | [], _ => True
  | i :: path, n => ∃ init last, n.innerInstructions = init ++ [last] ∧ i = init.length ∧
    OnEdge path last

theorem entries_eq (n : NestedInstruction) :
    n.entries = n.entry :: entriesAll n.innerInstructions := by
  cases n
  rw [entries, walk, List.map_cons]
  rfl

@[simp] theorem entriesAll_nil : entriesAll [] = [] := by rw [entriesAll, walkAll, List.map_nil]

theorem entriesAll_cons (n : NestedInstruction) (ns : NestedInstructions) :
    entriesAll (n :: ns) = n.entries ++ entriesAll ns := by
  rw [entriesAll, walkAll, List.map_append]
  rfl

theorem entriesAll_append (ns ms : NestedInstructions) :
    entriesAll (ns ++ ms) = entriesAll ns ++ entriesAll ms := by
  induction ns with
  | nil => rw [entriesAll_nil, List.nil_append, List.nil_append]
  | cons n ns ih => rw [List.cons_append, entriesAll_cons, entriesAll_cons, ih, List.append_assoc]

theorem entriesAll_concat (ns : NestedInstructions) (n : NestedInstruction) :
    entriesAll (ns ++ [n]) = entriesAll ns ++ n.entries := by
  rw [entriesAll_append, entriesAll_cons, entriesAll_nil, List.append_nil]

theorem modify_concat {α : Type} (init : List α) (last : α) (f : α → α) :
    (init ++ [last]).modify init.length f = init ++ [f last] := by
  induction init with
  | nil => rfl
  | cons a init ih => exact congrArg (List.cons a) ih

variable {new : NestedInstruction}

/-- A child that is added on the edge is the last one of the walk. -/
theorem entries_modifyAt_addInner {path : List Nat} :
    ∀ {n : NestedInstruction}, OnEdge path n →
      (modifyAt (addInner new) path n).entries = n.entries ++ new.entries := by
  induction path with
  | nil =>
    intro n _
    rw [modifyAt, entries_eq, entries_eq n, addInner, entriesAll_concat]
    rfl
  | cons i path ih =>
    rintro n ⟨init, last, hinner, rfl, hlast⟩
    rw [modifyAt, entries_eq, entries_eq n]
    simp only [hinner, modify_concat, entriesAll_concat, ih hlast, entry, List.cons_append,
      List.append_assoc]

theorem OnEdge.take {path : List Nat} (k : Nat) :
    ∀ {n : NestedInstruction}, OnEdge path n → OnEdge (path.take k) n := by
  induction path generalizing k with
  | nil => exact fun _ => by rw [List.take_nil]; trivial
  | cons i path ih =>
    rintro n ⟨init, last, hinner, rfl, hlast⟩
    cases k with
    | zero => trivial
    | succ k => exact ⟨init, last, hinner, rfl, ih k hlast⟩

/-- The edge goes on through the child that is added at the end of it. -/
theorem OnEdge.addInner (new : NestedInstruction) {path : List Nat} :
    ∀ {n : NestedInstruction}, OnEdge path n → ∃ parent, get? path n = some parent ∧
      OnEdge (path ++ [parent.innerInstructions.length]) (modifyAt (.addInner new) path n) := by
  induction path with
  | nil =>
    exact fun {n} _ => ⟨n, rfl, n.innerInstructions, new, rfl, rfl, trivial⟩
  | cons i path ih =>
    rintro n ⟨init, last, hinner, rfl, hlast⟩
    obtain ⟨parent, hparent, hedge⟩ := ih hlast
    refine ⟨parent, ?_, init, _, ?_, rfl, hedge⟩
    · rw [get?, hinner, List.getElem?_concat_length, Option.bind_some, hparent]
    · show n.innerInstructions.modify init.length _ = _
      rw [hinner, modify_concat]

end NestedInstruction

/-! ## The builder -/

/-- No height rises by more than one over the height before it, the first one over `prev`,
and none is 0 or too deep. -/
def Rising : (prev : Nat) → List Nat → Prop
  | _, [] => True
  | prev, height :: heights =>
    0 < height ∧ height ≤ prev + 1 ∧ height ≤ maxInstructionStackDepth ∧ Rising height heights

namespace UnsafeNestedBuilder

/-- The builder after an instruction of height `prev`: up to there the pointers lead down
the edge of the last root. -/
structure Standing (prev : Nat) (b : UnsafeNestedBuilder)
    (done : List (InstructionMetadata × Instruction)) : Prop where
  entries : entriesAll b.nestedIxs = done
  length : b.levelPtrs.length = maxInstructionStackDepth
  edge : 0 < prev → ∃ init root path, b.nestedIxs = init ++ [root] ∧ OnEdge path root ∧
    path.length + 1 = prev ∧
      ∀ k < prev, b.levelPtrs[k]? = some (some ⟨init.length, path.take k⟩)

theorem standing_new : Standing 0 new [] where
  entries := entriesAll_nil
  length := rfl
  edge h := absurd h (Nat.lt_irrefl 0)

variable {b : UnsafeNestedBuilder} {done : List (InstructionMetadata × Instruction)}
  {entry : InstructionMetadata × Instruction} {prev height : Nat}

/-- The pointers that an instruction of a height leaves for those below it. -/
def ptrsUpTo (b : UnsafeNestedBuilder) (height : Nat) : List (Option Ptr) :=
  b.levelPtrs.take height ++ List.replicate (maxInstructionStackDepth - height) none

theorem Standing.length_ptrsUpTo (h : Standing prev b done)
    (hdepth : height ≤ maxInstructionStackDepth) :
    (b.ptrsUpTo height).length = maxInstructionStackDepth := by
  rw [ptrsUpTo, List.length_append, List.length_take, List.length_replicate, h.length]
  omega

theorem Standing.getElem?_ptrsUpTo (h : Standing prev b done)
    (hdepth : height ≤ maxInstructionStackDepth) {k : Nat} (hk : k < height) :
    (b.ptrsUpTo height)[k]? = b.levelPtrs[k]? := by
  have hlength := h.length
  rw [ptrsUpTo, List.getElem?_append_left (by rw [List.length_take]; omega),
    List.getElem?_take_of_lt hk]

theorem push_root (hheight : entry.1.stackHeight = 1) :
    b.push entry = some
      { nestedIxs := b.nestedIxs ++ [⟨entry.1, entry.2, []⟩]
        levelPtrs := (b.ptrsUpTo 1).set 0 (some ⟨b.nestedIxs.length, []⟩) } := by
  unfold push
  simp only [hheight]
  rfl

theorem push_inner (hheight : entry.1.stackHeight = height + 2)
    (hdepth : height + 2 ≤ maxInstructionStackDepth) {parent : Ptr}
    (hparent : (b.ptrsUpTo (height + 2))[height]? = some (some parent)) :
    b.push entry = some
      { nestedIxs := UnsafeNestedBuilder.pushInner b.nestedIxs parent ⟨entry.1, entry.2, []⟩
        levelPtrs := (b.ptrsUpTo (height + 2)).set (height + 1)
          (some (childPtr b.nestedIxs parent)) } := by
  have hbounds : ¬ (height + 2 = 0 ∨ maxInstructionStackDepth < height + 2) := by omega
  have hone : ¬ height + 2 = 1 := by omega
  rw [ptrsUpTo] at hparent
  unfold push
  simp only [hheight, if_neg hbounds, if_neg hone, Nat.add_sub_cancel, hparent]
  rfl

/-- A top-level instruction starts a tree of its own. -/
theorem Standing.pushRoot (h : Standing prev b done) (hheight : entry.1.stackHeight = 1) :
    ∃ c, b.push entry = some c ∧ Standing 1 c (done ++ [entry]) := by
  have hlength : (b.ptrsUpTo 1).length = maxInstructionStackDepth := h.length_ptrsUpTo (by decide)
  refine ⟨_, push_root hheight, ?_, ?_, fun _ => ⟨b.nestedIxs, _, [], rfl, trivial, rfl,
    fun k hk => ?_⟩⟩
  · rw [entriesAll_concat, h.entries, entries_eq, entriesAll_nil]
    rfl
  · rw [List.length_set, hlength]
  · obtain rfl : k = 0 := by omega
    rw [List.getElem?_set_self (by rw [hlength]; decide)]
    rfl

/-- An inner instruction goes to the end of the edge of its height. -/
theorem Standing.pushInner (h : Standing prev b done) (hheight : entry.1.stackHeight = height + 2)
    (hprev : height + 1 ≤ prev) (hdepth : height + 2 ≤ maxInstructionStackDepth) :
    ∃ c, b.push entry = some c ∧ Standing (height + 2) c (done ++ [entry]) := by
  obtain ⟨init, root, path, hforest, hedge, hpath, hptrs⟩ := h.edge (by omega)
  have hlength := h.length_ptrsUpTo hdepth
  have hparent : (b.ptrsUpTo (height + 2))[height]? =
      some (some ⟨init.length, path.take height⟩) := by
    rw [h.getElem?_ptrsUpTo hdepth (by omega), hptrs height (by omega)]
  have hedge := hedge.take height
  obtain ⟨parent, hget, hnext⟩ := hedge.addInner ⟨entry.1, entry.2, []⟩
  have hpushed : UnsafeNestedBuilder.pushInner b.nestedIxs ⟨init.length, path.take height⟩
      ⟨entry.1, entry.2, []⟩ =
      init ++ [modifyAt (.addInner ⟨entry.1, entry.2, []⟩) (path.take height) root] := by
    rw [UnsafeNestedBuilder.pushInner, hforest]
    exact modify_concat init root _
  have hchild : childPtr b.nestedIxs ⟨init.length, path.take height⟩ =
      ⟨init.length, path.take height ++ [parent.innerInstructions.length]⟩ := by
    rw [childPtr, hforest, List.getElem?_concat_length, Option.bind_some, hget]
    rfl
  have htake : (path.take height).length = height := by
    rw [List.length_take]
    omega
  have hwhole : (path.take height ++ [parent.innerInstructions.length]).length = height + 1 := by
    rw [List.length_append, htake]
    rfl
  refine ⟨_, push_inner hheight hdepth hparent, ?_, ?_, fun _ => ⟨init, _,
    path.take height ++ [parent.innerInstructions.length], hpushed, hnext,
    congrArg (· + 1) hwhole, fun k hk => ?_⟩⟩
  · show entriesAll (UnsafeNestedBuilder.pushInner _ _ _) = _
    rw [hpushed, entriesAll_concat, entries_modifyAt_addInner hedge, ← List.append_assoc,
      ← entriesAll_concat, ← hforest, h.entries, entries_eq, entriesAll_nil]
    rfl
  · rw [List.length_set, hlength]
  · show (List.set _ _ _)[k]? = _
    rcases Nat.lt_or_ge k (height + 1) with hlt | hge
    · rw [List.getElem?_set_ne (by omega), h.getElem?_ptrsUpTo hdepth hk, hptrs k (by omega),
        List.take_append_of_le_length (by omega), List.take_take, Nat.min_eq_left (by omega)]
    · obtain rfl : k = height + 1 := by omega
      rw [List.getElem?_set_self (by omega), hchild, List.take_of_length_le (Nat.le_of_eq hwhole)]

theorem Standing.push (h : Standing prev b done) (hpos : 0 < entry.1.stackHeight)
    (hrise : entry.1.stackHeight ≤ prev + 1)
    (hdepth : entry.1.stackHeight ≤ maxInstructionStackDepth) :
    ∃ c, b.push entry = some c ∧ Standing entry.1.stackHeight c (done ++ [entry]) := by
  rcases hheight : entry.1.stackHeight with _ | _ | height
  · omega
  · exact h.pushRoot hheight
  · exact h.pushInner hheight (by omega) (by omega)

theorem Standing.pushAll {list : List (InstructionMetadata × Instruction)} :
    ∀ {prev b done}, Standing prev b done → Rising prev (list.map fun e => e.1.stackHeight) →
      ∃ c, list.foldlM UnsafeNestedBuilder.push b = some c ∧
        entriesAll c.nestedIxs = done ++ list := by
  induction list with
  | nil => exact fun {_ b _} h _ => ⟨b, rfl, by rw [h.entries, List.append_nil]⟩
  | cons entry list ih =>
    rintro prev b done h ⟨hpos, hrise, hdepth, hrest⟩
    obtain ⟨c, hc, hstanding⟩ := h.push hpos hrise hdepth
    obtain ⟨d, hd, hentries⟩ := ih hstanding hrest
    refine ⟨d, by rw [List.foldlM_cons, hc]; exact hd, ?_⟩
    rw [hentries, List.append_assoc, List.singleton_append]

/-- The walk of the forest is the list it is built from. -/
theorem entries_build {list : List (InstructionMetadata × Instruction)}
    (h : Rising 0 (list.map fun e => e.1.stackHeight)) :
    ∃ forest, build list = some forest ∧ entriesAll forest = list := by
  obtain ⟨b, hb, hentries⟩ := standing_new.pushAll h
  exact ⟨b.nestedIxs, by rw [build, hb]; rfl, by rw [hentries, List.nil_append]⟩

end UnsafeNestedBuilder

/-! ## Flattening -/

def InnerInstruction.height (inner : InnerInstruction) : Nat := (inner.stackHeight.getD 1).toNat

/-- Each top-level instruction and the groups of its index, in recorded order. -/
def executionOrder (instructions : List CompiledInstruction) (groups : List InnerInstructions) :
    List CompiledInstruction :=
  instructions.zipIdx.flatMap fun top =>
    top.1 :: (groups.filter fun group => group.index.toNat = top.2).flatMap fun group =>
      group.instructions.map InnerInstruction.instruction

/-- A list that is flattened to entries, which can stand after any height from `least` on. -/
structure Flattened (least : Nat) (build : CompiledInstruction → Instruction)
    (list : List CompiledInstruction) (entries : List (InstructionMetadata × Instruction)) :
    Prop where
  instructions : entries.map Prod.snd = list.map build
  rising : ∀ prev, least ≤ prev → Rising prev (entries.map fun e => e.1.stackHeight)

theorem Rising.mono {prev prev' : Nat} {heights : List Nat} (h : Rising prev heights)
    (hle : prev ≤ prev') : Rising prev' heights := by
  cases heights with
  | nil => trivial
  | cons height heights => exact ⟨h.1, by have := h.2.1; omega, h.2.2⟩

theorem Rising.append {as bs : List Nat} (hbs : ∀ q, 0 < q → Rising q bs) :
    ∀ {prev}, Rising prev as → Rising prev bs → Rising prev (as ++ bs) := by
  induction as with
  | nil => exact fun _ h => h
  | cons a as ih => exact fun h _ => ⟨h.1, h.2.1, h.2.2.1, ih h.2.2.2 (hbs a h.1)⟩

section Flattening

variable {build : CompiledInstruction → Instruction} {least : Nat}

theorem flattened_nil : Flattened least build [] [] := ⟨rfl, fun _ _ => trivial⟩

theorem Flattened.append {as bs : List CompiledInstruction}
    {es fs : List (InstructionMetadata × Instruction)} (ha : Flattened least build as es)
    (hb : Flattened least build bs fs) (hleast : least ≤ 1) :
    Flattened least build (as ++ bs) (es ++ fs) where
  instructions := by rw [List.map_append, List.map_append, ha.instructions, hb.instructions]
  rising prev hprev := by
    rw [List.map_append]
    exact Rising.append (fun q hq => hb.rising q (Nat.le_trans hleast hq)) (ha.rising prev hprev)
      (hb.rising prev hprev)

/-- Parts that are flattened one after the other. -/
theorem flattened_mapM {α : Type} {f : α → Option (List (InstructionMetadata × Instruction))}
    {g : α → List CompiledInstruction} (hleast : least ≤ 1) {as : List α}
    (h : ∀ a ∈ as, ∃ es, f a = some es ∧ Flattened least build (g a) es) :
    ∃ ess, as.mapM f = some ess ∧ Flattened least build (as.flatMap g) ess.flatten := by
  induction as with
  | nil => exact ⟨[], rfl, flattened_nil⟩
  | cons a as ih =>
    obtain ⟨es, hes, hflat⟩ := h a List.mem_cons_self
    obtain ⟨ess, hess, hflats⟩ := ih fun b hb => h b (List.mem_cons_of_mem a hb)
    refine ⟨es :: ess, by rw [List.mapM_cons, hes, hess]; rfl, ?_⟩
    rw [List.flatMap_cons, List.flatten_cons]
    exact hflat.append hflats hleast

variable (accountKeys : List Pubkey) (md : TransactionMetadata)
  (isWritable isSigner : Pubkey → Nat → Bool)

theorem processInner_eq (index : UInt8) (st : PathState) {inner : InnerInstruction}
    (hpos : 0 < inner.height) (hdepth : inner.height ≤ maxInstructionStackDepth) :
    ∃ path st', processInner accountKeys md isWritable isSigner index st inner =
      some ((⟨md, inner.height, index.toNat, path⟩,
        buildInstruction accountKeys isWritable isSigner inner.instruction), st') := by
  have hbounds : ¬ (inner.height = 0 ∨ maxInstructionStackDepth < inner.height) := by omega
  exact ⟨_, _, if_neg hbounds⟩

theorem processGroupFrom_flattened {index : UInt8} {inners : List InnerInstruction} :
    ∀ {prev st}, Rising prev (inners.map InnerInstruction.height) →
      ∃ entries,
        processGroupFrom accountKeys md isWritable isSigner index st inners = some entries ∧
          (entries.map fun e => e.1.stackHeight) = inners.map InnerInstruction.height ∧
          entries.map Prod.snd = (inners.map InnerInstruction.instruction).map
            (buildInstruction accountKeys isWritable isSigner) := by
  induction inners with
  | nil => exact fun _ => ⟨[], rfl, rfl, rfl⟩
  | cons inner inners ih =>
    rintro prev st ⟨hpos, -, hdepth, hrest⟩
    obtain ⟨path, st', hinner⟩ := processInner_eq accountKeys md isWritable isSigner index st
      hpos hdepth
    obtain ⟨entries, hentries, hheights, hbuilt⟩ := @ih _ st' hrest
    refine ⟨(⟨md, inner.height, index.toNat, path⟩,
      buildInstruction accountKeys isWritable isSigner inner.instruction) :: entries, ?_, ?_, ?_⟩
    · simp only [processGroupFrom, hinner, Option.bind_eq_bind, Option.bind_some, hentries]
      rfl
    · rw [List.map_cons, List.map_cons, hheights]
    · rw [List.map_cons, List.map_cons, List.map_cons, hbuilt]

theorem processGroup_flattened {group : InnerInstructions}
    (h : Rising 1 (group.instructions.map InnerInstruction.height)) :
    ∃ entries, processGroup accountKeys md isWritable isSigner group = some entries ∧
      Flattened 1 (buildInstruction accountKeys isWritable isSigner)
        (group.instructions.map InnerInstruction.instruction) entries := by
  obtain ⟨entries, hentries, hheights, hbuilt⟩ :=
    processGroupFrom_flattened accountKeys md isWritable isSigner h
  exact ⟨entries, hentries, hbuilt, fun prev hprev => hheights ▸ h.mono hprev⟩

theorem processTopLevel_flattened {inner : Option (List InnerInstructions)}
    (hgroups : ∀ group ∈ inner.getD [],
      Rising 1 (group.instructions.map InnerInstruction.height))
    (top : CompiledInstruction × Nat) :
    ∃ entries, processTopLevel accountKeys md isWritable isSigner inner top = some entries ∧
      Flattened 0 (buildInstruction accountKeys isWritable isSigner)
        (top.1 :: ((inner.getD []).filter fun group => group.index.toNat = top.2).flatMap
          fun group => group.instructions.map InnerInstruction.instruction) entries := by
  obtain ⟨groups, hmapM, hflat⟩ := flattened_mapM (Nat.le_refl 1)
    fun group (hgroup : group ∈ (inner.getD []).filter fun group => group.index.toNat = top.2) =>
      processGroup_flattened accountKeys md isWritable isSigner
        (hgroups group (List.mem_of_mem_filter hgroup))
  refine ⟨_, by rw [processTopLevel, hmapM]; rfl, ?_, fun prev _ => ?_⟩
  · rw [List.map_cons, List.map_cons, hflat.instructions]
  · exact ⟨Nat.one_pos, Nat.le_add_left 1 prev, show 1 ≤ 5 by omega,
      hflat.rising 1 (Nat.le_refl 1)⟩

theorem processInstructions_flattened {inner : Option (List InnerInstructions)}
    (hgroups : ∀ group ∈ inner.getD [],
      Rising 1 (group.instructions.map InnerInstruction.height))
    (instructions : List CompiledInstruction) :
    ∃ entries, processInstructions accountKeys md isWritable isSigner instructions inner =
        some entries ∧
      Flattened 0 (buildInstruction accountKeys isWritable isSigner)
        (executionOrder instructions (inner.getD [])) entries := by
  obtain ⟨tops, hmapM, hflat⟩ := flattened_mapM (Nat.zero_le 1) fun top _ =>
    processTopLevel_flattened accountKeys md isWritable isSigner hgroups top
  exact ⟨_, by rw [processInstructions, hmapM]; rfl, hflat⟩

end Flattening

/-- What is put after every element, moved behind all of them. -/
theorem flatMap_zipIdx_perm {α : Type} (g : Nat → List α) (tops : List α) (k : Nat) :
    ((tops.zipIdx k).flatMap fun top => top.1 :: g top.2).Perm
      (tops ++ (List.range' k tops.length).flatMap g) := by
  induction tops generalizing k with
  | nil => exact List.Perm.refl []
  | cons top tops ih =>
    rw [List.zipIdx_cons, List.flatMap_cons, List.length_cons, List.range'_succ,
      List.flatMap_cons, List.cons_append, List.cons_append]
    refine List.Perm.cons top (((ih (k + 1)).append_left (g k)).trans ?_)
    rw [← List.append_assoc, ← List.append_assoc]
    exact List.perm_append_comm.append_right _

/-- The elements of the indices below `n`, index by index. -/
theorem flatMap_filter_perm {α : Type} (index : α → Nat) (l : List α) (n : Nat) :
    ((List.range n).flatMap fun i => l.filter fun a => index a = i).Perm
      (l.filter fun a => index a < n) := by
  induction n with
  | zero => simp
  | succ n ih =>
    have hsplit := List.filter_append_perm (fun a => decide (index a < n))
      (l.filter fun a => index a < n + 1)
    have hless : (l.filter fun a => index a < n + 1).filter (fun a => index a < n) =
        l.filter fun a => index a < n := by
      rw [List.filter_filter]
      exact List.filter_congr fun a _ => by grind
    have hequal : (l.filter fun a => index a < n + 1).filter (fun a => !decide (index a < n)) =
        l.filter fun a => index a = n := by
      rw [List.filter_filter]
      exact List.filter_congr fun a _ => by grind
    rw [hless, hequal] at hsplit
    rw [List.range_succ, List.flatMap_append, List.flatMap_singleton]
    exact (ih.append_right _).trans hsplit

/-- No instruction is left out, and none is there twice. -/
theorem executionOrder_perm {instructions : List CompiledInstruction}
    {groups : List InnerInstructions}
    (h : ∀ group ∈ groups, group.index.toNat < instructions.length) :
    (executionOrder instructions groups).Perm (instructions ++
      groups.flatMap fun group => group.instructions.map InnerInstruction.instruction) := by
  have hall : (groups.filter fun group => group.index.toNat < instructions.length) = groups :=
    List.filter_eq_self.mpr fun group hgroup => decide_eq_true (h group hgroup)
  have hbelow := flatMap_filter_perm (fun group : InnerInstructions => group.index.toNat) groups
    instructions.length
  have hgroups := hbelow.flatMap_right
    fun group : InnerInstructions => group.instructions.map InnerInstruction.instruction
  rw [hall, List.flatMap_assoc] at hgroups
  refine (flatMap_zipIdx_perm (fun i => (groups.filter fun group => group.index.toNat = i).flatMap
    fun group => group.instructions.map InnerInstruction.instruction) instructions 0).trans ?_
  rw [← List.range_eq_range']
  exact hgroups.append_left instructions

/-! ## Updates -/

def VersionedMessage.instructions : VersionedMessage → List CompiledInstruction
  | legacy _ instructions _ _ => instructions
  | v0 _ instructions _ => instructions

namespace TransactionUpdate

def groups (update : TransactionUpdate) : List InnerInstructions :=
  update.statusMeta.innerInstructions.getD []

/-- How an instruction of the update is built from its compiled form. -/
def build (update : TransactionUpdate) : CompiledInstruction → Instruction :=
  match update.message with
  | .legacy accountKeys _ isMaybeWritable isSigner =>
    buildInstruction accountKeys (fun _ idx => isMaybeWritable idx) (fun _ idx => isSigner idx)
  | .v0 staticKeys _ numRequiredSignatures =>
    let loaded := update.statusMeta.loadedAddresses
    buildInstruction (staticKeys ++ loaded.writable ++ loaded.readonly)
      (fun key _ => key ∈ loaded.writable) (fun _ idx => idx < numRequiredSignatures)

/-- The keys that the indices in the message stand for. -/
def messageKeys (update : TransactionUpdate) : List Pubkey :=
  match update.message with
  | .legacy accountKeys _ _ _ => accountKeys
  | .v0 staticKeys _ _ =>
    staticKeys ++ update.statusMeta.loadedAddresses.writable ++
      update.statusMeta.loadedAddresses.readonly

theorem build_data (update : TransactionUpdate) (compiled : CompiledInstruction) :
    (update.build compiled).data = compiled.data := by
  unfold build
  cases update.message <;> rfl

theorem build_programId (update : TransactionUpdate) (compiled : CompiledInstruction) :
    (update.build compiled).programId =
      update.messageKeys[compiled.programIdIndex.toNat]?.getD .default := by
  unfold build messageKeys
  cases update.message <;> rfl

/-- The instructions of the update in the order in which they were executed. -/
def executed (update : TransactionUpdate) : List Instruction :=
  (executionOrder update.message.instructions update.groups).map update.build

/-- What the runtime records: a fee payer, groups that belong to a top-level instruction,
and in each of them stack heights that start at 2 and rise step by step.  A height of 1,
which no inner instruction is recorded with, does no harm. -/
structure Recorded (update : TransactionUpdate) : Prop where
  feePayer : update.message.staticAccountKeys ≠ []
  index_lt : ∀ group ∈ update.groups, group.index.toNat < update.message.instructions.length
  heights : ∀ group ∈ update.groups,
    Rising 1 (group.instructions.map InnerInstruction.height)

theorem extract_flattened {update : TransactionUpdate} (h : update.Recorded)
    (md : TransactionMetadata) :
    ∃ entries, extractInstructionsWithMetadata md update = some entries ∧
      entries.map Prod.snd = update.executed ∧
      Rising 0 (entries.map fun e => e.1.stackHeight) := by
  unfold extractInstructionsWithMetadata executed build
  cases hmessage : update.message with
  | legacy accountKeys instructions isMaybeWritable isSigner =>
    obtain ⟨entries, hentries, hflat⟩ := processInstructions_flattened accountKeys md
      (fun _ idx => isMaybeWritable idx) (fun _ idx => isSigner idx) h.heights instructions
    exact ⟨entries, hentries, hflat.instructions, hflat.rising 0 (Nat.le_refl 0)⟩
  | v0 staticKeys instructions numRequiredSignatures =>
    obtain ⟨entries, hentries, hflat⟩ := processInstructions_flattened
      (staticKeys ++ update.statusMeta.loadedAddresses.writable ++
        update.statusMeta.loadedAddresses.readonly) md
      (fun key _ => key ∈ update.statusMeta.loadedAddresses.writable)
      (fun _ idx => idx < numRequiredSignatures) h.heights instructions
    exact ⟨entries, hentries, hflat.instructions, hflat.rising 0 (Nat.le_refl 0)⟩

/-- The walk of the forest that is handed to the pipe. -/
theorem nested_in_order {update : TransactionUpdate} (h : update.Recorded) :
    ∃ forest, nestedInstructions update = .ok forest ∧
      (walkAll forest).map NestedInstruction.instruction = update.executed := by
  obtain ⟨feePayer, rest, hkeys⟩ := List.exists_cons_of_ne_nil h.feePayer
  have hmd : TransactionMetadata.tryFrom update =
      .ok ⟨update.slot, update.signature, feePayer⟩ := by
    rw [TransactionMetadata.tryFrom, hkeys]
  obtain ⟨entries, hentries, hexecuted, hrising⟩ :=
    extract_flattened h ⟨update.slot, update.signature, feePayer⟩
  obtain ⟨forest, hforest, hwalk⟩ := UnsafeNestedBuilder.entries_build hrising
  refine ⟨forest, by simp only [nestedInstructions, hmd, hentries, hforest], ?_⟩
  rw [← hexecuted, ← hwalk, entriesAll, List.map_map]
  rfl

end TransactionUpdate

end OmnipairIndexer
