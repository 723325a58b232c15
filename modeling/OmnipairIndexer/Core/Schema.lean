/-
Transaction schemas: `TransactionSchema::match_nodes`.

A schema is a list of nodes for the instructions of a level.  An instruction node asks for
an instruction of its type, with its own nodes for the inner instructions, and an `Any`
before it lets instructions in front of that be skipped.  The matcher takes the first
instruction of the type and does not come back to try another one.

`Matches` says what a match is, with any choice, and `choice` restricts the choices.
`matchNodes_iff` is the matcher as the first choice.  Where the instructions of each level
are of different types there is only one choice, and the matcher finds every match.
-/
import OmnipairIndexer.Core.Instruction
import OmnipairIndexer.Library.LastWrite

namespace OmnipairIndexer

/-- A decoded instruction with its inner ones. -/
inductive ParsedInstruction (T : Type) where
  | mk (programId : Pubkey) (instruction : DecodedInstruction T)
      (innerInstructions : List (ParsedInstruction T))

namespace ParsedInstruction

variable {T : Type}

def instruction : ParsedInstruction T → DecodedInstruction T
  | mk _ instruction _ => instruction

def innerInstructions : ParsedInstruction T → List (ParsedInstruction T)
  | mk _ _ innerInstructions => innerInstructions

end ParsedInstruction

inductive SchemaNode (K : Type) where
  | instruction (ixType : K) (name : String) (innerInstructions : List (SchemaNode K))
  | any

namespace TransactionSchema

variable {T K : Type} [DecidableEq K]

/-- A `HashMap` from names to data and accounts. -/
abbrev Output (T : Type) := String → Option (T × List AccountMeta)

def mergeHashmaps (a b : Output T) : Output T := fun name => (b name).or (a name)

def matched (ix : ParsedInstruction T) : T × List AccountMeta :=
  (ix.instruction.data, ix.instruction.accounts)

/-- The inner loop: the instruction a node takes, and those behind it. -/
def seek (getType : T → K) (ixType : K) (any : Bool) :
    List (ParsedInstruction T) → Option (ParsedInstruction T × List (ParsedInstruction T))
  | [] => none
  | ix :: rest =>
    if getType ix.instruction.data = ixType then some (ix, rest)
    else if any then seek getType ixType any rest
    else none

mutual

/-- The nodes inside one, for the inner instructions of the one it takes. -/
def matchInside (getType : T → K) :
    SchemaNode K → ParsedInstruction T → Output T → Option (Output T)
  | .any, _, output => some output
  | .instruction _ _ inner, ix, output =>
    if inner.isEmpty then some output
    else
      (matchFrom getType inner false ix.innerInstructions fun _ => none).map
        (mergeHashmaps output)

/-- The outer loop of `match_nodes`, from a node on. -/
def matchFrom (getType : T → K) : List (SchemaNode K) → Bool → List (ParsedInstruction T) →
    Output T → Option (Output T)
  | [], _, _, output => some output
  | .any :: nodes, _, instructions, output => matchFrom getType nodes true instructions output
  | .instruction ixType name inner :: nodes, any, instructions, output => do
    let (ix, rest) ← seek getType ixType any instructions
    let output := Function.update output name (some (matched ix))
    let output ← matchInside getType (.instruction ixType name inner) ix output
    matchFrom getType nodes false rest output

end

def matchNodes (getType : T → K) (root : List (SchemaNode K))
    (instructions : List (ParsedInstruction T)) : Option (Output T) :=
  matchFrom getType root false instructions fun _ => none

/-! ## Matches -/

/-- What a match assigns to names, in the order of the nodes. -/
abbrev Assignment (T : Type) := List (String × T × List AccountMeta)

/-- The instructions match the nodes.  `gap` are the instructions skipped before one that a
node takes; `choice` says which may be, for a node of a type. -/
inductive Matches (getType : T → K) (choice : K → List (ParsedInstruction T) → Prop) :
    Bool → List (SchemaNode K) → List (ParsedInstruction T) → Assignment T → Prop
  | nil (any : Bool) (instructions : List (ParsedInstruction T)) :
      Matches getType choice any [] instructions []
  | any {any : Bool} {nodes : List (SchemaNode K)} {instructions : List (ParsedInstruction T)}
      {assignment : Assignment T} (rest : Matches getType choice true nodes instructions assignment) :
      Matches getType choice any (.any :: nodes) instructions assignment
  | instruction {any : Bool} {ixType : K} {name : String} {inner nodes : List (SchemaNode K)}
      {gap : List (ParsedInstruction T)} {ix : ParsedInstruction T}
      {instructions : List (ParsedInstruction T)} {below behind : Assignment T}
      (skip : gap = [] ∨ any = true ∧ choice ixType gap)
      (type : getType ix.instruction.data = ixType)
      (inside : Matches getType choice false inner ix.innerInstructions below)
      (rest : Matches getType choice false nodes instructions behind) :
      Matches getType choice any (.instruction ixType name inner :: nodes)
        (gap ++ ix :: instructions) ((name, matched ix) :: below ++ behind)

/-- No instruction of the type is skipped. -/
def First (getType : T → K) (ixType : K) (gap : List (ParsedInstruction T)) : Prop :=
  ∀ ix ∈ gap, getType ix.instruction.data ≠ ixType

variable {getType : T → K} {choice : K → List (ParsedInstruction T) → Prop}

omit [DecidableEq K] in
theorem Matches.append {any : Bool} {nodes : List (SchemaNode K)}
    {instructions : List (ParsedInstruction T)} {assignment : Assignment T}
    (h : Matches getType choice any nodes instructions assignment)
    (more : List (ParsedInstruction T)) :
    Matches getType choice any nodes (instructions ++ more) assignment := by
  induction h with
  | nil any instructions => exact .nil any _
  | any _ ih => exact .any ih
  | instruction skip type inside _ _ ih =>
    rw [List.append_assoc, List.cons_append]
    exact .instruction skip type inside ih

theorem seek_eq_some_iff {ixType : K} {any : Bool} {instructions rest : List (ParsedInstruction T)}
    {ix : ParsedInstruction T} :
    seek getType ixType any instructions = some (ix, rest) ↔
      ∃ gap, instructions = gap ++ ix :: rest ∧ getType ix.instruction.data = ixType ∧
        (gap = [] ∨ any = true ∧ First getType ixType gap) := by
  induction instructions with
  | nil => simp [seek]
  | cons first instructions ih =>
    rw [seek]
    by_cases htype : getType first.instruction.data = ixType
    · rw [if_pos htype, Option.some.injEq, Prod.mk.injEq]
      constructor
      · rintro ⟨rfl, rfl⟩
        exact ⟨[], rfl, htype, .inl rfl⟩
      · rintro ⟨gap, hsplit, -, hgap⟩
        obtain rfl | ⟨-, hfirst⟩ := hgap
        · cases hsplit
          exact ⟨rfl, rfl⟩
        · cases gap with
          | nil =>
            cases hsplit
            exact ⟨rfl, rfl⟩
          | cons g gap =>
            cases hsplit
            exact absurd htype (hfirst first List.mem_cons_self)
    · rw [if_neg htype]
      cases any with
      | false =>
        constructor
        · intro h
          cases h
        · rintro ⟨gap, hsplit, hix, rfl | ⟨hany, -⟩⟩
          · cases hsplit
            exact absurd hix htype
          · cases hany
      | true =>
        rw [if_pos rfl, ih]
        constructor
        · rintro ⟨gap, rfl, hix, hgap⟩
          refine ⟨first :: gap, rfl, hix, .inr ⟨rfl, List.forall_mem_cons.mpr ⟨htype, ?_⟩⟩⟩
          obtain rfl | ⟨-, hfirst⟩ := hgap
          · exact fun _ h => absurd h List.not_mem_nil
          · exact hfirst
        · rintro ⟨gap, hsplit, hix, hgap⟩
          cases gap with
          | nil =>
            cases hsplit
            exact absurd hix htype
          | cons g gap =>
            cases hsplit
            obtain hnil | ⟨-, hfirst⟩ := hgap
            · cases hnil
            · exact ⟨gap, rfl, hix, .inr ⟨rfl, (List.forall_mem_cons.mp hfirst).2⟩⟩

/-! ## The matcher -/

/-- An output is what is written to it last. -/
theorem mergeHashmaps_replay (output : Output T) (name : String) (value : T × List AccountMeta)
    (below : Assignment T) :
    mergeHashmaps (Function.update output name (some value))
        (LastWrite.replay (fun _ => none) below) =
      LastWrite.replay output ((name, value) :: below) := by
  funext key
  rw [mergeHashmaps, LastWrite.replay_apply, LastWrite.replay_apply, LastWrite.last]
  by_cases hkey : name = key
  · subst hkey
    cases LastWrite.last name below <;> simp
  · cases LastWrite.last key below <;> simp [hkey, Function.update_of_ne (Ne.symm hkey)]

theorem matchFrom_iff : ∀ (nodes : List (SchemaNode K)) (any : Bool)
    (instructions : List (ParsedInstruction T)) (output result : Output T),
    matchFrom getType nodes any instructions output = some result ↔
      ∃ assignment, Matches getType (First getType) any nodes instructions assignment ∧
        result = LastWrite.replay output assignment
  | [], any, instructions, output, result => by
    rw [matchFrom, Option.some.injEq]
    constructor
    · rintro rfl
      exact ⟨[], .nil any instructions, rfl⟩
    · rintro ⟨assignment, hmatches, rfl⟩
      cases hmatches
      rfl
  | .any :: nodes, any, instructions, output, result => by
    rw [matchFrom, matchFrom_iff nodes]
    constructor
    · rintro ⟨assignment, hmatches, rfl⟩
      exact ⟨assignment, .any hmatches, rfl⟩
    · rintro ⟨assignment, hmatches, rfl⟩
      cases hmatches with
      | any rest => exact ⟨assignment, rest, rfl⟩
  | .instruction ixType name inner :: nodes, any, instructions, output, result => by
    have hinner := matchFrom_iff inner
    have hnodes := matchFrom_iff nodes
    -- A node without inner nodes is one whose inner nodes match.
    have hbelow : ∀ (ix : ParsedInstruction T) (out out' : Output T),
        matchInside getType (.instruction ixType name inner) ix out = some out' ↔
        ∃ below, Matches getType (First getType) false inner ix.innerInstructions below ∧
          out' = mergeHashmaps out (LastWrite.replay (fun _ => none) below) := by
      intro ix out out'
      rw [matchInside]
      cases inner with
      | nil =>
        rw [List.isEmpty_nil, if_pos rfl, Option.some.injEq]
        constructor
        · rintro rfl
          exact ⟨[], .nil _ _, rfl⟩
        · rintro ⟨below, hmatches, rfl⟩
          cases hmatches
          rfl
      | cons node inner =>
        rw [List.isEmpty_cons, if_neg Bool.false_ne_true, Option.map_eq_some_iff]
        constructor
        · rintro ⟨found, hfound, rfl⟩
          obtain ⟨below, hmatches, rfl⟩ := (hinner _ _ _ _).mp hfound
          exact ⟨below, hmatches, rfl⟩
        · rintro ⟨below, hmatches, rfl⟩
          exact ⟨_, (hinner _ _ _ _).mpr ⟨below, hmatches, rfl⟩, rfl⟩
    simp only [matchFrom, Option.bind_eq_bind, Option.bind_eq_some_iff, Prod.exists,
      seek_eq_some_iff, hbelow, hnodes]
    constructor
    · rintro ⟨ix, rest, ⟨gap, rfl, htype, hgap⟩, _, ⟨below, hbelow, rfl⟩, behind, hbehind, rfl⟩
      refine ⟨_, .instruction hgap htype hbelow hbehind, ?_⟩
      rw [mergeHashmaps_replay, ← LastWrite.replay_append]
    · rintro ⟨assignment, hmatches, rfl⟩
      cases hmatches with
      | @instruction _ _ _ _ _ gap ix rest below behind skip type inside hrest =>
        refine ⟨ix, rest, ⟨gap, rfl, type, skip⟩, _, ⟨below, inside, rfl⟩, behind, hrest, ?_⟩
        rw [mergeHashmaps_replay, ← LastWrite.replay_append]

/-- The output of a match. -/
def Assignment.output (assignment : Assignment T) : Output T :=
  fun name => LastWrite.last name assignment

theorem matchNodes_iff {root : List (SchemaNode K)} {instructions : List (ParsedInstruction T)}
    {output : Output T} :
    matchNodes getType root instructions = some output ↔
      ∃ assignment, Matches getType (First getType) false root instructions assignment ∧
        output = assignment.output := by
  rw [matchNodes, matchFrom_iff]
  refine exists_congr fun assignment => and_congr_right fun _ => ?_
  have hreplay : LastWrite.replay (fun _ => none) assignment = assignment.output := by
    funext name
    rw [LastWrite.replay_apply, Option.or_none, Assignment.output]
  rw [hreplay]

/-- The matcher finds the match that takes the first instruction of the type for each node,
if there is one, and puts the last instruction taken for a name under it.  Instructions that
come after a match do not change it. -/
theorem matchNodes_first_choice (getType : T → K) (root : List (SchemaNode K))
    (instructions more : List (ParsedInstruction T)) (output : Output T) :
    (matchNodes getType root instructions = some output ↔
        ∃ assignment, Matches getType (First getType) false root instructions assignment ∧
          output = assignment.output) ∧
      (matchNodes getType root instructions = some output →
        matchNodes getType root (instructions ++ more) = some output) := by
  refine ⟨matchNodes_iff, fun h => ?_⟩
  obtain ⟨assignment, hmatches, rfl⟩ := matchNodes_iff.mp h
  exact matchNodes_iff.mpr ⟨assignment, hmatches.append more, rfl⟩

/-! ## Where there is only one choice -/

/-- The instructions of each level are of different types. -/
inductive Distinct (getType : T → K) : List (ParsedInstruction T) → Prop
  | intro {instructions : List (ParsedInstruction T)}
      (types : (instructions.map fun ix => getType ix.instruction.data).Nodup)
      (inner : ∀ ix ∈ instructions, Distinct getType ix.innerInstructions) :
      Distinct getType instructions

/-- Any instructions may be skipped. -/
def Anything (_ : K) (_ : List (ParsedInstruction T)) : Prop := True

omit [DecidableEq K] in
theorem Matches.mono {choice' : K → List (ParsedInstruction T) → Prop}
    (hchoice : ∀ ixType gap, choice ixType gap → choice' ixType gap) {any : Bool}
    {nodes : List (SchemaNode K)} {instructions : List (ParsedInstruction T)}
    {assignment : Assignment T} (h : Matches getType choice any nodes instructions assignment) :
    Matches getType choice' any nodes instructions assignment := by
  induction h with
  | nil any instructions => exact .nil any instructions
  | any _ ih => exact .any ih
  | instruction skip type _ _ inside rest =>
    exact .instruction (skip.imp_right fun h => ⟨h.1, hchoice _ _ h.2⟩) type inside rest

omit [DecidableEq K] in
theorem Matches.first {any : Bool} {nodes : List (SchemaNode K)}
    {instructions : List (ParsedInstruction T)} {assignment : Assignment T}
    (h : Matches getType choice any nodes instructions assignment)
    (hdistinct : Distinct getType instructions) :
    Matches getType (First getType) any nodes instructions assignment := by
  induction h with
  | nil any instructions => exact .nil any instructions
  | any _ ih => exact .any (ih hdistinct)
  | @instruction any ixType name inner nodes gap ix instructions below behind skip type _ _ ihInner
      ihRest =>
    obtain ⟨htypes, hinner⟩ := hdistinct
    rw [List.map_append, List.map_cons] at htypes
    obtain ⟨-, hrest, hgap⟩ := List.nodup_append.mp htypes
    have hfirst : First getType ixType gap := fun g hg hsame =>
      hgap _ (List.mem_map_of_mem hg) _ List.mem_cons_self (hsame.trans type.symm)
    have hbehind : Distinct getType instructions :=
      .intro (List.nodup_cons.mp hrest).2 fun other hother =>
        hinner other (List.mem_append_right _ (List.mem_cons_of_mem _ hother))
    exact .instruction (skip.imp_right fun h => ⟨h.1, hfirst⟩) type
      (ihInner (hinner ix (List.mem_append_right _ List.mem_cons_self))) (ihRest hbehind)

/-- If no two instructions of a level have the same type, the matcher finds an output exactly
if there is a match with it, whatever is skipped. -/
theorem matchNodes_complete (getType : T → K) (root : List (SchemaNode K))
    (instructions : List (ParsedInstruction T)) (hdistinct : Distinct getType instructions)
    (output : Output T) :
    matchNodes getType root instructions = some output ↔
      ∃ assignment, Matches getType Anything false root instructions assignment ∧
        output = assignment.output := by
  rw [matchNodes_iff]
  refine exists_congr fun assignment => and_congr_left fun _ => ?_
  exact ⟨.mono fun _ _ _ => trivial, fun h => h.first hdistinct⟩

/-- An instruction without inner ones. -/
def leaf (data : Nat) : ParsedInstruction Nat := .mk Pubkey.default ⟨Pubkey.default, data, []⟩ []

theorem matchNodes_complete_leaves :
    ∃ output, matchNodes id [.any, .instruction 2 "second" []] [leaf 1, leaf 2] = some output ∧
      ∃ assignment, Matches id Anything false [.any, .instruction 2 "second" []] [leaf 1, leaf 2]
        assignment ∧ output = assignment.output := by
  have hdistinct : Distinct id [leaf 1, leaf 2] := by
    refine .intro (by decide) fun ix hix => ?_
    have hinner : ix.innerInstructions = [] := by
      rw [List.mem_pair] at hix
      rcases hix with rfl | rfl <;> rfl
    rw [hinner]
    exact .intro List.nodup_nil fun _ h => absurd h List.not_mem_nil
  obtain ⟨output, houtput⟩ := Option.isSome_iff_exists.mp
    (show (matchNodes id [.any, .instruction 2 "second" []] [leaf 1, leaf 2]).isSome by decide)
  exact ⟨output, houtput, (matchNodes_complete id _ _ hdistinct output).mp houtput⟩

-- A match that the first choice misses: the second instruction of type 1 is the one before 2.
example : (matchNodes id [.any, .instruction 1 "first" [], .instruction 2 "second" []]
    [leaf 1, leaf 3, leaf 1, leaf 2]).isNone := by decide

/-! ## Gaps everywhere -/

/-- A schema for instructions in an order, with anything between them. -/
def gapped (nodes : List (K × String)) : List (SchemaNode K) :=
  nodes.flatMap fun node => [.any, .instruction node.1 node.2 []]

theorem exists_seek_iff {ixType : K} {types : List K} {instructions : List (ParsedInstruction T)} :
    (∃ ix rest, seek getType ixType true instructions = some (ix, rest) ∧
        types.Sublist (rest.map fun ix => getType ix.instruction.data)) ↔
      (ixType :: types).Sublist (instructions.map fun ix => getType ix.instruction.data) := by
  induction instructions with
  | nil => simp [seek]
  | cons first instructions ih =>
    rw [seek, List.map_cons]
    by_cases htype : getType first.instruction.data = ixType
    · rw [if_pos htype, htype, List.cons_sublist_cons]
      constructor
      · rintro ⟨ix, rest, heq, hrest⟩
        cases heq
        exact hrest
      · exact fun hrest => ⟨first, instructions, rfl, hrest⟩
    · rw [if_neg htype, if_pos rfl, ih]
      exact ⟨fun h => h.cons _, fun h => List.Sublist.of_cons_of_ne (Ne.symm htype) h⟩

/-- A schema with gaps everywhere matches exactly the instructions that have its types in
its order. -/
theorem matchNodes_gapped_iff (getType : T → K) (nodes : List (K × String))
    (instructions : List (ParsedInstruction T)) :
    (matchNodes getType (gapped nodes) instructions).isSome ↔
      (nodes.map Prod.fst).Sublist
        (instructions.map fun ix => getType ix.instruction.data) := by
  have hfrom : ∀ (any : Bool) (output : Output T),
      (matchFrom getType (gapped nodes) any instructions output).isSome ↔
        (nodes.map Prod.fst).Sublist
          (instructions.map fun ix => getType ix.instruction.data) := by
    induction nodes generalizing instructions with
    | nil => simp [gapped, matchFrom]
    | cons node nodes ih =>
      intro any output
      rw [List.map_cons, ← exists_seek_iff]
      show (matchFrom getType (.any :: .instruction node.1 node.2 [] :: gapped nodes) any
        instructions output).isSome ↔ _
      rw [matchFrom, matchFrom]
      cases hseek : seek getType node.1 true instructions with
      | none => simp
      | some found =>
        obtain ⟨ix, rest⟩ := found
        simp [matchInside, ih]
  exact hfrom false _

end TransactionSchema

end OmnipairIndexer
