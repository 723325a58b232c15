/-
From the bytes of a transaction to the rows of the tables.

An instruction reports the event whose encoding its data starts with.  No two events can
be read there, so the executed instructions of an update report one list of events, and
`indexed_iff` says that this list is what the processors are handed: decoder, flattening,
nesting and walk lose nothing and change no order.

`reports_stored` carries this to the database.  Whatever fails on the way, a feed leaves
what storing the reported events one after the other leaves.  With nothing failing from
outside, every row is the one written last for its key.  Of an update everything is
written up to the first value that a `BIGINT` column does not take.
-/
import OmnipairIndexer.Core.ExecutionOrder
import OmnipairIndexer.Decoder.Encoding
import OmnipairIndexer.Indexer.Provenance
import OmnipairIndexer.Indexer.Replay

namespace OmnipairIndexer

open NestedInstruction LastWrite IndexedTransaction

/-! ## Events as bytes -/

namespace PersistedEvent

def instruction : PersistedEvent → OmnipairInstruction
  | .swap event => .swapEvent event
  | .mint event => .mintEvent event
  | .burn event => .burnEvent event
  | .adjustCollateral event => .adjustCollateralEvent event
  | .adjustDebt event => .adjustDebtEvent event
  | .userPositionUpdated event => .userPositionUpdatedEvent event
  | .userPositionLiquidated event => .userPositionLiquidatedEvent event
  | .pairCreated event => .pairCreatedEvent event
  | .userLiquidityPositionUpdated event => .userLiquidityPositionUpdatedEvent event

theorem persisted?_eq_some_iff {ix : OmnipairInstruction} {event : PersistedEvent} :
    ix.persisted? = some event ↔ ix = event.instruction := by
  constructor
  · intro h
    cases ix <;> cases h <;> rfl
  · intro h
    rw [h]
    cases event <;> rfl

/-- The event can be written, and the data starts with what is written for it. -/
def Starts (event : PersistedEvent) (data : List UInt8) : Prop :=
  event.instruction.Encodable ∧ event.instruction.encode <+: data

theorem persistedOf_eq_some_iff (data : List UInt8) (event : PersistedEvent) :
    persistedOf data = some event ↔ event.Starts data := by
  have hdecode : decodeData data = some event.instruction ↔ event.Starts data := by
    rw [decodeData, Codec.Candidate.firstMatch_eq_some_iff_prefix candidates_apart
      OmnipairInstruction.served, OmnipairInstruction.exists_family_iff]
    rfl
  rw [persistedOf, Option.bind_eq_some_iff, ← hdecode]
  constructor
  · intro h
    obtain ⟨ix, hix, hevent⟩ := h
    rw [hix, persisted?_eq_some_iff.mp hevent]
  · intro h
    exact ⟨_, h, persisted?_eq_some_iff.mpr rfl⟩

end PersistedEvent

/-! ## What an update reports -/

/-- The event that an instruction reports, if it reports one. -/
def Instruction.Reports (instruction : Instruction) : Option PersistedEvent → Prop
  | some event => event.Starts instruction.data
  | none => ∀ event : PersistedEvent, ¬ event.Starts instruction.data

theorem Instruction.reports_iff (instruction : Instruction) (report : Option PersistedEvent) :
    instruction.Reports report ↔ persistedOf instruction.data = report := by
  cases report with
  | some event => exact (PersistedEvent.persistedOf_eq_some_iff _ _).symm
  | none =>
    rw [Option.eq_none_iff_forall_ne_some]
    exact forall_congr' fun event =>
      not_congr (PersistedEvent.persistedOf_eq_some_iff _ _).symm

namespace TransactionUpdate

/-- The events that the executed instructions report, in the order of execution. -/
def Reports (update : TransactionUpdate) (events : List PersistedEvent) : Prop :=
  ∃ reports, List.Forall₂ Instruction.Reports update.executed reports ∧
    events = reports.filterMap id

/-- Each list of instructions reports one list of events. -/
theorem forall₂_reports_iff {instructions : List Instruction}
    {reports : List (Option PersistedEvent)} :
    List.Forall₂ Instruction.Reports instructions reports ↔
      reports = instructions.map fun instruction => persistedOf instruction.data := by
  have hrel : Instruction.Reports = fun instruction report =>
      report = persistedOf instruction.data := by
    funext instruction report
    exact propext ((instruction.reports_iff report).trans eq_comm)
  rw [hrel]
  constructor
  · intro h
    induction h with
    | nil => rfl
    | cons hreport _ ih => rw [hreport, ih, List.map_cons]
  · intro h
    subst h
    induction instructions with
    | nil => exact .nil
    | cons instruction instructions ih => exact .cons rfl ih

theorem reports_iff {update : TransactionUpdate} {events : List PersistedEvent} :
    update.Reports events ↔
      events = update.executed.filterMap fun instruction => persistedOf instruction.data := by
  simp only [Reports, forall₂_reports_iff, exists_eq_left, List.filterMap_map]
  rfl

theorem persistedEvents_eq (forest : NestedInstructions) :
    persistedEvents forest = ((walkAll forest).map NestedInstruction.instruction).filterMap
      fun instruction => persistedOf instruction.data := by
  rw [persistedEvents, decodedAlong, List.filterMap_filterMap, List.filterMap_map]
  refine List.filterMap_congr fun n _ => ?_
  show ((decodeInstruction n.instruction).map _).bind _ = persistedOf n.instruction.data
  rw [decodeInstruction, Option.map_map, persistedOf]
  cases decodeData n.instruction.data <;> rfl

/-- The processors see the reported events and nothing else. -/
theorem indexed_iff {update : TransactionUpdate} (h : update.Recorded)
    (t : IndexedTransaction) :
    update.indexed = some t ↔
      t.signature = update.signature ∧ t.slot = update.slot ∧ update.Reports t.events := by
  obtain ⟨forest, hforest, hwalk⟩ := update.nested_in_order h
  have hindexed : update.indexed =
      some ⟨update.signature, update.slot, persistedEvents forest⟩ := by
    simp only [indexed, hforest]
  rw [hindexed, reports_iff, ← hwalk, ← persistedEvents_eq, Option.some_inj]
  obtain ⟨signature, slot, events⟩ := t
  rw [IndexedTransaction.mk.injEq]
  exact and_congr eq_comm (and_congr eq_comm eq_comm)

end TransactionUpdate

/-! ## Feeds -/

/-- An update in the shape that the runtime records, with the events it reports. -/
structure ReportedUpdate where
  update : TransactionUpdate
  events : List PersistedEvent
  recorded : update.Recorded
  reports : update.Reports events

namespace ReportedUpdate

def ofRecorded {update : TransactionUpdate} (h : update.Recorded) : ReportedUpdate where
  update := update
  events := update.executed.filterMap fun instruction => persistedOf instruction.data
  recorded := h
  reports := TransactionUpdate.reports_iff.mpr rfl

def transaction (u : ReportedUpdate) : IndexedTransaction :=
  ⟨u.update.signature, u.update.slot, u.events⟩

theorem indexed_eq (u : ReportedUpdate) : u.update.indexed = some u.transaction :=
  (TransactionUpdate.indexed_iff u.recorded u.transaction).mpr ⟨rfl, rfl, u.reports⟩

/-- What is written to a table for the reported events, in order.  An event that is out of
range ends its update. -/
def writes {κ ν : Type} [DecidableEq κ] (V : KeyedView κ ν) (feed : List ReportedUpdate) :
    List (κ × ν) :=
  feed.flatMap fun u => V.writesOfTransaction u.transaction

def lpRowsReported (feed : List ReportedUpdate) : List UserLpPositionUpdatedRow :=
  feed.flatMap fun u => u.transaction.lpRows

end ReportedUpdate

open ReportedUpdate

theorem processAll_eq_deliver_reported (feed : List ReportedUpdate) (w : World) :
    processAll (feed.map update) w = deliverAll (feed.map transaction) w := by
  rw [processAll_eq_deliverAll, List.filterMap_map]
  have hindexed : TransactionUpdate.indexed ∘ update = fun u => some u.transaction := by
    funext u
    exact u.indexed_eq
  rw [hindexed, List.filterMap_eq_map']

/-- For every feed of updates that the runtime recorded, from any database: processing the
updates does what storing the reported events in the order of execution does, whatever
fails.  As long as nothing outside the program fails, each row of a keyed table is the one
that the reported events write last for its key, or as it was if they write none, and the log
of liquidity positions has grown by the rows that they write to it.  An event with a value out
of range writes nothing from there on, and neither do the events behind it in its update. -/
theorem reports_stored (feed : List ReportedUpdate) (w : World) :
    processAll (feed.map update) w = deliverAll (feed.map transaction) w ∧
      (w.Healthy →
        (∀ {κ ν : Type} [DecidableEq κ] (V : KeyedView κ ν) (k : κ),
          V.view (processAll (feed.map update) w).db k =
            (last k (writes V feed)).or (V.view w.db k)) ∧
        lpRows (processAll (feed.map update) w).db = lpRows w.db ++ lpRowsReported feed) := by
  have hdeliver := processAll_eq_deliver_reported feed w
  refine ⟨hdeliver, fun hw => ⟨?_, ?_⟩⟩
  · intro κ ν _ V k
    rw [hdeliver, V.view_deliverAll _ hw, List.flatMap_map, replay_apply]
    rfl
  · rw [hdeliver, lpRows_deliverAll _ hw, List.flatMap_map]
    rfl

/-- An update that reports the debt of a position, in an inner instruction and with bytes
behind the event. -/
def debtReported (signature : String) (slot : UInt64) (debt : BitVec 128) : TransactionUpdate where
  signature := signature
  message := .legacy [.filled 1, .filled 9] [⟨1, [], [1]⟩] (fun _ => false) (fun _ => false)
  statusMeta := ⟨some [⟨0, [⟨⟨1, [], OmnipairInstruction.encode (.userPositionUpdatedEvent
    ⟨.filled 3, 7, 0, debt, 0, 0, 0, 0, 0, ⟨.filled 1, .filled 2, slot⟩⟩) ++ [0, 0]⟩, some 2⟩]⟩],
    ⟨[], []⟩⟩
  slot := slot

theorem debtReported_recorded (signature : String) (slot : UInt64) (debt : BitVec 128) :
    (debtReported signature slot debt).Recorded where
  feePayer := List.cons_ne_nil _ _
  index_lt group hgroup := by
    rw [List.mem_singleton.mp hgroup]
    exact Nat.one_pos
  heights group hgroup := by
    rw [List.mem_singleton.mp hgroup]
    exact ⟨Nat.two_pos, Nat.le_refl 2, show 2 ≤ 5 by omega, trivial⟩

def twoDebts : List ReportedUpdate :=
  [ofRecorded (debtReported_recorded "borrow" 5 11), ofRecorded (debtReported_recorded "repay" 6 4)]

/-- The debt of a position is read back as it was reported last. -/
theorem reports_stored_twoDebts :
    (borrowPositionsView.view (processAll (twoDebts.map update) World.fresh).db
      (.filled 2, .filled 1)).map (fun row => (row.debt0Shares, row.slot)) = some (4, 6) := by
  have hstored := (reports_stored twoDebts World.fresh).2 World.fresh_healthy
  rw [hstored.1 borrowPositionsView (.filled 2, .filled 1)]
  decide +kernel

end OmnipairIndexer
