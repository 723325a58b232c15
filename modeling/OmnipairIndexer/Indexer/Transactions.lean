/-
Transactions as the processors see them.

Behind the decoder an update is its signature, its slot and the events that have
an upsert function.  `process_eq_deliver` says that the pipeline does to the
database what delivering these does, and `processAll_eq_deliverAll` says it of a
feed, so that the results about the tables can speak of transactions and their
events.
-/
import OmnipairIndexer.Indexer.Effects

namespace OmnipairIndexer

open Fallible NestedInstruction

structure IndexedTransaction where
  signature : String
  slot : UInt64
  events : List PersistedEvent
  deriving DecidableEq

namespace IndexedTransaction

def calls (t : IndexedTransaction) : List UpsertCall :=
  callsOf t.signature t.slot.toInt64 t.events

/-- Process a transaction.  The pipeline logs its error and goes on. -/
def deliver (w : World) (t : IndexedTransaction) : World := (each World.perform t.calls w).2

def deliverAll (ts : List IndexedTransaction) (w : World) : World := ts.foldl deliver w

end IndexedTransaction

open IndexedTransaction

def persistedEvents (forest : NestedInstructions) : List PersistedEvent :=
  (decodedAlong decodeInstruction (walkAll forest)).filterMap fun input =>
    input.decoded.data.persisted?

/-- What the processors see of an update, if its tree can be built. -/
def TransactionUpdate.indexed (update : TransactionUpdate) : Option IndexedTransaction :=
  match nestedInstructions update with
  | .ok forest => some ⟨update.signature, update.slot, persistedEvents forest⟩
  | .error _ => none

/-- The upsert calls of a tree are those of its events, under the signature and the
slot of the update. -/
theorem upsertCalls_eq {update : TransactionUpdate} {forest : NestedInstructions}
    (h : nestedInstructions update = .ok forest) :
    upsertCalls forest =
      callsOf update.signature update.slot.toInt64 (persistedEvents forest) := by
  unfold upsertCalls callsOf persistedEvents
  rw [List.map_filterMap]
  refine List.filterMap_congr fun input hinput => ?_
  obtain ⟨n, hn, hdecoded⟩ := List.mem_filterMap.mp hinput
  obtain ⟨decoded, -, rfl⟩ := Option.map_eq_some_iff.mp hdecoded
  obtain ⟨hsig, hslot⟩ := metadata_of_walk h hn
  simp only [InstructionProcessorInput.upsertCall?, OmnipairInstructionProcessor.slotOf, hsig,
    hslot]

/-- What the pipeline does with an update is delivering its transaction. -/
theorem process_eq_deliver {update : TransactionUpdate} {t : IndexedTransaction}
    (h : update.indexed = some t) (w : World) :
    (Pipeline.process (indexerPipe World.perform) update w).2 = deliver w t := by
  unfold TransactionUpdate.indexed at h
  split at h
  · rename_i forest hforest
    cases h
    rw [process_eq_each World.perform hforest, upsertCalls_eq hforest]
    rfl
  · cases h

theorem process_of_not_indexed {update : TransactionUpdate} (h : update.indexed = none)
    (w : World) : (Pipeline.process (indexerPipe World.perform) update w).2 = w := by
  unfold TransactionUpdate.indexed at h
  unfold Pipeline.process
  split at h
  · cases h
  · rename_i outcome herror
    rw [herror]

/-- Process updates one after the other.  The pipeline logs an error and takes the
next update. -/
def processAll (updates : List TransactionUpdate) (w : World) : World :=
  updates.foldl (fun w update => (Pipeline.process (indexerPipe World.perform) update w).2) w

/-- For every feed, from any database: processing its updates is delivering their
transactions. -/
theorem processAll_eq_deliverAll (updates : List TransactionUpdate) (w : World) :
    processAll updates w = deliverAll (updates.filterMap TransactionUpdate.indexed) w := by
  induction updates generalizing w with
  | nil => rfl
  | cons update updates ih =>
    have hcons : processAll (update :: updates) w =
        processAll updates (Pipeline.process (indexerPipe World.perform) update w).2 := rfl
    rw [hcons, ih, List.filterMap_cons]
    cases hindexed : update.indexed with
    | none => rw [process_of_not_indexed hindexed]
    | some t =>
      rw [process_eq_deliver hindexed]
      rfl

end OmnipairIndexer
