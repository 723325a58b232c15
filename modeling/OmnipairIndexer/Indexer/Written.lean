/-
What a run of upsert calls has written.

`World.written` lists the statements a run executes, whatever fails in it, each with the
clock readings that go into its row.  The tables of pools and swaps are then what
`SerialTable.writeAll` makes of the rows of this list.
-/
import OmnipairIndexer.Library.Overwrites
import OmnipairIndexer.Indexer.Effects

namespace OmnipairIndexer

open Relational

theorem PoolRow.onConflict_replaces : PoolRow.onConflict.Replaces := fun _ _ => PoolRow.set_eq

theorem SwapRow.set_eq {old excluded : Clocked SwapRow Instant} (h : key old = key excluded) :
    onConflict.set old excluded = excluded := by
  obtain ⟨⟨⟩, _⟩ := old
  obtain ⟨⟨⟩, _⟩ := excluded
  cases h
  rfl

theorem SwapRow.onConflict_replaces : SwapRow.onConflict.Replaces := fun _ _ => SwapRow.set_eq

/-! ## Rows of the statements -/

namespace Statement

def poolRow? : Statement → Option PoolRow
  | pools row => some row
  | _ => none

def swapRow? (stamp : Stamp) : Statement → Option (Clocked SwapRow Instant)
  | swaps row => some ⟨row, stamp.eventTimestamp⟩
  | _ => none

end Statement

section Tables

variable (statements : List (Stamp × Statement)) (db : Database)

def applyStamped : Database := statements.foldl (fun db st => st.2.apply st.1 db) db

theorem pools_applyStamped :
    (applyStamped statements db).pools =
      db.pools.writeAll PoolRow.onConflict (statements.filterMap fun st => st.2.poolRow?) := by
  induction statements generalizing db with
  | nil => rfl
  | cons st statements ih =>
    show (applyStamped statements (st.2.apply st.1 db)).pools = _
    rw [ih]
    obtain ⟨stamp, st⟩ := st
    cases st <;> rfl

theorem swaps_applyStamped :
    (applyStamped statements db).swaps =
      db.swaps.writeAll SwapRow.onConflict (statements.filterMap fun st => st.2.swapRow? st.1) := by
  induction statements generalizing db with
  | nil => rfl
  | cons st statements ih =>
    show (applyStamped statements (st.2.apply st.1 db)).swaps = _
    rw [ih]
    obtain ⟨stamp, st⟩ := st
    cases st <;> rfl

end Tables

/-! ## Runs -/

namespace World

/-- The calls one after the other.  A call that fails ends its update, and the calls of the
next one are made. -/
def performAll (w : World) (cs : List UpsertCall) : World :=
  cs.foldl (fun w c => (perform c w).2) w

/-- The statements that are executed, in order. -/
def written (w : World) : List UpsertCall → List (Stamp × Statement)
  | [] => []
  | c :: cs =>
    (c.executed (w.env w.calls)).map (fun p => ((w.env w.calls).stamp p.1, p.2)) ++
      written (perform c w).2 cs

theorem db_perform (c : UpsertCall) (w : World) :
    (perform c w).2.db = applyStamped
      ((c.executed (w.env w.calls)).map fun p => ((w.env w.calls).stamp p.1, p.2)) w.db := by
  rw [applyStamped, List.foldl_map]
  exact (c.run_spec (w.env w.calls) w.db).1

theorem db_performAll (cs : List UpsertCall) (w : World) :
    (w.performAll cs).db = applyStamped (w.written cs) w.db := by
  induction cs generalizing w with
  | nil => rfl
  | cons c cs ih =>
    show ((perform c w).2.performAll cs).db = _
    rw [ih, db_perform, written, applyStamped, applyStamped, applyStamped, List.foldl_append]

/-- The pools that are written, in order. -/
def poolsWritten (w : World) (cs : List UpsertCall) : List PoolRow :=
  (w.written cs).filterMap fun st => st.2.poolRow?

/-- The swaps that are written, in order. -/
def swapsWritten (w : World) (cs : List UpsertCall) : List (Clocked SwapRow Instant) :=
  (w.written cs).filterMap fun st => st.2.swapRow? st.1

/-- The swaps written whose signature and instant are written again. -/
def swapsOverwritten (w : World) (cs : List UpsertCall) : List (Clocked SwapRow Instant) :=
  overwritten SwapRow.key (w.swapsWritten cs)

theorem pools_performAll (cs : List UpsertCall) {w : World} (hempty : w.db = .empty) :
    (w.performAll cs).db.pools =
      SerialTable.empty.writeAll PoolRow.onConflict (w.poolsWritten cs) := by
  rw [db_performAll, pools_applyStamped, hempty]
  rfl

theorem swaps_performAll (cs : List UpsertCall) {w : World} (hempty : w.db = .empty) :
    (w.performAll cs).db.swaps =
      SerialTable.empty.writeAll SwapRow.onConflict (w.swapsWritten cs) := by
  rw [db_performAll, swaps_applyStamped, hempty]
  rfl

/-! ## Swaps -/

/-- The swap of a call, at the instant that the call reads. -/
def swapOf (env : CallEnv) (c : UpsertCall) : Option (Clocked SwapRow Instant) :=
  match c.event with
  | .swap event => some ⟨event.row c.txSignature c.slot, env.eventTimestamp⟩
  | _ => none

/-- The swaps of the calls of a run. -/
def swapsOf (w : World) : List UpsertCall → List (Clocked SwapRow Instant)
  | [] => []
  | c :: cs => (swapOf (w.env w.calls) c).toList ++ swapsOf (perform c w).2 cs

theorem swaps_statements (env : CallEnv) (c : UpsertCall) :
    ((c.statements.map fun p => (env.stamp p.1, p.2)).filterMap fun st => st.2.swapRow? st.1) =
      (swapOf env c).toList := by
  obtain ⟨event, txSignature, slot⟩ := c
  cases event <;> rfl

/-- A swap is one statement, and no value in it is out of range. -/
theorem accepted_of_swap {env : CallEnv} {c : UpsertCall} (h : (swapOf env c).isSome) :
    c.accepted = c.statements := by
  obtain ⟨event, txSignature, slot⟩ := c
  cases event with
  | swap event =>
    apply UpsertCall.accepted_of_inRange
    intro p hp n hn
    obtain rfl := List.mem_singleton.mp hp
    obtain rfl := List.mem_singleton.mp hn
    exact ⟨slot.le_toInt, slot.toInt_lt⟩
  | _ => cases h

theorem swaps_executed_sublist (env : CallEnv) (c : UpsertCall) :
    (((c.executed env).map fun p => (env.stamp p.1, p.2)).filterMap
      fun st => st.2.swapRow? st.1).Sublist (swapOf env c).toList := by
  rw [← swaps_statements]
  exact ((c.executed_prefix env).sublist.map _).filterMap _

theorem swaps_executed_of_healthy {env : CallEnv} (henv : env.Healthy) (c : UpsertCall) :
    (((c.executed env).map fun p => (env.stamp p.1, p.2)).filterMap
      fun st => st.2.swapRow? st.1) = (swapOf env c).toList := by
  cases hswap : swapOf env c with
  | none =>
    have hsub := swaps_executed_sublist env c
    rw [hswap] at hsub
    exact List.sublist_nil.mp hsub
  | some row =>
    rw [UpsertCall.executed_of_healthy henv, accepted_of_swap (by rw [hswap]; rfl),
      swaps_statements, hswap]

/-- Each swap written is that of a call. -/
theorem swapsWritten_sublist (cs : List UpsertCall) (w : World) :
    (w.swapsWritten cs).Sublist (w.swapsOf cs) := by
  induction cs generalizing w with
  | nil => exact .slnil
  | cons c cs ih =>
    rw [swapsWritten, written, List.filterMap_append, swapsOf]
    exact (swaps_executed_sublist _ c).append (ih _)

theorem swapsWritten_of_healthy (cs : List UpsertCall) {w : World} (hw : w.Healthy) :
    w.swapsWritten cs = w.swapsOf cs := by
  induction cs generalizing w with
  | nil => rfl
  | cons c cs ih =>
    have hrest : (written (perform c w).2 cs).filterMap (fun st => st.2.swapRow? st.1) =
        swapsOf (perform c w).2 cs := ih hw
    rw [swapsWritten, written, List.filterMap_append, swapsOf, hrest,
      swaps_executed_of_healthy (hw w.calls)]

theorem mem_swapsOf {cs : List UpsertCall} {w : World} {row : Clocked SwapRow Instant}
    (h : row ∈ w.swapsOf cs) :
    ∃ event txSignature slot, row.cols = SwapEvent.row event txSignature slot := by
  induction cs generalizing w with
  | nil => exact absurd h List.not_mem_nil
  | cons c cs ih =>
    obtain hhead | htail := List.mem_append.mp h
    · obtain ⟨event, txSignature, slot⟩ := c
      cases event with
      | swap event =>
        obtain rfl := List.mem_singleton.mp hhead
        exact ⟨event, txSignature, slot, rfl⟩
      | _ => exact absurd hhead List.not_mem_nil
    · exact ih htail

end World

end OmnipairIndexer
