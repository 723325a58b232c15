/-
Delivering transactions again.

A reconnect, a restart or a backfill delivers transactions the indexer has seen.
`replay_rows` compares the tables after such a feed with the tables after the
feed without its repeats, up to serial ids and wall-clock columns, with nothing
outside the program failing.

Three kinds of tables behave in three ways.  The four event tables keyed by the
transaction signature are the same.  `user_lp_position_updated_events` always
inserts and gains one row for each event of a repeat.  The tables keyed by pair,
or pair and signer, hold what was delivered last, so a row is the same when the
last delivery that writes it is of the same transaction in both feeds.  `swaps`
and `adjust_liquidity` have the processing time in their key, and
`replayed_tables_differ` shows a repeat that duplicates their rows.

Transactions are delivered here with their events.  By `processAll_eq_deliverAll`
that is what the pipeline does with the updates of the data source.
-/
import OmnipairIndexer.Indexer.Transactions

namespace OmnipairIndexer

open Fallible Relational LastWrite

namespace IndexedTransaction

def attempted (t : IndexedTransaction) : List (Nat × Statement) :=
  OmnipairIndexer.attempted t.calls

end IndexedTransaction

open IndexedTransaction Delivery

theorem Observation.observe_deliverAll {α : Type} (O : Observation α)
    (ts : List IndexedTransaction) {w : World} (hw : w.Healthy) :
    O.observe (deliverAll ts w).db =
      O.after (O.observe w.db) (ts.flatMap IndexedTransaction.attempted) := by
  induction ts generalizing w with
  | nil => rfl
  | cons t ts ih =>
    have henv : (deliver w t).Healthy := by
      unfold deliver World.Healthy
      rw [World.each_perform_env]
      exact hw
    rw [List.flatMap_cons, O.after_append, IndexedTransaction.attempted,
      ← O.observe_of_healthy t.calls hw, ← deliver, ← ih henv]
    rfl

namespace KeyedView

variable {κ ν : Type} [DecidableEq κ] (V : KeyedView κ ν)

def writesOfTransaction (t : IndexedTransaction) : List (κ × ν) := V.writes t.attempted

theorem view_deliverAll (ts : List IndexedTransaction) {w : World} (hw : w.Healthy) :
    V.view (deliverAll ts w).db = replay (V.view w.db) (ts.flatMap V.writesOfTransaction) := by
  have hflat : V.writes (ts.flatMap IndexedTransaction.attempted) =
      ts.flatMap V.writesOfTransaction := by
    simp only [writes, List.filterMap_flatMap]
    rfl
  rw [← hflat, ← V.after_eq_replay]
  exact V.observation.observe_deliverAll ts hw

theorem view_eq_of_lastWriter {ts us : List IndexedTransaction} {v w : World} (hv : v.Healthy)
    (hw : w.Healthy) (hdb : v.db = w.db) {k : κ}
    (h : lastWriter V.writesOfTransaction k ts = lastWriter V.writesOfTransaction k us) :
    V.view (deliverAll ts v).db k = V.view (deliverAll us w).db k := by
  rw [V.view_deliverAll ts hv, V.view_deliverAll us hw, replay_flatMap, replay_flatMap, h, hdb]

def KeyedBySignature {ν : Type} (V : KeyedView String ν) : Prop :=
  ∀ c, ∀ p ∈ V.writesOf c, p.1 = c.txSignature

theorem KeyedBySignature.of_transaction {ν : Type} {V : KeyedView String ν}
    (hV : V.KeyedBySignature) {t : IndexedTransaction} {k : String}
    (h : (last k (V.writesOfTransaction t)).isSome) : k = t.signature := by
  obtain ⟨row, hrow⟩ := Option.isSome_iff_exists.mp h
  obtain ⟨p, hp, hwrite⟩ := List.mem_filterMap.mp (mem_of_last hrow)
  obtain ⟨c, hc, hpc⟩ := List.mem_flatMap.mp (mem_of_mem_attempted hp)
  obtain ⟨event, -, rfl⟩ := List.mem_map.mp hc
  exact hV _ _ (List.mem_filterMap.mpr ⟨p, hpc, hwrite⟩)

/-- In a table keyed by signature, only the set of delivered transactions counts. -/
theorem KeyedBySignature.view_eq {ν : Type} {V : KeyedView String ν} (hV : V.KeyedBySignature)
    {ds : List (Delivery IndexedTransaction)} (hvalid : Valid ds)
    (hsig : ∀ t ∈ delivered ds, ∀ u ∈ delivered ds, t.signature = u.signature → t = u)
    {v w : World} (hv : v.Healthy) (hw : w.Healthy) (hdb : v.db = w.db) (k : String) :
    V.view (deliverAll (delivered ds) v).db k = V.view (deliverAll (once ds) w).db k := by
  refine V.view_eq_of_lastWriter hv hw hdb
    (lastWriter_congr (fun t => (mem_once_iff hvalid t).symm) ?_)
  intro t ht u hu hwt hwu
  exact hsig t ht u hu ((hV.of_transaction hwt).symm.trans (hV.of_transaction hwu))

end KeyedView

theorem adjustCollateral_keyedBySignature : adjustCollateralView.KeyedBySignature := by
  rintro ⟨event, _, _⟩ p hp
  cases event with
  | adjustCollateral event => cases List.mem_singleton.mp hp; rfl
  | _ => cases hp

theorem adjustDebt_keyedBySignature : adjustDebtView.KeyedBySignature := by
  rintro ⟨event, _, _⟩ p hp
  cases event with
  | adjustDebt event => cases List.mem_singleton.mp hp; rfl
  | _ => cases hp

theorem positionUpdated_keyedBySignature : positionUpdatedView.KeyedBySignature := by
  rintro ⟨event, _, _⟩ p hp
  cases event with
  | userPositionUpdated event => cases List.mem_singleton.mp hp; rfl
  | _ => cases hp

theorem positionLiquidated_keyedBySignature : positionLiquidatedView.KeyedBySignature := by
  rintro ⟨event, _, _⟩ p hp
  cases event with
  | userPositionLiquidated event => cases List.mem_singleton.mp hp; rfl
  | _ => cases hp

/-! ## The log of liquidity positions -/

/-- The row a statement appends to `user_lp_position_updated_events`. -/
def lpRow? : Statement → Option UserLpPositionUpdatedRow
  | .userLpPositionUpdatedEvents row => some row
  | _ => none

def lpRows (db : Database) : List UserLpPositionUpdatedRow :=
  db.userLpPositionUpdatedEvents.cols.map Clocked.cols

def lpLog : Observation (List UserLpPositionUpdatedRow) where
  observe := lpRows
  next rows st := rows ++ (lpRow? st).toList
  observe_apply stamp st db := by
    cases st with
    | userLpPositionUpdatedEvents row =>
      simp only [lpRows, Statement.apply, Log.cols_insert, List.map_append, List.map_singleton]
      rfl
    | _ => exact (List.append_nil _).symm

def IndexedTransaction.lpRows (t : IndexedTransaction) : List UserLpPositionUpdatedRow :=
  t.attempted.filterMap fun p => lpRow? p.2

theorem lpLog_after (rows : List UserLpPositionUpdatedRow) (sts : List (Nat × Statement)) :
    lpLog.after rows sts = rows ++ sts.filterMap fun p => lpRow? p.2 := by
  induction sts generalizing rows with
  | nil => exact (List.append_nil rows).symm
  | cons p sts ih =>
    have hcons : lpLog.after rows (p :: sts) = lpLog.after (rows ++ (lpRow? p.2).toList) sts := rfl
    rw [hcons, ih, List.append_assoc, List.filterMap_cons]
    cases lpRow? p.2 <;> rfl

theorem lpRows_deliverAll (ts : List IndexedTransaction) {w : World} (hw : w.Healthy) :
    lpRows (deliverAll ts w).db = lpRows w.db ++ ts.flatMap IndexedTransaction.lpRows := by
  have h := lpLog.observe_deliverAll ts hw
  rw [lpLog_after, List.filterMap_flatMap] at h
  exact h

/-! ## Replays -/

/-- Two serial tables hold the same rows, up to ids and timestamps. -/
def SameRows {ρ κ : Type} {key : Clocked ρ Instant → κ} (t u : SerialTable key) : Prop :=
  (t.cols.map Clocked.cols).Perm (u.cols.map Clocked.cols)

/-- The row of `k` is last written by the same transaction with and without the
repeats. -/
def SameLastWriter {κ ν : Type} [DecidableEq κ] (V : KeyedView κ ν)
    (ds : List (Delivery IndexedTransaction)) (k : κ) : Prop :=
  lastWriter V.writesOfTransaction k (delivered ds) = lastWriter V.writesOfTransaction k (once ds)

/-- What a feed with repeats leaves, compared with the feed without them. -/
structure ReplayedRows (ds : List (Delivery IndexedTransaction)) (again original : Database) :
    Prop where
  adjustCollateralEvents : SameRows again.adjustCollateralEvents original.adjustCollateralEvents
  adjustDebtEvents : SameRows again.adjustDebtEvents original.adjustDebtEvents
  userPositionUpdatedEvents :
    SameRows again.userPositionUpdatedEvents original.userPositionUpdatedEvents
  userPositionLiquidatedEvents :
    SameRows again.userPositionLiquidatedEvents original.userPositionLiquidatedEvents
  userLpPositionUpdatedEvents :
    (lpRows again).Perm (lpRows original ++ (repeats ds).flatMap IndexedTransaction.lpRows)
  pools : ∀ k, SameLastWriter poolsView ds k → poolsView.view again k = poolsView.view original k
  userBorrowPositions : ∀ k, SameLastWriter borrowPositionsView ds k →
    borrowPositionsView.view again k = borrowPositionsView.view original k
  userLiquidityPositions : ∀ k, SameLastWriter liquidityPositionsView ds k →
    liquidityPositionsView.view again k = liquidityPositionsView.view original k

/-- For every feed with repeats, from any database, as long as nothing outside the
program fails and a signature determines its transaction. -/
theorem replay_rows (ds : List (Delivery IndexedTransaction)) (v w : World) (hvalid : Valid ds)
    (hsig : ∀ t ∈ delivered ds, ∀ u ∈ delivered ds, t.signature = u.signature → t = u)
    (hv : v.Healthy) (hw : w.Healthy) (hdb : v.db = w.db) :
    ReplayedRows ds (deliverAll (delivered ds) v).db (deliverAll (once ds) w).db where
  adjustCollateralEvents :=
    SerialTable.perm_of_lookup (fun _ _ => congrArg AdjustEventRow.transactionSignature)
      (adjustCollateral_keyedBySignature.view_eq hvalid hsig hv hw hdb)
  adjustDebtEvents :=
    SerialTable.perm_of_lookup (fun _ _ => congrArg AdjustEventRow.transactionSignature)
      (adjustDebt_keyedBySignature.view_eq hvalid hsig hv hw hdb)
  userPositionUpdatedEvents :=
    SerialTable.perm_of_lookup (fun _ _ => congrArg UserPositionUpdatedRow.transactionSignature)
      (positionUpdated_keyedBySignature.view_eq hvalid hsig hv hw hdb)
  userPositionLiquidatedEvents :=
    SerialTable.perm_of_lookup (fun _ _ => congrArg UserPositionLiquidatedRow.transactionSignature)
      (positionLiquidated_keyedBySignature.view_eq hvalid hsig hv hw hdb)
  userLpPositionUpdatedEvents := by
    rw [lpRows_deliverAll _ hv, lpRows_deliverAll _ hw, hdb, List.append_assoc,
      ← List.flatMap_append]
    exact ((delivered_perm ds).flatMap_right _).append_left _
  pools _ h := poolsView.view_eq_of_lastWriter hv hw hdb h
  userBorrowPositions _ h := borrowPositionsView.view_eq_of_lastWriter hv hw hdb h
  userLiquidityPositions _ h := liquidityPositionsView.view_eq_of_lastWriter hv hw hdb h

/-! ## A repeat that changes six tables -/

/-- Two transactions of one user in one pair, the first of them delivered again. -/
def replayedFeed : List (Delivery IndexedTransaction) :=
  let at7 : EventMetadata := ⟨.filled 1, .filled 2, 7⟩
  let at8 : EventMetadata := { at7 with slot := 8 }
  let created (swapFeeBps : UInt16) (m : EventMetadata) : PairCreatedEvent :=
    ⟨.filled 3, .filled 4, .filled 5, 6, 9, .filled 6, swapFeeBps, 0, none, 0, 0, 0, 0, 0, [], 1, m⟩
  let older : IndexedTransaction :=
    ⟨"older", 7,
      [.pairCreated (created 30 at7), .mint ⟨10, 20, 14, at7⟩, .swap ⟨100, 100, true, 5, 5, 5, at7⟩,
        .userPositionUpdated ⟨.filled 7, 100, 0, 0, 0, 0, 0, 0, 0, at7⟩,
        .userLiquidityPositionUpdated ⟨10, 20, 14, 0, 0, .filled 3, .filled 4, .filled 5, at7⟩]⟩
  let newer : IndexedTransaction :=
    ⟨"newer", 8,
      [.pairCreated (created 25 at8),
        .userPositionUpdated ⟨.filled 7, 200, 0, 0, 0, 0, 0, 0, 0, at8⟩,
        .userLiquidityPositionUpdated ⟨5, 10, 7, 0, 0, .filled 3, .filled 4, .filled 5, at8⟩]⟩
  [.first older, .first newer, .again older]

theorem replay_rows_replayedFeed :
    ReplayedRows replayedFeed (deliverAll (delivered replayedFeed) World.fresh).db
      (deliverAll (once replayedFeed) World.fresh).db :=
  replay_rows replayedFeed World.fresh World.fresh (by decide +kernel) (by decide +kernel)
    World.fresh_healthy World.fresh_healthy rfl

/-- The repeat adds rows to `swaps`, `adjust_liquidity` and the log, and sets the
pool and both positions back to the older transaction. -/
theorem replayed_tables_differ :
    Valid replayedFeed ∧
      (let again := (deliverAll (delivered replayedFeed) World.fresh).db
       let original := (deliverAll (once replayedFeed) World.fresh).db
       ¬ SameRows again.swaps original.swaps ∧
         ¬ SameRows again.adjustLiquidity original.adjustLiquidity ∧
         ¬ (lpRows again).Perm (lpRows original) ∧
         poolsView.view again (.filled 2) ≠ poolsView.view original (.filled 2) ∧
         borrowPositionsView.view again (.filled 2, .filled 1) ≠
           borrowPositionsView.view original (.filled 2, .filled 1) ∧
         liquidityPositionsView.view again (.filled 2, .filled 1) ≠
           liquidityPositionsView.view original (.filled 2, .filled 1)) := by
  refine ⟨by decide +kernel, ?_⟩
  dsimp only
  refine ⟨fun h => ?_, fun h => ?_, fun h => ?_, ?_, ?_, ?_⟩
  · exact absurd h.length_eq (by decide +kernel)
  · exact absurd h.length_eq (by decide +kernel)
  · exact absurd h.length_eq (by decide +kernel)
  all_goals decide +kernel

end OmnipairIndexer
