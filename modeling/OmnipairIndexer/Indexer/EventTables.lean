/-
The four event tables keyed by the transaction signature.

`adjust_collateral_events`, `adjust_debt_events`, `user_position_updated_events`
and `user_position_liquidated_events` are histories with one row for each
transaction.  A transaction with two events of a kind writes the same row twice,
and `events_kept_iff` states exactly when that loses nothing: when the events of
each kind have the same values.
-/
import OmnipairIndexer.Indexer.Effects

namespace OmnipairIndexer

open Fallible Relational LastWrite

section Transaction

variable (txSignature : String) (slot : Int64)

/-- The event table of the event holds a row with its values. -/
def HoldsRow (db : Database) : PersistedEvent → Prop
  | .adjustCollateral event =>
    event.row txSignature slot ∈ db.adjustCollateralEvents.cols.map Clocked.cols
  | .adjustDebt event => event.row txSignature slot ∈ db.adjustDebtEvents.cols.map Clocked.cols
  | .userPositionUpdated event =>
    event.row txSignature slot ∈ db.userPositionUpdatedEvents.cols.map Clocked.cols
  | .userPositionLiquidated event =>
    event.row txSignature slot ∈ db.userPositionLiquidatedEvents.cols.map Clocked.cols
  | _ => True

structure OneValuePerKind (events : List PersistedEvent) : Prop where
  adjustCollateral : ∀ a b, .adjustCollateral a ∈ events → .adjustCollateral b ∈ events →
    a.row txSignature slot = b.row txSignature slot
  adjustDebt : ∀ a b, .adjustDebt a ∈ events → .adjustDebt b ∈ events →
    a.row txSignature slot = b.row txSignature slot
  userPositionUpdated : ∀ a b, .userPositionUpdated a ∈ events → .userPositionUpdated b ∈ events →
    a.row txSignature slot = b.row txSignature slot
  userPositionLiquidated : ∀ a b, .userPositionLiquidated a ∈ events →
    .userPositionLiquidated b ∈ events → a.row txSignature slot = b.row txSignature slot

/-- No event of the transaction overwrites another: at the end every event has its
row, and on the way no event takes the row of an earlier one away. -/
def NoEventOverwritten (events : List PersistedEvent) (w w' : World) : Prop :=
  (∀ event ∈ events, HoldsRow txSignature slot w'.db event) ∧
  ∀ before event after v v', events = before ++ event :: after →
    each World.perform (callsOf txSignature slot before) w = (.ok (), v) →
    World.perform ⟨event, txSignature, slot⟩ v = (.ok (), v') →
    ∀ earlier ∈ before, HoldsRow txSignature slot v.db earlier →
      HoldsRow txSignature slot v'.db earlier

end Transaction

section Kept

variable {txSignature : String} {slot : Int64}

/-! ## Rows as entries of the views -/

theorem holdsRow_adjustCollateral {db : Database} {event : AdjustCollateralEvent} :
    HoldsRow txSignature slot db (.adjustCollateral event) ↔
      adjustCollateralView.view db txSignature = some (event.row txSignature slot) :=
  SerialTable.mem_map_cols_iff (g := AdjustEventRow.transactionSignature) (fun _ => rfl)
    db.adjustCollateralEvents _

theorem holdsRow_adjustDebt {db : Database} {event : AdjustDebtEvent} :
    HoldsRow txSignature slot db (.adjustDebt event) ↔
      adjustDebtView.view db txSignature = some (event.row txSignature slot) :=
  SerialTable.mem_map_cols_iff (g := AdjustEventRow.transactionSignature) (fun _ => rfl)
    db.adjustDebtEvents _

theorem holdsRow_userPositionUpdated {db : Database} {event : UserPositionUpdatedEvent} :
    HoldsRow txSignature slot db (.userPositionUpdated event) ↔
      positionUpdatedView.view db txSignature = some (event.row txSignature slot) :=
  SerialTable.mem_map_cols_iff (g := UserPositionUpdatedRow.transactionSignature) (fun _ => rfl)
    db.userPositionUpdatedEvents _

theorem holdsRow_userPositionLiquidated {db : Database} {event : UserPositionLiquidatedEvent} :
    HoldsRow txSignature slot db (.userPositionLiquidated event) ↔
      positionLiquidatedView.view db txSignature = some (event.row txSignature slot) :=
  SerialTable.mem_map_cols_iff (g := UserPositionLiquidatedRow.transactionSignature)
    (fun _ => rfl) db.userPositionLiquidatedEvents _

/-! ## One row for each transaction -/

/-- If the writes of a transaction to a table agree, each of them is there at the
end. -/
theorem view_of_agree {ν : Type} (V : KeyedView String ν) {events : List PersistedEvent}
    {w w' : World} (h : each World.perform (callsOf txSignature slot events) w = (.ok (), w'))
    {event : PersistedEvent} (hevent : event ∈ events) {row : ν}
    (hrow : (txSignature, row) ∈ V.writesOf ⟨event, txSignature, slot⟩)
    (hone : ∀ other ∈ events, ∀ p ∈ V.writesOf ⟨other, txSignature, slot⟩, p.2 = row) :
    V.view w'.db txSignature = some row := by
  refine V.view_of_mem h (List.mem_map.mpr ⟨event, hevent, rfl⟩) hrow fun d hd p hp _ => ?_
  obtain ⟨other, hother, rfl⟩ := List.mem_map.mp hd
  exact hone other hother p hp

theorem holdsRow_of_oneValue {events : List PersistedEvent} {w w' : World}
    (h : each World.perform (callsOf txSignature slot events) w = (.ok (), w'))
    (hone : OneValuePerKind txSignature slot events) :
    ∀ event ∈ events, HoldsRow txSignature slot w'.db event := by
  intro event hevent
  cases event with
  | adjustCollateral a =>
    refine holdsRow_adjustCollateral.mpr
      (view_of_agree _ h hevent List.mem_cons_self fun other hother p hp => ?_)
    cases other with
    | adjustCollateral b =>
      cases List.mem_singleton.mp hp
      exact hone.adjustCollateral b a hother hevent
    | _ => cases hp
  | adjustDebt a =>
    refine holdsRow_adjustDebt.mpr
      (view_of_agree _ h hevent List.mem_cons_self fun other hother p hp => ?_)
    cases other with
    | adjustDebt b =>
      cases List.mem_singleton.mp hp
      exact hone.adjustDebt b a hother hevent
    | _ => cases hp
  | userPositionUpdated a =>
    refine holdsRow_userPositionUpdated.mpr
      (view_of_agree _ h hevent List.mem_cons_self fun other hother p hp => ?_)
    cases other with
    | userPositionUpdated b =>
      cases List.mem_singleton.mp hp
      exact hone.userPositionUpdated b a hother hevent
    | _ => cases hp
  | userPositionLiquidated a =>
    refine holdsRow_userPositionLiquidated.mpr
      (view_of_agree _ h hevent List.mem_cons_self fun other hother p hp => ?_)
    cases other with
    | userPositionLiquidated b =>
      cases List.mem_singleton.mp hp
      exact hone.userPositionLiquidated b a hother hevent
    | _ => cases hp
  | _ => trivial

/-- The table has room for one row of the transaction, so two events of a kind that
both have their row have the same one. -/
theorem oneValue_of_holdsRow {events : List PersistedEvent} {db : Database}
    (h : ∀ event ∈ events, HoldsRow txSignature slot db event) :
    OneValuePerKind txSignature slot events where
  adjustCollateral _ _ ha hb := Option.some.inj
    ((holdsRow_adjustCollateral.mp (h _ ha)).symm.trans (holdsRow_adjustCollateral.mp (h _ hb)))
  adjustDebt _ _ ha hb := Option.some.inj
    ((holdsRow_adjustDebt.mp (h _ ha)).symm.trans (holdsRow_adjustDebt.mp (h _ hb)))
  userPositionUpdated _ _ ha hb := Option.some.inj
    ((holdsRow_userPositionUpdated.mp (h _ ha)).symm.trans
      (holdsRow_userPositionUpdated.mp (h _ hb)))
  userPositionLiquidated _ _ ha hb := Option.some.inj
    ((holdsRow_userPositionLiquidated.mp (h _ ha)).symm.trans
      (holdsRow_userPositionLiquidated.mp (h _ hb)))

theorem OneValuePerKind.subset {events events' : List PersistedEvent}
    (h : OneValuePerKind txSignature slot events) (hsub : ∀ e ∈ events', e ∈ events) :
    OneValuePerKind txSignature slot events' where
  adjustCollateral _ _ ha hb := h.adjustCollateral _ _ (hsub _ ha) (hsub _ hb)
  adjustDebt _ _ ha hb := h.adjustDebt _ _ (hsub _ ha) (hsub _ hb)
  userPositionUpdated _ _ ha hb := h.userPositionUpdated _ _ (hsub _ ha) (hsub _ hb)
  userPositionLiquidated _ _ ha hb := h.userPositionLiquidated _ _ (hsub _ ha) (hsub _ hb)

end Kept

/-- For every transaction whose events were all processed successfully, from any
database: no event overwrites another exactly when the events of each kind have
the same values. -/
theorem events_kept_iff (txSignature : String) (slot : Int64) (events : List PersistedEvent)
    (w w' : World)
    (h : each World.perform (callsOf txSignature slot events) w = (.ok (), w')) :
    NoEventOverwritten txSignature slot events w w' ↔
      OneValuePerKind txSignature slot events := by
  constructor
  · exact fun hkept => oneValue_of_holdsRow hkept.1
  · intro hone
    refine ⟨holdsRow_of_oneValue h hone, ?_⟩
    rintro before event after v v' rfl hv hv' earlier hearlier -
    have hrun : each World.perform (callsOf txSignature slot (before ++ [event])) w =
        (.ok (), v') := by
      rw [callsOf, List.map_append, each_append]
      rw [callsOf] at hv
      rw [andThen_of_ok hv, List.map_singleton, each_cons, each_nil, andThen_done, hv']
    refine holdsRow_of_oneValue hrun (hone.subset ?_) earlier (List.mem_append_left _ hearlier)
    intro e he
    simp only [List.mem_append, List.mem_cons, List.not_mem_nil, or_false] at he ⊢
    tauto

/-- A transaction that borrows in two pairs. -/
def twoBorrows : List PersistedEvent :=
  [.adjustDebt ⟨10, 0, ⟨.filled 1, .filled 2, 7⟩⟩, .adjustDebt ⟨20, 0, ⟨.filled 1, .filled 3, 7⟩⟩]

theorem twoBorrows_ok : each World.perform (callsOf "tx" 7 twoBorrows) World.fresh =
    (.ok (), (each World.perform (callsOf "tx" 7 twoBorrows) World.fresh).2) :=
  Prod.ext (by rfl) rfl

theorem events_kept_iff_twoBorrows :
    NoEventOverwritten "tx" 7 twoBorrows World.fresh
        (each World.perform (callsOf "tx" 7 twoBorrows) World.fresh).2 ↔
      OneValuePerKind "tx" 7 twoBorrows :=
  events_kept_iff "tx" 7 twoBorrows World.fresh _ twoBorrows_ok

/-- Both borrows are processed, and the first has no row afterwards. -/
theorem first_borrow_overwritten :
    each World.perform (callsOf "tx" 7 twoBorrows) World.fresh =
        (.ok (), (each World.perform (callsOf "tx" 7 twoBorrows) World.fresh).2) ∧
      ¬ NoEventOverwritten "tx" 7 twoBorrows World.fresh
        (each World.perform (callsOf "tx" 7 twoBorrows) World.fresh).2 := by
  refine ⟨twoBorrows_ok, fun h => ?_⟩
  have hone := (oneValue_of_holdsRow h.1).adjustDebt _ _ List.mem_cons_self
    (List.mem_cons_of_mem _ List.mem_cons_self)
  exact absurd (congrArg AdjustEventRow.amount0 hone) (by decide)

end OmnipairIndexer
