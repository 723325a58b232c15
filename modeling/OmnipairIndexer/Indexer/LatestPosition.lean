/-
The two latest-position tables.

`user_borrow_positions` and `user_liquidity_positions` hold one row for each pair
and signer.  Their `DO UPDATE` has no guard on the slot, so the row of a key is
the one delivered last.  `latest_position_iff` states what that means for a feed
that delivers in any order: the row ends up at the newest event, and is never set
back on the way, exactly when the events of the key arrive in slot order and none of
them is older than the row that is there before.
-/
import Mathlib.Data.List.Induction
import OmnipairIndexer.Indexer.Effects

namespace OmnipairIndexer

open Fallible LastWrite

/-- The slot of a position event, as the program on chain reports it. -/
def UpsertCall.positionSlot (c : UpsertCall) : Nat :=
  match c.event with
  | .userPositionUpdated event => event.metadata.slot.toNat
  | .userLiquidityPositionUpdated event => event.metadata.slot.toNat
  | _ => 0

section Latest

variable {κ ν : Type} [DecidableEq κ] (V : KeyedView κ ν) (slot : ν → Int) (k : κ)

def Touches (c : UpsertCall) : Prop := (last k (V.writesOf c)).isSome

instance (c : UpsertCall) : Decidable (Touches V k c) := inferInstanceAs (Decidable (_ = true))

def deliveriesOf (cs : List UpsertCall) : List UpsertCall := cs.filter fun c => Touches V k c

def DistinctSlots (cs : List UpsertCall) : Prop :=
  (deliveriesOf V k cs).Pairwise fun c d => c.positionSlot ≠ d.positionSlot

def InSlotOrder (cs : List UpsertCall) : Prop :=
  (deliveriesOf V k cs).Pairwise fun c d => c.positionSlot < d.positionSlot

instance (cs : List UpsertCall) : Decidable (DistinctSlots V k cs) :=
  inferInstanceAs (Decidable (List.Pairwise _ _))

instance (cs : List UpsertCall) : Decidable (InSlotOrder V k cs) :=
  inferInstanceAs (Decidable (List.Pairwise _ _))

/-- No event of the key has a smaller slot than the row that is there before. -/
def StoredOlder (cs : List UpsertCall) (w : World) : Prop :=
  ∀ row ∈ V.view w.db k, ∀ c ∈ deliveriesOf V k cs, slot row ≤ c.positionSlot

instance (cs : List UpsertCall) (w : World) : Decidable (StoredOlder V slot k cs w) :=
  inferInstanceAs (Decidable (∀ row ∈ V.view w.db k, _))

/-- No event replaces a row with a greater slot: the row of an event delivered before it,
or the row that is there when it is the first. -/
def NeverBack (cs : List UpsertCall) (w : World) : Prop :=
  ∀ before c after v, cs = before ++ c :: after → Touches V k c →
    each World.perform before w = (.ok (), v) → ∀ row, V.view v.db k = some row →
    (∀ d ∈ before, (k, row) ∈ V.writesOf d → d.positionSlot ≤ c.positionSlot) ∧
      (deliveriesOf V k before = [] → slot row ≤ c.positionSlot)

/-- The table converges to the newest event of the key: its final row is the one
of the event with the greatest slot, and it is never set back on the way. -/
def ConvergesToNewest (cs : List UpsertCall) (w w' : World) : Prop :=
  (∀ c ∈ cs, ∀ row, (k, row) ∈ V.writesOf c →
    (∀ d ∈ deliveriesOf V k cs, d.positionSlot ≤ c.positionSlot) → V.view w'.db k = some row) ∧
  NeverBack V slot k cs w

variable {V slot k}

theorem mem_deliveriesOf {c : UpsertCall} {cs : List UpsertCall} :
    c ∈ deliveriesOf V k cs ↔ c ∈ cs ∧ Touches V k c := by
  simp [deliveriesOf]

@[simp] theorem deliveriesOf_append (cs ds : List UpsertCall) :
    deliveriesOf V k (cs ++ ds) = deliveriesOf V k cs ++ deliveriesOf V k ds :=
  List.filter_append ..

theorem touches_of_mem {c : UpsertCall} {row : ν} (h : (k, row) ∈ V.writesOf c) :
    Touches V k c := by
  rw [Touches, Option.isSome_iff_ne_none]
  exact fun hnone => last_eq_none_iff.mp hnone _ h rfl

theorem InSlotOrder.le_last {cs : List UpsertCall} (horder : InSlotOrder V k cs) {d e : UpsertCall}
    (hd : lastWriter V.writesOf k cs = some d) (he : e ∈ deliveriesOf V k cs) :
    e.positionSlot ≤ d.positionSlot := by
  obtain ⟨hecs, het⟩ := mem_deliveriesOf.mp he
  have hdt : Touches V k d := (mem_of_lastWriter hd).2
  obtain ⟨before, after, rfl, hafter⟩ := split_of_lastWriter hd
  rcases List.mem_append.mp hecs with hin | hin
  · unfold InSlotOrder at horder
    rw [deliveriesOf_append, List.pairwise_append] at horder
    exact (horder.2.2 e (mem_deliveriesOf.mpr ⟨hin, het⟩) d
      (mem_deliveriesOf.mpr ⟨List.mem_cons_self, hdt⟩)).le
  · rcases List.mem_cons.mp hin with rfl | hin
    · exact le_rfl
    · rw [Touches, hafter e hin] at het
      cases het

theorem exists_last {cs : List UpsertCall} {c : UpsertCall} (hc : c ∈ deliveriesOf V k cs) :
    ∃ d, lastWriter V.writesOf k cs = some d := by
  obtain ⟨hmem, htouch⟩ := mem_deliveriesOf.mp hc
  cases hlast : lastWriter V.writesOf k cs with
  | some d => exact ⟨d, rfl⟩
  | none =>
    rw [Touches, lastWriter_eq_none_iff.mp hlast c hmem] at htouch
    cases htouch

theorem view_of_last {cs : List UpsertCall} {w w' : World}
    (h : each World.perform cs w = (.ok (), w')) {d : UpsertCall}
    (hd : lastWriter V.writesOf k cs = some d) : V.view w'.db k = last k (V.writesOf d) := by
  obtain ⟨row, hrow⟩ := Option.isSome_iff_exists.mp (mem_of_lastWriter hd).2
  rw [V.view_of_ok h, V.writes_flatMap, replay_flatMap, hd, Option.bind_some, hrow]
  rfl

/-- A run can be cut after any of its calls. -/
theorem each_perform_prefix {cs ds : List UpsertCall} {w w' : World}
    (h : each World.perform (cs ++ ds) w = (.ok (), w')) :
    ∃ v, each World.perform cs w = (.ok (), v) := by
  rw [each_append] at h
  obtain ⟨v, hv, -⟩ := andThen_eq_ok.mp h
  exact ⟨v, hv⟩

/-- Deliveries that never set a row back are in slot order.  The induction appends
one delivery at a time: the row it finds is the one of the delivery before it. -/
theorem inSlotOrder_of_neverBack {cs : List UpsertCall} {w w' : World}
    (h : each World.perform cs w = (.ok (), w')) (hdistinct : DistinctSlots V k cs)
    (hback : NeverBack V slot k cs w) : InSlotOrder V k cs := by
  induction cs using List.reverseRecOn generalizing w' with
  | nil => exact List.Pairwise.nil
  | append_singleton cs c ih =>
    obtain ⟨v, hv⟩ := each_perform_prefix h
    unfold DistinctSlots at hdistinct
    rw [deliveriesOf_append, List.pairwise_append] at hdistinct
    obtain ⟨hcs, -, hcross⟩ := hdistinct
    have horder : InSlotOrder V k cs := by
      refine ih hv hcs fun before d after u hsplit => ?_
      exact hback before d (after ++ [c]) u (by rw [hsplit, List.append_assoc, List.cons_append])
    unfold InSlotOrder
    rw [deliveriesOf_append, List.pairwise_append]
    refine ⟨horder, (List.pairwise_singleton _ c).sublist List.filter_sublist, ?_⟩
    intro e he b hb
    obtain ⟨hbc, hbt⟩ := mem_deliveriesOf.mp hb
    cases List.mem_singleton.mp hbc
    obtain ⟨d, hd⟩ := exists_last he
    obtain ⟨hdcs, hdt⟩ := mem_of_lastWriter hd
    obtain ⟨row, hrow⟩ := Option.isSome_iff_exists.mp hdt
    have hle := (hback cs c [] v rfl hbt hv row ((view_of_last hv hd).trans hrow)).1 d hdcs
      (mem_of_last hrow)
    have hne := hcross d (mem_deliveriesOf.mpr ⟨hdcs, hdt⟩) c hb
    have hed := horder.le_last hd he
    omega

/-- Calls that do not touch a key leave its row. -/
theorem view_of_untouched {cs : List UpsertCall} {w w' : World}
    (h : each World.perform cs w = (.ok (), w')) (hnone : deliveriesOf V k cs = []) :
    V.view w'.db k = V.view w.db k := by
  have hlast : lastWriter V.writesOf k cs = none := by
    rw [lastWriter_eq_none_iff]
    intro c hc
    by_contra hne
    have hmem : c ∈ deliveriesOf V k cs :=
      mem_deliveriesOf.mpr ⟨hc, Option.isSome_iff_ne_none.mpr hne⟩
    rw [hnone] at hmem
    cases hmem
  rw [V.view_of_ok h, V.writes_flatMap, replay_flatMap, hlast]
  rfl

/-- The first delivery finds the row that was there before. -/
theorem storedOlder_of_neverBack {cs : List UpsertCall} {w w' : World}
    (h : each World.perform cs w = (.ok (), w')) (horder : InSlotOrder V k cs)
    (hback : NeverBack V slot k cs w) : StoredOlder V slot k cs w := by
  intro row hrow c hc
  obtain ⟨first, rest, hfirst⟩ := List.exists_cons_of_ne_nil (List.ne_nil_of_mem hc)
  obtain ⟨before, after, rfl, hbefore, htouch, -⟩ := List.filter_eq_cons_iff.mp hfirst
  have hnone : deliveriesOf V k before = [] := by
    rw [deliveriesOf, List.filter_eq_nil_iff]
    exact hbefore
  obtain ⟨v, hv⟩ := each_perform_prefix h
  have hle := (hback before first after v rfl (of_decide_eq_true htouch) hv row
    ((view_of_untouched hv hnone).trans hrow)).2 hnone
  unfold InSlotOrder at horder
  rw [hfirst, List.pairwise_cons] at horder
  rw [hfirst] at hc
  rcases List.mem_cons.mp hc with rfl | hrest
  · exact hle
  · have := horder.1 c hrest
    omega

/-- In slot order, the last delivery is the newest and the rows only move forward. -/
theorem converges_of_inSlotOrder {cs : List UpsertCall} {w w' : World}
    (hsingle : ∀ c : UpsertCall, (V.writesOf c).length ≤ 1)
    (h : each World.perform cs w = (.ok (), w')) (horder : InSlotOrder V k cs)
    (hstored : StoredOlder V slot k cs w) : ConvergesToNewest V slot k cs w w' := by
  constructor
  · intro c hc row hrow hmax
    have hdeliv : c ∈ deliveriesOf V k cs := mem_deliveriesOf.mpr ⟨hc, touches_of_mem hrow⟩
    obtain ⟨d, hd⟩ := exists_last hdeliv
    have hdc : d = c := by
      by_contra hne
      have hle := hmax d (mem_deliveriesOf.mpr (mem_of_lastWriter hd))
      obtain ⟨before, after, rfl, hafter⟩ := split_of_lastWriter hd
      rcases List.mem_append.mp hc with hin | hin
      · unfold InSlotOrder at horder
        rw [deliveriesOf_append, List.pairwise_append] at horder
        have := horder.2.2 c (mem_deliveriesOf.mpr ⟨hin, touches_of_mem hrow⟩) d
          (mem_deliveriesOf.mpr ⟨List.mem_cons_self, (mem_of_lastWriter hd).2⟩)
        omega
      · rcases List.mem_cons.mp hin with rfl | hin
        · exact hne rfl
        · exact last_eq_none_iff.mp (hafter c hin) _ hrow rfl
    rw [view_of_last h hd, hdc]
    have hone : V.writesOf c = [(k, row)] := by
      have := hsingle c
      cases hw : V.writesOf c with
      | nil => simp [hw] at hrow
      | cons p ps =>
        cases ps with
        | nil => simpa [hw, eq_comm] using hrow
        | cons q qs => simp [hw] at this
    rw [hone]
    simp [last]
  · rintro before c after v rfl hc hv row hview
    constructor
    · intro d hd hrow
      unfold InSlotOrder at horder
      rw [deliveriesOf_append, List.pairwise_append] at horder
      exact (horder.2.2 d (mem_deliveriesOf.mpr ⟨hd, touches_of_mem hrow⟩) c
        (mem_deliveriesOf.mpr ⟨List.mem_cons_self, hc⟩)).le
    · intro hnone
      refine hstored row ((view_of_untouched hv hnone).symm.trans hview) c ?_
      exact mem_deliveriesOf.mpr ⟨List.mem_append_right _ List.mem_cons_self, hc⟩

theorem converges_iff {cs : List UpsertCall} {w w' : World}
    (hsingle : ∀ c : UpsertCall, (V.writesOf c).length ≤ 1)
    (h : each World.perform cs w = (.ok (), w')) (hdistinct : DistinctSlots V k cs) :
    ConvergesToNewest V slot k cs w w' ↔ InSlotOrder V k cs ∧ StoredOlder V slot k cs w := by
  constructor
  · rintro ⟨-, hback⟩
    have horder := inSlotOrder_of_neverBack h hdistinct hback
    exact ⟨horder, storedOlder_of_neverBack h horder hback⟩
  · rintro ⟨horder, hstored⟩
    exact converges_of_inSlotOrder hsingle h horder hstored

end Latest

theorem borrowPositions_single (c : UpsertCall) :
    (borrowPositionsView.writesOf c).length ≤ 1 := by
  obtain ⟨event, _, _⟩ := c
  cases event <;> simp [KeyedView.writesOf, KeyedView.writes, UpsertCall.statements,
    borrowPositionsView]

theorem liquidityPositions_single (c : UpsertCall) :
    (liquidityPositionsView.writesOf c).length ≤ 1 := by
  obtain ⟨event, _, _⟩ := c
  cases event <;> simp [KeyedView.writesOf, KeyedView.writes, UpsertCall.statements,
    liquidityPositionsView]

/-- For every list of successful calls, among them the position events of one pair
and signer with distinct slots in any order: each latest-position table converges
to the newest event of the key exactly when its events arrive in slot order and the
row that is there before is no newer than any of them. -/
theorem latest_position_iff (k : Pubkey × Pubkey) (cs : List UpsertCall) (w w' : World)
    (h : each World.perform cs w = (.ok (), w'))
    (hborrow : DistinctSlots borrowPositionsView k cs)
    (hliquidity : DistinctSlots liquidityPositionsView k cs) :
    (ConvergesToNewest borrowPositionsView UserBorrowPositionRow.slot k cs w w' ↔
        InSlotOrder borrowPositionsView k cs ∧
          StoredOlder borrowPositionsView UserBorrowPositionRow.slot k cs w) ∧
      (ConvergesToNewest liquidityPositionsView UserLiquidityPositionRow.slot k cs w w' ↔
        InSlotOrder liquidityPositionsView k cs ∧
          StoredOlder liquidityPositionsView UserLiquidityPositionRow.slot k cs w) :=
  ⟨converges_iff borrowPositions_single h hborrow,
    converges_iff liquidityPositions_single h hliquidity⟩

/-- The position events of two transactions of one user, the newer transaction
first, the way the crawler lists them. -/
def newestFirst : List UpsertCall :=
  let owner : EventMetadata := ⟨.filled 1, .filled 2, 8⟩
  let older : EventMetadata := { owner with slot := 7 }
  [⟨.userPositionUpdated ⟨.filled 3, 200, 0, 0, 0, 0, 0, 0, 0, owner⟩, "newer", 8⟩,
    ⟨.userLiquidityPositionUpdated ⟨0, 0, 200, 0, 0, .filled 4, .filled 5, .filled 6, owner⟩,
      "newer", 8⟩,
    ⟨.userPositionUpdated ⟨.filled 3, 100, 0, 0, 0, 0, 0, 0, 0, older⟩, "older", 7⟩,
    ⟨.userLiquidityPositionUpdated ⟨0, 0, 100, 0, 0, .filled 4, .filled 5, .filled 6, older⟩,
      "older", 7⟩]

theorem newestFirst_ok : each World.perform newestFirst World.fresh =
    (.ok (), (each World.perform newestFirst World.fresh).2) :=
  Prod.ext (by rfl) rfl

/-- The world after the older of the two transactions. -/
def afterOlder : World := (each World.perform (newestFirst.drop 2) World.fresh).2

/-- In slot order, the newer transaction over the rows of the older. -/
theorem latest_position_iff_slotOrder :
    let k := (Pubkey.filled 2, Pubkey.filled 1)
    let newer := newestFirst.take 2
    let w' := (each World.perform newer afterOlder).2
    ConvergesToNewest borrowPositionsView UserBorrowPositionRow.slot k newer afterOlder w' ∧
      ConvergesToNewest liquidityPositionsView UserLiquidityPositionRow.slot k newer afterOlder
        w' := by
  have hok : each World.perform (newestFirst.take 2) afterOlder =
      (.ok (), (each World.perform (newestFirst.take 2) afterOlder).2) := Prod.ext (by rfl) rfl
  have hconverges := latest_position_iff (.filled 2, .filled 1) (newestFirst.take 2) afterOlder _
    hok (by decide +kernel) (by decide +kernel)
  exact ⟨hconverges.1.mpr (by decide +kernel), hconverges.2.mpr (by decide +kernel)⟩

/-- Newest first, both tables end at the older transaction. -/
theorem older_position_overwrites_newer :
    each World.perform newestFirst World.fresh =
        (.ok (), (each World.perform newestFirst World.fresh).2) ∧
      ¬ ConvergesToNewest borrowPositionsView UserBorrowPositionRow.slot (.filled 2, .filled 1)
        newestFirst World.fresh (each World.perform newestFirst World.fresh).2 ∧
      ¬ ConvergesToNewest liquidityPositionsView UserLiquidityPositionRow.slot
        (.filled 2, .filled 1) newestFirst World.fresh
        (each World.perform newestFirst World.fresh).2 := by
  have hborrow : ((borrowPositionsView.view (each World.perform newestFirst World.fresh).2.db
      (.filled 2, .filled 1)).map fun row => row.collateral0) = some 100 := by decide +kernel
  have hliquidity : ((liquidityPositionsView.view
      (each World.perform newestFirst World.fresh).2.db (.filled 2, .filled 1)).map
      fun row => row.lpAmount) = some 100 := by decide +kernel
  refine ⟨newestFirst_ok, fun h => ?_, fun h => ?_⟩
  · have hnewest := h.1 _ List.mem_cons_self _ List.mem_cons_self (by decide +kernel)
    rw [hnewest] at hborrow
    exact absurd hborrow (by decide +kernel)
  · have hnewest := h.1 _ (List.mem_cons_of_mem _ List.mem_cons_self) _ List.mem_cons_self
      (by decide +kernel)
    rw [hnewest] at hliquidity
    exact absurd hliquidity (by decide +kernel)

end OmnipairIndexer
