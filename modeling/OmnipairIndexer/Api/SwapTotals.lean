/-
The volumes and the fees of a pair.

They are sums over the rows of `swaps`, and a swap whose signature and microsecond come
again is written over.  `totals_account` says for every run that the answers and what was
written over make up what was written, so an answer never exceeds the swaps written, and
is exact only if what was written over moved nothing.  If no two of the swaps written
share the signature and the microsecond, it is exact.

A sum is kept as the number its text shows.
-/
import OmnipairIndexer.Api.Pagination
import OmnipairIndexer.Indexer.Written

namespace OmnipairIndexer

open Relational

namespace DataController

/-! ## Queries -/

structure FeesPaid where
  totalFeePaidInToken0 : Int
  totalFeePaidInToken1 : Int
  period : String
  deriving DecidableEq

structure SwapVolume where
  volume0 : Int
  volume1 : Int
  period : String
  deriving DecidableEq

/-- `SUM`, which is `NULL` without rows and then answered as `'0'`. -/
def sqlSum (column : SwapRow → Int) (rows : List (Clocked SwapRow Instant)) : Int :=
  match rows with
  | [] => 0
  | rows => (rows.map fun row => column row.cols).sum

/-- `CASE WHEN is_token0_in = true THEN amount_in ELSE amount_out END`. -/
def volumeOfToken0 (row : SwapRow) : Int :=
  if row.isToken0In = true then row.amountIn else row.amountOut

/-- `CASE WHEN is_token0_in = false THEN amount_in ELSE amount_out END`. -/
def volumeOfToken1 (row : SwapRow) : Int :=
  if row.isToken0In = false then row.amountIn else row.amountOut

section Endpoints

variable (db : Database) (base58 : Pubkey → String)

/-- `timestamp > to_timestamp($1) AND pair = $2`, with whole seconds for `$1`, or
`pair = $1` without a limit.  `now` is what `Date.now()` reads. -/
def inPeriod (pairAddress : String) (hours : Option Nat) (now : Int)
    (row : Clocked SwapRow Instant) : Bool :=
  hours.all (fun hours => (now / 1000 - hours * 60 * 60) * 1000000 < row.clock) &&
    decide (base58 row.cols.pair = pairAddress)

def hrs (hours : Nat) : String := toString hours ++ "hrs"

def calculateTotalFeesPaid (pairAddress : String) (hours : Option Nat) (now : Int) : FeesPaid :=
  let rows := db.swaps.cols.filter (inPeriod base58 pairAddress hours now)
  { totalFeePaidInToken0 := sqlSum SwapRow.feePaid0 rows
    totalFeePaidInToken1 := sqlSum SwapRow.feePaid1 rows
    period := hours.elim "all" hrs }

/-- The query of `getSwapVolume` as well. -/
def calculateSwapVolume (pairAddress : String) (hours : Nat) (now : Int) : SwapVolume :=
  let rows := db.swaps.cols.filter (inPeriod base58 pairAddress (some hours) now)
  { volume0 := sqlSum volumeOfToken0 rows
    volume1 := sqlSum volumeOfToken1 rows
    period := hrs hours }

end Endpoints

/-! ## Totals after a run -/

section Totals

theorem sqlSum_eq (column : SwapRow → Int) (p : Clocked SwapRow Instant → Bool)
    (rows : List (Clocked SwapRow Instant)) :
    sqlSum column (rows.filter p) = sumWhere p (fun row => column row.cols) rows := by
  rw [sumWhere]
  cases rows.filter p <;> rfl

/-- What the indexer writes into a column is not negative. -/
def Nonnegative (column : SwapRow → Int) : Prop :=
  ∀ (event : SwapEvent) (txSignature : String) (slot : Int64),
    0 ≤ column (event.row txSignature slot)

theorem nonnegative_feePaid0 : Nonnegative SwapRow.feePaid0 := fun _ _ _ => Int.natCast_nonneg _

theorem nonnegative_feePaid1 : Nonnegative SwapRow.feePaid1 := fun _ _ _ => Int.natCast_nonneg _

theorem nonnegative_volumeOfToken0 : Nonnegative volumeOfToken0 := by
  intro event txSignature slot
  unfold volumeOfToken0
  split
  · exact Int.natCast_nonneg _
  · exact Int.natCast_nonneg _

theorem nonnegative_volumeOfToken1 : Nonnegative volumeOfToken1 := by
  intro event txSignature slot
  unfold volumeOfToken1
  split
  · exact Int.natCast_nonneg _
  · exact Int.natCast_nonneg _

section Run

variable {cs : List UpsertCall} {w : World}

theorem nonneg_of_written {column : SwapRow → Int} (h : Nonnegative column) :
    ∀ row ∈ w.swapsWritten cs, 0 ≤ column row.cols := by
  intro row hrow
  obtain ⟨event, txSignature, slot, heq⟩ :=
    World.mem_swapsOf ((World.swapsWritten_sublist cs w).subset hrow)
  rw [heq]
  exact h event txSignature slot

/-- An answer and what was written over. -/
theorem sqlSum_account (hempty : w.db = .empty) (column : SwapRow → Int)
    (p : Clocked SwapRow Instant → Bool) :
    sqlSum column ((w.performAll cs).db.swaps.cols.filter p) +
        sumWhere p (fun row => column row.cols) (w.swapsOverwritten cs) =
      sumWhere p (fun row => column row.cols) (w.swapsWritten cs) := by
  have hperm := SerialTable.cols_writeAll SwapRow.onConflict_replaces (w.swapsWritten cs)
  rw [← World.swaps_performAll cs hempty] at hperm
  rw [sqlSum_eq, Perm.sumWhere_eq hperm, World.swapsOverwritten, sumWhere_standing]

theorem sqlSum_eq_written_iff (hempty : w.db = .empty) {column : SwapRow → Int}
    (h : Nonnegative column) (p : Clocked SwapRow Instant → Bool) :
    sqlSum column ((w.performAll cs).db.swaps.cols.filter p) =
        sumWhere p (fun row => column row.cols) (w.swapsWritten cs) ↔
      ∀ row ∈ w.swapsOverwritten cs, p row = true → column row.cols = 0 := by
  have haccount := @sqlSum_account cs w hempty column p
  have hnonneg : ∀ row ∈ w.swapsOverwritten cs, 0 ≤ column row.cols :=
    fun row hrow => nonneg_of_written h row (overwritten_subset SwapRow.key hrow)
  rw [← sumWhere_eq_zero_iff hnonneg]
  omega

/-- The total of a column over the swaps of the pair in the period. -/
def total (base58 : Pubkey → String) (pairAddress : String) (hours : Option Nat) (now : Int)
    (column : SwapRow → Int) (rows : List (Clocked SwapRow Instant)) : Int :=
  sumWhere (inPeriod base58 pairAddress hours now) (fun row => column row.cols) rows

/-- The answer and the total of what was written over make up the total of what was written,
and the answer is all of it exactly if what was written over counts for nothing.  If no two
of the swaps written have one key, nothing was written over. -/
def Accounts (w : World) (cs : List UpsertCall) (base58 : Pubkey → String) (pairAddress : String)
    (hours : Option Nat) (now : Int) (column : SwapRow → Int) (answer : Int) : Prop :=
  answer + total base58 pairAddress hours now column (w.swapsOverwritten cs) =
      total base58 pairAddress hours now column (w.swapsWritten cs) ∧
    (answer = total base58 pairAddress hours now column (w.swapsWritten cs) ↔
      ∀ row ∈ w.swapsOverwritten cs, inPeriod base58 pairAddress hours now row = true →
        column row.cols = 0) ∧
    (((w.swapsWritten cs).map SwapRow.key).Nodup →
      answer = total base58 pairAddress hours now column (w.swapsWritten cs))

theorem accounts_sqlSum (hempty : w.db = .empty) {column : SwapRow → Int} (h : Nonnegative column)
    (base58 : Pubkey → String) (pairAddress : String) (hours : Option Nat) (now : Int) :
    Accounts w cs base58 pairAddress hours now column
      (sqlSum column ((w.performAll cs).db.swaps.cols.filter
        (inPeriod base58 pairAddress hours now))) := by
  refine ⟨sqlSum_account hempty column _, sqlSum_eq_written_iff hempty h _, fun hnodup => ?_⟩
  have hnone : w.swapsOverwritten cs = [] := (overwritten_eq_nil_iff SwapRow.key).mpr hnodup
  rw [total, sqlSum_eq_written_iff hempty h, hnone]
  exact fun row hrow => absurd hrow List.not_mem_nil

/-- After any run the fees and the volumes of a pair account for the swaps written, which are
all the swaps of the run's calls if nothing outside the program fails. -/
theorem totals_account (cs : List UpsertCall) (w : World) (hempty : w.db = .empty)
    (base58 : Pubkey → String) (pairAddress : String) (period : Option Nat) (hours : Nat)
    (now : Int) :
    Accounts w cs base58 pairAddress period now SwapRow.feePaid0
        (calculateTotalFeesPaid (w.performAll cs).db base58 pairAddress period
          now).totalFeePaidInToken0 ∧
      Accounts w cs base58 pairAddress period now SwapRow.feePaid1
        (calculateTotalFeesPaid (w.performAll cs).db base58 pairAddress period
          now).totalFeePaidInToken1 ∧
      Accounts w cs base58 pairAddress (some hours) now volumeOfToken0
        (calculateSwapVolume (w.performAll cs).db base58 pairAddress hours now).volume0 ∧
      Accounts w cs base58 pairAddress (some hours) now volumeOfToken1
        (calculateSwapVolume (w.performAll cs).db base58 pairAddress hours now).volume1 ∧
      (w.swapsWritten cs).Sublist (w.swapsOf cs) ∧
      (w.Healthy → w.swapsWritten cs = w.swapsOf cs) := by
  refine ⟨?_, ?_, ?_, ?_, World.swapsWritten_sublist cs w, World.swapsWritten_of_healthy cs⟩
  · exact accounts_sqlSum hempty nonnegative_feePaid0 base58 pairAddress period now
  · exact accounts_sqlSum hempty nonnegative_feePaid1 base58 pairAddress period now
  · exact accounts_sqlSum hempty nonnegative_volumeOfToken0 base58 pairAddress (some hours) now
  · exact accounts_sqlSum hempty nonnegative_volumeOfToken1 base58 pairAddress (some hours) now

end Run

/-- Two swaps of one transaction, in a run where the clock stands still. -/
def twoSwaps : List UpsertCall :=
  [⟨.swap ⟨1000, 2000, true, 10, 19, 9, ⟨.filled 1, .filled 2, 7⟩⟩, "5Vf", 7⟩,
    ⟨.swap ⟨1010, 1981, true, 30, 55, 29, ⟨.filled 1, .filled 2, 7⟩⟩, "5Vf", 7⟩]

def stoppedClock : World := ⟨.empty, fun _ => .healthyAt 1, 0⟩

/-- The text of the one pair of `twoSwaps`. -/
def pairText : String := "8qbHbw2BbbTHBW1sbeqakYXVKRQM8Ne7pLK7m6CVfeR"

theorem totals_account_twoSwaps :
    Accounts stoppedClock twoSwaps (fun _ => pairText) pairText (some 24) 0 volumeOfToken0
      (calculateSwapVolume (stoppedClock.performAll twoSwaps).db (fun _ => pairText) pairText 24
        0).volume0 :=
  (totals_account twoSwaps stoppedClock rfl (fun _ => pairText) pairText none 24 0).2.2.1

example : calculateSwapVolume (stoppedClock.performAll twoSwaps).db (fun _ => pairText) pairText 24
    0 = ⟨30, 55, "24hrs"⟩ := by decide +kernel

end Totals

end DataController

end OmnipairIndexer
