/-
The `swaps` table and its trigger.

Every column is kept as the text that the trigger and the drivers of the scripts
exchange; a `NULL` is missing.  `notify_swap_updated` runs once for each inserted
or updated row.  In which order a statement visits the rows it updates is up to
Postgres, so an update is given that order.
-/
import OmnipairIndexer.Grpc.DbListener

namespace OmnipairIndexer

/-! ## Timestamps -/

def padded (width n : Nat) : String :=
  String.ofList (List.replicate (width - (toString n).length) '0') ++ toString n

/-- Year, month and day of a number of days since 1970. -/
def civilDate (days : Nat) : Nat × Nat × Nat :=
  let shifted := days + 719468
  let era := shifted / 146097
  let dayOfEra := shifted % 146097
  let yearOfEra := (dayOfEra - dayOfEra / 1460 + dayOfEra / 36524 - dayOfEra / 146096) / 365
  let dayOfYear := dayOfEra - (365 * yearOfEra + yearOfEra / 4 - yearOfEra / 100)
  let shiftedMonth := (5 * dayOfYear + 2) / 153
  let day := dayOfYear - (153 * shiftedMonth + 2) / 5 + 1
  let month := if shiftedMonth < 10 then shiftedMonth + 3 else shiftedMonth - 9
  (yearOfEra + era * 400 + (if month ≤ 2 then 1 else 0), month, day)

/-- `to_char` of microseconds since 1970 with the format of the trigger. -/
def timestampText (micros : Nat) : String :=
  let (year, month, day) := civilDate (micros / 86400000000)
  let millis := micros / 1000 % 86400000
  let seconds := millis / 1000
  padded 4 year ++ "-" ++ padded 2 month ++ "-" ++ padded 2 day ++ "T" ++
    padded 2 (seconds / 3600) ++ ":" ++ padded 2 (seconds / 60 % 60) ++ ":" ++
    padded 2 (seconds % 60) ++ "." ++ padded 3 (millis % 1000) ++ "Z"

example : timestampText 1709210096789000 = "2024-02-29T12:34:56.789Z" := by decide +kernel

/-! ## Rows and notifications -/

/-- What a volume is computed from, and the signature it is stored under. -/
structure Trade where
  pair : String
  isToken0In : Bool
  amountIn : String
  amountOut : String
  txSig : String
  deriving DecidableEq

structure SwapColumns extends Trade where
  userAddress : String
  reserve0 : String
  reserve1 : String
  timestamp : Nat
  slot : String
  feePaid0 : String
  feePaid1 : String
  deriving DecidableEq

structure Swap extends SwapColumns where
  id : Nat
  emaPrice : Option String
  volumeUsd : Option String
  deriving DecidableEq

/-- The object that `notify_swap_updated` sends on `swap_updates`. -/
structure SwapPayload extends Trade where
  op : String
  id : String
  userAddress : String
  reserve0 : String
  reserve1 : String
  timestamp : String
  slot : String
  feePaid0 : String
  feePaid1 : String
  emaPrice : String
  volumeUsd : String

def notifySwapUpdated (op : String) (new : Swap) : SwapPayload where
  toTrade := new.toTrade
  op := op
  id := toString new.id
  userAddress := new.userAddress
  reserve0 := new.reserve0
  reserve1 := new.reserve1
  timestamp := timestampText new.timestamp
  slot := new.slot
  feePaid0 := new.feePaid0
  feePaid1 := new.feePaid1
  emaPrice := new.emaPrice.getD ""
  volumeUsd := new.volumeUsd.getD ""

def SwapPayload.parsed (payload : SwapPayload) : DbListener.SwapNotification where
  op := payload.op
  swap :=
    { id := payload.id
      pair := payload.pair
      userAddress := payload.userAddress
      isToken0In := payload.isToken0In
      amountIn := payload.amountIn
      amountOut := payload.amountOut
      reserve0 := payload.reserve0
      reserve1 := payload.reserve1
      timestamp := payload.timestamp
      txSig := payload.txSig
      slot := payload.slot
      feePaid0 := payload.feePaid0
      feePaid1 := payload.feePaid1
      emaPrice := payload.emaPrice
      volumeUsd := payload.volumeUsd }

/-! ## Statements -/

/-- The rows and the next value of the serial `id`. -/
structure SwapTable where
  rows : List Swap
  nextId : Nat
  id_lt : ∀ row ∈ rows, row.id < nextId
  id_nodup : (rows.map Swap.id).Nodup

namespace SwapTable

def empty : SwapTable where
  rows := []
  nextId := 1
  id_lt _ h := nomatch h
  id_nodup := List.nodup_nil

theorem eq_of_id_eq (table : SwapTable) {row row' : Swap} (h : row ∈ table.rows)
    (h' : row' ∈ table.rows) (hid : row.id = row'.id) : row = row' :=
  List.inj_on_of_nodup_map table.id_nodup h h' hid

def rowsOf (table : SwapTable) (txSig : String) : List Swap :=
  table.rows.filter fun row => row.txSig = txSig

def newRow (table : SwapTable) (cols : SwapColumns) : Swap := ⟨cols, table.nextId, none, none⟩

def push (table : SwapTable) (cols : SwapColumns) : SwapTable where
  rows := table.rows ++ [table.newRow cols]
  nextId := table.nextId + 1
  id_lt row hrow := by
    rcases List.mem_append.mp hrow with hrow | hrow
    · exact Nat.lt_succ_of_lt (table.id_lt row hrow)
    · rw [List.mem_singleton.mp hrow]
      exact Nat.lt_succ_self _
  id_nodup := by
    rw [List.map_append, List.nodup_append]
    refine ⟨table.id_nodup, List.nodup_singleton _, fun id hid id' hid' => ?_⟩
    obtain ⟨row, hrow, rfl⟩ := List.mem_map.mp hid
    rw [List.map_singleton, List.mem_singleton] at hid'
    exact hid' ▸ Nat.ne_of_lt (table.id_lt row hrow)

/-- A statement that conflicts on `(tx_sig, timestamp)` updates the old row, so it inserts
nothing. -/
def insert (table : SwapTable) (cols : SwapColumns) : Option (SwapTable × List SwapPayload) :=
  if ∀ row ∈ table.rows, ¬ (row.txSig = cols.txSig ∧ row.timestamp = cols.timestamp) then
    some (table.push cols, [notifySwapUpdated "INSERT" (table.newRow cols)])
  else none

/-- `UPDATE swaps SET volume_usd = $1 WHERE tx_sig = $2`. -/
def setVolume (volumeUsd txSig : String) (row : Swap) : Swap :=
  if row.txSig = txSig then { row with volumeUsd := some volumeUsd } else row

@[simp] theorem setVolume_toSwapColumns (volumeUsd txSig : String) (row : Swap) :
    (setVolume volumeUsd txSig row).toSwapColumns = row.toSwapColumns := by
  unfold setVolume
  split <;> rfl

@[simp] theorem setVolume_id (volumeUsd txSig : String) (row : Swap) :
    (setVolume volumeUsd txSig row).id = row.id := by
  unfold setVolume
  split <;> rfl

def withVolume (table : SwapTable) (volumeUsd txSig : String) : SwapTable where
  rows := table.rows.map (setVolume volumeUsd txSig)
  nextId := table.nextId
  id_lt row hrow := by
    obtain ⟨old, hold, rfl⟩ := List.mem_map.mp hrow
    rw [setVolume_id]
    exact table.id_lt old hold
  id_nodup := by
    rw [List.map_map]
    exact (List.map_congr_left fun row _ => setVolume_id volumeUsd txSig row) ▸ table.id_nodup

/-- The update, visiting the rows in a given order. -/
def update (table : SwapTable) (volumeUsd txSig : String) (order : List Swap) :
    Option (SwapTable × List SwapPayload) :=
  let updated := table.withVolume volumeUsd txSig
  if order.Perm (updated.rowsOf txSig) then
    some (updated, order.map (notifySwapUpdated "UPDATE"))
  else none

variable {table : SwapTable} {volumeUsd txSig : String}

theorem setVolume_of_eq {row : Swap} (h : row.txSig = txSig) :
    (setVolume volumeUsd txSig row).volumeUsd = some volumeUsd := by
  rw [setVolume, if_pos h]

theorem setVolume_of_ne {row : Swap} (h : row.txSig ≠ txSig) :
    setVolume volumeUsd txSig row = row :=
  if_neg h

theorem mem_withVolume {row : Swap} :
    row ∈ (table.withVolume volumeUsd txSig).rows ↔
      ∃ old ∈ table.rows, setVolume volumeUsd txSig old = row :=
  List.mem_map

theorem rowsOf_withVolume (sig : String) :
    (table.withVolume volumeUsd txSig).rowsOf sig =
      (table.rowsOf sig).map (setVolume volumeUsd txSig) := by
  rw [rowsOf, rowsOf, withVolume, List.filter_map]
  congr 1
  exact List.filter_congr fun row _ => by simp

end SwapTable

theorem toString_injective : Function.Injective (toString : Nat → String) :=
  Function.LeftInverse.injective (g := fun text => Nat.ofDigitChars 10 text.toList 0) fun n => by
    simp [Nat.toString_eq_repr, Nat.toList_repr]

end OmnipairIndexer
