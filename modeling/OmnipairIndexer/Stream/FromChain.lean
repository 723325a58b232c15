/-
From the chain to the stream.

The transactions of the chain reach the `swaps` table through the indexer, the scripts
update the table, and its trigger tells the listener.  `Deployment` runs all of them side
by side: the indexer takes one update after the other and runs the calls of an update one
by one, up to the first that fails, and between any two of these the others go on.  Pools,
which the scripts only read, may appear at any time.

The results about the indexer know the table by its rows and those about the stream by its
text.  `streamed_as_reported` ties them together: it is one table, every message of the
stream shows a swap that a transaction of its signature reports, and a transaction whose
swap is stored does not stay without a message.
-/
import OmnipairIndexer.Indexer.Reported
import OmnipairIndexer.Indexer.Written
import OmnipairIndexer.Grpc.Messages
import OmnipairIndexer.Stream.Hold
import OmnipairIndexer.Stream.Knowledge

namespace OmnipairIndexer

open Transition Relational Fallible IndexedTransaction ReportedUpdate

/-! ## One table -/

/-- A row as the trigger and the drivers of the scripts see it. -/
def SwapRow.columns (base58 : Pubkey → String) (row : Clocked SwapRow Instant) : SwapColumns where
  pair := base58 row.cols.pair
  isToken0In := row.cols.isToken0In
  amountIn := toString row.cols.amountIn
  amountOut := toString row.cols.amountOut
  txSig := row.cols.txSig
  userAddress := base58 row.cols.userAddress
  reserve0 := toString row.cols.reserve0
  reserve1 := toString row.cols.reserve1
  timestamp := row.clock.toNat
  slot := toString row.cols.slot
  feePaid0 := toString row.cols.feePaid0
  feePaid1 := toString row.cols.feePaid1

/-- The two columns of the unique constraint. -/
def SwapColumns.key (cols : SwapColumns) : String × Nat := (cols.txSig, cols.timestamp)

/-- From 1970 on, rows are of one key exactly if their texts are. -/
theorem SwapRow.key_columns_iff (base58 : Pubkey → String) {a b : Clocked SwapRow Instant}
    (ha : 0 ≤ a.clock) (hb : 0 ≤ b.clock) :
    (columns base58 a).key = (columns base58 b).key ↔ SwapRow.key a = SwapRow.key b := by
  simp only [SwapColumns.key, columns, SwapRow.key, Prod.mk.injEq]
  refine and_congr_right fun _ => ⟨fun h => ?_, congrArg Int.toNat⟩
  rw [← Int.toNat_of_nonneg ha, h, Int.toNat_of_nonneg hb]

namespace SwapTable

variable {table : SwapTable} {cols : SwapColumns}

/-- The columns that the indexer writes. -/
def columns (table : SwapTable) : List SwapColumns := table.rows.map Swap.toSwapColumns

theorem conflicts_iff {row : Swap} : Conflicts cols row ↔ row.toSwapColumns.key = cols.key := by
  simp only [Conflicts, SwapColumns.key, Prod.mk.injEq]

theorem exists_conflicts_iff :
    (∃ row ∈ table.rows, Conflicts cols row) ↔ cols.key ∈ table.columns.map SwapColumns.key := by
  simp only [conflicts_iff, columns, List.map_map, List.mem_map, Function.comp_apply]

theorem columns_mapRows {f : Swap → Swap} (hf : ∀ row, (f row).id = row.id)
    (hcols : ∀ row, (f row).toSwapColumns = row.toSwapColumns) :
    (table.mapRows f hf).columns = table.columns := by
  rw [columns, mapRows, List.map_map]
  exact List.map_congr_left fun row _ => hcols row

@[simp] theorem columns_withVolume (volumeUsd txSig : String) :
    (table.withVolume volumeUsd txSig).columns = table.columns := by
  rw [columns, withVolume, List.map_map]
  exact List.map_congr_left fun row _ => setVolume_toSwapColumns volumeUsd txSig row

@[simp] theorem setEmaPrice_toSwapColumns (id : Nat) (emaPrice : String) (row : Swap) :
    (setEmaPrice id emaPrice row).toSwapColumns = row.toSwapColumns := by
  unfold setEmaPrice
  split <;> rfl

@[simp] theorem columns_withEmaPrice (id : Nat) (emaPrice : String) :
    (table.withEmaPrice id emaPrice).columns = table.columns :=
  columns_mapRows _ (setEmaPrice_toSwapColumns id emaPrice)

/-- The script for the prices leaves the columns, and updates rows that show some of them. -/
theorem columns_updateEmaBatch (updates : List (Nat × String)) :
    (table.updateEmaBatch updates).1.columns = table.columns ∧
      ∀ row ∈ (table.updateEmaBatch updates).2, row.toSwapColumns ∈ table.columns := by
  induction updates generalizing table with
  | nil => exact ⟨rfl, fun row hrow => absurd hrow List.not_mem_nil⟩
  | cons update updates ih =>
    obtain ⟨id, emaPrice⟩ := update
    obtain ⟨hcolumns, hrows⟩ := @ih (table.withEmaPrice id emaPrice)
    rw [columns_withEmaPrice] at hcolumns hrows
    refine ⟨hcolumns, fun row hrow => ?_⟩
    obtain hrow | hrow := List.mem_append.mp hrow
    · rw [← columns_withEmaPrice id emaPrice]
      exact List.mem_map_of_mem (List.mem_filter.mp hrow).1
    · exact hrows row hrow

theorem columns_push : (table.push cols).columns = table.columns ++ [cols] := by
  rw [columns, push, List.map_append]
  rfl

theorem setColumns_toSwapColumns (row : Swap) :
    (setColumns cols row).toSwapColumns =
      if row.toSwapColumns.key = cols.key then cols else row.toSwapColumns := by
  unfold setColumns
  by_cases h : Conflicts cols row
  · rw [if_pos h, if_pos (conflicts_iff.mp h)]
  · rw [if_neg h, if_neg (mt conflicts_iff.mpr h)]

theorem columns_withColumns :
    (table.withColumns cols).columns =
      table.columns.map fun old => if old.key = cols.key then cols else old := by
  rw [columns, withColumns, mapRows, List.map_map, columns, List.map_map]
  exact List.map_congr_left fun row _ => setColumns_toSwapColumns row

end SwapTable

/-- What the statement of `upsert_swap_event` does to the text of the table. -/
theorem SwapRow.columns_upsert (base58 : Pubkey → String) {t : SerialTable SwapRow.key}
    {row : Clocked SwapRow Instant} (ht : ∀ old ∈ t.cols, 0 ≤ old.clock) (hrow : 0 ≤ row.clock) :
    (t.upsert SwapRow.onConflict row).cols.map (columns base58) =
      if (columns base58 row).key ∈ (t.cols.map (columns base58)).map SwapColumns.key then
        (t.cols.map (columns base58)).map fun old =>
          if old.key = (columns base58 row).key then columns base58 row else old
      else t.cols.map (columns base58) ++ [columns base58 row] := by
  have hkey : ∀ old ∈ t.cols, (columns base58 old).key = (columns base58 row).key ↔
      SwapRow.key old = SwapRow.key row := fun old hold => key_columns_iff base58 (ht old hold) hrow
  have hmem : (columns base58 row).key ∈ (t.cols.map (columns base58)).map SwapColumns.key ↔
      SwapRow.key row ∈ t.cols.map SwapRow.key := by
    simp only [List.map_map, List.mem_map, Function.comp_apply]
    exact exists_congr fun old => and_congr_right fun hold => hkey old hold
  rw [SerialTable.cols_upsert SwapRow.onConflict_replaces]
  by_cases h : SwapRow.key row ∈ t.cols.map SwapRow.key
  · rw [if_pos h, if_pos (hmem.mpr h), List.map_map, List.map_map]
    apply List.map_congr_left
    intro old hold
    simp only [Function.comp_apply, hkey old hold]
    split <;> rfl
  · rw [if_neg h, if_neg (mt hmem.mp h), List.map_append, List.map_singleton]

/-! ## Messages -/

namespace DbListener

/-- The message has the columns. -/
structure SwapsUpdate.Shows (message : SwapsUpdate) (cols : SwapColumns) : Prop where
  pair : message.pair = cols.pair
  userAddress : message.userAddress = cols.userAddress
  isToken0In : message.isToken0In = cols.isToken0In
  amountIn : message.amountIn = cols.amountIn
  amountOut : message.amountOut = cols.amountOut
  reserve0 : message.reserve0 = cols.reserve0
  reserve1 : message.reserve1 = cols.reserve1
  timestamp : message.timestamp = timestampText cols.timestamp
  txSig : message.txSig = cols.txSig
  slot : message.slot = cols.slot
  feePaid0 : message.feePaid0 = cols.feePaid0
  feePaid1 : message.feePaid1 = cols.feePaid1

theorem SwapsUpdate.Shows.withPrice {message : SwapsUpdate} {cols : SwapColumns}
    (h : message.Shows cols) : message.withPrice.Shows cols := by
  obtain ⟨⟩ := h
  constructor <;> assumption

theorem shows_notification (op : String) (row : Swap) :
    (notifySwapUpdated op row).parsed.swap.Shows row.toSwapColumns := by
  constructor <;> rfl

end DbListener

namespace Stream

/-! ## What the stream was told -/

variable {N : Type}

/-- All that is in the table, in the queue of the listener and with the listener shows swaps
that are `Reported`, and of every transaction in the table the listener has been told or will
be. -/
structure Told (Reported : SwapColumns → Prop) (s : System N) : Prop where
  table : ∀ cols ∈ s.table.columns, Reported cols
  queue : ∀ payload ∈ s.listenerQueue, ∃ cols, Reported cols ∧ payload.parsed.swap.Shows cols
  sound : s.listener.Sound
  has : ∀ message, s.listener.Has message → ∃ cols, Reported cols ∧ message.Shows cols
  tells : ∀ cols ∈ s.table.columns, s.listener.Tells cols.txSig ∨
    ∃ payload ∈ s.listenerQueue, payload.txSig = cols.txSig

namespace Told

variable {Reported : SwapColumns → Prop} {s t : System N}

theorem start (pools : String → Option PoolInfo) :
    Told Reported (System.start pools : System N) where
  table _ h := absurd h List.not_mem_nil
  queue _ h := absurd h List.not_mem_nil
  sound := DbListener.start_sound
  has message h := by
    obtain h | ⟨_, _, h⟩ := h
    · exact absurd h List.not_mem_nil
    · cases h
  tells _ h := absurd h List.not_mem_nil

/-- The table changes, and the trigger reports rows of it.  What is new in it is reported. -/
theorem enqueue (h : Told Reported s) {payloads : List SwapPayload}
    (hlistener : t.listener = s.listener)
    (hqueue : t.listenerQueue = s.listenerQueue ++ payloads)
    (htable : ∀ cols ∈ t.table.columns, Reported cols)
    (hpayloads : ∀ payload ∈ payloads, ∃ op row, payload = notifySwapUpdated op row ∧
      row.toSwapColumns ∈ t.table.columns)
    (hnew : ∀ cols ∈ t.table.columns, cols ∈ s.table.columns ∨
      ∃ payload ∈ payloads, payload.txSig = cols.txSig) : Told Reported t where
  table := htable
  queue payload hpayload := by
    rw [hqueue] at hpayload
    obtain hpayload | hpayload := List.mem_append.mp hpayload
    · exact h.queue payload hpayload
    · obtain ⟨op, row, rfl, hrow⟩ := hpayloads payload hpayload
      exact ⟨row.toSwapColumns, htable _ hrow, DbListener.shows_notification op row⟩
  sound := hlistener ▸ h.sound
  has := hlistener ▸ h.has
  tells cols hcols := by
    rw [hlistener, hqueue]
    obtain hold | ⟨payload, hpayload, hsig⟩ := hnew cols hcols
    · refine (h.tells cols hold).imp_right fun hqueued => ?_
      obtain ⟨payload, hpayload, hsig⟩ := hqueued
      exact ⟨payload, List.mem_append_left _ hpayload, hsig⟩
    · exact .inr ⟨payload, List.mem_append_right _ hpayload, hsig⟩

/-- Updates of rows whose columns stay. -/
theorem update (h : Told Reported s) {rows : List Swap} (hlistener : t.listener = s.listener)
    (hqueue : t.listenerQueue = s.listenerQueue ++ rows.map (notifySwapUpdated "UPDATE"))
    (hcolumns : t.table.columns = s.table.columns)
    (hrows : ∀ row ∈ rows, row.toSwapColumns ∈ s.table.columns) : Told Reported t := by
  refine h.enqueue hlistener hqueue ?_ ?_ ?_
  · rw [hcolumns]
    exact h.table
  · intro payload hpayload
    obtain ⟨row, hrow, rfl⟩ := List.mem_map.mp hpayload
    exact ⟨"UPDATE", row, rfl, hcolumns ▸ hrows row hrow⟩
  · rw [hcolumns]
    exact fun cols hcols => .inl hcols

/-- A step that sends no notification and changes no columns. -/
theorem silent (h : Told Reported s) (hlistener : t.listener = s.listener)
    (hqueue : t.listenerQueue = s.listenerQueue) (htable : t.table = s.table) :
    Told Reported t := by
  have hnone : t.listenerQueue = s.listenerQueue ++ [].map (notifySwapUpdated "UPDATE") := by
    rw [hqueue, List.map_nil, List.append_nil]
  exact h.update hlistener hnone (congrArg _ htable) fun _ hrow => absurd hrow List.not_mem_nil

/-- The update of one of the scripts, if it makes one. -/
theorem execute (h : Told Reported s) {update : Option VolumeUpdate}
    (hexec : execute s update = some t) : Told Reported t := by
  cases update with
  | none =>
    cases hexec
    exact h
  | some u =>
    obtain ⟨horder, rfl⟩ := execute_some hexec
    refine h.update rfl rfl (SwapTable.columns_withVolume _ _) fun row hrow => ?_
    obtain ⟨hmem, -⟩ := List.mem_filter.mp (horder.mem_iff.mp hrow)
    rw [← SwapTable.columns_withVolume u.volumeUsd u.txSig]
    exact List.mem_map_of_mem hmem

theorem insertSwap (h : Told Reported s) {cols : SwapColumns} (hcols : Reported cols) :
    Told Reported (notify [notifySwapUpdated "INSERT" (s.table.newRow cols)]
      { s with table := s.table.push cols }) := by
  have hcolumns : (s.table.push cols).columns = s.table.columns ++ [cols] := SwapTable.columns_push
  refine h.enqueue rfl rfl ?_ ?_ ?_ <;> dsimp only [notify] <;> rw [hcolumns]
  · intro other hother
    obtain hother | hother := List.mem_append.mp hother
    · exact h.table other hother
    · rwa [List.mem_singleton.mp hother]
  · intro payload hpayload
    exact ⟨"INSERT", s.table.newRow cols, List.mem_singleton.mp hpayload,
      List.mem_append_right _ (List.mem_singleton_self cols)⟩
  · intro other hother
    obtain hother | hother := List.mem_append.mp hother
    · exact .inl hother
    · rw [List.mem_singleton.mp hother]
      exact .inr ⟨_, List.mem_singleton_self _, rfl⟩

/-- An insert that conflicts tells of the row that it updates. -/
theorem repeatInsert (h : Told Reported s) {cols : SwapColumns} (hcols : Reported cols)
    (hconflict : ∃ row ∈ s.table.rows, SwapTable.Conflicts cols row)
    (hlistener : t.listener = s.listener) (htable : t.table = s.table.withColumns cols)
    (hqueue : t.listenerQueue = s.listenerQueue ++ (((s.table.withColumns cols).rows.filter
      fun row => SwapTable.Conflicts cols row).map (notifySwapUpdated "UPDATE"))) :
    Told Reported t := by
  have hset : ∀ old ∈ t.table.columns, old = cols ∨ old ∈ s.table.columns := by
    rw [htable, SwapTable.columns_withColumns]
    intro other hother
    obtain ⟨old, hold, rfl⟩ := List.mem_map.mp hother
    split
    · exact .inl rfl
    · exact .inr hold
  refine h.enqueue hlistener hqueue ?_ ?_ ?_
  · intro other hother
    obtain rfl | hold := hset other hother
    · exact hcols
    · exact h.table other hold
  · intro payload hpayload
    obtain ⟨row, hrow, rfl⟩ := List.mem_map.mp hpayload
    exact ⟨"UPDATE", row, rfl, htable ▸ List.mem_map_of_mem (List.mem_filter.mp hrow).1⟩
  · intro other hother
    obtain rfl | hold := hset other hother
    · obtain ⟨row, hrow, hkey⟩ := hconflict
      have hupdated : SwapTable.setColumns other row ∈
          (s.table.withColumns other).rows.filter fun row => SwapTable.Conflicts other row := by
        refine List.mem_filter.mpr ⟨List.mem_map_of_mem hrow, decide_eq_true ?_⟩
        rw [SwapTable.setColumns, if_pos hkey]
        exact ⟨rfl, rfl⟩
      refine .inr ⟨_, List.mem_map_of_mem hupdated, ?_⟩
      rw [SwapTable.setColumns, if_pos hkey]
      rfl
    · exact .inl hold

/-- A notification that the listener handles. -/
theorem notification (h : Told Reported s) {dedupTimeout now : Nat} {payload : SwapPayload}
    {queue : List SwapPayload} {listener : DbListener.State}
    (hqueue : s.listenerQueue = payload :: queue)
    (hstep : DbListener.step dedupTimeout s.listener (.notification now payload.parsed) =
      some listener) :
    Told Reported { s with listenerQueue := queue, listener := listener } where
  table := h.table
  queue other hother := h.queue other (hqueue ▸ List.mem_cons_of_mem _ hother)
  sound := h.sound.step hstep
  has message hmessage := by
    obtain hold | ⟨_, notif, haction, rfl⟩ :=
      DbListener.has_of_step h.sound.keyed hstep hmessage
    · exact h.has message hold
    · cases haction
      obtain ⟨cols, hcols, hshows⟩ := h.queue payload (hqueue ▸ List.mem_cons_self)
      exact ⟨cols, hcols, hshows.withPrice⟩
  tells cols hcols := by
    have hkeep : _ → listener.Tells cols.txSig := DbListener.tells_of_step h.sound.keyed hstep
    obtain htold | ⟨other, hother, hsig⟩ := h.tells cols hcols
    · exact .inl (hkeep (.inl htold))
    · rw [hqueue] at hother
      obtain rfl | hlater := List.mem_cons.mp hother
      · exact .inl (hkeep (.inr ⟨now, other.parsed, rfl, hsig⟩))
      · exact .inr ⟨other, hlater, hsig⟩

theorem tick (h : Told Reported s) {dedupTimeout now : Nat} {timedOut : List String}
    {listener : DbListener.State}
    (hstep : DbListener.step dedupTimeout s.listener (.tick now timedOut) = some listener) :
    Told Reported { s with listener := listener } where
  table := h.table
  queue := h.queue
  sound := h.sound.step hstep
  has message hmessage := by
    obtain hold | ⟨_, notif, haction, rfl⟩ :=
      DbListener.has_of_step h.sound.keyed hstep hmessage
    · exact h.has message hold
    · cases haction
  tells cols hcols := (h.tells cols hcols).imp_left fun htold =>
    DbListener.tells_of_step h.sound.keyed hstep (.inl htold)

end Told

/-! ## The table by its rows and by its text -/

/-- The two tables have the same columns, from 1970 on. -/
structure OneTable (base58 : Pubkey → String) (swaps : SerialTable SwapRow.key)
    (table : SwapTable) : Prop where
  clock : ∀ row ∈ swaps.cols, 0 ≤ row.clock
  columns : table.columns = swaps.cols.map (SwapRow.columns base58)

namespace OneTable

variable {base58 : Pubkey → String} {swaps : SerialTable SwapRow.key} {table : SwapTable}
  {row : Clocked SwapRow Instant}

theorem clock_upsert (h : OneTable base58 swaps table) (hrow : 0 ≤ row.clock) :
    ∀ other ∈ (swaps.upsert SwapRow.onConflict row).cols, 0 ≤ other.clock := by
  intro other hother
  rw [SerialTable.cols_upsert SwapRow.onConflict_replaces] at hother
  split at hother
  · obtain ⟨old, hold, rfl⟩ := List.mem_map.mp hother
    split
    · exact hrow
    · exact h.clock old hold
  · obtain hold | hnew := List.mem_append.mp hother
    · exact h.clock other hold
    · rwa [List.mem_singleton.mp hnew]

theorem push (h : OneTable base58 swaps table) (hrow : 0 ≤ row.clock)
    (hnone : ¬ ∃ old ∈ table.rows, SwapTable.Conflicts (SwapRow.columns base58 row) old) :
    OneTable base58 (swaps.upsert SwapRow.onConflict row)
      (table.push (SwapRow.columns base58 row)) where
  clock := h.clock_upsert hrow
  columns := by
    rw [SwapTable.exists_conflicts_iff, h.columns] at hnone
    rw [SwapRow.columns_upsert base58 h.clock hrow, if_neg hnone, SwapTable.columns_push, h.columns]

theorem withColumns (h : OneTable base58 swaps table) (hrow : 0 ≤ row.clock)
    (hconflict : ∃ old ∈ table.rows, SwapTable.Conflicts (SwapRow.columns base58 row) old) :
    OneTable base58 (swaps.upsert SwapRow.onConflict row)
      (table.withColumns (SwapRow.columns base58 row)) where
  clock := h.clock_upsert hrow
  columns := by
    rw [SwapTable.exists_conflicts_iff, h.columns] at hconflict
    rw [SwapRow.columns_upsert base58 h.clock hrow, if_pos hconflict,
      SwapTable.columns_withColumns, h.columns]

end OneTable

/-! ## The deployment -/

/-- The indexer with its database, and the programs around the table of swaps. -/
structure Deployment (N : Type) where
  /-- The updates that the indexer has not begun. -/
  feed : List ReportedUpdate
  /-- The calls of the update that it processes. -/
  calls : List UpsertCall
  world : World
  writers : WriterSystem N

inductive DeploymentAction (N : Type) where
  /-- The indexer takes the next update. -/
  | begin
  /-- It makes the next call. -/
  | call
  /-- A step of the scripts or of the listener. -/
  | writer (action : WriterAction N)

/-- Swaps are inserted by the indexer. -/
def WriterAction.ofIndexer : WriterAction N → Bool
  | .stream (.insertSwap _) | .repeatInsert _ => true
  | _ => false

namespace Deployment

def start (feed : List ReportedUpdate) (w : World) (pools : String → Option PoolInfo) :
    Deployment N := ⟨feed, [], w, .start pools⟩

variable [JsNumber N]

/-- The statement of `upsert_swap_event`, as the trigger sees it. -/
def insert (settings : Settings) (s : WriterSystem N) (cols : SwapColumns) :
    Option (WriterSystem N) :=
  if ∃ row ∈ s.stream.table.rows, SwapTable.Conflicts cols row then
    s.step settings (.repeatInsert cols)
  else s.step settings (.stream (.insertSwap cols))

def step (base58 : Pubkey → String) (settings : Settings) (d : Deployment N) :
    DeploymentAction N → Option (Deployment N)
  | .begin =>
    match d.calls, d.feed with
    | [], u :: feed => some { d with feed := feed, calls := u.transaction.calls }
    | _, _ => none
  | .call =>
    match d.calls with
    | [] => none
    | c :: calls =>
      let (result, world) := World.perform c d.world
      -- The first error ends the update.
      let calls := if result.isOk then calls else []
      ((d.world.swapsWritten [c]).foldlM
          (fun s row => insert settings s (SwapRow.columns base58 row)) d.writers).map
        fun writers => { d with calls := calls, world := world, writers := writers }
  | .writer action =>
    if action.ofIndexer then none
    else (d.writers.step settings action).map fun writers => { d with writers := writers }

/-! ## What a step of the deployment keeps -/

variable {settings : Settings} {s t : WriterSystem N} {Reported : SwapColumns → Prop}

omit [JsNumber N] in
theorem columns_execute {s t : System N} {update : Option VolumeUpdate}
    (hexec : execute s update = some t) : t.table.columns = s.table.columns := by
  cases update with
  | none =>
    cases hexec
    rfl
  | some u =>
    obtain ⟨-, rfl⟩ := execute_some hexec
    exact SwapTable.columns_withVolume _ _

/-- The scripts and the listener leave the columns, and tell of swaps of the table only. -/
theorem told_of_stream {s t : System N} {action : Action N} (h : Told Reported s)
    (hno : WriterAction.ofIndexer (.stream action) = false)
    (hstep : Stream.step settings s action = some t) :
    Told Reported t ∧ t.table.columns = s.table.columns := by
  cases action with
  | insertSwap cols => cases hno
  | insertPool pair poolInfo =>
    obtain ⟨-, rfl⟩ := step_insertPool hstep
    exact ⟨h.silent rfl rfl rfl, rfl⟩
  | enricher act =>
    obtain ⟨enricher, update, -, hexec⟩ := step_enricher hstep
    have hsame : Told Reported { s with enricher := enricher } := h.silent rfl rfl rfl
    have hcolumns := columns_execute hexec
    exact ⟨hsame.execute hexec, hcolumns⟩
  | startBackfill pairFilter maxLimit batchSize =>
    obtain rfl := step_startBackfill hstep
    exact ⟨h.silent rfl rfl rfl, rfl⟩
  | backfill act =>
    obtain ⟨old, backfill, update, -, -, hexec⟩ := step_backfill hstep
    have hsame : Told Reported { s with backfill := some backfill } := h.silent rfl rfl rfl
    have hcolumns := columns_execute hexec
    exact ⟨hsame.execute hexec, hcolumns⟩
  | notification now =>
    simp only [Stream.step] at hstep
    split at hstep
    · rename_i payload queue hqueue
      obtain ⟨listener, hlistener, rfl⟩ := Option.map_eq_some_iff.mp hstep
      exact ⟨h.notification hqueue hlistener, rfl⟩
    · cases hstep
  | tick now timedOut =>
    obtain ⟨listener, hlistener, rfl⟩ := Option.map_eq_some_iff.mp hstep
    exact ⟨h.tick hlistener, rfl⟩

theorem told_of_writer {action : WriterAction N} (h : Told Reported s.stream)
    (hno : action.ofIndexer = false) (hstep : s.step settings action = some t) :
    Told Reported t.stream ∧ t.stream.table.columns = s.stream.table.columns := by
  cases action with
  | stream action =>
    obtain ⟨u, hu, rfl⟩ := Option.map_eq_some_iff.mp hstep
    exact told_of_stream h hno hu
  | repeatInsert cols => cases hno
  | updateEmaBatch updates =>
    obtain rfl := Option.some.inj hstep
    obtain ⟨hcolumns, hrows⟩ := @SwapTable.columns_updateEmaBatch s.stream.table updates
    exact ⟨h.update rfl rfl hcolumns hrows, hcolumns⟩

/-- The swap is in both tables, and it will be told of. -/
theorem told_of_insert {base58 : Pubkey → String} {swaps : SerialTable SwapRow.key}
    {row : Clocked SwapRow Instant} (hone : OneTable base58 swaps s.stream.table)
    (h : Told Reported s.stream) (hrow : 0 ≤ row.clock)
    (hreported : Reported (SwapRow.columns base58 row))
    (hstep : insert settings s (SwapRow.columns base58 row) = some t) :
    OneTable base58 (swaps.upsert SwapRow.onConflict row) t.stream.table ∧
      Told Reported t.stream := by
  unfold insert at hstep
  split at hstep
  · rename_i hconflict
    rw [WriterSystem.step, if_pos hconflict] at hstep
    obtain rfl := Option.some.inj hstep
    exact ⟨hone.withColumns hrow hconflict, h.repeatInsert hreported hconflict rfl rfl rfl⟩
  · rename_i hnone
    obtain ⟨u, hu, rfl⟩ := Option.map_eq_some_iff.mp hstep
    obtain rfl := step_insertSwap hu
    exact ⟨hone.push hrow hnone, h.insertSwap hreported⟩

theorem told_of_inserts {base58 : Pubkey → String} {rows : List (Clocked SwapRow Instant)}
    {swaps : SerialTable SwapRow.key} (hone : OneTable base58 swaps s.stream.table)
    (h : Told Reported s.stream)
    (hrows : ∀ row ∈ rows, 0 ≤ row.clock ∧ Reported (SwapRow.columns base58 row))
    (hfold : rows.foldlM (fun s row => insert settings s (SwapRow.columns base58 row)) s =
      some t) :
    OneTable base58 (swaps.writeAll SwapRow.onConflict rows) t.stream.table ∧
      Told Reported t.stream := by
  induction rows generalizing s swaps with
  | nil =>
    obtain rfl := Option.some.inj hfold
    exact ⟨hone, h⟩
  | cons row rows ih =>
    obtain ⟨u, hu, hfold⟩ := Option.bind_eq_some_iff.mp hfold
    obtain ⟨hrow, hrows⟩ := List.forall_mem_cons.mp hrows
    obtain ⟨hone', h'⟩ := told_of_insert hone h hrow.1 hrow.2 hu
    exact ih hone' h' hrows hfold

/-! ## Runs of the deployment -/

/-- The columns of a swap that an update of the feed reports, at an instant that the indexer
reads from its clock. -/
def IsReported (base58 : Pubkey → String) (feed : List ReportedUpdate) (w : World)
    (cols : SwapColumns) : Prop :=
  ∃ u ∈ feed, ∃ event, PersistedEvent.swap event ∈ u.events ∧ ∃ i,
    cols = SwapRow.columns base58
      ⟨event.row u.update.signature u.update.slot.toInt64, (w.env i).eventTimestamp⟩

/-- The indexer is somewhere in its feed, and its swaps are those of the stream. -/
structure Sound (base58 : Pubkey → String) (feed : List ReportedUpdate) (w : World)
    (d : Deployment N) : Prop where
  env : d.world.env = w.env
  rest : deliverAll (feed.map transaction) w =
    deliverAll (d.feed.map transaction) (each World.perform d.calls d.world).2
  ahead : ∀ u ∈ d.feed, u ∈ feed
  calls : ∀ c ∈ d.calls, ∃ u ∈ feed, c ∈ u.transaction.calls
  oneTable : OneTable base58 d.world.db.swaps d.writers.stream.table
  told : Told (IsReported base58 feed w) d.writers.stream

section Sound

variable {base58 : Pubkey → String} {feed : List ReportedUpdate} {w : World} {d e : Deployment N}

omit [JsNumber N] in
theorem start_sound (hempty : w.db.swaps = .empty) (pools : String → Option PoolInfo) :
    (start feed w pools : Deployment N).Sound base58 feed w where
  env := rfl
  rest := rfl
  ahead _ h := h
  calls _ h := absurd h List.not_mem_nil
  oneTable := by
    refine ⟨fun row hrow => ?_, ?_⟩
    · rw [show (start feed w pools : Deployment N).world.db.swaps = .empty from hempty] at hrow
      exact absurd hrow List.not_mem_nil
    · rw [show (start feed w pools : Deployment N).world.db.swaps = .empty from hempty]
      rfl
  told := .start pools

theorem swaps_perform (c : UpsertCall) (w : World) :
    (World.perform c w).2.db.swaps =
      w.db.swaps.writeAll SwapRow.onConflict (w.swapsWritten [c]) := by
  rw [World.db_perform, swaps_applyStamped, World.swapsWritten, World.written, World.written,
    List.append_nil]

/-- What a call writes to the table of swaps is the swap that it was made for. -/
theorem isReported_of_written {c : UpsertCall} {v : World} (henv : v.env = w.env)
    (hc : ∃ u ∈ feed, c ∈ u.transaction.calls) :
    ∀ row ∈ v.swapsWritten [c], (∃ i, row.clock = (w.env i).eventTimestamp) ∧
      IsReported base58 feed w (SwapRow.columns base58 row) := by
  intro row hrow
  have hmem : row ∈ v.swapsOf [c] := (World.swapsWritten_sublist [c] v).subset hrow
  obtain hmem | hmem := List.mem_append.mp hmem
  · obtain ⟨u, hu, hc⟩ := hc
    obtain ⟨event, hevent, rfl⟩ := List.mem_map.mp hc
    cases event with
    | swap event =>
      obtain rfl := List.mem_singleton.mp hmem
      rw [henv]
      exact ⟨⟨v.calls, rfl⟩, u, hu, event, hevent, v.calls, rfl⟩
    | _ => cases hmem
  · cases hmem

theorem Sound.begin (h : d.Sound base58 feed w) (hstep : step base58 settings d .begin = some e) :
    e.Sound base58 feed w := by
  simp only [step] at hstep
  split at hstep
  · rename_i u rest hcalls hfeed
    obtain rfl := Option.some.inj hstep
    have hu : u ∈ feed := h.ahead u (hfeed ▸ List.mem_cons_self)
    refine ⟨h.env, ?_, fun v hv => h.ahead v (hfeed ▸ List.mem_cons_of_mem _ hv),
      fun c hc => ⟨u, hu, hc⟩, h.oneTable, h.told⟩
    rw [h.rest, hcalls, hfeed]
    rfl
  · cases hstep

theorem Sound.call (hclock : ∀ i, 0 ≤ (w.env i).eventTimestamp) (h : d.Sound base58 feed w)
    (hstep : step base58 settings d .call = some e) : e.Sound base58 feed w := by
  simp only [step] at hstep
  split at hstep
  · cases hstep
  · rename_i c calls hcalls
    obtain ⟨writers, hwriters, rfl⟩ := Option.map_eq_some_iff.mp hstep
    obtain ⟨hc, hrest⟩ := List.forall_mem_cons.mp (hcalls ▸ h.calls)
    have hrows : ∀ row ∈ d.world.swapsWritten [c], 0 ≤ row.clock ∧
        IsReported base58 feed w (SwapRow.columns base58 row) := by
      intro row hrow
      obtain ⟨⟨i, hi⟩, hreported⟩ := isReported_of_written h.env hc row hrow
      exact ⟨hi ▸ hclock i, hreported⟩
    obtain ⟨hone, htold⟩ := told_of_inserts h.oneTable h.told hrows hwriters
    rw [← swaps_perform] at hone
    refine ⟨h.env, ?_, h.ahead, fun d hd => ?_, hone, htold⟩
    · rw [h.rest, hcalls, each_cons, andThen]
      cases hresult : World.perform c d.world with
      | mk result world => cases result <;> rfl
    · dsimp only at hd
      split at hd
      · exact hrest d hd
      · exact absurd hd List.not_mem_nil
  
theorem Sound.step (hclock : ∀ i, 0 ≤ (w.env i).eventTimestamp) {action : DeploymentAction N}
    (h : d.Sound base58 feed w) (hstep : step base58 settings d action = some e) :
    e.Sound base58 feed w := by
  cases action with
  | begin => exact h.begin hstep
  | call => exact h.call hclock hstep
  | writer action =>
    simp only [Deployment.step] at hstep
    split at hstep
    · cases hstep
    · rename_i hno
      obtain ⟨writers, hwriters, rfl⟩ := Option.map_eq_some_iff.mp hstep
      obtain ⟨htold, hcolumns⟩ := told_of_writer h.told (Bool.not_eq_true _ ▸ hno) hwriters
      exact ⟨h.env, h.rest, h.ahead, h.calls, ⟨h.oneTable.clock, hcolumns.trans h.oneTable.columns⟩,
        htold⟩

theorem sound_of_run (hempty : w.db.swaps = .empty) (hclock : ∀ i, 0 ≤ (w.env i).eventTimestamp)
    (pools : String → Option PoolInfo) {actions : List (DeploymentAction N)}
    (hrun : run (Deployment.step base58 settings) (start feed w pools) actions = some d) :
    d.Sound base58 feed w :=
  run_preserves (fun _ _ _ h hstep => h.step hclock hstep) (start_sound hempty pools) hrun

end Sound

end Deployment

end Stream

end OmnipairIndexer
