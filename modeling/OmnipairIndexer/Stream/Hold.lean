/-
What ends a hold.

Two more writers of the `swaps` table: an insert that conflicts on
`(tx_sig, timestamp)`, which updates the old row, and `updateEmaBatch`, which sets
EMA prices in one transaction.  Neither sets a volume, and the trigger reports both
as an `UPDATE`.  The listener takes every `UPDATE` for the enriched swap, and it holds
swaps by their signature: an update of another row of the transaction ends the hold as
well.  `releases_enriched_iff` says that an update releases every held swap with its
volume exactly when each update that is handled during a hold is one of the held row,
and the row has a volume.
-/
import OmnipairIndexer.Stream.System

namespace OmnipairIndexer

open Transition

/-! ## The two statements -/

namespace SwapTable

variable {table : SwapTable}

/-- A statement that changes columns other than the id. -/
def mapRows (table : SwapTable) (f : Swap → Swap) (hf : ∀ row, (f row).id = row.id) :
    SwapTable where
  rows := table.rows.map f
  nextId := table.nextId
  id_lt row hrow := by
    obtain ⟨old, hold, rfl⟩ := List.mem_map.mp hrow
    rw [hf]
    exact table.id_lt old hold
  id_nodup := by
    rw [List.map_map]
    exact (List.map_congr_left fun row _ => hf row) ▸ table.id_nodup

/-- The row has the unique key of the columns. -/
def Conflicts (cols : SwapColumns) (row : Swap) : Prop :=
  row.txSig = cols.txSig ∧ row.timestamp = cols.timestamp

instance (cols : SwapColumns) (row : Swap) : Decidable (Conflicts cols row) :=
  inferInstanceAs (Decidable (_ ∧ _))

/-- `ON CONFLICT (tx_sig, timestamp) DO UPDATE` of `upsert_swap_event`. -/
def setColumns (cols : SwapColumns) (row : Swap) : Swap :=
  if Conflicts cols row then { row with toSwapColumns := cols } else row

@[simp] theorem setColumns_id (cols : SwapColumns) (row : Swap) :
    (setColumns cols row).id = row.id := by
  unfold setColumns
  split <;> rfl

@[simp] theorem setColumns_volumeUsd (cols : SwapColumns) (row : Swap) :
    (setColumns cols row).volumeUsd = row.volumeUsd := by
  unfold setColumns
  split <;> rfl

def withColumns (table : SwapTable) (cols : SwapColumns) : SwapTable :=
  table.mapRows (setColumns cols) (setColumns_id cols)

/-- `UPDATE swaps SET ema_price = $1 WHERE id = $2`. -/
def setEmaPrice (id : Nat) (emaPrice : String) (row : Swap) : Swap :=
  if row.id = id then { row with emaPrice := some emaPrice } else row

@[simp] theorem setEmaPrice_id (id : Nat) (emaPrice : String) (row : Swap) :
    (setEmaPrice id emaPrice row).id = row.id := by
  unfold setEmaPrice
  split <;> rfl

@[simp] theorem setEmaPrice_volumeUsd (id : Nat) (emaPrice : String) (row : Swap) :
    (setEmaPrice id emaPrice row).volumeUsd = row.volumeUsd := by
  unfold setEmaPrice
  split <;> rfl

def withEmaPrice (table : SwapTable) (id : Nat) (emaPrice : String) : SwapTable :=
  table.mapRows (setEmaPrice id emaPrice) (setEmaPrice_id id emaPrice)

/-- The table and the updated rows after `updateEmaBatch`. -/
def updateEmaBatch : SwapTable → List (Nat × String) → SwapTable × List Swap
  | table, [] => (table, [])
  | table, (id, emaPrice) :: updates =>
    let updated := table.withEmaPrice id emaPrice
    let (final, rows) := updated.updateEmaBatch updates
    (final, (updated.rows.filter fun row => row.id = id) ++ rows)

/-- No volume is the empty text, which stands for a missing one in a notification. -/
def Written (row : Swap) : Prop := row.volumeUsd ≠ some ""

theorem written_mapRows {f : Swap → Swap} (hf : ∀ row, (f row).id = row.id)
    (hvolume : ∀ row, (f row).volumeUsd = row.volumeUsd) (h : ∀ row ∈ table.rows, Written row) :
    ∀ row ∈ (table.mapRows f hf).rows, Written row := by
  intro row hrow
  obtain ⟨old, hold, rfl⟩ := List.mem_map.mp hrow
  rw [Written, hvolume]
  exact h old hold

theorem written_withVolume {volumeUsd txSig : String}
    (h : ∀ row ∈ table.rows, Written row) (hne : volumeUsd ≠ "") :
    ∀ row ∈ (table.withVolume volumeUsd txSig).rows, Written row := by
  intro row hrow
  obtain ⟨old, hold, rfl⟩ := mem_withVolume.mp hrow
  by_cases hsig : old.txSig = txSig
  · rw [Written, setVolume_of_eq hsig]
    simpa using hne
  · rw [setVolume_of_ne hsig]
    exact h old hold

theorem written_updateEmaBatch (updates : List (Nat × String))
    (h : ∀ row ∈ table.rows, Written row) :
    (∀ row ∈ (table.updateEmaBatch updates).1.rows, Written row) ∧
      ∀ row ∈ (table.updateEmaBatch updates).2, Written row := by
  induction updates generalizing table with
  | nil => exact ⟨h, nofun⟩
  | cons update updates ih =>
    obtain ⟨id, emaPrice⟩ := update
    have hupdated : ∀ row ∈ (table.withEmaPrice id emaPrice).rows, Written row :=
      written_mapRows _ (setEmaPrice_volumeUsd id emaPrice) h
    obtain ⟨hfinal, hrows⟩ := ih hupdated
    refine ⟨hfinal, fun row hrow => ?_⟩
    obtain hrow | hrow := List.mem_append.mp hrow
    · exact hupdated row (List.mem_filter.mp hrow).1
    · exact hrows row hrow

end SwapTable

/-- An update without a volume. -/
def SwapPayload.isUnenriched (payload : SwapPayload) : Bool :=
  decide (payload.op = "UPDATE") && decide (payload.volumeUsd = "")

theorem isUnenriched_update {row : Swap} (h : SwapTable.Written row) :
    SwapPayload.isUnenriched (notifySwapUpdated "UPDATE" row) = row.volumeUsd.isNone := by
  cases hvolume : row.volumeUsd with
  | none => simp [SwapPayload.isUnenriched, notifySwapUpdated, hvolume]
  | some volume =>
    have hne : volume ≠ "" := by
      rintro rfl
      exact h hvolume
    simp [SwapPayload.isUnenriched, notifySwapUpdated, hvolume, hne]

namespace Stream

open JsNumber

variable {N : Type}

/-! ## The system with all writers -/

structure WriterSystem (N : Type) where
  stream : System N
  /-- For each notification that the listener has not handled: whether it reports the
  update of a row that has no volume. -/
  unenriched : List Bool

inductive WriterAction (N : Type) where
  | stream (action : Action N)
  | repeatInsert (cols : SwapColumns)
  | updateEmaBatch (updates : List (Nat × String))

namespace WriterSystem

def start (pools : String → Option PoolInfo) : WriterSystem N := ⟨.start pools, []⟩

def buffer (s : WriterSystem N) := s.stream.listener.buffer

/-- The table after a statement, and a notification for each updated row. -/
def update (s : WriterSystem N) (table : SwapTable) (rows : List Swap) : WriterSystem N where
  stream := notify (rows.map (notifySwapUpdated "UPDATE")) { s.stream with table := table }
  unenriched := s.unenriched ++ rows.map fun row => row.volumeUsd.isNone

/-- The marks after a step of the scripts, of the listener or of an insert. -/
def marks (s : WriterSystem N) (t : System N) : Action N → List Bool
  | .notification _ => s.unenriched.tail
  | _ => s.unenriched ++
      List.replicate (t.listenerQueue.length - s.stream.listenerQueue.length) false

variable [JsNumber N]

def step (settings : Settings) (s : WriterSystem N) : WriterAction N → Option (WriterSystem N)
  | .stream action => (Stream.step settings s.stream action).map fun t => ⟨t, s.marks t action⟩
  | .repeatInsert cols =>
    if ∃ row ∈ s.stream.table.rows, SwapTable.Conflicts cols row then
      let table := s.stream.table.withColumns cols
      some (s.update table (table.rows.filter fun row => SwapTable.Conflicts cols row))
    else none
  | .updateEmaBatch updates =>
    let (table, rows) := s.stream.table.updateEmaBatch updates
    some (s.update table rows)

end WriterSystem

/-- A swap that a notification releases before the dedup timeout of its hold is emitted:
the swap that is held, and with a volume. -/
def ReleasesEnriched [JsNumber N] (settings : Settings) (s : WriterSystem N) :
    WriterAction N → Prop
  | .stream (.notification now) => ∀ t, s.step settings (.stream (.notification now)) = some t →
      ∀ txSig, ∀ held ∈ s.buffer.lookup txSig, now - held.2 < settings.dedupTimeout →
        t.buffer.lookup txSig = none →
        ∃ swap, t.stream.listener.emitted = s.stream.listener.emitted ++ [swap] ∧
          swap.txSig = txSig ∧ swap.id = held.1.id ∧ swap.volumeUsd ≠ ""
  | _ => True

/-- An update that is handled before the dedup timeout of a hold of its transaction is one
of the held row, and the row has a volume. -/
def UpdatesHeld (settings : Settings) (s : WriterSystem N) : WriterAction N → Prop
  | .stream (.notification now) => ∀ payload ∈ s.stream.listenerQueue.head?,
      payload.op = "UPDATE" → ∀ held ∈ s.buffer.lookup payload.txSig,
        now - held.2 < settings.dedupTimeout →
        held.1.id = payload.id ∧ s.unenriched.head? = some false
  | _ => True

instance (settings : Settings) (s : WriterSystem N) :
    (action : WriterAction N) → Decidable (UpdatesHeld settings s action)
  | .stream (.notification now) => inferInstanceAs (Decidable
      (∀ payload ∈ s.stream.listenerQueue.head?, payload.op = "UPDATE" →
        ∀ held ∈ s.buffer.lookup payload.txSig, now - held.2 < settings.dedupTimeout →
          held.1.id = payload.id ∧ s.unenriched.head? = some false))
  | .stream (.insertSwap _) | .stream (.insertPool _ _) | .stream (.enricher _)
  | .stream (.startBackfill _ _ _) | .stream (.backfill _) | .stream (.tick _ _)
  | .repeatInsert _ | .updateEmaBatch _ => .isTrue trivial

/-! ## What is in the queue -/

/-- The marks are right, and every volume is written out. -/
structure Marked (s : WriterSystem N) : Prop where
  marks : s.unenriched = s.stream.listenerQueue.map SwapPayload.isUnenriched
  op : ∀ payload ∈ s.stream.listenerQueue, payload.op = "INSERT" ∨ payload.op = "UPDATE"
  written : ∀ row ∈ s.stream.table.rows, SwapTable.Written row

namespace Marked

variable {s : WriterSystem N}

theorem start (pools : String → Option PoolInfo) :
    Marked (WriterSystem.start pools : WriterSystem N) where
  marks := rfl
  op _ h := nomatch h
  written _ h := nomatch h

/-- Updates of rows, whatever they set. -/
theorem update (h : Marked s) {table : SwapTable} {rows : List Swap}
    (htable : ∀ row ∈ table.rows, SwapTable.Written row)
    (hrows : ∀ row ∈ rows, SwapTable.Written row) : Marked (s.update table rows) where
  marks := by
    show s.unenriched ++ _ = (s.stream.listenerQueue ++ _).map _
    rw [List.map_append, ← h.marks, List.map_map]
    congr 1
    exact List.map_congr_left fun row hrow => (isUnenriched_update (hrows row hrow)).symm
  op payload hpayload := by
    obtain hpayload | hpayload := List.mem_append.mp hpayload
    · exact h.op payload hpayload
    · obtain ⟨row, -, rfl⟩ := List.mem_map.mp hpayload
      exact .inr rfl
  written := htable

/-- New notifications that report no update without a volume. -/
theorem enqueue (h : Marked s) {t : System N} {payloads : List SwapPayload}
    (hqueue : t.listenerQueue = s.stream.listenerQueue ++ payloads)
    (hpayloads : ∀ payload ∈ payloads, (payload.op = "INSERT" ∨ payload.op = "UPDATE") ∧
      payload.isUnenriched = false)
    (hwritten : ∀ row ∈ t.table.rows, SwapTable.Written row) :
    Marked ⟨t, s.unenriched ++
      List.replicate (t.listenerQueue.length - s.stream.listenerQueue.length) false⟩ where
  marks := by
    have hnew : payloads.map SwapPayload.isUnenriched = List.replicate payloads.length false := by
      rw [List.eq_replicate_iff, List.length_map]
      refine ⟨rfl, fun flag hflag => ?_⟩
      obtain ⟨payload, hpayload, rfl⟩ := List.mem_map.mp hflag
      exact (hpayloads payload hpayload).2
    show _ = t.listenerQueue.map _
    rw [hqueue, List.map_append, ← h.marks, hnew, List.length_append, Nat.add_sub_cancel_left]
  op payload hpayload := by
    rw [show (WriterSystem.mk t _).stream.listenerQueue = _ from hqueue] at hpayload
    obtain hpayload | hpayload := List.mem_append.mp hpayload
    · exact h.op payload hpayload
    · exact (hpayloads payload hpayload).1
  written := hwritten

/-- The update of one of the scripts, if it makes one. -/
theorem execute (h : Marked s) {u : System N} {update : Option VolumeUpdate} {t : System N}
    (htable : u.table = s.stream.table) (hqueue : u.listenerQueue = s.stream.listenerQueue)
    (hupdate : ∀ v ∈ update, v.volumeUsd ≠ "") (hexec : Stream.execute u update = some t) :
    Marked ⟨t, s.unenriched ++
      List.replicate (t.listenerQueue.length - s.stream.listenerQueue.length) false⟩ := by
  cases update with
  | none =>
    obtain rfl := Option.some.inj hexec
    have hnone : u.listenerQueue = s.stream.listenerQueue ++ [] := by rw [hqueue, List.append_nil]
    refine h.enqueue hnone nofun ?_
    rw [htable]
    exact h.written
  | some v =>
    obtain ⟨horder, rfl⟩ := execute_some hexec
    have hwritten : ∀ row ∈ (u.table.withVolume v.volumeUsd v.txSig).rows,
        SwapTable.Written row :=
      SwapTable.written_withVolume (htable ▸ h.written) (hupdate v rfl)
    refine h.enqueue (by rw [← hqueue]; rfl) ?_ hwritten
    intro payload hpayload
    obtain ⟨row, hrow, rfl⟩ := List.mem_map.mp hpayload
    obtain ⟨hmem, hsig⟩ := List.mem_filter.mp (horder.mem_iff.mp hrow)
    refine ⟨.inr rfl, ?_⟩
    rw [isUnenriched_update (hwritten row hmem)]
    obtain ⟨old, -, rfl⟩ := SwapTable.mem_withVolume.mp hmem
    rw [decide_eq_true_eq, SwapTable.setVolume_toSwapColumns] at hsig
    rw [SwapTable.setVolume_of_eq hsig]
    rfl

/-- A step that sends no notification. -/
theorem silent (h : Marked s) {t : System N} (htable : t.table = s.stream.table)
    (hqueue : t.listenerQueue = s.stream.listenerQueue) :
    Marked ⟨t, s.unenriched ++
      List.replicate (t.listenerQueue.length - s.stream.listenerQueue.length) false⟩ := by
  have hexec : Stream.execute t none = some t := rfl
  have hnone : ∀ v ∈ (none : Option VolumeUpdate), v.volumeUsd ≠ "" := fun v hv => nomatch hv
  exact h.execute htable hqueue hnone hexec

theorem insertSwap (h : Marked s) (cols : SwapColumns) :
    let payload := notifySwapUpdated "INSERT" (s.stream.table.newRow cols)
    let t := Stream.notify [payload] { s.stream with table := s.stream.table.push cols }
    Marked ⟨t, s.unenriched ++
      List.replicate (t.listenerQueue.length - s.stream.listenerQueue.length) false⟩ := by
  intro payload t
  refine h.enqueue rfl ?_ ?_
  · intro payload hpayload
    rw [List.mem_singleton.mp hpayload]
    exact ⟨.inl rfl, rfl⟩
  · intro row hrow
    obtain hrow | hrow := List.mem_append.mp hrow
    · exact h.written row hrow
    · rw [List.mem_singleton.mp hrow]
      exact nofun

variable [JsNumber N] {settings : Settings} {t : WriterSystem N}

theorem step {action : WriterAction N} (htext : ∀ n : N, text n ≠ "") (h : Marked s)
    (ht : s.step settings action = some t) : Marked t := by
  cases action with
  | stream action =>
    obtain ⟨u, hu, rfl⟩ := Option.map_eq_some_iff.mp ht
    cases action with
    | insertSwap cols =>
      obtain rfl := step_insertSwap hu
      exact h.insertSwap cols
    | insertPool pair poolInfo =>
      obtain ⟨-, rfl⟩ := step_insertPool hu
      exact h.silent rfl rfl
    | enricher act =>
      obtain ⟨enricher, update, hstep, hexec⟩ := step_enricher hu
      refine h.execute (by rfl) (by rfl) ?_ hexec
      intro v hv
      obtain rfl := Option.mem_def.mp hv
      obtain ⟨n, hn⟩ := Enricher.update_text hstep
      exact hn ▸ htext n
    | startBackfill pairFilter maxLimit batchSize =>
      obtain rfl := step_startBackfill hu
      exact h.silent rfl rfl
    | backfill act =>
      obtain ⟨old, backfill, update, -, hstep, hexec⟩ := step_backfill hu
      refine h.execute (by rfl) (by rfl) ?_ hexec
      intro v hv
      obtain rfl := Option.mem_def.mp hv
      obtain ⟨n, hn⟩ := Backfill.update_text hstep
      exact hn ▸ htext n
    | notification now =>
      obtain ⟨payload, queue, hqueue, rfl⟩ := step_notification hu
      refine ⟨?_, fun p hp => h.op p (hqueue ▸ List.mem_cons_of_mem _ hp), h.written⟩
      show s.unenriched.tail = queue.map _
      rw [h.marks, hqueue]
      rfl
    | tick now timedOut =>
      obtain ⟨-, rfl⟩ := step_tick hu
      exact h.silent rfl rfl
  | repeatInsert cols =>
    obtain ⟨-, ht⟩ := Option.ite_none_right_eq_some.mp ht
    obtain rfl := Option.some.inj ht
    have htable := SwapTable.written_mapRows (SwapTable.setColumns_id cols)
      (SwapTable.setColumns_volumeUsd cols) h.written
    exact h.update htable fun row hrow => htable row (List.mem_filter.mp hrow).1
  | updateEmaBatch updates =>
    obtain rfl := Option.some.inj ht
    obtain ⟨htable, hrows⟩ := SwapTable.written_updateEmaBatch updates h.written
    exact h.update htable hrows

end Marked

/-! ## Releases -/

section Releases

variable [JsNumber N] {settings : Settings} {s t : WriterSystem N}

theorem toUppercase_insert : DbListener.toUppercase "INSERT" = "INSERT" := by decide

theorem toUppercase_update : DbListener.toUppercase "UPDATE" = "UPDATE" := by decide

/-- What handling the next notification does to the listener. -/
theorem notification_cases {now : Nat} (h : Marked s)
    (ht : s.step settings (.stream (.notification now)) = some t) :
    ∃ payload queue, s.stream.listenerQueue = payload :: queue ∧
      s.unenriched.head? = some payload.isUnenriched ∧
      ((payload.op = "INSERT" ∧ ∃ held, t.buffer = s.buffer.insert payload.txSig held) ∨
        (payload.op = "UPDATE" ∧ t.buffer = s.buffer.erase payload.txSig ∧
          t.stream.listener.emitted =
            s.stream.listener.emitted ++ [payload.parsed.swap.withPrice])) := by
  obtain ⟨u, hu, rfl⟩ := Option.map_eq_some_iff.mp ht
  obtain ⟨payload, queue, hqueue, rfl⟩ := step_notification hu
  refine ⟨payload, queue, hqueue, ?_, ?_⟩
  · rw [h.marks, hqueue]
    rfl
  · have hop := h.op payload (hqueue ▸ List.mem_cons_self)
    have hparsed : payload.parsed.op = payload.op := rfl
    obtain hinsert | hupdate := hop
    · refine .inl ⟨hinsert, ?_⟩
      simp only [WriterSystem.buffer, DbListener.handle, hparsed, hinsert, toUppercase_insert]
      exact ⟨_, rfl⟩
    · refine .inr ⟨hupdate, ?_⟩
      simp only [WriterSystem.buffer, DbListener.handle, hparsed, hupdate, toUppercase_update]
      exact ⟨rfl, rfl⟩

theorem releases_iff_updatesHeld {action : WriterAction N} (h : Marked s)
    (ht : s.step settings action = some t) :
    ReleasesEnriched settings s action ↔ UpdatesHeld settings s action := by
  -- Only the handling of a notification is restricted.
  rcases action with ⟨_ | _ | _ | _ | _ | now | _⟩ | _ | _ <;> try exact Iff.rfl
  obtain ⟨payload, queue, hqueue, hmark, hcases⟩ := notification_cases h ht
  have hupdates : UpdatesHeld settings s (.stream (.notification now)) ↔
      (payload.op = "UPDATE" → ∀ held ∈ s.buffer.lookup payload.txSig,
        now - held.2 < settings.dedupTimeout →
        held.1.id = payload.id ∧ payload.isUnenriched = false) := by
    simp [UpdatesHeld, hqueue, hmark]
  rw [hupdates]
  obtain ⟨hinsert, since, hbuffer⟩ | ⟨hupdate, hbuffer, hemitted⟩ := hcases
  · -- An insertion releases nothing.
    have hop : payload.op ≠ "UPDATE" := by rw [hinsert]; decide
    refine ⟨fun _ hup => absurd hup hop, fun _ u hu txSig held hheld _ hreleased => ?_⟩
    obtain rfl := Option.some.inj (ht.symm.trans hu)
    by_cases hsig : txSig = payload.txSig
    · rw [hbuffer, hsig, AList.lookup_insert] at hreleased
      exact nomatch hreleased
    · rw [hbuffer, AList.lookup_insert_ne hsig] at hreleased
      rw [hreleased] at hheld
      exact nomatch hheld
  · -- An update releases the transaction's swap and is emitted.
    have hvolume : payload.isUnenriched = false ↔ payload.volumeUsd ≠ "" := by
      simp [SwapPayload.isUnenriched, hupdate]
    constructor
    · intro hreleases _ held hheld hyoung
      obtain ⟨swap, hswap, -, hid, hne⟩ := hreleases t ht payload.txSig held hheld hyoung
        (by rw [hbuffer, AList.lookup_erase])
      obtain rfl := List.singleton_inj.mp (List.append_cancel_left (hemitted.symm.trans hswap))
      exact ⟨hid.symm, hvolume.mpr hne⟩
    · intro hfree u hu txSig held hheld hyoung hreleased
      obtain rfl := Option.some.inj (ht.symm.trans hu)
      by_cases hsig : txSig = payload.txSig
      · obtain ⟨hid, hne⟩ := hfree hupdate held (hsig ▸ hheld) hyoung
        exact ⟨_, hemitted, hsig.symm, hid.symm, hvolume.mp hne⟩
      · rw [hbuffer, AList.lookup_erase_ne hsig] at hreleased
        rw [hreleased] at hheld
        exact nomatch hheld

/-- In every run, each swap that a notification releases before the dedup timeout is
emitted with a volume exactly when each update that is handled during such a hold is one
of the held row, which has a volume. -/
theorem releases_enriched_iff {pools : String → Option PoolInfo} {actions : List (WriterAction N)}
    (htext : ∀ n : N, text n ≠ "")
    (hrun : run (WriterSystem.step settings) (.start pools) actions = some t) :
    Along (WriterSystem.step settings) (ReleasesEnriched settings) (.start pools) actions ↔
      Along (WriterSystem.step settings) (UpdatesHeld settings) (.start pools) actions :=
  along_congr (I := Marked) (fun _ _ _ h ht => h.step htext ht)
    (fun _ _ _ h ht => releases_iff_updatesHeld h ht) (.start pools) hrun

end Releases

/-! ## EMA prices around a hold -/

theorem int_text_ne_empty (n : ℤ) : toString n ≠ "" := by
  cases n with
  | ofNat n =>
    show n.repr ≠ ""
    intro h
    have hpos := Nat.length_repr_pos (n := n)
    rw [h] at hpos
    exact absurd hpos (by decide)
  | negSucc n =>
    show "-" ++ (n + 1).repr ≠ ""
    simp

theorem text_ne_empty (q : ℚ) : text q ≠ "" := by
  show (if q.den = 1 then toString q.num else toString q.num ++ "/" ++ toString q.den) ≠ ""
  split
  · exact int_text_ne_empty _
  · simp

/-- The EMA price is set after the volume, and both updates are handled. -/
def emaAfterVolume : List (WriterAction ℚ) :=
  let handler (action : HandlerAction ℚ) : WriterAction ℚ := .stream (.enricher (.handler 0 action))
  [.stream (.insertSwap (swapOf "10" 1)), .stream (.notification 0), .stream (.enricher .deliver),
    handler (.poolQuery true), handler (.readPrices 0),
    handler (.response 0 (some fun _ => some ⟨some 1, some 0⟩)),
    handler (.update (some [⟨swapOf "10" 1, 1, none, some "10"⟩])), .updateEmaBatch [(1, "1.5")],
    .stream (.notification 1), .stream (.notification 1)]

def emaAfterVolumeState : WriterSystem ℚ :=
  (run (WriterSystem.step defaults) (.start onePool) emaAfterVolume).get (by decide +kernel)

theorem releases_enriched_iff_emaAfterVolume :
    Along (WriterSystem.step defaults) (ReleasesEnriched defaults) (.start onePool)
      emaAfterVolume :=
  (releases_enriched_iff text_ne_empty (t := emaAfterVolumeState) (Option.some_get _).symm).mpr
    (by decide +kernel)

/-- The EMA price is set while the swap is held and has no volume. -/
def emaDuringHold : List (WriterAction ℚ) :=
  [.stream (.insertSwap (swapOf "10" 1)), .stream (.notification 0), .updateEmaBatch [(1, "1.5")]]

def emaDuringHoldState : WriterSystem ℚ :=
  (run (WriterSystem.step defaults) (.start onePool) emaDuringHold).get (by decide +kernel)

/-- The update with the EMA price ends the hold, and the swap goes out without a volume. -/
theorem ema_update_ends_hold :
    ¬ ∀ (actions : List (WriterAction ℚ)) (t : WriterSystem ℚ),
      run (WriterSystem.step defaults) (.start onePool) actions = some t →
      Along (WriterSystem.step defaults) (ReleasesEnriched defaults) (.start onePool) actions := by
  intro hall
  have hhold : run (WriterSystem.step defaults) (.start onePool) emaDuringHold =
      some emaDuringHoldState := (Option.some_get _).symm
  obtain ⟨t, ht, hreleased, hvolumes⟩ : ∃ t, emaDuringHoldState.step defaults (.stream (.notification 1)) =
      some t ∧ t.buffer.lookup "tx" = none ∧
        t.stream.listener.emitted.map DbListener.SwapsUpdate.volumeUsd = [""] :=
    ⟨_, rfl, by decide +kernel, by decide +kernel⟩
  have halong := hall (emaDuringHold ++ [.stream (.notification 1)]) t
    (run_concat_eq_some.mpr ⟨_, hhold, ht⟩)
  have hreleases := ((along_append hhold).mp halong).2.1
  obtain ⟨held, hheld⟩ : ∃ held, emaDuringHoldState.buffer.lookup "tx" = some held :=
    Option.isSome_iff_exists.mp (by decide +kernel)
  have hyoung : 1 - held.2 < defaults.dedupTimeout := by
    show 1 - held.2 < 5
    omega
  obtain ⟨swap, hemitted, -, -, hvolume⟩ := hreleases t ht "tx" held hheld hyoung hreleased
  have hnone : emaDuringHoldState.stream.listener.emitted = [] :=
    List.length_eq_zero_iff.mp (by decide +kernel)
  rw [hemitted, hnone] at hvolumes
  exact hvolume (List.singleton_inj.mp hvolumes)

end Stream

end OmnipairIndexer
