/-
What a crawl leaves in the tables.

The crawler asks for several transactions at a time, so they reach the pipeline in the order
in which the requests finish.  It sends none of them twice, and for the tables keyed by the
transaction signature this is enough: under a signature stands what its own transaction
writes last, whatever came before or after it.
-/
import OmnipairIndexer.Datasource.Crawled
import OmnipairIndexer.Indexer.Reported

namespace OmnipairIndexer

open Transition LastWrite IndexedTransaction

theorem TransactionUpdate.signature_of_indexed {update : TransactionUpdate}
    {t : IndexedTransaction} (h : update.indexed = some t) : t.signature = update.signature := by
  unfold TransactionUpdate.indexed at h
  split at h <;> cases h
  rfl

namespace KeyedView.KeyedBySignature

variable {ν : Type} {V : KeyedView String ν} {w : World}

/-- The only transaction with its signature decides what stands under it, however often it
is delivered. -/
theorem view_of_one (hV : V.KeyedBySignature) {ts : List IndexedTransaction}
    {t : IndexedTransaction} (ht : t ∈ ts) (hone : ∀ u ∈ ts, u.signature = t.signature → u = t)
    (hw : w.Healthy) :
    V.view (deliverAll ts w).db t.signature =
      (last t.signature (V.writesOfTransaction t)).or (V.view w.db t.signature) := by
  rw [V.view_deliverAll ts hw, replay_flatMap]
  cases hwriter : lastWriter V.writesOfTransaction t.signature ts with
  | none => rw [lastWriter_eq_none_iff.mp hwriter t ht, Option.bind_none]
  | some u =>
    obtain ⟨hu, hwrites⟩ := mem_of_lastWriter hwriter
    rw [hone u hu (hV.of_transaction hwrites).symm, Option.bind_some]

/-- Under another signature nothing changes. -/
theorem view_of_other (hV : V.KeyedBySignature) {ts : List IndexedTransaction} {k : String}
    (hk : k ∉ ts.map signature) (hw : w.Healthy) :
    V.view (deliverAll ts w).db k = V.view w.db k := by
  rw [V.view_deliverAll ts hw, replay_flatMap, lastWriter_eq_none_iff.mpr, Option.bind_none,
    Option.none_or]
  intro t ht
  rw [← Option.not_isSome_iff_eq_none]
  intro hwrites
  exact hk (hV.of_transaction hwrites ▸ List.mem_map_of_mem ht)

theorem processAll_of_one (hV : V.KeyedBySignature) {updates : List TransactionUpdate}
    {update : TransactionUpdate} (hupdate : update ∈ updates)
    (hone : ∀ other ∈ updates, other.signature = update.signature → other = update)
    (hrecorded : update.Recorded) {events : List PersistedEvent} (hreports : update.Reports events)
    (hw : w.Healthy) :
    V.view (processAll updates w).db update.signature =
      (last update.signature (V.writesOfTransaction ⟨update.signature, update.slot, events⟩)).or
        (V.view w.db update.signature) := by
  have hindexed := (TransactionUpdate.indexed_iff hrecorded
    ⟨update.signature, update.slot, events⟩).mpr ⟨rfl, rfl, hreports⟩
  rw [processAll_eq_deliverAll]
  apply hV.view_of_one (List.mem_filterMap.mpr ⟨update, hupdate, hindexed⟩) _ hw
  intro u hu hsame
  obtain ⟨other, hother, hu⟩ := List.mem_filterMap.mp hu
  have hupdates := hone other hother
    ((TransactionUpdate.signature_of_indexed hu).symm.trans hsame)
  rw [hupdates, hindexed] at hu
  exact (Option.some.inj hu).symm

theorem processAll_of_other (hV : V.KeyedBySignature) {updates : List TransactionUpdate}
    {k : String} (hk : k ∉ updates.map TransactionUpdate.signature) (hw : w.Healthy) :
    V.view (processAll updates w).db k = V.view w.db k := by
  rw [processAll_eq_deliverAll]
  apply hV.view_of_other _ hw
  intro hmem
  obtain ⟨t, ht, rfl⟩ := List.mem_map.mp hmem
  obtain ⟨update, hupdate, hindexed⟩ := List.mem_filterMap.mp ht
  rw [TransactionUpdate.signature_of_indexed hindexed] at hk
  exact hk (List.mem_map_of_mem hupdate)

end KeyedView.KeyedBySignature

namespace Crawler

/-- For every run of a crawler, whatever the tasks and the RPC do: when the pipeline has
processed the updates in the order in which they were sent, with nothing failing from
outside, a table keyed by the signature has under the signature of each update the row that
its reported events write last, or what was there if they write none.  What comes behind a
value out of range is not written.  Under other signatures the table is as before. -/
theorem crawled_rows (crawler : Crawler) (history : History)
    (hbefore : crawler.filters.beforeSignature = none) (hbatch : 0 < crawler.batchLimit)
    (actions : List Action) (s : State)
    (hrun : run (step crawler) (start crawler history) actions = some s) {w : World}
    (hw : w.Healthy) {ν : Type} {V : KeyedView String ν} (hV : V.KeyedBySignature) :
    (∀ update ∈ s.updates, update.Recorded → ∀ events, update.Reports events →
      V.view (processAll s.updates w).db update.signature =
        (last update.signature
          (V.writesOfTransaction ⟨update.signature, update.slot, events⟩)).or
          (V.view w.db update.signature)) ∧
      ∀ k ∉ s.updates.map TransactionUpdate.signature,
        V.view (processAll s.updates w).db k = V.view w.db k := by
  have hsent := (standing_of_run hbefore hbatch hrun).sent_nodup
  have hnodup := (sound_of_run hrun).updates_nodup hsent
  constructor
  · intro update hupdate hrecorded events hreports
    have hone : ∀ other ∈ s.updates, other.signature = update.signature → other = update :=
      fun other hother hsame => List.inj_on_of_nodup_map hnodup hother hupdate hsame
    exact hV.processAll_of_one hupdate hone hrecorded hreports hw
  · intro k hk
    exact hV.processAll_of_other hk hw

/-- A transaction with one instruction, which reports a debt. -/
def debtFetched (amount : Int64) (slot : UInt64) : FetchedTransaction where
  statusMeta := some ⟨false, none, none⟩
  transaction := some (.v0 [.filled 1, .filled 9] [⟨1, [], OmnipairInstruction.encode
    (.adjustDebtEvent ⟨amount, 0, ⟨.filled 1, .filled 2, slot⟩⟩)⟩] 1)
  slot := slot

/-- The transaction of the newer signature comes second, and is asked for first. -/
def twoDebtsCrawled : List Action :=
  [.signatures (.fetch 2), .sendSignature, .sendSignature, .request, .request,
    .answer 1 (some (debtFetched 5 4)), .sendTransaction, .process, .sendUpdate true,
    .answer 0 (some (debtFetched 7 6)), .sendTransaction, .process, .sendUpdate true]

def debtIndexed : IndexedTransaction :=
  ⟨"a", 4, [.adjustDebt ⟨5, 0, ⟨.filled 1, .filled 2, 4⟩⟩]⟩

theorem recorded_of_groups_nil {update : TransactionUpdate}
    (hkeys : update.message.staticAccountKeys ≠ []) (hgroups : update.groups = []) :
    update.Recorded where
  feePayer := hkeys
  index_lt _ h := absurd (hgroups ▸ h) List.not_mem_nil
  heights _ h := absurd (hgroups ▸ h) List.not_mem_nil

theorem twoDebtsCrawled_run :
    ∃ s, run (step twoSlots) (start twoSlots StartBlock.twoSlots) twoDebtsCrawled = some s ∧
      ∃ update ∈ s.updates, update.Recorded ∧ update.indexed = some debtIndexed := by
  have h : (run (step twoSlots) (start twoSlots StartBlock.twoSlots) twoDebtsCrawled).any
      fun s => s.updates.any fun update =>
        !update.message.staticAccountKeys.isEmpty && update.groups.isEmpty &&
          decide (update.indexed = some debtIndexed) := by
    decide +kernel
  obtain ⟨s, hs, h⟩ := (Option.any_eq_true ..).mp h
  obtain ⟨update, hupdate, h⟩ := List.any_eq_true.mp h
  rw [Bool.and_eq_true, Bool.and_eq_true, Bool.not_eq_true', List.isEmpty_eq_false_iff,
    List.isEmpty_iff, decide_eq_true_iff] at h
  exact ⟨s, hs, update, hupdate, recorded_of_groups_nil h.1.1 h.1.2, h.2⟩

theorem crawled_rows_twoDebts :
    ∃ s, run (step twoSlots) (start twoSlots StartBlock.twoSlots) twoDebtsCrawled = some s ∧
      (adjustDebtView.view (processAll s.updates World.fresh).db "a").map
        AdjustEventRow.amount0 = some 5 := by
  obtain ⟨s, hs, update, hupdate, hrecorded, hindexed⟩ := twoDebtsCrawled_run
  obtain ⟨hsignature, hslot, hreports⟩ :=
    (TransactionUpdate.indexed_iff hrecorded debtIndexed).mp hindexed
  obtain ⟨hrows, -⟩ := crawled_rows twoSlots StartBlock.twoSlots rfl (by decide) twoDebtsCrawled s
    hs World.fresh_healthy adjustDebt_keyedBySignature
  have hrow := hrows update hupdate hrecorded _ hreports
  rw [← hsignature, ← hslot] at hrow
  refine ⟨s, hs, ?_⟩
  rw [show "a" = debtIndexed.signature from rfl, hrow]
  decide +kernel

end Crawler

end OmnipairIndexer
