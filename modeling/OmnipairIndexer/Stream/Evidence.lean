/-
What a volume was computed from.

An `Evidence` says which prices count, and when the prices found for a trade are
enough.  If every answer that reaches a script counts, then so does everything in
its caches and in the locals of its running enrichments, and each update it makes
writes a volume computed from prices that count.  This holds for both scripts, and
for a fixed list of prices as well as for whatever the price API has answered.
-/
import OmnipairIndexer.Stream.System

namespace OmnipairIndexer

namespace Stream

open JsNumber

/-- Which price, or absence of one, counts for a mint, and which prices are enough
for a trade. -/
structure Evidence (N : Type) where
  good : String → Option (PriceInfo N) → Prop
  usable : Trade → PoolInfo → Prices N → Prop

/-- The results of `fetchTokenPrices` once the price API has answered or failed. -/
def answered {N : Type} [JsNumber N] (results : Prices N) (uncachedMints : List String) :
    Option (PriceResponse N) → Prices N
  | some data => merged results uncachedMints data
  | none => results

namespace Evidence

variable {N : Type} [JsNumber N]

/-- The volume is that of the trade in its pool, at prices that count and suffice. -/
def Computed (E : Evidence N) (pools : String → Option PoolInfo) (trade : Trade) (volumeUsd : N) :
    Prop :=
  ∃ poolInfo prices, pools trade.pair = some poolInfo ∧
    (∀ mint ∈ poolInfo.mints trade.isToken0In, E.good mint (prices mint)) ∧
    E.usable trade poolInfo prices ∧ volumeUsd = trade.computeVolumeUsd prices poolInfo

/-- The locals of an enrichment count, and a mint being fetched has no price yet. -/
def StageKnows (E : Evidence N) (pools : String → Option PoolInfo) (trade : Trade) :
    Stage N → Prop
  | .lookingUp => True
  | .pooled poolInfo => pools trade.pair = some poolInfo
  | .fetching poolInfo results uncachedMints => pools trade.pair = some poolInfo ∧
      (∀ mint ∈ uncachedMints, results mint = none) ∧
      ∀ mint ∈ poolInfo.mints trade.isToken0In, mint ∉ uncachedMints → E.good mint (results mint)
  | .updating volumeUsd => E.Computed pools trade volumeUsd
  | .done => True

/-- The answer of the price API in this stage counts and is enough. -/
def GoodAnswer (E : Evidence N) (trade : Trade) (data : Option (PriceResponse N)) :
    Stage N → Prop
  | .fetching poolInfo results uncachedMints =>
    (∀ mint ∈ uncachedMints, E.good mint (data.bind fun data => data.tokenPrice mint)) ∧
      E.usable trade poolInfo (answered results uncachedMints data)
  | _ => True

/-- Prices that are all in the cache are enough. -/
def GoodCache (E : Evidence N) (cached : String → Option (Option (PriceInfo N))) (trade : Trade) :
    Stage N → Prop
  | .pooled poolInfo => (fromCache cached (poolInfo.mints trade.isToken0In)).2 = [] →
      E.usable trade poolInfo (fromCache cached (poolInfo.mints trade.isToken0In)).1
  | _ => True

variable {E : Evidence N} {pools : String → Option PoolInfo} {trade : Trade}

omit [JsNumber N] in
theorem good_fromCache {cached : String → Option (Option (PriceInfo N))} {mints : List String}
    (hcached : ∀ mint found, cached mint = some found → E.good mint found) {mint : String}
    (hmint : mint ∈ mints) (hnot : mint ∉ (fromCache cached mints).2) :
    E.good mint ((fromCache cached mints).1 mint) := by
  simp only [fromCache, List.mem_filter, hmint, true_and, Option.isNone_iff_eq_none, if_true]
    at hnot ⊢
  obtain ⟨found, hfound⟩ := Option.ne_none_iff_exists'.mp hnot
  rw [hfound, Option.join_some]
  exact hcached mint found hfound

/-- After the cache pass: the volume if everything was cached, else a fetch. -/
theorem stageKnows_fromCache {cached : String → Option (Option (PriceInfo N))} {poolInfo : PoolInfo}
    (hcached : ∀ mint found, cached mint = some found → E.good mint found)
    (hpool : pools trade.pair = some poolInfo)
    (hgood : E.GoodCache cached trade (.pooled poolInfo)) :
    E.StageKnows pools trade
      (if (fromCache cached (poolInfo.mints trade.isToken0In)).2 = [] then
        .updating (trade.computeVolumeUsd
          (fromCache cached (poolInfo.mints trade.isToken0In)).1 poolInfo)
      else .fetching poolInfo (fromCache cached (poolInfo.mints trade.isToken0In)).1
        (fromCache cached (poolInfo.mints trade.isToken0In)).2) := by
  split
  · rename_i hall
    refine ⟨poolInfo, _, hpool, fun mint hmint => ?_, hgood hall, rfl⟩
    exact good_fromCache hcached hmint (hall ▸ List.not_mem_nil)
  · refine ⟨hpool, fun mint hmint => ?_, fun mint hmint hnot => good_fromCache hcached hmint hnot⟩
    have hnone := (List.mem_filter.mp hmint).2
    rw [Option.isNone_iff_eq_none] at hnone
    simp [fromCache, hnone]

/-- After the answer: the volume from what was cached and what was answered. -/
theorem computed_answered {poolInfo : PoolInfo} {results : Prices N} {uncachedMints : List String}
    {data : Option (PriceResponse N)}
    (hknows : E.StageKnows pools trade (.fetching poolInfo results uncachedMints))
    (hgood : E.GoodAnswer trade data (.fetching poolInfo results uncachedMints)) :
    E.Computed pools trade
      (trade.computeVolumeUsd (answered results uncachedMints data) poolInfo) := by
  refine ⟨poolInfo, _, hknows.1, fun mint hmint => ?_, hgood.2, rfl⟩
  by_cases huncached : mint ∈ uncachedMints
  · have hsame : answered results uncachedMints data mint =
        data.bind fun data => data.tokenPrice mint := by
      cases data with
      | none => exact hknows.2.1 mint huncached
      | some data => exact if_pos huncached
    rw [hsame]
    exact hgood.1 mint huncached
  · have hsame : answered results uncachedMints data mint = results mint := by
      cases data with
      | none => rfl
      | some data => exact if_neg huncached
    rw [hsame]
    exact hknows.2.2 mint hmint huncached

theorem known_update {cache : String → Option PoolInfo} {pair : String} {poolInfo : PoolInfo}
    (hcache : ∀ p info, cache p = some info → pools p = some info)
    (hpool : pools pair = some poolInfo) :
    ∀ p info, Function.update cache pair (some poolInfo) p = some info → pools p = some info := by
  intro p info hinfo
  by_cases hp : p = pair
  · subst hp
    rw [Function.update_self] at hinfo
    exact hpool.trans hinfo
  · rw [Function.update_of_ne hp] at hinfo
    exact hcache p info hinfo

section Mono

variable {E' : Evidence N} {pools' : String → Option PoolInfo}

/-- More pools, and more that counts. -/
structure Le (E E' : Evidence N) (pools pools' : String → Option PoolInfo) : Prop where
  good : ∀ mint found, E.good mint found → E'.good mint found
  usable : ∀ trade poolInfo prices, E.usable trade poolInfo prices → E'.usable trade poolInfo prices
  pools : ∀ pair poolInfo, pools pair = some poolInfo → pools' pair = some poolInfo

theorem Computed.mono (hle : Le E E' pools pools') {volumeUsd : N}
    (h : E.Computed pools trade volumeUsd) : E'.Computed pools' trade volumeUsd := by
  obtain ⟨poolInfo, prices, hpool, hgood, husable, heq⟩ := h
  exact ⟨poolInfo, prices, hle.pools _ _ hpool, fun mint hmint => hle.good _ _ (hgood mint hmint),
    hle.usable _ _ _ husable, heq⟩

theorem StageKnows.mono (hle : Le E E' pools pools') {stage : Stage N}
    (h : E.StageKnows pools trade stage) : E'.StageKnows pools' trade stage := by
  cases stage with
  | lookingUp => trivial
  | pooled poolInfo => exact hle.pools _ _ h
  | fetching poolInfo results uncachedMints =>
    exact ⟨hle.pools _ _ h.1, h.2.1, fun mint hmint hnot => hle.good _ _ (h.2.2 mint hmint hnot)⟩
  | updating volumeUsd => exact Computed.mono hle h
  | done => trivial

end Mono

/-! ## The enricher -/

/-- Everything in the caches of the enricher and in its running handlers counts,
and the handlers work on trades of the table. -/
structure EnricherKnows (E : Evidence N) (pools : String → Option PoolInfo)
    (isTrade : Trade → Prop) (e : Enricher N) : Prop where
  priceCache : ∀ mint entry, e.priceCache mint = some entry → E.good mint (some entry.info)
  poolInfoCache : ∀ pair poolInfo, e.poolInfoCache pair = some poolInfo →
    pools pair = some poolInfo
  queue : ∀ notification ∈ e.queue, isTrade notification.toTrade
  handlers : ∀ handler ∈ e.handlers, isTrade handler.trade ∧
    E.StageKnows pools handler.trade handler.stage

abbrev enricherCache (priceCacheTtl : Nat) (e : Enricher N) (now : Nat) :
    String → Option (Option (PriceInfo N)) :=
  fun mint => (e.getCachedPrice priceCacheTtl now mint).map some

/-- What a handler is resumed with counts and is enough. -/
def GoodResume (E : Evidence N) (pools : String → Option PoolInfo) (priceCacheTtl : Nat)
    (e : Enricher N) (handler : Handler N) : HandlerAction N → Prop
  | .poolQuery succeeds => succeeds = true ∧ pools handler.trade.pair ≠ none
  | .readPrices now =>
    E.GoodCache (enricherCache priceCacheTtl e now) handler.trade handler.stage
  | .response _ data => E.GoodAnswer handler.trade data handler.stage
  | .update _ => True

def GoodEnricher (E : Evidence N) (pools : String → Option PoolInfo) (priceCacheTtl : Nat)
    (e : Enricher N) : EnricherAction N → Prop
  | .deliver => True
  | .handler idx action => ∀ handler, e.handlers[idx]? = some handler →
      E.GoodResume pools priceCacheTtl e handler action

/-- A step without an update. -/
theorem writes_nothing {P : VolumeUpdate → Prop} :
    ∀ u, (none : Option VolumeUpdate) = some u → P u := by
  intro u hu
  exact absurd hu.symm (Option.some_ne_none u)

namespace EnricherKnows

variable {isTrade : Trade → Prop} {priceCacheTtl : Nat} {e e' : Enricher N}

theorem start : E.EnricherKnows pools isTrade .start where
  priceCache _ _ h := nomatch h
  poolInfoCache _ _ h := nomatch h
  queue _ h := nomatch h
  handlers _ h := nomatch h

theorem mono {E' : Evidence N} {pools' : String → Option PoolInfo} {isTrade' : Trade → Prop}
    (h : E.EnricherKnows pools isTrade e) (hle : Le E E' pools pools')
    (htrade : ∀ trade, isTrade trade → isTrade' trade) :
    E'.EnricherKnows pools' isTrade' e where
  priceCache _ _ hentry := hle.good _ _ (h.priceCache _ _ hentry)
  poolInfoCache _ _ hinfo := hle.pools _ _ (h.poolInfoCache _ _ hinfo)
  queue _ hn := htrade _ (h.queue _ hn)
  handlers _ hh := (h.handlers _ hh).imp (htrade _) (StageKnows.mono hle)

theorem enqueue (h : E.EnricherKnows pools isTrade e) {payloads : List SwapPayload}
    (hpayloads : ∀ payload ∈ payloads, isTrade payload.toTrade) :
    E.EnricherKnows pools isTrade { e with queue := e.queue ++ payloads } :=
  { h with
    queue := fun notification hn =>
      (List.mem_append.mp hn).elim (h.queue notification) (hpayloads notification) }

theorem cached (h : E.EnricherKnows pools isTrade e) {now : Nat} :
    ∀ mint found, enricherCache priceCacheTtl e now mint = some found → E.good mint found := by
  intro mint found hfound
  simp only [enricherCache, Enricher.getCachedPrice, Option.map_eq_some_iff,
    Option.bind_eq_some_iff, Option.ite_none_right_eq_some, Option.some.injEq] at hfound
  obtain ⟨_, ⟨entry, hentry, -, rfl⟩, rfl⟩ := hfound
  exact h.priceCache mint entry hentry

theorem handle (h : E.EnricherKnows pools isTrade e) {notification : SwapPayload}
    (hn : isTrade notification.toTrade) :
    E.EnricherKnows pools isTrade (e.handleSwapNotification notification) := by
  unfold Enricher.handleSwapNotification
  split
  · refine { h with handlers := fun handler hmem => ?_ }
    rcases List.mem_append.mp hmem with hmem | hmem
    · exact h.handlers handler hmem
    · rw [List.mem_singleton] at hmem
      subst hmem
      refine ⟨hn, ?_⟩
      cases hcache : e.poolInfoCache notification.pair with
      | none => trivial
      | some poolInfo => exact h.poolInfoCache _ _ hcache
  · exact h

theorem store (h : E.EnricherKnows pools isTrade e) {now : Nat} {uncachedMints : List String}
    {data : PriceResponse N}
    (hdata : ∀ mint ∈ uncachedMints, E.good mint (data.tokenPrice mint)) :
    E.EnricherKnows pools isTrade (e.store now uncachedMints data) := by
  refine { h with priceCache := fun mint entry hentry => ?_ }
  simp only [Enricher.store] at hentry
  split at hentry
  · rename_i hmint
    cases hprice : data.tokenPrice mint with
    | none =>
      rw [hprice] at hentry
      exact h.priceCache mint entry hentry
    | some info =>
      rw [hprice] at hentry
      cases hentry
      exact hprice ▸ hdata mint hmint
  · exact h.priceCache mint entry hentry

theorem resume {handler : Handler N} {action : HandlerAction N} {stage : Stage N}
    {update : Option VolumeUpdate} (h : E.EnricherKnows pools isTrade e)
    (hstage : E.StageKnows pools handler.trade handler.stage)
    (hgood : E.GoodResume pools priceCacheTtl e handler action)
    (hresume : e.resume priceCacheTtl pools handler.trade handler.stage action =
      some (e', stage, update)) :
    E.EnricherKnows pools isTrade e' ∧ E.StageKnows pools handler.trade stage := by
  obtain ⟨trade, old⟩ := handler
  dsimp only at hstage hresume
  cases old with
  | lookingUp =>
    cases action with
    | poolQuery succeeds =>
      obtain ⟨rfl, hsome⟩ := hgood
      obtain ⟨poolInfo, hpool⟩ := Option.ne_none_iff_exists'.mp hsome
      dsimp only at hpool
      simp only [Enricher.resume, if_true, hpool, Option.some.injEq, Prod.mk.injEq] at hresume
      obtain ⟨rfl, rfl, -⟩ := hresume
      exact ⟨{ h with poolInfoCache := known_update h.poolInfoCache hpool }, hpool⟩
    | _ => cases hresume
  | pooled poolInfo =>
    cases action with
    | readPrices now =>
      have hcached : ∀ mint found, enricherCache priceCacheTtl e now mint = some found →
          E.good mint found := h.cached
      have hnext := stageKnows_fromCache hcached hstage hgood
      simp only [Enricher.resume] at hresume
      split at hresume <;> rename_i hall <;> cases hresume
      · rw [if_pos hall] at hnext
        exact ⟨h, hnext⟩
      · rw [if_neg hall] at hnext
        exact ⟨h, hnext⟩
    | _ => cases hresume
  | fetching poolInfo results uncachedMints =>
    cases action with
    | response now data =>
      cases data with
      | none =>
        cases hresume
        exact ⟨h, computed_answered hstage hgood⟩
      | some data =>
        cases hresume
        exact ⟨h.store fun mint hmint => hgood.1 mint hmint,
          computed_answered hstage hgood⟩
    | _ => cases hresume
  | updating volumeUsd =>
    cases action with
    | update order =>
      cases order <;> cases hresume <;> exact ⟨h, trivial⟩
    | _ => cases hresume
  | done => cases action <;> cases hresume

/-- A step of the enricher that counts, and what its update writes. -/
theorem step {action : EnricherAction N} {update : Option VolumeUpdate}
    (h : E.EnricherKnows pools isTrade e) (hgood : E.GoodEnricher pools priceCacheTtl e action)
    (hstep : e.step priceCacheTtl pools action = some (e', update)) :
    E.EnricherKnows pools isTrade e' ∧ ∀ u, update = some u → ∃ trade volumeUsd,
      e.updater action = some trade ∧ isTrade trade ∧ E.Computed pools trade volumeUsd ∧
        u.txSig = trade.txSig ∧ u.volumeUsd = text volumeUsd := by
  obtain ⟨notification, queue, rfl, hqueue, rfl, rfl⟩ |
    ⟨idx, act, handler, e₁, stage, rfl, hhandler, hresume, rfl⟩ := Enricher.step_cases hstep
  · refine ⟨?_, writes_nothing⟩
    have hrest : E.EnricherKnows pools isTrade { e with queue := queue } :=
      { h with queue := fun p hp => h.queue p (hqueue ▸ List.mem_cons_of_mem _ hp) }
    exact hrest.handle (h.queue _ (hqueue ▸ List.mem_cons_self))
  · obtain ⟨htrade, hstage⟩ := h.handlers handler (List.mem_of_getElem? hhandler)
    obtain ⟨hknows, hnext⟩ := h.resume hstage (hgood handler hhandler) hresume
    constructor
    · refine { hknows with handlers := fun other hother => ?_ }
      rcases List.mem_or_eq_of_mem_set hother with hother | rfl
      · exact hknows.handlers other hother
      · exact ⟨htrade, hnext⟩
    · rintro u rfl
      obtain ⟨-, -, -, ⟨hnone, -⟩ | ⟨-, hnone, -⟩ | ⟨volumeUsd, order, hupdating, rfl, hu, -⟩⟩ :=
        Enricher.resume_spec hresume
      · cases hnone
      · cases hnone
      · cases hu
        rw [hupdating] at hstage
        refine ⟨handler.trade, volumeUsd, ?_, htrade, hstage, rfl, rfl⟩
        rw [Enricher.updater, hhandler, Option.map_some]

end EnricherKnows

/-! ## The backfill -/

/-- The current row and the rest of the batch are trades of the table, and the
locals of the current row count. -/
def PhaseKnows (E : Evidence N) (pools : String → Option PoolInfo) (isTrade : Trade → Prop) :
    BackfillPhase N → Prop
  | .handling row rest stage => isTrade row.toTrade ∧ (∀ r ∈ rest, isTrade r.toTrade) ∧
      E.StageKnows pools row.toTrade stage
  | _ => True

/-- Everything in the caches of the backfill and in its current row counts. -/
structure BackfillKnows (E : Evidence N) (pools : String → Option PoolInfo)
    (isTrade : Trade → Prop) (b : Backfill N) : Prop where
  priceCache : ∀ mint found, b.priceCache mint = some found → E.good mint found
  poolInfoCache : ∀ pair poolInfo, b.poolInfoCache pair = some poolInfo →
    pools pair = some poolInfo
  phase : E.PhaseKnows pools isTrade b.phase

/-- What the current row is resumed with counts and is enough. -/
def GoodBackfill (E : Evidence N) (b : Backfill N) : BackfillAction N → Prop
  | .readPrices => ∀ p ∈ b.phase.current, E.GoodCache b.priceCache p.1 p.2
  | .response data => ∀ p ∈ b.phase.current, E.GoodAnswer p.1 data p.2
  | _ => True

namespace BackfillKnows

variable {isTrade : Trade → Prop} {b b' : Backfill N}

theorem start (pairFilter : Option String) (maxLimit : Option Int) (batchSize : Nat) :
    E.BackfillKnows pools isTrade (.start pairFilter maxLimit batchSize) where
  priceCache _ _ h := nomatch h
  poolInfoCache _ _ h := nomatch h
  phase := trivial

theorem mono {E' : Evidence N} {pools' : String → Option PoolInfo} {isTrade' : Trade → Prop}
    (h : E.BackfillKnows pools isTrade b) (hle : Le E E' pools pools')
    (htrade : ∀ trade, isTrade trade → isTrade' trade) :
    E'.BackfillKnows pools' isTrade' b where
  priceCache _ _ hfound := hle.good _ _ (h.priceCache _ _ hfound)
  poolInfoCache _ _ hinfo := hle.pools _ _ (h.poolInfoCache _ _ hinfo)
  phase := by
    have hphase := h.phase
    cases hb : b.phase with
    | handling row rest stage =>
      rw [hb] at hphase
      exact ⟨htrade _ hphase.1, fun r hr => htrade _ (hphase.2.1 r hr), hphase.2.2.mono hle⟩
    | _ => trivial

theorem withPhase (h : E.BackfillKnows pools isTrade b) {phase : BackfillPhase N}
    (hphase : E.PhaseKnows pools isTrade phase) :
    E.BackfillKnows pools isTrade { b with phase := phase } :=
  { h with phase := hphase }

theorem enter (h : E.BackfillKnows pools isTrade b) {row : Swap} {rest : List Swap}
    (hrow : isTrade row.toTrade) (hrest : ∀ r ∈ rest, isTrade r.toTrade) :
    E.BackfillKnows pools isTrade (b.enter row rest) := by
  unfold Backfill.enter
  cases hcache : b.poolInfoCache row.pair with
  | none => exact h.withPhase ⟨hrow, hrest, trivial⟩
  | some poolInfo => exact h.withPhase ⟨hrow, hrest, h.poolInfoCache _ _ hcache⟩

theorem next (h : E.BackfillKnows pools isTrade b) {rest : List Swap}
    (hrest : ∀ r ∈ rest, isTrade r.toTrade) : E.BackfillKnows pools isTrade (b.next rest) := by
  cases rest with
  | nil => exact ⟨h.priceCache, h.poolInfoCache, trivial⟩
  | cons row rest =>
    rw [List.forall_mem_cons] at hrest
    exact enter (b := { b with processed := b.processed + 1 })
      ⟨h.priceCache, h.poolInfoCache, h.phase⟩ hrest.1 hrest.2

theorem store (h : E.BackfillKnows pools isTrade b) {uncachedMints : List String}
    {data : PriceResponse N}
    (hdata : ∀ mint ∈ uncachedMints, E.good mint (data.tokenPrice mint)) :
    E.BackfillKnows pools isTrade (b.store uncachedMints data) := by
  refine { h with priceCache := fun mint found hfound => ?_ }
  simp only [Backfill.store] at hfound
  split at hfound
  · cases hfound
    exact hdata mint ‹_›
  · exact h.priceCache mint found hfound

theorem resumed {row : Swap} {rest : List Swap} {stage : Stage N} {action : BackfillAction N}
    {update : Option VolumeUpdate} (h : E.BackfillKnows pools isTrade b)
    (hphase : b.phase = .handling row rest stage) (hgood : E.GoodBackfill b action)
    (hresumed : Backfill.Resumed pools b row rest stage action b' update) :
    E.BackfillKnows pools isTrade b' ∧ ∀ u, update = some u → ∃ volumeUsd,
      stage = .updating volumeUsd ∧ b.updater action = some row.toTrade ∧
        E.Computed pools row.toTrade volumeUsd ∧ u.txSig = row.txSig ∧
        u.volumeUsd = text volumeUsd := by
  have hknows := h.phase
  rw [hphase] at hknows
  obtain ⟨hrow, hrest, hstage⟩ := hknows
  have hcurrent : (row.toTrade, stage) ∈ b.phase.current := by rw [hphase]; rfl
  cases hresumed with
  | found hpool =>
    exact ⟨⟨h.priceCache, known_update h.poolInfoCache hpool, hrow, hrest, hpool⟩, writes_nothing⟩
  | skipped => exact ⟨h.next hrest, writes_nothing⟩
  | priced hfound =>
    subst hfound
    have hnext := stageKnows_fromCache h.priceCache hstage (hgood _ hcurrent)
    exact ⟨h.withPhase ⟨hrow, hrest, hnext⟩, writes_nothing⟩
  | unanswered =>
    exact ⟨h.withPhase ⟨hrow, hrest, computed_answered hstage (hgood _ hcurrent)⟩, writes_nothing⟩
  | answered =>
    have hstore := h.store fun mint hmint => (hgood _ hcurrent).1 mint hmint
    exact ⟨hstore.withPhase ⟨hrow, hrest, computed_answered hstage (hgood _ hcurrent)⟩,
      writes_nothing⟩
  | updated =>
    refine ⟨h.next hrest, fun u hu => ?_⟩
    cases hu
    exact ⟨_, rfl, by rw [Backfill.updater, hcurrent]; rfl, hstage, rfl, rfl⟩
  | failed => exact ⟨h.withPhase trivial, writes_nothing⟩

/-- A step of the backfill that counts, and what its update writes. -/
theorem step {table : SwapTable} {action : BackfillAction N} {update : Option VolumeUpdate}
    (h : E.BackfillKnows pools isTrade b) (htable : ∀ row ∈ table.rows, isTrade row.toTrade)
    (hgood : E.GoodBackfill b action) (hstep : b.step table pools action = some (b', update)) :
    E.BackfillKnows pools isTrade b' ∧ ∀ u, update = some u → ∃ row rest volumeUsd,
      b.phase = .handling row rest (.updating volumeUsd) ∧
        b.updater action = some row.toTrade ∧ isTrade row.toTrade ∧
        E.Computed pools row.toTrade volumeUsd ∧ u.txSig = row.txSig ∧
        u.volumeUsd = text volumeUsd := by
  cases Backfill.stepped_of_step hstep with
  | nothing => exact ⟨h.withPhase trivial, writes_nothing⟩
  | counted => exact ⟨⟨h.priceCache, h.poolInfoCache, trivial⟩, writes_nothing⟩
  | exhausted => exact ⟨h.withPhase trivial, writes_nothing⟩
  | @batch ordered _ _ _ _ hperm _ hbatch =>
    have hmem : ∀ r ∈ ordered.take b.batchSize, isTrade r.toTrade := fun r hr =>
      htable r (List.mem_filter.mp (hperm.mem_iff.mp (List.mem_of_mem_take hr))).1
    rw [hbatch, List.forall_mem_cons] at hmem
    exact ⟨h.enter hmem.1 hmem.2, writes_nothing⟩
  | stopped => exact ⟨h.withPhase trivial, writes_nothing⟩
  | failed => exact ⟨h.withPhase trivial, writes_nothing⟩
  | resumed hphase hresumed =>
    obtain ⟨hknows, hupdate⟩ := h.resumed hphase hgood hresumed
    refine ⟨hknows, fun u hu => ?_⟩
    obtain ⟨volumeUsd, rfl, hupdater, hcomputed, hsig, htext⟩ := hupdate u hu
    have htrade := h.phase
    rw [hphase] at htrade
    exact ⟨_, _, volumeUsd, hphase, hupdater, htrade.1, hcomputed, hsig, htext⟩

end BackfillKnows

end Evidence

end Stream

end OmnipairIndexer
