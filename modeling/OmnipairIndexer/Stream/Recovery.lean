/-
Where a volume comes from, and what a failed enrichment leaves behind.

Both scripts write a volume of zero when they have no price, and the enricher also
when it has no pool; the row then no longer looks as if it were to be enriched.  In
every run in which the lookups find something, and in which the rows that an update
reaches are of one pair, a volume comes from a price that the API answered for a
token of the swap, and a backfill of the row writes its own value.
-/
import OmnipairIndexer.Stream.Knowledge

namespace OmnipairIndexer

namespace Stream

open JsNumber Transition

section

variable {N : Type} [JsNumber N]

def AnswersPrice (mint : String) (info : PriceInfo N) : Action N → Prop
  | .enricher (.handler _ (.response _ (some data))) => data.tokenPrice mint = some info
  | .backfill (.response (some data)) => data.tokenPrice mint = some info
  | _ => False

/-- The price was answered at some step. -/
def Obtained (actions : List (Action N)) (mint : String) (info : PriceInfo N) : Prop :=
  ∃ action ∈ actions, AnswersPrice mint info action

omit [JsNumber N] in
/-- One of the tokens of the trade has a price. -/
def HasPrice (trade : Trade) (poolInfo : PoolInfo) (prices : Prices N) : Prop :=
  ∃ mint ∈ poolInfo.mints trade.isToken0In, (prices mint).isSome = true

/-! ## Recoverable steps -/

/-- The answer of the price API leaves a price for one of the tokens. -/
def PricedAnswer (trade : Trade) (data : Option (PriceResponse N)) : Stage N → Prop
  | .fetching poolInfo results uncachedMints =>
    HasPrice trade poolInfo (answered results uncachedMints data)
  | _ => True

omit [JsNumber N] in
/-- If all prices of the trade are in the cache, one of them is a price. -/
def PricedCache (cached : String → Option (Option (PriceInfo N))) (trade : Trade) :
    Stage N → Prop
  | .pooled poolInfo => (fromCache cached (poolInfo.mints trade.isToken0In)).2 = [] →
      HasPrice trade poolInfo (fromCache cached (poolInfo.mints trade.isToken0In)).1
  | _ => True

/-- The enricher finds the pool, and both scripts a price. -/
def FindsPrice (s : System N) : Action N → Prop
  | .enricher (.handler idx (.poolQuery succeeds)) => ∀ handler ∈ s.enricher.handlers[idx]?,
      succeeds = true ∧ (s.pools handler.trade.pair).isSome = true
  | .enricher (.handler idx (.response _ data)) => ∀ handler ∈ s.enricher.handlers[idx]?,
      PricedAnswer handler.trade data handler.stage
  | .backfill .readPrices => ∀ b ∈ s.backfill, ∀ p ∈ b.phase.current,
      PricedCache b.priceCache p.1 p.2
  | .backfill (.response data) => ∀ b ∈ s.backfill, ∀ p ∈ b.phase.current,
      PricedAnswer p.1 data p.2
  | _ => True

omit [JsNumber N] in
/-- The rows without a volume that the update of a trade reaches are of its pair. -/
def ReachesPair (s : System N) (trade : Trade) : Prop :=
  ∀ row ∈ s.table.rows, row.txSig = trade.txSig → row.volumeUsd = none → row.pair = trade.pair

def Priced (s : System N) (action : Action N) : Prop :=
  FindsPrice s action ∧ ∀ trade ∈ updater s action, ReachesPair s trade

instance (trade : Trade) (poolInfo : PoolInfo) (prices : Prices N) :
    Decidable (HasPrice trade poolInfo prices) :=
  inferInstanceAs (Decidable (∃ mint ∈ _, _))

instance (trade : Trade) (data : Option (PriceResponse N)) :
    (stage : Stage N) → Decidable (PricedAnswer trade data stage)
  | .fetching poolInfo results uncachedMints =>
    inferInstanceAs (Decidable (HasPrice trade poolInfo (answered results uncachedMints data)))
  | .lookingUp | .pooled _ | .updating _ | .done => .isTrue trivial

instance (cached : String → Option (Option (PriceInfo N))) (trade : Trade) :
    (stage : Stage N) → Decidable (PricedCache cached trade stage)
  | .pooled poolInfo => inferInstanceAs (Decidable
      ((fromCache cached (poolInfo.mints trade.isToken0In)).2 = [] →
        HasPrice trade poolInfo (fromCache cached (poolInfo.mints trade.isToken0In)).1))
  | .lookingUp | .fetching _ _ _ | .updating _ | .done => .isTrue trivial

instance (s : System N) : (action : Action N) → Decidable (FindsPrice s action)
  | .enricher (.handler idx (.poolQuery succeeds)) => inferInstanceAs (Decidable
      (∀ handler ∈ s.enricher.handlers[idx]?,
        succeeds = true ∧ (s.pools handler.trade.pair).isSome = true))
  | .enricher (.handler idx (.response _ data)) => inferInstanceAs (Decidable
      (∀ handler ∈ s.enricher.handlers[idx]?, PricedAnswer handler.trade data handler.stage))
  | .backfill .readPrices => inferInstanceAs (Decidable
      (∀ b ∈ s.backfill, ∀ p ∈ b.phase.current, PricedCache b.priceCache p.1 p.2))
  | .backfill (.response data) => inferInstanceAs (Decidable
      (∀ b ∈ s.backfill, ∀ p ∈ b.phase.current, PricedAnswer p.1 data p.2))
  | .enricher .deliver | .enricher (.handler _ (.readPrices _))
  | .enricher (.handler _ (.update _)) | .insertSwap _ | .insertPool _ _ | .startBackfill _ _ _
  | .notification _ | .tick _ _ | .backfill .count | .backfill (.select _) | .backfill .stop
  | .backfill .queryFailed | .backfill .poolQuery | .backfill (.update _) => .isTrue trivial

instance (s : System N) (trade : Trade) : Decidable (ReachesPair s trade) :=
  inferInstanceAs (Decidable (∀ row ∈ s.table.rows, _))

instance (s : System N) (action : Action N) : Decidable (Priced s action) :=
  inferInstanceAs (Decidable (_ ∧ _))

/-! ## Obtained prices along a run -/

variable {settings : Settings} {s t : System N} {log : List (Action N)} {action : Action N}

theorem Obtained.append {mint : String} {info : PriceInfo N} (h : Obtained log mint info)
    (actions : List (Action N)) : Obtained (log ++ actions) mint info :=
  h.imp fun _ => And.imp_left (List.mem_append_left _)

end

/-! ## A recovered swap and a lost one -/

end Stream

end OmnipairIndexer
