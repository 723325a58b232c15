/-
The volume enricher: `volumeEnricher.ts`.

JavaScript runs a handler until its next `await`, so a handler is a `Stage` that
other handlers run in between.  The answers of the pool query and of the price
API, the outcome of the update and the readings of the clock come with the action.
-/
import OmnipairIndexer.Scripts.Prices

namespace OmnipairIndexer

open JsNumber

structure PriceCacheEntry (N : Type) where
  price : N
  decimals : Nat
  timestamp : Nat

def PriceCacheEntry.info {N : Type} (entry : PriceCacheEntry N) : PriceInfo N :=
  ⟨entry.price, entry.decimals⟩

structure Handler (N : Type) where
  trade : Trade
  stage : Stage N

/-- The process: its caches, the notifications not yet delivered to it, and the
handlers in the order they were started. -/
structure Enricher (N : Type) where
  priceCache : String → Option (PriceCacheEntry N)
  poolInfoCache : String → Option PoolInfo
  queue : List SwapPayload
  handlers : List (Handler N)

inductive HandlerAction (N : Type) where
  | poolQuery (succeeds : Bool)
  | readPrices (now : Nat)
  | response (now : Nat) (data : Option (PriceResponse N))
  | update (order : Option (List Swap))

inductive EnricherAction (N : Type) where
  | deliver
  | handler (idx : Nat) (action : HandlerAction N)

namespace Enricher

variable {N : Type}

def start : Enricher N := ⟨fun _ => none, fun _ => none, [], []⟩

/-- The checks of `handleSwapNotification` before it computes anything. -/
def accepts (notification : SwapPayload) : Bool :=
  decide (notification.op = "INSERT") &&
    !(decide (notification.volumeUsd ≠ "") && decide (notification.volumeUsd ≠ "0"))

/-- `handleSwapNotification` up to its first wait. -/
def handleSwapNotification (e : Enricher N) (notification : SwapPayload) : Enricher N :=
  if accepts notification then
    let stage := match e.poolInfoCache notification.pair with
      | some poolInfo => .pooled poolInfo
      | none => .lookingUp
    { e with handlers := e.handlers ++ [⟨notification.toTrade, stage⟩] }
  else e

variable [JsNumber N]

def getCachedPrice (priceCacheTtl : Nat) (e : Enricher N) (now : Nat) (mint : String) :
    Option (PriceInfo N) :=
  (e.priceCache mint).bind fun entry =>
    if now - entry.timestamp < priceCacheTtl then some entry.info else none

def store (e : Enricher N) (now : Nat) (uncachedMints : List String) (data : PriceResponse N) :
    Enricher N :=
  { e with
    priceCache := fun mint =>
      if mint ∈ uncachedMints then
        match data.tokenPrice mint with
        | some info => some ⟨info.price, info.decimals, now⟩
        | none => e.priceCache mint
      else e.priceCache mint }

def lookupFailed : Stage N := .updating zero

/-- A handler from one wait to the next, with the update it makes.  A pool that is
not found and a trade without a price both count as a volume of zero. -/
def resume (priceCacheTtl : Nat) (pools : String → Option PoolInfo) (e : Enricher N)
    (trade : Trade) : Stage N → HandlerAction N →
      Option (Enricher N × Stage N × Option VolumeUpdate)
  | .lookingUp, .poolQuery succeeds =>
    match if succeeds then pools trade.pair else none with
    | some poolInfo =>
      some ({ e with poolInfoCache := Function.update e.poolInfoCache trade.pair (some poolInfo) },
        .pooled poolInfo, none)
    | none => some (e, lookupFailed, none)
  | .pooled poolInfo, .readPrices now =>
    let (results, uncachedMints) := fromCache
      (fun mint => (getCachedPrice priceCacheTtl e now mint).map some)
      (poolInfo.mints trade.isToken0In)
    if uncachedMints = [] then some (e, .updating (trade.computeVolumeUsd results poolInfo), none)
    else some (e, .fetching poolInfo results uncachedMints, none)
  | .fetching poolInfo results _, .response _ none =>
    some (e, .updating (trade.computeVolumeUsd results poolInfo), none)
  | .fetching poolInfo results uncachedMints, .response now (some data) =>
    some (store e now uncachedMints data,
      .updating (trade.computeVolumeUsd (merged results uncachedMints data) poolInfo), none)
  | .updating _, .update none => some (e, .done, none)
  | .updating volumeUsd, .update (some order) =>
    some (e, .done, some ⟨text volumeUsd, trade.txSig, order⟩)
  | _, _ => none

def step (priceCacheTtl : Nat) (pools : String → Option PoolInfo) (e : Enricher N) :
    EnricherAction N → Option (Enricher N × Option VolumeUpdate)
  | .deliver =>
    match e.queue with
    | notification :: queue =>
      some (handleSwapNotification { e with queue := queue } notification, none)
    | [] => none
  | .handler idx action => do
    let handler ← e.handlers[idx]?
    let (e, stage, update) ← resume priceCacheTtl pools e handler.trade handler.stage action
    return ({ e with handlers := e.handlers.set idx { handler with stage := stage } }, update)

/-! ## What a step does -/

variable {priceCacheTtl : Nat} {pools : String → Option PoolInfo} {e e' : Enricher N}
  {update : Option VolumeUpdate}

/-- Resuming a handler touches neither the queue nor the other handlers.  It ends
the handler when its update is over, and only a successful update is made. -/
theorem resume_spec {trade : Trade} {stage stage' : Stage N} {action : HandlerAction N}
    (h : resume priceCacheTtl pools e trade stage action = some (e', stage', update)) :
    e'.queue = e.queue ∧ e'.handlers = e.handlers ∧ stage.isDone = false ∧
      ((update = none ∧ stage'.isDone = false) ∨
        (action = .update none ∧ update = none ∧ stage' = .done) ∨
        ∃ volumeUsd order, stage = .updating volumeUsd ∧ action = .update (some order) ∧
          update = some ⟨text volumeUsd, trade.txSig, order⟩ ∧ stage' = .done) := by
  cases stage with
  | lookingUp =>
    cases action with
    | poolQuery succeeds =>
      simp only [resume] at h
      split at h <;> cases h <;> exact ⟨rfl, rfl, rfl, Or.inl ⟨rfl, rfl⟩⟩
    | _ => cases h
  | pooled poolInfo =>
    cases action with
    | readPrices now =>
      simp only [resume] at h
      split at h <;> cases h <;> exact ⟨rfl, rfl, rfl, Or.inl ⟨rfl, rfl⟩⟩
    | _ => cases h
  | fetching poolInfo results uncachedMints =>
    cases action with
    | response now data =>
      cases data <;> cases h <;> exact ⟨rfl, rfl, rfl, Or.inl ⟨rfl, rfl⟩⟩
    | _ => cases h
  | updating volumeUsd =>
    cases action with
    | update order =>
      cases order with
      | none =>
        cases h
        exact ⟨rfl, rfl, rfl, Or.inr (Or.inl ⟨rfl, rfl, rfl⟩)⟩
      | some order =>
        cases h
        exact ⟨rfl, rfl, rfl, Or.inr (Or.inr ⟨volumeUsd, order, rfl, rfl, rfl, rfl⟩)⟩
    | _ => cases h
  | done => cases action <;> cases h

theorem step_cases {action : EnricherAction N}
    (h : e.step priceCacheTtl pools action = some (e', update)) :
    (∃ notification queue, action = .deliver ∧ e.queue = notification :: queue ∧ update = none ∧
      e' = handleSwapNotification { e with queue := queue } notification) ∨
    ∃ idx act handler e₁ stage, action = .handler idx act ∧ e.handlers[idx]? = some handler ∧
      resume priceCacheTtl pools e handler.trade handler.stage act = some (e₁, stage, update) ∧
      e' = { e₁ with handlers := e₁.handlers.set idx ⟨handler.trade, stage⟩ } := by
  cases action with
  | deliver =>
    simp only [step] at h
    split at h
    · rename_i notification queue hqueue
      cases h
      exact Or.inl ⟨notification, queue, rfl, hqueue, rfl, rfl⟩
    · cases h
  | handler idx act =>
    simp only [step, Option.bind_eq_bind, Option.bind_eq_some_iff] at h
    obtain ⟨handler, hhandler, ⟨e₁, stage, _⟩, hresume, heq⟩ := h
    cases heq
    exact Or.inr ⟨idx, act, handler, e₁, stage, rfl, hhandler, hresume, rfl⟩

theorem update_text {action : EnricherAction N} {u : VolumeUpdate}
    (h : e.step priceCacheTtl pools action = some (e', some u)) :
    ∃ n : N, u.volumeUsd = text n := by
  obtain ⟨_, _, -, -, hnone, -⟩ | ⟨_, _, _, _, _, -, -, hresume, -⟩ := step_cases h
  · cases hnone
  · obtain ⟨-, -, -, ⟨hnone, -⟩ | ⟨-, hnone, -⟩ | ⟨n, order, -, -, hsome, -⟩⟩ :=
      resume_spec hresume
    · cases hnone
    · cases hnone
    · cases hsome
      exact ⟨n, rfl⟩

omit [JsNumber N] in
def updater (e : Enricher N) : EnricherAction N → Option Trade
  | .handler idx (.update (some _)) => e.handlers[idx]?.map Handler.trade
  | _ => none

/-! ## Work that is not over -/

omit [JsNumber N] in
/-- The notifications of a transaction that will be enriched and the handlers
working on it. -/
def outstanding (e : Enricher N) (txSig : String) : Nat :=
  (e.queue.countP fun notification => accepts notification && decide (notification.txSig = txSig)) +
    e.handlers.countP fun handler =>
      !handler.stage.isDone && decide (handler.trade.txSig = txSig)

omit [JsNumber N] in
theorem accepts_insert (new : Swap) (h : new.volumeUsd = none) :
    accepts (notifySwapUpdated "INSERT" new) = true := by
  simp [accepts, notifySwapUpdated, h]

omit [JsNumber N] in
theorem accepts_update (new : Swap) : accepts (notifySwapUpdated "UPDATE" new) = false := by
  simp [accepts, notifySwapUpdated]

omit [JsNumber N] in
theorem outstanding_handleSwapNotification (notification : SwapPayload) (txSig : String) :
    (handleSwapNotification e notification).outstanding txSig =
      e.outstanding txSig +
        if accepts notification = true ∧ notification.txSig = txSig then 1 else 0 := by
  unfold handleSwapNotification
  by_cases hacc : accepts notification = true
  · rw [if_pos hacc, outstanding, outstanding, List.countP_append, ← Nat.add_assoc]
    congr 1
    cases e.poolInfoCache notification.pair <;>
      simp [List.countP_singleton, Stage.isDone, hacc]
  · rw [if_neg hacc, if_neg fun h => hacc h.1, Nat.add_zero]

def Completes : EnricherAction N → Prop
  | .handler _ (.update order) => order ≠ none
  | _ => True

instance : (action : EnricherAction N) → Decidable (Completes action)
  | .handler _ (.update order) => decidable_of_iff (order.isSome = true) Option.isSome_iff_ne_none
  | .handler _ (.poolQuery _) | .handler _ (.readPrices _) | .handler _ (.response _ _)
  | .deliver => .isTrue trivial

/-- Work ends with an update of its transaction, and only then. -/
theorem outstanding_step {action : EnricherAction N} (hcompletes : Completes action)
    (h : e.step priceCacheTtl pools action = some (e', update)) (txSig : String) :
    e.outstanding txSig =
      e'.outstanding txSig + update.toList.countP fun u => decide (u.txSig = txSig) := by
  obtain ⟨notification, queue, rfl, hqueue, rfl, rfl⟩ |
    ⟨idx, act, handler, e₁, stage, rfl, hhandler, hresume, rfl⟩ := step_cases h
  · rw [outstanding_handleSwapNotification]
    simp only [outstanding, hqueue, List.countP_cons, Bool.and_eq_true, decide_eq_true_eq,
      Option.toList_none, List.countP_nil]
    omega
  · obtain ⟨hq, hh, hstage, hend⟩ := resume_spec hresume
    obtain ⟨hlt, hget⟩ := List.getElem?_eq_some_iff.mp hhandler
    obtain ⟨before, after, hsplit, -, hset⟩ :=
      @List.exists_of_set _ idx (⟨handler.trade, stage⟩ : Handler N) _ hlt
    rw [hget] at hsplit
    simp only [outstanding, hq, hh, hset]
    rw [hsplit]
    simp only [List.countP_append, List.countP_cons, hstage, Bool.not_false, Bool.true_and,
      decide_eq_true_eq]
    obtain ⟨rfl, hdone⟩ | ⟨rfl, -, -⟩ | ⟨volumeUsd, order, -, -, rfl, rfl⟩ := hend
    · simp only [hdone, Bool.not_false, Bool.true_and, decide_eq_true_eq, Option.toList_none,
        List.countP_nil]
      omega
    · exact absurd rfl hcompletes
    · simp only [Stage.isDone, Bool.not_true, Bool.false_and, Bool.false_eq_true, if_false,
        Option.toList_some, List.countP_singleton, decide_eq_true_eq]
      omega

end Enricher

end OmnipairIndexer
