/-
The three tasks of `RpcTransactionCrawler` and the channels between them.

The signature fetcher puts signatures into a channel, the transaction fetcher asks for
their transactions, some at a time, and the task processor makes updates of them for the
pipeline.  A step is one action of one task, or something from outside: an answer of the
RPC, an arriving signature, room in the channel of the pipeline.  A task that waits for
room in a channel does not go on.

What the processor has done with each transaction is kept for the statements.  The
channels are taken to be open, so a run ends where the crawler is cancelled.
-/
import OmnipairIndexer.Datasource.HeliusWebsocket
import OmnipairIndexer.Datasource.SignatureLoop
import OmnipairIndexer.Library.BufferUnordered

namespace OmnipairIndexer

open Transition

/-- What `connection_config` has besides the batch limit. -/
structure ConnectionConfig where
  maxConcurrentRequests : Nat
  maxRetries : Nat
  maxSignatureChannelSize : Option Nat
  maxTransactionChannelSize : Option Nat
  blockingSend : Bool

structure Crawler extends RpcTransactionCrawler where
  connectionConfig : ConnectionConfig
  /-- The accounts of the filters. -/
  accounts : Option (List Pubkey)

/-- The crawler that the indexer runs. -/
def Crawler.create (rpc : Rpc) (history : History) (startBlock : Option Nat) : Crawler where
  toRpcTransactionCrawler := StartBlock.createTransactionCrawlerDatasource rpc history startBlock
  connectionConfig := ⟨5, 0, none, none, true⟩
  accounts := none

namespace Crawler

def signatureChannelSize (crawler : Crawler) : Nat :=
  crawler.connectionConfig.maxSignatureChannelSize.getD 1000

def transactionChannelSize (crawler : Crawler) : Nat :=
  crawler.connectionConfig.maxTransactionChannelSize.getD 1000

/-- An answer to `getTransaction`; the message is missing when it does not decode. -/
structure FetchedTransaction where
  statusMeta : Option HeliusWebsocket.UiTransactionStatusMeta
  transaction : Option VersionedMessage
  slot : UInt64

abbrev Fetched := String × FetchedTransaction

def allAccounts (message : VersionedMessage)
    (metaOriginal : HeliusWebsocket.UiTransactionStatusMeta) : List Pubkey :=
  let loadedAddresses := metaOriginal.loadedAddresses.getD ⟨[], []⟩
  message.staticAccountKeys ++ loadedAddresses.writable.filterMap id ++
    loadedAddresses.readonly.filterMap id

/-- What the task processor makes of a transaction, `none` if it skips it. -/
def toUpdate (crawler : Crawler) (fetched : Fetched) : Option TransactionUpdate := do
  let metaOriginal ← fetched.2.statusMeta
  if metaOriginal.statusIsErr then none
  else
    let decodedTransaction ← fetched.2.transaction
    if crawler.accounts.any fun accounts =>
        !(allAccounts decodedTransaction metaOriginal).any (· ∈ accounts) then none
    else
      return ⟨fetched.1, decodedTransaction, metaOriginal.metaNeeded, fetched.2.slot⟩

inductive Outcome where
  | sent (update : TransactionUpdate)
  | notSent (update : TransactionUpdate)
  | skipped

def Outcome.sent? : Outcome → Option TransactionUpdate
  | sent update => some update
  | notSent _ => none
  | skipped => none

structure State where
  fetcher : SignatureFetcher.State
  /-- How many signatures the fetcher has put into the channel. -/
  queued : Nat
  /-- The requests, each with its retries. -/
  requests : BufferUnordered Nat (Option FetchedTransaction)
  sending : Option Fetched
  transactions : List Fetched
  processing : Option (Fetched × TransactionUpdate)
  processed : List (Fetched × Outcome)

def start (crawler : Crawler) (history : History) : State where
  fetcher := StartBlock.start crawler.toRpcTransactionCrawler history
  queued := 0
  requests := .new
  sending := none
  transactions := []
  processing := none
  processed := []

inductive Action where
  | signatures (action : SignatureFetcher.Action)
  | sendSignature
  | request
  | answer (i : Nat) (transaction : Option FetchedTransaction)
  | sendTransaction
  | process
  | sendUpdate (hasRoom : Bool)

/-- The signature fetcher makes its next call when it has sent all it was given; signatures
arrive at any time. -/
def fetcherReady (s : State) : SignatureFetcher.Action → Bool
  | .arrive _ => true
  | .fetch _ => s.queued = s.fetcher.sent.length
  | .failed => s.queued = s.fetcher.sent.length

/-- An answer to the i-th request in flight.  After a failure the request is repeated, or
given up. -/
def answer (maxRetries i : Nat) (transaction : Option FetchedTransaction) (s : State) :
    Option State :=
  match s.requests.inFlight[i]? with
  | none => none
  | some (place, retries) =>
    match transaction with
    | some tx =>
      s.fetcher.sent[place]?.map fun signature =>
        { s with
          requests := s.requests.finish i (some tx)
          sending := some (signature, tx) }
    | none =>
      if maxRetries ≤ retries then some { s with requests := s.requests.finish i none }
      else some { s with requests := s.requests.resume i (retries + 1) }

/-- The transaction fetcher does not go on while it waits for room in its channel. -/
def step (crawler : Crawler) (s : State) : Action → Option State
  | .signatures action =>
    if fetcherReady s action then
      (SignatureFetcher.step crawler.batchLimit s.fetcher action).map fun fetcher =>
        { s with fetcher := fetcher }
    else none
  | .sendSignature =>
    if s.queued < s.fetcher.sent.length ∧
        s.queued < s.requests.taken + crawler.signatureChannelSize then
      some { s with queued := s.queued + 1 }
    else none
  | .request =>
    if s.sending.isNone ∧ s.requests.taken < s.queued then
      (s.requests.take crawler.connectionConfig.maxConcurrentRequests 0).map fun requests =>
        { s with requests := requests }
    else none
  | .answer i transaction =>
    if s.sending.isNone then answer crawler.connectionConfig.maxRetries i transaction s else none
  | .sendTransaction =>
    match s.sending with
    | none => none
    | some fetched =>
      if s.transactions.length < crawler.transactionChannelSize then
        some { s with sending := none, transactions := s.transactions ++ [fetched] }
      else none
  | .process =>
    match s.processing, s.transactions with
    | none, fetched :: transactions =>
      match crawler.toUpdate fetched with
      | some update =>
        some { s with transactions := transactions, processing := some (fetched, update) }
      | none =>
        some
          { s with
            transactions := transactions
            processed := s.processed ++ [(fetched, .skipped)] }
    | _, _ => none
  | .sendUpdate hasRoom =>
    match s.processing with
    | none => none
    | some (fetched, update) =>
      if hasRoom then
        some
          { s with
            processing := none
            processed := s.processed ++ [(fetched, .sent update)] }
      else if crawler.connectionConfig.blockingSend then none
      else
        some
          { s with
            processing := none
            processed := s.processed ++ [(fetched, .notSent update)] }

/-- The transaction of a finished request, if it was not given up. -/
def fetchedOf (sent : List String) (p : Nat × Option FetchedTransaction) : Option Fetched :=
  p.2.bind fun tx => sent[p.1]?.map fun signature => (signature, tx)

namespace State

/-- What the pipeline was sent. -/
def updates (s : State) : List TransactionUpdate :=
  s.processed.filterMap fun p => p.2.sent?

/-- The transactions obtained, in the order in which their requests finished. -/
def fetched (s : State) : List Fetched := s.requests.finished.filterMap (fetchedOf s.fetcher.sent)

/-- The signatures that were given up. -/
def gaveUp (s : State) : List String :=
  s.requests.finished.filterMap fun p => if p.2.isNone then s.fetcher.sent[p.1]? else none

end State

/-! ## One signature list -/

/-- The fetcher takes back no signature. -/
theorem sent_grows {batchLimit : Nat} {s t : SignatureFetcher.State}
    {action : SignatureFetcher.Action} (h : SignatureFetcher.step batchLimit s action = some t) :
    s.sent <+: t.sent := by
  cases action with
  | arrive info =>
    simp only [SignatureFetcher.step, Option.ite_none_right_eq_some, Option.some.injEq] at h
    obtain ⟨-, rfl⟩ := h
    exact List.prefix_refl _
  | fetch size =>
    obtain rfl := Option.some.inj h
    cases getSignatures s.history s.lastFetchedSignature s.untilSignature batchLimit size with
    | nil => exact List.prefix_refl _
    | cons first rest => exact List.prefix_append _ _
  | failed =>
    obtain rfl := Option.some.inj h
    exact List.prefix_refl _

theorem getElem_prefix {sent sent' : List String} (h : sent <+: sent') {place : Nat}
    (hplace : place < sent.length) : sent'[place]? = sent[place]? := by
  obtain ⟨more, rfl⟩ := h
  exact List.getElem?_append_left hplace

/-! ## What every step keeps -/

structure State.Sound (s : State) (crawler : Crawler) : Prop where
  requests : s.requests.Sound crawler.connectionConfig.maxConcurrentRequests
  taken : s.requests.taken ≤ s.queued
  queued : s.queued ≤ s.fetcher.sent.length
  signatures : s.queued ≤ s.requests.taken + crawler.signatureChannelSize
  transactions : s.transactions.length ≤ crawler.transactionChannelSize
  /-- The channels keep the order in which the requests finished. -/
  order : s.processed.map Prod.fst ++ (s.processing.map Prod.fst).toList ++ s.transactions ++
    s.sending.toList = s.fetched
  processing : ∀ p ∈ s.processing, crawler.toUpdate p.1 = some p.2
  processed : ∀ p ∈ s.processed,
    match p.2 with
    | .sent update => crawler.toUpdate p.1 = some update
    | .notSent update =>
      crawler.toUpdate p.1 = some update ∧ crawler.connectionConfig.blockingSend = false
    | .skipped => crawler.toUpdate p.1 = none

section Steps

variable {crawler : Crawler} {s t : State}

theorem State.Sound.place_lt (h : s.Sound crawler) {place : Nat}
    (hplace : place ∈ s.requests.finished.map Prod.fst ++ s.requests.inFlight.map Prod.fst) :
    place < s.fetcher.sent.length := by
  have htaken := List.mem_range.mp (h.requests.account.subset hplace)
  have hle := Nat.le_trans h.taken h.queued
  omega

theorem fetched_concat (sent : List String) (finished : List (Nat × Option FetchedTransaction))
    (p : Nat × Option FetchedTransaction) :
    (finished ++ [p]).filterMap (fetchedOf sent) =
      finished.filterMap (fetchedOf sent) ++ (fetchedOf sent p).toList := by
  rw [List.filterMap_append, List.filterMap_cons]
  cases fetchedOf sent p <;> rfl

/-- While signatures are added, what was obtained stays what it is. -/
theorem State.Sound.signatures_step (h : s.Sound crawler) {fetcher : SignatureFetcher.State}
    (hgrows : s.fetcher.sent <+: fetcher.sent) : { s with fetcher := fetcher }.Sound crawler where
  requests := h.requests
  taken := h.taken
  queued := Nat.le_trans h.queued hgrows.length_le
  signatures := h.signatures
  transactions := h.transactions
  order := by
    refine h.order.trans (List.filterMap_congr fun p hp => ?_)
    have hlt := h.place_lt (List.mem_append_left _ (List.mem_map_of_mem hp))
    rw [fetchedOf, fetchedOf, getElem_prefix hgrows hlt]
  processing := h.processing
  processed := h.processed

theorem State.Sound.answer_step (h : s.Sound crawler) {i : Nat} {transaction : Option FetchedTransaction}
    (hsending : s.sending = none)
    (ht : answer crawler.connectionConfig.maxRetries i transaction s = some t) :
    t.Sound crawler := by
  have horder := h.order
  rw [hsending, Option.toList_none, List.append_nil] at horder
  rw [answer] at ht
  cases htask : s.requests.inFlight[i]? with
  | none => simp [htask] at ht
  | some task =>
    obtain ⟨place, retries⟩ := task
    rw [htask] at ht
    have hfinish := BufferUnordered.finish_of_some htask
    cases transaction with
    | some tx =>
      simp only [Option.map_eq_some_iff] at ht
      obtain ⟨signature, hsignature, rfl⟩ := ht
      refine ⟨h.requests.finish htask _, ?_, h.queued, ?_, h.transactions, ?_, h.processing,
        h.processed⟩
      · exact h.taken
      · exact h.signatures
      · show _ = (s.requests.finish i (some tx)).finished.filterMap _
        rw [hfinish, fetched_concat, fetchedOf, Option.bind_some, hsignature]
        exact congrArg (· ++ [(signature, tx)]) horder
    | none =>
      by_cases hretries : crawler.connectionConfig.maxRetries ≤ retries
      · simp only [if_pos hretries, Option.some.injEq] at ht
        subst ht
        refine ⟨h.requests.finish htask _, h.taken, h.queued, h.signatures, h.transactions, ?_,
          h.processing, h.processed⟩
        show _ = (s.requests.finish i none).finished.filterMap _
        rw [hfinish, fetched_concat, fetchedOf, Option.bind_none, Option.toList_none, List.append_nil]
        exact h.order
      · simp only [if_neg hretries, Option.some.injEq] at ht
        subst ht
        exact ⟨h.requests.resume i _, h.taken, h.queued, h.signatures, h.transactions, h.order,
          h.processing, h.processed⟩

theorem State.Sound.process_step (h : s.Sound crawler) (ht : step crawler s .process = some t) :
    t.Sound crawler := by
  rw [step] at ht
  have horder := h.order
  cases hprocessing : s.processing with
  | some p => simp [hprocessing] at ht
  | none =>
    cases htransactions : s.transactions with
    | nil => simp [hprocessing, htransactions] at ht
    | cons fetched transactions =>
      rw [hprocessing, htransactions] at ht
      rw [hprocessing, htransactions] at horder
      have hlength := h.transactions
      rw [htransactions, List.length_cons] at hlength
      cases hupdate : crawler.toUpdate fetched with
      | some update =>
        simp only [hupdate, Option.some.injEq] at ht
        subst ht
        refine ⟨h.requests, h.taken, h.queued, h.signatures, Nat.le_of_succ_le hlength, ?_, ?_,
          h.processed⟩
        · refine Eq.trans ?_ horder
          simp
        · intro p hp
          cases hp
          exact hupdate
      | none =>
        simp only [hupdate, Option.some.injEq] at ht
        subst ht
        refine ⟨h.requests, h.taken, h.queued, h.signatures, Nat.le_of_succ_le hlength, ?_,
          (fun _ hp => nomatch hp), List.forall_mem_append.mpr ⟨h.processed, ?_⟩⟩
        · refine Eq.trans ?_ horder
          simp
        · exact List.forall_mem_singleton.mpr hupdate

theorem State.Sound.sendUpdate_step (h : s.Sound crawler) {hasRoom : Bool}
    (ht : step crawler s (.sendUpdate hasRoom) = some t) : t.Sound crawler := by
  rw [step] at ht
  have horder := h.order
  cases hprocessing : s.processing with
  | none => simp [hprocessing] at ht
  | some p =>
    obtain ⟨fetched, update⟩ := p
    rw [hprocessing] at ht horder
    have hupdate : crawler.toUpdate fetched = some update := h.processing _ hprocessing
    have hdone : ∀ outcome : Outcome,
        (s.processed ++ [(fetched, outcome)]).map Prod.fst ++
          ((none : Option (Fetched × TransactionUpdate)).map Prod.fst).toList ++ s.transactions ++
          s.sending.toList = s.fetched := by
      intro outcome
      refine Eq.trans ?_ horder
      simp
    by_cases hroom : hasRoom = true
    · simp only [if_pos hroom, Option.some.injEq] at ht
      subst ht
      exact ⟨h.requests, h.taken, h.queued, h.signatures, h.transactions, hdone _,
        (fun _ hp => nomatch hp), List.forall_mem_append.mpr
          ⟨h.processed, List.forall_mem_singleton.mpr hupdate⟩⟩
    · by_cases hblocking : crawler.connectionConfig.blockingSend = true
      · simp [hroom, hblocking] at ht
      · simp only [if_neg hroom, if_neg hblocking, Option.some.injEq] at ht
        subst ht
        exact ⟨h.requests, h.taken, h.queued, h.signatures, h.transactions, hdone _,
          (fun _ hp => nomatch hp), List.forall_mem_append.mpr
            ⟨h.processed, List.forall_mem_singleton.mpr ⟨hupdate, by simpa using hblocking⟩⟩⟩

theorem State.Sound.step (h : s.Sound crawler) {action : Action}
    (ht : step crawler s action = some t) : t.Sound crawler := by
  cases action with
  | signatures action =>
    simp only [Crawler.step, Option.ite_none_right_eq_some, Option.map_eq_some_iff] at ht
    obtain ⟨-, fetcher, hfetcher, rfl⟩ := ht
    exact h.signatures_step (sent_grows hfetcher)
  | sendSignature =>
    simp only [Crawler.step, Option.ite_none_right_eq_some, Option.some.injEq] at ht
    obtain ⟨⟨hsent, hroom⟩, rfl⟩ := ht
    exact ⟨h.requests, Nat.le_succ_of_le h.taken, hsent, hroom, h.transactions, h.order,
      h.processing, h.processed⟩
  | request =>
    simp only [Crawler.step, Option.ite_none_right_eq_some, Option.map_eq_some_iff] at ht
    obtain ⟨⟨-, hlt⟩, requests, hrequests, rfl⟩ := ht
    have hsound := h.requests.take hrequests
    simp only [BufferUnordered.take, Option.ite_none_right_eq_some, Option.some.injEq] at hrequests
    obtain ⟨-, rfl⟩ := hrequests
    refine ⟨hsound, hlt, h.queued, ?_, h.transactions, h.order, h.processing, h.processed⟩
    have := h.signatures
    show s.queued ≤ s.requests.taken + 1 + _
    omega
  | answer i transaction =>
    simp only [Crawler.step, Option.ite_none_right_eq_some] at ht
    exact h.answer_step (Option.isNone_iff_eq_none.mp ht.1) ht.2
  | sendTransaction =>
    rw [Crawler.step] at ht
    have horder := h.order
    cases hsending : s.sending with
    | none => simp [hsending] at ht
    | some fetched =>
      rw [hsending] at ht horder
      simp only [Option.ite_none_right_eq_some, Option.some.injEq] at ht
      obtain ⟨hroom, rfl⟩ := ht
      refine ⟨h.requests, h.taken, h.queued, h.signatures, ?_, ?_, h.processing, h.processed⟩
      · show (s.transactions ++ [fetched]).length ≤ _
        rw [List.length_append]
        exact hroom
      · refine Eq.trans ?_ horder
        simp
  | process => exact h.process_step ht
  | sendUpdate hasRoom => exact h.sendUpdate_step ht

theorem start_sound (crawler : Crawler) (history : History) :
    (start crawler history).Sound crawler where
  requests := .new
  taken := Nat.le_refl _
  queued := Nat.zero_le _
  signatures := Nat.zero_le _
  transactions := Nat.zero_le _
  order := rfl
  processing := by
    intro p hp
    cases hp
  processed := fun _ h => absurd h List.not_mem_nil

theorem sound_of_run {history : History} {actions : List Action}
    (hrun : run (Crawler.step crawler) (start crawler history) actions = some s) :
    s.Sound crawler :=
  run_preserves (I := fun s => s.Sound crawler) (fun _ _ _ h ht => h.step ht)
    (start_sound crawler history) hrun

end Steps

end Crawler

end OmnipairIndexer
