/-
The pipeline with all its pipes and filters, and its counters.

`Pipeline::process` hands an update to the pipes of its kind, in order, each guarded by
filters that see the update and its datasource; the first error ends the update.  The
filters of an instruction pipe see a top-level instruction, and what is below it goes with
it.  `Pipeline::run` counts what becomes of the updates, here with the counters of
`LogMetrics`, whose operations do not fail.

`counters_agree` relates the counters at any point between two updates.
`unallowed_updates_invisible` says what filters by datasource guarantee: the updates of a
datasource that no pipe allows could as well be missing, unless one of them panics.
-/
import OmnipairIndexer.Core.TransactionPipe
import OmnipairIndexer.Decoder.Accounts
import OmnipairIndexer.Library.Transition

namespace OmnipairIndexer

open Fallible Transition

structure DatasourceId where
  name : String
  deriving DecidableEq

structure AccountMetadata where
  slot : UInt64
  pubkey : Pubkey
  transactionSignature : Option String

structure AccountDeletion where
  pubkey : Pubkey
  slot : UInt64
  transactionSignature : Option String

structure BlockDetails where
  slot : UInt64
  blockHash : Option String
  previousBlockHash : Option String
  numRewardPartitions : Option UInt64
  blockTime : Option Int64
  blockHeight : Option UInt64

namespace Dispatch

inductive Update where
  | account (pubkey : Pubkey) (account : SolanaAccount) (slot : UInt64)
      (transactionSignature : Option String)
  | transaction (update : TransactionUpdate)
  | accountDeletion (accountDeletion : AccountDeletion)
  | blockDetails (blockDetails : BlockDetails)

/-! ## Filters -/

/-- The methods of a filter; those it does not have let everything through. -/
structure Filter where
  filterAccount : DatasourceId → AccountMetadata → SolanaAccount → Bool := fun _ _ _ => true
  filterInstruction : DatasourceId → NestedInstruction → Bool := fun _ _ => true
  filterTransaction : DatasourceId → TransactionMetadata → NestedInstructions → Bool :=
    fun _ _ _ => true
  filterAccountDeletion : DatasourceId → AccountDeletion → Bool := fun _ _ => true
  filterBlockDetails : DatasourceId → BlockDetails → Bool := fun _ _ => true

/-- `DatasourceFilter::new_many`. -/
def datasourceFilter (allowedDatasources : List DatasourceId) : Filter where
  filterAccount datasourceId _ _ := allowedDatasources.contains datasourceId
  filterInstruction datasourceId _ := allowedDatasources.contains datasourceId
  filterTransaction datasourceId _ _ := allowedDatasources.contains datasourceId
  filterAccountDeletion datasourceId _ := allowedDatasources.contains datasourceId
  filterBlockDetails datasourceId _ := allowedDatasources.contains datasourceId

/-! ## Pipes -/

/-- A pipe of any kind, as the pipeline sees it. -/
structure Pipe (ι σ : Type) where
  filters : List Filter
  run : ι → Action CarbonError σ

/-- Run each pipe whose filters let the input through. -/
def runPipes {ι σ : Type} (passes : Filter → ι → Bool) (pipes : List (Pipe ι σ)) (input : ι) :
    Action CarbonError σ :=
  each (fun pipe => if pipe.filters.all fun filter => passes filter input then pipe.run input
    else done) pipes

/-- `AccountPipe::run`. -/
def accountPipe {T σ : Type} (decoder : SolanaAccount → Option (DecodedAccount T))
    (processor : AccountMetadata → DecodedAccount T → SolanaAccount → Action CarbonError σ)
    (filters : List Filter) : Pipe (AccountMetadata × SolanaAccount) σ where
  filters := filters
  run input :=
    match decoder input.2 with
    | some decodedAccount => processor input.1 decodedAccount input.2
    | none => done

def accountDeletionPipe {σ : Type} (processor : AccountDeletion → Action CarbonError σ)
    (filters : List Filter) : Pipe AccountDeletion σ where
  filters := filters
  run := processor

def blockDetailsPipe {σ : Type} (processor : BlockDetails → Action CarbonError σ)
    (filters : List Filter) : Pipe BlockDetails σ where
  filters := filters
  run := processor

def instructionPipe {T σ : Type} (pipe : InstructionPipe T CarbonError σ)
    (filters : List Filter) : Pipe NestedInstruction σ where
  filters := filters
  run := pipe.run

def transactionPipe {T K σ : Type} [DecidableEq K] (pipe : TransactionPipe T K CarbonError σ)
    (filters : List Filter) : Pipe (TransactionMetadata × NestedInstructions) σ where
  filters := filters
  run input := pipe.run input.1 input.2

structure Pipeline (σ : Type) where
  accountPipes : List (Pipe (AccountMetadata × SolanaAccount) σ) := []
  accountDeletionPipes : List (Pipe AccountDeletion σ) := []
  blockDetailsPipes : List (Pipe BlockDetails σ) := []
  instructionPipes : List (Pipe NestedInstruction σ) := []
  transactionPipes : List (Pipe (TransactionMetadata × NestedInstructions) σ) := []

/-- The loop over the instruction pipes: a pipe is given all instructions before the next. -/
def runInstructionPipes {σ : Type} (datasourceId : DatasourceId)
    (pipes : List (Pipe NestedInstruction σ)) (nestedInstructions : NestedInstructions) :
    Action CarbonError σ :=
  each (fun pipe => each (fun nestedInstruction =>
    if pipe.filters.all fun filter => filter.filterInstruction datasourceId nestedInstruction then
      pipe.run nestedInstruction
    else done) nestedInstructions) pipes

/-! ## Counters -/

/-- The atomic 64-bit counters.  They do not wrap here, and neither does the product with
100 in a percentage: that takes fewer than 2^64 / 100 updates. -/
structure LogMetrics where
  updatesReceived : Nat := 0
  updatesProcessed : Nat := 0
  updatesSuccessful : Nat := 0
  updatesFailed : Nat := 0
  updatesQueued : Nat := 0
  accountUpdatesProcessed : Nat := 0
  transactionUpdatesProcessed : Nat := 0
  accountDeletionsProcessed : Nat := 0
  counters : String → Nat := fun _ => 0

namespace LogMetrics

def incrementCounter (name : String) (value : Nat) (m : LogMetrics) : LogMetrics :=
  match name with
  | "updates_received" => { m with updatesReceived := m.updatesReceived + value }
  | "updates_processed" => { m with updatesProcessed := m.updatesProcessed + value }
  | "updates_successful" => { m with updatesSuccessful := m.updatesSuccessful + value }
  | "updates_failed" => { m with updatesFailed := m.updatesFailed + value }
  | "account_updates_processed" =>
    { m with accountUpdatesProcessed := m.accountUpdatesProcessed + value }
  | "transaction_updates_processed" =>
    { m with transactionUpdatesProcessed := m.transactionUpdatesProcessed + value }
  | "account_deletions_processed" =>
    { m with accountDeletionsProcessed := m.accountDeletionsProcessed + value }
  | _ => { m with counters := Function.update m.counters name (m.counters name + value) }

/-- The two percentages of a flush: processed of received, failed of processed. -/
def percentages (m : LogMetrics) : Nat × Nat :=
  let totalUpdatesReceived := m.updatesReceived + m.updatesQueued
  (if 0 < totalUpdatesReceived then m.updatesProcessed * 100 / totalUpdatesReceived else 0,
    if 0 < m.updatesProcessed then m.updatesFailed * 100 / m.updatesProcessed else 0)

end LogMetrics

structure State (σ : Type) where
  store : σ
  metrics : LogMetrics

variable {σ : Type}

/-- An action on the store that counts under a name if it succeeds. -/
def counted (name : String) (action : Action CarbonError σ) (s : State σ) :
    Except CarbonError Unit × State σ :=
  match action s.store with
  | (.ok (), store) => (.ok (), ⟨store, s.metrics.incrementCounter name 1⟩)
  | (.error e, store) => (.error e, ⟨store, s.metrics⟩)

def Pipeline.process (pipeline : Pipeline σ) (datasourceId : DatasourceId) (update : Update)
    (s : State σ) : Outcome × State σ :=
  match update with
  | .account pubkey account slot transactionSignature =>
    let accountMetadata : AccountMetadata := ⟨slot, pubkey, transactionSignature⟩
    let (result, t) := counted "account_updates_processed"
      (runPipes (fun filter input => filter.filterAccount datasourceId input.1 input.2)
        pipeline.accountPipes (accountMetadata, account)) s
    (.returned result, t)
  | .transaction update =>
    match TransactionMetadata.tryFrom update with
    | .error e => (.returned (.error e), s)
    | .ok transactionMetadata =>
      match nestedInstructions update with
      | .error outcome => (outcome, s)
      | .ok forest =>
        let (result, t) := counted "transaction_updates_processed"
          (andThen (runInstructionPipes datasourceId pipeline.instructionPipes forest)
            (runPipes (fun filter input => filter.filterTransaction datasourceId input.1 input.2)
              pipeline.transactionPipes (transactionMetadata, forest))) s
        (.returned result, t)
  | .accountDeletion accountDeletion =>
    let (result, t) := counted "account_deletions_processed"
      (runPipes (fun filter input => filter.filterAccountDeletion datasourceId input)
        pipeline.accountDeletionPipes accountDeletion) s
    (.returned result, t)
  | .blockDetails blockDetails =>
    let (result, t) := counted "block_details_processed"
      (runPipes (fun filter input => filter.filterBlockDetails datasourceId input)
        pipeline.blockDetailsPipes blockDetails) s
    (.returned result, t)

/-- An update from the channel, where `queued` are left.  A panic ends the run. -/
structure Received where
  update : Update
  datasourceId : DatasourceId
  queued : Nat

def State.count (name : String) (s : State σ) : State σ :=
  { s with metrics := s.metrics.incrementCounter name 1 }

/-- The branch of `Pipeline::run` for an update. -/
def step (pipeline : Pipeline σ) (s : State σ) (received : Received) : Option (State σ) :=
  match pipeline.process received.datasourceId received.update (s.count "updates_received") with
  | (.panicked, _) => none
  | (.returned result, t) =>
    let t := match result with
      | .ok () => t.count "updates_successful"
      | .error _ => t.count "updates_failed"
    let t := t.count "updates_processed"
    some { t with metrics := { t.metrics with updatesQueued := received.queued } }

/-! ## One pipe without filters -/

/-- With one instruction pipe that has no filters this is the pipeline of `Pipeline`. -/
theorem process_single {T : Type} (pipe : InstructionPipe T CarbonError σ)
    (datasourceId : DatasourceId) (update : TransactionUpdate) (s : State σ) :
    let pipeline : Pipeline σ := { instructionPipes := [instructionPipe pipe []] }
    (pipeline.process datasourceId (.transaction update) s).1 =
        (OmnipairIndexer.Pipeline.process pipe update s.store).1 ∧
      (pipeline.process datasourceId (.transaction update) s).2.store =
        (OmnipairIndexer.Pipeline.process pipe update s.store).2 := by
  intro pipeline
  have hrun : ∀ md forest, andThen
      (runInstructionPipes datasourceId pipeline.instructionPipes forest)
      (runPipes (fun filter input => filter.filterTransaction datasourceId input.1 input.2)
        pipeline.transactionPipes (md, forest)) = each pipe.run forest := by
    intro md forest
    simp [pipeline, runInstructionPipes, runPipes, instructionPipe]
  rw [Pipeline.process, OmnipairIndexer.Pipeline.process]
  cases hmd : TransactionMetadata.tryFrom update with
  | error e => simp [nestedInstructions, hmd]
  | ok md =>
    cases hforest : nestedInstructions update with
    | error outcome => exact ⟨rfl, rfl⟩
    | ok forest =>
      simp only [hrun, counted]
      rcases each pipe.run forest s.store with ⟨_ | _, store⟩ <;> exact ⟨rfl, rfl⟩

/-! ## What the counters say -/

namespace LogMetrics

def blockDetailsProcessed (m : LogMetrics) : Nat := m.counters "block_details_processed"

/-- The updates counted as processed by their kind. -/
def byKind (m : LogMetrics) : Nat :=
  m.accountUpdatesProcessed + m.transactionUpdatesProcessed + m.accountDeletionsProcessed +
    m.blockDetailsProcessed

structure Agree (m : LogMetrics) : Prop where
  received : m.updatesReceived = m.updatesProcessed
  processed : m.updatesProcessed = m.updatesSuccessful + m.updatesFailed
  successful : m.updatesSuccessful = m.byKind

/-- Only the counters of the kinds have changed. -/
structure Kinds (m m' : LogMetrics) (more : Nat) : Prop where
  received : m'.updatesReceived = m.updatesReceived
  processed : m'.updatesProcessed = m.updatesProcessed
  successful : m'.updatesSuccessful = m.updatesSuccessful
  failed : m'.updatesFailed = m.updatesFailed
  byKind : m'.byKind = m.byKind + more

theorem percentages_le {m : LogMetrics} (h : m.Agree) :
    m.percentages.1 ≤ 100 ∧ m.percentages.2 ≤ 100 := by
  have hreceived := h.received
  have hprocessed := h.processed
  constructor
  · by_cases hpos : 0 < m.updatesReceived + m.updatesQueued
    · rw [percentages, if_pos hpos]
      exact Nat.div_le_of_le_mul (by omega)
    · rw [percentages, if_neg hpos]
      exact Nat.zero_le _
  · by_cases hpos : 0 < m.updatesProcessed
    · rw [percentages, if_pos hpos]
      exact Nat.div_le_of_le_mul (by omega)
    · rw [percentages, if_neg hpos]
      exact Nat.zero_le _

end LogMetrics

/-- The counter of a kind of update. -/
inductive KindCounter : String → Prop
  | account : KindCounter "account_updates_processed"
  | transaction : KindCounter "transaction_updates_processed"
  | accountDeletion : KindCounter "account_deletions_processed"
  | blockDetails : KindCounter "block_details_processed"

theorem KindCounter.kinds {name : String} (h : KindCounter name) (m : LogMetrics) :
    m.Kinds (m.incrementCounter name 1) 1 := by
  cases h with
  | account =>
    refine ⟨rfl, rfl, rfl, rfl, ?_⟩
    show m.accountUpdatesProcessed + 1 + m.transactionUpdatesProcessed +
      m.accountDeletionsProcessed + m.blockDetailsProcessed = m.byKind + 1
    rw [LogMetrics.byKind]
    omega
  | transaction =>
    refine ⟨rfl, rfl, rfl, rfl, ?_⟩
    show m.accountUpdatesProcessed + (m.transactionUpdatesProcessed + 1) +
      m.accountDeletionsProcessed + m.blockDetailsProcessed = m.byKind + 1
    rw [LogMetrics.byKind]
    omega
  | accountDeletion =>
    refine ⟨rfl, rfl, rfl, rfl, ?_⟩
    show m.accountUpdatesProcessed + m.transactionUpdatesProcessed +
      (m.accountDeletionsProcessed + 1) + m.blockDetailsProcessed = m.byKind + 1
    rw [LogMetrics.byKind]
    omega
  | blockDetails =>
    refine ⟨rfl, rfl, rfl, rfl, ?_⟩
    show m.accountUpdatesProcessed + m.transactionUpdatesProcessed + m.accountDeletionsProcessed +
      Function.update m.counters "block_details_processed"
        (m.counters "block_details_processed" + 1) "block_details_processed" = m.byKind + 1
    rw [Function.update_self]
    rfl

theorem LogMetrics.Kinds.refl (m : LogMetrics) : m.Kinds m 0 := ⟨rfl, rfl, rfl, rfl, rfl⟩

/-- How many updates a result counts for. -/
def successes : Except CarbonError Unit → Nat
  | .ok () => 1
  | .error _ => 0

theorem counted_kinds {name : String} (h : KindCounter name) (action : Action CarbonError σ)
    (s : State σ) :
    s.metrics.Kinds (counted name action s).2.metrics (successes (counted name action s).1) := by
  rw [counted]
  rcases action s.store with ⟨_ | _, store⟩
  · exact .refl s.metrics
  · exact h.kinds s.metrics

/-- With a fee payer, a transaction that gives no forest panics. -/
theorem panicked_of_error {update : TransactionUpdate} {md : TransactionMetadata}
    {outcome : Outcome} (hmd : TransactionMetadata.tryFrom update = .ok md)
    (h : nestedInstructions update = .error outcome) : outcome = .panicked := by
  simp only [nestedInstructions, hmd] at h
  cases hentries : extractInstructionsWithMetadata md update with
  | none =>
    rw [hentries] at h
    cases h
    rfl
  | some entries =>
    rw [hentries] at h
    cases hforest : UnsafeNestedBuilder.build entries with
    | none =>
      simp only [hforest] at h
      cases h
      rfl
    | some forest =>
      simp only [hforest] at h
      cases h

/-- An update is counted under its kind if it succeeds. -/
theorem process_kinds (pipeline : Pipeline σ) (datasourceId : DatasourceId) (update : Update)
    (s : State σ) {result : Except CarbonError Unit} {t : State σ}
    (h : pipeline.process datasourceId update s = (.returned result, t)) :
    s.metrics.Kinds t.metrics (successes result) := by
  cases update with
  | account pubkey account slot transactionSignature =>
    cases h
    exact counted_kinds .account _ s
  | transaction update =>
    simp only [Pipeline.process] at h
    cases hmd : TransactionMetadata.tryFrom update with
    | error e =>
      simp only [hmd] at h
      cases h
      exact .refl s.metrics
    | ok md =>
      cases hforest : nestedInstructions update with
      | error outcome =>
        obtain rfl := panicked_of_error hmd hforest
        simp only [hmd, hforest] at h
        cases h
      | ok forest =>
        simp only [hmd, hforest] at h
        cases h
        exact counted_kinds .transaction _ s
  | accountDeletion accountDeletion =>
    cases h
    exact counted_kinds .accountDeletion _ s
  | blockDetails blockDetails =>
    cases h
    exact counted_kinds .blockDetails _ s

/-- What a received update does: it is processed, counted once as received and processed and
once as successful or failed. -/
theorem step_eq_some {pipeline : Pipeline σ} {s t : State σ} {received : Received}
    (h : step pipeline s received = some t) :
    ∃ result u, pipeline.process received.datasourceId received.update
        (s.count "updates_received") = (.returned result, u) ∧ t.store = u.store ∧
      t.metrics.updatesReceived = u.metrics.updatesReceived ∧
      t.metrics.updatesProcessed = u.metrics.updatesProcessed + 1 ∧
      t.metrics.updatesSuccessful = u.metrics.updatesSuccessful + successes result ∧
      t.metrics.updatesFailed = u.metrics.updatesFailed + (1 - successes result) ∧
      t.metrics.byKind = u.metrics.byKind := by
  rw [step] at h
  rcases hprocess : pipeline.process received.datasourceId received.update
    (s.count "updates_received") with ⟨⟨result⟩ | _, u⟩
  · simp only [hprocess, Option.some.injEq] at h
    refine ⟨result, u, rfl, ?_⟩
    cases result with
    | ok _ =>
      subst h
      exact ⟨rfl, rfl, rfl, rfl, rfl, rfl⟩
    | error e =>
      subst h
      exact ⟨rfl, rfl, rfl, rfl, rfl, rfl⟩
  · simp [hprocess] at h

theorem LogMetrics.Agree.step {pipeline : Pipeline σ} {s t : State σ} {received : Received}
    (h : s.metrics.Agree) (hstep : step pipeline s received = some t) :
    t.metrics.Agree ∧ t.metrics.updatesReceived = s.metrics.updatesReceived + 1 := by
  obtain ⟨result, u, hprocess, -, hreceived, hprocessed, hsuccessful, hfailed, hkinds⟩ :=
    step_eq_some hstep
  have hsame := process_kinds pipeline _ _ _ hprocess
  have hcount : (s.count "updates_received").metrics.updatesReceived =
      s.metrics.updatesReceived + 1 := rfl
  have hcounted : u.metrics.byKind = s.metrics.byKind + successes result := hsame.byKind
  have hle : successes result ≤ 1 := by cases result <;> simp [successes]
  have h1 := h.received
  have h2 := h.processed
  have h3 := h.successful
  have h4 : u.metrics.updatesReceived = s.metrics.updatesReceived + 1 := hsame.received
  have h5 : u.metrics.updatesProcessed = s.metrics.updatesProcessed := hsame.processed
  have h6 : u.metrics.updatesSuccessful = s.metrics.updatesSuccessful := hsame.successful
  have h7 : u.metrics.updatesFailed = s.metrics.updatesFailed := hsame.failed
  exact ⟨⟨by omega, by omega, by omega⟩, by omega⟩

theorem LogMetrics.Agree.of_run {pipeline : Pipeline σ} {s t : State σ} {received : List Received}
    (h : s.metrics.Agree) (hrun : run (Dispatch.step pipeline) s received = some t) :
    t.metrics.Agree ∧ t.metrics.updatesReceived = s.metrics.updatesReceived + received.length := by
  induction received generalizing s with
  | nil =>
    cases hrun
    exact ⟨h, rfl⟩
  | cons first received ih =>
    obtain ⟨u, hu, hrun⟩ := run_cons_eq_some.mp hrun
    obtain ⟨hagree, hfirst⟩ := h.step hu
    obtain ⟨hdone, hcount⟩ := ih hagree hrun
    rw [List.length_cons]
    exact ⟨hdone, by omega⟩

/-- In every run, at any point between two updates: the updates received are those processed,
they are the successful and the failed ones, the successful ones are those counted under
their kinds, and the percentages of a flush are at most 100. -/
theorem counters_agree (pipeline : Pipeline σ) (store : σ) (received : List Received)
    (s : State σ) (hrun : run (step pipeline) ⟨store, {}⟩ received = some s) :
    s.metrics.updatesReceived = received.length ∧
      s.metrics.updatesProcessed = received.length ∧
      s.metrics.updatesSuccessful + s.metrics.updatesFailed = received.length ∧
      s.metrics.byKind = s.metrics.updatesSuccessful ∧
      s.metrics.percentages.1 ≤ 100 ∧ s.metrics.percentages.2 ≤ 100 := by
  have hstart : (⟨store, {}⟩ : State σ).metrics.Agree := ⟨rfl, rfl, rfl⟩
  obtain ⟨hagree, hcount⟩ := hstart.of_run hrun
  have hcount : s.metrics.updatesReceived = 0 + received.length := hcount
  have hreceived := hagree.received
  have hprocessed := hagree.processed
  exact ⟨by omega, by omega, by omega, hagree.successful.symm, LogMetrics.percentages_le hagree⟩

/-- An account and a deletion for a pipe that fails on deletions. -/
def failingPipeline : Pipeline Nat where
  accountPipes := [accountPipe (fun account => some ⟨account.lamports, (), account.owner,
    account.executable, account.rentEpoch⟩) (fun _ _ _ n => (.ok (), n + 1)) []]
  accountDeletionPipes := [accountDeletionPipe (fun _ n => (.error (.custom "deleted"), n)) []]

def twoUpdates : List Received :=
  [⟨.account (.filled 1) ⟨1, [], .filled 2, false, 0⟩ 1 none, ⟨"geyser"⟩, 1⟩,
    ⟨.accountDeletion ⟨.filled 1, 2, none⟩, ⟨"rpc"⟩, 0⟩]

theorem counters_agree_twoUpdates :
    ∃ s, run (step failingPipeline) ⟨0, {}⟩ twoUpdates = some s ∧
      s.metrics.updatesSuccessful + s.metrics.updatesFailed = 2 ∧
      s.metrics.byKind = s.metrics.updatesSuccessful :=
  have h := counters_agree failingPipeline 0 twoUpdates _ rfl
  ⟨_, rfl, h.2.2.1, h.2.2.2.1⟩

/-! ## Datasources that no pipe allows -/

/-- One of the filters allows some of these datasources and no other. -/
def GuardedBy (allowed : List DatasourceId) (filters : List Filter) : Prop :=
  ∃ ids ⊆ allowed, datasourceFilter ids ∈ filters

structure Pipeline.Allows (pipeline : Pipeline σ) (allowed : List DatasourceId) : Prop where
  account : ∀ pipe ∈ pipeline.accountPipes, GuardedBy allowed pipe.filters
  accountDeletion : ∀ pipe ∈ pipeline.accountDeletionPipes, GuardedBy allowed pipe.filters
  blockDetails : ∀ pipe ∈ pipeline.blockDetailsPipes, GuardedBy allowed pipe.filters
  instruction : ∀ pipe ∈ pipeline.instructionPipes, GuardedBy allowed pipe.filters
  transaction : ∀ pipe ∈ pipeline.transactionPipes, GuardedBy allowed pipe.filters

section Unallowed

variable {allowed : List DatasourceId} {datasourceId : DatasourceId}

theorem each_eq_done {α : Type} {f : α → Action CarbonError σ} {xs : List α}
    (h : ∀ x ∈ xs, f x = done) : each f xs = done := by
  induction xs with
  | nil => rfl
  | cons x xs ih =>
    rw [List.forall_mem_cons] at h
    rw [each_cons, h.1, ih h.2]
    rfl

theorem GuardedBy.stops {filters : List Filter} (h : GuardedBy allowed filters)
    (hid : datasourceId ∉ allowed) {passes : Filter → Bool}
    (hpasses : ∀ ids, passes (datasourceFilter ids) = ids.contains datasourceId) :
    filters.all passes = false := by
  obtain ⟨ids, hids, hmem⟩ := h
  rw [List.all_eq_false]
  refine ⟨_, hmem, ?_⟩
  rw [hpasses, List.contains_iff_mem]
  exact fun h => hid (hids h)

theorem runPipes_eq_done {ι : Type} {pipes : List (Pipe ι σ)} {passes : Filter → ι → Bool}
    (hpipes : ∀ pipe ∈ pipes, GuardedBy allowed pipe.filters) (hid : datasourceId ∉ allowed)
    (hpasses : ∀ ids input, passes (datasourceFilter ids) input = ids.contains datasourceId)
    (input : ι) : runPipes passes pipes input = done := by
  refine each_eq_done fun pipe hpipe => ?_
  rw [if_neg]
  exact Bool.eq_false_iff.mp ((hpipes pipe hpipe).stops hid fun ids => hpasses ids input)

theorem runInstructionPipes_eq_done {pipes : List (Pipe NestedInstruction σ)}
    (hpipes : ∀ pipe ∈ pipes, GuardedBy allowed pipe.filters) (hid : datasourceId ∉ allowed)
    (forest : NestedInstructions) : runInstructionPipes datasourceId pipes forest = done := by
  refine each_eq_done fun pipe hpipe => each_eq_done fun n _ => ?_
  rw [if_neg]
  exact Bool.eq_false_iff.mp ((hpipes pipe hpipe).stops hid fun ids => rfl)

theorem process_unallowed {pipeline : Pipeline σ} (h : pipeline.Allows allowed)
    (hid : datasourceId ∉ allowed) (update : Update) (s : State σ) :
    (pipeline.process datasourceId update s).2.store = s.store := by
  cases update with
  | account pubkey account slot transactionSignature =>
    simp only [Pipeline.process]
    rw [runPipes_eq_done h.account hid fun _ _ => rfl]
    rfl
  | transaction update =>
    simp only [Pipeline.process]
    cases TransactionMetadata.tryFrom update with
    | error e => rfl
    | ok md =>
      cases nestedInstructions update with
      | error outcome => rfl
      | ok forest =>
        simp only
        rw [runInstructionPipes_eq_done h.instruction hid,
          runPipes_eq_done h.transaction hid fun _ _ => rfl]
        rfl
  | accountDeletion accountDeletion =>
    simp only [Pipeline.process]
    rw [runPipes_eq_done h.accountDeletion hid fun _ _ => rfl]
    rfl
  | blockDetails blockDetails =>
    simp only [Pipeline.process]
    rw [runPipes_eq_done h.blockDetails hid fun _ _ => rfl]
    rfl

end Unallowed

section Congr

variable {pipeline : Pipeline σ} {s s' t : State σ}

theorem counted_congr (name : String) (action : Action CarbonError σ)
    (h : s.store = s'.store) : (counted name action s).1 = (counted name action s').1 ∧
      (counted name action s).2.store = (counted name action s').2.store := by
  simp only [counted, h]
  rcases action s'.store with ⟨_ | _, store⟩ <;> exact ⟨rfl, rfl⟩

/-- The counters decide nothing. -/
theorem process_congr (h : s.store = s'.store) (datasourceId : DatasourceId) (update : Update) :
    (pipeline.process datasourceId update s).1 = (pipeline.process datasourceId update s').1 ∧
      (pipeline.process datasourceId update s).2.store =
        (pipeline.process datasourceId update s').2.store := by
  cases update with
  | account pubkey account slot transactionSignature =>
    obtain ⟨hresult, hstore⟩ := counted_congr "account_updates_processed"
      (runPipes (fun filter input => filter.filterAccount datasourceId input.1 input.2)
        pipeline.accountPipes (⟨slot, pubkey, transactionSignature⟩, account)) h
    exact ⟨congrArg Outcome.returned hresult, hstore⟩
  | transaction update =>
    simp only [Pipeline.process]
    cases TransactionMetadata.tryFrom update with
    | error e => exact ⟨rfl, h⟩
    | ok md =>
      cases nestedInstructions update with
      | error outcome => exact ⟨rfl, h⟩
      | ok forest =>
        obtain ⟨hresult, hstore⟩ := counted_congr "transaction_updates_processed"
          (andThen (runInstructionPipes datasourceId pipeline.instructionPipes forest)
            (runPipes (fun filter input => filter.filterTransaction datasourceId input.1 input.2)
              pipeline.transactionPipes (md, forest))) h
        exact ⟨congrArg Outcome.returned hresult, hstore⟩
  | accountDeletion accountDeletion =>
    obtain ⟨hresult, hstore⟩ := counted_congr "account_deletions_processed"
      (runPipes (fun filter input => filter.filterAccountDeletion datasourceId input)
        pipeline.accountDeletionPipes accountDeletion) h
    exact ⟨congrArg Outcome.returned hresult, hstore⟩
  | blockDetails blockDetails =>
    obtain ⟨hresult, hstore⟩ := counted_congr "block_details_processed"
      (runPipes (fun filter input => filter.filterBlockDetails datasourceId input)
        pipeline.blockDetailsPipes blockDetails) h
    exact ⟨congrArg Outcome.returned hresult, hstore⟩

theorem step_congr {received : Received} (h : s.store = s'.store)
    (ht : step pipeline s received = some t) :
    ∃ t', step pipeline s' received = some t' ∧ t.store = t'.store := by
  obtain ⟨result, u, hprocess, hstore, -⟩ := step_eq_some ht
  have hcount : (s.count "updates_received").store = (s'.count "updates_received").store := h
  obtain ⟨hresult, hsame⟩ :=
    @process_congr σ pipeline _ _ hcount received.datasourceId received.update
  rw [hprocess] at hresult hsame
  rw [step]
  rcases hprocess' : pipeline.process received.datasourceId received.update
    (s'.count "updates_received") with ⟨outcome, u'⟩
  rw [hprocess'] at hresult hsame
  subst hresult
  cases result with
  | ok _ => exact ⟨_, rfl, hstore.trans hsame⟩
  | error e => exact ⟨_, rfl, hstore.trans hsame⟩

theorem step_unallowed {allowed : List DatasourceId} (h : pipeline.Allows allowed)
    {received : Received} (hid : received.datasourceId ∉ allowed)
    (ht : step pipeline s received = some t) : t.store = s.store := by
  obtain ⟨result, u, hprocess, hstore, -⟩ := step_eq_some ht
  have hsame := process_unallowed h hid received.update (s.count "updates_received")
  rw [hprocess] at hsame
  exact hstore.trans hsame

theorem run_unallowed {allowed : List DatasourceId} (h : pipeline.Allows allowed)
    {received : List Received} (hstore : s.store = s'.store)
    (hrun : run (step pipeline) s received = some t) :
    ∃ t', run (step pipeline) s' (received.filter fun r => r.datasourceId ∈ allowed) = some t' ∧
      t.store = t'.store := by
  induction received generalizing s s' with
  | nil =>
    cases hrun
    exact ⟨s', rfl, hstore⟩
  | cons first received ih =>
    obtain ⟨u, hu, hrun⟩ := run_cons_eq_some.mp hrun
    by_cases hid : first.datasourceId ∈ allowed
    · obtain ⟨u', hu', hsame⟩ := step_congr hstore hu
      obtain ⟨t', ht', hdone⟩ := ih hsame hrun
      rw [List.filter_cons_of_pos (by simpa using hid)]
      exact ⟨t', run_cons_eq_some.mpr ⟨u', hu', ht'⟩, hdone⟩
    · rw [List.filter_cons_of_neg (by simpa using hid)]
      exact ih ((step_unallowed h hid hu).trans hstore) hrun

end Congr

/-- If every pipe is guarded by a datasource filter, then what a run without a panic leaves in
the store is what the run of the updates from allowed datasources leaves in it, in
whatever order the updates of the datasources came. -/
theorem unallowed_updates_invisible (pipeline : Pipeline σ) (allowed : List DatasourceId)
    (h : pipeline.Allows allowed) (received : List Received) (s t : State σ)
    (hrun : run (step pipeline) s received = some t) :
    ∃ t', run (step pipeline) s (received.filter fun r => r.datasourceId ∈ allowed) = some t' ∧
      t.store = t'.store :=
  run_unallowed h rfl hrun

/-- The pipes of `failingPipeline`, for one datasource. -/
def guardedPipeline : Pipeline Nat where
  accountPipes := failingPipeline.accountPipes.map fun pipe =>
    { pipe with filters := [datasourceFilter [⟨"geyser"⟩]] }
  accountDeletionPipes := failingPipeline.accountDeletionPipes.map fun pipe =>
    { pipe with filters := [datasourceFilter [⟨"geyser"⟩]] }

theorem unallowed_updates_invisible_twoUpdates :
    ∃ t t', run (step guardedPipeline) ⟨0, {}⟩ twoUpdates = some t ∧
      run (step guardedPipeline) ⟨0, {}⟩ (twoUpdates.filter fun r =>
        r.datasourceId ∈ ([⟨"geyser"⟩] : List DatasourceId)) = some t' ∧ t.store = t'.store := by
  have hguarded : GuardedBy [⟨"geyser"⟩] [datasourceFilter [⟨"geyser"⟩]] :=
    ⟨_, List.Subset.refl _, List.mem_singleton_self _⟩
  have hallows : guardedPipeline.Allows [⟨"geyser"⟩] :=
    ⟨List.forall_mem_singleton.mpr hguarded, List.forall_mem_singleton.mpr hguarded,
      fun _ h => absurd h List.not_mem_nil, fun _ h => absurd h List.not_mem_nil,
      fun _ h => absurd h List.not_mem_nil⟩
  obtain ⟨t', ht', hstore⟩ := unallowed_updates_invisible guardedPipeline [⟨"geyser"⟩] hallows
    twoUpdates ⟨0, {}⟩ _ rfl
  exact ⟨_, t', rfl, ht', hstore⟩

end Dispatch

end OmnipairIndexer
