/-
The backfill script: `backfillVolume.ts`.

One run counts the swaps without a volume and then handles them in batches.  The
action that selects a batch says how Postgres ordered swaps of the same timestamp.
A query that fails ends the run.  The counters of enriched and failed swaps are
only printed and left out.
-/
import OmnipairIndexer.Scripts.Prices

namespace OmnipairIndexer

open JsNumber

inductive BackfillPhase (N : Type) where
  | counting
  | selecting
  | handling (row : Swap) (rest : List Swap) (stage : Stage N)
  | finished

/-- The trade of the current row, and where its enrichment stands. -/
def BackfillPhase.current {N : Type} : BackfillPhase N → Option (Trade × Stage N)
  | handling row _ stage => some (row.toTrade, stage)
  | _ => none

structure Backfill (N : Type) where
  pairFilter : Option String
  maxLimit : Option Int
  batchSize : Nat
  priceCache : String → Option (Option (PriceInfo N))
  poolInfoCache : String → Option PoolInfo
  toProcess : Int
  processed : Nat
  phase : BackfillPhase N

inductive BackfillAction (N : Type) where
  | count
  | select (ordered : List Swap)
  | stop
  | queryFailed
  | poolQuery
  | readPrices
  | response (data : Option (PriceResponse N))
  | update (order : List Swap)

namespace Backfill

variable {N : Type}

def start (pairFilter : Option String) (maxLimit : Option Int) (batchSize : Nat) : Backfill N :=
  ⟨pairFilter, maxLimit, batchSize, fun _ => none, fun _ => none, 0, 0, .counting⟩

/-- The rows that the queries select: `volume_usd IS NULL`, and the pair filter. -/
def selects (b : Backfill N) (row : Swap) : Bool :=
  row.volumeUsd.isNone && b.pairFilter.all fun pair => row.pair = pair

def selected (b : Backfill N) (table : SwapTable) : List Swap :=
  table.rows.filter b.selects

/-- Begin with a row: `getPoolInfo` up to its query. -/
def enter (b : Backfill N) (row : Swap) (rest : List Swap) : Backfill N :=
  match b.poolInfoCache row.pair with
  | some poolInfo => { b with phase := .handling row rest (.pooled poolInfo) }
  | none => { b with phase := .handling row rest .lookingUp }

def next (b : Backfill N) : List Swap → Backfill N
  | [] => { b with processed := b.processed + 1, phase := .selecting }
  | row :: rest => enter { b with processed := b.processed + 1 } row rest

def updater (b : Backfill N) : BackfillAction N → Option Trade
  | .update _ => b.phase.current.map Prod.fst
  | _ => none

variable [JsNumber N]

/-- The prices of an answer enter the cache, and so do the mints it has none for. -/
def store (b : Backfill N) (uncachedMints : List String) (data : PriceResponse N) : Backfill N :=
  { b with
    priceCache := fun mint =>
      if mint ∈ uncachedMints then some (data.tokenPrice mint) else b.priceCache mint }

/-- The handling of one row from one wait to the next. -/
def resume (pools : String → Option PoolInfo) (b : Backfill N) (row : Swap) (rest : List Swap) :
    Stage N → BackfillAction N → Option (Backfill N × Option VolumeUpdate)
  | .lookingUp, .poolQuery =>
    match pools row.pair with
    | some poolInfo =>
      some ({ b with
        poolInfoCache := Function.update b.poolInfoCache row.pair (some poolInfo)
        phase := .handling row rest (.pooled poolInfo) }, none)
    | none => some (b.next rest, none)
  | .pooled poolInfo, .readPrices =>
    let (results, uncachedMints) := fromCache b.priceCache (poolInfo.mints row.isToken0In)
    let stage := if uncachedMints = [] then .updating (row.computeVolumeUsd results poolInfo)
      else .fetching poolInfo results uncachedMints
    some ({ b with phase := .handling row rest stage }, none)
  | .fetching poolInfo results _, .response none =>
    let volumeUsd := row.computeVolumeUsd results poolInfo
    some ({ b with phase := .handling row rest (.updating volumeUsd) }, none)
  | .fetching poolInfo results uncachedMints, .response (some data) =>
    let volumeUsd := row.computeVolumeUsd (merged results uncachedMints data) poolInfo
    some ({ store b uncachedMints data with phase := .handling row rest (.updating volumeUsd) },
      none)
  | .updating volumeUsd, .update order =>
    some (b.next rest, some ⟨text volumeUsd, row.txSig, order⟩)
  | .lookingUp, .queryFailed => some ({ b with phase := .finished }, none)
  | .updating _, .queryFailed => some ({ b with phase := .finished }, none)
  | _, _ => none

def step (table : SwapTable) (pools : String → Option PoolInfo) (b : Backfill N)
    (action : BackfillAction N) : Option (Backfill N × Option VolumeUpdate) :=
  match b.phase with
  | .counting =>
    match action with
    | .count =>
      let totalCount : Int := (b.selected table).length
      if totalCount = 0 then some ({ b with phase := .finished }, none)
      else
        let toProcess := match b.maxLimit with
          | some maxLimit => if maxLimit = 0 then totalCount else min totalCount maxLimit
          | none => totalCount
        some ({ b with toProcess := toProcess, phase := .selecting }, none)
    | .queryFailed => some ({ b with phase := .finished }, none)
    | _ => none
  | .selecting =>
    match action with
    | .select ordered =>
      if (b.processed : Int) < b.toProcess ∧ ordered.Perm (b.selected table) ∧
          ordered.Pairwise fun r r' => r'.timestamp ≤ r.timestamp then
        match ordered.take b.batchSize with
        | [] => some ({ b with phase := .finished }, none)
        | row :: rest => some (b.enter row rest, none)
      else none
    | .stop =>
      if (b.processed : Int) < b.toProcess then none else some ({ b with phase := .finished }, none)
    | .queryFailed => some ({ b with phase := .finished }, none)
    | _ => none
  | .handling row rest stage => resume pools b row rest stage action
  | .finished => none

/-! ## What a step does -/

variable {b b' : Backfill N} {table : SwapTable} {pools : String → Option PoolInfo}
  {action : BackfillAction N} {update : Option VolumeUpdate}

/-- What the handling of a row does from one wait to the next. -/
inductive Resumed (pools : String → Option PoolInfo) (b : Backfill N) (row : Swap)
    (rest : List Swap) :
    Stage N → BackfillAction N → Backfill N → Option VolumeUpdate → Prop where
  | found {poolInfo : PoolInfo} (hpool : pools row.pair = some poolInfo) :
    Resumed pools b row rest .lookingUp .poolQuery
      { b with
        poolInfoCache := Function.update b.poolInfoCache row.pair (some poolInfo)
        phase := .handling row rest (.pooled poolInfo) } none
  | skipped (hpool : pools row.pair = none) :
    Resumed pools b row rest .lookingUp .poolQuery (b.next rest) none
  | priced {poolInfo : PoolInfo} {found : Prices N × List String}
    (hfound : fromCache b.priceCache (poolInfo.mints row.isToken0In) = found) :
    Resumed pools b row rest (.pooled poolInfo) .readPrices
      { b with
        phase := .handling row rest
          (if found.2 = [] then .updating (row.computeVolumeUsd found.1 poolInfo)
          else .fetching poolInfo found.1 found.2) } none
  | unanswered {poolInfo : PoolInfo} {results : Prices N} {uncachedMints : List String} :
    Resumed pools b row rest (.fetching poolInfo results uncachedMints) (.response none)
      { b with phase := .handling row rest (.updating (row.computeVolumeUsd results poolInfo)) }
      none
  | answered {poolInfo : PoolInfo} {results : Prices N} {uncachedMints : List String}
    {data : PriceResponse N} :
    Resumed pools b row rest (.fetching poolInfo results uncachedMints) (.response (some data))
      { store b uncachedMints data with
        phase := .handling row rest
          (.updating (row.computeVolumeUsd (merged results uncachedMints data) poolInfo)) } none
  | updated {volumeUsd : N} {order : List Swap} :
    Resumed pools b row rest (.updating volumeUsd) (.update order) (b.next rest)
      (some ⟨text volumeUsd, row.txSig, order⟩)
  | failed {stage : Stage N}
    (hstage : stage = .lookingUp ∨ ∃ volumeUsd, stage = .updating volumeUsd) :
    Resumed pools b row rest stage .queryFailed { b with phase := .finished } none

/-- What a step of the script does. -/
inductive Stepped (table : SwapTable) (pools : String → Option PoolInfo) (b : Backfill N) :
    BackfillAction N → Backfill N → Option VolumeUpdate → Prop where
  | nothing (hphase : b.phase = .counting) (hnone : b.selected table = []) :
    Stepped table pools b .count { b with phase := .finished } none
  | counted {toProcess : Int} (hphase : b.phase = .counting) (hsome : b.selected table ≠ [])
    (htoProcess : toProcess = match b.maxLimit with
      | some maxLimit => if maxLimit = 0 then ((b.selected table).length : Int)
        else min (b.selected table).length maxLimit
      | none => (b.selected table).length) :
    Stepped table pools b .count { b with toProcess := toProcess, phase := .selecting } none
  | exhausted {ordered : List Swap} (hphase : b.phase = .selecting)
    (hlt : (b.processed : Int) < b.toProcess) (hperm : ordered.Perm (b.selected table))
    (hnewest : ordered.Pairwise fun r r' => r'.timestamp ≤ r.timestamp)
    (hbatch : ordered.take b.batchSize = []) :
    Stepped table pools b (.select ordered) { b with phase := .finished } none
  | batch {ordered : List Swap} {row : Swap} {rest : List Swap} (hphase : b.phase = .selecting)
    (hlt : (b.processed : Int) < b.toProcess) (hperm : ordered.Perm (b.selected table))
    (hnewest : ordered.Pairwise fun r r' => r'.timestamp ≤ r.timestamp)
    (hbatch : ordered.take b.batchSize = row :: rest) :
    Stepped table pools b (.select ordered) (b.enter row rest) none
  | stopped (hphase : b.phase = .selecting) (hge : ¬ (b.processed : Int) < b.toProcess) :
    Stepped table pools b .stop { b with phase := .finished } none
  | failed (hphase : b.phase = .counting ∨ b.phase = .selecting) :
    Stepped table pools b .queryFailed { b with phase := .finished } none
  | resumed {row : Swap} {rest : List Swap} {stage : Stage N} {action : BackfillAction N}
    {b' : Backfill N} {update : Option VolumeUpdate} (hphase : b.phase = .handling row rest stage)
    (hresumed : Resumed pools b row rest stage action b' update) :
    Stepped table pools b action b' update

theorem resumed_of_resume {row : Swap} {rest : List Swap} {stage : Stage N}
    (h : resume pools b row rest stage action = some (b', update)) :
    Resumed pools b row rest stage action b' update := by
  cases stage with
  | lookingUp =>
    cases action with
    | poolQuery =>
      simp only [resume] at h
      split at h <;> cases h
      · exact .found ‹_›
      · exact .skipped ‹_›
    | queryFailed =>
      cases h
      exact .failed (.inl rfl)
    | _ => cases h
  | pooled poolInfo =>
    cases action with
    | readPrices =>
      cases h
      exact .priced rfl
    | _ => cases h
  | fetching poolInfo results uncachedMints =>
    cases action with
    | response data =>
      cases data <;> cases h
      · exact .unanswered
      · exact .answered
    | _ => cases h
  | updating volumeUsd =>
    cases action with
    | update order =>
      cases h
      exact .updated
    | queryFailed =>
      cases h
      exact .failed (.inr ⟨volumeUsd, rfl⟩)
    | _ => cases h
  | done => cases action <;> cases h

theorem stepped_of_step (h : step table pools b action = some (b', update)) :
    Stepped table pools b action b' update := by
  cases hphase : b.phase with
  | counting =>
    cases action with
    | count =>
      simp only [step, hphase, Int.natCast_eq_zero, List.length_eq_zero_iff] at h
      split at h <;> cases h
      · exact .nothing hphase ‹_›
      · exact .counted hphase ‹_› rfl
    | queryFailed =>
      simp only [step, hphase] at h
      cases h
      exact .failed (.inl hphase)
    | _ => simp [step, hphase] at h
  | selecting =>
    cases action with
    | select ordered =>
      simp only [step, hphase] at h
      split at h
      · next hselect =>
        obtain ⟨hlt, hperm, hnewest⟩ := hselect
        split at h <;> cases h
        · exact .exhausted hphase hlt hperm hnewest ‹_›
        · exact .batch hphase hlt hperm hnewest ‹_›
      · cases h
    | stop =>
      simp only [step, hphase] at h
      split at h <;> cases h
      exact .stopped hphase ‹_›
    | queryFailed =>
      simp only [step, hphase] at h
      cases h
      exact .failed (.inr hphase)
    | _ => simp [step, hphase] at h
  | handling row rest stage =>
    simp only [step, hphase] at h
    exact .resumed hphase (resumed_of_resume h)
  | finished => simp [step, hphase] at h

theorem update_text {u : VolumeUpdate} (h : step table pools b action = some (b', some u)) :
    ∃ n : N, u.volumeUsd = text n := by
  cases stepped_of_step h with
  | resumed hphase hresumed =>
    cases hresumed with
    | updated => exact ⟨_, rfl⟩

/-! ## Progress -/

def stageProgress : Stage N → Nat
  | .lookingUp => 2
  | .pooled _ => 3
  | .fetching .. => 4
  | .updating _ | .done => 5

/-- A row takes at most five steps, with its selection. -/
def progress (b : Backfill N) : Nat :=
  5 * b.processed + match b.phase with
    | .counting => 0
    | .selecting => 1
    | .handling _ _ stage => stageProgress stage
    | .finished => 6

omit [JsNumber N] in
theorem stageProgress_le (stage : Stage N) : stageProgress stage ≤ 5 := by
  cases stage <;> simp [stageProgress]

omit [JsNumber N] in
theorem progress_le (b : Backfill N) : b.progress ≤ 5 * b.processed + 6 := by
  refine Nat.add_le_add_left ?_ _
  cases b.phase with
  | handling row rest stage => exact (stageProgress_le stage).trans (Nat.le_succ 5)
  | _ => simp

omit [JsNumber N] in
theorem le_progress_enter (b : Backfill N) (row : Swap) (rest : List Swap) :
    5 * b.processed + 2 ≤ (b.enter row rest).progress := by
  unfold enter
  split
  · exact Nat.le_succ _
  · exact Nat.le_refl _

omit [JsNumber N] in
theorem le_progress_next (b : Backfill N) (rest : List Swap) :
    5 * b.processed + 6 ≤ (b.next rest).progress := by
  cases rest with
  | nil => exact Nat.le_refl _
  | cons row rest =>
    have hle : 5 * (b.processed + 1) + 2 ≤ (b.next (row :: rest)).progress :=
      le_progress_enter { b with processed := b.processed + 1 } row rest
    omega

theorem resumed_progress {row : Swap} {rest : List Swap} {stage : Stage N}
    (hphase : b.phase = .handling row rest stage)
    (h : Resumed pools b row rest stage action b' update) : b.progress < b'.progress := by
  have hb : b.progress = 5 * b.processed + stageProgress stage := by rw [progress, hphase]
  have hstage : stageProgress stage < 6 := Nat.lt_succ_of_le (stageProgress_le stage)
  have hnext := le_progress_next b rest
  rw [hb]
  cases h with
  | found => exact Nat.lt_succ_self _
  | skipped => exact (Nat.add_lt_add_left hstage _).trans_le hnext
  | priced =>
    refine Nat.add_lt_add_left ?_ _
    dsimp only
    split
    · exact Nat.lt_succ_of_lt (Nat.lt_succ_self _)
    · exact Nat.lt_succ_self _
  | unanswered => exact Nat.lt_succ_self _
  | answered => exact Nat.lt_succ_self _
  | updated => exact (Nat.add_lt_add_left hstage _).trans_le hnext
  | failed => exact Nat.add_lt_add_left hstage _

theorem step_progress (h : step table pools b action = some (b', update)) :
    b.progress < b'.progress := by
  cases stepped_of_step h with
  | nothing hphase => simp [progress, hphase]
  | counted hphase => simp [progress, hphase]
  | exhausted hphase => simp [progress, hphase]
  | batch hphase =>
    have hb : b.progress = 5 * b.processed + 1 := by rw [progress, hphase]
    exact hb ▸ le_progress_enter b _ _
  | stopped hphase => simp [progress, hphase]
  | failed hphase => rcases hphase with hphase | hphase <;> simp [progress, hphase]
  | resumed hphase hresumed => exact resumed_progress hphase hresumed

end Backfill

end OmnipairIndexer
