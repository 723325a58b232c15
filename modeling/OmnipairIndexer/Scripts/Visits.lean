/-
Which swaps a run of the backfill script handles.

A job is one run of `backfillVolume.ts` on the tables it finds, while nothing else
writes.  A row is handled when the loop over a batch has gone through its body, with
an update or without.  Failed queries end a run early and are left out.

The script is a work list of the kind of `Batches`: rows of pairs that `pools` has
leave the set that the selections see, the others stay in it.  `Tracks` relates the
two, step by step in both directions, so the condition on work lists is the one on jobs.
-/
import OmnipairIndexer.Library.Batches
import OmnipairIndexer.Scripts.BackfillVolume

namespace OmnipairIndexer

open Transition

structure BackfillJob where
  pools : String → Option PoolInfo
  table : SwapTable
  pairFilter : Option String
  maxLimit : Option Int
  batchSize : Nat
  txSig_nodup : (table.rows.map fun row => row.txSig).Nodup
  maxLimit_pos : ∀ limit ∈ maxLimit, 0 < limit
  batchSize_pos : 0 < batchSize

/-- The script, the table it works on, and the rows it has handled. -/
structure Visits (N : Type) where
  script : Backfill N
  table : SwapTable
  handled : List Swap

def BackfillPhase.row {N : Type} : BackfillPhase N → Option Swap
  | handling row _ _ => some row
  | _ => none

def BackfillAction.succeeds {N : Type} : BackfillAction N → Bool
  | queryFailed => false
  | _ => true

/-- The row whose handling a step ends. -/
def Backfill.completed {N : Type} (b b' : Backfill N) : List Swap :=
  if b'.processed = b.processed then [] else b.phase.row.toList

/-- The table once an update, if there is one, has run. -/
def SwapTable.after (table : SwapTable) : Option VolumeUpdate → Option SwapTable
  | none => some table
  | some u => (table.update u.volumeUsd u.txSig u.order).map Prod.fst

namespace BackfillJob

section

variable {N : Type}

def start (job : BackfillJob) : Visits N :=
  ⟨.start job.pairFilter job.maxLimit job.batchSize, job.table, []⟩

/-- The rows that match when the run starts. -/
def rows (job : BackfillJob) : List Swap :=
  job.table.rows.filter fun row =>
    row.volumeUsd.isNone && job.pairFilter.all fun pair => row.pair = pair

/-- How many rows the run should handle. -/
def goal (job : BackfillJob) : Nat :=
  match job.maxLimit with
  | some limit => min job.rows.length limit.toNat
  | none => job.rows.length

/-- What a run that ended should have done. -/
structure Right (job : BackfillJob) (v : Visits N) : Prop where
  id_nodup : (v.handled.map Swap.id).Nodup
  matching : ∀ row ∈ v.handled, row ∈ job.rows
  length : v.handled.length = job.goal
  all : job.goal = job.rows.length → ∀ row ∈ job.rows, row ∈ v.handled

structure Fits (job : BackfillJob) : Prop where
  rounds : job.goal = job.rows.length ∨ job.batchSize ∣ job.goal
  skipped : ∀ row ∈ job.rows, job.pools row.pair = none →
    (job.goal - 1) / job.batchSize * job.batchSize ≤
      (job.rows.filter fun row' => row.timestamp < row'.timestamp).length

def plan (job : BackfillJob) : Batches.Plan Swap Nat where
  key row := row.timestamp
  leaves row := (job.pools row.pair).isSome
  size := job.batchSize
  goal := job.goal

variable [JsNumber N]

def step (job : BackfillJob) (v : Visits N) (action : BackfillAction N) : Option (Visits N) :=
  (v.script.step v.table job.pools action).bind fun (script, update) =>
    (v.table.after update).map fun table =>
      ⟨script, table, v.handled ++ v.script.completed script⟩

/-- No run goes on forever or gets stuck, and one that ends has done what it should. -/
structure VisitsRight (N : Type) [JsNumber N] (job : BackfillJob) : Prop where
  bounded : ∃ bound, ∀ (as : List (BackfillAction N)) (v : Visits N), (∀ a ∈ as, a.succeeds) →
    run job.step job.start as = some v → as.length ≤ bound
  ends : ∀ (as : List (BackfillAction N)) (v : Visits N), (∀ a ∈ as, a.succeeds) →
    run job.step job.start as = some v →
    ∃ bs w, (∀ b ∈ bs, BackfillAction.succeeds b) ∧ run job.step v bs = some w ∧
      w.script.phase = .finished
  right : ∀ (as : List (BackfillAction N)) (v : Visits N), (∀ a ∈ as, a.succeeds) →
    run job.step job.start as = some v → v.script.phase = .finished → job.Right v

end

/-! ## The work list behind a run -/

variable {N : Type}

/-- The stages of a row that a run reaches. -/
def Reached (job : BackfillJob) (row : Swap) (stage : Stage N) : Prop :=
  stage = .lookingUp ∨ (job.pools row.pair).isSome ∧ stage.isDone = false

def Agrees (job : BackfillJob) (toProcess : Int) (t : Batches.State Swap) :
    BackfillPhase N → Prop
  | .counting => t = Batches.start job.rows
  | .selecting => t.pending = [] ∧ t.finished = false ∧ toProcess = job.goal
  | .handling row rest stage =>
    t.pending = row :: rest ∧ t.finished = false ∧ toProcess = job.goal ∧ job.Reached row stage
  | .finished => t.finished = true

structure Tracks (job : BackfillJob) (v : Visits N) (t : Batches.State Swap) : Prop where
  pairFilter : v.script.pairFilter = job.pairFilter
  maxLimit : v.script.maxLimit = job.maxLimit
  batchSize : v.script.batchSize = job.batchSize
  cache : ∀ pair poolInfo, v.script.poolInfoCache pair = some poolInfo →
    job.pools pair = some poolInfo
  left : v.script.selected v.table = t.left
  handled : v.handled = t.handled
  processed : v.script.processed = t.handled.length
  sound : Batches.Sound job.rows t
  agrees : job.Agrees v.script.toProcess t v.script.phase

variable {job : BackfillJob} {v : Visits N} {t : Batches.State Swap}

theorem tracks_start (job : BackfillJob) :
    job.Tracks (job.start : Visits N) (Batches.start job.rows) where
  pairFilter := rfl
  maxLimit := rfl
  batchSize := rfl
  cache _ _ h := absurd h.symm (Option.some_ne_none _)
  left := rfl
  handled := rfl
  processed := rfl
  sound := Batches.sound_start _
  agrees := rfl

theorem ordering_iff {ordered : List Swap} (h : job.Tracks v t) :
    job.plan.Ordering t.left ordered ↔ ordered.Perm (v.script.selected v.table) ∧
      ordered.Pairwise fun r r' => r'.timestamp ≤ r.timestamp := by
  rw [h.left]
  rfl

theorem processed_lt_iff (h : job.Tracks v t) (hgoal : v.script.toProcess = job.goal) :
    (v.script.processed : Int) < v.script.toProcess ↔ t.handled.length < job.plan.goal := by
  rw [hgoal, h.processed, Nat.cast_lt]
  rfl

/-- A row begins with the query for its pool, or after it. -/
theorem enter_agrees (b : Backfill N) (row : Swap) (rest : List Swap)
    (hcache : ∀ pair poolInfo, b.poolInfoCache pair = some poolInfo →
      job.pools pair = some poolInfo) :
    ∃ stage, b.enter row rest = { b with phase := .handling row rest stage } ∧
      job.Reached row stage := by
  unfold Backfill.enter
  cases hcached : b.poolInfoCache row.pair with
  | some poolInfo => exact ⟨_, rfl, .inr ⟨by rw [hcache _ _ hcached]; rfl, rfl⟩⟩
  | none => exact ⟨_, rfl, .inl rfl⟩

variable {row : Swap} {rest : List Swap}

theorem agrees_of_handling (h : job.Tracks v t) {stage : Stage N}
    (hphase : v.script.phase = .handling row rest stage) :
    t.pending = row :: rest ∧ t.finished = false ∧ v.script.toProcess = job.goal ∧
      job.Reached row stage := by
  have hagrees := h.agrees
  rwa [hphase] at hagrees

theorem agrees_of_selecting (h : job.Tracks v t) (hphase : v.script.phase = .selecting) :
    t.pending = [] ∧ t.finished = false ∧ v.script.toProcess = job.goal := by
  have hagrees := h.agrees
  rwa [hphase] at hagrees

theorem pool_of_reached {stage : Stage N} (h : job.Reached row stage)
    (hstage : stage ≠ .lookingUp) : (job.pools row.pair).isSome :=
  (h.resolve_left hstage).1

/-- Going on with the row changes nothing that the work list has. -/
theorem tracks_stage (h : job.Tracks v t) {stage stage' : Stage N}
    (hphase : v.script.phase = .handling row rest stage) (hpool : (job.pools row.pair).isSome)
    (hdone : stage'.isDone = false) (priceCache : String → Option (Option (PriceInfo N))) :
    job.Tracks ⟨{ v.script with priceCache := priceCache, phase := .handling row rest stage' },
      v.table, v.handled⟩ t := by
  obtain ⟨hpending, hrunning, hgoal, -⟩ := agrees_of_handling h hphase
  exact { h with agrees := ⟨hpending, hrunning, hgoal, .inr ⟨hpool, hdone⟩⟩ }

/-! ## The end of a row -/

theorem txSig_inj (job : BackfillJob) {row row' : Swap} (hrow : row ∈ job.rows)
    (hrow' : row' ∈ job.rows) (h : row.txSig = row'.txSig) : row = row' :=
  List.inj_on_of_nodup_map job.txSig_nodup (List.mem_of_mem_filter hrow)
    (List.mem_of_mem_filter hrow') h

/-- An updated row is the only one that leaves the set that the selections see. -/
theorem selected_withVolume (h : job.Tracks v t) (hrow : row ∈ job.rows) (volumeUsd : String) :
    v.script.selected (v.table.withVolume volumeUsd row.txSig) = t.left.filter (· ≠ row) := by
  have hset : ∀ old ∈ v.table.rows,
      (v.script.selects ∘ SwapTable.setVolume volumeUsd row.txSig) old =
        (decide (old.txSig ≠ row.txSig) && v.script.selects old) := by
    intro old _
    by_cases hsig : old.txSig = row.txSig
    · simp [SwapTable.setVolume_of_eq hsig, Backfill.selects, hsig]
    · simp [SwapTable.setVolume_of_ne hsig, hsig]
  have hsig : ∀ old ∈ t.left, decide (old.txSig ≠ row.txSig) = decide (old ≠ row) := by
    intro old hold
    refine decide_eq_decide.mpr (not_congr ⟨fun heq => ?_, fun heq => by rw [heq]⟩)
    exact job.txSig_inj (h.sound.left_subset old hold) hrow heq
  calc v.script.selected (v.table.withVolume volumeUsd row.txSig)
    _ = (v.table.rows.filter (v.script.selects ∘ SwapTable.setVolume volumeUsd row.txSig)).map
        (SwapTable.setVolume volumeUsd row.txSig) := List.filter_map
    _ = ((v.script.selected v.table).filter fun old => old.txSig ≠ row.txSig).map
        (SwapTable.setVolume volumeUsd row.txSig) := by
      rw [List.filter_congr hset, ← List.filter_filter]
      rfl
    _ = (t.left.filter (· ≠ row)).map (SwapTable.setVolume volumeUsd row.txSig) := by
      rw [h.left, List.filter_congr hsig]
    _ = t.left.filter (· ≠ row) := by
      refine (List.map_congr_left fun old hold => ?_).trans (List.map_id _)
      obtain ⟨hold, hne⟩ := List.mem_filter.mp hold
      exact SwapTable.setVolume_of_ne (of_decide_eq_true ((hsig old hold).trans hne))

theorem next_processed (b : Backfill N) (rest : List Swap) :
    (b.next rest).processed = b.processed + 1 := by
  cases rest with
  | nil => rfl
  | cons row rest =>
    rw [Backfill.next, Backfill.enter]
    split <;> rfl

theorem tracks_next (h : job.Tracks v t) {stage : Stage N}
    (hphase : v.script.phase = .handling row rest stage) {table : SwapTable}
    (hleft : v.script.selected table = job.plan.leave t.left row) :
    ∃ t', Batches.step job.plan t .visit = some t' ∧
      job.Tracks ⟨v.script.next rest, table, v.handled ++ [row]⟩ t' := by
  obtain ⟨hpending, hrunning, hgoal, -⟩ := agrees_of_handling h hphase
  have hvisit : Batches.step job.plan t .visit = some _ := Batches.step_visit hpending
  have hsound := Batches.step_sound h.sound hvisit
  have hprocessed : v.script.processed + 1 = (t.handled ++ [row]).length := by
    rw [h.processed, List.length_append]
    rfl
  refine ⟨_, hvisit, ?_⟩
  cases rest with
  | nil =>
    exact { h with
      left := hleft
      handled := by rw [h.handled]
      processed := hprocessed
      sound := hsound
      agrees := ⟨rfl, hrunning, hgoal⟩ }
  | cons row' rest =>
    obtain ⟨stage', henter, hreached⟩ := enter_agrees
      { v.script with processed := v.script.processed + 1 } row' rest h.cache
    rw [Backfill.next, henter]
    exact { h with
      left := hleft
      handled := by rw [h.handled]
      processed := hprocessed
      sound := hsound
      agrees := ⟨rfl, hrunning, hgoal, hreached⟩ }

variable [JsNumber N]

/-- A step within a row, or between rows. -/
theorem step_same {action : BackfillAction N} {script : Backfill N}
    (h : v.script.step v.table job.pools action = some (script, none))
    (hprocessed : script.processed = v.script.processed) :
    job.step v action = some ⟨script, v.table, v.handled⟩ := by
  simp only [step, h, Option.bind_some, Backfill.completed, if_pos hprocessed, List.append_nil]
  rfl

/-! ## Counting and selecting -/

theorem tracks_count (h : job.Tracks v t) (hphase : v.script.phase = .counting) :
    ∃ v', job.step v .count = some v' ∧
      (v'.script.phase = .selecting ∧ job.Tracks v' t ∨
        ∃ t', Batches.step job.plan t .stop = some t' ∧ job.Tracks v' t') := by
  have hagrees := h.agrees
  rw [hphase] at hagrees
  have hrows : v.script.selected v.table = job.rows := h.left.trans (congrArg _ hagrees)
  have hpending : t.pending = [] := congrArg _ hagrees
  have hrunning : t.finished = false := congrArg _ hagrees
  by_cases hnil : job.rows = []
  · have hgoal : job.plan.goal = 0 := by
      simp only [plan, goal, hnil, List.length_nil, Nat.zero_min]
      split <;> rfl
    have hstop := Batches.step_stop hrunning hpending (hgoal ▸ Nat.zero_le _)
    refine ⟨⟨{ v.script with phase := .finished }, v.table, v.handled⟩, step_same ?_ rfl, .inr
      ⟨_, hstop, { h with sound := Batches.step_sound h.sound hstop, agrees := rfl }⟩⟩
    simp [Backfill.step, hphase, hrows, hnil]
  · refine ⟨⟨{ v.script with toProcess := job.goal, phase := .selecting }, v.table, v.handled⟩,
      step_same ?_ rfl, .inl ⟨rfl, { h with agrees := ⟨hpending, hrunning, rfl⟩ }⟩⟩
    simp only [Backfill.step, hphase, hrows, Int.natCast_eq_zero, List.length_eq_zero_iff,
      if_neg hnil, h.maxLimit, goal]
    cases hlimit : job.maxLimit with
    | none => rfl
    | some limit =>
      have hpos := job.maxLimit_pos limit hlimit
      have hmin : min (job.rows.length : Int) limit = (min job.rows.length limit.toNat : Nat) := by
        omega
      simp only [if_neg hpos.ne', hmin]

theorem tracks_select (h : job.Tracks v t) (hphase : v.script.phase = .selecting)
    {ordered : List Swap} (hlt : t.handled.length < job.plan.goal)
    (hordered : job.plan.Ordering t.left ordered) :
    ∃ v' t', job.step v (.select ordered) = some v' ∧
      Batches.step job.plan t (.select ordered) = some t' ∧ job.Tracks v' t' := by
  obtain ⟨hpending, hrunning, hgoal⟩ := agrees_of_selecting h hphase
  have hselect := Batches.step_select hrunning hpending hlt hordered
  have hguard := And.intro ((processed_lt_iff h hgoal).mpr hlt) ((ordering_iff h).mp hordered)
  have hbatch : ordered.take v.script.batchSize = ordered.take job.plan.size := by
    rw [h.batchSize]
    rfl
  cases hcase : ordered.take job.plan.size with
  | nil =>
    rw [hcase] at hselect
    refine ⟨⟨{ v.script with phase := .finished }, v.table, v.handled⟩, _, step_same ?_ rfl,
      hselect, { h with sound := Batches.step_sound h.sound hselect, agrees := rfl }⟩
    simp only [Backfill.step, hphase, if_pos hguard, hbatch, hcase]
  | cons row rest =>
    rw [hcase] at hselect
    obtain ⟨stage, henter, hreached⟩ := enter_agrees v.script row rest h.cache
    refine ⟨⟨{ v.script with phase := .handling row rest stage }, v.table, v.handled⟩, _,
      step_same ?_ rfl, hselect, { h with
        sound := Batches.step_sound h.sound hselect
        agrees := ⟨rfl, rfl, hgoal, hreached⟩ }⟩
    simp only [Backfill.step, hphase, if_pos hguard, hbatch, hcase, henter]

theorem tracks_stop (h : job.Tracks v t) (hphase : v.script.phase = .selecting)
    (hle : job.plan.goal ≤ t.handled.length) :
    ∃ v' t', job.step v .stop = some v' ∧ Batches.step job.plan t .stop = some t' ∧
      job.Tracks v' t' := by
  obtain ⟨hpending, hrunning, hgoal⟩ := agrees_of_selecting h hphase
  have hstop := Batches.step_stop hrunning hpending hle
  have hguard := (processed_lt_iff h hgoal).not.mpr hle.not_gt
  refine ⟨⟨{ v.script with phase := .finished }, v.table, v.handled⟩, _, step_same ?_ rfl, hstop,
    { h with sound := Batches.step_sound h.sound hstop, agrees := rfl }⟩
  simp only [Backfill.step, hphase, if_neg hguard]

/-! ## Handling a row -/

theorem tracks_lookup (h : job.Tracks v t) (hphase : v.script.phase = .handling row rest .lookingUp)
    {poolInfo : PoolInfo} (hpool : job.pools row.pair = some poolInfo) :
    ∃ v', job.step v .poolQuery = some v' ∧ job.Tracks v' t ∧
      v'.script.phase = .handling row rest (.pooled poolInfo) := by
  obtain ⟨hpending, hrunning, hgoal, -⟩ := agrees_of_handling h hphase
  refine ⟨⟨{ v.script with
      poolInfoCache := Function.update v.script.poolInfoCache row.pair (some poolInfo)
      phase := .handling row rest (.pooled poolInfo) }, v.table, v.handled⟩, step_same ?_ rfl,
    { h with cache := ?_, agrees := ?_ }, rfl⟩
  · simp only [Backfill.step, hphase, Backfill.resume, hpool]
  · intro pair info hcached
    by_cases hpair : pair = row.pair
    · simp only [hpair, Function.update_self] at hcached
      rw [hpair, hpool, hcached]
    · simp only [Function.update_of_ne hpair] at hcached
      exact h.cache pair info hcached
  · exact ⟨hpending, hrunning, hgoal, .inr ⟨by rw [hpool]; rfl, rfl⟩⟩

theorem tracks_prices (h : job.Tracks v t) {poolInfo : PoolInfo}
    (hphase : v.script.phase = .handling row rest (.pooled poolInfo)) :
    ∃ v' stage, job.step v .readPrices = some v' ∧ job.Tracks v' t ∧
      v'.script.phase = .handling row rest stage ∧
      ((∃ volumeUsd, stage = .updating volumeUsd) ∨
        ∃ results uncachedMints, stage = .fetching poolInfo results uncachedMints) := by
  have hpool := pool_of_reached (agrees_of_handling h hphase).2.2.2 (nomatch ·)
  set found := fromCache v.script.priceCache (poolInfo.mints row.isToken0In) with hfound
  by_cases hnil : found.2 = []
  · have hstep : v.script.step v.table job.pools .readPrices = some ({ v.script with
        phase := .handling row rest (.updating (row.computeVolumeUsd found.1 poolInfo)) },
        none) := by
      simp only [Backfill.step, hphase, Backfill.resume, ← hfound, if_pos hnil]
    exact ⟨_, _, step_same hstep rfl, tracks_stage h hphase hpool rfl _, rfl, .inl ⟨_, rfl⟩⟩
  · have hstep : v.script.step v.table job.pools .readPrices = some ({ v.script with
        phase := .handling row rest (.fetching poolInfo found.1 found.2) }, none) := by
      simp only [Backfill.step, hphase, Backfill.resume, ← hfound, if_neg hnil]
    exact ⟨_, _, step_same hstep rfl, tracks_stage h hphase hpool rfl _, rfl, .inr ⟨_, _, rfl⟩⟩

theorem tracks_response (h : job.Tracks v t) {poolInfo : PoolInfo} {results : Prices N}
    {uncachedMints : List String}
    (hphase : v.script.phase = .handling row rest (.fetching poolInfo results uncachedMints))
    (data : Option (PriceResponse N)) :
    ∃ v' volumeUsd, job.step v (.response data) = some v' ∧ job.Tracks v' t ∧
      v'.script.phase = .handling row rest (.updating volumeUsd) := by
  have hpool := pool_of_reached (agrees_of_handling h hphase).2.2.2 (nomatch ·)
  cases data with
  | none =>
    have hstep : v.script.step v.table job.pools (.response none) = some ({ v.script with
        phase := .handling row rest (.updating (row.computeVolumeUsd results poolInfo)) },
        none) := by
      simp only [Backfill.step, hphase, Backfill.resume]
    exact ⟨_, _, step_same hstep rfl, tracks_stage h hphase hpool rfl _, rfl⟩
  | some data =>
    have hstep : v.script.step v.table job.pools (.response (some data)) =
        some ({ v.script.store uncachedMints data with
          phase := .handling row rest (.updating (row.computeVolumeUsd
            (merged results uncachedMints data) poolInfo)) }, none) := by
      simp only [Backfill.step, hphase, Backfill.resume]
    exact ⟨_, _, step_same hstep rfl, tracks_stage h hphase hpool rfl _, rfl⟩

theorem step_next {action : BackfillAction N} {stage : Stage N} {update : Option VolumeUpdate}
    {table : SwapTable} (hphase : v.script.phase = .handling row rest stage)
    (h : v.script.step v.table job.pools action = some (v.script.next rest, update))
    (htable : v.table.after update = some table) :
    job.step v action = some ⟨v.script.next rest, table, v.handled ++ [row]⟩ := by
  have hcompleted : v.script.completed (v.script.next rest) = [row] := by
    rw [Backfill.completed, if_neg (by rw [next_processed]; exact Nat.succ_ne_self _), hphase]
    rfl
  simp only [step, h, Option.bind_some, htable, Option.map_some, hcompleted]

theorem tracks_skip (h : job.Tracks v t) (hphase : v.script.phase = .handling row rest .lookingUp)
    (hpool : job.pools row.pair = none) :
    ∃ v' t', job.step v .poolQuery = some v' ∧ Batches.step job.plan t .visit = some t' ∧
      job.Tracks v' t' := by
  have hstays : ¬ job.plan.leaves row := by simp [plan, hpool]
  have hleft : v.script.selected v.table = job.plan.leave t.left row := by
    rw [h.left, Batches.Plan.leave, if_neg hstays]
  have hstep : v.script.step v.table job.pools .poolQuery = some (v.script.next rest, none) := by
    simp only [Backfill.step, hphase, Backfill.resume, hpool]
  obtain ⟨t', hvisit, htracks⟩ := tracks_next h hphase hleft
  exact ⟨_, t', step_next hphase hstep rfl, hvisit, htracks⟩

theorem tracks_update (h : job.Tracks v t) {volumeUsd : N}
    (hphase : v.script.phase = .handling row rest (.updating volumeUsd)) {order : List Swap}
    (horder : order.Perm
      ((v.table.withVolume (JsNumber.text volumeUsd) row.txSig).rowsOf row.txSig)) :
    ∃ v' t', job.step v (.update order) = some v' ∧ Batches.step job.plan t .visit = some t' ∧
      job.Tracks v' t' := by
  obtain ⟨hpending, -, -, hreached⟩ := agrees_of_handling h hphase
  have hpool := pool_of_reached hreached (nomatch ·)
  have hrow : row ∈ job.rows := by
    refine h.sound.taken_subset row (List.mem_append_right _ ?_)
    exact hpending ▸ List.mem_cons_self
  have hleaves : job.plan.leaves row := hpool
  have hleft : v.script.selected (v.table.withVolume (JsNumber.text volumeUsd) row.txSig) =
      job.plan.leave t.left row := by
    rw [selected_withVolume h hrow, Batches.Plan.leave, if_pos hleaves]
  have hstep : v.script.step v.table job.pools (.update order) =
      some (v.script.next rest, some ⟨JsNumber.text volumeUsd, row.txSig, order⟩) := by
    simp only [Backfill.step, hphase, Backfill.resume]
  obtain ⟨t', hvisit, htracks⟩ := tracks_next h hphase hleft
  refine ⟨_, t', step_next hphase hstep ?_, hvisit, htracks⟩
  rw [SwapTable.after, SwapTable.update, if_pos horder]
  rfl

/-! ## Every step has its counterpart -/

omit [JsNumber N] in
theorem finished_iff (h : job.Tracks v t) : v.script.phase = .finished ↔ t.finished := by
  have hagrees := h.agrees
  cases hphase : v.script.phase with
  | counting =>
    rw [hphase] at hagrees
    simp [show t = Batches.start job.rows from hagrees, Batches.start]
  | selecting =>
    rw [hphase] at hagrees
    simp [hagrees.2.1]
  | handling row rest stage =>
    rw [hphase] at hagrees
    simp [hagrees.2.1]
  | finished =>
    rw [hphase] at hagrees
    exact ⟨fun _ => hagrees, fun _ => rfl⟩

/-- A step of the work list that a step of the script makes too. -/
theorem followed {action : BackfillAction N} {b : Batches.Action Swap} {v' v'' : Visits N}
    {t' : Batches.State Swap} (hstep : job.step v action = some v')
    (h : job.step v action = some v'' ∧ Batches.step job.plan t b = some t' ∧ job.Tracks v'' t') :
    ∃ bs t', (∀ b ∈ bs, True) ∧ run (Batches.step job.plan) t bs = some t' ∧ job.Tracks v' t' := by
  obtain ⟨hstep', hb, htracks⟩ := h
  cases hstep.symm.trans hstep'
  exact ⟨[b], t', fun _ _ => trivial, run_cons_eq_some.mpr ⟨t', hb, rfl⟩, htracks⟩

/-- A step of the script that is none of the work list. -/
theorem stuttered {action : BackfillAction N} {v' v'' : Visits N}
    (hstep : job.step v action = some v')
    (h : job.step v action = some v'' ∧ job.Tracks v'' t) :
    ∃ bs t', (∀ b ∈ bs, True) ∧ run (Batches.step job.plan) t bs = some t' ∧ job.Tracks v' t' := by
  obtain ⟨hstep', htracks⟩ := h
  cases hstep.symm.trans hstep'
  exact ⟨[], t, fun _ _ => trivial, rfl, htracks⟩

theorem script_step {action : BackfillAction N} {v' : Visits N}
    (hstep : job.step v action = some v') :
    ∃ script update table, v.script.step v.table job.pools action = some (script, update) ∧
      v.table.after update = some table ∧
      v' = ⟨script, table, v.handled ++ v.script.completed script⟩ := by
  simp only [step, Option.bind_eq_some_iff, Option.map_eq_some_iff] at hstep
  obtain ⟨⟨script, update⟩, hscript, table, htable, rfl⟩ := hstep
  exact ⟨script, update, table, hscript, htable, rfl⟩

theorem order_of_after {table table' : SwapTable} {u : VolumeUpdate}
    (h : table.after (some u) = some table') :
    u.order.Perm ((table.withVolume u.volumeUsd u.txSig).rowsOf u.txSig) := by
  simp only [SwapTable.after, SwapTable.update, Option.map_eq_some_iff,
    Option.ite_none_right_eq_some] at h
  obtain ⟨_, ⟨horder, -⟩, -⟩ := h
  exact horder

theorem forward_resumed (h : job.Tracks v t) {stage : Stage N}
    (hphase : v.script.phase = .handling row rest stage) {action : BackfillAction N}
    (ha : action.succeeds) {script : Backfill N} {update : Option VolumeUpdate}
    {table : SwapTable} (hresumed : Backfill.Resumed job.pools v.script row rest stage action
      script update) (htable : v.table.after update = some table) {v' : Visits N}
    (hstep : job.step v action = some v') :
    ∃ bs t', (∀ b ∈ bs, True) ∧ run (Batches.step job.plan) t bs = some t' ∧ job.Tracks v' t' := by
  cases hresumed with
  | found hpool =>
    obtain ⟨v'', hlookup, htracks, -⟩ := tracks_lookup h hphase hpool
    exact stuttered hstep ⟨hlookup, htracks⟩
  | skipped hpool =>
    obtain ⟨v'', t', hboth⟩ := tracks_skip h hphase hpool
    exact followed hstep hboth
  | priced =>
    obtain ⟨v'', stage, hprices, htracks, -⟩ := tracks_prices h hphase
    exact stuttered hstep ⟨hprices, htracks⟩
  | unanswered =>
    obtain ⟨v'', volumeUsd, hresponse, htracks, -⟩ := tracks_response h hphase none
    exact stuttered hstep ⟨hresponse, htracks⟩
  | answered =>
    obtain ⟨v'', volumeUsd, hresponse, htracks, -⟩ := tracks_response h hphase (some _)
    exact stuttered hstep ⟨hresponse, htracks⟩
  | updated =>
    obtain ⟨v'', t', hboth⟩ := tracks_update h hphase (order_of_after htable)
    exact followed hstep hboth
  | failed => cases ha

theorem forward (h : job.Tracks v t) {action : BackfillAction N} (ha : action.succeeds)
    {v' : Visits N} (hstep : job.step v action = some v') :
    ∃ bs t', (∀ b ∈ bs, True) ∧ run (Batches.step job.plan) t bs = some t' ∧ job.Tracks v' t' := by
  obtain ⟨script, update, table, hscript, htable, -⟩ := script_step hstep
  cases Backfill.stepped_of_step hscript with
  | nothing hphase | counted hphase =>
    obtain ⟨v'', hcount, ⟨-, htracks⟩ | ⟨t', hstop, htracks⟩⟩ := tracks_count h hphase
    · exact stuttered hstep ⟨hcount, htracks⟩
    · exact followed hstep ⟨hcount, hstop, htracks⟩
  | exhausted hphase hlt hperm hnewest | batch hphase hlt hperm hnewest =>
    obtain ⟨v'', t', hboth⟩ := tracks_select h hphase
      ((processed_lt_iff h (agrees_of_selecting h hphase).2.2).mp hlt)
      ((ordering_iff h).mpr ⟨hperm, hnewest⟩)
    exact followed hstep hboth
  | stopped hphase hge =>
    obtain ⟨v'', t', hboth⟩ := tracks_stop h hphase
      (Nat.le_of_not_lt ((processed_lt_iff h (agrees_of_selecting h hphase).2.2).not.mp hge))
    exact followed hstep hboth
  | failed => cases ha
  | resumed hphase hresumed => exact forward_resumed h hphase ha hresumed htable hstep

/-! ## Every visit can be made -/

/-- The script can go on from `v` to where the work list is in `t'`. -/
def Reaches (job : BackfillJob) (v : Visits N) (t' : Batches.State Swap) : Prop :=
  ∃ bs v', (∀ b ∈ bs, BackfillAction.succeeds b) ∧ run job.step v bs = some v' ∧
    job.Tracks v' t'

theorem reaches_cons {action : BackfillAction N} {v' : Visits N} {t' : Batches.State Swap}
    (ha : action.succeeds) (hstep : job.step v action = some v') (h : job.Reaches v' t') :
    job.Reaches v t' := by
  obtain ⟨bs, w, hbs, hrun, htracks⟩ := h
  exact ⟨action :: bs, w, List.forall_mem_cons.mpr ⟨ha, hbs⟩,
    run_cons_eq_some.mpr ⟨v', hstep, hrun⟩, htracks⟩

theorem reaches_one {action : BackfillAction N} {b : Batches.Action Swap}
    {t' t'' : Batches.State Swap} {v' : Visits N} (ha : action.succeeds)
    (hb : Batches.step job.plan t b = some t')
    (h : job.step v action = some v' ∧ Batches.step job.plan t b = some t'' ∧ job.Tracks v' t'') :
    job.Reaches v t' := by
  obtain ⟨hstep, hb', htracks⟩ := h
  cases hb.symm.trans hb'
  exact reaches_cons ha hstep ⟨[], v', fun _ h => absurd h List.not_mem_nil, rfl, htracks⟩

variable {t' : Batches.State Swap}

theorem reaches_of_updating (h : job.Tracks v t) {volumeUsd : N}
    (hphase : v.script.phase = .handling row rest (.updating volumeUsd))
    (hvisit : Batches.step job.plan t .visit = some t') : job.Reaches v t' := by
  obtain ⟨v', t'', hboth⟩ := tracks_update h hphase (List.Perm.refl _)
  exact reaches_one rfl hvisit hboth

theorem reaches_of_fetching (h : job.Tracks v t) {poolInfo : PoolInfo} {results : Prices N}
    {uncachedMints : List String}
    (hphase : v.script.phase = .handling row rest (.fetching poolInfo results uncachedMints))
    (hvisit : Batches.step job.plan t .visit = some t') : job.Reaches v t' := by
  obtain ⟨v', volumeUsd, hresponse, htracks, hphase'⟩ := tracks_response h hphase none
  exact reaches_cons rfl hresponse (reaches_of_updating htracks hphase' hvisit)

theorem reaches_of_pooled (h : job.Tracks v t) {poolInfo : PoolInfo}
    (hphase : v.script.phase = .handling row rest (.pooled poolInfo))
    (hvisit : Batches.step job.plan t .visit = some t') : job.Reaches v t' := by
  obtain ⟨v', stage, hprices, htracks, hphase', ⟨volumeUsd, rfl⟩ | ⟨results, uncachedMints, rfl⟩⟩ :=
    tracks_prices h hphase
  · exact reaches_cons rfl hprices (reaches_of_updating htracks hphase' hvisit)
  · exact reaches_cons rfl hprices (reaches_of_fetching htracks hphase' hvisit)

theorem reaches_of_handling (h : job.Tracks v t) {stage : Stage N}
    (hphase : v.script.phase = .handling row rest stage)
    (hvisit : Batches.step job.plan t .visit = some t') : job.Reaches v t' := by
  cases stage with
  | lookingUp =>
    cases hpool : job.pools row.pair with
    | none =>
      obtain ⟨v', t'', hboth⟩ := tracks_skip h hphase hpool
      exact reaches_one rfl hvisit hboth
    | some poolInfo =>
      obtain ⟨v', hlookup, htracks, hphase'⟩ := tracks_lookup h hphase hpool
      exact reaches_cons rfl hlookup (reaches_of_pooled htracks hphase' hvisit)
  | pooled poolInfo => exact reaches_of_pooled h hphase hvisit
  | fetching poolInfo results uncachedMints => exact reaches_of_fetching h hphase hvisit
  | updating volumeUsd => exact reaches_of_updating h hphase hvisit
  | done =>
    obtain ⟨-, -, -, hreached⟩ := agrees_of_handling h hphase
    exact absurd (hreached.resolve_left (nomatch ·)).2 Bool.noConfusion

theorem reaches_of_selecting (h : job.Tracks v t) (hphase : v.script.phase = .selecting)
    {b : Batches.Action Swap} (hstep : Batches.step job.plan t b = some t') :
    job.Reaches v t' := by
  rcases Batches.step_cases hstep with ⟨ordered, rfl, -, -, hlt, hordered, -⟩ |
    ⟨row, rest, -, hpending', -⟩ | ⟨rfl, -, -, hle, -⟩
  · obtain ⟨v', t'', hboth⟩ := tracks_select h hphase hlt hordered
    exact reaches_one rfl hstep hboth
  · obtain ⟨hpending, -⟩ := agrees_of_selecting h hphase
    exact absurd (hpending'.symm.trans hpending) (List.cons_ne_nil _ _)
  · obtain ⟨v', t'', hboth⟩ := tracks_stop h hphase hle
    exact reaches_one rfl hstep hboth

theorem backward (h : job.Tracks v t) {b : Batches.Action Swap}
    (hstep : Batches.step job.plan t b = some t') : job.Reaches v t' := by
  cases hphase : v.script.phase with
  | counting =>
    obtain ⟨v', hcount, ⟨hphase', htracks⟩ | ⟨t'', hstop, htracks⟩⟩ := tracks_count h hphase
    · exact reaches_cons rfl hcount (reaches_of_selecting htracks hphase' hstep)
    · -- nothing matches, so that stopping is all there is to do
      rcases Batches.step_cases hstop with ⟨_, hb, -⟩ | ⟨_, _, hb, -⟩ | ⟨-, -, hpending, hle, -⟩
      · cases hb
      · cases hb
      rcases Batches.step_cases hstep with ⟨_, -, -, -, hlt, -⟩ | ⟨row, rest, -, hpending', -⟩ |
        ⟨rfl, -⟩
      · exact absurd hlt hle.not_gt
      · exact absurd (hpending'.symm.trans hpending) (List.cons_ne_nil _ _)
      · exact reaches_one rfl hstep ⟨hcount, hstop, htracks⟩
  | selecting => exact reaches_of_selecting h hphase hstep
  | handling row rest stage =>
    obtain ⟨hpending, -⟩ := agrees_of_handling h hphase
    rcases Batches.step_cases hstep with ⟨_, -, -, hpending', -⟩ | ⟨_, _, rfl, -⟩ |
      ⟨-, -, hpending', -⟩
    · exact absurd (hpending.symm.trans hpending') (List.cons_ne_nil _ _)
    · exact reaches_of_handling h hphase hstep
    · exact absurd (hpending.symm.trans hpending') (List.cons_ne_nil _ _)
  | finished =>
    have hfinished := (finished_iff h).mp hphase
    rcases Batches.step_cases hstep with ⟨_, -, hrunning, -⟩ | ⟨row, rest, -, hpending, -⟩ |
      ⟨-, hrunning, -⟩
    · exact absurd (hfinished.symm.trans hrunning) Bool.noConfusion
    · exact absurd (hpending.symm.trans (h.sound.settled hfinished)) (List.cons_ne_nil _ _)
    · exact absurd (hfinished.symm.trans hrunning) Bool.noConfusion

/-! ## The rows that a run handles -/

omit [JsNumber N] in
theorem rows_nodup (job : BackfillJob) : job.rows.Nodup :=
  (List.Nodup.of_map _ job.table.id_nodup).filter _

omit [JsNumber N] in
theorem goal_le (job : BackfillJob) : job.goal ≤ job.rows.length := by
  unfold goal
  split
  · exact Nat.min_le_left ..
  · exact Nat.le_refl _

omit [JsNumber N] in
theorem fits_iff (job : BackfillJob) : Batches.Fits job.plan job.rows ↔ job.Fits := by
  have hstays : ∀ row, job.plan.leaves row = false ↔ job.pools row.pair = none :=
    fun row => Option.isSome_eq_false_iff.trans Option.isNone_iff_eq_none
  constructor
  · exact fun h => ⟨h.rounds, fun row hrow hpool => h.stays row hrow ((hstays row).mpr hpool)⟩
  · exact fun h => ⟨h.rounds, fun row hrow hpool => h.skipped row hrow ((hstays row).mp hpool)⟩

omit [JsNumber N] in
theorem right_iff (h : job.Tracks v t) :
    job.Right v ↔ Batches.Right job.plan job.rows t := by
  have hrows : ∀ row ∈ v.handled, row ∈ job.rows := fun row hrow =>
    h.sound.taken_subset row (List.mem_append_left _ (h.handled ▸ hrow))
  have hnodup : (v.handled.map Swap.id).Nodup ↔ t.handled.Nodup := by
    rw [← h.handled]
    refine ⟨List.Nodup.of_map _, fun hnodup => hnodup.map_on fun row hrow row' hrow' hid => ?_⟩
    exact job.table.eq_of_id_eq (List.mem_of_mem_filter (hrows row hrow))
      (List.mem_of_mem_filter (hrows row' hrow')) hid
  constructor
  · intro hright
    exact ⟨hnodup.mp hright.id_nodup, h.handled ▸ hright.length,
      fun hle => h.handled ▸ hright.all (job.goal_le.antisymm hle)⟩
  · intro hright
    exact ⟨hnodup.mpr hright.nodup, hrows, h.handled ▸ hright.length,
      fun heq => h.handled ▸ hright.all heq.ge⟩

/-- The run of the script that a run of the work list stands for. -/
theorem exists_run (h : job.Tracks v t) {as : List (Batches.Action Swap)}
    (hrun : run (Batches.step job.plan) t as = some t') : job.Reaches v t' :=
  run_simulates (R := fun t v => job.Tracks v t) (P := fun _ => True)
    (fun _ _ _ _ h _ hstep => backward h hstep) h (fun _ _ => trivial) hrun

theorem exists_tracked {as : List (BackfillAction N)} (has : ∀ a ∈ as, a.succeeds)
    (hrun : run job.step job.start as = some v) :
    ∃ bs t, run (Batches.step job.plan) (Batches.start job.rows) bs = some t ∧
      job.Tracks v t := by
  obtain ⟨bs, t, -, hbs, htracks⟩ := run_simulates (R := job.Tracks)
    (fun v a v' t h ha (hstep : job.step v a = some v') => forward h ha hstep)
    (tracks_start job) has hrun
  exact ⟨bs, t, hbs, htracks⟩

theorem step_progress {action : BackfillAction N} {v' : Visits N}
    (hstep : job.step v action = some v') : v.script.progress < v'.script.progress := by
  obtain ⟨script, update, table, hscript, -, rfl⟩ := script_step hstep
  exact Backfill.step_progress hscript

theorem length_le {as : List (BackfillAction N)} (has : ∀ a ∈ as, a.succeeds)
    (hrun : run job.step job.start as = some v) :
    as.length ≤ 5 * (job.goal + job.batchSize) + 6 := by
  have hlength : job.start.script.progress + as.length ≤ v.script.progress :=
    length_le_of_progress (f := fun v => v.script.progress) (fun _ _ _ => step_progress) hrun
  obtain ⟨bs, t, hrun', htracks⟩ := exists_tracked has hrun
  have htaken : t.taken.length ≤ job.goal + job.batchSize :=
    run_preserves (fun _ _ _ => Batches.step_taken_le) (Nat.zero_le _) hrun'
  have hhandled : t.handled.length ≤ t.taken.length :=
    (List.sublist_append_left ..).length_le
  have hprogress := v.script.progress_le
  have hprocessed := htracks.processed
  omega

/-- For which jobs every run handles what it should. -/
theorem visitsRight_iff (N : Type) [JsNumber N] (job : BackfillJob) :
    job.VisitsRight N ↔ job.Fits := by
  have hsize : 0 < job.plan.size := job.batchSize_pos
  rw [← fits_iff, ← Batches.right_iff job.rows_nodup job.goal_le hsize]
  constructor
  · intro hvisits as t hrun hfinished
    obtain ⟨bs, v, hbs, hrun', htracks⟩ := exists_run (tracks_start (N := N) job) hrun
    have hright := hvisits.right bs v hbs hrun' ((finished_iff htracks).mpr hfinished)
    exact (right_iff htracks).mp hright
  · intro hright
    constructor
    · exact ⟨_, fun as v has hrun => length_le has hrun⟩
    · intro as v has hrun
      obtain ⟨_, t, -, htracks⟩ := exists_tracked has hrun
      obtain ⟨bs, t', hrun', hfinished⟩ := Batches.can_finish hsize htracks.sound
      obtain ⟨cs, w, hcs, hrun'', htracks'⟩ := exists_run htracks hrun'
      exact ⟨cs, w, hcs, hrun'', (finished_iff htracks').mpr hfinished⟩
    · intro as v has hrun hphase
      obtain ⟨bs, t, hrun', htracks⟩ := exists_tracked has hrun
      have hfinished := (finished_iff htracks).mp hphase
      exact (right_iff htracks).mpr (hright bs t hrun' hfinished)

/-- A pair without a pool has the newer of two swaps. -/
def delistedJob : BackfillJob where
  pools := fun pair => if pair = "live" then some ⟨"mintA", "mintB"⟩ else none
  table :=
    { rows := [
        ⟨⟨⟨"live", true, "5", "7", "sigA"⟩, "user", "9", "9", 10, "1", "0", "0"⟩, 1, none, none⟩,
        ⟨⟨⟨"gone", true, "5", "7", "sigB"⟩, "user", "9", "9", 20, "2", "0", "0"⟩, 2, none, none⟩]
      nextId := 3
      id_lt := by decide
      id_nodup := by decide }
  pairFilter := none
  maxLimit := none
  batchSize := 1
  txSig_nodup := by decide
  maxLimit_pos := nofun
  batchSize_pos := by decide

/-- The newer swap is handled twice and the older one never. -/
theorem delisted_handledTwice : ¬ delistedJob.VisitsRight ℚ := by
  intro hvisits
  have hrun : ∃ v : Visits ℚ, run delistedJob.step delistedJob.start
      [.count, .select delistedJob.rows.reverse, .poolQuery, .select delistedJob.rows.reverse,
        .poolQuery, .stop] = some v ∧ v.script.phase = .finished ∧
      v.handled.map Swap.id = [2, 2] := ⟨_, rfl, rfl, rfl⟩
  obtain ⟨v, hrun, hphase, hids⟩ := hrun
  have hnodup := (hvisits.right _ v (by decide) hrun hphase).id_nodup
  rw [hids] at hnodup
  exact absurd hnodup (by decide)

end BackfillJob

end OmnipairIndexer
