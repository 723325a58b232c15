/-
`fillEmaPrices`: the EMA of every swap of a pair.

The script walks through the swaps in the order of their timestamps and carries the
EMAs and the time of the last update from swap to swap and from batch to batch.  Each
swap comes with the clock reading at which it is processed, because the step of the
average ends at the clock, and not at the timestamp of the swap.

The loop does not depend on how the calculator rounds.  `Calculator.exact` is the one of
exact arithmetic, and `Calculator.doubles` the one that the program runs.

`emaHistory` is what the values are meant to be, the average along the timestamps, in
doubles.  `Agrees` compares the two step by step, and `historical_ema` says which
timestamps and clock readings make them agree for all reserves.
-/
import OmnipairIndexer.Api.EmaDoubles

namespace OmnipairIndexer

namespace FillEmaPrices

open Binary64 renaming round → fl, round_natCast → fl_natCast
open EmaCalculator (DEFAULT_HALF_LIFE EmaUpdateResult initialEma)
open EmaDoubles
open Binary64 (round_nonneg)

/-- What the script calls of `emaCalculator`. -/
structure Calculator where
  calculateEmaFromPoolData : (reserve0 reserve1 : ℕ) →
    (lastPrice0Ema lastPrice1Ema : Option ℚ) → (lastUpdate : Option ℤ) → (now : ℤ) →
    EmaUpdateResult
  fromNad : ℚ → ℚ

def Calculator.exact : Calculator where
  calculateEmaFromPoolData := EmaCalculator.calculateEmaFromPoolData
  fromNad := EmaCalculator.fromNad

def Calculator.doubles : Calculator where
  calculateEmaFromPoolData := EmaDoubles.calculateEmaFromPoolData
  fromNad := EmaDoubles.fromNad

def BATCH_SIZE : ℕ := 1000

/-- A row that `getSwapsForPair` selects; the timestamp is in microseconds. -/
structure SwapRow where
  id : ℕ
  reserve0 : ℕ
  reserve1 : ℕ
  timestamp : ℤ
  deriving DecidableEq

/-- `Math.floor(new Date(swap.timestamp).getTime() / 1000)`. -/
def SwapRow.seconds (swap : SwapRow) : ℤ := swap.timestamp / 1000000

structure PairEmaState where
  lastPrice0Ema : ℚ
  lastPrice1Ema : ℚ
  lastUpdate : ℤ
  deriving DecidableEq

structure Update where
  id : ℕ
  emaPrice : ℚ
  deriving DecidableEq

/-- A swap and the clock, in whole seconds, when it is processed. -/
abbrev Reading := SwapRow × ℤ

section Script

variable (calculator : Calculator)

def emaData (lastEma : Option PairEmaState) (swap : SwapRow) (now : ℤ) : EmaUpdateResult :=
  match lastEma with
  | none => calculator.calculateEmaFromPoolData swap.reserve0 swap.reserve1 none none none now
  | some lastEma =>
    calculator.calculateEmaFromPoolData swap.reserve0 swap.reserve1 (some lastEma.lastPrice0Ema)
      (some lastEma.lastPrice1Ema) (some lastEma.lastUpdate) now

/-- The body of the loop: the state it carries, and the updates it has pushed. -/
def processSwap (s : Option PairEmaState × List Update) (reading : Reading) :
    Option PairEmaState × List Update :=
  let swap := reading.1
  let emaData := emaData calculator s.1 swap reading.2
  (some ⟨emaData.price0Ema, emaData.price1Ema, swap.seconds⟩,
    s.2 ++ [⟨swap.id, calculator.fromNad emaData.price0Ema⟩])

/-- One batch: its updates go to the database in a transaction, if there are any. -/
def processBatch (batchSize : ℕ) (swaps : List Reading)
    (s : Option PairEmaState × List (List Update)) (batch : ℕ) :
    Option PairEmaState × List (List Update) :=
  let (lastEma, updates) :=
    ((swaps.drop (batch * batchSize)).take batchSize).foldl (processSwap calculator) (s.1, [])
  (lastEma, if updates = [] then s.2 else s.2 ++ [updates])

/-- The transactions of a run; the `i`-th batch begins at `i * batchSize`. -/
def processPairSwaps (batchSize : ℕ) (swaps : List Reading) : List (List Update) :=
  ((List.range ((swaps.length + batchSize - 1) / batchSize)).foldl
    (processBatch calculator batchSize swaps) (none, [])).2

end Script

/-! ## Batches -/

section Batches

variable {calculator : Calculator} {batchSize : ℕ} {swaps : List Reading}

theorem foldl_processSwap (lastEma : Option PairEmaState) (updates : List Update)
    (swaps : List Reading) :
    swaps.foldl (processSwap calculator) (lastEma, updates) =
      ((swaps.foldl (processSwap calculator) (lastEma, [])).1,
        updates ++ (swaps.foldl (processSwap calculator) (lastEma, [])).2) := by
  induction swaps generalizing lastEma updates with
  | nil => rw [List.foldl_nil, List.foldl_nil, List.append_nil]
  | cons reading swaps ih =>
    rw [List.foldl_cons, List.foldl_cons, processSwap, processSwap, ih, ih _ ([] ++ _)]
    simp only [List.nil_append, List.append_assoc]

/-- After some batches the state is that of one pass over their swaps. -/
theorem foldl_processBatch (batches : ℕ) :
    ((List.range batches).foldl (processBatch calculator batchSize swaps) (none, [])).1 =
        ((swaps.take (batches * batchSize)).foldl (processSwap calculator) (none, [])).1 ∧
      ((List.range batches).foldl (processBatch calculator batchSize swaps) (none, [])).2.flatten =
        ((swaps.take (batches * batchSize)).foldl (processSwap calculator) (none, [])).2 := by
  induction batches with
  | zero => simp only [List.range_zero, List.foldl_nil, zero_mul, List.take_zero,
      List.flatten_nil, and_self]
  | succ batches ih =>
    have hsplit : swaps.take ((batches + 1) * batchSize) =
        swaps.take (batches * batchSize) ++ (swaps.drop (batches * batchSize)).take batchSize := by
      rw [Nat.succ_mul, List.take_add]
    rw [List.range_succ, List.foldl_append, List.foldl_cons, List.foldl_nil, hsplit,
      List.foldl_append]
    rw [foldl_processSwap _ _ ((swaps.drop (batches * batchSize)).take batchSize), ← ih.1, ← ih.2]
    refine ⟨rfl, ?_⟩
    simp only [processBatch]
    by_cases hempty : (((swaps.drop (batches * batchSize)).take batchSize).foldl
        (processSwap calculator) (((List.range batches).foldl
          (processBatch calculator batchSize swaps) (none, [])).1, [])).2 = []
    · rw [if_pos hempty, hempty, List.append_nil]
    · rw [if_neg hempty, List.flatten_append, List.flatten_singleton]

/-- The batch size decides where the transactions end, and nothing else. -/
theorem flatten_processPairSwaps (hbatch : 0 < batchSize) (swaps : List Reading) :
    (processPairSwaps calculator batchSize swaps).flatten =
      (swaps.foldl (processSwap calculator) (none, [])).2 := by
  have hall : swaps.length ≤ (swaps.length + batchSize - 1) / batchSize * batchSize := by
    have hmod := Nat.div_add_mod (swaps.length + batchSize - 1) batchSize
    have hlt := Nat.mod_lt (swaps.length + batchSize - 1) hbatch
    rw [mul_comm] at hmod
    omega
  rw [processPairSwaps, (foldl_processBatch _).2, List.take_of_length_le hall]

/-- What a run writes for the next swap, and where it goes on. -/
theorem foldl_processSwap_cons (s : Option PairEmaState) (reading : Reading)
    (rest : List Reading) :
    let data := emaData calculator s reading.1 reading.2
    ((reading :: rest).foldl (processSwap calculator) (s, [])).2 =
      ⟨reading.1.id, calculator.fromNad data.price0Ema⟩ ::
        (rest.foldl (processSwap calculator)
          (some ⟨data.price0Ema, data.price1Ema, reading.1.seconds⟩, [])).2 := by
  rw [List.foldl_cons, processSwap, foldl_processSwap]
  rfl

/-! ## Reserves that never change -/

/-- The calculator leaves the price of these reserves as it is. -/
def Calculator.Keeps (calculator : Calculator) (reserve0 reserve1 : ℕ) (price : ℚ) : Prop :=
  ∀ now, (calculator.calculateEmaFromPoolData reserve0 reserve1 none none none now).price0Ema =
      price ∧
    ∀ lastPrice1Ema lastUpdate, (calculator.calculateEmaFromPoolData reserve0 reserve1 (some price)
      lastPrice1Ema lastUpdate now).price0Ema = price

variable {reserve0 reserve1 : ℕ} {price : ℚ}

theorem Calculator.Keeps.foldl (hkeeps : calculator.Keeps reserve0 reserve1 price)
    (h : ∀ reading ∈ swaps, reading.1.reserve0 = reserve0 ∧ reading.1.reserve1 = reserve1)
    {s : Option PairEmaState} (hs : ∀ last ∈ s, last.lastPrice0Ema = price) :
    ∀ update ∈ (swaps.foldl (processSwap calculator) (s, [])).2,
      update.emaPrice = calculator.fromNad price := by
  induction swaps generalizing s with
  | nil => exact fun _ hupdate => absurd hupdate List.not_mem_nil
  | cons reading rest ih =>
    have hprice : (emaData calculator s reading.1 reading.2).price0Ema = price := by
      obtain ⟨hreserve0, hreserve1⟩ := h reading List.mem_cons_self
      unfold emaData
      rw [hreserve0, hreserve1]
      cases s with
      | none => exact (hkeeps reading.2).1
      | some last =>
        have hlast := hs last rfl
        simp only [hlast]
        exact (hkeeps reading.2).2 _ _
    rw [foldl_processSwap_cons, hprice]
    refine List.forall_mem_cons.mpr ⟨rfl, ih (fun r hr => h r (List.mem_cons_of_mem _ hr)) ?_⟩
    intro last hlast
    obtain rfl := Option.some.inj hlast
    rfl

/-- A price that is kept is written for every swap, whatever the clock reads. -/
theorem Calculator.Keeps.processPairSwaps (hkeeps : calculator.Keeps reserve0 reserve1 price)
    (hbatch : 0 < batchSize)
    (h : ∀ reading ∈ swaps, reading.1.reserve0 = reserve0 ∧ reading.1.reserve1 = reserve1) :
    ∀ update ∈ (processPairSwaps calculator batchSize swaps).flatten,
      update.emaPrice = calculator.fromNad price := by
  rw [flatten_processPairSwaps hbatch]
  exact hkeeps.foldl h fun _ hlast => nomatch hlast

end Batches

/-! ## The average along the timestamps -/

/-- The price in doubles; `parseFloat` of a reserve is the nearest one. -/
def SwapRow.spotPrice (swap : SwapRow) : ℤ :=
  calculateSpotPrice (fl swap.reserve0) (fl swap.reserve1) true

/-- The EMA of the swaps so far and the time of the last one, after one more. -/
def emaStep (s : ℚ × ℤ) (swap : SwapRow) : ℚ × ℤ :=
  (computeEma s.1 s.2 swap.spotPrice DEFAULT_HALF_LIFE swap.seconds, swap.seconds)

/-- The EMA after each swap. -/
def emaHistory : List SwapRow → List ℚ
  | [] => []
  | first :: rest => (rest.scanl emaStep (first.spotPrice, first.seconds)).map Prod.fst

/-- The run writes for each swap the EMA of the history up to it. -/
def Historical (batchSize : ℕ) (swaps : List Reading) : Prop :=
  (processPairSwaps .doubles batchSize swaps).flatten =
    (swaps.map Prod.fst).zipWith (fun swap ema => ⟨swap.id, fromNad ema⟩)
      (emaHistory (swaps.map Prod.fst))

/-- What is written for the swaps that follow a history. -/
def updatesFrom (s : ℚ × ℤ) : List SwapRow → List Update
  | [] => []
  | swap :: rest => ⟨swap.id, fromNad (emaStep s swap).1⟩ :: updatesFrom (emaStep s swap) rest

theorem zipWith_scanl (first : SwapRow) (rest : List SwapRow) (s : ℚ × ℤ) :
    (first :: rest).zipWith (fun swap ema => (⟨swap.id, fromNad ema⟩ : Update))
        ((rest.scanl emaStep s).map Prod.fst) =
      ⟨first.id, fromNad s.1⟩ :: updatesFrom s rest := by
  induction rest generalizing first s with
  | nil => rfl
  | cons swap rest ih =>
    rw [List.scanl_cons, List.map_cons, List.zipWith_cons_cons, ih, updatesFrom]

/-! ## The average that the run takes -/

/-- The step of the run and the step along the timestamps agree: the clock gives the last
EMA the weight that the timestamps give it, and a last EMA of 0, which is falsy, is the
price as well. -/
def StepAgrees (s : ℚ × ℤ) (swap : SwapRow) (now : ℤ) : Prop :=
  (s.1 = 0 → swap.spotPrice = 0) ∧ clockWeight s.2 now = weight (swap.seconds - s.2)

/-- The steps agree along a history. -/
def AgreesFrom (s : ℚ × ℤ) : List Reading → Prop
  | [] => True
  | reading :: rest =>
    StepAgrees s reading.1 reading.2 ∧ AgreesFrom (emaStep s reading.1) rest

def Agrees : List Reading → Prop
  | [] => True
  | first :: rest => AgreesFrom (first.1.spotPrice, first.1.seconds) rest

section Agreement

variable {lastEma : ℚ} {lastUpdate : ℤ}

theorem initialEma_of_ne_zero (h : lastEma ≠ 0) (spotPrice : ℤ) :
    initialEma (some lastEma) spotPrice = lastEma := if_neg h

/-- The EMA that a run gives the next swap. -/
theorem price0Ema_next (lastEma lastPrice1Ema : ℚ) (lastUpdate : ℤ) (swap : SwapRow) (now : ℤ) :
    (emaData .doubles (some ⟨lastEma, lastPrice1Ema, lastUpdate⟩) swap now).price0Ema =
      blend (initialEma (some lastEma) swap.spotPrice) swap.spotPrice
        (clockWeight lastUpdate now) :=
  calculated_price0Ema _ _ _ _ _ _

theorem emaStep_eq (lastEma : ℚ) (lastUpdate : ℤ) (swap : SwapRow) :
    emaStep (lastEma, lastUpdate) swap =
      (blend lastEma swap.spotPrice (weight (swap.seconds - lastUpdate)), swap.seconds) :=
  Prod.ext (computeEma_eq _ _ _ _) rfl

/-- One step from a common last EMA. -/
theorem StepAgrees.price0Ema {swap : SwapRow} {now : ℤ}
    (h : StepAgrees (lastEma, lastUpdate) swap now) (lastPrice1Ema : ℚ) :
    (emaData .doubles (some ⟨lastEma, lastPrice1Ema, lastUpdate⟩) swap now).price0Ema =
      (emaStep (lastEma, lastUpdate) swap).1 := by
  obtain ⟨hzero, hweight⟩ := h
  have hinitial : initialEma (some lastEma) swap.spotPrice = lastEma := by
    by_cases hlast : lastEma = 0
    · have hspot : swap.spotPrice = 0 := hzero hlast
      rw [hlast, hspot]
      rfl
    · exact initialEma_of_ne_zero hlast _
  rw [price0Ema_next, hinitial, hweight, emaStep_eq]

theorem foldl_of_agreesFrom {swaps : List Reading} {lastPrice1Ema : ℚ}
    (h : AgreesFrom (lastEma, lastUpdate) swaps) :
    (swaps.foldl (processSwap .doubles) (some ⟨lastEma, lastPrice1Ema, lastUpdate⟩, [])).2 =
      updatesFrom (lastEma, lastUpdate) (swaps.map Prod.fst) := by
  induction swaps generalizing lastEma lastUpdate lastPrice1Ema with
  | nil => rfl
  | cons reading rest ih =>
    obtain ⟨hstep, hrest⟩ := h
    rw [foldl_processSwap_cons, List.map_cons, updatesFrom, hstep.price0Ema]
    exact congrArg (List.cons _) (ih hrest)

theorem price0Ema_first (swap : SwapRow) (now : ℤ) :
    (emaData .doubles none swap now).price0Ema = swap.spotPrice :=
  calculated_first _ _ _

/-- In one pass, after the first swap. -/
theorem historical_cons_iff {batchSize : ℕ} (hbatch : 0 < batchSize) (first : Reading)
    (rest : List Reading) :
    Historical batchSize (first :: rest) ↔
      (rest.foldl (processSwap .doubles) (some ⟨first.1.spotPrice,
        (emaData .doubles none first.1 first.2).price1Ema, first.1.seconds⟩, [])).2 =
      updatesFrom (first.1.spotPrice, first.1.seconds) (rest.map Prod.fst) := by
  rw [Historical, flatten_processPairSwaps hbatch, List.map_cons, emaHistory, zipWith_scanl,
    foldl_processSwap_cons, price0Ema_first, List.cons.injEq]
  exact and_iff_right rfl

/-- If the steps agree, the run writes the average along the timestamps. -/
theorem historical_of_agrees {batchSize : ℕ} (hbatch : 0 < batchSize) {swaps : List Reading}
    (h : Agrees swaps) : Historical batchSize swaps := by
  cases swaps with
  | nil => rw [Historical, flatten_processPairSwaps hbatch]; rfl
  | cons first rest => exact (historical_cons_iff hbatch first rest).mpr (foldl_of_agreesFrom h)

end Agreement

/-! ## The timestamps and readings that agree for all reserves -/

/-- What the prices do not depend on. -/
def timing (reading : Reading) : ℤ × ℤ := (reading.1.timestamp, reading.2)

/-- The clock at a swap gives the EMA before it the weight that the timestamps give it. -/
def SameWeight (previous current : ℤ × ℤ) : Prop :=
  let lastUpdate := previous.1 / 1000000
  clockWeight lastUpdate current.2 = weight (current.1 / 1000000 - lastUpdate)

def Priced (swaps : List Reading) : Prop := ∀ reading ∈ swaps, reading.1.spotPrice ≠ 0

theorem one_le_spotPrice {swap : SwapRow} (h : swap.spotPrice ≠ 0) : 1 ≤ swap.spotPrice := by
  have hreserve : ∀ n : ℕ, 0 ≤ fl n := fun n => round_nonneg (Nat.cast_nonneg n)
  have hnonneg : 0 ≤ swap.spotPrice := calculateSpotPrice_nonneg (hreserve _) (hreserve _) _
  omega

theorem one_le_emaStep {lastEma : ℚ} {swap : SwapRow} (hlast : 1 ≤ lastEma)
    (hprice : swap.spotPrice ≠ 0) (lastUpdate : ℤ) :
    1 ≤ (emaStep (lastEma, lastUpdate) swap).1 := by
  rw [emaStep_eq]
  exact one_le_blend (fun _ => isPart_of_mem_weight _) hlast
    (by exact_mod_cast one_le_spotPrice hprice)

section Timings

variable {lastEma : ℚ} {previous : ℤ × ℤ}

theorem agreesFrom_of_isChain {swaps : List Reading} (hlast : 1 ≤ lastEma)
    (hchain : (previous :: swaps.map timing).IsChain SameWeight) (hpriced : Priced swaps) :
    AgreesFrom (lastEma, previous.1 / 1000000) swaps := by
  induction swaps generalizing lastEma previous with
  | nil => trivial
  | cons reading rest ih =>
    rw [List.map_cons, List.isChain_cons_cons] at hchain
    obtain ⟨hweight, hchain⟩ := hchain
    have hne : lastEma ≠ 0 := (zero_lt_one.trans_le hlast).ne'
    refine ⟨⟨fun h => absurd h hne, hweight⟩, ?_⟩
    exact ih (one_le_emaStep hlast (hpriced _ List.mem_cons_self) _) hchain
      fun r hr => hpriced r (List.mem_cons_of_mem _ hr)

/-- A swap at `price` tokens 1 for a token 0, when `time` says. -/
def swapAt (price : ℕ) (time : ℤ × ℤ) : Reading := (⟨0, 1, price, time.1⟩, time.2)

theorem spotPrice_swapAt {price : ℕ} (hprice : price ≤ 4000) (time : ℤ × ℤ) :
    ((swapAt price time).1.spotPrice : ℚ) = price * EmaCalculator.NAD := by
  have hcast : (price * EmaCalculator.NAD : ℚ) = (price * 1000000000 : ℕ) := by
    rw [NAD_eq, Nat.cast_mul, Nat.cast_ofNat]
  have hprice' : fl price = price := fl_natCast (by omega)
  have hone : fl (1 : ℕ) = (1 : ℕ) := fl_natCast (by norm_num)
  have hne : ¬ (fl (1 : ℕ) = 0) := by
    rw [hone]
    norm_num
  change ((if fl (1 : ℕ) = 0 then 0 else ⌊fl (fl (fl price * EmaCalculator.NAD) / fl (1 : ℕ))⌋ :
    ℤ) : ℚ) = _
  rw [if_neg hne, hprice', hone, Nat.cast_one, div_one, fl_mul_NAD (by omega), hcast,
    fl_natCast (by omega), Int.floor_natCast, Int.cast_natCast]

theorem map_timing_swapAt_cons {price : ℕ} {time : ℤ × ℤ} {swaps : List Reading}
    {timings : List (ℤ × ℤ)} (h : swaps.map timing = timings) :
    (swapAt price time :: swaps).map timing = time :: timings := by
  rw [List.map_cons, h]
  rfl

theorem priced_swapAt_cons {price : ℕ} {time : ℤ × ℤ} {swaps : List Reading} (hprice : 0 < price)
    (hle : price ≤ 4000) (h : Priced swaps) : Priced (swapAt price time :: swaps) := by
  refine List.forall_mem_cons.mpr ⟨?_, h⟩
  have hspot : (0 : ℚ) < (swapAt price time).1.spotPrice := by
    rw [spotPrice_swapAt hle]
    exact mul_pos (by exact_mod_cast hprice) NAD_pos
  exact_mod_cast hspot.ne'

theorem exists_swaps_at (timings : List (ℤ × ℤ)) :
    ∃ swaps : List Reading, swaps.map timing = timings ∧ Priced swaps := by
  induction timings with
  | nil => exact ⟨[], rfl, fun _ h => absurd h List.not_mem_nil⟩
  | cons time rest ih =>
    obtain ⟨swaps, hmap, hpriced⟩ := ih
    exact ⟨swapAt 1 time :: swaps, map_timing_swapAt_cons hmap,
      priced_swapAt_cons Nat.one_pos (by norm_num) hpriced⟩

theorem spotPrice_high (time : ℤ × ℤ) : ((swapAt 2048 time).1.spotPrice : ℚ) = highPrice := by
  rw [spotPrice_swapAt (by norm_num), highPrice, Nat.cast_ofNat]

theorem spotPrice_low (time : ℤ × ℤ) :
    ((swapAt 1 time).1.spotPrice : ℚ) = EmaCalculator.NAD := by
  rw [spotPrice_swapAt (by norm_num), Nat.cast_one, one_mul]

theorem highPrice_ne_zero : highPrice ≠ 0 := (mul_pos (by norm_num) NAD_pos).ne'

/-- A run that is right for all reserves after the high price gives every EMA its weight. -/
theorem isChain_of_forall {timings : List (ℤ × ℤ)} (lastPrice1Ema : ℚ)
    (h : ∀ swaps : List Reading, swaps.map timing = timings → Priced swaps →
      (swaps.foldl (processSwap .doubles)
          (some ⟨highPrice, lastPrice1Ema, previous.1 / 1000000⟩, [])).2 =
        updatesFrom (highPrice, previous.1 / 1000000) (swaps.map Prod.fst)) :
    (previous :: timings).IsChain SameWeight := by
  induction timings generalizing previous lastPrice1Ema with
  | nil => exact List.isChain_singleton previous
  | cons time rest ih =>
    have hpart : ∀ dt : ℤ, ∀ alpha ∈ weight dt, IsPart alpha := fun _ _ => isPart_of_mem_weight _
    rw [List.isChain_cons_cons]
    constructor
    · -- A fall of the price at this swap shows the weight it was given.
      obtain ⟨swaps, hmap, hpriced⟩ := exists_swaps_at rest
      have hfall := h (swapAt 1 time :: swaps) (map_timing_swapAt_cons hmap)
        (priced_swapAt_cons Nat.one_pos (by norm_num) hpriced)
      rw [foldl_processSwap_cons, List.map_cons, updatesFrom, List.cons.injEq, Update.mk.injEq,
        price0Ema_next, emaStep_eq, spotPrice_low, initialEma_of_ne_zero highPrice_ne_zero] at hfall
      exact weight_of_fromNad_fall (hpart _) (hpart _) hfall.1.2
    · -- With no change of the price the run goes on as before.
      let same := swapAt 2048 time
      refine ih (emaData .doubles (some ⟨highPrice, lastPrice1Ema, previous.1 / 1000000⟩) same.1
        same.2).price1Ema fun swaps hmap hpriced => ?_
      have hnext := h (same :: swaps) (map_timing_swapAt_cons hmap)
        (priced_swapAt_cons (by norm_num) (by norm_num) hpriced)
      rw [foldl_processSwap_cons, List.map_cons, updatesFrom, List.cons.injEq, price0Ema_next,
        emaStep_eq, spotPrice_high, initialEma_of_ne_zero highPrice_ne_zero,
        clockWeight, blend_highPrice (hpart _), blend_highPrice (hpart _)] at hnext
      exact hnext.2

end Timings

/-- The run writes the average along the timestamps if its steps agree.  Timestamps and
clock readings make it do so for all reserves with a price exactly if the clock gives
each last EMA the weight that the timestamps give it.  The batch size does not matter. -/
theorem historical_ema {batchSize : ℕ} (hbatch : 0 < batchSize) :
    (∀ swaps, Agrees swaps → Historical batchSize swaps) ∧
      (∀ timings, (∀ swaps, swaps.map timing = timings → Priced swaps →
        Historical batchSize swaps) ↔ timings.IsChain SameWeight) ∧
      ∀ swaps, ∀ batchSize' > 0, (processPairSwaps .doubles batchSize swaps).flatten =
        (processPairSwaps .doubles batchSize' swaps).flatten := by
  refine ⟨fun swaps => historical_of_agrees hbatch, fun timings => ⟨fun h => ?_, ?_⟩, ?_⟩
  · cases timings with
    | nil => exact List.isChain_nil
    | cons first rest =>
      refine isChain_of_forall (emaData .doubles none (swapAt 2048 first).1 first.2).price1Ema
        fun swaps hmap hpriced => ?_
      have hrun := (historical_cons_iff hbatch _ swaps).mp (h (swapAt 2048 first :: swaps)
        (map_timing_swapAt_cons hmap) (priced_swapAt_cons (by norm_num) (by norm_num) hpriced))
      rw [spotPrice_high] at hrun
      exact hrun
  · rintro hchain swaps rfl hpriced
    refine historical_of_agrees hbatch ?_
    cases swaps with
    | nil => trivial
    | cons first rest =>
      have hprice : (1 : ℚ) ≤ first.1.spotPrice := by
        exact_mod_cast one_le_spotPrice (hpriced first List.mem_cons_self)
      exact agreesFrom_of_isChain hprice hchain fun r hr => hpriced r (List.mem_cons_of_mem _ hr)
  · intro swaps batchSize' hbatch'
    rw [flatten_processPairSwaps hbatch, flatten_processPairSwaps hbatch']

/-- Two swaps a minute apart, the price of the second twice that of the first, and a run
that begins `delay` seconds after the first. -/
def doubling (delay : ℤ) : List Reading :=
  [(⟨1, 1, 1, 1700000000000000⟩, 1700000000 + delay),
    (⟨2, 1, 2, 1700000060000000⟩, 1700000000 + delay)]

theorem historical_ema_doubling : Historical BATCH_SIZE (doubling 60) :=
  (historical_ema (by decide)).1 (doubling 60)
    ⟨⟨by decide +kernel, by decide +kernel⟩, trivial⟩

/-- The run a day later writes the spot price for the second swap. -/
theorem doubling_written_late :
    ¬ Historical BATCH_SIZE (doubling 86400) ∧
      processPairSwaps .doubles BATCH_SIZE (doubling 86400) = [[⟨1, 1⟩, ⟨2, 2⟩]] ∧
      processPairSwaps .doubles BATCH_SIZE (doubling 60) =
        [[⟨1, 1⟩, ⟨2, fl (1067013 / 1000000)⟩]] := by
  unfold Historical
  decide +kernel

end FillEmaPrices

end OmnipairIndexer
