/-
The list endpoints of `DataController`.

Each endpoint counts the rows of its `WHERE` clause, selects a page of them in the
order of its `ORDER BY` clause, and answers with the items of these rows.
`getAllPositions` splits a row after paging, into no, one or two positions; the
others have one item for each row.

Addresses are compared as the text they are stored as.  What the chain answers for a
pool or a position comes as a parameter.
-/
import Mathlib.Data.Prod.Lex
import OmnipairIndexer.Library.Paging
import OmnipairIndexer.Indexer.Schema

namespace OmnipairIndexer

open Paging Relational

namespace DataController

/-! ## Query parameters -/

/-- `Math.min(parseInt(…) || 100, 1000)`; `parseInt` gives no number for other texts. -/
def effectiveLimit (limit : Option Int) : Int :=
  match limit with
  | none | some 0 => 100
  | some limit => min limit 1000

def pageSize (limit : Option Int) : Nat := (effectiveLimit limit).toNat

/-- A parameter that is missing or empty is falsy. -/
def given (parameter : Option String) : Option String := parameter.filter (· ≠ "")

/-- A `WHERE` clause that compares the columns with the parameters that are given. -/
def matching (parameter : Option String) (column : String) : Bool :=
  parameter.all (· = column)

/-- `SELECT COUNT(*)` and `SELECT … ORDER BY …` over the rows of a `WHERE` clause. -/
def select {ρ κ ι : Type} (table : List ρ) (condition : ρ → Bool) (orderBy : ρ → κ)
    (items : ρ → List ι) : Listing ρ κ ι where
  rows := table.filter condition
  key := orderBy
  items := items
  total := table.countP condition

/-- 32 to 44 letters and digits. -/
def isAddress (text : String) : Bool :=
  decide (32 ≤ text.length) && decide (text.length ≤ 44) && text.all Char.isAlphanum

/-! ## Swaps and pools -/

section Endpoints

variable (db : Database) (base58 : Pubkey → String)

def getSwaps (pairAddress userAddress : Option String) :
    Except String (Listing (Stored (Clocked SwapRow Instant)) Int
      (Stored (Clocked SwapRow Instant))) :=
  match given pairAddress, given userAddress with
  | none, none => .error "Either pair address or user address is required"
  | pair, user => .ok <| select db.swaps.table.rows
      (fun row => matching pair (base58 row.cols.cols.pair) &&
        matching user (base58 row.cols.cols.userAddress))
      (fun row => -(row.id : Int)) fun row => [row]

/-- `load` is what the pool's promise resolves to, with the chain's answer or without. -/
def getPools {δ : Type} (visible : Nat → Bool) (load : Stored PoolRow → δ)
    (visibility : Option String) : Listing (Stored PoolRow) Nat (Nat × δ) :=
  select db.pools.table.rows (fun row => decide (visibility = some "all") || visible row.id)
    (fun row => row.id) fun row => [(row.id, load row)]

/-! ## Liquidity history -/

inductive SortField where
  | id
  | timestamp
  | amount0
  | amount1
  | liquidity
  deriving DecidableEq

def SortField.ofText : String → Option SortField
  | "id" => some id
  | "timestamp" => some timestamp
  | "amount0" => some amount0
  | "amount1" => some amount1
  | "liquidity" => some liquidity
  | _ => none

def SortField.column (row : Stored (Clocked AdjustLiquidityRow Instant)) : SortField → Int
  | id => row.id
  | timestamp => row.cols.clock
  | amount0 => row.cols.cols.amount0
  | amount1 => row.cols.cols.amount1
  | liquidity => row.cols.cols.liquidity

/-- A row and the tokens of its pool, if the pool is known. -/
structure HistoryItem where
  row : Stored (Clocked AdjustLiquidityRow Instant)
  tokens : Option (Pubkey × Pubkey)

def getUserHistory (userAddress pair sortBy sortOrder : Option String) :
    Except String (Listing (Stored (Clocked AdjustLiquidityRow Instant)) Int HistoryItem) :=
  match given userAddress, given pair with
  | some user, some pair =>
    match SortField.ofText ((given sortBy).getD "timestamp") with
    | none => .error
        "Invalid sortBy field. Allowed fields: id, timestamp, amount0, amount1, liquidity"
    | some field =>
      let sortOrder := ((given sortOrder).getD "desc").toLower
      if sortOrder ≠ "asc" ∧ sortOrder ≠ "desc" then
        .error "Invalid sortOrder. Must be \"asc\" or \"desc\""
      else
        .ok <| select db.adjustLiquidity.table.rows
          (fun row => matching (some user) (base58 row.cols.cols.userAddress) &&
            matching (some pair) (base58 row.cols.cols.pair))
          (fun row => if sortOrder = "asc" then field.column row else -field.column row)
          fun row => [⟨row, (db.pools.lookup row.cols.cols.pair).map fun p => (p.token0, p.token1)⟩]
  | _, _ => .error "Both user_address and pair are required"

/-! ## Positions -/

/-- The two values of a simulated getter. -/
structure TokenPair where
  token0 : String
  token1 : String

/-- What the chain answers for a position; a getter that fails has no values. -/
structure Simulation where
  token0Address : String
  token1Address : String
  dynamicBorrowLimit : Option TokenPair
  liquidationPrice : Option TokenPair
  debtWithInterest : Option TokenPair
  collateralValueWithImpact : Option TokenPair
  liquidationBorrowLimit : Option TokenPair

inductive Token where
  | token0
  | token1
  deriving DecidableEq

def TokenPair.get (values : TokenPair) : Token → String
  | .token0 => values.token0
  | .token1 => values.token1

structure SplitPosition where
  signer : Pubkey
  pair : Pubkey
  position : Pubkey
  collateralToken : Token
  debtToken : Token
  collateral : String
  debtShares : String
  token0Address : Option String
  token1Address : Option String
  liquidationCollateralFactor : Int
  maxCollateralFactor : Int
  liquidationBorrowLimit : Option String
  dynamicBorrowLimit : Option String
  debtWithInterest : Option String
  collateralValueWithImpact : Option String
  liquidationPrice : Option String
  eventTimestamp : Instant

abbrev BorrowRow := Clocked UserBorrowPositionRow PositionClock

/-- One of the two positions of a row. -/
def positionOf (row : BorrowRow) (simulation : Option Simulation) (collateralToken debtToken : Token)
    (collateral debtShares liquidationCfBps maxCfBps : Int) : List SplitPosition :=
  let value (getter : Simulation → Option TokenPair) (token : Token) : Option String :=
    (simulation.bind getter).bind fun values => given (some (values.get token))
  if toString collateral ≠ "0" then
    [{ signer := row.cols.signer
       pair := row.cols.pair
       position := row.cols.position
       collateralToken := collateralToken
       debtToken := debtToken
       collateral := toString collateral
       debtShares := toString debtShares
       token0Address := simulation.bind fun s => given (some s.token0Address)
       token1Address := simulation.bind fun s => given (some s.token1Address)
       liquidationCollateralFactor := liquidationCfBps
       maxCollateralFactor := maxCfBps
       liquidationBorrowLimit := value Simulation.liquidationBorrowLimit collateralToken
       dynamicBorrowLimit := value Simulation.dynamicBorrowLimit debtToken
       debtWithInterest := value Simulation.debtWithInterest debtToken
       collateralValueWithImpact := value Simulation.collateralValueWithImpact collateralToken
       liquidationPrice := value Simulation.liquidationPrice debtToken
       eventTimestamp := row.clock.eventTimestamp }]
  else []

def splitPosition (simulate : BorrowRow → Option Simulation) (row : BorrowRow) :
    List SplitPosition :=
  positionOf row (simulate row) .token0 .token1 row.cols.collateral0 row.cols.debt1Shares
      row.cols.collateral0LiquidationCfBps row.cols.collateral0MaxCfBps ++
    positionOf row (simulate row) .token1 .token0 row.cols.collateral1 row.cols.debt0Shares
      row.cols.collateral1LiquidationCfBps row.cols.collateral1MaxCfBps

/-- The check that the two endpoints make of an optional address. -/
def checkAddress (userAddress : Option String) : Except String (Option String) :=
  if (given userAddress).all isAddress then .ok (given userAddress)
  else .error "Invalid user address format"

def getAllPositions (simulate : BorrowRow → Option Simulation) (userAddress : Option String) :
    Except String (Listing BorrowRow Int SplitPosition) :=
  (checkAddress userAddress).map fun user =>
    select db.userBorrowPositions.rows (fun row => matching user (base58 row.cols.signer))
      (fun row => -row.clock.eventTimestamp) (splitPosition simulate)

structure LiquidityPosition where
  row : Clocked UserLiquidityPositionRow Instant
  token0Address : String
  token1Address : String

/-- `pairTokens` is what the chain answers for a pair. -/
def getAllLiquidityPositions (pairTokens : Pubkey → Option (String × String))
    (userAddress : Option String) :
    Except String (Listing (Clocked UserLiquidityPositionRow Instant) Int LiquidityPosition) :=
  (checkAddress userAddress).map fun user =>
    select db.userLiquidityPositions.rows (fun row => matching user (base58 row.cols.signer))
      (fun row => -row.clock) fun row =>
        let (token0, token1) := (pairTokens row.cols.pair).getD
          (base58 row.cols.token0Mint, base58 row.cols.token1Mint)
        [⟨row, token0, token1⟩]

/-! ## Lending history -/

/-- A row of the union, by event type. -/
inductive LendingEvent where
  | collateralAdjustment (row : Stored (Clocked AdjustEventRow Instant))
  | debtAdjustment (row : Stored (Clocked AdjustEventRow Instant))
  | liquidation (row : Stored (Clocked UserPositionLiquidatedRow Instant))
  | positionUpdate (row : Stored (Clocked UserPositionUpdatedRow Instant))

namespace LendingEvent

def id : LendingEvent → Nat
  | collateralAdjustment row | debtAdjustment row => row.id
  | liquidation row => row.id
  | positionUpdate row => row.id

def signer : LendingEvent → Pubkey
  | collateralAdjustment row | debtAdjustment row => row.cols.cols.signer
  | liquidation row => row.cols.cols.signer
  | positionUpdate row => row.cols.cols.signer

def eventTimestamp : LendingEvent → Instant
  | collateralAdjustment row | debtAdjustment row => row.cols.clock
  | liquidation row => row.cols.clock
  | positionUpdate row => row.cols.clock

end LendingEvent

/-- `UNION ALL` of the four tables. -/
def combinedEvents : List LendingEvent :=
  db.adjustCollateralEvents.table.rows.map .collateralAdjustment ++
    db.adjustDebtEvents.table.rows.map .debtAdjustment ++
    db.userPositionLiquidatedEvents.table.rows.map .liquidation ++
    db.userPositionUpdatedEvents.table.rows.map .positionUpdate

/-- `SELECT COUNT(*) … WHERE signer = $1` on one of the tables. -/
def countOf {ρ κ : Type} {key : Clocked ρ Instant → κ} (user : String) (signer : ρ → Pubkey)
    (table : SerialTable key) : Nat :=
  table.table.rows.countP fun row => matching (some user) (base58 (signer row.cols.cols))

def getUserLendingHistory (userAddress : Option String) :
    Except String (Listing LendingEvent (Int ×ₗ Int) LendingEvent) :=
  match given userAddress with
  | none => .error "User address is required"
  | some user => .ok {
      rows := (combinedEvents db).filter fun event => matching (some user) (base58 event.signer)
      key := fun event => toLex (-event.eventTimestamp, -(event.id : Int))
      items := fun event => [event]
      total :=
        countOf base58 user AdjustEventRow.signer db.adjustCollateralEvents +
        countOf base58 user AdjustEventRow.signer db.adjustDebtEvents +
        countOf base58 user UserPositionLiquidatedRow.signer db.userPositionLiquidatedEvents +
        countOf base58 user UserPositionUpdatedRow.signer db.userPositionUpdatedEvents }

end Endpoints

/-! ## Partitions -/

/-- The ids that `SERIAL` gave to the swaps and the pools. -/
structure SerialIds (db : Database) : Prop where
  swaps : db.swaps.Issued
  pools : db.pools.Issued

/-- No statement of the indexer gives an id twice. -/
theorem SerialIds.apply {db : Database} (h : SerialIds db) (stamp : Stamp) (st : Statement) :
    SerialIds (st.apply stamp db) := by
  cases st with
  | pools row => exact ⟨h.swaps, h.pools.upsert _ _⟩
  | swaps row => exact ⟨h.swaps.upsert _ _, h.pools⟩
  | _ => exact ⟨h.swaps, h.pools⟩

/-- The database after some statements, each at its own time. -/
def written (statements : List (Stamp × Statement)) : Database :=
  statements.foldl (fun db st => st.2.apply st.1 db) .empty

theorem serialIds_written (statements : List (Stamp × Statement)) :
    SerialIds (written statements) := by
  have hstart : SerialIds .empty := ⟨SerialTable.issued_empty, SerialTable.issued_empty⟩
  rw [written]
  generalize Database.empty = db at hstart
  induction statements generalizing db with
  | nil => exact hstart
  | cons st statements ih => exact ih _ (hstart.apply st.1 st.2)

section Partitions

variable {db : Database} {base58 : Pubkey → String} {n : Nat}

theorem total_select {ρ κ ι : Type} (table : List ρ) (condition : ρ → Bool) (orderBy : ρ → κ)
    (items : ρ → List ι) :
    (select table condition orderBy items).total = (select table condition orderBy items).rows.length :=
  List.countP_eq_length_filter

theorem nodup_filter_map {ρ ν : Type} {f : ρ → ν} {rows : List ρ} (h : (rows.map f).Nodup)
    (p : ρ → Bool) : ((rows.filter p).map f).Nodup :=
  h.sublist (List.filter_sublist.map f)

theorem getSwaps_partitions (hpos : 0 < n) (hids : SerialIds db)
    {pairAddress userAddress : Option String}
    {l : Listing (Stored (Clocked SwapRow Instant)) Int (Stored (Clocked SwapRow Instant))}
    (hl : getSwaps db base58 pairAddress userAddress = .ok l) : l.Partitions n := by
  unfold getSwaps at hl
  split at hl
  · cases hl
  · obtain rfl := Except.ok.inj hl
    have hrows := nodup_filter_map hids.swaps.1
    refine (Listing.partitions_iff_of_single hpos (total_select _ _ _ _) ?_ fun _ _ => rfl).mpr ?_
    · exact Listing.nodup_allItems Stored.id Stored.id (hrows _)
        (fun _ _ => List.nodup_singleton _)
        fun r _ x hx => congrArg Stored.id (List.mem_singleton.mp hx)
    · refine Listing.whole_of_nodup_keys ?_
      have hinj : Function.Injective fun id : Nat => -(id : Int) := fun a b hab =>
        Int.ofNat.inj (Int.neg_inj.mp hab)
      show (List.map ((fun id : Nat => -(id : Int)) ∘ Stored.id) _).Nodup
      rw [← List.map_map]
      exact (hrows _).map hinj

theorem getPools_partitions {δ : Type} (hpos : 0 < n) (hids : SerialIds db)
    (visible : Nat → Bool) (load : Stored PoolRow → δ) (visibility : Option String) :
    (getPools db visible load visibility).Partitions n := by
  have hrows := nodup_filter_map hids.pools.1
  refine (Listing.partitions_iff_of_single hpos (total_select _ _ _ _) ?_ fun _ _ => rfl).mpr ?_
  · exact Listing.nodup_allItems Stored.id Prod.fst (hrows _)
      (fun _ _ => List.nodup_singleton _)
      fun r _ x hx => congrArg Prod.fst (List.mem_singleton.mp hx)
  · exact Listing.whole_of_nodup_keys (hrows _)

theorem getUserHistory_partitions_iff (hpos : 0 < n)
    {userAddress pair sortBy sortOrder : Option String}
    {l : Listing (Stored (Clocked AdjustLiquidityRow Instant)) Int HistoryItem}
    (hl : getUserHistory db base58 userAddress pair sortBy sortOrder = .ok l) :
    l.Partitions n ↔ ∀ r ∈ l.rows, l.Whole n r := by
  unfold getUserHistory at hl
  split at hl
  · split at hl
    · cases hl
    · dsimp only at hl
      split at hl
      · cases hl
      · obtain rfl := Except.ok.inj hl
        refine Listing.partitions_iff_of_single hpos (total_select _ _ _ _) ?_ fun _ _ => rfl
        exact Listing.nodup_allItems (fun row => AdjustLiquidityRow.key row.cols)
          (fun item => AdjustLiquidityRow.key item.row.cols)
          (nodup_filter_map db.adjustLiquidity.table.unique _) (fun _ _ => List.nodup_singleton _)
          fun r _ x hx => congrArg (fun item : HistoryItem => AdjustLiquidityRow.key item.row.cols)
            (List.mem_singleton.mp hx)
  · cases hl

theorem map_eq_ok {ε α β : Type} {x : Except ε α} {f : α → β} {b : β} (h : x.map f = .ok b) :
    ∃ a, b = f a := by
  cases x with
  | error e => cases h
  | ok a => exact ⟨a, (Except.ok.inj h).symm⟩

theorem getAllLiquidityPositions_partitions_iff (hpos : 0 < n)
    {pairTokens : Pubkey → Option (String × String)} {userAddress : Option String}
    {l : Listing (Clocked UserLiquidityPositionRow Instant) Int LiquidityPosition}
    (hl : getAllLiquidityPositions db base58 pairTokens userAddress = .ok l) :
    l.Partitions n ↔ ∀ r ∈ l.rows, l.Whole n r := by
  obtain ⟨user, rfl⟩ := map_eq_ok hl
  refine Listing.partitions_iff_of_single hpos (total_select _ _ _ _) ?_ fun _ _ => rfl
  exact Listing.nodup_allItems UserLiquidityPositionRow.key
    (fun item => UserLiquidityPositionRow.key item.row)
    (nodup_filter_map db.userLiquidityPositions.unique _) (fun _ _ => List.nodup_singleton _)
    fun r _ x hx => congrArg (fun item : LiquidityPosition => UserLiquidityPositionRow.key item.row)
      (List.mem_singleton.mp hx)

/-! ## The positions of a row -/

variable {simulate : BorrowRow → Option Simulation}

theorem mem_positionOf {row : BorrowRow} {simulation : Option Simulation}
    {collateralToken debtToken : Token} {collateral debtShares liquidationCfBps maxCfBps : Int}
    {x : SplitPosition} (h : x ∈ positionOf row simulation collateralToken debtToken collateral
      debtShares liquidationCfBps maxCfBps) :
    (x.pair, x.signer) = UserBorrowPositionRow.key row ∧ x.collateralToken = collateralToken := by
  unfold positionOf at h
  split at h
  · obtain rfl := List.mem_singleton.mp h
    exact ⟨rfl, rfl⟩
  · exact nomatch h

theorem nodup_positionOf {row : BorrowRow} {simulation : Option Simulation}
    {collateralToken debtToken : Token} {collateral debtShares liquidationCfBps maxCfBps : Int} :
    (positionOf row simulation collateralToken debtToken collateral debtShares liquidationCfBps
      maxCfBps).Nodup := by
  unfold positionOf
  split
  · exact List.nodup_singleton _
  · exact List.nodup_nil

theorem nodup_splitPosition (row : BorrowRow) : (splitPosition simulate row).Nodup := by
  refine List.nodup_append.mpr ⟨nodup_positionOf, nodup_positionOf, fun x hx y hy hxy => ?_⟩
  have hfirst := (mem_positionOf hx).2
  rw [hxy, (mem_positionOf hy).2] at hfirst
  cases hfirst

theorem key_of_mem_splitPosition {row : BorrowRow} {x : SplitPosition}
    (h : x ∈ splitPosition simulate row) : (x.pair, x.signer) = UserBorrowPositionRow.key row := by
  obtain h | h := List.mem_append.mp h <;> exact (mem_positionOf h).1

theorem length_positionOf {row : BorrowRow} {simulation : Option Simulation}
    {collateralToken debtToken : Token} {collateral debtShares liquidationCfBps maxCfBps : Int} :
    (positionOf row simulation collateralToken debtToken collateral debtShares liquidationCfBps
      maxCfBps).length = if toString collateral ≠ "0" then 1 else 0 := by
  unfold positionOf
  split <;> rfl

theorem length_flatMap_splitPosition (simulate : BorrowRow → Option Simulation)
    (rows : List BorrowRow) :
    (rows.flatMap (splitPosition simulate)).length =
      rows.countP (fun row => toString row.cols.collateral0 ≠ "0") +
        rows.countP (fun row => toString row.cols.collateral1 ≠ "0") := by
  induction rows with
  | nil => rfl
  | cons row rows ih =>
    rw [List.flatMap_cons, List.length_append, ih, List.countP_cons, List.countP_cons,
      splitPosition, List.length_append, length_positionOf, length_positionOf]
    simp only [decide_eq_true_eq]
    omega

theorem getAllPositions_partitions_iff (hpos : 0 < n) {userAddress : Option String}
    {l : Listing BorrowRow Int SplitPosition}
    (hl : getAllPositions db base58 simulate userAddress = .ok l) :
    l.Partitions n ↔
      l.rows.countP (fun row => toString row.cols.collateral0 ≠ "0") +
          l.rows.countP (fun row => toString row.cols.collateral1 ≠ "0") = l.rows.length ∧
        ∀ r ∈ l.rows, l.Whole n r := by
  obtain ⟨user, rfl⟩ := map_eq_ok hl
  rw [← length_flatMap_splitPosition simulate]
  refine Listing.partitions_iff hpos (total_select _ _ _ _) ?_
  exact Listing.nodup_allItems UserBorrowPositionRow.key (fun item => (item.pair, item.signer))
    (nodup_filter_map db.userBorrowPositions.unique _)
    (fun row _ => nodup_splitPosition row) fun row _ x hx => key_of_mem_splitPosition hx

/-! ## The union of four tables -/

theorem nodup_rows {ρ κ : Type} {key : ρ → κ} (t : SerialTable key) : t.table.rows.Nodup :=
  t.table.unique.of_map _

theorem nodup_combinedEvents (db : Database) : (combinedEvents db).Nodup := by
  unfold combinedEvents
  refine List.nodup_append.mpr ⟨List.nodup_append.mpr ⟨List.nodup_append.mpr
    ⟨?_, ?_, ?_⟩, ?_, ?_⟩, ?_, ?_⟩
  · exact (nodup_rows _).map fun a b h => LendingEvent.collateralAdjustment.inj h
  · exact (nodup_rows _).map fun a b h => LendingEvent.debtAdjustment.inj h
  · simp
  · exact (nodup_rows _).map fun a b h => LendingEvent.liquidation.inj h
  · rintro a ha b hb rfl
    obtain ⟨row, -, rfl⟩ := List.mem_map.mp hb
    simp at ha
  · exact (nodup_rows _).map fun a b h => LendingEvent.positionUpdate.inj h
  · rintro a ha b hb rfl
    obtain ⟨row, -, rfl⟩ := List.mem_map.mp hb
    simp at ha

theorem getUserLendingHistory_partitions_iff (hpos : 0 < n) {userAddress : Option String}
    {l : Listing LendingEvent (Int ×ₗ Int) LendingEvent}
    (hl : getUserLendingHistory db base58 userAddress = .ok l) :
    l.Partitions n ↔ ∀ r ∈ l.rows, l.Whole n r := by
  unfold getUserLendingHistory at hl
  split at hl
  · cases hl
  · obtain rfl := Except.ok.inj hl
    refine Listing.partitions_iff_of_single hpos ?_ ?_ fun _ _ => rfl
    · -- The four counts are the counts of the parts of the union.
      simp only [countOf, combinedEvents, ← List.countP_eq_length_filter, List.countP_append,
        List.countP_map]
      rfl
    · refine Listing.nodup_allItems (fun event => event) (fun event => event) ?_
        (fun _ _ => List.nodup_singleton _) fun r _ x hx => List.mem_singleton.mp hx
      rw [List.map_id']
      exact (nodup_combinedEvents db).sublist List.filter_sublist

/-- For every limit from 1 on: the walk through `getSwaps` and `getPools` is a
partition; the walks through the histories and the liquidity positions are exactly if
no group of rows with equal sort keys straddles two pages; for `getAllPositions` there
also have to be as many positions as rows. -/
theorem pagination_partition_iff {δ : Type} (base58 : Pubkey → String) (visible : Nat → Bool)
    (load : Stored PoolRow → δ) (simulate : BorrowRow → Option Simulation)
    (pairTokens : Pubkey → Option (String × String)) (hids : SerialIds db) (limit : Option Int)
    (hlimit : 1 ≤ effectiveLimit limit) :
    (∀ pairAddress userAddress l, getSwaps db base58 pairAddress userAddress = .ok l →
      l.Partitions (pageSize limit)) ∧
    (∀ visibility, (getPools db visible load visibility).Partitions (pageSize limit)) ∧
    (∀ userAddress pair sortBy sortOrder l,
      getUserHistory db base58 userAddress pair sortBy sortOrder = .ok l →
      (l.Partitions (pageSize limit) ↔ ∀ r ∈ l.rows, l.Whole (pageSize limit) r)) ∧
    (∀ userAddress l, getAllPositions db base58 simulate userAddress = .ok l →
      (l.Partitions (pageSize limit) ↔
        l.rows.countP (fun row => toString row.cols.collateral0 ≠ "0") +
            l.rows.countP (fun row => toString row.cols.collateral1 ≠ "0") = l.rows.length ∧
          ∀ r ∈ l.rows, l.Whole (pageSize limit) r)) ∧
    (∀ userAddress l, getAllLiquidityPositions db base58 pairTokens userAddress = .ok l →
      (l.Partitions (pageSize limit) ↔ ∀ r ∈ l.rows, l.Whole (pageSize limit) r)) ∧
    (∀ userAddress l, getUserLendingHistory db base58 userAddress = .ok l →
      (l.Partitions (pageSize limit) ↔ ∀ r ∈ l.rows, l.Whole (pageSize limit) r)) := by
  have hpos : 0 < pageSize limit := by
    unfold pageSize
    omega
  refine ⟨?_, ?_, ?_, ?_, ?_, ?_⟩
  · intro pairAddress userAddress l hl
    exact getSwaps_partitions hpos hids hl
  · intro visibility
    exact getPools_partitions hpos hids visible load visibility
  · intro userAddress pair sortBy sortOrder l hl
    exact getUserHistory_partitions_iff hpos hl
  · intro userAddress l hl
    exact getAllPositions_partitions_iff hpos hl
  · intro userAddress l hl
    exact getAllLiquidityPositions_partitions_iff hpos hl
  · intro userAddress l hl
    exact getUserLendingHistory_partitions_iff hpos hl

end Partitions

/-- The position of one signer in the pair, written at a time. -/
def depositAt (time : Instant) (signer : UInt8) : Stamp × Statement :=
  (⟨time, time, time⟩, .userLiquidityPositions
    { pair := .filled 1, signer := .filled signer, token0Mint := .filled 3,
      token1Mint := .filled 4, amount0 := 1, amount1 := 1, lpMint := .filled 5, lpAmount := 1,
      slot := 7 })

/-- Three positions, two of them written in one microsecond. -/
def tiedPositions : Database := written [depositAt 5 10, depositAt 5 11, depositAt 3 12]

/-- The two that tie straddle the pages of one position each, and not those of two. -/
theorem pagination_partition_iff_tiedPositions :
    ∃ l, getAllLiquidityPositions tiedPositions (fun _ => "") (fun _ => none) none = .ok l ∧
      ¬ l.Partitions 1 ∧ l.Partitions 2 := by
  have hiff := fun limit hlimit => (@pagination_partition_iff tiedPositions Unit (fun _ => "")
    (fun _ => true) (fun _ => ()) (fun _ => none) (fun _ => none) (serialIds_written _) (some limit)
    hlimit).2.2.2.2.1 none _ rfl
  have hplaces : ∀ l, getAllLiquidityPositions tiedPositions (fun _ => "") (fun _ => none) none =
      .ok l → ∀ r ∈ l.rows, l.below r = 0 ∧ l.upTo r = 2 ∨ l.below r = 2 ∧ l.upTo r = 3 := by
    rintro l ⟨⟩
    decide +kernel
  refine ⟨_, rfl, fun hone => ?_, (hiff 2 (by decide)).mpr fun r hr _ i hi => ?_⟩
  · have hwhole := (hiff 1 (by decide)).mp hone _ List.mem_cons_self (List.cons_ne_nil _ _) 1
    exact hwhole ⟨by decide +kernel, by decide +kernel⟩
  · have hplace := hplaces _ rfl r hr
    rw [show pageSize (some 2) = 2 from rfl] at hi
    omega

/-! ## One row, two positions -/

/-- A position with both collaterals. -/
def bothCollaterals : BorrowRow where
  cols :=
    { pair := .filled 1, signer := .filled 2, position := .filled 3, collateral0 := 5,
      collateral1 := 6, debt0Shares := 0, debt1Shares := 0, collateral0LiquidationCfBps := 0,
      collateral1LiquidationCfBps := 0, collateral0MaxCfBps := 0, collateral1MaxCfBps := 0,
      slot := 7 }
  clock := ⟨1, 1⟩

def onePosition : Database :=
  { Database.empty with userBorrowPositions := ⟨[bothCollaterals], List.nodup_singleton _⟩ }

theorem onePosition_serialIds : SerialIds onePosition :=
  ⟨SerialTable.issued_empty, SerialTable.issued_empty⟩

/-- The total is one, and two positions come back. -/
theorem two_positions_one_row :
    ¬ ∀ (db : Database) (limit : Option Int), SerialIds db → 1 ≤ effectiveLimit limit →
      ∀ l, getAllPositions db (fun _ => "") (fun _ => none) none = .ok l →
        l.Partitions (pageSize limit) := by
  intro hall
  have hpartitions := hall onePosition (some 1) onePosition_serialIds (by decide) _ rfl
  have hlength := (hpartitions (fun _ => [bothCollaterals]) fun _ =>
    ⟨List.Perm.refl _, List.pairwise_singleton _ _⟩).2
  exact absurd hlength (by decide +kernel)

end DataController

end OmnipairIndexer
