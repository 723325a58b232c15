/-
The pools of two tokens and the tokens a token is paired with.

`getPoolsByTokens` answers with one pool at most, the one with the smallest id, and an id
is the place of a pool's first creation among all that was written to `pools`.  So what it
finds is the pool created first, with the columns of its last creation, of those whose
last creation has the two tokens.  `oldest_pool` says this for every run of the indexer,
and that the answers for single tokens list the same pairs.

Addresses are compared as the text they are stored as.
-/
import Mathlib.Data.List.Sort
import Mathlib.Data.String.Basic
import OmnipairIndexer.Api.Pagination
import OmnipairIndexer.Indexer.Written

namespace OmnipairIndexer

open Relational

namespace DataController

/-! ## Queries -/

/-- The columns of `pools` that a search for two tokens selects. -/
structure PoolSummary where
  id : Nat
  pairAddress : Pubkey
  token0 : Pubkey
  token1 : Pubkey
  swapFeeBps : Int
  fixedCfBps : Option Int
  deriving DecidableEq

structure PoolsByTokens where
  pools : List PoolSummary
  token0 : String
  token1 : String
  count : Nat
  deriving DecidableEq

/-- A pool of a token, with its other token. -/
structure PairedPool where
  pairAddress : Pubkey
  pairedToken : String
  swapFeeBps : Int
  fixedCfBps : Option Int
  deriving DecidableEq

structure TokensByToken where
  tokens : List String
  pools : List PairedPool
  inputToken : String
  count : Nat
  deriving DecidableEq

def poolSummary (row : Stored PoolRow) : PoolSummary where
  id := row.id
  pairAddress := row.cols.pairAddress
  token0 := row.cols.token0
  token1 := row.cols.token1
  swapFeeBps := row.cols.swapFeeBps
  fixedCfBps := row.cols.fixedCfBps

section Endpoints

variable (db : Database) (base58 : Pubkey → String)

/-- `(token0 = $1 AND token1 = $2) OR (token0 = $2 AND token1 = $1)`. -/
def HasTokens (token0 token1 : String) (row : PoolRow) : Prop :=
  base58 row.token0 = token0 ∧ base58 row.token1 = token1 ∨
    base58 row.token0 = token1 ∧ base58 row.token1 = token0

instance (token0 token1 : String) (row : PoolRow) :
    Decidable (HasTokens base58 token0 token1 row) :=
  inferInstanceAs (Decidable (_ ∨ _))

/-- `ORDER BY id ASC LIMIT 1`. -/
def firstById (rows : List (Stored PoolRow)) : Option (Stored PoolRow) :=
  (rows.insertionSort fun a b => a.id ≤ b.id).head?

/-- The answer of a search that found at most one pool. -/
def poolsByTokens (found : Option PoolSummary) (token0 token1 : String) : PoolsByTokens :=
  ⟨found.toList, token0, token1, found.toList.length⟩

def getPoolsByTokens (token0 token1 : Option String) : Except String PoolsByTokens :=
  let invalid := .error "Both token0 and token1 path parameters are required and must be different"
  match given token0, given token1 with
  | some token0, some token1 =>
    if token0 = token1 then invalid
    else
      .ok (poolsByTokens ((firstById (db.pools.table.rows.filter fun row =>
        HasTokens base58 token0 token1 row.cols)).map poolSummary) token0 token1)
  | _, _ => invalid

def pairedPool (row : PoolRow) (pairedToken : Pubkey) : PairedPool where
  pairAddress := row.pairAddress
  pairedToken := base58 pairedToken
  swapFeeBps := row.swapFeeBps
  fixedCfBps := row.fixedCfBps

/-- The two sides of the `UNION`, which keeps one of equal rows. -/
def pairedPools (token : String) : List PairedPool :=
  (((db.pools.cols.filter fun row => base58 row.token0 = token).map fun row =>
      pairedPool base58 row row.token1) ++
    ((db.pools.cols.filter fun row => base58 row.token1 = token).map fun row =>
      pairedPool base58 row row.token0)).dedup

/-- `collate` is what the collation of the database sorts a text by. -/
def getTokensByToken {κ : Type} [LinearOrder κ] (collate : String → κ) (token : Option String) :
    Except String TokensByToken :=
  match given token with
  | none => .error "Token path parameter is required"
  | some token =>
    let rows := (pairedPools db base58 token).insertionSort fun a b =>
      collate a.pairedToken ≤ collate b.pairedToken
    .ok ⟨rows.map PairedPool.pairedToken, rows, token, rows.length⟩

end Endpoints

/-! ## The first of the rows -/

section Smallest

variable {α : Type} {f : α → Nat} {l : List α}

/-- The first one in the order of a number that is not given twice has the smallest. -/
theorem head?_insertionSort_iff (hf : (l.map f).Nodup) (x : α) :
    (l.insertionSort fun a b => f a ≤ f b).head? = some x ↔ x ∈ l ∧ ∀ y ∈ l, f x ≤ f y := by
  have htotal : Std.Total fun a b => f a ≤ f b := ⟨fun a b => Nat.le_total (f a) (f b)⟩
  have htrans : IsTrans α fun a b => f a ≤ f b := ⟨fun _ _ _ => Nat.le_trans⟩
  have hsorted := List.pairwise_insertionSort (fun a b => f a ≤ f b) l
  have hmem : ∀ y, y ∈ l.insertionSort (fun a b => f a ≤ f b) ↔ y ∈ l := fun y =>
    List.mem_insertionSort _
  cases hl : l.insertionSort (fun a b => f a ≤ f b) with
  | nil =>
    rw [hl] at hmem
    exact ⟨nofun, fun h => absurd ((hmem x).mpr h.1) List.not_mem_nil⟩
  | cons first rest =>
    rw [hl] at hsorted hmem
    have hfirst : ∀ y ∈ l, f first ≤ f y := by
      intro y hy
      obtain rfl | hrest := List.mem_cons.mp ((hmem y).mpr hy)
      · exact Nat.le_refl _
      · exact (List.pairwise_cons.mp hsorted).1 y hrest
    have hin : first ∈ l := (hmem first).mp List.mem_cons_self
    constructor
    · intro h
      obtain rfl := Option.some.inj h
      exact ⟨hin, hfirst⟩
    · intro ⟨hx, hleast⟩
      have hsame : f first = f x := Nat.le_antisymm (hfirst x hx) (hleast first hin)
      exact congrArg some (List.inj_on_of_nodup_map hf hin hx hsame)

end Smallest

/-! ## The directory after a run -/

section Directory

variable {base58 : Pubkey → String} {token0 token1 : String} {db : Database}

theorem hasTokens_comm (row : PoolRow) :
    HasTokens base58 token0 token1 row ↔ HasTokens base58 token1 token0 row := or_comm

/-- A pool is listed for a token with its other token. -/
theorem mem_pairedPools (token : String) (pool : PairedPool) :
    pool ∈ pairedPools db base58 token ↔ ∃ row ∈ db.pools.cols,
      HasTokens base58 token pool.pairedToken row ∧ pool.pairAddress = row.pairAddress ∧
        pool.swapFeeBps = row.swapFeeBps ∧ pool.fixedCfBps = row.fixedCfBps := by
  rw [pairedPools, List.mem_dedup, List.mem_append, List.mem_map, List.mem_map]
  constructor
  · intro h
    obtain ⟨row, hrow, rfl⟩ | ⟨row, hrow, rfl⟩ := h
    · obtain ⟨hmem, htoken⟩ := List.mem_filter.mp hrow
      exact ⟨row, hmem, Or.inl ⟨of_decide_eq_true htoken, rfl⟩, rfl, rfl, rfl⟩
    · obtain ⟨hmem, htoken⟩ := List.mem_filter.mp hrow
      exact ⟨row, hmem, Or.inr ⟨rfl, of_decide_eq_true htoken⟩, rfl, rfl, rfl⟩
  · intro ⟨row, hmem, htokens, haddress, hfee, hfactor⟩
    obtain ⟨address, paired, fee, factor⟩ := pool
    subst haddress hfee hfactor
    obtain ⟨htoken, rfl⟩ | ⟨rfl, htoken⟩ := htokens
    · exact Or.inl ⟨row, List.mem_filter.mpr ⟨hmem, decide_eq_true htoken⟩, rfl⟩
    · exact Or.inr ⟨row, List.mem_filter.mpr ⟨hmem, decide_eq_true htoken⟩, rfl⟩

theorem mem_tokens_iff {κ : Type} [LinearOrder κ] (collate : String → κ) (h : token0 ≠ "") :
    (∃ answer, getTokensByToken db base58 collate (some token0) = .ok answer ∧
        token1 ∈ answer.tokens) ↔
      ∃ row ∈ db.pools.cols, HasTokens base58 token0 token1 row := by
  have hgiven : given (some token0) = some token0 := by simp [given, h]
  simp only [getTokensByToken, hgiven, Except.ok.injEq, exists_eq_left', List.mem_map,
    List.mem_insertionSort, mem_pairedPools]
  constructor
  · intro ⟨pool, ⟨row, hmem, htokens, _⟩, hpaired⟩
    exact ⟨row, hmem, hpaired ▸ htokens⟩
  · intro ⟨row, hmem, htokens⟩
    exact ⟨⟨row.pairAddress, token1, row.swapFeeBps, row.fixedCfBps⟩,
      ⟨row, hmem, htokens, rfl, rfl, rfl⟩, rfl⟩

theorem getPoolsByTokens_eq (h0 : token0 ≠ "") (h1 : token1 ≠ "") (hne : token0 ≠ token1) :
    getPoolsByTokens db base58 (some token0) (some token1) =
      .ok (poolsByTokens ((firstById (db.pools.table.rows.filter fun row =>
        HasTokens base58 token0 token1 row.cols)).map poolSummary) token0 token1) := by
  have hgiven0 : given (some token0) = some token0 := by simp [given, h0]
  have hgiven1 : given (some token1) = some token1 := by simp [given, h1]
  simp only [getPoolsByTokens, hgiven0, hgiven1, if_neg hne]

theorem firstById_isSome_iff {rows : List (Stored PoolRow)} :
    (firstById rows).isSome ↔ ∃ row, row ∈ rows := by
  rw [firstById, List.isSome_head?]
  constructor
  · intro h
    obtain ⟨row, hrow⟩ := List.exists_mem_of_ne_nil _ h
    exact ⟨row, (List.mem_insertionSort _).mp hrow⟩
  · intro ⟨row, hrow⟩
    exact List.ne_nil_of_mem ((List.mem_insertionSort _).mpr hrow)

/-- Of the pools that have the tokens, with the columns last written, the one written first. -/
def Oldest (base58 : Pubkey → String) (token0 token1 : String) (written : List PoolRow)
    (row : PoolRow) : Prop :=
  row ∈ standing PoolRow.key written ∧ HasTokens base58 token0 token1 row ∧
    ∀ other ∈ standing PoolRow.key written, HasTokens base58 token0 token1 other →
      (written.map PoolRow.key).idxOf row.key ≤ (written.map PoolRow.key).idxOf other.key

variable {written : List PoolRow}

theorem firstById_iff {t : SerialTable PoolRow.key}
    (ht : t = SerialTable.empty.writeAll PoolRow.onConflict written) (row : Stored PoolRow) :
    firstById (t.table.rows.filter fun row => HasTokens base58 token0 token1 row.cols) =
        some row ↔
      Oldest base58 token0 token1 written row.cols ∧
        row.id = (written.map PoolRow.key).idxOf row.cols.key + 1 := by
  have hid : ∀ s ∈ t.table.rows, s.id = (written.map PoolRow.key).idxOf s.cols.key + 1 := by
    rw [ht]
    exact SerialTable.id_writeAll written
  have hstanding : ∀ r, r ∈ t.cols ↔ r ∈ standing PoolRow.key written := by
    rw [ht]
    exact fun r => (SerialTable.cols_writeAll PoolRow.onConflict_replaces written).mem_iff
  have hids : (t.table.rows.map Stored.id).Nodup := by
    rw [ht]
    exact (SerialTable.issued_writeAll written).1
  have hmem : ∀ s, s ∈ t.table.rows.filter (fun row => HasTokens base58 token0 token1 row.cols) ↔
      s ∈ t.table.rows ∧ HasTokens base58 token0 token1 s.cols := by
    intro s
    rw [List.mem_filter, decide_eq_true_eq]
  rw [firstById, head?_insertionSort_iff (nodup_filter_map hids _), hmem]
  constructor
  · intro ⟨⟨hrow, htokens⟩, hleast⟩
    refine ⟨⟨(hstanding _).mp (List.mem_map_of_mem hrow), htokens, ?_⟩, hid row hrow⟩
    intro other hother htokens'
    obtain ⟨s, hs, rfl⟩ := List.mem_map.mp ((hstanding other).mpr hother)
    have hle := hleast s ((hmem s).mpr ⟨hs, htokens'⟩)
    rw [hid row hrow, hid s hs] at hle
    omega
  · intro ⟨⟨hrow, htokens, hleast⟩, hrowid⟩
    obtain ⟨s, hs, hcols⟩ := List.mem_map.mp ((hstanding _).mpr hrow)
    have hsame : s = row := by
      obtain ⟨id, cols⟩ := s
      obtain ⟨id', cols'⟩ := row
      obtain rfl : cols = cols' := hcols
      have hid' := hid _ hs
      rw [show id = id' from hid'.trans hrowid.symm]
    subst hsame
    refine ⟨⟨hs, htokens⟩, ?_⟩
    intro other hother
    obtain ⟨hother, htokens'⟩ := (hmem other).mp hother
    have hle := hleast other.cols ((hstanding _).mp (List.mem_map_of_mem hother)) htokens'
    rw [hid s hs, hid other hother]
    omega

/-- After any run the search for two tokens finds the pool created first of those that now
have them, in either order of the tokens, and it finds one exactly if each of the tokens is
listed for the other. -/
theorem oldest_pool (cs : List UpsertCall) (w : World) (hempty : w.db = .empty)
    (base58 : Pubkey → String) {κ : Type} [LinearOrder κ] (collate : String → κ)
    {token0 token1 : String} (h0 : token0 ≠ "") (h1 : token1 ≠ "") (hne : token0 ≠ token1) :
    ∃ found : Option PoolSummary,
      getPoolsByTokens (w.performAll cs).db base58 (some token0) (some token1) =
        .ok (poolsByTokens found token0 token1) ∧
      getPoolsByTokens (w.performAll cs).db base58 (some token1) (some token0) =
        .ok (poolsByTokens found token1 token0) ∧
      (∀ pool, found = some pool ↔
        ∃ row, Oldest base58 token0 token1 (w.poolsWritten cs) row ∧
          pool = poolSummary
            ⟨((w.poolsWritten cs).map PoolRow.key).idxOf row.key + 1, row⟩) ∧
      (found.isSome ↔
        ∃ answer, getTokensByToken (w.performAll cs).db base58 collate (some token0) =
          .ok answer ∧ token1 ∈ answer.tokens) ∧
      (found.isSome ↔
        ∃ answer, getTokensByToken (w.performAll cs).db base58 collate (some token1) =
          .ok answer ∧ token0 ∈ answer.tokens) := by
  have hpools := World.pools_performAll cs hempty
  generalize (w.performAll cs).db = db at hpools
  have hsame : (fun row : Stored PoolRow => decide (HasTokens base58 token1 token0 row.cols)) =
      fun row => decide (HasTokens base58 token0 token1 row.cols) := by
    funext row
    exact decide_eq_decide.mpr (hasTokens_comm row.cols)
  generalize hrows : db.pools.table.rows.filter
    (fun row => HasTokens base58 token0 token1 row.cols) = rows
  have hsome : ((firstById rows).map poolSummary).isSome ↔
      ∃ row ∈ db.pools.cols, HasTokens base58 token0 token1 row := by
    rw [Option.isSome_map, firstById_isSome_iff, ← hrows]
    constructor
    · intro ⟨row, hrow⟩
      obtain ⟨hmem, htokens⟩ := List.mem_filter.mp hrow
      exact ⟨row.cols, List.mem_map_of_mem hmem, of_decide_eq_true htokens⟩
    · intro ⟨row, hmem, htokens⟩
      obtain ⟨s, hs, rfl⟩ := List.mem_map.mp hmem
      exact ⟨s, List.mem_filter.mpr ⟨hs, decide_eq_true htokens⟩⟩
  refine ⟨(firstById rows).map poolSummary, ?_, ?_, ?_, ?_, ?_⟩
  · rw [getPoolsByTokens_eq h0 h1 hne, hrows]
  · rw [getPoolsByTokens_eq h1 h0 (Ne.symm hne), hsame, hrows]
  · intro pool
    rw [Option.map_eq_some_iff, ← hrows]
    constructor
    · intro ⟨row, hrow, hpool⟩
      obtain ⟨holdest, hid⟩ := (firstById_iff hpools row).mp hrow
      refine ⟨row.cols, holdest, ?_⟩
      rw [← hid]
      exact hpool.symm
    · intro ⟨row, holdest, hpool⟩
      exact ⟨_, (firstById_iff hpools ⟨_, row⟩).mpr ⟨holdest, rfl⟩, hpool.symm⟩
  · rw [hsome, mem_tokens_iff collate h0]
  · rw [hsome, mem_tokens_iff collate h1]
    exact exists_congr fun row => and_congr_right fun _ => hasTokens_comm row

def poolOf (pair token0 token1 : UInt8) : PairCreatedEvent where
  token0 := .filled token0
  token1 := .filled token1
  lpMint := .filled 9
  token0Decimals := 6
  token1Decimals := 9
  rateModel := .filled 8
  swapFeeBps := 30
  halfLife := 60000
  fixedCfBps := none
  targetUtilStartBps := 3000
  targetUtilEndBps := 5000
  rateHalfLifeMs := 86400000
  minRateBps := 100
  maxRateBps := 10000
  paramsHash := List.replicate 32 0
  version := 1
  metadata := ⟨.filled 7, .filled pair, 100⟩

/-- Two pools of two tokens, the second with the tokens the other way round. -/
def twoPools : List UpsertCall :=
  [⟨.pairCreated (poolOf 3 1 2), "5Vf", 100⟩, ⟨.pairCreated (poolOf 4 2 1), "2Qk", 101⟩,
    ⟨.pairCreated (poolOf 3 1 2), "5Vf", 100⟩]

/-- The texts of the keys in `twoPools`. -/
def base58Of (key : Pubkey) : String :=
  if key = .filled 1 then "4vJ9JU1bJJE96FWSJKvHsmmFADCg4gpZQff4P3bkLKi"
  else "8qbHbw2BbbTHBW1sbeqakYXVKRQM8Ne7pLK7m6CVfeR"

theorem oldest_pool_twoPools :
    ∃ found : Option PoolSummary,
      getPoolsByTokens (World.fresh.performAll twoPools).db base58Of
          (some (base58Of (.filled 1))) (some (base58Of (.filled 2))) =
        .ok (poolsByTokens found (base58Of (.filled 1)) (base58Of (.filled 2))) ∧
      (found.isSome ↔ ∃ answer, getTokensByToken (World.fresh.performAll twoPools).db base58Of id
        (some (base58Of (.filled 1))) = .ok answer ∧ base58Of (.filled 2) ∈ answer.tokens) := by
  obtain ⟨found, hfound, -, -, hlisted, -⟩ := oldest_pool twoPools World.fresh rfl base58Of id
    (show base58Of (.filled 1) ≠ "" by decide +kernel)
    (show base58Of (.filled 2) ≠ "" by decide +kernel) (by decide +kernel)
  exact ⟨found, hfound, hlisted⟩

example : getPoolsByTokens (World.fresh.performAll twoPools).db base58Of
    (some (base58Of (.filled 2))) (some (base58Of (.filled 1))) =
      .ok (poolsByTokens (some ⟨1, .filled 3, .filled 1, .filled 2, 30, none⟩)
        (base58Of (.filled 2)) (base58Of (.filled 1))) := by decide +kernel

end Directory

end DataController

end OmnipairIndexer
