/-
What the two volume scripts share: token prices, pools and the USD value of a
trade.

The scripts compute with JavaScript numbers.  `JsNumber` lists the operations they
use, so that the results hold whatever the arithmetic rounds to; the rationals are
the instance to evaluate with.
-/
import Mathlib.Algebra.Order.Field.Rat
import OmnipairIndexer.Database.SwapTable

namespace OmnipairIndexer

/-! ## Numbers -/

/-- The operations on JavaScript numbers that the scripts use. -/
class JsNumber (N : Type) where
  zero : N
  parseFloat : String → N
  pow10 : Nat → N
  mul : N → N → N
  div : N → N → N
  /-- A number that is truthy, not a NaN and above zero. -/
  isPositive : N → Bool
  /-- The text of a number bound to a `NUMERIC` column. -/
  text : N → String

/-- Exact arithmetic on numbers without a sign or an exponent. -/
instance : JsNumber ℚ where
  zero := 0
  parseFloat s := ((DbListener.parseDigits s.toList).getD 0 : Nat)
  pow10 n := 10 ^ n
  mul := (· * ·)
  div := (· / ·)
  isPositive q := decide (0 < q)
  text q := if q.den = 1 then toString q.num else toString q.num ++ "/" ++ toString q.den

open JsNumber

/-! ## Prices and pools -/

structure PriceInfo (N : Type) where
  price : N
  decimals : Nat
  deriving DecidableEq

structure PoolInfo where
  token0 : String
  token1 : String
  deriving DecidableEq

structure PriceData (N : Type) where
  usdPrice : Option N
  decimals : Option Nat

abbrev Prices (N : Type) := String → Option (PriceInfo N)

/-- The body of an answer of the price API, by mint. -/
abbrev PriceResponse (N : Type) := String → Option (PriceData N)

section

variable {N : Type} [JsNumber N]

/-- The price that an answer gives for a mint, if it is usable. -/
def PriceResponse.tokenPrice (data : PriceResponse N) (mint : String) : Option (PriceInfo N) :=
  (data mint).bind fun tokenData => tokenData.usdPrice.bind fun usdPrice =>
    if isPositive usdPrice then some ⟨usdPrice, tokenData.decimals.getD 6⟩ else none

namespace PoolInfo

def tokenInMint (poolInfo : PoolInfo) (isToken0In : Bool) : String :=
  if isToken0In then poolInfo.token0 else poolInfo.token1

def tokenOutMint (poolInfo : PoolInfo) (isToken0In : Bool) : String :=
  if isToken0In then poolInfo.token1 else poolInfo.token0

def mints (poolInfo : PoolInfo) (isToken0In : Bool) : List String :=
  [poolInfo.tokenInMint isToken0In, poolInfo.tokenOutMint isToken0In]

end PoolInfo

/-! ## The value of a trade -/

def usdValue (amount : String) (info : PriceInfo N) : N :=
  mul (div (parseFloat amount) (pow10 info.decimals)) info.price

/-- The volume of a trade, from the price of its input token if there is one, else
from that of its output token, and zero without either. -/
def Trade.computeVolumeUsd (trade : Trade) (prices : Prices N) (poolInfo : PoolInfo) : N :=
  match prices (poolInfo.tokenInMint trade.isToken0In) with
  | some tokenInPrice => usdValue trade.amountIn tokenInPrice
  | none =>
    match prices (poolInfo.tokenOutMint trade.isToken0In) with
    | some tokenOutPrice => usdValue trade.amountOut tokenOutPrice
    | none => zero

theorem Trade.computeVolumeUsd_congr {trade : Trade} {prices prices' : Prices N}
    {poolInfo : PoolInfo}
    (h : ∀ mint ∈ poolInfo.mints trade.isToken0In, prices mint = prices' mint) :
    trade.computeVolumeUsd prices poolInfo = trade.computeVolumeUsd prices' poolInfo := by
  simp only [PoolInfo.mints, List.mem_cons, List.not_mem_nil, or_false, forall_eq_or_imp,
    forall_eq] at h
  rw [computeVolumeUsd, computeVolumeUsd, h.1, h.2]

/-! ## Fetching prices -/

/-- The cache pass of `fetchTokenPrices`: the prices found in the cache, and the
mints that are not in it.  A mint can be in the cache as one without a price. -/
def fromCache (cached : String → Option (Option (PriceInfo N))) (mints : List String) :
    Prices N × List String :=
  (fun mint => if mint ∈ mints then (cached mint).join else none,
    mints.filter fun mint => (cached mint).isNone)

/-- The results once an answer for the uncached mints is in. -/
def merged (results : Prices N) (uncachedMints : List String) (data : PriceResponse N) :
    Prices N :=
  fun mint => if mint ∈ uncachedMints then data.tokenPrice mint else results mint

end

/-- Where the enrichment of one swap stands: waiting for the pool query, before the
cache pass, waiting for the price API, waiting for the update, or over. -/
inductive Stage (N : Type) where
  | lookingUp
  | pooled (poolInfo : PoolInfo)
  | fetching (poolInfo : PoolInfo) (results : Prices N) (uncachedMints : List String)
  | updating (volumeUsd : N)
  | done

def Stage.isDone {N : Type} : Stage N → Bool
  | done => true
  | _ => false

/-- The arguments of an update, and the order in which it visits the rows. -/
structure VolumeUpdate where
  volumeUsd : String
  txSig : String
  order : List Swap

end OmnipairIndexer
