/-
The cache of the API and what its keys tell apart.

Eight computations of `DataController` share one `SimpleCache`.  Each makes its key
from a fixed text, the pair address of the request, which is any text, and the hours,
and answers from an entry under this key as if it were its own.  The requests run
concurrently: a computation that misses awaits its query, and others look up and set
entries in between.

What a computation answers is kept as a term that says which computation it comes
from, so that an answer from the entry of another one shows.  `own_answers_iff` gives
the requests that can get one.
-/
import Mathlib.Algebra.Order.Field.Rat
import Mathlib.Algebra.Order.Ring.Cast
import Mathlib.Data.List.Basic
import Mathlib.Logic.Function.Basic
import Mathlib.Order.WithBot
import OmnipairIndexer.Library.Transition

namespace OmnipairIndexer

open Transition

/-! ## `SimpleCache` -/

/-- A `number` of milliseconds, the infinite ones included. -/
abbrev Millis : Type := WithBot (WithTop ℚ)

/-- A whole number of milliseconds. -/
def Millis.whole (ms : Int) : Millis := ((ms : ℚ) : WithTop ℚ)

instance : Coe Int Millis := ⟨Millis.whole⟩

theorem Millis.whole_lt_whole {ms ms' : Int} : Millis.whole ms < Millis.whole ms' ↔ ms < ms' := by
  rw [Millis.whole, Millis.whole, WithBot.coe_lt_coe, WithTop.coe_lt_coe, Int.cast_lt]

theorem Millis.whole_le_whole {ms ms' : Int} : Millis.whole ms ≤ Millis.whole ms' ↔ ms ≤ ms' := by
  rw [← not_lt, Millis.whole_lt_whole, not_lt]

structure CacheEntry (δ : Type) where
  data : δ
  timestamp : Int
  ttl : Millis

/-- The `Map`, by what it has for a key. -/
structure SimpleCache (δ : Type) where
  cache : String → Option (CacheEntry δ)

def CacheEntry.expired {δ : Type} (now : Int) (entry : CacheEntry δ) : Bool :=
  decide (Millis.whole (now - entry.timestamp) > entry.ttl)

namespace SimpleCache

variable {δ : Type}

def empty : SimpleCache δ := ⟨fun _ => none⟩

def set (s : SimpleCache δ) (key : String) (data : δ) (ttlMs : Millis) (now : Int) :
    SimpleCache δ :=
  ⟨Function.update s.cache key (some ⟨data, now, ttlMs⟩)⟩

def delete (s : SimpleCache δ) (key : String) : SimpleCache δ :=
  ⟨Function.update s.cache key none⟩

def get (s : SimpleCache δ) (key : String) (now : Int) : Option δ × SimpleCache δ :=
  match s.cache key with
  | none => (none, s)
  | some entry =>
    if entry.expired now then (none, s.delete key) else (some entry.data, s)

def cleanup (s : SimpleCache δ) (now : Int) : SimpleCache δ :=
  ⟨fun key => (s.cache key).filter fun entry => !entry.expired now⟩

/-- `P` holds of the data under each key. -/
def Holds (P : String → δ → Prop) (s : SimpleCache δ) : Prop :=
  ∀ key entry, s.cache key = some entry → P key entry.data

variable {P : String → δ → Prop} {s : SimpleCache δ} {key : String} {now : Int}

theorem holds_empty : Holds P (empty : SimpleCache δ) := by
  intro key entry h
  cases h

theorem Holds.update (h : Holds P s) {value : Option (CacheEntry δ)}
    (hvalue : ∀ entry ∈ value, P key entry.data) :
    Holds P ⟨Function.update s.cache key value⟩ := by
  intro key' entry hentry
  change Function.update s.cache key value key' = some entry at hentry
  by_cases hk : key' = key
  · subst hk
    rw [Function.update_self] at hentry
    exact hvalue entry hentry
  · rw [Function.update_of_ne hk] at hentry
    exact h key' entry hentry

theorem Holds.set (h : Holds P s) {data : δ} {ttlMs : Millis} (hdata : P key data) :
    Holds P (s.set key data ttlMs now) := by
  refine h.update fun entry hentry => ?_
  cases hentry
  exact hdata

theorem Holds.get (h : Holds P s) : Holds P (s.get key now).2 := by
  unfold SimpleCache.get
  split
  · exact h
  · split
    · exact h.update fun _ hentry => nomatch hentry
    · exact h

theorem Holds.of_get (h : Holds P s) {data : δ} (hget : (s.get key now).1 = some data) :
    P key data := by
  unfold SimpleCache.get at hget
  split at hget
  · cases hget
  · rename_i entry hentry
    split at hget
    · cases hget
    · cases hget
      exact h key entry hentry

theorem Holds.cleanup (h : Holds P s) : Holds P (s.cleanup now) := by
  intro key entry hentry
  exact h key entry (Option.eq_some_of_filter_eq_some hentry)

/-- An entry is found until its time to live has passed. -/
theorem get_set {data : δ} {ttlMs now' : Int} (hnow : now' - now ≤ ttlMs) :
    (s.set key data ttlMs now).get key now' = (some data, s.set key data ttlMs now) := by
  have hentry : (s.set key data ttlMs now).cache key = some ⟨data, now, ttlMs⟩ :=
    Function.update_self _ _ _
  have hexpired : (⟨data, now, ttlMs⟩ : CacheEntry δ).expired now' = false :=
    decide_eq_false (not_lt.mpr (Millis.whole_le_whole.mpr hnow))
  simp only [get, hentry, hexpired, Bool.false_eq_true, if_false]

end SimpleCache

/-! ## Keys -/

/-- A list determines what stands around the last occurrence of a separator. -/
theorem append_cons_inj_of_last {α : Type} {sep : α} {xs ys us vs : List α} (hu : sep ∉ us)
    (hv : sep ∉ vs) (h : xs ++ sep :: us = ys ++ sep :: vs) : xs = ys ∧ us = vs := by
  rcases List.append_eq_append_iff.mp h with ⟨as, rfl, htail⟩ | ⟨as, rfl, htail⟩
  · cases as with
    | nil => exact ⟨(List.append_nil xs).symm, (List.cons.inj htail).2⟩
    | cons a as =>
      have hus : us = as ++ sep :: vs := (List.cons.inj htail).2
      exact absurd (hus ▸ List.mem_append_right as List.mem_cons_self) hu
  · cases as with
    | nil => exact ⟨List.append_nil ys, (List.cons.inj htail).2.symm⟩
    | cons a as =>
      have hvs : vs = as ++ sep :: us := (List.cons.inj htail).2
      exact absurd (hvs ▸ List.mem_append_right as List.mem_cons_self) hv

/-- A positive number, by the text a template makes of it: no number has a `_` in it. -/
structure Hours where
  text : String
  plain : '_' ∉ text.toList
  deriving DecidableEq

namespace Hours

def day : Hours := ⟨"24", by decide⟩

def hrs (hours : Hours) : String := hours.text ++ "hrs"

theorem hrs_inj {hours hours' : Hours} : hours.hrs = hours'.hrs ↔ hours = hours' := by
  cases hours
  cases hours'
  simp only [hrs, String.append_left_inj, mk.injEq]

theorem sep_notMem_hrs (hours : Hours) : '_' ∉ hours.hrs.toList := by
  rw [hrs, String.toList_append, List.mem_append, not_or]
  exact ⟨hours.plain, by decide⟩

theorem hrs_ne_all (hours : Hours) : hours.hrs ≠ "all" := by
  intro h
  have hlast := congrArg (fun text : String => text.toList.getLast?) h
  simp only [hrs, String.toList_append] at hlast
  rw [List.getLast?_append_of_ne_nil _ (by decide)] at hlast
  exact absurd hlast (by decide)

end Hours

namespace DataController

inductive Operation where
  | calculateAPR
  | calculateTotalFeesPaid
  | fetchCachedPairState
  | calculateSwapVolume
  | getSwapVolume
  | getFeePaid
  | getAPR
  | getPoolInfo
  deriving DecidableEq

/-- The fixed text that the keys of the operation begin with. -/
def Operation.label : Operation → String
  | calculateAPR => "apr_calc_"
  | calculateTotalFeesPaid => "fees_calc_"
  | fetchCachedPairState => "pair_state_"
  | calculateSwapVolume => "swap_volume_calc_"
  | getSwapVolume => "swap_volume_"
  | getFeePaid => "fee_paid_"
  | getAPR => "apr_data_"
  | getPoolInfo => "pool_info_"

/-- One label only begins with another. -/
theorem Operation.eq_of_label {o o' : Operation} (h : o.label.toList <+: o'.label.toList) :
    o = o' ∨ o = getSwapVolume ∧ o' = calculateSwapVolume := by
  revert h
  cases o <;> cases o' <;> decide +kernel

/-- What `DataController` computes through the cache.  The query of `fetchCachedPairState`
is a call of `PairStateService`, whose own cache of simulations is not part of it. -/
inductive Computation where
  | calculateAPR (pairAddress : String)
  | calculateTotalFeesPaid (pairAddress : String) (hours : Option Hours)
  | fetchCachedPairState (pairAddress : String)
  | calculateSwapVolume (pairAddress : String) (hours : Hours)
  | getSwapVolume (pairAddress : String) (hours : Hours)
  | getFeePaid (pairAddress : String) (hours : Hours)
  | getAPR (pairAddress : String)
  | getPoolInfo (pairAddress : String)
  deriving DecidableEq

namespace Computation

def cacheKey : Computation → String
  | calculateAPR pairAddress => "apr_calc_" ++ pairAddress
  | calculateTotalFeesPaid pairAddress hours =>
    "fees_calc_" ++ (pairAddress ++ "_" ++ hours.elim "all" Hours.hrs)
  | fetchCachedPairState pairAddress => "pair_state_" ++ pairAddress
  | calculateSwapVolume pairAddress hours =>
    "swap_volume_calc_" ++ (pairAddress ++ "_" ++ hours.hrs)
  | getSwapVolume pairAddress hours => "swap_volume_" ++ (pairAddress ++ "_" ++ hours.hrs)
  | getFeePaid pairAddress hours => "fee_paid_" ++ (pairAddress ++ "_" ++ hours.hrs)
  | getAPR pairAddress => "apr_data_" ++ pairAddress
  | getPoolInfo pairAddress => "pool_info_" ++ pairAddress

/-- How long the result is cached, in milliseconds. -/
def ttl : Computation → Int
  | calculateAPR _ => 5 * 60 * 1000
  | calculateTotalFeesPaid _ _ => 1 * 60 * 1000
  | fetchCachedPairState _ => 5 * 1000
  | calculateSwapVolume _ _ => 10 * 1000
  | getSwapVolume _ _ => 15 * 1000
  | getFeePaid _ _ => 15 * 1000
  | getAPR _ => 10 * 1000
  | getPoolInfo _ => 5 * 1000

/-- The computation whose result this one extends; the others make a query of their own. -/
def extends? : Computation → Option Computation
  | getFeePaid pairAddress hours => some (calculateTotalFeesPaid pairAddress (some hours))
  | getAPR pairAddress => some (calculateAPR pairAddress)
  | _ => none

/-- What is extended makes a query. -/
theorem extends?_of_extends? {c inner : Computation} (h : c.extends? = some inner) :
    inner.extends? = none := by
  cases c <;> cases h <;> rfl

def operation : Computation → Operation
  | calculateAPR _ => .calculateAPR
  | calculateTotalFeesPaid _ _ => .calculateTotalFeesPaid
  | fetchCachedPairState _ => .fetchCachedPairState
  | calculateSwapVolume _ _ => .calculateSwapVolume
  | getSwapVolume _ _ => .getSwapVolume
  | getFeePaid _ _ => .getFeePaid
  | getAPR _ => .getAPR
  | getPoolInfo _ => .getPoolInfo

theorem cacheKey_eq_label_append (c : Computation) :
    ∃ rest, c.cacheKey = c.operation.label ++ rest := by
  cases c <;> exact ⟨_, rfl⟩

theorem label_prefix_cacheKey (c : Computation) :
    c.operation.label.toList <+: c.cacheKey.toList := by
  obtain ⟨rest, hrest⟩ := cacheKey_eq_label_append c
  rw [hrest, String.toList_append]
  exact List.prefix_append _ _

/-- Keys that are equal belong to one operation or to the two volumes. -/
theorem operation_of_cacheKey {c c' : Computation} (h : c.cacheKey = c'.cacheKey) :
    c.operation = c'.operation ∨
      c.operation = .getSwapVolume ∧ c'.operation = .calculateSwapVolume ∨
      c.operation = .calculateSwapVolume ∧ c'.operation = .getSwapVolume := by
  have hc := label_prefix_cacheKey c
  rw [h] at hc
  rcases List.prefix_or_prefix_of_prefix hc (label_prefix_cacheKey c') with hpre | hpre
  · exact (Operation.eq_of_label hpre).imp_right Or.inl
  · exact (Operation.eq_of_label hpre).imp Eq.symm fun h => Or.inr h.symm

/-- Of the texts around a `_` that is the last one, each is determined. -/
theorem append_sep_inj {pre pre' post post' : String} (hpost : '_' ∉ post.toList)
    (hpost' : '_' ∉ post'.toList) (h : pre ++ "_" ++ post = pre' ++ "_" ++ post') :
    pre = pre' ∧ post = post' := by
  have hlist := congrArg String.toList h
  simp only [String.toList_append, List.append_assoc] at hlist
  obtain ⟨hpre, hpost⟩ := append_cons_inj_of_last hpost hpost' hlist
  exact ⟨String.toList_inj.mp hpre, String.toList_inj.mp hpost⟩

theorem sep_notMem_period (hours : Option Hours) :
    '_' ∉ (hours.elim "all" Hours.hrs).toList := by
  cases hours with
  | none => decide
  | some hours => exact hours.sep_notMem_hrs

theorem period_inj {hours hours' : Option Hours}
    (h : hours.elim "all" Hours.hrs = hours'.elim "all" Hours.hrs) : hours = hours' := by
  cases hours with
  | none =>
    cases hours' with
    | none => rfl
    | some hours' => exact absurd h.symm hours'.hrs_ne_all
  | some hours =>
    cases hours' with
    | none => exact absurd h hours.hrs_ne_all
    | some hours' => exact congrArg some (Hours.hrs_inj.mp h)

theorem window_inj {pairAddress pairAddress' : String} {hours hours' : Hours}
    (h : pairAddress ++ "_" ++ hours.hrs = pairAddress' ++ "_" ++ hours'.hrs) :
    pairAddress = pairAddress' ∧ hours = hours' := by
  obtain ⟨hpair, hhours⟩ := append_sep_inj hours.sep_notMem_hrs hours'.sep_notMem_hrs h
  exact ⟨hpair, Hours.hrs_inj.mp hhours⟩

/-- Within an operation the key determines the pair address and the hours. -/
theorem eq_of_cacheKey {c c' : Computation} (hop : c.operation = c'.operation)
    (h : c.cacheKey = c'.cacheKey) : c = c' := by
  cases c <;> cases c' <;> simp only [operation, reduceCtorEq] at hop <;>
    replace h := (String.append_right_inj _).mp h
  case calculateTotalFeesPaid.calculateTotalFeesPaid =>
    obtain ⟨rfl, hhours⟩ := append_sep_inj (sep_notMem_period _) (sep_notMem_period _) h
    rw [period_inj hhours]
  case calculateSwapVolume.calculateSwapVolume | getSwapVolume.getSwapVolume |
      getFeePaid.getFeePaid =>
    obtain ⟨rfl, rfl⟩ := window_inj h
    rfl
  all_goals rw [h]

/-- The volume of the pools list and the volume that the endpoint serves for `calc_` and
the address of the pool. -/
def Aliases (c c' : Computation) : Prop :=
  ∃ pairAddress hours, c = calculateSwapVolume pairAddress hours ∧
    c' = getSwapVolume ("calc_" ++ pairAddress) hours

theorem calculateSwapVolume_key (pairAddress rest : String) :
    "swap_volume_calc_" ++ (pairAddress ++ "_" ++ rest) =
      "swap_volume_" ++ ("calc_" ++ pairAddress ++ "_" ++ rest) := by
  have hlabel : "swap_volume_calc_" = "swap_volume_" ++ "calc_" := by decide +kernel
  rw [hlabel]
  simp only [String.append_assoc]

theorem aliases_of_cacheKey {c c' : Computation} (hc : c.operation = .calculateSwapVolume)
    (hc' : c'.operation = .getSwapVolume) (h : c.cacheKey = c'.cacheKey) : Aliases c c' := by
  cases c <;> simp only [operation, reduceCtorEq] at hc
  rename_i pairAddress hours
  cases c' <;> simp only [operation, reduceCtorEq] at hc'
  rename_i pairAddress' hours'
  change "swap_volume_calc_" ++ _ = "swap_volume_" ++ _ at h
  rw [calculateSwapVolume_key, String.append_right_inj] at h
  obtain ⟨rfl, rfl⟩ := window_inj h
  exact ⟨pairAddress, hours, rfl, rfl⟩

theorem Aliases.cacheKey_eq {c c' : Computation} (h : Aliases c c') :
    c.cacheKey = c'.cacheKey := by
  obtain ⟨pairAddress, hours, rfl, rfl⟩ := h
  exact calculateSwapVolume_key pairAddress hours.hrs

/-- What the keys do not tell apart. -/
theorem cacheKey_eq_iff {c c' : Computation} :
    c.cacheKey = c'.cacheKey ↔ c = c' ∨ Aliases c c' ∨ Aliases c' c := by
  constructor
  · intro h
    rcases operation_of_cacheKey h with hop | ⟨hc, hc'⟩ | ⟨hc, hc'⟩
    · exact Or.inl (eq_of_cacheKey hop h)
    · exact Or.inr (Or.inr (aliases_of_cacheKey hc' hc h.symm))
    · exact Or.inr (Or.inl (aliases_of_cacheKey hc hc' h))
  · rintro (rfl | h | h)
    · rfl
    · exact h.cacheKey_eq
    · exact h.cacheKey_eq.symm

end Computation

/-! ## Requests -/

/-- The requests that are answered through the cache.  The hours are what `parseInt`
makes of the parameter, which is `24` by default, if it is a positive number; the pools
are those of the page. -/
inductive Request where
  | getPools (pairAddresses : List String)
  | getAPR (pairAddress : String)
  | getSwapVolume (pairAddress : String) (hours : Option Hours)
  | getFeePaid (pairAddress : String) (hours : Option Hours)
  | getPoolInfo (pairAddress : String)
  deriving DecidableEq

namespace Request

/-- What the pools list computes for a pool. -/
def ofPool (pairAddress : String) : List Computation :=
  [.fetchCachedPairState pairAddress, .calculateAPR pairAddress,
    .calculateTotalFeesPaid pairAddress none, .calculateSwapVolume pairAddress .day]

/-- What is left of a request after the checks that answer 400. -/
def calls : Request → List Computation
  | getPools pairAddresses => pairAddresses.flatMap ofPool
  | getAPR pairAddress => if pairAddress = "" then [] else [.getAPR pairAddress]
  | getSwapVolume pairAddress hours =>
    if pairAddress = "" then [] else (hours.map (Computation.getSwapVolume pairAddress)).toList
  | getFeePaid pairAddress hours =>
    if pairAddress = "" then [] else (hours.map (Computation.getFeePaid pairAddress)).toList
  | getPoolInfo pairAddress => if pairAddress = "" then [] else [.getPoolInfo pairAddress]

/-- The pools of the list. -/
def pools : Request → List String
  | getPools pairAddresses => pairAddresses
  | _ => []

end Request

section Requests

variable (requests : List Request)

/-- Every computation that the requests make through the cache. -/
def cached : List Computation :=
  (requests.flatMap Request.calls).flatMap fun c => c :: c.extends?.toList

/-- No two of the computations share a key. -/
def KeysDistinct : Prop :=
  ∀ c ∈ cached requests, ∀ c' ∈ cached requests, c.cacheKey = c'.cacheKey → c = c'

/-- Nobody asks the 24 hours volume of `calc_` and the address of a pool of the list. -/
def Separate : Prop :=
  ∀ request ∈ requests, ∀ pairAddress ∈ request.pools,
    Request.getSwapVolume ("calc_" ++ pairAddress) (some .day) ∉ requests

end Requests

section Calls

variable {requests : List Request} {pairAddress : String} {hours : Hours}

theorem mem_cached {c : Computation} :
    c ∈ cached requests ↔ ∃ request ∈ requests, ∃ call ∈ request.calls,
      c = call ∨ call.extends? = some c := by
  simp only [cached, List.mem_flatMap, List.mem_cons, Option.mem_toList]
  constructor
  · rintro ⟨call, ⟨request, hrequest, hcall⟩, hc⟩
    exact ⟨request, hrequest, call, hcall, hc⟩
  · rintro ⟨request, hrequest, call, hcall, hc⟩
    exact ⟨call, ⟨request, hrequest, hcall⟩, hc⟩

theorem mem_calls_volume {request : Request} :
    Computation.calculateSwapVolume pairAddress hours ∈ request.calls ↔
      pairAddress ∈ request.pools ∧ hours = .day := by
  cases request <;> simp only [Request.calls, Request.pools, List.not_mem_nil, false_and]
  case getPools pairAddresses =>
    simp only [List.mem_flatMap, Request.ofPool, List.mem_cons, reduceCtorEq,
      Computation.calculateSwapVolume.injEq, List.not_mem_nil, or_false, false_or]
    constructor
    · rintro ⟨pool, hpool, rfl, rfl⟩
      exact ⟨hpool, rfl⟩
    · rintro ⟨hpool, rfl⟩
      exact ⟨pairAddress, hpool, rfl, rfl⟩
  all_goals split <;> simp

theorem mem_calls_getSwapVolume {request : Request} :
    Computation.getSwapVolume pairAddress hours ∈ request.calls ↔
      pairAddress ≠ "" ∧ request = .getSwapVolume pairAddress (some hours) := by
  cases request <;> simp only [Request.calls, reduceCtorEq, and_false, iff_false]
  case getPools pairAddresses =>
    simp [List.mem_flatMap, Request.ofPool]
  case getSwapVolume pairAddress' hours' =>
    split <;> rename_i hempty
    · simp only [List.not_mem_nil, Request.getSwapVolume.injEq, false_iff, not_and]
      rintro hne rfl
      exact absurd hempty hne
    · simp only [Option.mem_toList, Option.map_eq_some_iff, Request.getSwapVolume.injEq,
        Computation.getSwapVolume.injEq]
      constructor
      · rintro ⟨_, rfl, rfl, rfl⟩
        exact ⟨hempty, rfl, rfl⟩
      · rintro ⟨-, rfl, rfl⟩
        exact ⟨hours, rfl, rfl, rfl⟩
  all_goals split <;> simp

theorem mem_cached_volume :
    Computation.calculateSwapVolume pairAddress hours ∈ cached requests ↔
      (∃ request ∈ requests, pairAddress ∈ request.pools) ∧ hours = .day := by
  rw [mem_cached]
  constructor
  · rintro ⟨request, hrequest, call, hcall, rfl | hextends⟩
    · obtain ⟨hpool, hhours⟩ := mem_calls_volume.mp hcall
      exact ⟨⟨request, hrequest, hpool⟩, hhours⟩
    · cases call <;> cases hextends
  · rintro ⟨⟨request, hrequest, hpool⟩, hhours⟩
    exact ⟨request, hrequest, _, mem_calls_volume.mpr ⟨hpool, hhours⟩, Or.inl rfl⟩

theorem mem_cached_getSwapVolume :
    Computation.getSwapVolume pairAddress hours ∈ cached requests ↔
      pairAddress ≠ "" ∧ Request.getSwapVolume pairAddress (some hours) ∈ requests := by
  rw [mem_cached]
  constructor
  · rintro ⟨request, hrequest, call, hcall, rfl | hextends⟩
    · obtain ⟨hpair, rfl⟩ := mem_calls_getSwapVolume.mp hcall
      exact ⟨hpair, hrequest⟩
    · cases call <;> cases hextends
  · rintro ⟨hpair, hrequest⟩
    exact ⟨_, hrequest, _, mem_calls_getSwapVolume.mpr ⟨hpair, rfl⟩, Or.inl rfl⟩

theorem calc_append_ne_empty (pairAddress : String) : "calc_" ++ pairAddress ≠ "" := by
  intro h
  rw [String.append_eq_empty_iff] at h
  exact absurd h.1 (by decide)

/-- The pools and the requests whose volumes share a key. -/
theorem not_separate_iff : ¬ Separate requests ↔
    ∃ c ∈ cached requests, ∃ c' ∈ cached requests, Computation.Aliases c c' := by
  unfold Separate
  push Not
  constructor
  · rintro ⟨request, hrequest, pairAddress, hpool, hvolume⟩
    exact ⟨_, mem_cached_volume.mpr ⟨⟨request, hrequest, hpool⟩, rfl⟩,
      _, mem_cached_getSwapVolume.mpr ⟨calc_append_ne_empty pairAddress, hvolume⟩,
      pairAddress, .day, rfl, rfl⟩
  · rintro ⟨_, hc, _, hc', pairAddress, hours, rfl, rfl⟩
    obtain ⟨⟨request, hrequest, hpool⟩, rfl⟩ := mem_cached_volume.mp hc
    exact ⟨request, hrequest, pairAddress, hpool, (mem_cached_getSwapVolume.mp hc').2⟩

theorem keysDistinct_iff : KeysDistinct requests ↔ Separate requests := by
  constructor
  · intro hkeys
    by_contra hseparate
    obtain ⟨c, hc, c', hc', halias⟩ := not_separate_iff.mp hseparate
    have heq := hkeys c hc c' hc' halias.cacheKey_eq
    obtain ⟨pairAddress, hours, rfl, rfl⟩ := halias
    cases heq
  · intro hseparate c hc c' hc' hkey
    by_contra hne
    refine not_separate_iff.mpr ?_ hseparate
    rcases Computation.cacheKey_eq_iff.mp hkey with heq | halias | halias
    · exact absurd heq hne
    · exact ⟨c, hc, c', hc', halias⟩
    · exact ⟨c', hc', c, hc, halias⟩

end Calls

/-! ## Runs -/

/-- What a computation gives: from the answer of its query, or from the result it extends. -/
inductive Data (σ : Type) where
  | queried (source : Computation) (answer : σ)
  | extended (source : Computation) (data : Data σ)

variable {σ : Type}

/-- The data is a result of `c`, all the way down. -/
def Data.IsOf : Data σ → Computation → Prop
  | queried source _, c => source = c ∧ c.extends? = none
  | extended source data, c => source = c ∧ ∃ inner, c.extends? = some inner ∧ data.IsOf inner

/-- A computation that missed, while it awaits what it needs. -/
inductive Job (σ : Type) where
  | querying (c : Computation) (caller : Option Computation)
  | extending (c : Computation) (data : Data σ)

namespace Requests

structure State (σ : Type) where
  cache : SimpleCache (Data σ)
  jobs : List (Job σ)
  /-- What each computation answered, to a request or to the one that extends it. -/
  answers : List (Computation × Data σ)

def start : State σ := ⟨.empty, [], []⟩

/-- `now` is what `Date.now()` reads in the step. -/
inductive Action (σ : Type) where
  | call (c : Computation) (now : Int)
  | queryAnswers (job : Nat) (answer : σ) (now : Int)
  | queryFails (job : Nat)
  | extend (job : Nat) (now : Int)
  | cleanup (now : Int)

namespace State

def answer (s : State σ) (c : Computation) (caller : Option Computation) (data : Data σ) :
    State σ :=
  { s with
    jobs := s.jobs ++ (caller.map (Job.extending · data)).toList
    answers := s.answers ++ [(c, data)] }

/-- `cache.get`, and on a miss what the computation does before it first awaits. -/
def lookup (s : State σ) (c : Computation) (caller : Option Computation) (now : Int)
    (miss : State σ → State σ) : State σ :=
  match s.cache.get c.cacheKey now with
  | (some data, cache) => { s with cache := cache }.answer c caller data
  | (none, cache) => miss { s with cache := cache }

def query (s : State σ) (c : Computation) (caller : Option Computation) : State σ :=
  { s with jobs := s.jobs ++ [.querying c caller] }

def store (s : State σ) (c : Computation) (data : Data σ) (now : Int) : State σ :=
  { s with cache := s.cache.set c.cacheKey data c.ttl now }

def finish (s : State σ) (job : Nat) : State σ := { s with jobs := s.jobs.eraseIdx job }

end State

def step (requests : List Request) (s : State σ) : Action σ → Option (State σ)
  | .call c now =>
    if c ∈ requests.flatMap Request.calls then
      some <| s.lookup c none now fun s =>
        match c.extends? with
        | none => s.query c none
        | some inner => s.lookup inner (some c) now fun s => s.query inner (some c)
    else none
  | .queryAnswers job answer now =>
    match s.jobs[job]? with
    | some (.querying c caller) =>
      some (((s.finish job).store c (.queried c answer) now).answer c caller (.queried c answer))
    | _ => none
  | .queryFails job =>
    match s.jobs[job]? with
    | some (.querying _ _) => some (s.finish job)
    | _ => none
  | .extend job now =>
    match s.jobs[job]? with
    | some (.extending c data) =>
      some (((s.finish job).store c (.extended c data) now).answer c none (.extended c data))
    | _ => none
  | .cleanup now => some { s with cache := s.cache.cleanup now }

/-! ### What the runs keep when the keys are distinct -/

section Invariant

variable (requests : List Request)

def Valid : Job σ → Prop
  | .querying c caller => c ∈ cached requests ∧ c.extends? = none ∧
    ∀ outer ∈ caller, outer ∈ cached requests ∧ outer.extends? = some c
  | .extending c data => c ∈ cached requests ∧ ∃ inner, c.extends? = some inner ∧ data.IsOf inner

structure Inv (s : State σ) : Prop where
  cache : s.cache.Holds fun key data => ∃ c ∈ cached requests, c.cacheKey = key ∧ data.IsOf c
  jobs : ∀ job ∈ s.jobs, Valid requests job
  answers : ∀ a ∈ s.answers, a.2.IsOf a.1

end Invariant

variable {requests : List Request} {s t : State σ} {c : Computation}
  {caller : Option Computation} {data : Data σ} {now : Int}

theorem inv_start : Inv requests (start : State σ) :=
  ⟨SimpleCache.holds_empty, fun _ h => absurd h List.not_mem_nil,
    fun _ h => absurd h List.not_mem_nil⟩

theorem no_caller : ∀ outer ∈ (none : Option Computation),
    outer ∈ cached requests ∧ outer.extends? = some c :=
  fun _ h => nomatch h

theorem Inv.answer (h : Inv requests s) (hdata : data.IsOf c)
    (hcaller : ∀ outer ∈ caller, outer ∈ cached requests ∧ outer.extends? = some c) :
    Inv requests (s.answer c caller data) where
  cache := h.cache
  jobs job hjob := by
    rcases List.mem_append.mp hjob with hjob | hjob
    · exact h.jobs job hjob
    · obtain ⟨outer, houter, rfl⟩ := Option.map_eq_some_iff.mp (Option.mem_toList.mp hjob)
      obtain ⟨hmem, hextends⟩ := hcaller outer houter
      exact ⟨hmem, c, hextends, hdata⟩
  answers a ha := by
    rcases List.mem_append.mp ha with ha | ha
    · exact h.answers a ha
    · rw [List.mem_singleton.mp ha]
      exact hdata

theorem Inv.query (h : Inv requests s) (hc : c ∈ cached requests) (hquery : c.extends? = none)
    (hcaller : ∀ outer ∈ caller, outer ∈ cached requests ∧ outer.extends? = some c) :
    Inv requests (s.query c caller) where
  cache := h.cache
  jobs job hjob := by
    rcases List.mem_append.mp hjob with hjob | hjob
    · exact h.jobs job hjob
    · rw [List.mem_singleton.mp hjob]
      exact ⟨hc, hquery, hcaller⟩
  answers := h.answers

theorem Inv.store (h : Inv requests s) (hc : c ∈ cached requests) (hdata : data.IsOf c) :
    Inv requests (s.store c data now) :=
  { h with cache := h.cache.set ⟨c, hc, rfl, hdata⟩ }

theorem Inv.finish (h : Inv requests s) (job : Nat) : Inv requests (s.finish job) :=
  { h with jobs := fun j hj => h.jobs j (List.mem_of_mem_eraseIdx hj) }

/-- The entry that a computation finds under its key is its own. -/
theorem Inv.lookup (hkeys : KeysDistinct requests) (h : Inv requests s) (hc : c ∈ cached requests)
    (hcaller : ∀ outer ∈ caller, outer ∈ cached requests ∧ outer.extends? = some c)
    {miss : State σ → State σ} (hmiss : ∀ u, Inv requests u → Inv requests (miss u)) :
    Inv requests (s.lookup c caller now miss) := by
  have hcache : (s.cache.get c.cacheKey now).2.Holds _ := h.cache.get
  unfold State.lookup
  split
  · rename_i data cache hget
    rw [hget] at hcache
    obtain ⟨c', hc', hkey, hdata⟩ := h.cache.of_get (congrArg Prod.fst hget)
    obtain rfl := hkeys c' hc' c hc hkey
    exact Inv.answer { h with cache := hcache } hdata hcaller
  · rename_i cache hget
    rw [hget] at hcache
    exact hmiss _ { h with cache := hcache }

/-- A call of a computation, and of the one it extends. -/
theorem Inv.call (hkeys : KeysDistinct requests) (h : Inv requests s)
    (hcall : c ∈ requests.flatMap Request.calls) :
    Inv requests (s.lookup c none now fun s =>
      match c.extends? with
      | none => s.query c none
      | some inner => s.lookup inner (some c) now fun s => s.query inner (some c)) := by
  obtain ⟨request, hrequest, hcall⟩ := List.mem_flatMap.mp hcall
  have hc : c ∈ cached requests := mem_cached.mpr ⟨request, hrequest, c, hcall, Or.inl rfl⟩
  refine h.lookup hkeys hc no_caller fun u hu => ?_
  split
  · rename_i hquery
    exact hu.query hc hquery no_caller
  · rename_i inner hextends
    have hinner : inner ∈ cached requests :=
      mem_cached.mpr ⟨request, hrequest, c, hcall, Or.inr hextends⟩
    have hcaller : ∀ outer ∈ some c, outer ∈ cached requests ∧ outer.extends? = some inner := by
      intro outer houter
      obtain rfl := Option.mem_some_iff.mp houter
      exact ⟨hc, hextends⟩
    exact hu.lookup hkeys hinner hcaller fun v hv =>
      hv.query hinner (c.extends?_of_extends? hextends) hcaller

/-- A job that has what it awaits stores a result of its own and answers with it. -/
theorem Inv.complete (h : Inv requests s) (job : Nat) (hc : c ∈ cached requests)
    (hdata : data.IsOf c)
    (hcaller : ∀ outer ∈ caller, outer ∈ cached requests ∧ outer.extends? = some c) :
    Inv requests (((s.finish job).store c data now).answer c caller data) :=
  ((h.finish job).store hc hdata).answer hdata hcaller

theorem Inv.step (hkeys : KeysDistinct requests) {a : Action σ} (h : Inv requests s)
    (hstep : step requests s a = some t) : Inv requests t := by
  cases a with
  | call c now =>
    rw [Requests.step] at hstep
    split at hstep
    · rename_i hcall
      cases hstep
      exact h.call hkeys hcall
    · cases hstep
  | queryAnswers job answer now =>
    rw [Requests.step] at hstep
    split at hstep
    · rename_i c caller hjob
      cases hstep
      obtain ⟨hc, hquery, hcaller⟩ := h.jobs _ (List.mem_of_getElem? hjob)
      exact h.complete job hc ⟨rfl, hquery⟩ hcaller
    · cases hstep
  | queryFails job =>
    rw [Requests.step] at hstep
    split at hstep
    · cases hstep
      exact h.finish job
    · cases hstep
  | extend job now =>
    rw [Requests.step] at hstep
    split at hstep
    · rename_i c data hjob
      cases hstep
      obtain ⟨hc, hinner⟩ := h.jobs _ (List.mem_of_getElem? hjob)
      exact h.complete job hc ⟨rfl, hinner⟩ no_caller
    · cases hstep
  | cleanup now =>
    cases hstep
    exact { h with cache := h.cache.cleanup }

theorem Inv.run (hkeys : KeysDistinct requests) {as : List (Action σ)}
    (hrun : run (Requests.step requests) start as = some t) : Inv requests t :=
  run_preserves (fun _ _ _ hs ht => hs.step hkeys ht) inv_start hrun

/-! ### Answers from the entries of others -/

section Poisoned

variable {c' : Computation}

/-- The state after `c` has been called and its query has answered. -/
def stored (c : Computation) (answer : σ) : State σ :=
  ⟨SimpleCache.empty.set c.cacheKey (.queried c answer) c.ttl 0, [], [(c, .queried c answer)]⟩

theorem run_stored (hc : c ∈ requests.flatMap Request.calls) (hquery : c.extends? = none)
    (answer : σ) :
    run (step requests) start [.call c 0, .queryAnswers 0 answer 0] = some (stored c answer) := by
  have hcall : step requests (start : State σ) (.call c 0) =
      some ⟨.empty, [.querying c none], []⟩ := by
    rw [step, if_pos hc, hquery]
    rfl
  rw [run_cons, hcall]
  rfl

/-- A computation with the same key answers from the entry as long as it lives. -/
theorem run_poisoned (hc : c ∈ requests.flatMap Request.calls)
    (hc' : c' ∈ requests.flatMap Request.calls) (hquery : c.extends? = none)
    (hkey : c.cacheKey = c'.cacheKey) (answer : σ) (hnow : now ≤ c.ttl) :
    ∃ s, run (step requests) start [.call c 0, .queryAnswers 0 answer 0, .call c' now] = some s ∧
      (c', Data.queried c answer) ∈ s.answers := by
  refine ⟨(stored c answer).answer c' none (.queried c answer), ?_,
    List.mem_append_right _ List.mem_cons_self⟩
  have hget : (stored c answer).cache.get c'.cacheKey now =
      (some (.queried c answer), (stored c answer).cache) := by
    rw [← hkey]
    exact SimpleCache.get_set (by omega)
  have hcall : step requests (stored c answer) (.call c' now) =
      some ((stored c answer).answer c' none (.queried c answer)) := by
    rw [step, if_pos hc', State.lookup, hget]
  exact run_concat_eq_some.mpr ⟨_, run_stored hc hquery answer, hcall⟩

end Poisoned

end Requests

open Requests

/-- Whenever and however often the requests are made, each computation answers with a
result of its own. -/
def OwnAnswers (σ : Type) (requests : List Request) : Prop :=
  ∀ (actions : List (Action σ)) s, run (step requests) start actions = some s →
    ∀ a ∈ s.answers, a.2.IsOf a.1

/-- A pool of the list answers with the volume that was computed for another address. -/
theorem exists_poisoned [Inhabited σ] {requests : List Request} (h : ¬ Separate requests) :
    ∃ (actions : List (Action σ)) (s : State σ) (pairAddress : String),
      run (step requests) start actions = some s ∧
        (.calculateSwapVolume pairAddress .day,
          .queried (.getSwapVolume ("calc_" ++ pairAddress) .day) default) ∈ s.answers := by
  unfold Separate at h
  push Not at h
  obtain ⟨request, hrequest, pairAddress, hpool, hvolume⟩ := h
  have hpools : Computation.calculateSwapVolume pairAddress .day ∈
      requests.flatMap Request.calls :=
    List.mem_flatMap.mpr ⟨request, hrequest, mem_calls_volume.mpr ⟨hpool, rfl⟩⟩
  have hasked : Computation.getSwapVolume ("calc_" ++ pairAddress) .day ∈
      requests.flatMap Request.calls :=
    List.mem_flatMap.mpr ⟨_, hvolume,
      mem_calls_getSwapVolume.mpr ⟨calc_append_ne_empty pairAddress, rfl⟩⟩
  have hkey := Computation.Aliases.cacheKey_eq ⟨pairAddress, .day, rfl, rfl⟩
  obtain ⟨s, hrun, hanswer⟩ := run_poisoned hasked hpools rfl hkey.symm (default : σ)
    (show (0 : Int) ≤ 15 * 1000 by omega)
  exact ⟨_, s, pairAddress, hrun, hanswer⟩

theorem not_ownAnswers [Inhabited σ] {requests : List Request} (h : ¬ Separate requests) :
    ¬ OwnAnswers σ requests := by
  intro hown
  obtain ⟨actions, s, pairAddress, hrun, hanswer⟩ := exists_poisoned (σ := σ) h
  have hsource := (hown actions s hrun _ hanswer).1
  cases hsource

/-- The requests have keys of their own, and get answers of their own, exactly if nobody
asks the 24 hours volume of `calc_` and the address of a listed pool. -/
theorem own_answers_iff [Inhabited σ] (requests : List Request) :
    (KeysDistinct requests ↔ Separate requests) ∧ (OwnAnswers σ requests ↔ Separate requests) := by
  refine ⟨keysDistinct_iff, fun hown => ?_, fun hseparate actions s hrun => ?_⟩
  · by_contra hseparate
    exact not_ownAnswers hseparate hown
  · exact (Inv.run (keysDistinct_iff.mpr hseparate) hrun).answers

/-- The volume of `calc_` and the address of a pool, and then the list with the pool. -/
def calcRequests (pairAddress : String) : List Request :=
  [.getSwapVolume ("calc_" ++ pairAddress) (some .day), .getPools [pairAddress]]

theorem not_separate_calcRequests (pairAddress : String) :
    ¬ Separate (calcRequests pairAddress) := by
  intro hseparate
  have hlisted : Request.getPools [pairAddress] ∈ calcRequests pairAddress :=
    List.mem_cons_of_mem _ List.mem_cons_self
  exact hseparate _ hlisted pairAddress List.mem_cons_self List.mem_cons_self

/-- Nine seconds after the volume of `calc_8hHk` was asked, the list shows it as the
volume of the pool `8hHk`. -/
theorem pool_with_volume_of_another :
    ¬ KeysDistinct (calcRequests "8hHk") ∧ ¬ OwnAnswers Nat (calcRequests "8hHk") ∧
      ∃ s, run (step (calcRequests "8hHk")) start
        [.call (.getSwapVolume "calc_8hHk" .day) 0, .queryAnswers 0 0 0,
          .call (.calculateSwapVolume "8hHk" .day) 9000] = some s ∧
        (.calculateSwapVolume "8hHk" .day, .queried (.getSwapVolume "calc_8hHk" .day) 0) ∈
          s.answers := by
  have hnot := not_separate_calcRequests "8hHk"
  refine ⟨fun h => hnot (keysDistinct_iff.mp h), not_ownAnswers hnot, ?_⟩
  · have haddress : "calc_8hHk" = "calc_" ++ "8hHk" := by decide +kernel
    rw [haddress]
    refine run_poisoned ?_ ?_ rfl (Computation.calculateSwapVolume_key "8hHk" _).symm 0
      (show (9000 : Int) ≤ 15 * 1000 by omega)
    · exact List.mem_flatMap.mpr ⟨_, List.mem_cons_self,
        mem_calls_getSwapVolume.mpr ⟨calc_append_ne_empty "8hHk", rfl⟩⟩
    · exact List.mem_flatMap.mpr ⟨_, List.mem_cons_of_mem _ List.mem_cons_self,
        mem_calls_volume.mpr ⟨List.mem_cons_self, rfl⟩⟩

end DataController

end OmnipairIndexer
