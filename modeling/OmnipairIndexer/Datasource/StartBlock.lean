/-
From `START_BLOCK` to the crawler's `until_signature`.

`find_signature_at_slot` goes back through the signatures, at most ten answers of
at most a thousand, and takes the first one at or before the slot.  The crawler
takes it as a bound that it does not include.  `coverage_iff` says which histories
are covered from the slot on: those where the search does not come across the slot
itself.
-/
import OmnipairIndexer.Datasource.TransactionCrawler

namespace OmnipairIndexer

open Transition

/-- The signatures of a program, newest first. -/
structure History where
  infos : List SigInfo
  nodup : (infos.map SigInfo.signature).Nodup
  newestFirst : infos.Pairwise fun newer older => older.slot ≤ newer.slot

structure Filters where
  beforeSignature : Option String
  untilSignature : Option String

structure RpcTransactionCrawler where
  batchLimit : Nat
  filters : Filters

/-- What the RPC does while a crawler is created. -/
structure Rpc where
  hasBlock : Nat → Bool
  /-- The size of the answer to the search's n-th call, if the call succeeds. -/
  answer : Nat → Option Nat

namespace StartBlock

def maxAttempts : Nat := 10

def searchLimit : Nat := 1000

/-- The block's number is its slot. -/
def getSlotForBlock (rpc : Rpc) (blockNumber : Nat) : Option Nat :=
  if rpc.hasBlock blockNumber then some blockNumber else none

/-- The loop of `find_signature_at_slot`; `call` counts the attempts. -/
def findSignatureFrom (rpc : Rpc) (history : List SigInfo) (targetSlot : Nat) :
    (attempts call : Nat) → (beforeSignature : Option String) → Option String
  | 0, _, _ => none
  | attempts + 1, call, beforeSignature =>
    match rpc.answer call with
    | none => none
    | some size =>
      match getSignatures history beforeSignature none searchLimit size with
      | [] => none
      | first :: rest =>
        match (first :: rest).find? fun info => info.slot ≤ targetSlot with
        | some info => some info.signature
        | none =>
          findSignatureFrom rpc history targetSlot attempts (call + 1)
            ((first :: rest).getLast?.map SigInfo.signature)

def findSignatureAtSlot (rpc : Rpc) (history : History) (targetSlot : Nat) : Option String :=
  findSignatureFrom rpc history.infos targetSlot maxAttempts 0 none

def untilSignature (rpc : Rpc) (history : History) (startBlock : Option Nat) : Option String :=
  match startBlock with
  | none => none
  | some blockNumber =>
    if blockNumber = 0 then none
    else (getSlotForBlock rpc blockNumber).bind (findSignatureAtSlot rpc history)

def createTransactionCrawlerDatasource (rpc : Rpc) (history : History)
    (startBlock : Option Nat) : RpcTransactionCrawler where
  batchLimit := 100
  filters := ⟨none, untilSignature rpc history startBlock⟩

/-- How many signatures answers from `call` on bring, up to the first that fails. -/
def depthFrom (rpc : Rpc) : (attempts call : Nat) → Nat
  | 0, _ => 0
  | attempts + 1, call =>
    match rpc.answer call with
    | none => 0
    | some size => min (max size 1) searchLimit + depthFrom rpc attempts (call + 1)

/-- How far back the search can look: ten thousand signatures if every answer is full. -/
def searchDepth (rpc : Rpc) : Nat := depthFrom rpc maxAttempts 0

/-! ## The search -/

variable {rpc : Rpc} {targetSlot : Nat}

/-- The search from the part of the history behind `seen`. -/
theorem findSignatureFrom_eq (attempts call : Nat) {seen rest : List SigInfo}
    (hnodup : ((seen ++ rest).map SigInfo.signature).Nodup) :
    findSignatureFrom rpc (seen ++ rest) targetSlot attempts call
        (seen.getLast?.map SigInfo.signature) =
      ((rest.take (depthFrom rpc attempts call)).find? fun info =>
        info.slot ≤ targetSlot).map SigInfo.signature := by
  induction attempts generalizing call seen rest with
  | zero => simp [findSignatureFrom, depthFrom]
  | succ attempts ih =>
    rw [findSignatureFrom, depthFrom]
    cases hanswer : rpc.answer call with
    | none => simp
    | some size =>
      have hanswer : getSignatures (seen ++ rest) (seen.getLast?.map SigInfo.signature) none
          searchLimit size = rest.take (min (max size 1) searchLimit) := by
        rw [getSignatures, olderThan_getLast hnodup]
        rfl
      have hsize : 0 < min (max size 1) searchLimit := by
        simp only [searchLimit]
        omega
      simp only [hanswer]
      generalize min (max size 1) searchLimit = n at hsize
      rw [List.take_add, List.find?_append]
      cases hfirst : rest.take n with
      | nil =>
        have hrest : rest = [] := by
          cases rest with
          | nil => rfl
          | cons info rest =>
            obtain ⟨m, rfl⟩ := Nat.exists_eq_succ_of_ne_zero (Nat.ne_of_gt hsize)
            exact absurd hfirst (List.cons_ne_nil _ _)
        simp [hrest]
      | cons first more =>
        cases hfind : (first :: more).find? fun info => info.slot ≤ targetSlot with
        | some info => simp [hfind]
        | none =>
          -- The next call goes on behind the last signature of this answer.
          have hsplit : seen ++ rest = (seen ++ first :: more) ++ rest.drop n := by
            rw [List.append_assoc, ← hfirst, List.take_append_drop]
          have hlast : (first :: more).getLast? = (seen ++ first :: more).getLast? :=
            (List.getLast?_append_of_ne_nil _ (List.cons_ne_nil _ _)).symm
          rw [hsplit] at hnodup ⊢
          simp only [hlast, Option.none_or, hfind]
          exact ih (call + 1) hnodup

/-- The search takes the first signature at or before the slot, as far as it looks. -/
theorem findSignatureAtSlot_eq (rpc : Rpc) (history : History) (targetSlot : Nat) :
    findSignatureAtSlot rpc history targetSlot =
      ((history.infos.take (searchDepth rpc)).find? fun info =>
        info.slot ≤ targetSlot).map SigInfo.signature :=
  @findSignatureFrom_eq rpc targetSlot maxAttempts 0 [] history.infos history.nodup

/-! ## The crawler -/

def start (crawler : RpcTransactionCrawler) (history : History) : SignatureFetcher.State :=
  ⟨history.infos, crawler.filters.beforeSignature, crawler.filters.untilSignature, none, []⟩

/-- The signature is in the channel after enough fetches, in every run. -/
def WillSend (batchLimit : Nat) (s : SignatureFetcher.State) (sig : String) : Prop :=
  ∀ actions t, run (SignatureFetcher.step batchLimit) s actions = some t →
    2 * t.history.length ≤ SignatureFetcher.fetches actions → sig ∈ t.sent

/-- Every signature from the slot on, the ones that arrive later included, will be sent. -/
def Covers (crawler : RpcTransactionCrawler) (history : History) (slot : Nat) : Prop :=
  ∀ before u, run (SignatureFetcher.step crawler.batchLimit) (start crawler history) before =
    some u → ∀ info ∈ u.history, slot ≤ info.slot → WillSend crawler.batchLimit u info.signature

open SignatureFetcher in
theorem start_sweep {crawler : RpcTransactionCrawler} {history : History}
    {above bound : List SigInfo} (hsplit : history.infos = above ++ bound)
    (hbefore : crawler.filters.beforeSignature = none)
    (huntil : crawler.filters.untilSignature = bound.head?.map SigInfo.signature) :
    Sweep bound (start crawler history) ⟨[], [], above, []⟩ where
  history := by
    show history.infos = _
    rw [hsplit]
    simp [Parts.above]
  nodup := history.nodup
  last := hbefore
  untilSig := huntil
  mostRecent := rfl
  fresh := fun _ => rfl
  sent := List.Perm.nil

theorem run_fetches (batchLimit : Nat) (s : SignatureFetcher.State) (n : Nat) :
    ∃ actions t, run (SignatureFetcher.step batchLimit) s actions = some t ∧
      t.history = s.history ∧ SignatureFetcher.fetches actions = n := by
  induction n generalizing s with
  | zero => exact ⟨[], s, rfl, rfl, rfl⟩
  | succ n ih =>
    have hstep : SignatureFetcher.step batchLimit s (.fetch 0) =
      some (s.fetched (getSignatures s.history s.lastFetchedSignature s.untilSignature batchLimit
        0)) := rfl
    obtain ⟨new, hnew, hlength⟩ := SignatureFetcher.step_history hstep
    obtain ⟨actions, t, hrun, hhistory, hfetches⟩ := ih _
    refine ⟨.fetch 0 :: actions, t, run_cons_eq_some.mpr ⟨_, hstep, hrun⟩, ?_, ?_⟩
    · rw [hhistory, hnew, List.length_eq_zero_iff.mp hlength]
      rfl
    · simp only [SignatureFetcher.fetches, List.map_cons, List.sum_cons,
        SignatureFetcher.Action.fetches] at hfetches ⊢
      omega

/-- Where the bound of the search splits the history. -/
theorem exists_bound (rpc : Rpc) (history : History) (targetSlot : Nat) :
    ∃ above bound, history.infos = above ++ bound ∧
      findSignatureAtSlot rpc history targetSlot = bound.head?.map SigInfo.signature ∧
      (∀ info ∈ above, info ∈ history.infos.take (searchDepth rpc) → targetSlot < info.slot) ∧
      ∀ info ∈ bound.head?, info ∈ history.infos.take (searchDepth rpc) ∧
        info.slot ≤ targetSlot := by
  rw [findSignatureAtSlot_eq]
  cases hfind : (history.infos.take (searchDepth rpc)).find? fun info =>
      info.slot ≤ targetSlot with
  | none =>
    refine ⟨history.infos, [], (List.append_nil _).symm, rfl, ?_, nofun⟩
    intro info _ hinfo
    have hnot := List.find?_eq_none.mp hfind info hinfo
    simp only [decide_eq_true_eq] at hnot
    omega
  | some bound =>
    obtain ⟨hslot, above, below, htake, habove⟩ := List.find?_eq_some_iff_append.mp hfind
    refine ⟨above, bound :: below ++ history.infos.drop (searchDepth rpc), ?_, rfl, ?_, ?_⟩
    · rw [← List.append_assoc, ← htake, List.take_append_drop]
    · intro info hinfo _
      have hnot := habove info hinfo
      simp only [Bool.not_eq_true', decide_eq_false_iff_not] at hnot
      omega
    · intro info hinfo
      obtain rfl := Option.some.inj hinfo
      refine ⟨htake ▸ List.mem_append_right _ List.mem_cons_self, ?_⟩
      simpa using hslot

/-- The history is newest first, so nothing from the slot on is behind a bound before it. -/
theorem slot_lt_of_mem_bound {history : History} {above bound : List SigInfo} {startBlock n : Nat}
    (hsplit : history.infos = above ++ bound)
    (hbound : ∀ info ∈ bound.head?, info ∈ history.infos.take n ∧ info.slot ≤ startBlock)
    (hnone : ∀ info ∈ history.infos.take n, info.slot ≠ startBlock) :
    ∀ info ∈ bound, info.slot < startBlock := by
  intro info hinfo
  have hsorted := history.newestFirst
  rw [hsplit] at hsorted
  have hsorted := (List.pairwise_append.mp hsorted).2.1
  cases bound with
  | nil => exact absurd hinfo List.not_mem_nil
  | cons first below =>
    obtain ⟨hfirst, hfirstSlot⟩ := hbound first rfl
    have hne := hnone first hfirst
    obtain rfl | holder := List.mem_cons.mp hinfo
    · omega
    · have hle := (List.pairwise_cons.mp hsorted).1 info holder
      omega

/-- No signature from `START_BLOCK` on is missed exactly when none of the signatures
that the search looks at has that slot. -/
theorem coverage_iff (rpc : Rpc) (history : History) {startBlock : Nat} (hpos : 0 < startBlock)
    (hblock : rpc.hasBlock startBlock = true) :
    Covers (createTransactionCrawlerDatasource rpc history (some startBlock)) history startBlock ↔
      ∀ info ∈ history.infos.take (searchDepth rpc), info.slot ≠ startBlock := by
  obtain ⟨above, bound, hsplit, hfind, habove, hbound⟩ := exists_bound rpc history startBlock
  have huntil : (createTransactionCrawlerDatasource rpc history
      (some startBlock)).filters.untilSignature = bound.head?.map SigInfo.signature := by
    show untilSignature rpc history (some startBlock) = _
    rw [← hfind, untilSignature, if_neg (Nat.ne_of_gt hpos), getSlotForBlock, if_pos hblock]
    rfl
  have hsweep := start_sweep hsplit rfl huntil
  have hbatch : 0 < (createTransactionCrawlerDatasource rpc history
      (some startBlock)).batchLimit := Nat.zero_lt_succ 99
  constructor
  · intro hcovers info hinfo hslot
    have hmem : info ∈ above ++ bound := hsplit ▸ List.mem_of_mem_take hinfo
    have hbelow : info ∈ bound := by
      refine (List.mem_append.mp hmem).resolve_left fun hnewer => ?_
      have hlater := habove info hnewer hinfo
      omega
    -- A run with as many fetches as it takes.
    obtain ⟨actions, t, hrun, hhistory, hfetches⟩ :=
      run_fetches _ (start (createTransactionCrawlerDatasource rpc history (some startBlock))
        history) (2 * history.infos.length)
    have hsent := hcovers [] _ rfl info (List.mem_of_mem_take hinfo) (Nat.le_of_eq hslot.symm)
      actions t hrun (by rw [hhistory, hfetches]; exact Nat.le_refl _)
    exact hsweep.not_sent hbatch hbelow hrun hsent
  · intro hnone before u hbefore info hinfo hslot actions t hrun hfetches
    obtain ⟨q, hq⟩ := hsweep.of_run hbatch hbefore
    refine hq.sent_of_fetches hbatch ?_ hrun hfetches
    rw [hq.history] at hinfo
    refine (List.mem_append.mp hinfo).resolve_right fun hbelow => ?_
    have holder := slot_lt_of_mem_bound hsplit hbound hnone info hbelow
    omega

/-- One signature in slot 6 and one in slot 4. -/
def twoSlots : History := ⟨[⟨"b", 6⟩, ⟨"a", 4⟩], by decide, by decide⟩

/-- Every block exists and every answer is full. -/
def fullRpc : Rpc := ⟨fun _ => true, fun _ => some searchLimit⟩

theorem coverage_iff_twoSlots :
    Covers (createTransactionCrawlerDatasource fullRpc twoSlots (some 5)) twoSlots 5 ↔
      ∀ info ∈ twoSlots.infos.take (searchDepth fullRpc), info.slot ≠ 5 :=
  coverage_iff fullRpc twoSlots (by decide) rfl

/-- A start block with a signature in it: the crawler stops in front of it. -/
theorem start_block_dropped :
    ¬ ∀ (rpc : Rpc) (history : History) (startBlock : Nat), 0 < startBlock →
      rpc.hasBlock startBlock = true →
      Covers (createTransactionCrawlerDatasource rpc history (some startBlock)) history
        startBlock := by
  intro hall
  have hcovers := hall fullRpc twoSlots 6 (by decide) rfl
  have hsent := hcovers [] _ rfl ⟨"b", 6⟩ List.mem_cons_self (Nat.le_refl _)
    (List.replicate 4 (.fetch 0)) _ rfl (by decide)
  exact absurd hsent (by decide)

end StartBlock

end OmnipairIndexer
