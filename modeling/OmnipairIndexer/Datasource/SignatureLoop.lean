/-
The signature loop sends every signature once, from any `until_signature`.

The sweeps of `TransactionCrawler` have a bound in the history: the signature the loop was
started with, or nothing.  A signature that is not in the history is no bound, and the
first sweep goes to the end.  `Unbounded` is the loop in this sweep.  It ends with a bound
of its own, or the missing signature arrives before anything was fetched and is the bound
from then on.

`fetched_once` reads off what has been sent.  A pause between two sweeps changes nothing in
the loop: what arrives in it arrives before the next fetch.
-/
import Mathlib.Data.List.Nodup
import Mathlib.Data.List.TakeWhile
import OmnipairIndexer.Datasource.StartBlock

namespace OmnipairIndexer

open Transition

namespace SignatureFetcher

variable {s t : State} {p : Parts} {bound : List SigInfo} {batchLimit : Nat}

/-- The first sweep, where `until_signature` is not in the window. -/
structure Unbounded (sig : String) (s : State) (p : Parts) : Prop where
  sweep : Sweep [] { s with untilSignature := none } p
  untilSig : s.untilSignature = some sig
  done : p.done = []
  outside : sig ∉ (p.swept ++ p.todo).map SigInfo.signature

/-- How the loop stands when it was started with `untilSig`. -/
inductive Standing (untilSig : Option String) (s : State) : Prop
  | bounded (bound : List SigInfo) (p : Parts) (h : Sweep bound s p)
      (hbound : bound = [] ∨ bound.head?.map SigInfo.signature = untilSig)
  | unbounded (sig : String) (p : Parts) (huntil : untilSig = some sig) (h : Unbounded sig s p)

/-! ## Steps of the first sweep -/

/-- A signature that is not in a list bounds nothing in it. -/
theorem newerThan_of_notMem {sig : String} {infos : List SigInfo}
    (h : sig ∉ infos.map SigInfo.signature) : newerThan (some sig) infos = infos := by
  refine List.takeWhile_eq_self_iff.mpr fun info hinfo => ?_
  have hne : info.signature ≠ sig := fun he => h (he ▸ List.mem_map_of_mem hinfo)
  simpa using hne

theorem Unbounded.window {sig : String} (h : Unbounded sig s p) :
    newerThan s.untilSignature (olderThan s.lastFetchedSignature s.history) = p.todo := by
  have holder : olderThan s.lastFetchedSignature s.history = p.todo := h.sweep.window
  have houtside := h.outside
  rw [List.map_append, List.mem_append, not_or] at houtside
  rw [holder, h.untilSig, newerThan_of_notMem houtside.2]

theorem Unbounded.arrive {sig : String} {info : SigInfo} (h : Unbounded sig s p)
    (hinfo : Arrives info s.history) :
    Standing (some sig) { s with history := info :: s.history } := by
  by_cases hswept : p.swept = []
  · by_cases hsig : info.signature = sig
    · -- the missing signature arrives, and all that is older is below the bound
      have hlast : s.lastFetchedSignature = none := by simpa [hswept] using h.sweep.last
      have hrecent : s.mostRecentSignature = none := by simpa [hswept] using h.sweep.mostRecent
      have hsent : s.sent = [] := by simpa [hswept, h.done] using h.sweep.sent
      exact .bounded (info :: s.history) ⟨[], [], [], []⟩ ⟨rfl, h.sweep.arrive_nodup hinfo, hlast,
        h.untilSig.trans (congrArg some hsig.symm), hrecent, fun _ => rfl, hsent ▸ List.Perm.nil⟩
        (.inr (congrArg some hsig))
    · refine .unbounded sig _ rfl
        ⟨h.sweep.arrive_between hinfo hswept, h.untilSig, h.done, ?_⟩
      have houtside := h.outside
      simp only [hswept, List.nil_append, List.map_cons, List.mem_cons, not_or] at houtside ⊢
      exact ⟨Ne.symm hsig, houtside⟩
  · exact .unbounded sig _ rfl
      ⟨h.sweep.arrive_during hinfo hswept, h.untilSig, h.done, h.outside⟩

/-- The sweep that ends makes its newest signature the bound of the next one. -/
theorem Unbounded.finish {sig : String} (h : Unbounded sig s p) (htodo : p.todo = []) :
    Standing (some sig) (s.fetched []) := by
  have hrecent : s.mostRecentSignature = p.swept.head?.map SigInfo.signature :=
    h.sweep.mostRecent
  cases hswept : p.swept with
  | nil =>
    have hnone : s.mostRecentSignature = none := by simpa [hswept] using hrecent
    have hfinish := h.sweep.finish htodo
    rw [h.sweep.fresh hswept, hswept, h.done] at hfinish
    refine .unbounded sig _ rfl ⟨⟨hfinish.history, hfinish.nodup, rfl, rfl, rfl, fun _ => rfl,
      hfinish.sent⟩, ?_, rfl, List.not_mem_nil⟩
    show s.mostRecentSignature.or s.untilSignature = some sig
    rw [hnone]
    exact h.untilSig
  | cons first rest =>
    have hsame : s.fetched [] = { s with untilSignature := none }.fetched [] := by
      simp only [State.fetched, hrecent, hswept, List.head?_cons, Option.map_some, Option.some_or]
    exact .bounded [] _ (hsame ▸ h.sweep.finish htodo) (.inl rfl)

theorem Unbounded.advance {sig : String} {first : SigInfo} {rest todo : List SigInfo}
    (h : Unbounded sig s p) (htodo : p.todo = first :: rest ++ todo) :
    Standing (some sig) (s.fetched (first :: rest)) := by
  refine .unbounded sig _ rfl ⟨h.sweep.advance htodo, h.untilSig, h.done, ?_⟩
  have houtside := h.outside
  rwa [htodo, ← List.append_assoc] at houtside

/-! ## Every step -/

theorem Standing.of_step {untilSig : Option String} {action : Action} (hbatch : 0 < batchLimit)
    (h : Standing untilSig s) (ht : step batchLimit s action = some t) : Standing untilSig t := by
  cases h with
  | bounded bound p h hbound =>
    obtain ⟨q, hq, -⟩ := h.of_step hbatch ht
    exact .bounded bound q hq hbound
  | unbounded sig p huntil h =>
    subst huntil
    cases action with
    | arrive info =>
      obtain ⟨hinfo, ht⟩ := Option.ite_none_right_eq_some.mp ht
      exact Option.some.inj ht ▸ h.arrive hinfo
    | fetch size =>
      obtain rfl := Option.some.inj ht
      rw [getSignatures, h.window]
      obtain ⟨htodo, hpage⟩ | ⟨first, rest, later, htodo, hpage⟩ := take_window _ hbatch p.todo
      · rw [hpage]
        exact h.finish htodo
      · rw [hpage]
        exact h.advance htodo
    | failed =>
      obtain rfl := Option.some.inj ht
      exact .unbounded sig p rfl h

/-- The crawler's filters give any `until_signature`, in the history or not. -/
theorem standing_start {crawler : RpcTransactionCrawler} {history : History}
    (hbefore : crawler.filters.beforeSignature = none) :
    Standing crawler.filters.untilSignature (StartBlock.start crawler history) := by
  cases huntil : crawler.filters.untilSignature with
  | none =>
    exact .bounded [] _ (StartBlock.start_sweep (List.append_nil _).symm hbefore huntil) (.inl rfl)
  | some sig =>
    by_cases hsig : sig ∈ history.infos.map SigInfo.signature
    · obtain ⟨info, hinfo, rfl⟩ := List.mem_map.mp hsig
      obtain ⟨above, below, hsplit⟩ := List.append_of_mem hinfo
      exact .bounded (info :: below) _ (StartBlock.start_sweep hsplit hbefore huntil) (.inr rfl)
    · refine .unbounded sig ⟨[], [], history.infos, []⟩ rfl ⟨⟨?_, history.nodup, hbefore, rfl, rfl,
        fun _ => rfl, List.Perm.nil⟩, huntil, rfl, hsig⟩
      show history.infos = _
      simp [Parts.above]

/-! ## What has been sent -/

theorem Sweep.sent_nodup (h : Sweep bound s p) : s.sent.Nodup := by
  refine h.sent.nodup_iff.mpr (h.nodup.sublist (List.Sublist.map _ ?_))
  rw [h.history, Parts.above, List.append_assoc, List.append_assoc]
  exact (List.sublist_append_right _ _).append
    ((List.sublist_append_left _ _).trans (List.sublist_append_right _ _))

theorem Standing.sent_nodup {untilSig : Option String} (h : Standing untilSig s) :
    s.sent.Nodup := by
  cases h with
  | bounded bound p h hbound => exact h.sent_nodup
  | unbounded sig p huntil h => exact h.sweep.sent_nodup

/-- The signatures from the newest one that was sent on. -/
def State.fromNewestSent (s : State) : List SigInfo :=
  s.history.dropWhile fun info => info.signature ∉ s.sent

/-- Between two sweeps, all of these are sent or below the bound. -/
theorem Sweep.sent_of_newest {info : SigInfo} (h : Sweep bound s p) (hswept : p.swept = [])
    (hinfo : info ∈ s.fromNewestSent) : info.signature ∈ s.sent ∨ info ∈ bound := by
  have hsplit : s.history = p.todo ++ (p.done ++ bound) := by
    rw [h.history, Parts.above, h.fresh hswept, hswept, List.append_assoc]
    rfl
  have hunsent : ∀ next ∈ p.todo, next.signature ∉ s.sent := by
    intro next hnext hsent
    rw [h.sent.mem_iff, hswept, List.nil_append] at hsent
    have hnodup := h.nodup
    rw [hsplit, List.map_append, List.map_append] at hnodup
    exact (List.nodup_append.mp hnodup).2.2 _ (List.mem_map_of_mem hnext) _
      (List.mem_append_left _ hsent) rfl
  rw [State.fromNewestSent, hsplit, List.dropWhile_append_of_pos (by simpa using hunsent)] at hinfo
  rcases List.mem_append.mp ((List.dropWhile_sublist _).subset hinfo) with hdone | hbound
  · left
    rw [h.sent.mem_iff, hswept, List.nil_append]
    exact List.mem_map_of_mem hdone
  · exact .inr hbound

theorem Sweep.notMem_bound {info : SigInfo} {untilSig : Option String} (h : Sweep bound s p)
    (hbound : bound = [] ∨ bound.head?.map SigInfo.signature = untilSig)
    (hinfo : info ∈ newerThan untilSig s.history) : info ∉ bound := by
  obtain rfl | huntil := hbound
  · exact List.not_mem_nil
  · have hnodup := h.nodup
    rw [h.history] at hnodup
    rw [h.history, ← huntil, newerThan_head hnodup] at hinfo
    intro hmem
    rw [List.map_append] at hnodup
    exact (List.nodup_append.mp hnodup).2.2 _ (List.mem_map_of_mem hinfo) _
      (List.mem_map_of_mem hmem) rfl

theorem Standing.sent_of_empty {untilSig : Option String} {size : Nat} {info : SigInfo}
    (hbatch : 0 < batchLimit) (h : Standing untilSig s)
    (hempty : getSignatures s.history s.lastFetchedSignature s.untilSignature batchLimit size = [])
    (huntil : info ∈ newerThan untilSig (s.fetched []).history)
    (hnewest : info ∈ (s.fetched []).fromNewestSent) : info.signature ∈ (s.fetched []).sent := by
  cases h with
  | bounded bound p h hbound =>
    rw [getSignatures, h.window] at hempty
    obtain ⟨htodo, -⟩ | ⟨_, _, _, -, hpage⟩ := take_window size hbatch p.todo
    · have hfinish := h.finish htodo
      exact (hfinish.sent_of_newest rfl hnewest).resolve_right (hfinish.notMem_bound hbound huntil)
    · rw [hpage] at hempty
      cases hempty
  | unbounded sig p _ h =>
    rw [getSignatures, h.window] at hempty
    obtain ⟨htodo, -⟩ | ⟨_, _, _, -, hpage⟩ := take_window size hbatch p.todo
    · exact ((h.sweep.finish htodo).sent_of_newest rfl hnewest).resolve_right List.not_mem_nil
    · rw [hpage] at hempty
      cases hempty

/-- No signature is sent twice, and when a sweep ends, every one that is strictly newer than
`until_signature` and not newer than the newest that was sent has been sent once. -/
theorem fetched_once (crawler : RpcTransactionCrawler) (history : History)
    (hbefore : crawler.filters.beforeSignature = none) (hbatch : 0 < crawler.batchLimit)
    (actions : List Action) {t : State}
    (hrun : run (step crawler.batchLimit) (StartBlock.start crawler history) actions = some t) :
    t.sent.Nodup ∧
      ∀ size u, getSignatures t.history t.lastFetchedSignature t.untilSignature
          crawler.batchLimit size = [] → step crawler.batchLimit t (.fetch size) = some u →
        ∀ info ∈ newerThan crawler.filters.untilSignature u.history, info ∈ u.fromNewestSent →
          u.sent.count info.signature = 1 := by
  have hstanding : Standing crawler.filters.untilSignature t :=
    run_preserves (fun _ _ _ h ht => h.of_step hbatch ht) (standing_start hbefore) hrun
  refine ⟨hstanding.sent_nodup, fun size u hempty hu info huntil hnewest => ?_⟩
  have hfetched : t.fetched [] = u := by
    rw [step, hempty] at hu
    exact Option.some.inj hu
  subst hfetched
  exact List.count_eq_one_of_mem hstanding.sent_nodup
    (hstanding.sent_of_empty hbatch hempty huntil hnewest)

/-- An unknown bound, a signature that arrives during the first sweep, and a second sweep
for it. -/
def unknownBound : List Action :=
  [.fetch 1, .arrive ⟨"d", 7⟩, .failed, .fetch 1, .fetch 1, .fetch 1]

/-- The empty page that ends the second sweep comes after all three were sent. -/
theorem fetched_once_unknownBound :
    ∃ t u, run (step 1) (StartBlock.start ⟨1, none, some "c"⟩ StartBlock.twoSlots) unknownBound =
        some t ∧ step 1 t (.fetch 1) = some u ∧ u.sent = ["b", "a", "d"] ∧
      ∀ info ∈ ([⟨"d", 7⟩, ⟨"b", 6⟩, ⟨"a", 4⟩] : List SigInfo), u.sent.count info.signature = 1 := by
  refine ⟨_, _, rfl, rfl, by decide +kernel, fun info hinfo => ?_⟩
  refine (fetched_once ⟨1, none, some "c"⟩ StartBlock.twoSlots rfl (by decide) unknownBound rfl).2 1
    _ (by decide +kernel) rfl info ?_ ?_
  · revert info
    decide +kernel
  · revert info
    decide +kernel

end SignatureFetcher

end OmnipairIndexer
