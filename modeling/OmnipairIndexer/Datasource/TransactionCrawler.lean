/-
The signature fetcher of `RpcTransactionCrawler`.

`getSignaturesForAddress` looks at the signatures of a program, newest first.  An
answer is the beginning of the window between `before` and `until`, empty only if
the window is; how much of it comes, up to the limit, is read from outside, and so
is whether a call fails.  Signatures arrive at the front at any time.

The fetcher sweeps the window from the newest signature down to `until` and then
makes the newest one it saw the next `until`.  `Sweep.sent_of_fetches` bounds the
fetches until a signature above the first `until` is in the channel, and
`Sweep.not_sent` says that the others never are.  The channel is taken to be open.
-/
import OmnipairIndexer.Library.Transition
import Mathlib.Algebra.Ring.Nat
import Mathlib.Data.List.Basic
import Mathlib.Data.List.Perm.Basic

namespace OmnipairIndexer

open Transition

structure SigInfo where
  signature : String
  slot : Nat
  deriving DecidableEq

/-! ## Answers of the RPC -/

/-- The signatures strictly older than `before`. -/
def olderThan (before : Option String) (history : List SigInfo) : List SigInfo :=
  match before with
  | none => history
  | some sig => (history.dropWhile fun info => info.signature ≠ sig).tail

/-- The signatures strictly newer than `until`. -/
def newerThan (untilSig : Option String) (history : List SigInfo) : List SigInfo :=
  match untilSig with
  | none => history
  | some sig => history.takeWhile fun info => info.signature ≠ sig

/-- An answer of at most `limit` signatures; `size` is what the server is willing to
give. -/
def getSignatures (history : List SigInfo) (before untilSig : Option String) (limit size : Nat) :
    List SigInfo :=
  (newerThan untilSig (olderThan before history)).take (min (max size 1) limit)

section Windows

variable {above below : List SigInfo}

theorem takeWhile_append_cons {info : SigInfo}
    (h : info.signature ∉ above.map SigInfo.signature) :
    (above ++ info :: below).takeWhile (fun i => i.signature ≠ info.signature) = above := by
  rw [List.takeWhile_append_of_pos]
  · simp
  · intro i hi
    have hne : i.signature ≠ info.signature := fun he => h (he ▸ List.mem_map_of_mem hi)
    simpa using hne

theorem dropWhile_append_cons {info : SigInfo}
    (h : info.signature ∉ above.map SigInfo.signature) :
    (above ++ info :: below).dropWhile (fun i => i.signature ≠ info.signature) =
      info :: below := by
  rw [List.dropWhile_append_of_pos]
  · simp
  · intro i hi
    have hne : i.signature ≠ info.signature := fun he => h (he ▸ List.mem_map_of_mem hi)
    simpa using hne

/-- Going on after the last signature seen. -/
theorem olderThan_getLast (h : ((above ++ below).map SigInfo.signature).Nodup) :
    olderThan (above.getLast?.map SigInfo.signature) (above ++ below) = below := by
  obtain rfl | ⟨init, last, rfl⟩ := above.eq_nil_or_concat'
  · rfl
  · rw [List.append_assoc] at h ⊢
    have hlast : last.signature ∉ init.map SigInfo.signature := by
      intro hmem
      rw [List.map_append] at h
      exact (List.nodup_append.mp h).2.2 _ hmem _ (by simp) rfl
    rw [List.getLast?_concat, Option.map_some, olderThan, List.singleton_append,
      dropWhile_append_cons hlast]
    rfl

/-- Stopping in front of the first signature that is known. -/
theorem newerThan_head (h : ((above ++ below).map SigInfo.signature).Nodup) :
    newerThan (below.head?.map SigInfo.signature) (above ++ below) = above := by
  cases below with
  | nil => exact List.append_nil above
  | cons info below =>
    have hinfo : info.signature ∉ above.map SigInfo.signature := by
      intro hmem
      rw [List.map_append] at h
      exact (List.nodup_append.mp h).2.2 _ hmem _ (by simp) rfl
    rw [List.head?_cons, Option.map_some, newerThan, takeWhile_append_cons hinfo]

end Windows

/-! ## The fetcher -/

namespace SignatureFetcher

structure State where
  history : List SigInfo
  lastFetchedSignature : Option String
  untilSignature : Option String
  mostRecentSignature : Option String
  /-- The signatures put into the channel. -/
  sent : List String

inductive Action where
  | arrive (info : SigInfo)
  | fetch (size : Nat)
  -- Without retries a failed call is left, and the loop makes the same call again.
  | failed

def Action.arrivals : Action → Nat
  | arrive _ => 1
  | _ => 0

def Action.fetches : Action → Nat
  | fetch _ => 1
  | _ => 0

/-- A new signature is newer than the ones there are. -/
def Arrives (info : SigInfo) (history : List SigInfo) : Prop :=
  info.signature ∉ history.map SigInfo.signature ∧ ∀ old ∈ history, old.slot ≤ info.slot

instance (info : SigInfo) (history : List SigInfo) : Decidable (Arrives info history) :=
  inferInstanceAs (Decidable (_ ∧ _))

def State.fetched (s : State) : List SigInfo → State
  | [] =>
    { s with
      lastFetchedSignature := none
      untilSignature := s.mostRecentSignature.or s.untilSignature
      mostRecentSignature := none }
  | first :: rest =>
    { s with
      mostRecentSignature := s.mostRecentSignature.or (some first.signature)
      sent := s.sent ++ (first :: rest).map SigInfo.signature
      lastFetchedSignature := (first :: rest).getLast?.map SigInfo.signature }

def step (batchLimit : Nat) (s : State) : Action → Option State
  | .arrive info =>
    if Arrives info s.history then some { s with history := info :: s.history } else none
  | .fetch size =>
    some (s.fetched (getSignatures s.history s.lastFetchedSignature s.untilSignature batchLimit
      size))
  | .failed => some s

/-! ## A sweep -/

/-- The history above a bound: what arrived during the sweep, what the sweep has
fetched and has still to fetch, and what earlier sweeps fetched. -/
structure Parts where
  fresh : List SigInfo
  swept : List SigInfo
  todo : List SigInfo
  done : List SigInfo

namespace Parts

/-- More than the fetches that are needed if nothing arrives. -/
def work (p : Parts) : Nat := p.todo.length + 2 * p.fresh.length

def above (p : Parts) : List SigInfo := p.fresh ++ p.swept ++ p.todo ++ p.done

end Parts

structure Sweep (bound : List SigInfo) (s : State) (p : Parts) : Prop where
  history : s.history = p.above ++ bound
  nodup : (s.history.map SigInfo.signature).Nodup
  last : s.lastFetchedSignature = p.swept.getLast?.map SigInfo.signature
  untilSig : s.untilSignature = (p.done ++ bound).head?.map SigInfo.signature
  mostRecent : s.mostRecentSignature = p.swept.head?.map SigInfo.signature
  fresh : p.swept = [] → p.fresh = []
  sent : s.sent.Perm ((p.swept ++ p.done).map SigInfo.signature)

variable {bound : List SigInfo} {s t : State} {p : Parts} {batchLimit : Nat}

/-- The window of the next call is what the sweep has still to fetch. -/
theorem Sweep.window (h : Sweep bound s p) :
    newerThan s.untilSignature (olderThan s.lastFetchedSignature s.history) = p.todo := by
  have hnodup := h.nodup
  have hsplit : s.history = (p.fresh ++ p.swept) ++ (p.todo ++ (p.done ++ bound)) := by
    rw [h.history, Parts.above]
    simp only [List.append_assoc]
  have hlast : s.lastFetchedSignature = (p.fresh ++ p.swept).getLast?.map SigInfo.signature := by
    rw [h.last]
    by_cases hswept : p.swept = []
    · rw [h.fresh hswept, hswept]
      rfl
    · rw [List.getLast?_append_of_ne_nil _ hswept]
  rw [hsplit] at hnodup
  rw [hlast, hsplit, olderThan_getLast hnodup, h.untilSig]
  rw [List.map_append] at hnodup
  exact newerThan_head (List.nodup_append.mp hnodup).2.1

theorem Sweep.arrive_nodup {info : SigInfo} (h : Sweep bound s p) (hinfo : Arrives info s.history) :
    ((info :: s.history).map SigInfo.signature).Nodup :=
  List.nodup_cons.mpr ⟨hinfo.1, h.nodup⟩

/-- Between two sweeps the next one takes an arrival along. -/
theorem Sweep.arrive_between {info : SigInfo} (h : Sweep bound s p)
    (hinfo : Arrives info s.history) (hswept : p.swept = []) :
    Sweep bound { s with history := info :: s.history } { p with todo := info :: p.todo } := by
  refine ⟨?_, h.arrive_nodup hinfo, h.last, h.untilSig, h.mostRecent, h.fresh, h.sent⟩
  rw [h.history]
  simp [Parts.above, h.fresh hswept, hswept]

/-- During a sweep it is left for the next one. -/
theorem Sweep.arrive_during {info : SigInfo} (h : Sweep bound s p)
    (hinfo : Arrives info s.history) (hswept : p.swept ≠ []) :
    Sweep bound { s with history := info :: s.history } { p with fresh := info :: p.fresh } := by
  refine ⟨?_, h.arrive_nodup hinfo, h.last, h.untilSig, h.mostRecent,
    fun hnone => absurd hnone hswept, h.sent⟩
  rw [h.history]
  simp [Parts.above]

theorem Sweep.arrive {info : SigInfo} (h : Sweep bound s p) (hinfo : Arrives info s.history) :
    ∃ q, Sweep bound { s with history := info :: s.history } q ∧ q.work ≤ p.work + 2 := by
  by_cases hswept : p.swept = []
  · refine ⟨_, h.arrive_between hinfo hswept, ?_⟩
    simp only [Parts.work, List.length_cons]
    omega
  · refine ⟨_, h.arrive_during hinfo hswept, ?_⟩
    simp only [Parts.work, List.length_cons]
    omega

/-- An empty answer ends the sweep. -/
theorem Sweep.finish (h : Sweep bound s p) (htodo : p.todo = []) :
    Sweep bound (s.fetched []) ⟨[], [], p.fresh, p.swept ++ p.done⟩ := by
  refine ⟨?_, h.nodup, rfl, ?_, rfl, fun _ => rfl, h.sent⟩
  · show s.history = _
    rw [h.history]
    simp [Parts.above, htodo]
  · show s.mostRecentSignature.or s.untilSignature = _
    rw [h.mostRecent, h.untilSig]
    cases p.swept <;> rfl

/-- Any other answer moves a part of the window. -/
theorem Sweep.advance {first : SigInfo} {rest todo : List SigInfo} (h : Sweep bound s p)
    (htodo : p.todo = first :: rest ++ todo) :
    Sweep bound (s.fetched (first :: rest))
      { p with swept := p.swept ++ first :: rest, todo := todo } := by
  refine ⟨?_, h.nodup, ?_, h.untilSig, ?_, ?_, ?_⟩
  · show s.history = _
    rw [h.history]
    simp [Parts.above, htodo]
  · show (first :: rest).getLast?.map SigInfo.signature = _
    rw [List.getLast?_append_of_ne_nil _ (List.cons_ne_nil _ _)]
  · show s.mostRecentSignature.or (some first.signature) = _
    rw [h.mostRecent]
    cases p.swept <;> rfl
  · intro hswept
    exact absurd hswept (by simp)
  · show (s.sent ++ (first :: rest).map SigInfo.signature).Perm _
    have hperm := h.sent.append_right ((first :: rest).map SigInfo.signature)
    refine hperm.trans ?_
    simp only [List.map_append, List.append_assoc]
    exact List.Perm.append_left _ List.perm_append_comm

/-- A page is empty or a beginning of the window that is not. -/
theorem take_window (size : Nat) (hbatch : 0 < batchLimit) (todo : List SigInfo) :
    todo = [] ∧ todo.take (min (max size 1) batchLimit) = [] ∨
      ∃ first rest later, todo = first :: rest ++ later ∧
        todo.take (min (max size 1) batchLimit) = first :: rest := by
  cases todo with
  | nil => exact .inl ⟨rfl, List.take_nil⟩
  | cons first todo =>
    obtain ⟨limit, hlimit⟩ : ∃ limit, min (max size 1) batchLimit = limit + 1 :=
      Nat.exists_eq_succ_of_ne_zero (by omega)
    refine .inr ⟨first, todo.take limit, todo.drop limit, ?_, by rw [hlimit, List.take_succ_cons]⟩
    rw [List.cons_append, List.take_append_drop]

/-- What one step does to a sweep. -/
theorem Sweep.of_step {action : Action} (hbatch : 0 < batchLimit) (h : Sweep bound s p)
    (ht : step batchLimit s action = some t) :
    ∃ q, Sweep bound t q ∧
      (q.work + action.fetches ≤ p.work + 2 * action.arrivals ∨ p.work = 0) := by
  cases action with
  | arrive info =>
    obtain ⟨hinfo, ht⟩ := Option.ite_none_right_eq_some.mp ht
    obtain ⟨q, hq, hwork⟩ := h.arrive hinfo
    exact ⟨q, Option.some.inj ht ▸ hq, .inl hwork⟩
  | fetch size =>
    obtain rfl := Option.some.inj ht
    rw [getSignatures, h.window]
    obtain ⟨htodo, hpage⟩ | ⟨first, rest, later, htodo, hpage⟩ := take_window size hbatch p.todo
    · rw [hpage]
      refine ⟨_, h.finish htodo, ?_⟩
      simp only [Parts.work, Action.fetches, Action.arrivals, htodo, List.length_nil]
      omega
    · rw [hpage]
      refine ⟨_, h.advance htodo, .inl ?_⟩
      simp only [Parts.work, Action.fetches, Action.arrivals, htodo, List.length_append,
        List.length_cons]
      omega
  | failed =>
    obtain rfl := Option.some.inj ht
    exact ⟨p, h, .inl (Nat.le_refl _)⟩

/-! ## Runs -/

theorem step_history {action : Action} (h : step batchLimit s action = some t) :
    ∃ new, t.history = new ++ s.history ∧ new.length = action.arrivals := by
  cases action with
  | arrive info =>
    obtain ⟨-, h⟩ := Option.ite_none_right_eq_some.mp h
    obtain rfl := Option.some.inj h
    exact ⟨[info], rfl, rfl⟩
  | fetch size =>
    obtain rfl := Option.some.inj h
    refine ⟨[], ?_, rfl⟩
    unfold State.fetched
    split <;> rfl
  | failed =>
    obtain rfl := Option.some.inj h
    exact ⟨[], rfl, rfl⟩

theorem step_sent {action : Action} (h : step batchLimit s action = some t) : s.sent ⊆ t.sent := by
  cases action with
  | arrive info =>
    obtain ⟨-, h⟩ := Option.ite_none_right_eq_some.mp h
    obtain rfl := Option.some.inj h
    exact List.Subset.refl _
  | fetch size =>
    obtain rfl := Option.some.inj h
    unfold State.fetched
    split
    · exact List.Subset.refl _
    · exact List.subset_append_left _ _
  | failed =>
    obtain rfl := Option.some.inj h
    exact List.Subset.refl _

def arrivals (actions : List Action) : Nat := (actions.map Action.arrivals).sum

def fetches (actions : List Action) : Nat := (actions.map Action.fetches).sum

variable {actions : List Action}

theorem run_history (h : run (step batchLimit) s actions = some t) :
    ∃ new, t.history = new ++ s.history ∧ new.length = arrivals actions := by
  induction actions generalizing s with
  | nil =>
    obtain rfl := Option.some.inj h
    exact ⟨[], rfl, rfl⟩
  | cons action actions ih =>
    obtain ⟨u, hu, h⟩ := run_cons_eq_some.mp h
    obtain ⟨first, hfirst, hlength⟩ := step_history hu
    obtain ⟨rest, hrest, hlengths⟩ := ih h
    refine ⟨rest ++ first, by rw [hrest, hfirst, List.append_assoc], ?_⟩
    rw [List.length_append, hlength, hlengths, arrivals, arrivals, List.map_cons, List.sum_cons,
      Nat.add_comm]

theorem run_sent (h : run (step batchLimit) s actions = some t) : s.sent ⊆ t.sent := by
  induction actions generalizing s with
  | nil => exact Option.some.inj h ▸ List.Subset.refl _
  | cons action actions ih =>
    obtain ⟨u, hu, h⟩ := run_cons_eq_some.mp h
    exact List.Subset.trans (step_sent hu) (ih h)

theorem Sweep.of_run (hbatch : 0 < batchLimit) (h : Sweep bound s p)
    (hrun : run (step batchLimit) s actions = some t) : ∃ q, Sweep bound t q := by
  induction actions generalizing s p with
  | nil => exact ⟨p, Option.some.inj hrun ▸ h⟩
  | cons action actions ih =>
    obtain ⟨u, hu, hrun⟩ := run_cons_eq_some.mp hrun
    obtain ⟨q, hq, -⟩ := h.of_step hbatch hu
    exact ih hq hrun

/-- A signature that has not been sent is still to be fetched. -/
theorem Sweep.work_pos {info : SigInfo} (h : Sweep bound s p) (hinfo : info ∈ p.above)
    (hsent : info.signature ∉ s.sent) : 0 < p.work := by
  rw [h.sent.mem_iff, List.map_append, List.mem_append, not_or] at hsent
  have hswept : info ∉ p.swept := fun hmem => hsent.1 (List.mem_map_of_mem hmem)
  have hdone : info ∉ p.done := fun hmem => hsent.2 (List.mem_map_of_mem hmem)
  simp only [Parts.above, List.mem_append, hswept, hdone, or_false] at hinfo
  unfold Parts.work
  obtain hfresh | htodo := hinfo
  · have := List.length_pos_of_mem hfresh
    omega
  · have := List.length_pos_of_mem htodo
    omega

/-- What is above the bound stays above it. -/
theorem Sweep.above_subset {q : Parts} (h : Sweep bound s p) (hq : Sweep bound t q)
    (hhistory : s.history ⊆ t.history) : p.above ⊆ q.above := by
  intro info hinfo
  have hmem : info ∈ q.above ++ bound := by
    rw [← hq.history]
    apply hhistory
    rw [h.history]
    exact List.mem_append_left _ hinfo
  refine (List.mem_append.mp hmem).resolve_right fun hbound => ?_
  have hnodup := h.nodup
  rw [h.history, List.map_append] at hnodup
  exact (List.nodup_append.mp hnodup).2.2 _ (List.mem_map_of_mem hinfo) _
    (List.mem_map_of_mem hbound) rfl

/-- As long as a signature has not been sent, every fetch is work done. -/
theorem Sweep.run_work {info : SigInfo} (hbatch : 0 < batchLimit) (h : Sweep bound s p)
    (hinfo : info ∈ p.above) (hrun : run (step batchLimit) s actions = some t)
    (hsent : info.signature ∉ t.sent) :
    ∃ q, Sweep bound t q ∧ info ∈ q.above ∧
      q.work + fetches actions ≤ p.work + 2 * arrivals actions := by
  induction actions generalizing s p with
  | nil => exact ⟨p, Option.some.inj hrun ▸ h, hinfo, Nat.le_refl _⟩
  | cons action actions ih =>
    obtain ⟨u, hu, hrun⟩ := run_cons_eq_some.mp hrun
    have hbefore : info.signature ∉ s.sent := fun hmem =>
      hsent (run_sent hrun (step_sent hu hmem))
    obtain ⟨q, hq, hwork⟩ := h.of_step hbatch hu
    obtain ⟨new, hnew, -⟩ := step_history hu
    have hinfo' := h.above_subset hq (hnew ▸ List.subset_append_right _ _) hinfo
    obtain ⟨r, hr, hinfo'', hrest⟩ := ih hq hinfo' hrun
    refine ⟨r, hr, hinfo'', ?_⟩
    have hpos := h.work_pos hinfo hbefore
    simp only [fetches, arrivals, List.map_cons, List.sum_cons] at hrest ⊢
    omega

/-- Every signature above the bound is sent after twice as many fetches as there are
signatures at the end. -/
theorem Sweep.sent_of_fetches {info : SigInfo} (hbatch : 0 < batchLimit) (h : Sweep bound s p)
    (hinfo : info ∈ p.above) (hrun : run (step batchLimit) s actions = some t)
    (hfetches : 2 * t.history.length ≤ fetches actions) : info.signature ∈ t.sent := by
  by_contra hsent
  obtain ⟨q, hq, hmem, hwork⟩ := h.run_work hbatch hinfo hrun hsent
  have hpos := hq.work_pos hmem hsent
  obtain ⟨new, hnew, hlength⟩ := run_history hrun
  have hsplit : p.work ≤ 2 * s.history.length := by
    rw [h.history]
    simp only [Parts.work, Parts.above, List.length_append]
    omega
  rw [hnew, List.length_append] at hfetches
  omega

/-- No signature below the bound is sent, ever. -/
theorem Sweep.not_sent {info : SigInfo} (hbatch : 0 < batchLimit) (h : Sweep bound s p)
    (hinfo : info ∈ bound) (hrun : run (step batchLimit) s actions = some t) :
    info.signature ∉ t.sent := by
  obtain ⟨q, hq⟩ := h.of_run hbatch hrun
  have hnodup := hq.nodup
  rw [hq.history, List.map_append] at hnodup
  intro hsent
  have habove : info.signature ∈ q.above.map SigInfo.signature := by
    have hmem := hq.sent.mem_iff.mp hsent
    simp only [Parts.above, List.map_append, List.mem_append] at hmem ⊢
    tauto
  exact (List.nodup_append.mp hnodup).2.2 _ habove _ (List.mem_map_of_mem hinfo) rfl

end SignatureFetcher

end OmnipairIndexer
