/-
A work list handled in batches, each of which is selected anew.

A round selects from the items that are left, newest first, as many as a batch
holds, and visits them one by one.  A visited item counts towards the goal, but it
only leaves the work list if `leaves` says so.  The rounds end once the goal is
reached or a selection is empty.  Items of the same key are selected in any order.

`right_iff` says for which work lists every complete run visits as many items as the
goal asks for, and no item twice: the goal has to be the whole list or a number of
full batches, and an item that stays has to have so many newer ones that no round
but the last can reach it.
-/
import Mathlib.Data.List.Sort
import OmnipairIndexer.Library.Transition

namespace Batches

open Transition

variable {α κ : Type*}

structure Plan (α κ : Type*) where
  key : α → κ
  leaves : α → Bool
  size : Nat
  goal : Nat

structure State (α : Type*) where
  left : List α
  handled : List α
  pending : List α
  finished : Bool

inductive Action (α : Type*) where
  | select (ordered : List α)
  | visit
  | stop

def start (items : List α) : State α := ⟨items, [], [], false⟩

namespace State

/-- What the selections have brought up so far. -/
def taken (s : State α) : List α := s.handled ++ s.pending

variable {s : State α} {a : α} {rest : List α}

theorem taken_of_nil (h : s.pending = []) : s.taken = s.handled := by
  rw [taken, h, List.append_nil]

theorem taken_of_cons (h : s.pending = a :: rest) : s.taken = s.handled ++ a :: rest := by
  rw [taken, h]

theorem taken_visit (left : List α) (finished : Bool) (h : s.pending = a :: rest) :
    (State.mk left (s.handled ++ [a]) rest finished).taken = s.taken := by
  rw [taken_of_cons h, taken, List.append_assoc, List.singleton_append]

end State

namespace Plan

variable [DecidableEq α] [LinearOrder κ]

/-- An answer to a selection. -/
def Ordering (plan : Plan α κ) (left ordered : List α) : Prop :=
  ordered.Perm left ∧ ordered.Pairwise fun a b => plan.key b ≤ plan.key a

instance (plan : Plan α κ) (left ordered : List α) : Decidable (plan.Ordering left ordered) :=
  inferInstanceAs (Decidable (_ ∧ _))

def leave (plan : Plan α κ) (left : List α) (a : α) : List α :=
  if plan.leaves a then left.filter (· ≠ a) else left

def newer (plan : Plan α κ) (items : List α) (a : α) : List α :=
  items.filter fun b => plan.key a < plan.key b

/-- How many items the rounds before the last one visit. -/
def early (plan : Plan α κ) : Nat := (plan.goal - 1) / plan.size * plan.size

end Plan

section

variable [DecidableEq α] [LinearOrder κ]

def step (plan : Plan α κ) (s : State α) : Action α → Option (State α)
  | .select ordered =>
    if s.finished = false ∧ s.pending = [] ∧ s.handled.length < plan.goal ∧
        plan.Ordering s.left ordered then
      let batch := ordered.take plan.size
      some { s with pending := batch, finished := batch.isEmpty }
    else none
  | .visit =>
    match s.pending with
    | a :: rest => some ⟨plan.leave s.left a, s.handled ++ [a], rest, s.finished⟩
    | [] => none
  | .stop =>
    if s.finished = false ∧ s.pending = [] ∧ plan.goal ≤ s.handled.length then
      some { s with finished := true }
    else none

structure Fits (plan : Plan α κ) (items : List α) : Prop where
  rounds : plan.goal = items.length ∨ plan.size ∣ plan.goal
  stays : ∀ a ∈ items, plan.leaves a = false → plan.early ≤ (plan.newer items a).length

/-- What a complete run should have done. -/
structure Right (plan : Plan α κ) (items : List α) (s : State α) : Prop where
  nodup : s.handled.Nodup
  length : s.handled.length = plan.goal
  all : items.length ≤ plan.goal → ∀ a ∈ items, a ∈ s.handled

end

/-! ## Steps -/

section Leave

variable [DecidableEq α] {plan : Plan α κ}

theorem leave_sublist (left : List α) (a : α) : (plan.leave left a).Sublist left := by
  unfold Plan.leave
  split
  · exact List.filter_sublist
  · exact List.Sublist.refl left

theorem mem_leave_of_ne {left : List α} {a b : α} (hb : b ∈ left) (hne : b ≠ a) :
    b ∈ plan.leave left a := by
  unfold Plan.leave
  split
  · exact List.mem_filter.mpr ⟨hb, decide_eq_true hne⟩
  · exact hb

theorem mem_leave_of_stays {left : List α} {a b : α} (hb : b ∈ left)
    (hstays : plan.leaves b = false) : b ∈ plan.leave left a := by
  by_cases hne : b = a
  · rw [Plan.leave, ← hne, hstays]
    exact hb
  · exact mem_leave_of_ne hb hne

end Leave

section Sizes

variable {plan : Plan α κ}

theorem add_size_le {m n size : Nat} (hm : size ∣ m) (hn : size ∣ n) (h : m < n) :
    m + size ≤ n := by
  have := Nat.le_of_dvd (by omega) (Nat.dvd_sub hn hm)
  omega

theorem size_dvd_early : plan.size ∣ plan.early := ⟨_, Nat.mul_comm ..⟩

theorem early_lt (h : 0 < plan.goal) : plan.early < plan.goal := by
  have : plan.early ≤ plan.goal - 1 := Nat.div_mul_le_self ..
  omega

theorem goal_le_early (hsize : 0 < plan.size) : plan.goal ≤ plan.early + plan.size := by
  have : plan.goal - 1 < plan.early + plan.size := Nat.lt_div_mul_add hsize
  omega

end Sizes

section Orderings

variable [LinearOrder κ] {plan : Plan α κ}

def Plan.sorted (plan : Plan α κ) (l : List α) : List α :=
  l.mergeSort fun a b => plan.key b ≤ plan.key a

theorem ordering_sorted (plan : Plan α κ) (l : List α) : plan.Ordering l (plan.sorted l) := by
  have : Std.Total fun a b => plan.key b ≤ plan.key a := ⟨fun a b => le_total ..⟩
  have : IsTrans α fun a b => plan.key b ≤ plan.key a := ⟨fun _ _ _ hab hbc => hbc.trans hab⟩
  exact ⟨List.mergeSort_perm .., List.pairwise_mergeSort' _ l⟩

theorem take_ne_nil (hsize : 0 < plan.size) {left ordered : List α} (hleft : left ≠ [])
    (hordered : plan.Ordering left ordered) : ordered.take plan.size ≠ [] := by
  have := List.length_pos_iff.mpr hleft
  rw [← List.length_pos_iff, List.length_take, hordered.1.length_eq]
  omega

end Orderings

/-! ## What every run keeps -/

/-- A finished run has nothing pending, nothing is invented and nothing is lost. -/
structure Sound (items : List α) (s : State α) : Prop where
  settled : s.finished → s.pending = []
  left_subset : ∀ a ∈ s.left, a ∈ items
  taken_subset : ∀ a ∈ s.taken, a ∈ items
  covers : ∀ a ∈ items, a ∈ s.left ∨ a ∈ s.taken

theorem sound_start (items : List α) : Sound items (start items) where
  settled h := absurd h Bool.false_ne_true
  left_subset _ := id
  taken_subset _ h := absurd h List.not_mem_nil
  covers _ := .inl

theorem Sound.handled_eq {items : List α} {s : State α} (hs : Sound items s)
    (hfinished : s.finished) : s.handled = s.taken := by
  rw [State.taken_of_nil (hs.settled hfinished)]

section Steps

variable [DecidableEq α] [LinearOrder κ] {plan : Plan α κ} {items : List α} {s t : State α}
  {action : Action α}

theorem step_select (hrunning : s.finished = false) (hpending : s.pending = [])
    (hgoal : s.handled.length < plan.goal) {ordered : List α}
    (hordered : plan.Ordering s.left ordered) :
    step plan s (.select ordered) = some { s with
      pending := ordered.take plan.size, finished := (ordered.take plan.size).isEmpty } :=
  if_pos ⟨hrunning, hpending, hgoal, hordered⟩

theorem step_visit {a : α} {rest : List α} (hpending : s.pending = a :: rest) :
    step plan s .visit = some ⟨plan.leave s.left a, s.handled ++ [a], rest, s.finished⟩ := by
  rw [step, hpending]

theorem step_stop (hrunning : s.finished = false) (hpending : s.pending = [])
    (hgoal : plan.goal ≤ s.handled.length) :
    step plan s .stop = some { s with finished := true } :=
  if_pos ⟨hrunning, hpending, hgoal⟩

theorem step_cases (h : step plan s action = some t) :
    (∃ ordered, action = .select ordered ∧ s.finished = false ∧ s.pending = [] ∧
      s.handled.length < plan.goal ∧ plan.Ordering s.left ordered ∧
      t = ⟨s.left, s.handled, ordered.take plan.size, (ordered.take plan.size).isEmpty⟩) ∨
    (∃ a rest, action = .visit ∧ s.pending = a :: rest ∧
      t = ⟨plan.leave s.left a, s.handled ++ [a], rest, s.finished⟩) ∨
    (action = .stop ∧ s.finished = false ∧ s.pending = [] ∧ plan.goal ≤ s.handled.length ∧
      t = { s with finished := true }) := by
  cases action with
  | select ordered =>
    simp only [step, Option.ite_none_right_eq_some, Option.some.injEq] at h
    obtain ⟨⟨hrunning, hpending, hgoal, hordered⟩, rfl⟩ := h
    exact .inl ⟨ordered, rfl, hrunning, hpending, hgoal, hordered, rfl⟩
  | visit =>
    cases hpending : s.pending with
    | nil => simp [step, hpending] at h
    | cons a rest =>
      simp only [step, hpending, Option.some.injEq] at h
      exact .inr (.inl ⟨a, rest, rfl, rfl, h.symm⟩)
  | stop =>
    simp only [step, Option.ite_none_right_eq_some, Option.some.injEq] at h
    obtain ⟨⟨hrunning, hpending, hgoal⟩, rfl⟩ := h
    exact .inr (.inr ⟨rfl, hrunning, hpending, hgoal, rfl⟩)

theorem step_sound (hs : Sound items s) (h : step plan s action = some t) : Sound items t := by
  rcases step_cases h with ⟨ordered, -, -, hpending, -, hordered, rfl⟩ |
    ⟨a, rest, -, hpending, rfl⟩ | ⟨-, -, hpending, -, rfl⟩
  · refine ⟨List.isEmpty_iff.mp, hs.left_subset, fun b hb => ?_, fun b hb => ?_⟩
    · rcases List.mem_append.mp hb with hb | hb
      · exact hs.taken_subset b (List.mem_append_left _ hb)
      · exact hs.left_subset b (hordered.1.mem_iff.mp (List.mem_of_mem_take hb))
    · refine (hs.covers b hb).imp id fun hb => ?_
      rw [State.taken, hpending, List.append_nil] at hb
      exact List.mem_append_left _ hb
  · have htaken := State.taken_of_cons hpending
    refine ⟨fun hfinished => ?_, fun b hb => ?_, ?_, fun b hb => ?_⟩
    · rw [hs.settled hfinished] at hpending
      cases hpending
    · exact hs.left_subset b ((leave_sublist _ a).subset hb)
    · rw [State.taken_visit _ _ hpending]
      exact hs.taken_subset
    · rw [State.taken_visit _ _ hpending]
      by_cases hne : b = a
      · exact .inr (htaken ▸ hne ▸ List.mem_append_right _ List.mem_cons_self)
      · exact (hs.covers b hb).imp (mem_leave_of_ne · hne) id
  · exact ⟨fun _ => hpending, hs.left_subset, hs.taken_subset, hs.covers⟩

end Steps

/-! ## Runs that fit -/

section Rounds

variable [LinearOrder κ] {plan : Plan α κ} {items : List α} {s t : State α} {action : Action α}

/-- Before the last round: all items taken so far leave, and what remains is not newer. -/
structure Early (plan : Plan α κ) (items : List α) (s : State α) : Prop where
  running : s.finished = false
  perm : (s.left ++ s.handled).Perm items
  rest : ∃ rest, s.left.Perm (s.pending ++ rest) ∧
    ∀ a ∈ s.taken, ∀ b ∈ rest, plan.key b ≤ plan.key a
  dvd : plan.size ∣ s.taken.length
  le : s.taken.length ≤ plan.early

/-- From the last selection on. -/
structure Last (plan : Plan α κ) (s : State α) : Prop where
  nodup : s.taken.Nodup
  length : s.taken.length = plan.goal

theorem early_start (items : List α) : Early plan items (start items) where
  running := rfl
  perm := by rw [start, List.append_nil]
  rest := ⟨items, List.Perm.refl items, fun _ h => absurd h List.not_mem_nil⟩
  dvd := Nat.dvd_zero _
  le := Nat.zero_le _

/-- The items that are newer than a pending one have been taken before it. -/
theorem Early.leaves (hs : Early plan items s) (hitems : items.Nodup) (hfits : Fits plan items)
    {a : α} {rest : List α} (hpending : s.pending = a :: rest) : plan.leaves a = true := by
  obtain ⟨others, hleft, hothers⟩ := hs.rest
  have htaken := State.taken_of_cons hpending
  rw [hpending] at hleft
  have ha : a ∈ items :=
    hs.perm.mem_iff.mp (List.mem_append_left _ (hleft.mem_iff.mpr List.mem_cons_self))
  have hnewer : (plan.newer items a).Subperm (s.handled ++ rest) := by
    refine List.subperm_of_subset (hitems.filter _) fun b hb => ?_
    obtain ⟨hb, hlt⟩ := List.mem_filter.mp hb
    have hlt := of_decide_eq_true hlt
    rcases List.mem_append.mp (hs.perm.mem_iff.mpr hb) with hb | hb
    · rcases List.mem_append.mp (hleft.mem_iff.mp hb) with hb | hb
      · rcases List.mem_cons.mp hb with rfl | hb
        · exact absurd hlt (lt_irrefl _)
        · exact List.mem_append_right _ hb
      · have hle := hothers a (htaken ▸ List.mem_append_right _ List.mem_cons_self) b hb
        exact absurd hlt (not_lt_of_ge hle)
    · exact List.mem_append_left _ hb
  have hlength : s.taken.length = (s.handled ++ rest).length + 1 := by
    rw [htaken, List.length_append, List.length_cons, List.length_append, Nat.add_assoc]
  by_contra hstays
  have hstays := hfits.stays a ha (Bool.eq_false_iff.mpr hstays)
  have hle := hnewer.length_le
  have := hs.le
  omega

theorem Early.stop (hs : Early plan items s) (hpending : s.pending = [])
    (hgoal : plan.goal ≤ s.handled.length) : Last plan { s with finished := true } := by
  have htaken := State.taken_of_nil hpending
  have hle : s.handled.length ≤ plan.early := htaken ▸ hs.le
  have hzero : plan.goal = 0 := by
    by_contra hpos
    have := early_lt (Nat.pos_of_ne_zero hpos)
    omega
  have hnil : s.handled = [] := by
    rw [Plan.early, hzero, Nat.zero_sub, Nat.zero_div, Nat.zero_mul] at hle
    exact List.eq_nil_of_length_eq_zero (Nat.le_zero.mp hle)
  constructor
  · rw [State.taken, hpending, hnil]
    exact List.nodup_nil
  · rw [State.taken, hpending, hnil, hzero]
    rfl

/-- A selection of an early round has a full batch before it, and it is early or the
last one. -/
theorem Early.select (hs : Early plan items s) (hitems : items.Nodup) (hfits : Fits plan items)
    (hgoal : plan.goal ≤ items.length) (hsize : 0 < plan.size) (hpending : s.pending = [])
    (hlt : s.handled.length < plan.goal) {ordered : List α}
    (hordered : plan.Ordering s.left ordered) :
    let t := ⟨s.left, s.handled, ordered.take plan.size, (ordered.take plan.size).isEmpty⟩
    Early plan items t ∨ Last plan t := by
  have htaken := State.taken_of_nil hpending
  obtain ⟨others, hleft, hothers⟩ := hs.rest
  rw [hpending, List.nil_append] at hleft
  have hdvd : plan.size ∣ s.handled.length := htaken ▸ hs.dvd
  have hle : s.handled.length ≤ plan.early := htaken ▸ hs.le
  have hlength : ordered.length + s.handled.length = items.length := by
    rw [hordered.1.length_eq, ← List.length_append, hs.perm.length_eq]
  have hearly := early_lt (Nat.zero_lt_of_lt hlt)
  rcases hle.lt_or_eq with hle | heq
  · have hle := add_size_le hdvd size_dvd_early hle
    have hfull : (ordered.take plan.size).length = plan.size := by
      rw [List.length_take]
      omega
    have hlength' : (s.handled ++ ordered.take plan.size).length =
        s.handled.length + plan.size := by rw [List.length_append, hfull]
    refine .inl ⟨?_, hs.perm, ⟨ordered.drop plan.size, ?_, ?_⟩, ?_, ?_⟩
    · rw [List.isEmpty_eq_false_iff, ← List.length_pos_iff, hfull]
      exact hsize
    · rw [List.take_append_drop]
      exact hordered.1.symm
    · intro a ha b hb
      rcases List.mem_append.mp ha with ha | ha
      · refine hothers a (htaken ▸ ha) b (hleft.mem_iff.mp ?_)
        exact hordered.1.mem_iff.mp (List.mem_of_mem_drop hb)
      · have hsorted := hordered.2
        rw [← List.take_append_drop plan.size ordered, List.pairwise_append] at hsorted
        exact hsorted.2.2 a ha b hb
    · rw [State.taken, hlength']
      exact Nat.dvd_add hdvd (Nat.dvd_refl _)
    · rw [State.taken, hlength']
      exact hle
  · refine .inr ⟨?_, ?_⟩
    · have hperm : (s.handled ++ ordered).Perm items :=
        (hordered.1.append_left _).trans (List.perm_append_comm.trans hs.perm)
      have hnodup : (s.handled ++ ordered).Nodup := hperm.nodup_iff.mpr hitems
      exact hnodup.sublist ((List.take_sublist ..).append_left _)
    · have hgoal' : plan.goal ≤ plan.early + plan.size := goal_le_early hsize
      change (s.handled ++ ordered.take plan.size).length = plan.goal
      rw [List.length_append, List.length_take]
      rcases hfits.rounds with hall | hfull
      · omega
      · have := add_size_le size_dvd_early hfull hearly
        omega

variable [DecidableEq α]

theorem Early.visit (hs : Early plan items s) (hitems : items.Nodup) (hfits : Fits plan items)
    {a : α} {rest : List α} (hpending : s.pending = a :: rest) :
    Early plan items ⟨plan.leave s.left a, s.handled ++ [a], rest, s.finished⟩ := by
  have hleaves := hs.leaves hitems hfits hpending
  obtain ⟨others, hleft, hothers⟩ := hs.rest
  rw [hpending] at hleft
  have hnodup : (a :: rest ++ others).Nodup :=
    hleft.nodup_iff.mp ((hs.perm.nodup_iff.mpr hitems).of_append_left)
  have hleave : (plan.leave s.left a).Perm (rest ++ others) := by
    rw [Plan.leave, if_pos hleaves]
    refine (hleft.filter _).trans ?_
    rw [List.cons_append, List.filter_cons_of_neg (by simp), List.filter_eq_self.mpr]
    intro b hb
    exact decide_eq_true fun h => (List.nodup_cons.mp hnodup).1 (h ▸ hb)
  refine ⟨hs.running, ?_, ⟨others, hleave, ?_⟩, ?_, ?_⟩
  · calc (plan.leave s.left a ++ (s.handled ++ [a])).Perm
          (rest ++ others ++ (s.handled ++ [a])) := hleave.append_right _
      List.Perm _ (a :: rest ++ others ++ s.handled) := by
        rw [← List.append_assoc]
        exact List.perm_append_singleton ..
      List.Perm _ (s.left ++ s.handled) := hleft.symm.append_right _
      List.Perm _ items := hs.perm
  · rw [State.taken_visit _ _ hpending]
    exact hothers
  · rw [State.taken_visit _ _ hpending]
    exact hs.dvd
  · rw [State.taken_visit _ _ hpending]
    exact hs.le

theorem step_early_or_last (hitems : items.Nodup) (hfits : Fits plan items)
    (hgoal : plan.goal ≤ items.length) (hsize : 0 < plan.size)
    (hs : Early plan items s ∨ Last plan s) (h : step plan s action = some t) :
    Early plan items t ∨ Last plan t := by
  rcases step_cases h with ⟨ordered, -, -, hpending, hlt, hordered, rfl⟩ |
    ⟨a, rest, -, hpending, rfl⟩ | ⟨-, -, hpending, hle, rfl⟩
  · rcases hs with hs | hs
    · exact hs.select hitems hfits hgoal hsize hpending hlt hordered
    · have hlength := hs.length
      rw [State.taken_of_nil hpending] at hlength
      exact absurd hlt (Nat.not_lt_of_le hlength.ge)
  · refine hs.imp (fun hs => hs.visit hitems hfits hpending) fun hs => ?_
    constructor
    · rw [State.taken_visit _ _ hpending]
      exact hs.nodup
    · rw [State.taken_visit _ _ hpending]
      exact hs.length
  · exact .inr (hs.elim (fun hs => hs.stop hpending hle) fun hs => ⟨hs.nodup, hs.length⟩)

theorem run_right (hitems : items.Nodup) (hfits : Fits plan items)
    (hgoal : plan.goal ≤ items.length) (hsize : 0 < plan.size) {as : List (Action α)}
    (hrun : run (step plan) (start items) as = some t) (hfinished : t.finished) :
    Right plan items t := by
  have hsound := run_preserves (fun _ _ _ => step_sound) (sound_start items) hrun
  have hhandled := hsound.handled_eq hfinished
  have hlast : Last plan t := by
    rcases run_preserves (fun _ _ _ => step_early_or_last hitems hfits hgoal hsize)
      (.inl (early_start items)) hrun with hearly | hlast
    · exact absurd (hearly.running.symm.trans hfinished) Bool.false_ne_true
    · exact hlast
  have hnodup : t.handled.Nodup := hhandled ▸ hlast.nodup
  have hlength : t.handled.length = plan.goal := hhandled ▸ hlast.length
  refine ⟨hnodup, hlength, fun hall a ha => ?_⟩
  have hsub : t.handled.Subperm items :=
    List.subperm_of_subset hnodup fun b hb => hsound.taken_subset b (hhandled ▸ hb)
  exact (hsub.perm_of_length_le (hlength ▸ hall)).mem_iff.mpr ha

end Rounds

/-! ## Whole rounds -/

section Finish

variable [DecidableEq α] [LinearOrder κ] {plan : Plan α κ} {items : List α} {s t : State α}

/-- What is left once a batch has been visited. -/
def Plan.leaveAll (plan : Plan α κ) (left batch : List α) : List α := batch.foldl plan.leave left

omit [LinearOrder κ] in
theorem leaveAll_sublist (left batch : List α) : (plan.leaveAll left batch).Sublist left := by
  induction batch generalizing left with
  | nil => exact List.Sublist.refl left
  | cons a batch ih => exact (ih _).trans (leave_sublist left a)

omit [LinearOrder κ] in
theorem mem_leaveAll_of_stays {left batch : List α} {b : α} (hb : b ∈ left)
    (hstays : plan.leaves b = false) : b ∈ plan.leaveAll left batch := by
  induction batch generalizing left with
  | nil => exact hb
  | cons a batch ih => exact ih (mem_leave_of_stays hb hstays)

theorem run_visits (left handled pending : List α) (finished : Bool) :
    run (step plan) ⟨left, handled, pending, finished⟩ (pending.map fun _ => .visit) =
      some ⟨plan.leaveAll left pending, handled ++ pending, [], finished⟩ := by
  induction pending generalizing left handled with
  | nil => rw [List.append_nil]; rfl
  | cons a pending ih =>
    rw [List.map_cons, run_cons]
    refine (ih (plan.leave left a) (handled ++ [a])).trans ?_
    rw [List.append_assoc, List.singleton_append]
    rfl

/-- A round that finds something: the selection, and a visit for each item of the batch. -/
theorem run_round (hsize : 0 < plan.size) {left handled ordered : List α}
    (hgoal : handled.length < plan.goal) (hleft : left ≠ [])
    (hordered : plan.Ordering left ordered) :
    let batch := ordered.take plan.size
    run (step plan) ⟨left, handled, [], false⟩ (.select ordered :: batch.map fun _ => .visit) =
      some ⟨plan.leaveAll left batch, handled ++ batch, [], false⟩ := by
  refine run_cons_eq_some.mpr ⟨_, step_select rfl rfl hgoal hordered, ?_⟩
  rw [run_visits, List.isEmpty_eq_false_iff.mpr (take_ne_nil hsize hleft hordered)]

/-- The run that a choice of selections leads to, when each keeps `J` for the next. -/
theorem exists_finish {J : List α → List α → Prop} (hsize : 0 < plan.size)
    (hround : ∀ left handled, J left handled → handled.length < plan.goal → left ≠ [] →
      ∃ ordered, plan.Ordering left ordered ∧
        J (plan.leaveAll left (ordered.take plan.size)) (handled ++ ordered.take plan.size))
    {left handled : List α} (hJ : J left handled) :
    ∃ as t, run (step plan) ⟨left, handled, [], false⟩ as = some t ∧ t.finished ∧
      J t.left t.handled ∧ (plan.goal ≤ t.handled.length ∨ t.left = []) := by
  by_cases hgoal : handled.length < plan.goal
  · by_cases hleft : left = []
    · subst hleft
      refine ⟨[.select []], ⟨[], handled, [], true⟩, ?_, rfl, hJ, .inr rfl⟩
      rw [run_cons, step_select rfl rfl hgoal ⟨List.Perm.refl _, List.Pairwise.nil⟩, List.take_nil]
      rfl
    · obtain ⟨ordered, hordered, hJ'⟩ := hround left handled hJ hgoal hleft
      have hbatch := List.length_pos_iff.mpr (take_ne_nil hsize hleft hordered)
      obtain ⟨as, t, hrun, hend⟩ := exists_finish hsize hround hJ'
      exact ⟨_, t, run_append_eq_some.mpr ⟨_, run_round hsize hgoal hleft hordered, hrun⟩, hend⟩
  · rw [Nat.not_lt] at hgoal
    refine ⟨[.stop], ⟨left, handled, [], true⟩, ?_, rfl, hJ, .inl hgoal⟩
    rw [run_cons, step_stop rfl rfl hgoal]
    rfl
termination_by plan.goal - handled.length
decreasing_by
  rw [List.length_append]
  omega

/-- A run never gets stuck. -/
theorem can_finish (hsize : 0 < plan.size) (hs : Sound items s) :
    ∃ as t, run (step plan) s as = some t ∧ t.finished := by
  obtain ⟨left, handled, pending, finished⟩ := s
  cases finished with
  | true => exact ⟨[], _, rfl, rfl⟩
  | false =>
    obtain ⟨as, t, hrun, hfinished, -⟩ := exists_finish (J := fun _ _ => True) hsize
      (fun left _ _ _ _ => ⟨_, ordering_sorted plan left, trivial⟩) trivial
    exact ⟨_, t, run_append_eq_some.mpr ⟨_, run_visits .., hrun⟩, hfinished⟩

end Finish

/-! ## Runs that do not fit -/

section Starving

variable [LinearOrder κ] {plan : Plan α κ} {items : List α} {s t : State α} {action : Action α}
  {a : α} {left handled : List α}

theorem length_sorted_newer (plan : Plan α κ) (a : α) (left : List α) :
    (plan.sorted (plan.newer left a)).length = (plan.newer left a).length :=
  (ordering_sorted plan _).1.length_eq

theorem length_le_newer (hsound : Sound items ⟨left, handled, [], false⟩) (hnodup : handled.Nodup)
    (hnewer : ∀ b ∈ handled, plan.key a < plan.key b) :
    handled.length ≤ (plan.newer items a).length := by
  refine (List.subperm_of_subset hnodup fun b hb => ?_).length_le
  have hb' : b ∈ items := hsound.taken_subset b (List.mem_append_left _ hb)
  exact List.mem_filter.mpr ⟨hb', decide_eq_true (hnewer b hb)⟩

theorem mem_left_of_ahead (hsound : Sound items ⟨left, handled, [], false⟩) (ha : a ∈ items)
    (hnewer : ∀ b ∈ handled, plan.key a < plan.key b) : a ∈ left := by
  refine (hsound.covers a ha).resolve_right fun h => ?_
  rw [State.taken, List.append_nil] at h
  exact lt_irrefl _ (hnewer a h)

/-- Where an item that stays makes the rounds go wrong: before it is reached, when it
has been handled and will be again, or when some item was handled twice. -/
inductive Starving (plan : Plan α κ) (a : α) (left handled : List α) : Prop where
  | ahead (nodup : handled.Nodup) (dvd : plan.size ∣ handled.length)
      (newer : ∀ b ∈ handled, plan.key a < plan.key b)
  | behind (left_mem : a ∈ left) (mem : a ∈ handled)
      (newer : (plan.newer left a).length < plan.size) (length : handled.length < plan.goal)
  | twice (h : ¬ handled.Nodup)

theorem Starving.finish (hs : Starving plan a left handled)
    (hsound : Sound items ⟨left, handled, [], false⟩) (ha : a ∈ items)
    (hfew : (plan.newer items a).length < plan.early)
    (hend : plan.goal ≤ handled.length ∨ left = []) : ¬ handled.Nodup := by
  cases hs with
  | ahead hnodup _ hnewer =>
    have hleft := List.ne_nil_of_mem (mem_left_of_ahead hsound ha hnewer)
    have hgoal := hend.resolve_right hleft
    have hle := length_le_newer hsound hnodup hnewer
    have hearly : plan.early ≤ plan.goal - 1 := Nat.div_mul_le_self ..
    omega
  | behind hleft _ _ hlt => exact absurd (hend.resolve_right (List.ne_nil_of_mem hleft)) hlt.not_ge
  | twice h => exact h

variable [DecidableEq α]

/-- The goal is overshot by less than a batch. -/
theorem step_taken_le (hs : s.taken.length ≤ plan.goal + plan.size)
    (h : step plan s action = some t) : t.taken.length ≤ plan.goal + plan.size := by
  rcases step_cases h with ⟨ordered, -, -, -, hlt, -, rfl⟩ |
    ⟨a, rest, -, hpending, rfl⟩ | ⟨-, -, -, -, rfl⟩
  · rw [State.taken, List.length_append, List.length_take]
    exact Nat.add_le_add hlt.le (Nat.min_le_left ..)
  · rw [State.taken_visit _ _ hpending]
    exact hs
  · exact hs

/-- A batch that is not full takes everything. -/
def Full (plan : Plan α κ) (items : List α) (s : State α) : Prop :=
  plan.size ∣ s.taken.length ∨ ∀ a ∈ items, a ∈ s.taken

theorem step_full (hsound : Sound items s) (hs : Full plan items s)
    (h : step plan s action = some t) : Full plan items t := by
  rcases step_cases h with ⟨ordered, -, -, hpending, -, hordered, rfl⟩ |
    ⟨a, rest, -, hpending, rfl⟩ | ⟨-, -, -, -, rfl⟩
  · have htaken := State.taken_of_nil hpending
    rcases Nat.le_total plan.size ordered.length with hle | hle
    · refine hs.imp (fun hdvd => ?_) fun hall a ha => List.mem_append_left _ (htaken ▸ hall a ha)
      rw [State.taken, List.length_append, List.length_take, Nat.min_eq_left hle]
      exact Nat.dvd_add (htaken ▸ hdvd) (Nat.dvd_refl _)
    · refine .inr fun a ha => ?_
      rw [State.taken, List.take_of_length_le hle]
      rcases hsound.covers a ha with ha | ha
      · exact List.mem_append_right _ (hordered.1.mem_iff.mpr ha)
      · exact List.mem_append_left _ (htaken ▸ ha)
  · rw [Full, State.taken_visit _ _ hpending]
    exact hs
  · exact hs

theorem rounds_of_right (hitems : items.Nodup) (hgoal : plan.goal ≤ items.length)
    {as : List (Action α)} (hrun : run (step plan) (start items) as = some t)
    (hfinished : t.finished) (hright : Right plan items t) :
    plan.goal = items.length ∨ plan.size ∣ plan.goal := by
  obtain ⟨hsound, hfull⟩ := run_preserves (I := fun s => Sound items s ∧ Full plan items s)
    (fun _ _ _ hs h => ⟨step_sound hs.1 h, step_full hs.1 hs.2 h⟩)
    ⟨sound_start items, .inl (Nat.dvd_zero _)⟩ hrun
  rw [Full, ← hsound.handled_eq hfinished, hright.length] at hfull
  refine hfull.symm.imp (fun hall => ?_) id
  exact hgoal.antisymm (hright.length ▸ (List.subperm_of_subset hitems hall).length_le)

/-- The answer that keeps `a` back as long as it can. -/
def Plan.keeping (plan : Plan α κ) (a : α) (left : List α) : List α :=
  let other := left.filter fun b => !decide (plan.key a < plan.key b)
  plan.sorted (plan.newer left a) ++ a :: plan.sorted (other.erase a)

theorem ordering_keeping (ha : a ∈ left) :
    plan.Ordering left (plan.keeping a left) := by
  set other := left.filter fun b => !decide (plan.key a < plan.key b) with hother
  have ha' : a ∈ other := List.mem_filter.mpr ⟨ha, by simp⟩
  obtain ⟨hnewer, hnewer'⟩ := ordering_sorted plan (plan.newer left a)
  obtain ⟨hperm, hsorted⟩ := ordering_sorted plan (other.erase a)
  have hold : ∀ b ∈ a :: plan.sorted (other.erase a), plan.key b ≤ plan.key a := by
    intro b hb
    rcases List.mem_cons.mp hb with rfl | hb
    · exact le_refl _
    · have hb := List.mem_filter.mp (List.mem_of_mem_erase (hperm.mem_iff.mp hb))
      simpa using hb.2
  constructor
  · exact (hnewer.append ((hperm.cons a).trans (List.perm_cons_erase ha').symm)).trans
      (List.filter_append_perm ..)
  · refine List.pairwise_append.mpr ⟨hnewer', List.pairwise_cons.mpr ⟨fun b hb => ?_, hsorted⟩,
      fun b hb c hc => ?_⟩
    · exact hold b (List.mem_cons_of_mem _ hb)
    · have hb := of_decide_eq_true (List.mem_filter.mp (hnewer.mem_iff.mp hb)).2
      exact (hold c hc).trans hb.le

/-- A batch with room for more than the newer items reaches `a`. -/
theorem mem_take_keeping (h : (plan.newer left a).length < plan.size) :
    a ∈ (plan.keeping a left).take plan.size := by
  obtain ⟨k, hk⟩ := Nat.exists_eq_add_of_lt h
  rw [Plan.keeping, List.take_append, length_sorted_newer,
    show plan.size - (plan.newer left a).length = k + 1 by omega, List.take_succ_cons]
  exact List.mem_append_right _ List.mem_cons_self

theorem take_keeping_of_le (h : plan.size ≤ (plan.newer left a).length) :
    (plan.keeping a left).take plan.size = (plan.sorted (plan.newer left a)).take plan.size :=
  List.take_append_of_le_length (length_sorted_newer plan a left ▸ h)

theorem Starving.round (hs : Starving plan a left handled)
    (hsound : Sound items ⟨left, handled, [], false⟩) (ha : a ∈ items)
    (hstays : plan.leaves a = false) (hfew : (plan.newer items a).length < plan.early) :
    ∃ ordered, plan.Ordering left ordered ∧
      Starving plan a (plan.leaveAll left (ordered.take plan.size))
        (handled ++ ordered.take plan.size) := by
  cases hs with
  | ahead hnodup hdvd hnewer =>
    have hleft := mem_left_of_ahead hsound ha hnewer
    refine ⟨_, ordering_keeping hleft, ?_⟩
    by_cases hnodup' : (handled ++ (plan.keeping a left).take plan.size).Nodup
    · rcases Nat.lt_or_ge (plan.newer left a).length plan.size with hlt | hge
      · have hreached := mem_take_keeping hlt
        refine .behind (mem_leaveAll_of_stays hleft hstays) (List.mem_append_right _ hreached) ?_ ?_
        · exact (((leaveAll_sublist ..).filter _).length_le).trans_lt hlt
        · -- the batch is one of the early ones
          have hle := (length_le_newer hsound hnodup hnewer).trans_lt hfew
          have hle := add_size_le hdvd size_dvd_early hle
          have hearly : plan.early ≤ plan.goal - 1 := Nat.div_mul_le_self ..
          rw [List.length_append, List.length_take]
          omega
      · rw [take_keeping_of_le hge] at hnodup' ⊢
        refine .ahead hnodup' ?_ fun b hb => ?_
        · rw [List.length_append, List.length_take, length_sorted_newer, Nat.min_eq_left hge]
          exact Nat.dvd_add hdvd (Nat.dvd_refl _)
        · rcases List.mem_append.mp hb with hb | hb
          · exact hnewer b hb
          · have hb := (ordering_sorted plan _).1.mem_iff.mp (List.mem_of_mem_take hb)
            exact of_decide_eq_true (List.mem_filter.mp hb).2
    · exact .twice hnodup'
  | behind hleft hmem hnewer _ =>
    refine ⟨_, ordering_keeping hleft, .twice fun hnodup => ?_⟩
    exact (List.nodup_append.mp hnodup).2.2 a hmem a (mem_take_keeping hnewer) rfl
  | twice h => exact ⟨_, ordering_sorted plan left, .twice fun hnodup => h hnodup.of_append_left⟩

end Starving

section Right

variable [DecidableEq α] [LinearOrder κ] {plan : Plan α κ} {items : List α}

theorem stays_of_right (hsize : 0 < plan.size)
    (hright : ∀ as t, run (step plan) (start items) as = some t → t.finished → Right plan items t)
    {a : α} (ha : a ∈ items) (hstays : plan.leaves a = false) :
    plan.early ≤ (plan.newer items a).length := by
  by_contra hfew
  rw [Nat.not_le] at hfew
  obtain ⟨as, t, hrun, hfinished, ⟨hsound, hstarving⟩, hend⟩ := exists_finish
    (J := fun left handled => Sound items ⟨left, handled, [], false⟩ ∧
      Starving plan a left handled) hsize
    (fun left handled hJ hgoal hleft => by
      obtain ⟨ordered, hordered, hstarving⟩ := hJ.2.round hJ.1 ha hstays hfew
      have hrun := run_round hsize hgoal hleft hordered
      exact ⟨ordered, hordered, run_preserves (fun _ _ _ => step_sound) hJ.1 hrun, hstarving⟩)
    ⟨sound_start items, .ahead List.nodup_nil (Nat.dvd_zero _) fun _ h => absurd h List.not_mem_nil⟩
  exact hstarving.finish hsound ha hfew hend (hright as t hrun hfinished).nodup

/-- When every complete run visits what it should. -/
theorem right_iff (hitems : items.Nodup) (hgoal : plan.goal ≤ items.length)
    (hsize : 0 < plan.size) :
    (∀ as t, run (step plan) (start items) as = some t → t.finished → Right plan items t) ↔
      Fits plan items := by
  constructor
  · intro hright
    obtain ⟨as, t, hrun, hfinished⟩ := can_finish hsize (sound_start items)
    have hrounds := rounds_of_right hitems hgoal hrun hfinished (hright as t hrun hfinished)
    exact ⟨hrounds, fun a ha hstays => stays_of_right hsize hright ha hstays⟩
  · exact fun hfits as t hrun hfinished => run_right hitems hfits hgoal hsize hrun hfinished

end Right

end Batches
