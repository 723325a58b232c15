/-
A channel that keeps the last `capacity` values for all its receivers.

The values sent are one list, and a receiver is a place in it.  A receiver whose next
value is no longer kept is told how many it missed and goes on at the oldest one kept.
The results a receiver gets therefore tile the list from the place where it subscribed:
a value takes one place and a report of `n` missed values takes `n`.  `Reads` is that
account, and what a receiver was given is read off it.

`recv` is what the documentation of `tokio::sync::broadcast` says of a receiver.  Its code
is not modelled, and that it does so is assumed.
-/
import Mathlib.Algebra.GroupWithZero.Nat
import Mathlib.Data.List.Basic

namespace Broadcast

variable {α : Type*}

inductive Received (α : Type*) where
  | value (a : α)
  | lagged (skipped : Nat)
deriving DecidableEq

/-- The next result and place of a receiver, `none` if it has to wait. -/
def recv (capacity : Nat) (sent : List α) (next : Nat) : Option (Received α × Nat) :=
  let oldest := sent.length - capacity
  if next < oldest then some (.lagged (oldest - next), oldest)
  else sent[next]?.map fun a => (.value a, next + 1)

namespace Received

def width : Received α → Nat
  | value _ => 1
  | lagged skipped => skipped

def skipped : Received α → Nat
  | value _ => 0
  | lagged skipped => skipped

def value? : Received α → Option α
  | value a => some a
  | lagged _ => none

/-- What a result says about the values sent, at the place it was read. -/
def FitsAt (sent : List α) (place : Nat) : Received α → Prop
  | value a => sent[place]? = some a
  | lagged skipped => 0 < skipped ∧ place + skipped ≤ sent.length

theorem FitsAt.le_length {sent : List α} {place : Nat} {r : Received α} (h : r.FitsAt sent place) :
    place + r.width ≤ sent.length := by
  cases r with
  | value a =>
    obtain ⟨hlt, -⟩ := List.getElem?_eq_some_iff.mp h
    exact hlt
  | lagged skipped => exact h.2

theorem FitsAt.append {sent : List α} {place : Nat} {r : Received α} (h : r.FitsAt sent place)
    (more : List α) : r.FitsAt (sent ++ more) place := by
  cases r with
  | value a =>
    obtain ⟨hlt, -⟩ := List.getElem?_eq_some_iff.mp h
    exact (List.getElem?_append_left hlt).trans h
  | lagged skipped =>
    refine ⟨h.1, ?_⟩
    rw [List.length_append]
    have := h.2
    omega

end Received

def values (results : List (Received α)) : List α := results.filterMap Received.value?

def skipped (results : List (Received α)) : Nat := (results.map Received.skipped).sum

@[simp] theorem values_nil : values ([] : List (Received α)) = [] := rfl

@[simp] theorem skipped_nil : skipped ([] : List (Received α)) = 0 := rfl

theorem values_append (results results' : List (Received α)) :
    values (results ++ results') = values results ++ values results' :=
  List.filterMap_append

theorem skipped_append (results results' : List (Received α)) :
    skipped (results ++ results') = skipped results + skipped results' := by
  rw [skipped, List.map_append, List.sum_append]
  rfl

theorem values_cons (r : Received α) (results : List (Received α)) :
    values (r :: results) = r.value?.toList ++ values results :=
  values_append [r] results

theorem skipped_cons (r : Received α) (results : List (Received α)) :
    skipped (r :: results) = r.skipped + skipped results := by
  rw [skipped, List.map_cons, List.sum_cons]
  rfl

/-- The results read from place `start` on lead to place `next`. -/
def Reads (sent : List α) : Nat → List (Received α) → Nat → Prop
  | start, [], next => start = next
  | start, r :: results, next => r.FitsAt sent start ∧ Reads sent (start + r.width) results next

/-- The values a receiver was given, each with its place. -/
def placed : Nat → List (Received α) → List (Nat × α)
  | _, [] => []
  | start, .value a :: results => (start, a) :: placed (start + 1) results
  | start, .lagged skipped :: results => placed (start + skipped) results

/-! ## One receive -/

theorem recv_cases {capacity : Nat} {sent : List α} {next next' : Nat} {r : Received α}
    (h : recv capacity sent next = some (r, next')) :
    (next + capacity < sent.length ∧ r = .lagged (sent.length - capacity - next) ∧
        next' = sent.length - capacity) ∨
      (sent.length ≤ next + capacity ∧ (∃ a, r = .value a ∧ sent[next]? = some a) ∧
        next' = next + 1) := by
  rw [recv] at h
  by_cases hlag : next < sent.length - capacity
  · rw [if_pos hlag, Option.some.injEq, Prod.mk.injEq] at h
    exact .inl ⟨by omega, h.1.symm, h.2.symm⟩
  · rw [if_neg hlag, Option.map_eq_some_iff] at h
    obtain ⟨a, ha, h⟩ := h
    rw [Prod.mk.injEq] at h
    exact .inr ⟨by omega, ⟨a, h.1.symm, ha⟩, h.2.symm⟩

theorem recv_fits {capacity : Nat} {sent : List α} {next next' : Nat} {r : Received α}
    (h : recv capacity sent next = some (r, next')) :
    r.FitsAt sent next ∧ next' = next + r.width := by
  obtain ⟨hlag, rfl, rfl⟩ | ⟨-, ⟨a, rfl, ha⟩, rfl⟩ := recv_cases h
  · refine ⟨⟨by omega, by omega⟩, ?_⟩
    rw [Received.width]
    omega
  · exact ⟨ha, rfl⟩

/-- A receiver waits exactly if it has read everything. -/
theorem recv_eq_none_iff {capacity : Nat} {sent : List α} {next : Nat} :
    recv capacity sent next = none ↔ sent.length ≤ next := by
  rw [recv]
  by_cases hlag : next < sent.length - capacity
  · rw [if_pos hlag]
    exact ⟨fun h => (Option.some_ne_none _ h).elim, fun h => by omega⟩
  · rw [if_neg hlag, Option.map_eq_none_iff, List.getElem?_eq_none_iff]

/-! ## The account -/

namespace Reads

variable {sent : List α} {start next : Nat} {results : List (Received α)}

theorem append (h : Reads sent start results next) (more : List α) :
    Reads (sent ++ more) start results next := by
  induction results generalizing start with
  | nil => exact h
  | cons r results ih => exact ⟨h.1.append more, ih h.2⟩

theorem concat (h : Reads sent start results next) {r : Received α} (hr : r.FitsAt sent next) :
    Reads sent start (results ++ [r]) (next + r.width) := by
  induction results generalizing start with
  | nil =>
    cases h
    exact ⟨hr, rfl⟩
  | cons r' results ih => exact ⟨h.1, ih h.2⟩

/-- Every place up to `next` was delivered or reported missed. -/
theorem next_eq (h : Reads sent start results next) :
    next = start + (values results).length + skipped results := by
  induction results generalizing start with
  | nil => exact h.symm
  | cons r results ih =>
    have htail := ih h.2
    rw [values_cons, skipped_cons, List.length_append]
    cases r with
    | value a =>
      simp only [Received.width, Received.skipped, Received.value?, Option.toList_some,
        List.length_singleton] at htail ⊢
      omega
    | lagged n =>
      simp only [Received.width, Received.skipped, Received.value?, Option.toList_none,
        List.length_nil] at htail ⊢
      omega

theorem next_le (h : Reads sent start results next) (hstart : start ≤ sent.length) :
    next ≤ sent.length := by
  induction results generalizing start with
  | nil => exact h ▸ hstart
  | cons r results ih => exact ih h.2 h.1.le_length

theorem drop_of_value {place : Nat} {a : α} (h : sent[place]? = some a) :
    sent.drop place = a :: sent.drop (place + 1) := by
  obtain ⟨hlt, rfl⟩ := List.getElem?_eq_some_iff.mp h
  exact List.drop_eq_getElem_cons hlt

/-- What was delivered is, in order, part of what was sent. -/
theorem values_sublist (h : Reads sent start results next) :
    (values results).Sublist (sent.drop start) := by
  induction results generalizing start with
  | nil => exact List.nil_sublist _
  | cons r results ih =>
    have htail := ih h.2
    rw [values_cons]
    cases r with
    | value a =>
      rw [drop_of_value h.1]
      exact htail.cons_cons a
    | lagged n =>
      refine htail.trans ?_
      rw [Received.width, ← List.drop_drop]
      exact List.drop_sublist _ _

/-- A receiver that missed nothing was given everything up to its place. -/
theorem values_eq_of_skipped (h : Reads sent start results next) (hskip : skipped results = 0) :
    sent.drop start = values results ++ sent.drop next := by
  induction results generalizing start with
  | nil => rw [values_nil, List.nil_append, h]
  | cons r results ih =>
    rw [skipped_cons, Nat.add_eq_zero_iff] at hskip
    cases r with
    | value a =>
      rw [drop_of_value h.1, show start + 1 = start + (Received.value a).width from rfl,
        ih h.2 hskip.2, values_cons]
      rfl
    | lagged n =>
      have hpos := h.1.1
      have hzero : n = 0 := hskip.1
      omega

/-- A receiver that has read to the end was given everything exactly if it missed
nothing. -/
theorem values_eq_iff (h : Reads sent start results sent.length) :
    values results = sent.drop start ↔ skipped results = 0 := by
  constructor
  · intro heq
    have hnext := h.next_eq
    rw [heq, List.length_drop] at hnext
    omega
  · intro hskip
    rw [h.values_eq_of_skipped hskip, List.drop_length, List.append_nil]

end Reads

/-! ## Places -/

theorem Reads.placed_value {sent : List α} {start next : Nat} {results : List (Received α)}
    (h : Reads sent start results next) (a : α) :
    placed start (results ++ [.value a]) = placed start results ++ [(next, a)] := by
  induction results generalizing start with
  | nil =>
    cases h
    rfl
  | cons r results ih =>
    cases r with
    | value b => exact congrArg _ (ih h.2)
    | lagged n => exact ih h.2

theorem placed_lagged (start skipped : Nat) (results : List (Received α)) :
    placed start (results ++ [.lagged skipped]) = placed start results := by
  induction results generalizing start with
  | nil => rfl
  | cons r results ih =>
    cases r with
    | value b => exact congrArg ((start, b) :: ·) (ih (start + 1))
    | lagged n => exact ih (start + n)

/-- What has a place was sent there. -/
theorem Reads.getElem_of_placed {sent : List α} {start next : Nat} {results : List (Received α)}
    (h : Reads sent start results next) {p : Nat × α} (hp : p ∈ placed start results) :
    sent[p.1]? = some p.2 := by
  induction results generalizing start with
  | nil => cases hp
  | cons r results ih =>
    cases r with
    | value b =>
      obtain rfl | hp := List.mem_cons.mp hp
      · exact h.1
      · exact ih h.2 hp
    | lagged n => exact ih h.2 hp

@[simp] theorem map_snd_placed (start : Nat) (results : List (Received α)) :
    (placed start results).map Prod.snd = values results := by
  induction results generalizing start with
  | nil => rfl
  | cons r results ih =>
    cases r with
    | value a => exact congrArg (a :: ·) (ih (start + 1))
    | lagged n => exact ih (start + n)

/-- A part of a list that has for every key as much as the list is the list. -/
theorem eq_of_filter_key {κ : Type*} [DecidableEq κ] (key : α → κ) {part whole : List α}
    (h : part.Sublist whole)
    (hkey : ∀ k, part.filter (fun a => key a = k) = whole.filter fun a => key a = k) :
    part = whole := by
  induction h with
  | slnil => rfl
  | @cons part whole a h ih =>
    have hlen := congrArg List.length (hkey (key a))
    have hle := (h.filter fun b => key b = key a).length_le
    rw [List.filter_cons_of_pos (by simp), List.length_cons] at hlen
    omega
  | @cons_cons part whole a h ih =>
    refine congrArg (a :: ·) (ih fun k => ?_)
    have hk := hkey k
    by_cases ha : key a = k
    · rw [List.filter_cons_of_pos (by simpa using ha), List.filter_cons_of_pos (by simpa using ha)]
        at hk
      exact List.tail_eq_of_cons_eq hk
    · rwa [List.filter_cons_of_neg (by simpa using ha), List.filter_cons_of_neg (by simpa using ha)]
        at hk

end Broadcast
