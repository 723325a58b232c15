/-
Which swaps the dedup buffer loses.

The buffer has room for one swap per transaction signature.  A swap is dropped
without being emitted when another insertion with its signature takes its place,
or when a notification about another row of its transaction ends the hold.  In
every run without such a notification each inserted swap is emitted or still held
since its insertion, and a tick emits what has been held for the timeout.
-/
import OmnipairIndexer.Grpc.DbListener

namespace OmnipairIndexer

open Transition

namespace DbListener

def State.Emitted (s : State) (id : String) : Prop :=
  ∃ swap ∈ s.emitted, swap.id = id

/-- The row whose insertion an action reports, and when. -/
def insertOf : Action → Option (String × Nat)
  | .notification now (some notif) =>
    if toUppercase notif.op = "INSERT" then some (notif.swap.id, now) else none
  | .notification _ none => none
  | .recvError => none
  | .tick _ _ => none

def insertsOf (actions : List Action) : List (String × Nat) :=
  actions.filterMap insertOf

/-- Every row whose insertion was handled at least the timeout before `now` was
emitted. -/
def NothingLost (dedupTimeout : Nat) (actions : List Action) (now : Nat) (s : State) : Prop :=
  ∀ p ∈ insertsOf actions, p.2 + dedupTimeout ≤ now → s.Emitted p.1

/-- If a swap is held under the signature of a notification, the notification is
about that row, and not an insertion. -/
def KeepsHeld (s : State) : Action → Prop
  | .notification _ (some notif) => ∀ held ∈ s.buffer.lookup notif.swap.txSig,
      toUppercase notif.op ≠ "INSERT" ∧ notif.swap.id = held.1.id
  | .notification _ none => True
  | .recvError => True
  | .tick _ _ => True

instance (s : State) : (action : Action) → Decidable (KeepsHeld s action)
  | .notification _ (some notif) => inferInstanceAs (Decidable
      (∀ held ∈ s.buffer.lookup notif.swap.txSig,
        toUppercase notif.op ≠ "INSERT" ∧ notif.swap.id = held.1.id))
  | .notification _ none => .isTrue trivial
  | .recvError => .isTrue trivial
  | .tick _ _ => .isTrue trivial

/-! ## The buffer -/

theorem mem_timedOut {dedupTimeout : Nat} {now : Nat} {s : State} {txSig : String} :
    txSig ∈ timedOut dedupTimeout now s ↔
      ∃ held, s.buffer.lookup txSig = some held ∧ dedupTimeout ≤ now - held.2 := by
  simp only [timedOut, List.mem_map, List.mem_filter, decide_eq_true_eq]
  constructor
  · rintro ⟨⟨_, held⟩, ⟨hmem, hold⟩, rfl⟩
    exact ⟨held, AList.mem_lookup_iff.mpr hmem, hold⟩
  · rintro ⟨held, hlookup, hold⟩
    exact ⟨⟨txSig, held⟩, ⟨AList.mem_lookup_iff.mp hlookup, hold⟩, rfl⟩

theorem emitted_flush {s : State} {swap : SwapsUpdate} (txSig : String) (h : swap ∈ s.emitted) :
    swap ∈ (flush s txSig).emitted := by
  unfold flush
  cases s.buffer.lookup txSig with
  | none => exact h
  | some held => exact List.mem_append_left _ h

/-- Flushing some signatures leaves the other entries, keeps what was emitted and
emits the swaps held under them. -/
theorem foldl_flush_spec (order : List String) (s : State) :
    (∀ swap ∈ s.emitted, swap ∈ (order.foldl flush s).emitted) ∧
      (∀ txSig, txSig ∉ order →
        (order.foldl flush s).buffer.lookup txSig = s.buffer.lookup txSig) ∧
      ∀ txSig ∈ order, ∀ held, s.buffer.lookup txSig = some held →
        held.1 ∈ (order.foldl flush s).emitted := by
  induction order generalizing s with
  | nil => simp
  | cons first order ih =>
    obtain ⟨hemitted, hother, hflushed⟩ := ih (flush s first)
    have hlookup : ∀ txSig, txSig ≠ first →
        (flush s first).buffer.lookup txSig = s.buffer.lookup txSig := by
      intro txSig hne
      unfold flush
      cases s.buffer.lookup first with
      | none => rfl
      | some held => exact AList.lookup_erase_ne hne
    rw [List.foldl_cons]
    refine ⟨fun swap h => hemitted swap (emitted_flush first h), ?_, ?_⟩
    · intro txSig hnot
      rw [List.mem_cons, not_or] at hnot
      rw [hother txSig hnot.2, hlookup txSig hnot.1]
    · intro txSig hmem held hheld
      by_cases hfirst : txSig = first
      · subst hfirst
        refine hemitted held.1 ?_
        simp [flush, hheld, emitSwap]
      · have hrest := (List.mem_cons.mp hmem).resolve_left hfirst
        exact hflushed txSig hrest held ((hlookup txSig hfirst).trans hheld)

/-! ## Runs -/

/-- Every logged row was emitted, or is held since its insertion. -/
def Kept (log : List (String × Nat)) (s : State) : Prop :=
  ∀ p ∈ log, s.Emitted p.1 ∨
    ∃ txSig held, s.buffer.lookup txSig = some held ∧ held.1.id = p.1 ∧ held.2 ≤ p.2

theorem Kept.handle {log : List (String × Nat)} {s : State} {now : Nat}
    {notif : SwapNotification} (h : Kept log s)
    (hkeeps : KeepsHeld s (.notification now (some notif))) :
    Kept (log ++ (insertOf (.notification now (some notif))).toList) (handle now notif s) := by
  unfold DbListener.handle
  by_cases hop : toUppercase notif.op = "INSERT"
  · rw [if_pos hop, insertOf, if_pos hop]
    have hfree : s.buffer.lookup notif.swap.txSig = none := by
      cases hheld : s.buffer.lookup notif.swap.txSig with
      | none => rfl
      | some held => exact absurd hop (hkeeps held hheld).1
    intro p hp
    rw [Option.toList_some, List.mem_append, List.mem_singleton] at hp
    rcases hp with hp | rfl
    · refine (h p hp).imp_right ?_
      rintro ⟨txSig, held, hlookup, hid, hle⟩
      have hne : txSig ≠ notif.swap.txSig := by
        rintro rfl
        cases hfree.symm.trans hlookup
      exact ⟨txSig, held, (AList.lookup_insert_ne hne).trans hlookup, hid, hle⟩
    · exact Or.inr ⟨_, _, AList.lookup_insert _, rfl, le_rfl⟩
  · rw [if_neg hop, insertOf, if_neg hop]
    intro p hp
    rw [Option.toList_none, List.append_nil] at hp
    rcases h p hp with ⟨swap, hswap, hid⟩ | ⟨txSig, held, hlookup, hid, hle⟩
    · exact Or.inl ⟨swap, List.mem_append_left _ hswap, hid⟩
    · by_cases hsame : txSig = notif.swap.txSig
      · subst hsame
        have hlast : notif.swap.withPrice ∈ s.emitted ++ [notif.swap.withPrice] :=
          List.mem_append_right _ (List.mem_singleton_self _)
        refine Or.inl ⟨notif.swap.withPrice, hlast, ?_⟩
        rw [SwapsUpdate.withPrice_id, (hkeeps held hlookup).2, hid]
      · exact Or.inr ⟨txSig, held, (AList.lookup_erase_ne hsame).trans hlookup, hid, hle⟩

theorem Kept.flushAll {log : List (String × Nat)} {s : State} (h : Kept log s)
    (order : List String) : Kept log (order.foldl flush s) := by
  obtain ⟨hemitted, hother, hflushed⟩ := foldl_flush_spec order s
  intro p hp
  rcases h p hp with ⟨swap, hswap, hid⟩ | ⟨txSig, held, hlookup, hid, hle⟩
  · exact Or.inl ⟨swap, hemitted swap hswap, hid⟩
  · by_cases hmem : txSig ∈ order
    · exact Or.inl ⟨held.1, hflushed txSig hmem held hlookup, hid⟩
    · exact Or.inr ⟨txSig, held, (hother txSig hmem).trans hlookup, hid, hle⟩

variable {dedupTimeout : Nat}

theorem Kept.after {log : List (String × Nat)} {s t : State} {action : Action} (h : Kept log s)
    (hkeeps : KeepsHeld s action) (hstep : step dedupTimeout s action = some t) :
    Kept (log ++ (insertOf action).toList) t := by
  cases action with
  | notification now parsed =>
    cases parsed with
    | none =>
      simp only [step, Option.ite_none_right_eq_some, Option.some.injEq] at hstep
      rw [← hstep.2, insertOf, Option.toList_none, List.append_nil]
      exact h
    | some notif =>
      simp only [step, Option.ite_none_right_eq_some, Option.some.injEq] at hstep
      rw [← hstep.2]
      exact Kept.handle (s := { s with clock := now }) h hkeeps
  | recvError =>
    cases hstep
    rw [insertOf, Option.toList_none, List.append_nil]
    exact h
  | tick now order =>
    simp only [step, Option.ite_none_right_eq_some, Option.some.injEq] at hstep
    rw [← hstep.2, insertOf, Option.toList_none, List.append_nil]
    exact Kept.flushAll (s := { s with clock := now }) h order

theorem Kept.afterRun {log : List (String × Nat)} {s t : State} {actions : List Action}
    (h : Kept log s) (hkeeps : Along (step dedupTimeout) KeepsHeld s actions)
    (hrun : run (step dedupTimeout) s actions = some t) : Kept (log ++ insertsOf actions) t := by
  induction actions generalizing log s with
  | nil =>
    cases hrun
    rw [insertsOf, List.filterMap_nil, List.append_nil]
    exact h
  | cons action actions ih =>
    obtain ⟨u, hstep, hrun⟩ := run_cons_eq_some.mp hrun
    obtain ⟨hkeep, hkeeps⟩ := (along_cons hstep).mp hkeeps
    have := ih (h.after hkeep hstep) hkeeps hrun
    rw [List.append_assoc] at this
    convert this using 2
    rw [insertsOf, List.filterMap_cons]
    cases insertOf action <;> rfl

/-- For every run of notifications and ticks in which the buffer keeps what it
holds, and every tick after it: each row inserted at least the timeout before the
tick was emitted. -/
theorem no_swap_lost (dedupTimeout : Nat) (actions : List Action) (now : Nat)
    (order : List String) (s : State)
    (hrun : run (step dedupTimeout) start (actions ++ [.tick now order]) = some s)
    (hkeeps : Along (step dedupTimeout) KeepsHeld start actions) :
    NothingLost dedupTimeout actions now s := by
  obtain ⟨t, hactions, htick⟩ := run_concat_eq_some.mp hrun
  have hkept : Kept (insertsOf actions) t := by
    have hnone : Kept [] start := fun p hp => nomatch hp
    have := hnone.afterRun hkeeps hactions
    rwa [List.nil_append] at this
  simp only [step, Option.ite_none_right_eq_some, Option.some.injEq] at htick
  obtain ⟨⟨-, horder⟩, rfl⟩ := htick
  obtain ⟨hemitted, -, hflushed⟩ := foldl_flush_spec order { t with clock := now }
  intro p hp hold
  rcases hkept p hp with ⟨swap, hswap, hid⟩ | ⟨txSig, held, hlookup, hid, hle⟩
  · exact ⟨swap, hemitted swap hswap, hid⟩
  · have htimedOut : txSig ∈ timedOut dedupTimeout now t :=
      mem_timedOut.mpr ⟨held, hlookup, by omega⟩
    exact ⟨held.1, hflushed txSig (horder.mem_iff.mpr htimedOut) held hlookup, hid⟩

/-! ## A lost swap -/

def inserted (id txSig : String) : SwapNotification :=
  ⟨"INSERT", ⟨id, "pair", "user", true, "1", "1", "1", "1", "now", txSig, "7", "0", "0", "", 0, ""⟩⟩

/-- Two swaps of different transactions. -/
def apart : List Action :=
  [.notification 0 (some (inserted "1" "a")), .notification 1 (some (inserted "2" "b"))]

theorem no_swap_lost_apart :
    ∃ s, run (step 5) start (apart ++ [.tick 6 ["b", "a"]]) = some s ∧ NothingLost 5 apart 6 s := by
  obtain ⟨s, hs⟩ := Option.isSome_iff_exists.mp
    (show (run (step 5) start (apart ++ [.tick 6 ["b", "a"]])).isSome by decide +kernel)
  exact ⟨s, hs, no_swap_lost 5 apart 6 ["b", "a"] s hs (by decide +kernel)⟩

/-- Two swaps of one transaction. -/
def together : List Action :=
  [.notification 0 (some (inserted "1" "a")), .notification 1 (some (inserted "2" "a"))]

/-- Only the second is ever emitted. -/
theorem first_swap_lost :
    ∃ s, run (step 5) start (together ++ [.tick 6 ["a"]]) = some s ∧
      s.emitted.map SwapsUpdate.id = ["2"] ∧ ¬ NothingLost 5 together 6 s := by
  obtain ⟨s, hs⟩ := Option.isSome_iff_exists.mp
    (show (run (step 5) start (together ++ [.tick 6 ["a"]])).isSome by decide +kernel)
  have hids : (run (step 5) start (together ++ [.tick 6 ["a"]])).map
      (fun s => s.emitted.map SwapsUpdate.id) = some ["2"] := by decide +kernel
  rw [hs, Option.map_some, Option.some.injEq] at hids
  refine ⟨s, hs, hids, fun h => ?_⟩
  obtain ⟨swap, hswap, hid⟩ := h ("1", 0) (by decide +kernel) (by decide)
  have := List.mem_map_of_mem (f := SwapsUpdate.id) hswap
  rw [hids, hid] at this
  exact absurd this (by decide)

end DbListener

end OmnipairIndexer
