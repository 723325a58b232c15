/-
What the listener does for one transaction signature.

`Slot` is the entry of one signature as an automaton of its own, which sees the
notifications about its signature and the instants of the ticks.  `emissions_eq` says
that the listener, with one hash map for all signatures, emits for each signature what
this automaton emits, so other notifications do not matter.

`emissions_of_transaction` reads the automaton for a transaction with one swap: an
insertion and then updates.
-/
import OmnipairIndexer.Grpc.HeldSwaps

namespace OmnipairIndexer

open Transition

namespace DbListener

/-! ## One signature -/

/-- What the entry of a signature sees. -/
inductive Event where
  | notification (now : Nat) (notif : SwapNotification)
  | tick (now : Nat)

def eventOf (txSig : String) : Action → Option Event
  | .notification now (some notif) =>
    if notif.swap.txSig = txSig then some (.notification now notif) else none
  | .notification _ none => none
  | .recvError => none
  | .tick now _ => some (.tick now)

def eventsOf (txSig : String) (actions : List Action) : List Event :=
  actions.filterMap (eventOf txSig)

theorem eventsOf_cons (txSig : String) (action : Action) (actions : List Action) :
    eventsOf txSig (action :: actions) =
      (eventOf txSig action).toList ++ eventsOf txSig actions := by
  rw [eventsOf, List.filterMap_cons]
  cases eventOf txSig action <;> rfl

theorem eventsOf_append (txSig : String) (actions actions' : List Action) :
    eventsOf txSig (actions ++ actions') = eventsOf txSig actions ++ eventsOf txSig actions' :=
  List.filterMap_append

abbrev Slot := Option Held

namespace Slot

/-- The next entry, and what is emitted. -/
def next (dedupTimeout : Nat) (slot : Slot) : Event → Slot × List SwapsUpdate
  | .notification now notif =>
    if toUppercase notif.op = "INSERT" then (some (notif.swap.withPrice, now), [])
    else (none, [notif.swap.withPrice])
  | .tick now =>
    match slot with
    | some (swap, since) => if dedupTimeout ≤ now - since then (none, [swap]) else (slot, [])
    | none => (none, [])

def after (dedupTimeout : Nat) (slot : Slot) (events : List Event) : Slot :=
  events.foldl (fun slot event => (slot.next dedupTimeout event).1) slot

def emits (dedupTimeout : Nat) : Slot → List Event → List SwapsUpdate
  | _, [] => []
  | slot, event :: events =>
    (slot.next dedupTimeout event).2 ++ emits dedupTimeout (slot.next dedupTimeout event).1 events

variable {dedupTimeout : Nat}

theorem emits_append (slot : Slot) (events events' : List Event) :
    slot.emits dedupTimeout (events ++ events') =
      slot.emits dedupTimeout events ++
        (slot.after dedupTimeout events).emits dedupTimeout events' := by
  induction events generalizing slot with
  | nil => rfl
  | cons event events ih =>
    rw [List.cons_append, emits, emits, ih, List.append_assoc]
    rfl

end Slot

def emissionsOf (txSig : String) (s : State) : List SwapsUpdate :=
  s.emitted.filter fun swap => swap.txSig = txSig

/-- What is held under a signature has it. -/
def Keyed (s : State) : Prop :=
  ∀ txSig held, s.buffer.lookup txSig = some held → held.1.txSig = txSig

/-! ## The listener as the automata side by side -/

section Refinement

variable {dedupTimeout : Nat} {s t : State} {txSig : String}

@[simp] theorem SwapsUpdate.withPrice_txSig (swap : SwapsUpdate) :
    swap.withPrice.txSig = swap.txSig := rfl

theorem emissionsOf_emitSwap (swap : SwapsUpdate) (s : State) :
    emissionsOf txSig (emitSwap swap s) =
      emissionsOf txSig s ++ if swap.txSig = txSig then [swap] else [] := by
  rw [emissionsOf, emitSwap, List.filter_append, List.filter_singleton]
  by_cases h : swap.txSig = txSig <;> simp [h, emissionsOf]

theorem Keyed.insert (h : Keyed s) (swap : SwapsUpdate) {now : Nat} :
    Keyed { s with buffer := s.buffer.insert swap.txSig (swap, now) } := by
  intro key held hheld
  by_cases hkey : key = swap.txSig
  · subst hkey
    rw [AList.lookup_insert, Option.some.injEq] at hheld
    rw [← hheld]
  · exact h key held ((AList.lookup_insert_ne hkey).symm.trans hheld)

theorem Keyed.erase (h : Keyed s) (txSig : String) :
    Keyed { s with buffer := s.buffer.erase txSig } := by
  intro key held hheld
  by_cases hkey : key = txSig
  · subst hkey
    rw [AList.lookup_erase] at hheld
    cases hheld
  · exact h key held ((AList.lookup_erase_ne hkey).symm.trans hheld)

/-- The entry of a signature and what is emitted for it are those of the automaton. -/
structure Follows (dedupTimeout : Nat) (txSig : String) (s t : State) (events : List Event) :
    Prop where
  slot : t.buffer.lookup txSig = Slot.after dedupTimeout (s.buffer.lookup txSig) events
  emitted : emissionsOf txSig t =
    emissionsOf txSig s ++ Slot.emits dedupTimeout (s.buffer.lookup txSig) events

theorem Keyed.handle (h : Keyed s) (now : Nat) (notif : SwapNotification) :
    Keyed (handle now notif s) := by
  unfold DbListener.handle
  split
  · exact h.insert notif.swap.withPrice
  · exact h.erase _

theorem handle_follows (now : Nat) (notif : SwapNotification) (s : State) :
    Follows dedupTimeout txSig s (handle now notif s)
      (eventOf txSig (.notification now (some notif))).toList := by
  by_cases hsig : notif.swap.txSig = txSig
  · subst hsig
    rw [eventOf, if_pos rfl, Option.toList_some]
    by_cases hop : toUppercase notif.op = "INSERT"
    · constructor
      · simp only [handle, Slot.after, Slot.next, hop, if_true, List.foldl_cons, List.foldl_nil]
        exact AList.lookup_insert _
      · simp only [handle, Slot.emits, Slot.next, hop, if_true, List.append_nil, emissionsOf]
    · constructor
      · simp only [handle, Slot.after, Slot.next, hop, if_false, List.foldl_cons, List.foldl_nil]
        exact AList.lookup_erase _ _
      · simp only [handle, Slot.emits, Slot.next, hop, if_false, List.append_nil]
        rw [emissionsOf_emitSwap, SwapsUpdate.withPrice_txSig, if_pos rfl]
        rfl
  · rw [eventOf, if_neg hsig, Option.toList_none]
    have hne : txSig ≠ notif.swap.txSig := fun h => hsig h.symm
    unfold handle
    split
    · exact ⟨AList.lookup_insert_ne hne, (List.append_nil _).symm⟩
    · refine ⟨AList.lookup_erase_ne hne, ?_⟩
      rw [emissionsOf_emitSwap, SwapsUpdate.withPrice_txSig, if_neg hsig]
      rfl

theorem Keyed.flush (h : Keyed s) (first : String) : Keyed (flush s first) := by
  unfold DbListener.flush
  split
  · exact h.erase first
  · exact h

theorem flush_self (h : Keyed s) (txSig : String) :
    (flush s txSig).buffer.lookup txSig = none ∧
      emissionsOf txSig (flush s txSig) =
        emissionsOf txSig s ++ ((s.buffer.lookup txSig).map Prod.fst).toList := by
  unfold flush
  cases hheld : s.buffer.lookup txSig with
  | none => exact ⟨hheld, (List.append_nil _).symm⟩
  | some held =>
    refine ⟨AList.lookup_erase _ _, ?_⟩
    rw [emissionsOf_emitSwap, if_pos (h txSig held hheld)]
    rfl

theorem flush_of_ne {first : String} (h : Keyed s) (hne : txSig ≠ first) :
    (flush s first).buffer.lookup txSig = s.buffer.lookup txSig ∧
      emissionsOf txSig (flush s first) = emissionsOf txSig s := by
  unfold flush
  cases hheld : s.buffer.lookup first with
  | none => exact ⟨rfl, rfl⟩
  | some held =>
    refine ⟨AList.lookup_erase_ne hne, ?_⟩
    rw [emissionsOf_emitSwap, if_neg fun heq => hne (heq.symm.trans (h first held hheld)),
      List.append_nil]
    rfl

/-- What a flush does to one signature, whatever else is flushed. -/
theorem foldl_flush_follows (h : Keyed s) (order : List String) (txSig : String) :
    Keyed (order.foldl flush s) ∧
      (order.foldl flush s).buffer.lookup txSig =
        (if txSig ∈ order then none else s.buffer.lookup txSig) ∧
      emissionsOf txSig (order.foldl flush s) = emissionsOf txSig s ++
        if txSig ∈ order then ((s.buffer.lookup txSig).map Prod.fst).toList else [] := by
  induction order generalizing s with
  | nil => exact ⟨h, rfl, (List.append_nil _).symm⟩
  | cons first order ih =>
    obtain ⟨hkeyed, hlookup, hemitted⟩ := ih (h.flush first)
    rw [List.foldl_cons]
    refine ⟨hkeyed, ?_⟩
    by_cases hfirst : txSig = first
    · subst hfirst
      obtain ⟨hnone, hself⟩ := flush_self h txSig
      rw [hlookup, hemitted, hself, hnone]
      simp
    · obtain ⟨hsame, hself⟩ := flush_of_ne h hfirst
      rw [hlookup, hemitted, hself, hsame]
      simp [hfirst]

theorem tick_follows (h : Keyed s) {now : Nat} {order : List String}
    (horder : order.Perm (timedOut dedupTimeout now s)) :
    Follows dedupTimeout txSig s (order.foldl flush { s with clock := now }) [.tick now] := by
  have hmem : txSig ∈ order ↔
      ∃ held, s.buffer.lookup txSig = some held ∧ dedupTimeout ≤ now - held.2 :=
    horder.mem_iff.trans mem_timedOut
  obtain ⟨-, hlookup, hemitted⟩ := foldl_flush_follows (s := { s with clock := now }) h order txSig
  constructor
  · rw [hlookup]
    change _ = (Slot.next dedupTimeout (s.buffer.lookup txSig) (.tick now)).1
    cases hheld : s.buffer.lookup txSig with
    | none => simp [Slot.next]
    | some held =>
      simp only [hheld, Option.some.injEq, exists_eq_left'] at hmem
      by_cases hold : dedupTimeout ≤ now - held.2 <;> simp [Slot.next, hmem, hold]
  · rw [hemitted]
    change _ = emissionsOf txSig s ++
      ((Slot.next dedupTimeout (s.buffer.lookup txSig) (.tick now)).2 ++ [])
    cases hheld : s.buffer.lookup txSig with
    | none => simp [Slot.next, emissionsOf]
    | some held =>
      simp only [hheld, Option.some.injEq, exists_eq_left'] at hmem
      by_cases hold : dedupTimeout ≤ now - held.2 <;> simp [Slot.next, hmem, hold, emissionsOf]

/-- A step of the listener is a step of each automaton, or none. -/
theorem step_follows {action : Action} (h : Keyed s) (hstep : step dedupTimeout s action = some t)
    (txSig : String) : Keyed t ∧ Follows dedupTimeout txSig s t (eventOf txSig action).toList := by
  have hsame : ∀ now, Follows dedupTimeout txSig s { s with clock := now } [] :=
    fun now => ⟨rfl, (List.append_nil _).symm⟩
  cases action with
  | notification now parsed =>
    cases parsed with
    | none =>
      simp only [step, Option.ite_none_right_eq_some, Option.some.injEq] at hstep
      exact hstep.2 ▸ ⟨h, hsame now⟩
    | some notif =>
      simp only [step, Option.ite_none_right_eq_some, Option.some.injEq] at hstep
      have hfollows : Follows dedupTimeout txSig { s with clock := now } _ _ :=
        handle_follows now notif _
      exact hstep.2 ▸ ⟨Keyed.handle (s := { s with clock := now }) h now notif,
        hfollows.slot, hfollows.emitted⟩
  | recvError =>
    cases hstep
    exact ⟨h, hsame s.clock⟩
  | tick now order =>
    simp only [step, Option.ite_none_right_eq_some, Option.some.injEq] at hstep
    obtain ⟨⟨-, horder⟩, rfl⟩ := hstep
    exact ⟨(foldl_flush_follows (s := { s with clock := now }) h order txSig).1,
      tick_follows h horder⟩

theorem run_follows {actions : List Action} (h : Keyed s)
    (hrun : run (step dedupTimeout) s actions = some t) (txSig : String) :
    Follows dedupTimeout txSig s t (eventsOf txSig actions) := by
  induction actions generalizing s with
  | nil =>
    obtain rfl := Option.some.inj hrun
    exact ⟨rfl, (List.append_nil _).symm⟩
  | cons action actions ih =>
    obtain ⟨u, hstep, hrun⟩ := run_cons_eq_some.mp hrun
    obtain ⟨hkeyed, hfirst⟩ := step_follows h hstep txSig
    have hrest := ih hkeyed hrun
    rw [eventsOf_cons]
    constructor
    · rw [hrest.slot, hfirst.slot, Slot.after, Slot.after, Slot.after, List.foldl_append]
    · rw [hrest.emitted, hfirst.emitted, hfirst.slot, Slot.emits_append, List.append_assoc]

/-- For every run and every signature the listener emits what the automaton of the
signature does. -/
theorem emissions_eq {actions : List Action} (hrun : run (step dedupTimeout) start actions = some s)
    (txSig : String) :
    emissionsOf txSig s = Slot.emits dedupTimeout none (eventsOf txSig actions) :=
  (run_follows (fun _ _ hheld => by cases hheld) hrun txSig).emitted

end Refinement

/-! ## A transaction with one swap -/

/-- The notifications about a signature, in order of arrival. -/
def notificationOf (txSig : String) : Action → Option SwapNotification
  | .notification _ (some notif) => if notif.swap.txSig = txSig then some notif else none
  | .notification _ none => none
  | .recvError => none
  | .tick _ _ => none

def notificationsOf (txSig : String) (actions : List Action) : List SwapNotification :=
  actions.filterMap (notificationOf txSig)

theorem notificationsOf_cons (txSig : String) (action : Action) (actions : List Action) :
    notificationsOf txSig (action :: actions) =
      (notificationOf txSig action).toList ++ notificationsOf txSig actions := by
  rw [notificationsOf, List.filterMap_cons]
  cases notificationOf txSig action <;> rfl

/-- Before the first notification about the signature comes a tick at which an entry made
at `since` is old enough. -/
def TimesOut (dedupTimeout : Nat) (txSig : String) (since : Nat) (actions : List Action) : Prop :=
  ∃ early now order late, actions = early ++ .tick now order :: late ∧
    notificationsOf txSig early = [] ∧ dedupTimeout ≤ now - since

section OneSwap

variable {dedupTimeout since : Nat} {txSig : String} {action : Action} {actions : List Action}

theorem not_timesOut_nil : ¬ TimesOut dedupTimeout txSig since [] := by
  rintro ⟨early, now, order, late, h, -, -⟩
  exact absurd h (by simp)

theorem timesOut_cons_iff : TimesOut dedupTimeout txSig since (action :: actions) ↔
    (∃ now order, action = .tick now order ∧ dedupTimeout ≤ now - since) ∨
      notificationOf txSig action = none ∧ TimesOut dedupTimeout txSig since actions := by
  constructor
  · rintro ⟨early, now, order, late, h, hnone, hold⟩
    cases early with
    | nil =>
      obtain ⟨rfl, -⟩ := List.cons.inj h
      exact Or.inl ⟨now, order, rfl, hold⟩
    | cons first early =>
      obtain ⟨rfl, rfl⟩ := List.cons.inj h
      rw [notificationsOf, List.filterMap_eq_nil_iff] at hnone
      refine Or.inr ⟨hnone _ List.mem_cons_self, early, now, order, late, rfl, ?_, hold⟩
      exact List.filterMap_eq_nil_iff.mpr fun a ha => hnone a (List.mem_cons_of_mem _ ha)
  · rintro (⟨now, order, rfl, hold⟩ | ⟨hnone, early, now, order, late, rfl, hearly, hold⟩)
    · exact ⟨[], now, order, actions, rfl, rfl, hold⟩
    · refine ⟨action :: early, now, order, late, rfl, ?_, hold⟩
      rw [notificationsOf, List.filterMap_cons, hnone]
      exact hearly

/-- An action is nothing to a signature, a notification about it, or a tick. -/
theorem eventOf_cases (txSig : String) (action : Action) :
    (eventOf txSig action = none ∧ notificationOf txSig action = none ∧
        ∀ now order, action ≠ .tick now order) ∨
      (∃ now notif, eventOf txSig action = some (.notification now notif) ∧
        notificationOf txSig action = some notif ∧ ∀ now order, action ≠ .tick now order) ∨
      ∃ now order, action = .tick now order := by
  cases action with
  | notification now parsed =>
    cases parsed with
    | none => exact Or.inl ⟨rfl, rfl, by simp⟩
    | some notif =>
      by_cases h : notif.swap.txSig = txSig
      · exact Or.inr (Or.inl ⟨now, notif, if_pos h, if_pos h, by simp⟩)
      · exact Or.inl ⟨if_neg h, if_neg h, by simp⟩
  | recvError => exact Or.inl ⟨rfl, rfl, by simp⟩
  | tick now order => exact Or.inr (Or.inr ⟨now, order, rfl⟩)

/-- An empty slot passes every update on. -/
theorem emits_none (hactions : ∀ notif ∈ notificationsOf txSig actions,
    toUppercase notif.op = "UPDATE") :
    Slot.emits dedupTimeout none (eventsOf txSig actions) =
      (notificationsOf txSig actions).map fun notif => notif.swap.withPrice := by
  induction actions with
  | nil => rfl
  | cons action actions ih =>
    rw [notificationsOf_cons] at hactions ⊢
    rw [eventsOf_cons]
    obtain ⟨hevent, hnone, -⟩ | ⟨now, notif, hevent, hnotif, -⟩ | ⟨now, order, rfl⟩ :=
      eventOf_cases txSig action
    · rw [hnone] at hactions ⊢
      rw [hevent]
      exact ih hactions
    · rw [hnotif, Option.toList_some, List.singleton_append, List.forall_mem_cons] at hactions
      have hop : ¬ toUppercase notif.op = "INSERT" := by
        rw [hactions.1]
        decide
      rw [hevent, hnotif, Option.toList_some, Option.toList_some, List.singleton_append,
        List.singleton_append, Slot.emits, Slot.next, if_neg hop, List.map_cons,
        List.singleton_append]
      exact congrArg _ (ih hactions.2)
    · exact ih hactions

/-- What is held comes out once, before the updates, if a tick finds it old enough before
the first of them. -/
theorem emits_held (swap : SwapsUpdate) (hactions : ∀ notif ∈ notificationsOf txSig actions,
    toUppercase notif.op = "UPDATE") :
    ∃ held, Slot.emits dedupTimeout (some (swap, since)) (eventsOf txSig actions) =
        held ++ (notificationsOf txSig actions).map (fun notif => notif.swap.withPrice) ∧
      (held = [swap] ∧ TimesOut dedupTimeout txSig since actions ∨
        held = [] ∧ ¬ TimesOut dedupTimeout txSig since actions) := by
  induction actions with
  | nil => exact ⟨[], rfl, Or.inr ⟨rfl, not_timesOut_nil⟩⟩
  | cons action actions ih =>
    have hall := hactions
    rw [notificationsOf_cons] at hactions ⊢
    rw [eventsOf_cons, timesOut_cons_iff]
    obtain ⟨hevent, hnone, htick⟩ | ⟨now, notif, hevent, hnotif, htick⟩ | ⟨now, order, rfl⟩ :=
      eventOf_cases txSig action
    · rw [hnone] at hactions ⊢
      rw [hevent]
      simpa [htick] using ih hactions
    · have hupdates : Slot.emits dedupTimeout none (eventsOf txSig (action :: actions)) = _ :=
        emits_none hall
      rw [hnotif, Option.toList_some, List.singleton_append, List.forall_mem_cons] at hactions
      have hop : ¬ toUppercase notif.op = "INSERT" := by
        rw [hactions.1]
        decide
      refine ⟨[], ?_, Or.inr ⟨rfl, by simp [htick, hnotif]⟩⟩
      -- An update is passed on whether something is held or not.
      rw [eventsOf_cons, notificationsOf_cons] at hupdates
      rw [← hupdates.trans (List.nil_append _).symm, hevent, Option.toList_some,
        List.singleton_append, Slot.emits, Slot.emits, Slot.next, Slot.next, if_neg hop]
    · by_cases hold : dedupTimeout ≤ now - since
      · refine ⟨[swap], ?_, Or.inl ⟨rfl, Or.inl ⟨now, order, rfl, hold⟩⟩⟩
        rw [eventOf, Option.toList_some, List.singleton_append, Slot.emits, Slot.next, if_pos hold]
        exact congrArg _ (emits_none hactions)
      · obtain ⟨held, hemits, hheld⟩ := ih hactions
        refine ⟨held, ?_, ?_⟩
        · rw [eventOf, Option.toList_some, List.singleton_append, Slot.emits, Slot.next,
            if_neg hold]
          exact hemits
        · have htimesOut : ((∃ now' order', Action.tick now order = .tick now' order' ∧
              dedupTimeout ≤ now' - since) ∨
                notificationOf txSig (.tick now order) = none ∧
                  TimesOut dedupTimeout txSig since actions) ↔
              TimesOut dedupTimeout txSig since actions := by
            simp [hold, notificationOf]
          rwa [htimesOut]

/-- Before the first update, what is held has come out or not. -/
theorem emits_held_alone (swap : SwapsUpdate) (hnone : notificationsOf txSig actions = []) :
    (TimesOut dedupTimeout txSig since actions →
      Slot.emits dedupTimeout (some (swap, since)) (eventsOf txSig actions) = [swap]) ∧
    (¬ TimesOut dedupTimeout txSig since actions →
      Slot.emits dedupTimeout (some (swap, since)) (eventsOf txSig actions) = []) := by
  have hactions : ∀ notif ∈ notificationsOf txSig actions, toUppercase notif.op = "UPDATE" := by
    rw [hnone]
    exact fun notif h => absurd h List.not_mem_nil
  obtain ⟨held, hemits, hheld⟩ := emits_held swap hactions
  rw [hnone, List.map_nil, List.append_nil] at hemits
  rw [hemits]
  obtain ⟨rfl, hdue⟩ | ⟨rfl, hnot⟩ := hheld
  · exact ⟨fun _ => rfl, fun hnot => absurd hdue hnot⟩
  · exact ⟨fun hdue => absurd hdue hnot, fun _ => rfl⟩

/-- Ticks do nothing to an empty slot. -/
theorem after_none (hactions : notificationsOf txSig actions = []) :
    Slot.after dedupTimeout none (eventsOf txSig actions) = none := by
  induction actions with
  | nil => rfl
  | cons action actions ih =>
    rw [notificationsOf_cons, List.append_eq_nil_iff, Option.toList_eq_nil_iff] at hactions
    rw [eventsOf_cons]
    obtain ⟨hevent, -, -⟩ | ⟨now, notif, -, hnotif, -⟩ | ⟨now, order, rfl⟩ :=
      eventOf_cases txSig action
    · rw [hevent]
      exact ih hactions.2
    · exact absurd (hnotif.symm.trans hactions.1) (Option.some_ne_none _)
    · exact ih hactions.2

/-- From its insertion on, a transaction is a slot that holds it. -/
theorem emissions_of_inserted {before : List Action} {insertion : SwapNotification} {s : State}
    (hrun : run (step dedupTimeout) start
      (before ++ .notification since (some insertion) :: actions) = some s)
    (hbefore : notificationsOf txSig before = [])
    (hinsertion : insertion.swap.txSig = txSig ∧ toUppercase insertion.op = "INSERT") :
    emissionsOf txSig s = Slot.emits dedupTimeout (some (insertion.swap.withPrice, since))
      (eventsOf txSig actions) := by
  have hnone : ∀ notif ∈ notificationsOf txSig before, toUppercase notif.op = "UPDATE" := by
    rw [hbefore]
    exact fun notif h => absurd h List.not_mem_nil
  have hevent : eventOf txSig (.notification since (some insertion)) =
      some (.notification since insertion) := if_pos hinsertion.1
  rw [emissions_eq hrun, eventsOf_append, Slot.emits_append, after_none hbefore, emits_none hnone,
    hbefore, eventsOf_cons, hevent, Option.toList_some, List.singleton_append, Slot.emits,
    Slot.next, if_pos hinsertion.2]
  rfl

end OneSwap

/-- What the listener emits for a transaction: in every run in which the notifications
about a signature are an insertion, handled at `since`, and then updates, first the
inserted swap, once, exactly if a tick finds it old enough before the first update, then
each update.  The swap comes out at the first such tick, and every run that looks the same
to the signature emits the same for it. -/
theorem emissions_of_transaction (dedupTimeout : Nat) (txSig : String) (before after : List Action)
    (since : Nat) (insertion : SwapNotification) (s : State)
    (hrun : run (step dedupTimeout) start
      (before ++ .notification since (some insertion) :: after) = some s)
    (hbefore : notificationsOf txSig before = [])
    (hinsertion : insertion.swap.txSig = txSig ∧ toUppercase insertion.op = "INSERT")
    (hafter : ∀ notif ∈ notificationsOf txSig after, toUppercase notif.op = "UPDATE") :
    (∃ held, emissionsOf txSig s =
        held ++ (notificationsOf txSig after).map (fun notif => notif.swap.withPrice) ∧
      (held = [insertion.swap.withPrice] ∧ TimesOut dedupTimeout txSig since after ∨
        held = [] ∧ ¬ TimesOut dedupTimeout txSig since after)) ∧
    (∀ early now order late u v, after = early ++ .tick now order :: late →
      notificationsOf txSig early = [] → ¬ TimesOut dedupTimeout txSig since early →
      dedupTimeout ≤ now - since →
      run (step dedupTimeout) start
        (before ++ .notification since (some insertion) :: early) = some u →
      step dedupTimeout u (.tick now order) = some v →
      emissionsOf txSig u = [] ∧ emissionsOf txSig v = [insertion.swap.withPrice]) ∧
    ∀ actions t, run (step dedupTimeout) start actions = some t →
      eventsOf txSig actions =
        eventsOf txSig (before ++ .notification since (some insertion) :: after) →
      emissionsOf txSig t = emissionsOf txSig s := by
  refine ⟨?_, ?_, ?_⟩
  · rw [emissions_of_inserted hrun hbefore hinsertion]
    exact emits_held _ hafter
  · rintro early now order late u v rfl hearly hnot hold hu hv
    have hv' : run (step dedupTimeout) start
        (before ++ .notification since (some insertion) :: (early ++ [.tick now order])) =
          some v := by
      rw [← List.cons_append, ← List.append_assoc]
      exact run_concat_eq_some.mpr ⟨u, hu, hv⟩
    have htick : notificationsOf txSig (early ++ [.tick now order]) = [] := by
      rw [notificationsOf, List.filterMap_append]
      exact List.append_eq_nil_iff.mpr ⟨hearly, rfl⟩
    have hdue : TimesOut dedupTimeout txSig since (early ++ [.tick now order]) :=
      ⟨early, now, order, [], rfl, hearly, hold⟩
    rw [emissions_of_inserted hu hbefore hinsertion, emissions_of_inserted hv' hbefore hinsertion]
    exact ⟨(emits_held_alone _ hearly).2 hnot, (emits_held_alone _ htick).1 hdue⟩
  · intro actions t ht hsame
    rw [emissions_eq ht, emissions_eq hrun, hsame]

/-- The enriched row of a swap. -/
def enriched (id txSig : String) : SwapNotification := ⟨"UPDATE", (inserted id txSig).swap⟩

/-- A swap of another transaction, a tick that comes after the timeout, and the update. -/
def lateUpdate : List Action :=
  [.notification 1 (some (inserted "2" "b")), .tick 6 ["b", "a"],
    .notification 7 (some (enriched "1" "a"))]

theorem emissions_of_transaction_lateUpdate :
    ∃ s, run (step 5) start (.notification 0 (some (inserted "1" "a")) :: lateUpdate) = some s ∧
      emissionsOf "a" s =
        [(inserted "1" "a").swap.withPrice, (enriched "1" "a").swap.withPrice] := by
  obtain ⟨s, hs⟩ := Option.isSome_iff_exists.mp
    (show (run (step 5) start (.notification 0 (some (inserted "1" "a")) :: lateUpdate)).isSome by
      decide +kernel)
  have hnotifications : notificationsOf "a" lateUpdate = [enriched "1" "a"] := rfl
  have hafter : ∀ notif ∈ notificationsOf "a" lateUpdate, toUppercase notif.op = "UPDATE" := by
    rw [hnotifications, List.forall_mem_singleton]
    decide +kernel
  have hdue : TimesOut 5 "a" 0 lateUpdate :=
    ⟨[.notification 1 (some (inserted "2" "b"))], 6, ["b", "a"], _, rfl, rfl, by decide⟩
  obtain ⟨⟨held, hemitted, ⟨rfl, -⟩ | ⟨-, hnot⟩⟩, -, -⟩ :=
    emissions_of_transaction 5 "a" [] lateUpdate 0 (inserted "1" "a") s hs rfl
      ⟨rfl, by decide +kernel⟩ hafter
  · exact ⟨s, hs, by rw [hemitted, hnotifications]; rfl⟩
  · exact absurd hdue hnot

end DbListener

end OmnipairIndexer
