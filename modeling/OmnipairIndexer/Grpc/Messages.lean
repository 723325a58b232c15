/-
What the listener makes of its notifications.

Seen from one signature a step of the listener is a step of an entry, or nothing.  So the
listener holds and emits nothing but what a notification has brought, and a transaction of
which it was told is held until a message about it goes out, at the latest with the tick
after the timeout.
-/
import OmnipairIndexer.Grpc.Dedup

namespace OmnipairIndexer

namespace DbListener

/-- The listener holds the message or has emitted it. -/
def State.Has (s : State) (message : SwapsUpdate) : Prop :=
  message ∈ s.emitted ∨ ∃ txSig since, s.buffer.lookup txSig = some (message, since)

/-- Of the transaction something is held or was emitted. -/
def State.Tells (s : State) (txSig : String) : Prop :=
  s.buffer.lookup txSig ≠ none ∨ emissionsOf txSig s ≠ []

variable {dedupTimeout : Nat} {s t : State} {action : Action} {txSig : String}

theorem eventOf_eq_notification {now : Nat} {notif : SwapNotification}
    (h : eventOf txSig action = some (.notification now notif)) :
    action = .notification now (some notif) ∧ notif.swap.txSig = txSig := by
  cases action with
  | notification now' parsed =>
    cases parsed with
    | none => cases h
    | some notif' =>
      obtain ⟨hsig, heq⟩ := Option.ite_none_right_eq_some.mp h
      cases heq
      exact ⟨rfl, hsig⟩
  | recvError => cases h
  | tick now' order => cases h

/-- What an entry holds it held before, or a notification has just brought it. -/
theorem Slot.held_next {slot : Slot} {event : Event} {message : SwapsUpdate} {since : Nat}
    (h : (slot.next dedupTimeout event).1 = some (message, since)) :
    slot = some (message, since) ∨
      ∃ notif, event = .notification since notif ∧ message = notif.swap.withPrice := by
  cases event with
  | notification now notif =>
    by_cases hop : toUppercase notif.op = "INSERT"
    · simp only [next, if_pos hop] at h
      cases h
      exact .inr ⟨notif, rfl, rfl⟩
    · simp only [next, if_neg hop] at h
      cases h
  | tick now =>
    cases slot with
    | none => cases h
    | some held =>
      by_cases hold : dedupTimeout ≤ now - held.2
      · simp only [next, if_pos hold] at h
        cases h
      · simp only [next, if_neg hold] at h
        exact .inl h

/-- What an entry emits it held before, or a notification has just brought it. -/
theorem Slot.emits_next {slot : Slot} {event : Event} {message : SwapsUpdate}
    (h : message ∈ (slot.next dedupTimeout event).2) :
    (∃ since, slot = some (message, since)) ∨
      ∃ now notif, event = .notification now notif ∧ message = notif.swap.withPrice := by
  cases event with
  | notification now notif =>
    by_cases hop : toUppercase notif.op = "INSERT"
    · simp only [next, if_pos hop] at h
      cases h
    · simp only [next, if_neg hop] at h
      exact .inr ⟨now, notif, rfl, List.mem_singleton.mp h⟩
  | tick now =>
    cases slot with
    | none => cases h
    | some held =>
      by_cases hold : dedupTimeout ≤ now - held.2
      · simp only [next, if_pos hold] at h
        rw [List.mem_singleton.mp h]
        exact .inl ⟨held.2, rfl⟩
      · simp only [next, if_neg hold] at h
        cases h

/-- An entry that is there, or that a notification is about, is there or emits. -/
theorem Slot.next_tells {slot : Slot} {event : Event}
    (h : slot ≠ none ∨ ∃ now notif, event = .notification now notif) :
    (slot.next dedupTimeout event).1 ≠ none ∨ (slot.next dedupTimeout event).2 ≠ [] := by
  cases event with
  | notification now notif =>
    by_cases hop : toUppercase notif.op = "INSERT"
    · exact .inl (by simp only [next, if_pos hop, ne_eq, reduceCtorEq, not_false_eq_true])
    · exact .inr (by simp only [next, if_neg hop]; exact List.cons_ne_nil _ _)
  | tick now =>
    cases slot with
    | none =>
      obtain hslot | ⟨_, _, hevent⟩ := h
      · exact absurd rfl hslot
      · cases hevent
    | some held =>
      by_cases hold : dedupTimeout ≤ now - held.2
      · exact .inr (by simp only [next, if_pos hold]; exact List.cons_ne_nil _ _)
      · exact .inl (by simp only [next, if_neg hold, ne_eq, reduceCtorEq, not_false_eq_true])

/-- A step of the listener, as one signature sees it. -/
theorem slot_of_step (h : Keyed s) (hstep : step dedupTimeout s action = some t)
    (txSig : String) :
    eventOf txSig action = none ∧ t.buffer.lookup txSig = s.buffer.lookup txSig ∧
        emissionsOf txSig t = emissionsOf txSig s ∨
      ∃ event, eventOf txSig action = some event ∧
        t.buffer.lookup txSig = (Slot.next dedupTimeout (s.buffer.lookup txSig) event).1 ∧
        emissionsOf txSig t =
          emissionsOf txSig s ++ (Slot.next dedupTimeout (s.buffer.lookup txSig) event).2 := by
  obtain ⟨hslot, hemitted⟩ := (step_follows h hstep txSig).2
  cases hevent : eventOf txSig action with
  | none =>
    rw [hevent] at hslot hemitted
    exact .inl ⟨rfl, hslot, hemitted.trans (List.append_nil _)⟩
  | some event =>
    rw [hevent] at hslot hemitted
    refine .inr ⟨event, rfl, hslot, ?_⟩
    rw [hemitted, Option.toList_some, Slot.emits, Slot.emits, List.append_nil]

/-- The listener makes up no message. -/
theorem has_of_step (h : Keyed s) (hstep : step dedupTimeout s action = some t)
    {message : SwapsUpdate} (ht : t.Has message) :
    s.Has message ∨
      ∃ now notif, action = .notification now (some notif) ∧ message = notif.swap.withPrice := by
  obtain hemitted | ⟨sig, since, hheld⟩ := ht
  · have hmem : message ∈ emissionsOf message.txSig t :=
      List.mem_filter.mpr ⟨hemitted, decide_eq_true rfl⟩
    obtain ⟨-, -, hsame⟩ | ⟨event, hevent, -, hnext⟩ := slot_of_step h hstep message.txSig
    · rw [hsame] at hmem
      exact .inl (.inl (List.mem_filter.mp hmem).1)
    · rw [hnext] at hmem
      obtain hold | hnew := List.mem_append.mp hmem
      · exact .inl (.inl (List.mem_filter.mp hold).1)
      · obtain ⟨since, hslot⟩ | ⟨now, notif, rfl, hmessage⟩ := Slot.emits_next hnew
        · exact .inl (.inr ⟨_, since, hslot⟩)
        · exact .inr ⟨now, notif, (eventOf_eq_notification hevent).1, hmessage⟩
  · obtain ⟨-, hsame, -⟩ | ⟨event, hevent, hnext, -⟩ := slot_of_step h hstep sig
    · exact .inl (.inr ⟨sig, since, hsame ▸ hheld⟩)
    · rw [hnext] at hheld
      obtain hslot | ⟨notif, rfl, hmessage⟩ := Slot.held_next hheld
      · exact .inl (.inr ⟨sig, since, hslot⟩)
      · exact .inr ⟨since, notif, (eventOf_eq_notification hevent).1, hmessage⟩

/-- A transaction that the listener was told of stays told. -/
theorem tells_of_step (h : Keyed s) (hstep : step dedupTimeout s action = some t)
    (hs : s.Tells txSig ∨
      ∃ now notif, action = .notification now (some notif) ∧ notif.swap.txSig = txSig) :
    t.Tells txSig := by
  unfold State.Tells
  obtain ⟨hnone, hslot, hemitted⟩ | ⟨event, hevent, hslot, hemitted⟩ := slot_of_step h hstep txSig
  · rw [hslot, hemitted]
    obtain htold | ⟨now, notif, rfl, hsig⟩ := hs
    · exact htold
    · rw [eventOf, if_pos hsig] at hnone
      cases hnone
  · rw [hslot, hemitted]
    have hnext (h : s.buffer.lookup txSig ≠ none ∨ ∃ now notif, event = .notification now notif) :
        (Slot.next dedupTimeout (s.buffer.lookup txSig) event).1 ≠ none ∨
          emissionsOf txSig s ++ (Slot.next dedupTimeout (s.buffer.lookup txSig) event).2 ≠ [] :=
      (Slot.next_tells h).imp_right fun hne => List.append_ne_nil_of_right_ne_nil _ hne
    obtain (hheld | hsent) | ⟨now, notif, rfl, hsig⟩ := hs
    · exact hnext (.inl hheld)
    · exact .inr (List.append_ne_nil_of_left_ne_nil hsent _)
    · rw [eventOf, if_pos hsig] at hevent
      cases hevent
      exact hnext (.inr ⟨now, notif, rfl⟩)

theorem clock_foldl_flush (order : List String) (s : State) :
    (order.foldl flush s).clock = s.clock := by
  induction order generalizing s with
  | nil => rfl
  | cons sig order ih =>
    rw [List.foldl_cons, ih, flush]
    cases s.buffer.lookup sig <;> rfl

theorem clock_of_step (hstep : step dedupTimeout s action = some t) :
    s.clock ≤ t.clock ∧ ∀ now parsed, action = .notification now parsed → t.clock = now := by
  cases action with
  | notification now parsed =>
    have hclock : s.clock ≤ now ∧ t.clock = now := by
      cases parsed with
      | none =>
        simp only [step, Option.ite_none_right_eq_some, Option.some.injEq] at hstep
        exact ⟨hstep.1, by rw [← hstep.2]⟩
      | some notif =>
        simp only [step, Option.ite_none_right_eq_some, Option.some.injEq] at hstep
        refine ⟨hstep.1, ?_⟩
        rw [← hstep.2, handle]
        split <;> rfl
    refine ⟨hclock.2 ▸ hclock.1, fun now' parsed' heq => ?_⟩
    cases heq
    exact hclock.2
  | recvError =>
    cases hstep
    exact ⟨Nat.le_refl _, fun now parsed heq => by cases heq⟩
  | tick now order =>
    simp only [step, Option.ite_none_right_eq_some, Option.some.injEq] at hstep
    refine ⟨?_, fun now parsed heq => by cases heq⟩
    rw [← hstep.2, clock_foldl_flush]
    exact hstep.1.1

/-- The listener holds each swap under its signature, and since a time that has been. -/
structure State.Sound (s : State) : Prop where
  keyed : Keyed s
  since_le : ∀ txSig held, s.buffer.lookup txSig = some held → held.2 ≤ s.clock

theorem start_sound : start.Sound where
  keyed _ _ h := by cases h
  since_le _ _ h := by cases h

theorem State.Sound.step (h : s.Sound) (hstep : step dedupTimeout s action = some t) : t.Sound := by
  obtain ⟨hle, hnow⟩ := clock_of_step hstep
  refine ⟨(step_follows h.keyed hstep "").1, fun txSig held hheld => ?_⟩
  obtain ⟨message, since⟩ := held
  obtain ⟨-, hsame, -⟩ | ⟨event, hevent, hnext, -⟩ := slot_of_step h.keyed hstep txSig
  · exact Nat.le_trans (h.since_le txSig _ (hsame ▸ hheld)) hle
  · rw [hnext] at hheld
    obtain hslot | ⟨notif, rfl, -⟩ := Slot.held_next hheld
    · exact Nat.le_trans (h.since_le txSig _ hslot) hle
    · exact Nat.le_of_eq (hnow since _ (eventOf_eq_notification hevent).1).symm

end DbListener

end OmnipairIndexer
