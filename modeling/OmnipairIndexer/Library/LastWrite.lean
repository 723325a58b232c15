/-
Maps written key by key, and what delivering writes again does to them.

A map `κ → Option ν` that only ever overwrites one key at a time is determined
by the last write to each key: `replay_apply`.  So a sequence of writes may be
reordered, repeated or thinned out freely as long as it does not change, for any
key, which write comes last.

`Delivery` describes an at-least-once feed: every item is delivered once for
the first time and any number of times again.  `lastWriter_congr` is the
case in which repeats do no harm: all items that write a key are one item.
-/
import Mathlib.Data.List.Basic
import Mathlib.Data.List.Perm.Basic
import Mathlib.Logic.Function.Basic

namespace LastWrite

variable {κ ν τ : Type*} [DecidableEq κ]

def write (m : κ → Option ν) (w : κ × ν) : κ → Option ν := Function.update m w.1 (some w.2)

def replay (m : κ → Option ν) (ws : List (κ × ν)) : κ → Option ν := ws.foldl write m

def last (k : κ) : List (κ × ν) → Option ν
  | [] => none
  | w :: ws => (last k ws).or (if w.1 = k then some w.2 else none)

theorem replay_append (m : κ → Option ν) (xs ys : List (κ × ν)) :
    replay m (xs ++ ys) = replay (replay m xs) ys := List.foldl_append

theorem last_append (k : κ) (xs ys : List (κ × ν)) :
    last k (xs ++ ys) = (last k ys).or (last k xs) := by
  induction xs with
  | nil => rw [List.nil_append, last, Option.or_none]
  | cons w ws ih => rw [List.cons_append, last, ih, last, Option.or_assoc]

theorem last_eq_none_iff {k : κ} {ws : List (κ × ν)} : last k ws = none ↔ ∀ w ∈ ws, w.1 ≠ k := by
  induction ws with
  | nil => simp [last]
  | cons w ws ih =>
    rw [last, Option.or_eq_none_iff, ih, List.forall_mem_cons]
    by_cases hw : w.1 = k <;> simp [hw]

theorem mem_of_last {k : κ} {v : ν} {ws : List (κ × ν)} (h : last k ws = some v) :
    (k, v) ∈ ws := by
  induction ws with
  | nil => simp [last] at h
  | cons w ws ih =>
    rw [last, Option.or_eq_some_iff] at h
    rcases h with h | ⟨-, h⟩
    · exact List.mem_cons_of_mem w (ih h)
    · split at h
      · rename_i hw
        cases h
        exact hw ▸ List.mem_cons_self
      · cases h

/-- A key holds the last value written to it, or what it held before. -/
theorem replay_apply (m : κ → Option ν) (ws : List (κ × ν)) (k : κ) :
    replay m ws k = (last k ws).or (m k) := by
  induction ws generalizing m with
  | nil => rfl
  | cons w ws ih =>
    have hcons : replay m (w :: ws) = replay (write m w) ws := rfl
    rw [hcons, ih, last, Option.or_assoc]
    congr 1
    by_cases hw : w.1 = k
    · subst hw
      simp [write]
    · simp [write, hw, Function.update_of_ne (Ne.symm hw)]

/-- If everything written to a key is one value, that is the last one. -/
theorem last_of_forall_eq {k : κ} {v : ν} {ws : List (κ × ν)} (hmem : (k, v) ∈ ws)
    (hone : ∀ w ∈ ws, w.1 = k → w.2 = v) : last k ws = some v := by
  cases hlast : last k ws with
  | none => exact (last_eq_none_iff.mp hlast _ hmem rfl).elim
  | some u => rw [← hone _ (mem_of_last hlast) rfl]

/-! ## Items that write several keys -/

section Items

variable (writes : τ → List (κ × ν))

def lastWriter (k : κ) : List τ → Option τ
  | [] => none
  | t :: ts => (lastWriter k ts).or (if (last k (writes t)).isSome then some t else none)

variable {writes}

theorem lastWriter_eq_none_iff {k : κ} {ts : List τ} :
    lastWriter writes k ts = none ↔ ∀ t ∈ ts, last k (writes t) = none := by
  induction ts with
  | nil => simp [lastWriter]
  | cons t ts ih =>
    rw [lastWriter, Option.or_eq_none_iff, ih, List.forall_mem_cons, and_comm]
    by_cases ht : (last k (writes t)).isSome
    · simp [ht, Option.isSome_iff_ne_none.mp ht]
    · simp [Option.not_isSome_iff_eq_none.mp ht]

theorem mem_of_lastWriter {k : κ} {t : τ} {ts : List τ} (h : lastWriter writes k ts = some t) :
    t ∈ ts ∧ (last k (writes t)).isSome := by
  induction ts with
  | nil => simp [lastWriter] at h
  | cons u us ih =>
    rw [lastWriter, Option.or_eq_some_iff] at h
    rcases h with h | ⟨-, h⟩
    · exact ⟨List.mem_cons_of_mem u (ih h).1, (ih h).2⟩
    · split at h
      · rename_i hu
        cases h
        exact ⟨List.mem_cons_self, hu⟩
      · cases h

/-- Behind the last writer of a key nothing writes it. -/
theorem split_of_lastWriter {k : κ} {t : τ} {ts : List τ} (h : lastWriter writes k ts = some t) :
    ∃ before after, ts = before ++ t :: after ∧ ∀ u ∈ after, last k (writes u) = none := by
  induction ts with
  | nil => simp [lastWriter] at h
  | cons u us ih =>
    rw [lastWriter, Option.or_eq_some_iff] at h
    rcases h with h | ⟨hnone, h⟩
    · obtain ⟨before, after, rfl, hafter⟩ := ih h
      exact ⟨u :: before, after, rfl, hafter⟩
    · split at h
      · cases h
        exact ⟨[], us, rfl, lastWriter_eq_none_iff.mp hnone⟩
      · cases h

theorem last_flatMap (k : κ) (ts : List τ) :
    last k (ts.flatMap writes) = (lastWriter writes k ts).bind fun t => last k (writes t) := by
  induction ts with
  | nil => rfl
  | cons t ts ih =>
    rw [List.flatMap_cons, last_append, ih, lastWriter]
    cases hts : lastWriter writes k ts with
    | some u =>
      obtain ⟨v, hv⟩ := Option.isSome_iff_exists.mp (mem_of_lastWriter hts).2
      simp [hv]
    | none =>
      cases hlast : last k (writes t) with
      | none => simp
      | some v => simp [hlast]

/-- The final value of a key is a function of its last writer. -/
theorem replay_flatMap (m : κ → Option ν) (ts : List τ) (k : κ) :
    replay m (ts.flatMap writes) k =
      ((lastWriter writes k ts).bind fun t => last k (writes t)).or (m k) := by
  rw [replay_apply, last_flatMap]

/-- If all items that write a key are one item, only the set of items counts. -/
theorem lastWriter_congr {k : κ} {ts us : List τ} (hmem : ∀ t, t ∈ ts ↔ t ∈ us)
    (hone : ∀ t ∈ ts, ∀ u ∈ ts, (last k (writes t)).isSome → (last k (writes u)).isSome → t = u) :
    lastWriter writes k ts = lastWriter writes k us := by
  cases hts : lastWriter writes k ts with
  | none =>
    symm
    rw [lastWriter_eq_none_iff] at hts ⊢
    exact fun t ht => hts t ((hmem t).mpr ht)
  | some t =>
    obtain ⟨ht, hwt⟩ := mem_of_lastWriter hts
    cases hus : lastWriter writes k us with
    | none =>
      have := lastWriter_eq_none_iff.mp hus t ((hmem t).mp ht)
      simp [this] at hwt
    | some u =>
      obtain ⟨hu, hwu⟩ := mem_of_lastWriter hus
      rw [hone t ht u ((hmem u).mpr hu) hwt hwu]

end Items

end LastWrite

/-! ## At-least-once feeds -/

/-- One delivery of a feed. -/
inductive Delivery (τ : Type*) where
  | first (item : τ)
  | again (item : τ)
  deriving DecidableEq, Repr

namespace Delivery

variable {τ : Type*}

def item : Delivery τ → τ
  | first t => t
  | again t => t

def delivered (ds : List (Delivery τ)) : List τ := ds.map item

/-- The feed without its repeats. -/
def once (ds : List (Delivery τ)) : List τ :=
  ds.filterMap fun
    | first t => some t
    | again _ => none

def repeats (ds : List (Delivery τ)) : List τ :=
  ds.filterMap fun
    | first _ => none
    | again t => some t

/-- Only what was delivered before can be delivered again; `seen` is what was
delivered before the list. -/
def ValidAfter (seen : List τ) : List (Delivery τ) → Prop
  | [] => True
  | first t :: ds => ValidAfter (t :: seen) ds
  | again t :: ds => t ∈ seen ∧ ValidAfter seen ds

def Valid (ds : List (Delivery τ)) : Prop := ValidAfter [] ds

instance decidableValidAfter [DecidableEq τ] :
    (seen : List τ) → (ds : List (Delivery τ)) → Decidable (ValidAfter seen ds)
  | _, [] => .isTrue trivial
  | seen, first t :: ds => decidableValidAfter (t :: seen) ds
  | seen, again t :: ds =>
    haveI := decidableValidAfter seen ds
    inferInstanceAs (Decidable (t ∈ seen ∧ ValidAfter seen ds))

instance [DecidableEq τ] (ds : List (Delivery τ)) : Decidable (Valid ds) :=
  inferInstanceAs (Decidable (ValidAfter [] ds))

theorem delivered_perm (ds : List (Delivery τ)) :
    (delivered ds).Perm (once ds ++ repeats ds) := by
  induction ds with
  | nil => exact List.Perm.refl _
  | cons d ds ih =>
    cases d with
    | first t => exact ih.cons t
    | again t => exact (ih.cons t).trans List.perm_middle.symm

theorem mem_of_mem_repeats {seen : List τ} {ds : List (Delivery τ)} (hvalid : ValidAfter seen ds)
    {t : τ} (ht : t ∈ repeats ds) : t ∈ seen ∨ t ∈ once ds := by
  induction ds generalizing seen with
  | nil => cases ht
  | cons d ds ih =>
    cases d with
    | first u =>
      rcases ih hvalid ht with hseen | honce
      · rcases List.mem_cons.mp hseen with rfl | hseen
        · exact Or.inr List.mem_cons_self
        · exact Or.inl hseen
      · exact Or.inr (List.mem_cons_of_mem u honce)
    | again u =>
      rcases List.mem_cons.mp ht with rfl | ht
      · exact Or.inl hvalid.1
      · exact ih hvalid.2 ht

/-- A feed and the feed without its repeats deliver the same items. -/
theorem mem_once_iff {ds : List (Delivery τ)} (hvalid : Valid ds) (t : τ) :
    t ∈ once ds ↔ t ∈ delivered ds := by
  rw [(delivered_perm ds).mem_iff, List.mem_append]
  refine ⟨Or.inl, fun h => h.elim id fun hrep => ?_⟩
  exact (mem_of_mem_repeats hvalid hrep).resolve_left List.not_mem_nil

end Delivery
