/-
Partial transition functions and their runs.

A system is a function `step : σ → α → Option σ`: the action says which of the
enabled things happens next, and `none` says that it cannot happen in this
state.  Nondeterminism (a scheduler, a network, a clock) lives in the choice of
the action list, so a statement about every interleaving is a statement about
every list, and a concrete interleaving can be evaluated.

`Always` and `Along` follow one run.  `Always` speaks about the states it visits
and `Along` about the actions it takes, each in the state it is taken from.
`run_invariant` is the induction behind every safety result, and
`always_iff_along` turns a one-step equivalence into one about whole runs.
-/
import Mathlib.Logic.Basic

namespace Transition

variable {σ α : Type*}

/-- The state a list of actions leads to, if each of them is enabled in turn. -/
def run (step : σ → α → Option σ) : σ → List α → Option σ
  | s, [] => some s
  | s, a :: as => (step s a).bind fun t => run step t as

/-- Every state the run visits satisfies `Q`, the first one included. -/
def Always (step : σ → α → Option σ) (Q : σ → Prop) : σ → List α → Prop
  | s, [] => Q s
  | s, a :: as => Q s ∧ (step s a).elim True fun t => Always step Q t as

/-- Every action of the run meets `P` in the state it is taken from. -/
def Along (step : σ → α → Option σ) (P : σ → α → Prop) : σ → List α → Prop
  | _, [] => True
  | s, a :: as => P s a ∧ (step s a).elim True fun t => Along step P t as

instance decidableElimTrue {β : Type*} {p : β → Prop} [DecidablePred p] :
    (o : Option β) → Decidable (o.elim True p)
  | none => .isTrue trivial
  | some b => inferInstanceAs (Decidable (p b))

instance decidableAlong (step : σ → α → Option σ) (P : σ → α → Prop)
    [∀ s a, Decidable (P s a)] : (s : σ) → (as : List α) → Decidable (Along step P s as)
  | _, [] => .isTrue trivial
  | s, a :: as =>
    haveI := fun t => decidableAlong step P t as
    inferInstanceAs (Decidable (P s a ∧ (step s a).elim True fun t => Along step P t as))

section Rules

variable {step : σ → α → Option σ}

@[simp] theorem run_nil (s : σ) : run step s [] = some s := rfl

theorem run_cons (s : σ) (a : α) (as : List α) :
    run step s (a :: as) = (step s a).bind fun t => run step t as := rfl

theorem run_cons_eq_some {s u : σ} {a : α} {as : List α} :
    run step s (a :: as) = some u ↔ ∃ t, step s a = some t ∧ run step t as = some u := by
  rw [run_cons, Option.bind_eq_some_iff]

theorem run_append (s : σ) (as bs : List α) :
    run step s (as ++ bs) = (run step s as).bind fun t => run step t bs := by
  induction as generalizing s with
  | nil => rfl
  | cons a as ih =>
    rw [List.cons_append, run_cons, run_cons, Option.bind_assoc]
    exact congrArg _ (funext fun t => ih t)

theorem run_append_eq_some {s u : σ} {as bs : List α} :
    run step s (as ++ bs) = some u ↔ ∃ t, run step s as = some t ∧ run step t bs = some u := by
  rw [run_append, Option.bind_eq_some_iff]

theorem run_concat_eq_some {s u : σ} {a : α} {as : List α} :
    run step s (as ++ [a]) = some u ↔ ∃ t, run step s as = some t ∧ step t a = some u := by
  simp [run_append_eq_some, run_cons_eq_some]

theorem along_cons {P : σ → α → Prop} {s t : σ} {a : α} {as : List α}
    (ht : step s a = some t) : Along step P s (a :: as) ↔ P s a ∧ Along step P t as := by
  rw [Along, ht]
  rfl

theorem along_append {P : σ → α → Prop} {s t : σ} {as bs : List α} (hrun : run step s as = some t) :
    Along step P s (as ++ bs) ↔ Along step P s as ∧ Along step P t bs := by
  induction as generalizing s with
  | nil =>
    cases hrun
    exact ⟨fun h => ⟨trivial, h⟩, And.right⟩
  | cons a as ih =>
    obtain ⟨u, hu, hrun⟩ := run_cons_eq_some.mp hrun
    rw [List.cons_append, along_cons hu, along_cons hu, ih hrun, and_assoc]

/-- Conditions that agree on the steps taken from `I`-states agree on runs. -/
theorem along_congr {I : σ → Prop} {P Q : σ → α → Prop}
    (hI : ∀ s a t, I s → step s a = some t → I t)
    (hPQ : ∀ s a t, I s → step s a = some t → (P s a ↔ Q s a)) {s u : σ} {as : List α}
    (hs : I s) (hrun : run step s as = some u) : Along step P s as ↔ Along step Q s as := by
  induction as generalizing s with
  | nil => exact Iff.rfl
  | cons a as ih =>
    obtain ⟨t, ht, hrun⟩ := run_cons_eq_some.mp hrun
    rw [along_cons ht, along_cons ht, hPQ s a t hs ht, ih (hI s a t hs ht) hrun]

theorem always_cons {Q : σ → Prop} {s t : σ} {a : α} {as : List α}
    (ht : step s a = some t) : Always step Q s (a :: as) ↔ Q s ∧ Always step Q t as := by
  rw [Always, ht]
  rfl

theorem along_of_forall {P : α → Prop} {s : σ} {as : List α} (h : ∀ a ∈ as, P a) :
    Along step (fun _ => P) s as := by
  induction as generalizing s with
  | nil => trivial
  | cons a as ih =>
    obtain ⟨ha, has⟩ := List.forall_mem_cons.mp h
    refine ⟨ha, ?_⟩
    cases step s a with
    | none => trivial
    | some t => exact ih has

/-- What every permitted step preserves holds at the end of every permitted run. -/
theorem run_invariant {I : σ → Prop} {P : σ → α → Prop}
    (hstep : ∀ s a t, I s → P s a → step s a = some t → I t) {s u : σ} {as : List α}
    (hs : I s) (has : Along step P s as) (hrun : run step s as = some u) : I u := by
  induction as generalizing s with
  | nil => exact Option.some.inj hrun ▸ hs
  | cons a as ih =>
    obtain ⟨t, ht, hrun⟩ := run_cons_eq_some.mp hrun
    obtain ⟨hP, has⟩ := (along_cons ht).mp has
    exact ih (hstep s a t hs hP ht) has hrun

/-- What every step preserves holds at the end of every run. -/
theorem run_preserves {I : σ → Prop} (hstep : ∀ s a t, I s → step s a = some t → I t)
    {s u : σ} {as : List α} (hs : I s) (hrun : run step s as = some u) : I u := by
  induction as generalizing s with
  | nil => exact Option.some.inj hrun ▸ hs
  | cons a as ih =>
    obtain ⟨t, ht, hrun⟩ := run_cons_eq_some.mp hrun
    exact ih (hstep s a t hs ht) hrun

/-- A measure that every step increases bounds the length of the runs. -/
theorem length_le_of_progress {f : σ → Nat} (hstep : ∀ s a t, step s a = some t → f s < f t)
    {s u : σ} {as : List α} (hrun : run step s as = some u) : f s + as.length ≤ f u := by
  induction as generalizing s with
  | nil =>
    cases hrun
    exact Nat.le_refl _
  | cons a as ih =>
    obtain ⟨t, ht, hrun⟩ := run_cons_eq_some.mp hrun
    have hlt := hstep s a t ht
    have hle := ih hrun
    rw [List.length_cons]
    omega

/-- A system that answers every `P`-step of another with `Q`-steps that keep `R`
follows its `P`-runs. -/
theorem run_simulates {τ β : Type*} {step' : τ → β → Option τ} {R : σ → τ → Prop} {P : α → Prop}
    {Q : β → Prop}
    (hstep : ∀ s a s' t, R s t → P a → step s a = some s' →
      ∃ bs t', (∀ b ∈ bs, Q b) ∧ run step' t bs = some t' ∧ R s' t')
    {s s' : σ} {t : τ} {as : List α} (hR : R s t) (has : ∀ a ∈ as, P a)
    (hrun : run step s as = some s') :
    ∃ bs t', (∀ b ∈ bs, Q b) ∧ run step' t bs = some t' ∧ R s' t' := by
  induction as generalizing s t with
  | nil =>
    cases hrun
    exact ⟨[], t, fun _ h => absurd h List.not_mem_nil, rfl, hR⟩
  | cons a as ih =>
    obtain ⟨u, hu, hrun⟩ := run_cons_eq_some.mp hrun
    rw [List.forall_mem_cons] at has
    obtain ⟨bs, t', hbs, hbs', hR'⟩ := hstep s a u t hR has.1 hu
    obtain ⟨cs, t'', hcs, hcs', hR''⟩ := ih hR' has.2 hrun
    exact ⟨bs ++ cs, t'', List.forall_mem_append.mpr ⟨hbs, hcs⟩,
      run_append_eq_some.mpr ⟨t', hbs', hcs'⟩, hR''⟩

/-- The last state of a run is one of the states it visits. -/
theorem Always.last {Q : σ → Prop} {s u : σ} {as : List α} (h : Always step Q s as)
    (hrun : run step s as = some u) : Q u := by
  induction as generalizing s with
  | nil => exact Option.some.inj hrun ▸ h
  | cons a as ih =>
    obtain ⟨t, ht, hrun⟩ := run_cons_eq_some.mp hrun
    exact ih ((always_cons ht).mp h).2 hrun

/-- If the invariant makes `Q` after a step equivalent to `P` before it, as long
as `Q` held, then a run visits only `Q`-states exactly when it takes only
`P`-steps. -/
theorem always_iff_along {I Q : σ → Prop} {P : σ → α → Prop}
    (hI : ∀ s a t, I s → step s a = some t → I t)
    (hQ : ∀ s a t, I s → Q s → step s a = some t → (Q t ↔ P s a)) {s u : σ} {as : List α}
    (hs : I s) (hs' : Q s) (hrun : run step s as = some u) :
    Always step Q s as ↔ Along step P s as := by
  induction as generalizing s with
  | nil => exact ⟨fun _ => trivial, fun _ => hs'⟩
  | cons a as ih =>
    obtain ⟨t, ht, hrun⟩ := run_cons_eq_some.mp hrun
    rw [always_cons ht, along_cons ht]
    have hiff := hQ s a t hs hs' ht
    constructor
    · rintro ⟨-, hrest⟩
      have ht' : Q t := by
        cases as with
        | nil => exact hrest
        | cons _ _ => exact hrest.1
      exact ⟨hiff.mp ht', (ih (hI s a t hs ht) ht' hrun).mp hrest⟩
    · rintro ⟨hP, hrest⟩
      have ht' := hiff.mpr hP
      exact ⟨hs', (ih (hI s a t hs ht) ht' hrun).mpr hrest⟩

end Rules

end Transition
