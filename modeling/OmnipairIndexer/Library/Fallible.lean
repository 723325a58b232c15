/-
Actions that can fail and keep what they did before failing.

An `Action` runs on a state and returns an outcome together with the state it
reached, also when the outcome is an error.  This is what `?` does to a
sequence of effects: the first error ends the sequence, and nothing undoes the
effects that came before it.

`each` performs one action for every element of a list.  `each_eq_error` is the
inversion of a failed one: the list splits at the first element that failed, and
the rest was never touched.
-/
import Mathlib.Logic.Basic

namespace Fallible

variable {ε σ α β : Type*}

/-- An effect on `σ` that succeeds or fails with an `ε`. -/
abbrev Action (ε σ : Type*) := σ → Except ε Unit × σ

def done : Action ε σ := fun s => (.ok (), s)

def andThen (f g : Action ε σ) : Action ε σ := fun s =>
  match f s with
  | (.ok (), t) => g t
  | (.error e, t) => (.error e, t)

/-- Run `f x` for each element in turn, up to the first failure. -/
def each (f : α → Action ε σ) : List α → Action ε σ
  | [] => done
  | x :: xs => andThen (f x) (each f xs)

section Rules

variable {f g h : Action ε σ} {s t : σ}

@[simp] theorem done_apply (s : σ) : (done : Action ε σ) s = (.ok (), s) := rfl

theorem andThen_of_ok (hf : f s = (.ok (), t)) : andThen f g s = g t := by
  simp only [andThen, hf]

theorem andThen_of_error {e : ε} (hf : f s = (.error e, t)) :
    andThen f g s = (.error e, t) := by
  simp only [andThen, hf]

@[simp] theorem andThen_done (f : Action ε σ) : andThen f done = f := by
  funext s
  rcases hf : f s with ⟨_ | _, t⟩
  · exact andThen_of_error hf
  · exact andThen_of_ok hf

theorem andThen_assoc (f g h : Action ε σ) :
    andThen (andThen f g) h = andThen f (andThen g h) := by
  funext s
  rcases hf : f s with ⟨_ | _, t⟩
  · rw [andThen_of_error (andThen_of_error hf), andThen_of_error hf]
  · rw [andThen_of_ok hf]
    simp only [andThen, hf]

theorem andThen_eq_ok {u : σ} :
    andThen f g s = (.ok (), u) ↔ ∃ t, f s = (.ok (), t) ∧ g t = (.ok (), u) := by
  rcases hf : f s with ⟨_ | _, t⟩
  · simp [andThen_of_error hf]
  · simp [andThen_of_ok hf]

end Rules

section Each

variable {f : α → Action ε σ}

@[simp] theorem each_nil (f : α → Action ε σ) : each f [] = done := rfl

@[simp] theorem each_cons (f : α → Action ε σ) (x : α) (xs : List α) :
    each f (x :: xs) = andThen (f x) (each f xs) := rfl

theorem each_append (f : α → Action ε σ) (xs ys : List α) :
    each f (xs ++ ys) = andThen (each f xs) (each f ys) := by
  induction xs with
  | nil => rfl
  | cons x xs ih => rw [List.cons_append, each_cons, ih, each_cons, andThen_assoc]

/-- A failure splits the list at the element that failed. -/
theorem each_eq_error {s u : σ} {e : ε} {xs : List α} :
    each f xs s = (.error e, u) ↔
      ∃ pre x post t, xs = pre ++ x :: post ∧ each f pre s = (.ok (), t) ∧
        f x t = (.error e, u) := by
  constructor
  · intro h
    induction xs generalizing s with
    | nil => simp at h
    | cons x xs ih =>
      rw [each_cons] at h
      rcases hx : f x s with ⟨_ | _, t⟩
      · rw [andThen_of_error hx] at h
        exact ⟨[], x, xs, s, rfl, rfl, hx.trans h⟩
      · rw [andThen_of_ok hx] at h
        obtain ⟨pre, y, post, v, rfl, hpre, hy⟩ := ih h
        exact ⟨x :: pre, y, post, v, rfl, by rw [each_cons, andThen_of_ok hx, hpre], hy⟩
  · rintro ⟨pre, x, post, t, rfl, hpre, hx⟩
    rw [each_append, andThen_of_ok hpre, each_cons, andThen_of_error hx]

/-- What every element preserves, whatever its outcome, `each` preserves. -/
theorem each_invariant {I : σ → Prop} {s : σ} {xs : List α}
    (hstep : ∀ x ∈ xs, ∀ t, I t → I (f x t).2) (hs : I s) : I (each f xs s).2 := by
  induction xs generalizing s with
  | nil => exact hs
  | cons x xs ih =>
    have hx := hstep x List.mem_cons_self s hs
    rw [each_cons]
    rcases h : f x s with ⟨_ | _, t⟩
    · rw [andThen_of_error h]
      rwa [h] at hx
    · rw [andThen_of_ok h]
      rw [h] at hx
      exact ih (fun y hy => hstep y (List.mem_cons_of_mem x hy)) hx

end Each

end Fallible
