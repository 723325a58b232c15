/-
A stream of tasks of which a bounded number is worked on at a time.

Tasks are started in the order of their inputs and finish in any order.  `Sound` is what
every operation keeps: each input taken is finished or in flight, once, at most `limit`
are in flight, and a task finishes before fewer than `limit` earlier ones.

The operations are what the documentation of `StreamExt::buffer_unordered` says.  Its code
is not modelled, and that it does so is assumed.
-/
import Mathlib.Data.List.Perm.Subperm
import Mathlib.Data.List.Range

/-- `ρ` is the state of a task in flight and `β` its result; a task is the place of its
input. -/
structure BufferUnordered (ρ β : Type*) where
  taken : Nat
  inFlight : List (Nat × ρ)
  finished : List (Nat × β)

namespace BufferUnordered

variable {ρ β : Type*}

def new : BufferUnordered ρ β := ⟨0, [], []⟩

/-- Take the next input. -/
def take (limit : Nat) (state : ρ) (b : BufferUnordered ρ β) : Option (BufferUnordered ρ β) :=
  if b.inFlight.length < limit then
    some { b with taken := b.taken + 1, inFlight := b.inFlight ++ [(b.taken, state)] }
  else none

/-- The i-th task in flight goes on in another state. -/
def resume (i : Nat) (state : ρ) (b : BufferUnordered ρ β) : BufferUnordered ρ β :=
  { b with inFlight := b.inFlight.modify i fun task => (task.1, state) }

/-- The i-th task in flight finishes. -/
def finish (i : Nat) (result : β) (b : BufferUnordered ρ β) : BufferUnordered ρ β :=
  { b with
    inFlight := b.inFlight.eraseIdx i
    finished := b.finished ++ (b.inFlight[i]?.map fun task => (task.1, result)).toList }

/-- The inputs before `place` whose tasks had not finished when `front` had. -/
def overtaken (front : List (Nat × β)) (place : Nat) : List Nat :=
  (List.range place).filter fun earlier => earlier ∉ front.map Prod.fst

structure Sound (limit : Nat) (b : BufferUnordered ρ β) : Prop where
  account : (b.finished.map Prod.fst ++ b.inFlight.map Prod.fst).Perm (List.range b.taken)
  room : b.inFlight.length ≤ limit
  overtakes : ∀ front task back, b.finished = front ++ task :: back →
    (overtaken front task.1).length < limit

variable {limit : Nat} {b b' : BufferUnordered ρ β}

theorem Sound.new : Sound limit (new : BufferUnordered ρ β) where
  account := List.Perm.refl _
  room := Nat.zero_le _
  overtakes front task back h := by simp [BufferUnordered.new] at h

theorem Sound.take {state : ρ} (h : Sound limit b) (hb' : b.take limit state = some b') :
    Sound limit b' := by
  simp only [BufferUnordered.take, Option.ite_none_right_eq_some, Option.some.injEq] at hb'
  obtain ⟨hroom, rfl⟩ := hb'
  refine ⟨?_, ?_, h.overtakes⟩
  · show (b.finished.map Prod.fst ++ (b.inFlight ++ [(b.taken, state)]).map Prod.fst).Perm _
    rw [List.map_append, ← List.append_assoc, List.range_succ]
    exact h.account.append_right _
  · rw [List.length_append]
    exact hroom

theorem map_fst_modify (i : Nat) (state : ρ) (tasks : List (Nat × ρ)) :
    (tasks.modify i fun task => (task.1, state)).map Prod.fst = tasks.map Prod.fst := by
  induction tasks generalizing i with
  | nil => simp
  | cons task tasks ih =>
    cases i with
    | zero => rfl
    | succ i => exact congrArg (task.1 :: ·) (ih i)

theorem Sound.resume (h : Sound limit b) (i : Nat) (state : ρ) : Sound limit (b.resume i state) where
  account := by
    rw [BufferUnordered.resume, map_fst_modify]
    exact h.account
  room := by
    rw [BufferUnordered.resume, List.length_modify]
    exact h.room
  overtakes := h.overtakes

theorem finish_of_some {i : Nat} {task : Nat × ρ} (htask : b.inFlight[i]? = some task)
    (result : β) : b.finish i result =
      { b with
        inFlight := b.inFlight.eraseIdx i
        finished := b.finished ++ [(task.1, result)] } := by
  rw [finish, htask]
  rfl

theorem perm_eraseIdx {i : Nat} {task : Nat × ρ} (htask : b.inFlight[i]? = some task) :
    b.inFlight.Perm (task :: b.inFlight.eraseIdx i) := by
  obtain ⟨hlt, rfl⟩ := List.getElem?_eq_some_iff.mp htask
  exact (List.getElem_cons_eraseIdx_perm hlt).symm

theorem resume_perm {i : Nat} {task : Nat × ρ} (htask : b.inFlight[i]? = some task) (state : ρ) :
    (b.resume i state).inFlight.Perm ((task.1, state) :: b.inFlight.eraseIdx i) := by
  obtain ⟨hlt, rfl⟩ := List.getElem?_eq_some_iff.mp htask
  have hset : (b.resume i state).inFlight = b.inFlight.set i (b.inFlight[i].1, state) := by
    rw [resume, List.modify_eq_take_cons_drop hlt, List.set_eq_take_append_cons_drop, if_pos hlt]
  rw [hset]
  exact List.set_perm_cons_eraseIdx hlt _

/-- The other tasks in flight have other places. -/
theorem Sound.place_ne (h : Sound limit b) {i : Nat} {task other : Nat × ρ}
    (htask : b.inFlight[i]? = some task) (hother : other ∈ b.inFlight.eraseIdx i) :
    other.1 ≠ task.1 := by
  have hnodup := (h.account.nodup_iff.mpr List.nodup_range)
  have hplaces := ((perm_eraseIdx htask).map Prod.fst).nodup_iff.mp (List.nodup_append.mp hnodup).2.1
  intro heq
  exact (List.nodup_cons.mp hplaces).1 (heq ▸ List.mem_map_of_mem hother)

theorem Sound.finished_ne (h : Sound limit b) {i : Nat} {task : Nat × ρ} {p : Nat × β}
    (htask : b.inFlight[i]? = some task) (hp : p ∈ b.finished) : p.1 ≠ task.1 :=
  (List.nodup_append.mp (h.account.nodup_iff.mpr List.nodup_range)).2.2 _
    (List.mem_map_of_mem hp) _ (List.mem_map_of_mem (List.mem_of_getElem? htask))

theorem Sound.place_lt (h : Sound limit b) {i : Nat} {task : Nat × ρ}
    (htask : b.inFlight[i]? = some task) : task.1 < b.taken :=
  List.mem_range.mp (h.account.subset
    (List.mem_append_right _ (List.mem_map_of_mem (List.mem_of_getElem? htask))))

/-- What a task overtakes is in flight when it finishes. -/
theorem Sound.length_overtaken (h : Sound limit b) {task : Nat × ρ} (htask : task ∈ b.inFlight) :
    (overtaken b.finished task.1).length < limit := by
  have hmem : task.1 ∈ b.inFlight.map Prod.fst := List.mem_map_of_mem htask
  have htaken : task.1 < b.taken :=
    List.mem_range.mp (h.account.subset (List.mem_append_right _ hmem))
  have hnodup : (task.1 :: overtaken b.finished task.1).Nodup := by
    refine List.nodup_cons.mpr ⟨fun hself => ?_, List.nodup_range.filter _⟩
    exact absurd (List.mem_range.mp (List.mem_of_mem_filter hself)) (Nat.lt_irrefl _)
  have hsub : task.1 :: overtaken b.finished task.1 ⊆ b.inFlight.map Prod.fst := by
    refine List.cons_subset.mpr ⟨hmem, fun earlier hearlier => ?_⟩
    obtain ⟨hlt, hnot⟩ := List.mem_filter.mp hearlier
    have hrange : earlier ∈ List.range b.taken :=
      List.mem_range.mpr (Nat.lt_trans (List.mem_range.mp hlt) htaken)
    exact (List.mem_append.mp (h.account.symm.subset hrange)).resolve_left (of_decide_eq_true hnot)
  have hle := (hnodup.subperm hsub).length_le
  rw [List.length_cons, List.length_map] at hle
  exact Nat.lt_of_lt_of_le hle h.room

theorem Sound.finish (h : Sound limit b) {i : Nat} {task : Nat × ρ}
    (htask : b.inFlight[i]? = some task) (result : β) : Sound limit (b.finish i result) := by
  rw [finish_of_some htask]
  refine ⟨?_, ?_, fun front other back hsplit => ?_⟩
  · show ((b.finished ++ [(task.1, result)]).map Prod.fst ++ _).Perm _
    rw [List.map_append, List.append_assoc]
    exact (((perm_eraseIdx htask).map Prod.fst).symm.append_left _).trans h.account
  · exact Nat.le_trans (List.length_eraseIdx_le _ _) h.room
  · obtain rfl | ⟨init, last, rfl⟩ := back.eq_nil_or_concat'
    · obtain ⟨rfl, hlast⟩ := List.append_inj' hsplit rfl
      obtain rfl : (task.1, result) = other := List.head_eq_of_cons_eq hlast
      exact h.length_overtaken (List.mem_of_getElem? htask)
    · rw [← List.cons_append, ← List.append_assoc] at hsplit
      exact h.overtakes front other init (List.append_inj' hsplit rfl).1

/-- Every input taken is finished or in flight, and not twice. -/
theorem Sound.nodup (h : Sound limit b) :
    (b.finished.map Prod.fst ++ b.inFlight.map Prod.fst).Nodup :=
  h.account.nodup_iff.mpr List.nodup_range

end BufferUnordered
