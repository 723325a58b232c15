/-
A table after a run of statements that write whole rows.

When the `SET` list replaces every column, a row of the table is one of the rows
written.  `cols_writeAll` says which: those whose key was not written again.  A sum over
the table and the sum over what was overwritten make up the sum over everything written.

A row is inserted by the first statement of its key, and the sequence advances with every
statement, so its id is the place of that statement.
-/
import Mathlib.Algebra.BigOperators.Group.List.Basic
import Mathlib.Data.List.Induction
import Mathlib.Algebra.Order.Ring.Int
import Mathlib.Algebra.Order.BigOperators.Group.List
import OmnipairIndexer.Library.Table

namespace Relational

variable {ρ κ : Type*} {key : ρ → κ}

/-- The `SET` list leaves no column of the old row behind. -/
def OnConflict.Replaces (c : OnConflict key) : Prop :=
  ∀ old excluded, key old = key excluded → c.set old excluded = excluded

variable [DecidableEq κ]

/-! ## What is written over -/

section Rows

variable (key)

/-- The rows whose key no later row has. -/
def standing : List ρ → List ρ
  | [] => []
  | r :: rows => if key r ∈ rows.map key then standing rows else r :: standing rows

/-- The rows whose key a later row has. -/
def overwritten : List ρ → List ρ
  | [] => []
  | r :: rows => if key r ∈ rows.map key then r :: overwritten rows else overwritten rows

theorem perm_standing (rows : List ρ) :
    rows.Perm (standing key rows ++ overwritten key rows) := by
  induction rows with
  | nil => exact .nil
  | cons r rows ih =>
    rw [standing, overwritten]
    by_cases h : key r ∈ rows.map key
    · rw [if_pos h, if_pos h]
      exact (ih.cons r).trans List.perm_middle.symm
    · rw [if_neg h, if_neg h]
      exact ih.cons r

/-- A row written last takes the place of the one of its key. -/
theorem standing_concat (rows : List ρ) (r : ρ) :
    standing key (rows ++ [r]) = (standing key rows).filter (fun s => key s ≠ key r) ++ [r] := by
  induction rows with
  | nil => rfl
  | cons s rows ih =>
    have hmem : key s ∈ (rows ++ [r]).map key ↔ key s ∈ rows.map key ∨ key s = key r := by simp
    rw [List.cons_append, standing, standing, ih]
    by_cases hlater : key s ∈ rows.map key
    · rw [if_pos (hmem.mpr (Or.inl hlater)), if_pos hlater]
    · rw [if_neg hlater]
      by_cases hkey : key s = key r
      · rw [if_pos (hmem.mpr (Or.inr hkey)), List.filter_cons_of_neg (by simp [hkey])]
      · have hnew : key s ∉ (rows ++ [r]).map key := fun h => (hmem.mp h).elim hlater hkey
        rw [if_neg hnew, List.filter_cons_of_pos (by simp [hkey]), List.cons_append]

/-- What a column adds up to where a condition holds. -/
def sumWhere (p : ρ → Bool) (f : ρ → Int) (rows : List ρ) : Int := ((rows.filter p).map f).sum

theorem Perm.sumWhere_eq {p : ρ → Bool} {f : ρ → Int} {rows rows' : List ρ}
    (h : rows.Perm rows') : sumWhere p f rows = sumWhere p f rows' :=
  ((h.filter p).map f).sum_eq

/-- What stands and what was written over make up what was written. -/
theorem sumWhere_standing (p : ρ → Bool) (f : ρ → Int) (rows : List ρ) :
    sumWhere p f (standing key rows) + sumWhere p f (overwritten key rows) = sumWhere p f rows := by
  rw [Perm.sumWhere_eq (perm_standing key rows)]
  simp only [sumWhere, List.filter_append, List.map_append, List.sum_append]

theorem overwritten_subset {rows : List ρ} : overwritten key rows ⊆ rows := by
  intro r hr
  exact (perm_standing key rows).symm.subset (List.mem_append_right _ hr)

theorem overwritten_eq_nil_iff {rows : List ρ} :
    overwritten key rows = [] ↔ (rows.map key).Nodup := by
  induction rows with
  | nil => exact iff_of_true rfl List.nodup_nil
  | cons r rows ih =>
    rw [overwritten, List.map_cons, List.nodup_cons, ← ih]
    by_cases h : key r ∈ rows.map key
    · rw [if_pos h]
      exact iff_of_false (List.cons_ne_nil _ _) fun hnodup => hnodup.1 h
    · rw [if_neg h, and_iff_right h]

theorem sumWhere_eq_zero_iff {p : ρ → Bool} {f : ρ → Int} {rows : List ρ}
    (hf : ∀ r ∈ rows, 0 ≤ f r) : sumWhere p f rows = 0 ↔ ∀ r ∈ rows, p r = true → f r = 0 := by
  have hnonneg : ∀ x ∈ (rows.filter p).map f, 0 ≤ x := by
    intro x hx
    obtain ⟨r, hr, rfl⟩ := List.mem_map.mp hx
    exact hf r (List.mem_of_mem_filter hr)
  constructor
  · intro h r hr hp
    have hmem : f r ∈ (rows.filter p).map f := List.mem_map_of_mem (List.mem_filter.mpr ⟨hr, hp⟩)
    exact List.all_zero_of_le_zero_le_of_sum_eq_zero hnonneg h hmem
  · intro h
    apply List.sum_eq_zero
    intro x hx
    obtain ⟨r, hr, rfl⟩ := List.mem_map.mp hx
    obtain ⟨hmem, hp⟩ := List.mem_filter.mp hr
    exact h r hmem hp

end Rows

/-- In a list with distinct keys, a row in the place of the one of its key. -/
theorem perm_replaced {rows : List ρ} {r : ρ} (hunique : (rows.map key).Nodup)
    (hmem : key r ∈ rows.map key) :
    (rows.map fun old => if key old = key r then r else old).Perm
      (rows.filter (fun s => key s ≠ key r) ++ [r]) := by
  induction rows with
  | nil => exact absurd hmem List.not_mem_nil
  | cons s rows ih =>
    obtain ⟨hfresh, hrest⟩ := List.nodup_cons.mp hunique
    rw [List.map_cons]
    by_cases hkey : key s = key r
    · have hothers : ∀ other ∈ rows, key other ≠ key r := by
        intro other hother heq
        exact hfresh (List.mem_map.mpr ⟨other, hother, heq.trans hkey.symm⟩)
      have hsame : (rows.map fun old => if key old = key r then r else old) = rows := by
        rw [List.map_congr_left fun other hother => if_neg (hothers other hother), List.map_id']
      have hkept : rows.filter (fun s => key s ≠ key r) = rows :=
        List.filter_eq_self.mpr fun other hother => decide_eq_true (hothers other hother)
      rw [if_pos hkey, hsame, List.filter_cons_of_neg (by simp [hkey]), hkept]
      exact (List.perm_append_singleton r rows).symm
    · have hlater : key r ∈ rows.map key := by
        obtain h | h := List.mem_cons.mp hmem
        · exact absurd h.symm hkey
        · exact h
      rw [if_neg hkey, List.filter_cons_of_pos (by simp [hkey]), List.cons_append]
      exact (ih hrest hlater).cons s

/-! ## Runs of statements -/

namespace SerialTable

variable (c : OnConflict key)

/-- `INSERT … ON CONFLICT DO UPDATE` for each of the rows. -/
def writeAll (written : List ρ) (t : SerialTable key) : SerialTable key :=
  written.foldl (fun t r => t.upsert c r) t

theorem writeAll_concat (written : List ρ) (r : ρ) (t : SerialTable key) :
    t.writeAll c (written ++ [r]) = (t.writeAll c written).upsert c r :=
  List.foldl_concat ..

variable {c}

/-- A statement replaces the row of its key, or inserts one if there is none. -/
theorem upsert_cases (c : OnConflict key) (r : ρ) (t : SerialTable key) :
    key r ∈ t.cols.map key ∧ (t.upsert c r).table.rows = t.table.rows.map (fun old =>
        if key old.cols = key r then { old with cols := c.set old.cols r } else old) ∨
      key r ∉ t.cols.map key ∧ (t.upsert c r).table.rows = t.table.rows ++ [⟨t.nextId, r⟩] := by
  have hkeys : t.cols.map key = t.table.rows.map fun s => key s.cols := by
    rw [cols, List.map_map]
    rfl
  rw [hkeys]
  by_cases h : key r ∈ t.table.rows.map fun s => key s.cols
  · exact Or.inl ⟨h, if_pos h⟩
  · exact Or.inr ⟨h, if_neg h⟩

theorem key_replaced (c : OnConflict key) (r : ρ) (old : Stored ρ) :
    key (if key old.cols = key r then { old with cols := c.set old.cols r } else old).cols =
      key old.cols := by
  by_cases h : key old.cols = key r
  · rw [if_pos h]
    exact (c.keeps_key old.cols r h).trans h.symm
  · rw [if_neg h]

theorem cols_upsert (hc : c.Replaces) (r : ρ) (t : SerialTable key) :
    (t.upsert c r).cols =
      if key r ∈ t.cols.map key then t.cols.map fun old => if key old = key r then r else old
      else t.cols ++ [r] := by
  obtain ⟨hmem, hrows⟩ | ⟨hnew, hrows⟩ := upsert_cases c r t
  · rw [if_pos hmem, cols, hrows, cols, List.map_map, List.map_map]
    apply List.map_congr_left
    intro old _
    by_cases hkey : key old.cols = key r
    · simp only [Function.comp_apply, if_pos hkey]
      exact hc old.cols r hkey
    · simp only [Function.comp_apply, if_neg hkey]
  · rw [if_neg hnew, cols, hrows, List.map_append]
    rfl

theorem cols_upsert_perm (hc : c.Replaces) (r : ρ) (t : SerialTable key) :
    (t.upsert c r).cols.Perm (t.cols.filter (fun s => key s ≠ key r) ++ [r]) := by
  rw [cols_upsert hc]
  by_cases hmem : key r ∈ t.cols.map key
  · have hunique : (t.cols.map key).Nodup := by
      rw [cols, List.map_map]
      exact t.table.unique
    rw [if_pos hmem]
    exact perm_replaced hunique hmem
  · have hothers : ∀ s ∈ t.cols, decide (key s ≠ key r) = true := by
      intro s hs
      apply decide_eq_true
      intro heq
      exact hmem (heq ▸ List.mem_map_of_mem hs)
    rw [if_neg hmem, List.filter_eq_self.mpr hothers]

/-- The table holds what was not written over. -/
theorem cols_writeAll (hc : c.Replaces) (written : List ρ) :
    ((empty : SerialTable key).writeAll c written).cols.Perm (standing key written) := by
  induction written using List.reverseRecOn with
  | nil => exact .nil
  | append_singleton written r ih =>
    rw [writeAll_concat, standing_concat]
    exact (cols_upsert_perm hc r _).trans ((ih.filter _).append_right [r])

/-! ## Serial ids -/

theorem mem_keys_upsert (c : OnConflict key) (r : ρ) (t : SerialTable key) (k : κ) :
    k ∈ (t.upsert c r).cols.map key ↔ k ∈ t.cols.map key ∨ k = key r := by
  obtain ⟨hmem, hrows⟩ | ⟨-, hrows⟩ := upsert_cases c r t
  · have hkeys : (t.upsert c r).cols.map key = t.cols.map key := by
      rw [cols, hrows, cols, List.map_map, List.map_map, List.map_map]
      exact List.map_congr_left fun old _ => key_replaced c r old
    rw [hkeys]
    exact ⟨Or.inl, fun h => h.elim id fun heq => heq ▸ hmem⟩
  · rw [cols, hrows, List.map_append, List.map_append, List.mem_append]
    exact or_congr_right List.mem_singleton

theorem mem_keys_writeAll (written : List ρ) (k : κ) :
    k ∈ ((empty : SerialTable key).writeAll c written).cols.map key ↔ k ∈ written.map key := by
  induction written using List.reverseRecOn with
  | nil => exact Iff.rfl
  | append_singleton written r ih =>
    rw [writeAll_concat, mem_keys_upsert, ih, List.map_append, List.mem_append, List.map_singleton,
      List.mem_singleton]

theorem nextId_writeAll (written : List ρ) (t : SerialTable key) :
    (t.writeAll c written).nextId = t.nextId + written.length := by
  induction written generalizing t with
  | nil => rfl
  | cons r written ih =>
    show ((t.upsert c r).writeAll c written).nextId = _
    rw [ih, List.length_cons]
    show t.nextId + 1 + written.length = _
    omega

theorem issued_writeAll (written : List ρ) :
    ((empty : SerialTable key).writeAll c written).Issued := by
  induction written using List.reverseRecOn with
  | nil => exact issued_empty
  | append_singleton written r ih =>
    rw [writeAll_concat]
    exact ih.upsert c r

/-- Each row has the place of the first statement of its key as its id. -/
theorem id_writeAll (written : List ρ) :
    ∀ s ∈ ((empty : SerialTable key).writeAll c written).table.rows,
      s.id = (written.map key).idxOf (key s.cols) + 1 := by
  induction written using List.reverseRecOn with
  | nil => exact fun s hs => absurd hs List.not_mem_nil
  | append_singleton written r ih =>
    intro s hs
    rw [List.map_append, List.map_singleton]
    rw [writeAll_concat] at hs
    generalize ht : (empty : SerialTable key).writeAll c written = t at ih hs
    have hkeys : ∀ k, k ∈ t.cols.map key ↔ k ∈ written.map key := by
      rw [← ht]
      exact mem_keys_writeAll written
    have hseen : ∀ old ∈ t.table.rows, key old.cols ∈ written.map key := fun old hold =>
      (hkeys _).mp (List.mem_map_of_mem (List.mem_map_of_mem hold))
    obtain ⟨-, hrows⟩ | ⟨hnew, hrows⟩ := upsert_cases c r t
    · rw [hrows] at hs
      obtain ⟨old, hold, rfl⟩ := List.mem_map.mp hs
      rw [key_replaced c r old, List.idxOf_append_of_mem (hseen old hold), ← ih old hold]
      by_cases hkey : key old.cols = key r
      · rw [if_pos hkey]
      · rw [if_neg hkey]
    · rw [hrows] at hs
      obtain hold | hinserted := List.mem_append.mp hs
      · rw [List.idxOf_append_of_mem (hseen s hold), ih s hold]
      · obtain rfl := List.mem_singleton.mp hinserted
        have hid : t.nextId = 1 + written.length := by
          rw [← ht]
          exact nextId_writeAll written empty
        rw [List.idxOf_append_of_notMem fun h => hnew ((hkeys _).mpr h), List.idxOf_cons_self,
          List.length_map]
        show t.nextId = _
        omega

end SerialTable

end Relational
