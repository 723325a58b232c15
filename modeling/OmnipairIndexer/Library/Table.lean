/-
Keyed tables and the `INSERT … ON CONFLICT DO UPDATE` statement.

A `Table` carries the unique constraint as a field, so a table with two rows of
one key cannot be built.  `upsert` takes the `SET` list of the statement as an
`OnConflict`, which has to keep the key, and is the only way a row enters.

Everything a proof needs to know about a table is `lookup`: `lookup_upsert` says
what a statement does to it, `mem_rows_iff` that it sees every row, and
`perm_of_lookup` that two tables with the same lookups hold the same rows.

`SerialTable` adds a serial id.  The sequence advances on every attempt, as
`nextval` is evaluated before the conflict is found, and an updated row keeps
the id it was inserted with.  `Log` is a table without a unique constraint.
-/
import Mathlib.Data.List.Perm.Basic
import Mathlib.Data.List.Nodup
import Mathlib.Data.List.NodupEquivFin

namespace Relational

variable {ρ κ ν : Type*}

/-- The rows of a table with a unique constraint on `key`. -/
structure Table (key : ρ → κ) where
  rows : List ρ
  unique : (rows.map key).Nodup

/-- The `DO UPDATE SET` list: the row kept from the old one and the excluded
one.  It leaves the columns of the conflict target alone. -/
structure OnConflict (key : ρ → κ) where
  set : ρ → ρ → ρ
  keeps_key : ∀ old excluded, key old = key excluded → key (set old excluded) = key excluded

theorem OnConflict.key_update {key : ρ → κ} [DecidableEq κ] (c : OnConflict key)
    (old excluded : ρ) :
    key (if key old = key excluded then c.set old excluded else old) = key old := by
  split
  · rename_i hold
    rw [c.keeps_key old excluded hold, hold]
  · rfl

namespace Table

variable {key : ρ → κ}

def empty : Table key := ⟨[], List.nodup_nil⟩

variable [DecidableEq κ]

def lookup (t : Table key) (k : κ) : Option ρ := t.rows.find? fun r => key r = k

theorem mem_rows_iff (t : Table key) (r : ρ) : r ∈ t.rows ↔ t.lookup (key r) = some r := by
  constructor
  · intro hr
    cases hfind : t.lookup (key r) with
    | none =>
      have := List.find?_eq_none.mp hfind r hr
      simp at this
    | some r' =>
      have hr' : r' ∈ t.rows := List.mem_of_find?_eq_some hfind
      have hkey : key r' = key r := by simpa using List.find?_some hfind
      rw [List.inj_on_of_nodup_map t.unique hr' hr hkey]
  · exact fun h => List.mem_of_find?_eq_some h

theorem key_of_lookup {t : Table key} {k : κ} {r : ρ} (h : t.lookup k = some r) : key r = k := by
  simpa using List.find?_some h

/-- Two tables whose lookups agree up to `f` hold the same rows up to `f`, if
`f` keeps the key apart. -/
theorem perm_of_lookup {t u : Table key} {f : ρ → ν}
    (hf : ∀ a b, f a = f b → key a = key b)
    (h : ∀ k, (t.lookup k).map f = (u.lookup k).map f) :
    (t.rows.map f).Perm (u.rows.map f) := by
  have hnodup : ∀ v : Table key, (v.rows.map f).Nodup := fun v => by
    refine List.Nodup.map_on ?_ (List.Nodup.of_map key v.unique)
    exact fun a ha b hb hab => List.inj_on_of_nodup_map v.unique ha hb (hf a b hab)
  have hsub : ∀ v w : Table key, (∀ k, (v.lookup k).map f = (w.lookup k).map f) →
      ∀ a ∈ v.rows.map f, a ∈ w.rows.map f := by
    intro v w hvw a ha
    obtain ⟨r, hr, rfl⟩ := List.mem_map.mp ha
    have hw := hvw (key r)
    rw [(mem_rows_iff v r).mp hr, Option.map_some] at hw
    obtain ⟨r', hr', hfr⟩ := Option.map_eq_some_iff.mp hw.symm
    exact List.mem_map.mpr ⟨r', List.mem_of_find?_eq_some hr', hfr⟩
  refine (List.perm_ext_iff_of_nodup (hnodup t) (hnodup u)).mpr fun a => ?_
  exact ⟨hsub t u h a, hsub u t (fun k => (h k).symm) a⟩

/-- `INSERT … ON CONFLICT (key) DO UPDATE SET …`. -/
def upsert (c : OnConflict key) (excluded : ρ) (t : Table key) : Table key where
  rows :=
    if key excluded ∈ t.rows.map key then
      t.rows.map fun old => if key old = key excluded then c.set old excluded else old
    else
      t.rows ++ [excluded]
  unique := by
    split
    · rw [List.map_map, show key ∘ _ = key from funext fun old => c.key_update old excluded]
      exact t.unique
    · rename_i hnew
      rw [List.map_append, List.map_singleton]
      exact List.nodup_append.mpr ⟨t.unique, List.nodup_singleton _, by
        intro a ha b hb hab
        rw [List.mem_singleton] at hb
        exact hnew (hb ▸ hab ▸ ha)⟩

/-- A statement decides the row of its own key and no other. -/
theorem lookup_upsert (c : OnConflict key) (excluded : ρ) (t : Table key) (k : κ) :
    (t.upsert c excluded).lookup k =
      if key excluded = k then
        some ((t.lookup k).elim excluded fun old => c.set old excluded)
      else
        t.lookup k := by
  unfold upsert
  by_cases hmem : key excluded ∈ t.rows.map key
  · simp only [lookup, hmem, if_true, List.find?_map]
    simp only [Function.comp_def, c.key_update]
    by_cases hk : key excluded = k
    · obtain ⟨r, hr, hrk⟩ := List.mem_map.mp hmem
      have hsome : (t.rows.find? fun r => decide (key r = k)) = some r := by
        have := (mem_rows_iff t r).mp hr
        rwa [lookup, hrk, hk] at this
      simp [hsome, hk, hrk]
    · rw [if_neg hk]
      cases hfind : t.rows.find? fun r => decide (key r = k) with
      | none => rfl
      | some r =>
        have hrk : key r = k := by simpa using List.find?_some hfind
        simp [hrk, Ne.symm hk]
  · simp only [lookup, hmem, if_false, List.find?_append]
    by_cases hk : key excluded = k
    · have hnone : (t.rows.find? fun r => decide (key r = k)) = none := by
        simp only [List.find?_eq_none, decide_eq_true_eq]
        intro r hr hrk
        exact hmem (List.mem_map.mpr ⟨r, hr, hrk.trans hk.symm⟩)
      simp [hnone, hk]
    · simp [hk]

/-- The same up to `f`, when the `SET` list replaces everything `f` looks at. -/
theorem map_lookup_upsert {f : ρ → ν} {c : OnConflict key} {excluded : ρ}
    (hset : ∀ old, key old = key excluded → f (c.set old excluded) = f excluded)
    (t : Table key) (k : κ) :
    ((t.upsert c excluded).lookup k).map f =
      if key excluded = k then some (f excluded) else (t.lookup k).map f := by
  rw [lookup_upsert]
  split
  · rename_i hk
    cases hold : t.lookup k with
    | none => rfl
    | some old => exact congrArg some (hset old ((key_of_lookup hold).trans hk.symm))
  · rfl

/-- A statement changes nothing exactly when it sets a row of its key to itself. -/
theorem upsert_eq_self_iff (c : OnConflict key) (excluded : ρ) (t : Table key) :
    t.upsert c excluded = t ↔
      ∃ old, t.lookup (key excluded) = some old ∧ c.set old excluded = old := by
  constructor
  · intro h
    have hlookup := t.lookup_upsert c excluded (key excluded)
    rw [h, if_pos rfl] at hlookup
    cases hold : t.lookup (key excluded) with
    | none =>
      rw [hold] at hlookup
      cases hlookup
    | some old =>
      rw [hold] at hlookup
      exact ⟨old, rfl, (Option.some.inj hlookup).symm⟩
  · rintro ⟨old, hold, hset⟩
    have hmem : key excluded ∈ t.rows.map key :=
      List.mem_map.mpr ⟨old, List.mem_of_find?_eq_some hold, key_of_lookup hold⟩
    have hself : ∀ r ∈ t.rows, (if key r = key excluded then c.set r excluded else r) = r := by
      intro r hr
      split
      · rename_i hkey
        have hr' := (mem_rows_iff t r).mp hr
        rw [hkey, hold] at hr'
        exact Option.some.inj hr' ▸ hset
      · rfl
    simp only [upsert, hmem, if_true, List.map_congr_left hself, List.map_id']

end Table

/-! ## Serial ids -/

/-- A row as stored: the serial id and the columns a statement supplies. -/
structure Stored (ρ : Type*) where
  id : Nat
  cols : ρ
  deriving DecidableEq, Repr

/-- A keyed table whose rows draw their id from a sequence. -/
structure SerialTable (key : ρ → κ) where
  table : Table fun r : Stored ρ => key r.cols
  nextId : Nat

/-- The `SET` list on stored rows: the id is not in it. -/
def OnConflict.stored {key : ρ → κ} (c : OnConflict key) :
    OnConflict fun r : Stored ρ => key r.cols where
  set old excluded := { old with cols := c.set old.cols excluded.cols }
  keeps_key old excluded := c.keeps_key old.cols excluded.cols

namespace SerialTable

variable {key : ρ → κ}

def empty : SerialTable key := ⟨Table.empty, 1⟩

def cols (t : SerialTable key) : List ρ := t.table.rows.map Stored.cols

variable [DecidableEq κ]

def lookup (t : SerialTable key) (k : κ) : Option ρ := (t.table.lookup k).map Stored.cols

def upsert (c : OnConflict key) (excluded : ρ) (t : SerialTable key) : SerialTable key where
  table := t.table.upsert c.stored ⟨t.nextId, excluded⟩
  nextId := t.nextId + 1

theorem map_lookup_upsert {f : ρ → ν} {c : OnConflict key} {excluded : ρ}
    (hset : ∀ old, key old = key excluded → f (c.set old excluded) = f excluded)
    (t : SerialTable key) (k : κ) :
    ((t.upsert c excluded).lookup k).map f =
      if key excluded = k then some (f excluded) else (t.lookup k).map f := by
  simp only [lookup, Option.map_map]
  exact Table.map_lookup_upsert (f := f ∘ Stored.cols) (fun old => hset old.cols) t.table k

theorem key_of_lookup {t : SerialTable key} {k : κ} {r : ρ} (h : t.lookup k = some r) :
    key r = k := by
  obtain ⟨s, hs, rfl⟩ := Option.map_eq_some_iff.mp h
  exact Table.key_of_lookup (t := t.table) hs

theorem table_upsert_eq_iff (c : OnConflict key) (excluded : ρ) (t : SerialTable key) :
    (t.upsert c excluded).table = t.table ↔
      ∃ old, t.lookup (key excluded) = some old ∧ c.set old excluded = old := by
  rw [upsert, Table.upsert_eq_self_iff]
  constructor
  · rintro ⟨⟨id, old⟩, hold, hset⟩
    refine ⟨old, ?_, congrArg Stored.cols hset⟩
    rw [lookup, hold, Option.map_some]
  · rintro ⟨old, hold, hset⟩
    obtain ⟨⟨id, cols⟩, hstored, rfl⟩ := Option.map_eq_some_iff.mp hold
    exact ⟨⟨id, cols⟩, hstored, congrArg (Stored.mk id) hset⟩

theorem mem_cols_iff (t : SerialTable key) (r : ρ) : r ∈ t.cols ↔ t.lookup (key r) = some r := by
  constructor
  · intro hr
    obtain ⟨s, hs, rfl⟩ := List.mem_map.mp hr
    rw [lookup, (t.table.mem_rows_iff s).mp hs]
    rfl
  · intro h
    obtain ⟨s, hs, rfl⟩ := Option.map_eq_some_iff.mp h
    exact List.mem_map.mpr ⟨s, List.mem_of_find?_eq_some hs, rfl⟩

/-- The same up to `f`, when `f` keeps the key. -/
theorem mem_map_cols_iff {f : ρ → ν} {g : ν → κ} (hg : ∀ r, key r = g (f r))
    (t : SerialTable key) (a : ν) : a ∈ t.cols.map f ↔ (t.lookup (g a)).map f = some a := by
  rw [List.mem_map, Option.map_eq_some_iff]
  constructor
  · rintro ⟨r, hr, rfl⟩
    exact ⟨r, hg r ▸ (t.mem_cols_iff r).mp hr, rfl⟩
  · rintro ⟨r, hr, rfl⟩
    exact ⟨r, (t.mem_cols_iff r).mpr ((hg r).symm ▸ hr), rfl⟩

theorem perm_of_lookup {t u : SerialTable key} {f : ρ → ν}
    (hf : ∀ a b, f a = f b → key a = key b)
    (h : ∀ k, (t.lookup k).map f = (u.lookup k).map f) :
    (t.cols.map f).Perm (u.cols.map f) := by
  simp only [cols, List.map_map]
  refine Table.perm_of_lookup (f := f ∘ Stored.cols) (fun a b hab => hf _ _ hab) fun k => ?_
  have := h k
  simpa only [lookup, Option.map_map] using this

/-- The ids come from the sequence, one for each row. -/
def Issued (t : SerialTable key) : Prop :=
  (t.table.rows.map Stored.id).Nodup ∧ ∀ id ∈ t.table.rows.map Stored.id, id < t.nextId

omit [DecidableEq κ] in
theorem issued_empty : (empty : SerialTable key).Issued := ⟨List.nodup_nil, nofun⟩

theorem Issued.upsert {t : SerialTable key} (h : t.Issued) (c : OnConflict key) (excluded : ρ) :
    (t.upsert c excluded).Issued := by
  obtain ⟨hnodup, hlt⟩ := h
  have hlater : ∀ id ∈ t.table.rows.map Stored.id, id < t.nextId + 1 :=
    fun id hid => Nat.lt_succ_of_lt (hlt id hid)
  unfold Issued SerialTable.upsert Table.upsert
  split
  · -- An updated row keeps its id.
    have hids : (t.table.rows.map fun old =>
        if key old.cols = key excluded then c.stored.set old ⟨t.nextId, excluded⟩ else old).map
          Stored.id = t.table.rows.map Stored.id := by
      rw [List.map_map]
      refine List.map_congr_left fun old _ => ?_
      simp only [Function.comp_apply]
      split <;> rfl
    exact ⟨hids ▸ hnodup, hids ▸ hlater⟩
  · rw [List.map_append, List.map_singleton]
    constructor
    · refine List.nodup_append.mpr ⟨hnodup, List.nodup_singleton _, ?_⟩
      intro id hid id' hid'
      rw [List.mem_singleton.mp hid']
      exact Nat.ne_of_lt (hlt id hid)
    · intro id hid
      obtain hid | hid := List.mem_append.mp hid
      · exact hlater id hid
      · rw [List.mem_singleton.mp hid]
        exact Nat.lt_succ_self _

end SerialTable

/-! ## Logs -/

/-- A table with a serial id and no unique constraint. -/
structure Log (ρ : Type*) where
  rows : List (Stored ρ)
  nextId : Nat

namespace Log

def empty : Log ρ := ⟨[], 1⟩

def cols (l : Log ρ) : List ρ := l.rows.map Stored.cols

def insert (r : ρ) (l : Log ρ) : Log ρ := ⟨l.rows ++ [⟨l.nextId, r⟩], l.nextId + 1⟩

@[simp] theorem cols_insert (r : ρ) (l : Log ρ) : (l.insert r).cols = l.cols ++ [r] := by
  simp [cols, insert]

end Log

end Relational
