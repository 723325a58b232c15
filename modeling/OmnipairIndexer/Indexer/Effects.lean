/-
What the upsert functions do to the tables, one lemma for all of them.

A call executes its statements in order up to the first that fails.
`UpsertCall.run_spec` says so once for the nine functions.

A `KeyedView` is a table seen as a map from its unique key to the columns that
are not clock readings, with the write each statement makes to that map.  No
`SET` list leaves a column of the old row behind, so a statement is a plain
overwrite and a run is a `LastWrite.replay`.  The seven views are the tables whose
key does not contain a clock reading.
-/
import Mathlib.Data.List.TakeWhile
import OmnipairIndexer.Library.LastWrite
import OmnipairIndexer.Indexer.Processors

namespace OmnipairIndexer

open Fallible Relational LastWrite

/-! ## Executing statements -/

def Statement.passes (env : CallEnv) (p : Nat × Statement) : Bool := (p.2.error? env p.1).isNone

/-- The effect of statements that go through, each with its number in the call. -/
def applyAll (env : CallEnv) (sts : List (Nat × Statement)) (db : Database) : Database :=
  sts.foldl (fun db p => p.2.apply (env.stamp p.1) db) db

/-- The action executes the statements in order up to the first that fails, and
succeeds when none does. -/
def Executes (env : CallEnv) (f : Action CarbonError Database) (sts : List (Nat × Statement)) :
    Prop :=
  ∀ db, (f db).2 = applyAll env (sts.takeWhile (Statement.passes env)) db ∧
    ((f db).1 = .ok () ↔ sts.all (Statement.passes env))

theorem executes_execute (env : CallEnv) (i : Nat) (failedTo : String) (st : Statement) :
    Executes env (execute env i failedTo st) [(i, st)] := by
  intro db
  cases h : st.error? env i with
  | none => simp [execute, h, applyAll, Statement.passes]
  | some e => simp [execute, h, applyAll, Statement.passes]

theorem Executes.andThen {env : CallEnv} {f g : Action CarbonError Database}
    {as bs : List (Nat × Statement)} (hf : Executes env f as) (hg : Executes env g bs) :
    Executes env (andThen f g) (as ++ bs) := by
  intro db
  obtain ⟨hstate, hok⟩ := hf db
  rcases hrun : f db with ⟨e | _, t⟩ <;> rw [hrun] at hstate hok <;> dsimp only at hstate hok
  · have hall : ¬ as.all (Statement.passes env) := fun h => by cases hok.mpr h
    have hshort : (as.takeWhile (Statement.passes env)).length ≠ as.length := fun hlen => by
      have htake := (List.takeWhile_prefix (Statement.passes env)).eq_of_length hlen
      exact hall (htake ▸ List.all_takeWhile)
    rw [andThen_of_error hrun, List.takeWhile_append, if_neg hshort, List.all_append]
    exact ⟨hstate, by simp [hall]⟩
  · have hall : as.all (Statement.passes env) := hok.mp rfl
    have htake : as.takeWhile (Statement.passes env) = as :=
      List.takeWhile_eq_self_iff.mpr (List.all_eq_true.mp hall)
    obtain ⟨gstate, gok⟩ := hg t
    rw [andThen_of_ok hrun, List.takeWhile_append, htake, if_pos rfl, List.all_append, hall,
      Bool.true_and]
    refine ⟨?_, gok⟩
    rw [gstate, hstate, htake, applyAll, applyAll, applyAll, List.foldl_append]

/-! ## Calls -/

namespace UpsertCall

def executed (c : UpsertCall) (env : CallEnv) : List (Nat × Statement) :=
  if env.poolReady then c.statements.takeWhile (Statement.passes env) else []

theorem executed_prefix (c : UpsertCall) (env : CallEnv) : c.executed env <+: c.statements := by
  unfold executed
  split
  · exact List.takeWhile_prefix _
  · exact List.nil_prefix

theorem run_eq (c : UpsertCall) (env : CallEnv) :
    ∃ body, c.run env = andThen (getDbPool env) body ∧ Executes env body c.statements := by
  obtain ⟨event, txSignature, slot⟩ := c
  cases event with
  | swap => exact ⟨_, rfl, executes_execute _ _ _ _⟩
  | mint => exact ⟨_, rfl, executes_execute _ _ _ _⟩
  | burn => exact ⟨_, rfl, executes_execute _ _ _ _⟩
  | adjustCollateral => exact ⟨_, rfl, executes_execute _ _ _ _⟩
  | adjustDebt => exact ⟨_, rfl, executes_execute _ _ _ _⟩
  | userPositionUpdated =>
    exact ⟨_, rfl, (executes_execute _ _ _ _).andThen (executes_execute _ _ _ _)⟩
  | userPositionLiquidated => exact ⟨_, rfl, executes_execute _ _ _ _⟩
  | pairCreated => exact ⟨_, rfl, executes_execute _ _ _ _⟩
  | userLiquidityPositionUpdated =>
    exact ⟨_, rfl, (executes_execute _ _ _ _).andThen (executes_execute _ _ _ _)⟩

/-- A call leaves the effect of the statements that go through, and succeeds when
the pool is there and all of them do. -/
theorem run_spec (c : UpsertCall) (env : CallEnv) (db : Database) :
    (c.run env db).2 = applyAll env (c.executed env) db ∧
      ((c.run env db).1 = .ok () ↔
        env.poolReady ∧ c.statements.all (Statement.passes env)) := by
  obtain ⟨body, hrun, hbody⟩ := c.run_eq env
  rw [hrun, executed]
  cases hpool : env.poolReady with
  | true =>
    have hget : getDbPool env db = (.ok (), db) := by simp [getDbPool, hpool]
    rw [andThen_of_ok hget]
    simpa using hbody db
  | false =>
    have hget : getDbPool env db =
        (.error (.custom "Database pool not initialized. Call init_db_pool() first"), db) := by
      simp [getDbPool, hpool]
    rw [andThen_of_error hget]
    simp [applyAll]

theorem run_of_ok {c : UpsertCall} {env : CallEnv} {db db' : Database}
    (h : c.run env db = (.ok (), db')) : db' = applyAll env c.statements db := by
  obtain ⟨hstate, hok⟩ := c.run_spec env db
  rw [h] at hstate hok
  dsimp only at hstate
  obtain ⟨hpool, hall⟩ := hok.mp rfl
  have htake : c.statements.takeWhile (Statement.passes env) = c.statements :=
    List.takeWhile_eq_self_iff.mpr (List.all_eq_true.mp hall)
  rw [hstate, executed, if_pos hpool, htake]

def InRange (c : UpsertCall) : Prop := ∀ p ∈ c.statements, p.2.InRange

instance (c : UpsertCall) : Decidable c.InRange := inferInstanceAs (Decidable (∀ _ ∈ _, _))

/-- The statements of a call up to the first that is out of range. -/
def accepted (c : UpsertCall) : List (Nat × Statement) :=
  c.statements.takeWhile fun p => decide p.2.InRange

theorem accepted_of_inRange {c : UpsertCall} (h : c.InRange) : c.accepted = c.statements :=
  List.takeWhile_eq_self_iff.mpr fun p hp => decide_eq_true (h p hp)

theorem passes_of_healthy {env : CallEnv} (h : env.Healthy) :
    Statement.passes env = fun p => decide p.2.InRange := by
  funext p
  by_cases hp : p.2.InRange <;> simp [Statement.passes, Statement.error?, h.2 p.1, hp]

theorem executed_of_healthy {env : CallEnv} (h : env.Healthy) (c : UpsertCall) :
    c.executed env = c.accepted := by
  rw [executed, if_pos h.1, passes_of_healthy h, accepted]

theorem run_ok_of_healthy {env : CallEnv} (h : env.Healthy) (c : UpsertCall) (db : Database) :
    (c.run env db).1 = .ok () ↔ c.InRange := by
  rw [(c.run_spec env db).2, passes_of_healthy h]
  simp [h.1, InRange]

end UpsertCall

/-! ## Observations -/

/-- Something one can see of the database, and how a statement changes it whatever
the clocks show. -/
structure Observation (α : Type) where
  observe : Database → α
  next : α → Statement → α
  observe_apply : ∀ stamp st db, observe (st.apply stamp db) = next (observe db) st

namespace Observation

variable {α : Type} (O : Observation α)

def after (a : α) (sts : List (Nat × Statement)) : α := sts.foldl (fun a p => O.next a p.2) a

theorem after_append (a : α) (as bs : List (Nat × Statement)) :
    O.after a (as ++ bs) = O.after (O.after a as) bs := List.foldl_append

theorem observe_applyAll (env : CallEnv) (sts : List (Nat × Statement)) (db : Database) :
    O.observe (applyAll env sts db) = O.after (O.observe db) sts := by
  induction sts generalizing db with
  | nil => rfl
  | cons p sts ih =>
    have hhead := O.observe_apply (env.stamp p.1) p.2 db
    simp only [applyAll, after, List.foldl_cons] at ih ⊢
    rw [ih, hhead]

end Observation

/-! ## Runs -/

def World.Healthy (w : World) : Prop := ∀ i, (w.env i).Healthy

theorem World.fresh_healthy : World.fresh.Healthy := fun i => CallEnv.healthyAt_healthy i

theorem World.perform_env (c : UpsertCall) (w : World) : (World.perform c w).2.env = w.env := rfl

theorem World.each_perform_env (cs : List UpsertCall) (w : World) :
    (each World.perform cs w).2.env = w.env :=
  each_invariant (I := fun v => v.env = w.env)
    (fun c _ v hv => (World.perform_env c v).trans hv) rfl

theorem World.perform_of_ok {c : UpsertCall} {w w' : World}
    (h : World.perform c w = (.ok (), w')) :
    w'.db = applyAll (w.env w.calls) c.statements w.db := by
  have hrun : c.run (w.env w.calls) w.db = (.ok (), w'.db) := by
    unfold World.perform at h
    obtain ⟨hresult, rfl⟩ := Prod.mk.inj h
    exact Prod.ext hresult rfl
  exact UpsertCall.run_of_ok hrun

def callsOf (txSignature : String) (slot : Int64) (events : List PersistedEvent) :
    List UpsertCall :=
  events.map fun event => ⟨event, txSignature, slot⟩

/-- The statements that calls execute when nothing outside fails: all of them, up
to the first that is out of range. -/
def attempted : List UpsertCall → List (Nat × Statement)
  | [] => []
  | c :: cs => if c.InRange then c.statements ++ attempted cs else c.accepted

theorem mem_of_mem_attempted {cs : List UpsertCall} {p : Nat × Statement}
    (h : p ∈ attempted cs) : p ∈ cs.flatMap UpsertCall.statements := by
  induction cs with
  | nil => cases h
  | cons c cs ih =>
    rw [attempted] at h
    rw [List.flatMap_cons, List.mem_append]
    split at h
    · exact (List.mem_append.mp h).imp_right ih
    · exact Or.inl ((List.takeWhile_prefix _).subset h)

namespace Observation

variable {α : Type} (O : Observation α)

theorem observe_of_ok {cs : List UpsertCall} {w w' : World}
    (h : each World.perform cs w = (.ok (), w')) :
    O.observe w'.db = O.after (O.observe w.db) (cs.flatMap UpsertCall.statements) := by
  induction cs generalizing w with
  | nil =>
    cases h
    rfl
  | cons c cs ih =>
    obtain ⟨v, hv, hrest⟩ := andThen_eq_ok.mp h
    rw [List.flatMap_cons, after_append, ih hrest, World.perform_of_ok hv, observe_applyAll]

theorem observe_of_healthy (cs : List UpsertCall) {w : World} (hw : w.Healthy) :
    O.observe (each World.perform cs w).2.db = O.after (O.observe w.db) (attempted cs) := by
  induction cs generalizing w with
  | nil => rfl
  | cons c cs ih =>
    have henv := hw w.calls
    obtain ⟨hstate, -⟩ := c.run_spec (w.env w.calls) w.db
    have hok := UpsertCall.run_ok_of_healthy henv c w.db
    rw [UpsertCall.executed_of_healthy henv] at hstate
    have hdb : (World.perform c w).2.db = applyAll (w.env w.calls) c.accepted w.db := hstate
    have hnext : (World.perform c w).2.Healthy := hw
    rw [each_cons, attempted]
    by_cases hrange : c.InRange
    · have hrun : World.perform c w = (.ok (), (World.perform c w).2) :=
        Prod.ext (hok.mpr hrange) rfl
      rw [andThen_of_ok hrun, if_pos hrange, after_append, ih hnext, hdb,
        UpsertCall.accepted_of_inRange hrange, observe_applyAll]
    · obtain ⟨e, he⟩ : ∃ e, (World.perform c w).1 = .error e := by
        cases hres : (World.perform c w).1 with
        | ok => exact (hrange (hok.mp hres)).elim
        | error e => exact ⟨e, rfl⟩
      rw [andThen_of_error (Prod.ext he rfl : World.perform c w = (_, (World.perform c w).2)),
        if_neg hrange, hdb, observe_applyAll]

end Observation

/-! ## Tables as maps -/

/-- A table as a map from its key to its columns, and the statements as writes. -/
structure KeyedView (κ ν : Type) [DecidableEq κ] where
  view : Database → κ → Option ν
  write? : Statement → Option (κ × ν)
  view_apply : ∀ stamp st db, view (st.apply stamp db) = replay (view db) (write? st).toList

/-- An upsert whose `SET` list covers every column `f` looks at is an overwrite. -/
theorem lookup_upsert_eq_replay {ρ κ ν : Type} [DecidableEq κ] {key : ρ → κ} {f : ρ → ν}
    {c : OnConflict key} {excluded : ρ}
    (hset : ∀ old, key old = key excluded → f (c.set old excluded) = f excluded)
    (t : Table key) :
    (fun k => ((t.upsert c excluded).lookup k).map f) =
      replay (fun k => (t.lookup k).map f) [(key excluded, f excluded)] := by
  funext k
  rw [Table.map_lookup_upsert hset, replay_apply, last, last, Option.none_or]
  split <;> rfl

theorem serial_upsert_eq_replay {ρ κ ν : Type} [DecidableEq κ] {key : ρ → κ} {f : ρ → ν}
    {c : OnConflict key} {excluded : ρ}
    (hset : ∀ old, key old = key excluded → f (c.set old excluded) = f excluded)
    (t : SerialTable key) :
    (fun k => ((t.upsert c excluded).lookup k).map f) =
      replay (fun k => (t.lookup k).map f) [(key excluded, f excluded)] := by
  funext k
  rw [SerialTable.map_lookup_upsert hset, replay_apply, last, last, Option.none_or]
  split <;> rfl

def poolsView : KeyedView Pubkey PoolRow where
  view db k := (db.pools.lookup k).map id
  write?
    | .pools row => some (row.key, row)
    | _ => none
  view_apply stamp st db := by
    cases st with
    | pools row => exact serial_upsert_eq_replay (fun _ => PoolRow.set_eq) db.pools
    | _ => rfl

def adjustCollateralView : KeyedView String AdjustEventRow where
  view db k := (db.adjustCollateralEvents.lookup k).map Clocked.cols
  write?
    | .adjustCollateralEvents row => some (row.transactionSignature, row)
    | _ => none
  view_apply stamp st db := by
    cases st with
    | adjustCollateralEvents row =>
      exact serial_upsert_eq_replay (fun _ => AdjustEventRow.cols_set) db.adjustCollateralEvents
    | _ => rfl

def adjustDebtView : KeyedView String AdjustEventRow where
  view db k := (db.adjustDebtEvents.lookup k).map Clocked.cols
  write?
    | .adjustDebtEvents row => some (row.transactionSignature, row)
    | _ => none
  view_apply stamp st db := by
    cases st with
    | adjustDebtEvents row =>
      exact serial_upsert_eq_replay (fun _ => AdjustEventRow.cols_set) db.adjustDebtEvents
    | _ => rfl

def positionUpdatedView : KeyedView String UserPositionUpdatedRow where
  view db k := (db.userPositionUpdatedEvents.lookup k).map Clocked.cols
  write?
    | .userPositionUpdatedEvents row => some (row.transactionSignature, row)
    | _ => none
  view_apply stamp st db := by
    cases st with
    | userPositionUpdatedEvents row =>
      exact serial_upsert_eq_replay (fun _ => UserPositionUpdatedRow.cols_set)
        db.userPositionUpdatedEvents
    | _ => rfl

def positionLiquidatedView : KeyedView String UserPositionLiquidatedRow where
  view db k := (db.userPositionLiquidatedEvents.lookup k).map Clocked.cols
  write?
    | .userPositionLiquidatedEvents row => some (row.transactionSignature, row)
    | _ => none
  view_apply stamp st db := by
    cases st with
    | userPositionLiquidatedEvents row =>
      exact serial_upsert_eq_replay (fun _ => UserPositionLiquidatedRow.cols_set)
        db.userPositionLiquidatedEvents
    | _ => rfl

def borrowPositionsView : KeyedView (Pubkey × Pubkey) UserBorrowPositionRow where
  view db k := (db.userBorrowPositions.lookup k).map Clocked.cols
  write?
    | .userBorrowPositions row => some ((row.pair, row.signer), row)
    | _ => none
  view_apply stamp st db := by
    cases st with
    | userBorrowPositions row =>
      exact lookup_upsert_eq_replay (fun _ => UserBorrowPositionRow.cols_set _)
        db.userBorrowPositions
    | _ => rfl

def liquidityPositionsView : KeyedView (Pubkey × Pubkey) UserLiquidityPositionRow where
  view db k := (db.userLiquidityPositions.lookup k).map Clocked.cols
  write?
    | .userLiquidityPositions row => some ((row.pair, row.signer), row)
    | _ => none
  view_apply stamp st db := by
    cases st with
    | userLiquidityPositions row =>
      exact lookup_upsert_eq_replay (fun _ => UserLiquidityPositionRow.cols_set _)
        db.userLiquidityPositions
    | _ => rfl

namespace KeyedView

variable {κ ν : Type} [DecidableEq κ] (V : KeyedView κ ν)

def observation : Observation (κ → Option ν) where
  observe := V.view
  next m st := replay m (V.write? st).toList
  observe_apply := V.view_apply

def writes (sts : List (Nat × Statement)) : List (κ × ν) := sts.filterMap fun p => V.write? p.2

theorem after_eq_replay (m : κ → Option ν) (sts : List (Nat × Statement)) :
    V.observation.after m sts = replay m (V.writes sts) := by
  induction sts generalizing m with
  | nil => rfl
  | cons p sts ih =>
    have hhead : V.writes (p :: sts) = (V.write? p.2).toList ++ V.writes sts := by
      simp only [writes, List.filterMap_cons]
      cases V.write? p.2 <;> rfl
    rw [hhead, replay_append, ← ih]
    rfl

theorem view_of_ok {cs : List UpsertCall} {w w' : World}
    (h : each World.perform cs w = (.ok (), w')) :
    V.view w'.db = replay (V.view w.db) (V.writes (cs.flatMap UpsertCall.statements)) :=
  (V.observation.observe_of_ok h).trans (V.after_eq_replay _ _)

def writesOf (c : UpsertCall) : List (κ × ν) := V.writes c.statements

theorem writes_flatMap (cs : List UpsertCall) :
    V.writes (cs.flatMap UpsertCall.statements) = cs.flatMap V.writesOf := by
  simp only [writes, List.filterMap_flatMap]
  rfl

/-- After a run of calls that all succeed a row is there if nothing else was
written under its key. -/
theorem view_of_mem {cs : List UpsertCall} {w w' : World}
    (h : each World.perform cs w = (.ok (), w')) {c : UpsertCall} (hc : c ∈ cs) {k : κ} {row : ν}
    (hrow : (k, row) ∈ V.writesOf c)
    (hone : ∀ d ∈ cs, ∀ p ∈ V.writesOf d, p.1 = k → p.2 = row) : V.view w'.db k = some row := by
  have hlast : last k (cs.flatMap V.writesOf) = some row := by
    refine last_of_forall_eq (List.mem_flatMap.mpr ⟨c, hc, hrow⟩) fun p hp => ?_
    obtain ⟨d, hd, hpd⟩ := List.mem_flatMap.mp hp
    exact hone d hd p hpd
  rw [V.view_of_ok h, V.writes_flatMap, replay_apply, hlast]
  rfl

end KeyedView

end OmnipairIndexer
