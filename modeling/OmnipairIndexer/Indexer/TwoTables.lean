/-
The event history and the latest position, when a statement fails.

`upsert_user_position_updated_event` and
`upsert_user_liquidity_position_updated_event` write the history first and the
latest position after it, each with a statement of its own.  When the first
statement fails nothing is written.  When the second one fails the history keeps
its row: `history_in_step` says that this is the only way an error leaves a trace,
and that without it no row of the history is missing from the latest positions.
-/
import OmnipairIndexer.Library.Transition
import OmnipairIndexer.Indexer.Effects

namespace OmnipairIndexer

open Relational Transition

/-! ## The two functions -/

inductive PositionEvent where
  | borrow (event : UserPositionUpdatedEvent)
  | liquidity (event : UserLiquidityPositionUpdatedEvent)

/-- A call of one of the two functions that write two tables. -/
structure PositionCall where
  event : PositionEvent
  txSignature : String
  slot : Int64

namespace PositionCall

def toUpsertCall (c : PositionCall) : UpsertCall :=
  match c.event with
  | .borrow event => ⟨.userPositionUpdated event, c.txSignature, c.slot⟩
  | .liquidity event => ⟨.userLiquidityPositionUpdated event, c.txSignature, c.slot⟩

def run (c : PositionCall) (env : CallEnv) (db : Database) : Except CarbonError Unit × Database :=
  c.toUpsertCall.run env db

/-- The statement that writes the event history. -/
def history (c : PositionCall) : Statement :=
  match c.event with
  | .borrow event => .userPositionUpdatedEvents (event.row c.txSignature c.slot)
  | .liquidity event => .userLpPositionUpdatedEvents event.logRow

/-- The statement that writes the latest position. -/
def latest (c : PositionCall) : Statement :=
  match c.event with
  | .borrow event => .userBorrowPositions (event.borrowRow c.slot)
  | .liquidity event => .userLiquidityPositions event.row

theorem statements_toUpsertCall (c : PositionCall) :
    c.toUpsertCall.statements = [(0, c.history), (1, c.latest)] := by
  obtain ⟨event, txSignature, slot⟩ := c
  cases event <;> rfl

/-! ## One call -/

/-- Both tables of the call hold the same rows. -/
def SameTables (c : PositionCall) (db db' : Database) : Prop :=
  match c.event with
  | .borrow _ =>
    db'.userPositionUpdatedEvents.table = db.userPositionUpdatedEvents.table ∧
      db'.userBorrowPositions = db.userBorrowPositions
  | .liquidity _ =>
    db'.userLpPositionUpdatedEvents.rows = db.userLpPositionUpdatedEvents.rows ∧
      db'.userLiquidityPositions = db.userLiquidityPositions

theorem SameTables.refl (c : PositionCall) (db : Database) : c.SameTables db db := by
  unfold SameTables
  split <;> exact ⟨rfl, rfl⟩

/-- An error leaves both tables as they were. -/
def AllOrNothing (c : PositionCall) (env : CallEnv) (db : Database) : Prop :=
  ∀ e, (c.run env db).1 = .error e → c.SameTables db (c.run env db).2

/-- The first statement goes through and the second one fails. -/
def HalfDone (c : PositionCall) (env : CallEnv) : Prop :=
  env.poolReady = true ∧ c.history.error? env 0 = none ∧ c.latest.error? env 1 ≠ none

instance (c : PositionCall) (env : CallEnv) : Decidable (c.HalfDone env) :=
  inferInstanceAs (Decidable (_ ∧ _))

/-- The history has the row that the call writes, with the same timestamp. -/
def AlreadyRecorded (c : PositionCall) (env : CallEnv) (db : Database) : Prop :=
  match c.event with
  | .borrow event =>
    db.userPositionUpdatedEvents.lookup c.txSignature =
      some ⟨event.row c.txSignature c.slot, env.eventTimestamp⟩
  | .liquidity _ => False

/-- The history statement changes its table, unless the row is there already. -/
theorem sameTables_history_iff (c : PositionCall) (env : CallEnv) (db : Database) :
    c.SameTables db (c.history.apply (env.stamp 0) db) ↔ c.AlreadyRecorded env db := by
  obtain ⟨event, txSignature, slot⟩ := c
  cases event with
  | borrow event =>
    have hwrite := db.userPositionUpdatedEvents.table_upsert_eq_iff
      UserPositionUpdatedRow.onConflict ⟨event.row txSignature slot, env.eventTimestamp⟩
    have hset : ∀ old, db.userPositionUpdatedEvents.lookup txSignature = some old →
        (UserPositionUpdatedRow.onConflict.set old
            ⟨event.row txSignature slot, env.eventTimestamp⟩ = old ↔
          old = ⟨event.row txSignature slot, env.eventTimestamp⟩) := by
      intro old hold
      have hkey : UserPositionUpdatedRow.key old = txSignature := SerialTable.key_of_lookup hold
      rw [UserPositionUpdatedRow.set_eq hkey]
      exact eq_comm
    constructor
    · rintro ⟨hhistory, -⟩
      obtain ⟨old, hold, hself⟩ := hwrite.mp hhistory
      exact hold.trans (congrArg some ((hset old hold).mp hself))
    · intro hold
      exact ⟨hwrite.mpr ⟨_, hold, (hset _ hold).mpr rfl⟩, rfl⟩
  | liquidity event =>
    simp [SameTables, history, AlreadyRecorded, Statement.apply, Log.insert]

/-- What a call leaves, by which of its statements go through. -/
theorem run_cases (c : PositionCall) (env : CallEnv) (db : Database) :
    ((c.run env db).2 = db ∧ ¬ c.HalfDone env) ∨
      ((c.run env db).1 = .ok () ∧ ¬ c.HalfDone env) ∨
      ((∃ e, (c.run env db).1 = .error e) ∧
        (c.run env db).2 = c.history.apply (env.stamp 0) db ∧ c.HalfDone env) := by
  have hrun : c.run env db = c.toUpsertCall.run env db := rfl
  obtain ⟨hstate, hok⟩ := c.toUpsertCall.run_spec env db
  rw [← hrun, UpsertCall.executed, statements_toUpsertCall] at hstate
  rw [← hrun, statements_toUpsertCall] at hok
  cases hpool : env.poolReady with
  | false =>
    refine Or.inl ⟨?_, fun h => by simp [h.1] at hpool⟩
    simpa [hpool, applyAll] using hstate
  | true =>
    cases hfirst : c.history.error? env 0 with
    | some e =>
      refine Or.inl ⟨?_, fun h => by simp [h.2.1] at hfirst⟩
      simpa [hpool, Statement.passes, hfirst, applyAll] using hstate
    | none =>
      cases hsecond : c.latest.error? env 1 with
      | none =>
        refine Or.inr (Or.inl ⟨hok.mpr ⟨hpool, ?_⟩, fun h => h.2.2 hsecond⟩)
        simp [Statement.passes, hfirst, hsecond]
      | some e =>
        refine Or.inr (Or.inr ⟨?_, ?_, hpool, hfirst, by simp [hsecond]⟩)
        · cases hres : (c.run env db).1 with
          | error e => exact ⟨e, rfl⟩
          | ok =>
            have hall := (hok.mp hres).2
            simp [Statement.passes, hsecond] at hall
        · simpa [hpool, Statement.passes, hfirst, hsecond, applyAll] using hstate

/-- When the first statement went through and the second did not fail, the latest
position is written. -/
theorem latest_mem_executed {c : PositionCall} {env : CallEnv} (hhalf : ¬ c.HalfDone env)
    (hhistory : c.history ∈ (c.toUpsertCall.executed env).map Prod.snd) :
    c.latest ∈ (c.toUpsertCall.executed env).map Prod.snd := by
  rw [UpsertCall.executed, statements_toUpsertCall] at hhistory ⊢
  cases hpool : env.poolReady with
  | false => simp [hpool] at hhistory
  | true =>
    cases hfirst : c.history.error? env 0 with
    | some e => simp [hpool, Statement.passes, hfirst] at hhistory
    | none =>
      cases hsecond : c.latest.error? env 1 with
      | some e => exact (hhalf ⟨hpool, hfirst, by simp [hsecond]⟩).elim
      | none => simp [Statement.passes, hfirst, hsecond]

/-- An error leaves a trace exactly when it is the second statement that failed,
unless the history had the row already. -/
theorem allOrNothing_iff (c : PositionCall) (env : CallEnv) (db : Database) :
    c.AllOrNothing env db ↔ ¬ c.HalfDone env ∨ c.AlreadyRecorded env db := by
  rcases c.run_cases env db with ⟨hsame, hhalf⟩ | ⟨hok, hhalf⟩ | ⟨⟨e, herror⟩, hstate, hhalf⟩
  · refine iff_of_true (fun e _ => ?_) (Or.inl hhalf)
    rw [hsame]
    exact SameTables.refl c db
  · refine iff_of_true (fun e herror => ?_) (Or.inl hhalf)
    rw [hok] at herror
    cases herror
  · have hall : c.AllOrNothing env db ↔ c.SameTables db (c.run env db).2 :=
      ⟨fun h => h e herror, fun h _ _ => h⟩
    rw [hall, hstate, sameTables_history_iff]
    exact ⟨Or.inr, fun h => h.resolve_left (not_not_intro hhalf)⟩

end PositionCall

/-! ## Runs -/

/-- The row of a history statement is in its table. -/
def Database.HasHistory (db : Database) : Statement → Prop
  | .userPositionUpdatedEvents row => row ∈ db.userPositionUpdatedEvents.cols.map Clocked.cols
  | .userLpPositionUpdatedEvents row => row ∈ db.userLpPositionUpdatedEvents.cols.map Clocked.cols
  | _ => False

theorem hasHistory_positionUpdated_iff {db : Database} {row : UserPositionUpdatedRow} :
    db.HasHistory (.userPositionUpdatedEvents row) ↔
      positionUpdatedView.view db row.transactionSignature = some row :=
  SerialTable.mem_map_cols_iff (g := UserPositionUpdatedRow.transactionSignature)
    (fun _ => rfl) db.userPositionUpdatedEvents row

theorem positionUpdated_of_write? {st : Statement} {k : String} {row : UserPositionUpdatedRow}
    (h : positionUpdatedView.write? st = some (k, row)) : st = .userPositionUpdatedEvents row := by
  cases st with
  | userPositionUpdatedEvents row' =>
    cases h
    rfl
  | _ => cases h

/-- A row of the history was there before the statement, or the statement wrote it. -/
theorem hasHistory_apply {stamp : Stamp} {st st' : Statement} {db : Database}
    (h : (st'.apply stamp db).HasHistory st) : db.HasHistory st ∨ st' = st := by
  cases st with
  | userPositionUpdatedEvents row =>
    rw [hasHistory_positionUpdated_iff, positionUpdatedView.view_apply, LastWrite.replay_apply,
      Option.or_eq_some_iff] at h
    rcases h with hlast | ⟨-, hold⟩
    · have hwrite := LastWrite.mem_of_last hlast
      exact Or.inr (positionUpdated_of_write? (Option.mem_toList.mp hwrite))
    · exact Or.inl (hasHistory_positionUpdated_iff.mpr hold)
  | userLpPositionUpdatedEvents row =>
    cases st' with
    | userLpPositionUpdatedEvents row' =>
      have hrow : row ∈ ((db.userLpPositionUpdatedEvents.insert
          ⟨row', stamp.eventTimestamp⟩).cols.map Clocked.cols) := h
      rw [Log.cols_insert, List.map_append, List.mem_append, List.map_singleton,
        List.mem_singleton] at hrow
      exact hrow.imp id fun heq => congrArg Statement.userLpPositionUpdatedEvents heq.symm
    | _ => exact Or.inl h
  | _ => cases h

theorem hasHistory_applyAll {env : CallEnv} {sts : List (Nat × Statement)} {st : Statement}
    {db : Database} (h : (applyAll env sts db).HasHistory st) :
    db.HasHistory st ∨ st ∈ sts.map Prod.snd := by
  induction sts generalizing db with
  | nil => exact Or.inl h
  | cons p sts ih =>
    rcases ih h with hhead | hrest
    · rcases hasHistory_apply hhead with hold | rfl
      · exact Or.inl hold
      · exact Or.inr List.mem_cons_self
    · exact Or.inr (List.mem_cons_of_mem _ hrest)

/-- The database and the statements that went through so far. -/
structure Ledger where
  world : World
  applied : List Statement

namespace Ledger

def start (world : World) : Ledger := ⟨world, []⟩

/-- One call.  Its error is only logged, so the next call runs in any case. -/
def step (l : Ledger) (c : UpsertCall) : Option Ledger :=
  some ⟨(World.perform c l.world).2,
    l.applied ++ (c.executed (l.world.env l.world.calls)).map Prod.snd⟩

/-- The call is not one whose second statement fails. -/
def NotHalfDone (l : Ledger) (c : UpsertCall) : Prop :=
  ∀ d : PositionCall, d.toUpsertCall = c → ¬ d.HalfDone (l.world.env l.world.calls)

/-- Each row that the history has gained is of a call whose latest position was
written too. -/
def InStep (before : Database) (l : Ledger) : Prop :=
  ∀ st, l.world.db.HasHistory st →
    before.HasHistory st ∨ ∃ d : PositionCall, d.history = st ∧ d.latest ∈ l.applied

/-- A history statement is one of a position call. -/
theorem exists_positionCall {c : UpsertCall} {db : Database} {st : Statement}
    (hst : st ∈ c.statements.map Prod.snd) (hhistory : db.HasHistory st) :
    ∃ d : PositionCall, d.toUpsertCall = c ∧ d.history = st := by
  obtain ⟨event, txSignature, slot⟩ := c
  cases event with
  | userPositionUpdated event =>
    simp only [UpsertCall.statements, List.map_cons, List.map_nil, List.mem_cons,
      List.not_mem_nil, or_false] at hst
    rcases hst with rfl | rfl
    · exact ⟨⟨.borrow event, txSignature, slot⟩, rfl, rfl⟩
    · cases hhistory
  | userLiquidityPositionUpdated event =>
    simp only [UpsertCall.statements, List.map_cons, List.map_nil, List.mem_cons,
      List.not_mem_nil, or_false] at hst
    rcases hst with rfl | rfl
    · exact ⟨⟨.liquidity event, txSignature, slot⟩, rfl, rfl⟩
    · cases hhistory
  | _ =>
    simp only [UpsertCall.statements, List.map_cons, List.map_nil, List.mem_cons,
      List.not_mem_nil, or_false] at hst
    subst hst
    cases hhistory

theorem step_inStep {before : Database} {l m : Ledger} {c : UpsertCall} (hl : InStep before l)
    (hc : NotHalfDone l c) (hstep : step l c = some m) : InStep before m := by
  cases hstep
  intro st hst
  have hdb : (World.perform c l.world).2.db =
      applyAll (l.world.env l.world.calls) (c.executed (l.world.env l.world.calls)) l.world.db :=
    (c.run_spec _ _).1
  rcases hasHistory_applyAll (hdb ▸ hst) with hold | hnew
  · rcases hl st hold with hbefore | ⟨d, hd, hlatest⟩
    · exact Or.inl hbefore
    · exact Or.inr ⟨d, hd, List.mem_append_left _ hlatest⟩
  · have hexecuted := UpsertCall.executed_prefix c (l.world.env l.world.calls)
    have hsub := hexecuted.subset
    obtain ⟨d, rfl, rfl⟩ := exists_positionCall (List.map_subset _ hsub hnew) hst
    have hlatest := d.latest_mem_executed (hc d rfl) hnew
    exact Or.inr ⟨d, rfl, List.mem_append_right _ hlatest⟩

end Ledger

/-- For every call and database: an error leaves both tables as they were, unless
the second statement failed after the first had changed its table.  And over every
run, whatever fails: if no call fails so, each row that the history gains is of an
event that was applied to the latest positions too. -/
theorem history_in_step (w : World) :
    (∀ (c : PositionCall) (env : CallEnv) (db : Database),
      c.AllOrNothing env db ↔ ¬ c.HalfDone env ∨ c.AlreadyRecorded env db) ∧
    ∀ (calls : List UpsertCall) (l : Ledger),
      Along Ledger.step Ledger.NotHalfDone (.start w) calls →
      run Ledger.step (.start w) calls = some l → l.InStep w.db := by
  refine ⟨PositionCall.allOrNothing_iff, fun calls l hcalls hrun => ?_⟩
  have hstart : (Ledger.start w).InStep w.db := fun st hst => Or.inl hst
  exact run_invariant (fun _ _ _ => Ledger.step_inStep) hstart hcalls hrun

/-! ## A lost position -/

/-- A call whose second statement loses its connection. -/
def lostConnection : CallEnv :=
  { CallEnv.healthyAt 0 with fault := fun i => if i = 1 then some "connection closed" else none }

/-- A user deposits liquidity. -/
def deposit : PositionCall where
  event := .liquidity ⟨1, 1, 1, 0, 0, .filled 1, .filled 2, .filled 3, ⟨.filled 4, .filled 5, 7⟩⟩
  txSignature := "deposit"
  slot := 7

/-- The first call loses its connection before it writes anything. -/
def retried : World where
  db := .empty
  env i :=
    if i = 0 then { CallEnv.healthyAt 0 with fault := fun _ => some "connection closed" }
    else .healthyAt i
  calls := 0

/-- The deposit fails, is made again, and is in both tables. -/
theorem history_in_step_retried :
    ∃ l, run Ledger.step (.start retried) [deposit.toUpsertCall, deposit.toUpsertCall] = some l ∧
      l.InStep .empty ∧ l.world.db.userLpPositionUpdatedEvents.cols.length = 1 := by
  have hlatest : ∀ d : PositionCall, d.toUpsertCall = deposit.toUpsertCall →
      d.history = deposit.history ∧ d.latest = deposit.latest := by
    intro d hd
    have hstatements := d.statements_toUpsertCall
    rw [hd, PositionCall.statements_toUpsertCall] at hstatements
    simp only [List.cons.injEq, Prod.mk.injEq, true_and, and_true] at hstatements
    exact ⟨hstatements.1.symm, hstatements.2.symm⟩
  have halong : Along Ledger.step Ledger.NotHalfDone (.start retried)
      [deposit.toUpsertCall, deposit.toUpsertCall] := by
    refine ⟨fun d hd h => ?_, fun d hd h => ?_, trivial⟩
    · exact absurd ((hlatest d hd).1 ▸ h.2.1) (by decide +kernel)
    · exact h.2.2 ((hlatest d hd).2 ▸ by decide +kernel)
  exact ⟨_, rfl, (history_in_step retried).2 _ _ halong rfl, by decide +kernel⟩

/-- The deposit fails and is in the history all the same; a retry records it a
second time. -/
theorem failed_deposit_recorded :
    ¬ (∀ (c : PositionCall) (env : CallEnv) (db : Database), c.AllOrNothing env db) ∧
      (deposit.run lostConnection .empty).1 =
        .error (.custom "Failed to upsert user liquidity position: connection closed") ∧
      (deposit.run lostConnection .empty).2.userLpPositionUpdatedEvents.cols.length = 1 ∧
      (deposit.run lostConnection .empty).2.userLiquidityPositions.rows.length = 0 ∧
      (deposit.run (.healthyAt 1)
        (deposit.run lostConnection .empty).2).2.userLpPositionUpdatedEvents.cols.length = 2 := by
  have herror : (deposit.run lostConnection .empty).1 =
      .error (.custom "Failed to upsert user liquidity position: connection closed") := by
    decide +kernel
  have hrows : (deposit.run lostConnection .empty).2.userLpPositionUpdatedEvents.rows ≠ [] := by
    decide +kernel
  refine ⟨fun h => ?_, herror, by decide +kernel, by decide +kernel, by decide +kernel⟩
  exact hrows (h deposit lostConnection .empty _ herror).1

end OmnipairIndexer
