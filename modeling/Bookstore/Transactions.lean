import Bookstore.Interleaving
import Mathlib.Data.Int.Notation

/-!
A transactional database seen from one connection. A statement is a partial
function of the tables; inside a transaction its effect is kept in the
connection's redo log, on top of the committed tables, until COMMIT applies
the log or ROLLBACK drops it. Key counters are advanced at once and are never
rolled back. Any statement but ROLLBACK may be made to fail without effect.
-/
namespace Bookstore.Transactions

open Interleaving

/-- The server: committed tables, key counters, and which statements fail. -/
structure Server (δ κ : Type) where
  db : δ
  nextKey : κ → ℤ
  faults : ℕ → Bool
  clock : ℕ

/-- A statement; its result is `none` when the server rejects it. -/
structure Stmt (δ α : Type) where
  result : δ → Option α
  effect : δ → δ

/-- The effects of the open transaction, `none` in autocommit mode. -/
abbrev Redo (δ : Type) := Option (δ → δ)

abbrev Session (δ κ : Type) := StateT (Redo δ) (Prog (Server δ κ))

variable {δ κ α β : Type}

def Server.tick (s : Server δ κ) : Server δ κ := { s with clock := s.clock + 1 }

/-- No statement fails. -/
def Server.Reliable (s : Server δ κ) : Prop := ∀ n, s.faults n = false

/-- No statement fails from now on. -/
def Server.Quiet (s : Server δ κ) : Prop := ∀ n, s.clock ≤ n → s.faults n = false

/-- Only one of the statements that follow fails, counted from 0, or none. -/
def Server.failing (s : Server δ κ) (point : Option ℕ) : Server δ κ :=
  { s with faults := fun n => decide (point.map (s.clock + ·) = some n) }

@[simp] theorem Server.tick_db (s : Server δ κ) : s.tick.db = s.db := rfl

@[simp] theorem Server.tick_nextKey (s : Server δ κ) : s.tick.nextKey = s.nextKey := rfl

@[simp] theorem Server.tick_faults (s : Server δ κ) : s.tick.faults = s.faults := rfl

theorem Server.failing_faults (s : Server δ κ) (point : Option ℕ) (n : ℕ) :
    (s.failing point).faults (s.clock + n) = decide (point = some n) := by
  cases point with
  | none => rfl
  | some k => simp [Server.failing]

/-- Behind the point of failure the server is quiet. -/
theorem Server.quiet_of_failing (s : Server δ κ) (point : Option ℕ) (db : δ) (key : κ → ℤ)
    (n : ℕ) (h : ∀ k, point = some k → k < n) :
    Server.Quiet ⟨db, key, (s.failing point).faults, s.clock + n⟩ := by
  intro m hm
  obtain ⟨j, rfl⟩ := Nat.exists_eq_add_of_le (show s.clock + n ≤ m from hm)
  rw [show s.clock + n + j = s.clock + (n + j) by omega, Server.failing_faults]
  rw [decide_eq_false_iff_not]
  intro hpoint
  have hlt := h _ hpoint
  omega

/-- The tables as the connection sees them. -/
def view (redo : Redo δ) (db : δ) : δ :=
  match redo with
  | none => db
  | some f => f db

@[simp] theorem view_none (db : δ) : view none db = db := rfl

@[simp] theorem view_some (f : δ → δ) (db : δ) : view (some f) db = f db := rfl

namespace Session

/-- A successful statement commits at once, or is added to the redo log. -/
def record (redo : Redo δ) (effect : δ → δ) (s : Server δ κ) : Server δ κ :=
  match redo with
  | none => { s.tick with db := effect s.db }
  | some _ => s.tick

def query (stmt : Stmt δ α) : Session δ κ (Option α) := fun redo =>
  .act
    (fun s =>
      if s.faults s.clock then (none, s.tick)
      else
        match stmt.result (view redo s.db) with
        | none => (none, s.tick)
        | some a => (some a, record redo stmt.effect s))
    fun r => .done (r, if r.isSome then redo.map (stmt.effect ∘ ·) else redo)

/-- An INSERT whose primary key comes from the counter of its table. -/
def insertKeyed [DecidableEq κ] (table : κ) (stmt : ℤ → Stmt δ Unit) :
    Session δ κ (Option ℤ) := fun redo =>
  .act
    (fun s =>
      if s.faults s.clock then (none, s.tick)
      else
        match (stmt (s.nextKey table)).result (view redo s.db) with
        | none => (none, s.tick)
        | some () =>
          (some (s.nextKey table),
            { record redo (stmt (s.nextKey table)).effect s with
              nextKey := Function.update s.nextKey table (s.nextKey table + 1) }))
    fun r =>
      .done (r, match r with
        | none => redo
        | some key => redo.map ((stmt key).effect ∘ ·))

def startTransaction : Session δ κ Bool := fun redo =>
  .act (fun s => (!s.faults s.clock, s.tick)) fun ok => .done (ok, if ok then some id else redo)

def commit : Session δ κ Bool := fun redo =>
  .act
    (fun s =>
      if s.faults s.clock then (false, s.tick) else (true, { s.tick with db := view redo s.db }))
    fun ok => .done (ok, if ok then none else redo)

def rollback : Session δ κ Unit := fun _ =>
  .act (fun s => ((), s.tick)) fun r => .done (r, none)

/-- Work on a connection of its own, in autocommit mode until told otherwise. -/
def withConnection (body : Session δ κ α) : Prog (Server δ κ) α := do
  let r ← body.run none
  pure r.1

/-- Sequential execution: the result, the redo log and the server afterwards. -/
def exec (body : Session δ κ α) (redo : Redo δ) (s : Server δ κ) : (α × Redo δ) × Server δ κ :=
  (body.run redo).run s

@[simp] theorem exec_pure (a : α) (redo : Redo δ) (s : Server δ κ) :
    exec (pure a : Session δ κ α) redo s = ((a, redo), s) := rfl

@[simp] theorem exec_bind (body : Session δ κ α) (k : α → Session δ κ β) (redo : Redo δ)
    (s : Server δ κ) :
    exec (body >>= k) redo s =
      exec (k (exec body redo s).1.1) (exec body redo s).1.2 (exec body redo s).2 := by
  simp only [exec, StateT.run_bind, Prog.run_bind]

@[simp] theorem run_withConnection (body : Session δ κ α) (s : Server δ κ) :
    (withConnection body).run s = ((exec body none s).1.1, (exec body none s).2) := by
  simp only [withConnection, exec, Prog.run_bind, Prog.run_pure]

@[simp] theorem exec_rollback (redo : Redo δ) (s : Server δ κ) :
    exec (rollback : Session δ κ Unit) redo s = (((), none), s.tick) := rfl

/-- START TRANSACTION opens an empty log, or fails. -/
theorem startTransaction_cases (redo : Redo δ) (s : Server δ κ) :
    (exec (startTransaction : Session δ κ Bool) redo s = ((false, redo), s.tick) ∧ ¬ s.Reliable) ∨
    exec (startTransaction : Session δ κ Bool) redo s = ((true, some id), s.tick) := by
  cases hfault : s.faults s.clock with
  | true =>
    refine .inl ⟨by simp [exec, startTransaction, StateT.run, hfault], ?_⟩
    intro hreliable
    simp [hreliable s.clock] at hfault
  | false => exact .inr (by simp [exec, startTransaction, StateT.run, hfault])

/-- Inside a transaction a statement never touches the committed tables. -/
theorem query_cases (stmt : Stmt δ α) (f : δ → δ) (s : Server δ κ) :
    (exec (query stmt) (some f) s = ((none, some f), s.tick) ∧
      (s.Reliable → stmt.result (f s.db) = none)) ∨
    ∃ a, stmt.result (f s.db) = some a ∧
      exec (query stmt) (some f) s = ((some a, some (stmt.effect ∘ f)), s.tick) := by
  cases hfault : s.faults s.clock with
  | true =>
    refine .inl ⟨by simp [exec, query, StateT.run, hfault], ?_⟩
    intro hreliable
    simp [hreliable s.clock] at hfault
  | false =>
    cases hresult : stmt.result (f s.db) with
    | none => exact .inl ⟨by simp [exec, query, StateT.run, hfault, hresult], fun _ => rfl⟩
    | some a =>
      refine .inr ⟨a, rfl, ?_⟩
      simp [exec, query, StateT.run, hfault, hresult, record]

/-- Inside a transaction a keyed INSERT fails, or logs its row and uses up the key. -/
theorem insertKeyed_cases [DecidableEq κ] (table : κ) (stmt : ℤ → Stmt δ Unit) (f : δ → δ)
    (s : Server δ κ) :
    exec (insertKeyed table stmt) (some f) s = ((none, some f), s.tick) ∨
    ((stmt (s.nextKey table)).result (f s.db) = some () ∧
      exec (insertKeyed table stmt) (some f) s =
        ((some (s.nextKey table), some ((stmt (s.nextKey table)).effect ∘ f)),
          { s.tick with
            nextKey := Function.update s.nextKey table (s.nextKey table + 1) })) := by
  cases hfault : s.faults s.clock with
  | true => exact .inl (by simp [exec, insertKeyed, StateT.run, hfault])
  | false =>
    cases hresult : (stmt (s.nextKey table)).result (f s.db) with
    | none => exact .inl (by simp [exec, insertKeyed, StateT.run, hfault, hresult])
    | some a =>
      exact .inr ⟨rfl, by simp [exec, insertKeyed, StateT.run, hfault, hresult, record]⟩

/-- What a statement that went through inside a transaction says. -/
theorem query_some {stmt : Stmt δ α} {f : δ → δ} {s s' : Server δ κ} {a : α} {redo : Redo δ}
    (h : exec (query stmt) (some f) s = ((some a, redo), s')) :
    s.faults s.clock = false ∧ stmt.result (f s.db) = some a ∧
      redo = some (stmt.effect ∘ f) ∧ s' = s.tick := by
  cases hfault : s.faults s.clock with
  | true =>
    simp only [exec, query, StateT.run, Prog.run_act, hfault, if_true, Prog.run_done,
      Prod.mk.injEq, reduceCtorEq, false_and] at h
  | false =>
    cases hresult : stmt.result (f s.db) with
    | none => simp [exec, query, StateT.run, hfault, hresult] at h
    | some b =>
      simp [exec, query, StateT.run, hfault, hresult, record] at h
      exact ⟨rfl, by rw [h.1.1], h.1.2.symm, h.2.symm⟩

theorem startTransaction_true {redo redo' : Redo δ} {s s' : Server δ κ}
    (h : exec (startTransaction : Session δ κ Bool) redo s = ((true, redo'), s')) :
    s.faults s.clock = false ∧ redo' = some id ∧ s' = s.tick := by
  cases hfault : s.faults s.clock with
  | true => simp [exec, startTransaction, StateT.run, hfault] at h
  | false =>
    simp [exec, startTransaction, StateT.run, hfault] at h
    exact ⟨rfl, h.1.symm, h.2.symm⟩

theorem commit_true {f : δ → δ} {redo : Redo δ} {s s' : Server δ κ}
    (h : exec (commit : Session δ κ Bool) (some f) s = ((true, redo), s')) :
    s.faults s.clock = false ∧ s' = { s.tick with db := f s.db } := by
  cases hfault : s.faults s.clock with
  | true => simp [exec, commit, StateT.run, hfault] at h
  | false =>
    simp [exec, commit, StateT.run, hfault] at h
    exact ⟨rfl, h.2.symm⟩

/-- A statement that is made to fail. -/
theorem query_faulty (stmt : Stmt δ α) (redo : Redo δ) (s : Server δ κ)
    (hfault : s.faults s.clock = true) :
    exec (query stmt) redo s = ((none, redo), s.tick) := by
  simp [exec, query, StateT.run, hfault]

/-- A statement that the server accepts. -/
theorem query_accepted (stmt : Stmt δ α) (redo : Redo δ) (s : Server δ κ) {a : α}
    (hfault : s.faults s.clock = false) (hresult : stmt.result (view redo s.db) = some a) :
    exec (query stmt) redo s =
      ((some a, redo.map (stmt.effect ∘ ·)), record redo stmt.effect s) := by
  simp [exec, query, StateT.run, hfault, hresult]

/-- A statement that the tables reject. -/
theorem query_rejected (stmt : Stmt δ α) (redo : Redo δ) (s : Server δ κ)
    (hresult : stmt.result (view redo s.db) = none) :
    exec (query stmt) redo s = ((none, redo), s.tick) := by
  simp [exec, query, StateT.run, hresult]

/-- An INSERT that goes through inside a transaction. -/
theorem insertKeyed_accepted [DecidableEq κ] (table : κ) (stmt : ℤ → Stmt δ Unit) (f : δ → δ)
    (s : Server δ κ) (hfault : s.faults s.clock = false)
    (hresult : (stmt (s.nextKey table)).result (f s.db) = some ()) :
    exec (insertKeyed table stmt) (some f) s =
      ((some (s.nextKey table), some ((stmt (s.nextKey table)).effect ∘ f)),
        { s.tick with nextKey := Function.update s.nextKey table (s.nextKey table + 1) }) := by
  simp [exec, insertKeyed, StateT.run, hfault, hresult, record]

/-- An INSERT that fails or that the tables reject. -/
theorem insertKeyed_refused [DecidableEq κ] (table : κ) (stmt : ℤ → Stmt δ Unit) (f : δ → δ)
    (s : Server δ κ)
    (h : ¬ (s.faults s.clock = false ∧ (stmt (s.nextKey table)).result (f s.db) = some ())) :
    exec (insertKeyed table stmt) (some f) s = ((none, some f), s.tick) := by
  rcases insertKeyed_cases table stmt f s with hnone | ⟨hresult, hsome⟩
  · exact hnone
  · cases hfault : s.faults s.clock with
    | false => exact absurd ⟨hfault, hresult⟩ h
    | true => simp [exec, insertKeyed, StateT.run, hfault]

/-- In autocommit mode a statement fails, or takes effect at once. -/
theorem query_autocommit (stmt : Stmt δ α) (s : Server δ κ) :
    (exec (query stmt) none s = ((none, none), s.tick) ∧
      (s.Reliable → stmt.result s.db = none)) ∨
    ∃ a, stmt.result s.db = some a ∧
      exec (query stmt) none s = ((some a, none), { s.tick with db := stmt.effect s.db }) := by
  cases hfault : s.faults s.clock with
  | true =>
    refine .inl ⟨by simp [exec, query, StateT.run, hfault], ?_⟩
    intro hreliable
    simp [hreliable s.clock] at hfault
  | false =>
    cases hresult : stmt.result s.db with
    | none => exact .inl ⟨by simp [exec, query, StateT.run, hfault, hresult], fun _ => rfl⟩
    | some a =>
      refine .inr ⟨a, rfl, ?_⟩
      simp [exec, query, StateT.run, hfault, hresult, record]

/-- COMMIT applies the log, or fails and leaves the transaction open. -/
theorem commit_cases (f : δ → δ) (s : Server δ κ) :
    (exec (commit : Session δ κ Bool) (some f) s = ((false, some f), s.tick) ∧ ¬ s.Reliable) ∨
    exec (commit : Session δ κ Bool) (some f) s = ((true, none), { s.tick with db := f s.db }) := by
  cases hfault : s.faults s.clock with
  | true =>
    refine .inl ⟨by simp [exec, commit, StateT.run, hfault], ?_⟩
    intro hreliable
    simp [hreliable s.clock] at hfault
  | false => exact .inr (by simp [exec, commit, StateT.run, hfault])

theorem commit_accepted (f : δ → δ) (s : Server δ κ) (hfault : s.faults s.clock = false) :
    exec (commit : Session δ κ Bool) (some f) s = ((true, none), { s.tick with db := f s.db }) := by
  simp [exec, commit, StateT.run, hfault]

theorem commit_faulty (f : δ → δ) (s : Server δ κ) (hfault : s.faults s.clock = true) :
    exec (commit : Session δ κ Bool) (some f) s = ((false, some f), s.tick) := by
  simp [exec, commit, StateT.run, hfault]

theorem startTransaction_accepted (redo : Redo δ) (s : Server δ κ)
    (hfault : s.faults s.clock = false) :
    exec (startTransaction : Session δ κ Bool) redo s = ((true, some id), s.tick) := by
  simp [exec, startTransaction, StateT.run, hfault]

theorem startTransaction_faulty (redo : Redo δ) (s : Server δ κ)
    (hfault : s.faults s.clock = true) :
    exec (startTransaction : Session δ κ Bool) redo s = ((false, redo), s.tick) := by
  simp [exec, startTransaction, StateT.run, hfault]

end Session

end Bookstore.Transactions
