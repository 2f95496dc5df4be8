import Bookstore.Transactions

/-!
Programs and database sessions that keep an invariant, put together from their
steps. A session keeps an invariant of the tables when it holds of the committed
tables and of what the connection sees, after every statement.
-/
namespace Bookstore.Preservation

open Interleaving Transactions Transactions.Session

section Programs

variable {σ τ α β : Type}

def Preserves (I : σ → Prop) (p : Prog σ α) : Prop := ∀ s, I s → I (p.run s).2

variable {I : σ → Prop}

theorem Preserves.pure (a : α) : Preserves I (pure a) := fun _ hs => hs

theorem Preserves.bind {p : Prog σ α} {k : α → Prog σ β} (hp : Preserves I p)
    (hk : ∀ a, Preserves I (k a)) : Preserves I (p >>= k) := by
  intro s hs
  rw [Prog.run_bind]
  exact hk _ _ (hp s hs)

theorem Preserves.ite {c : Prop} [Decidable c] {p q : Prog σ α} (hp : Preserves I p)
    (hq : Preserves I q) : Preserves I (if c then p else q) := by
  split
  · exact hp
  · exact hq

theorem Preserves.call {f : σ → α × σ} (h : ∀ s, I s → I (f s).2) : Preserves I (Prog.call f) :=
  h

theorem Preserves.read (f : σ → α) : Preserves I (Prog.read f) := fun _ hs => hs

theorem Preserves.write {f : σ → σ} (h : ∀ s, I s → I (f s)) : Preserves I (Prog.write f) := h

/-- An invariant of a component. -/
theorem Preserves.lift {J : τ → Prop} {p : Prog τ α} (hp : Preserves J p) (l : Lens σ τ) :
    Preserves (fun s => J (l.get s)) (p.lift l) := by
  intro s hs
  rw [Prog.run_lift, Lens.get_set]
  exact hp _ hs

end Programs

section Sessions

variable {δ κ α β : Type}

/-- The committed tables and the ones that the connection sees are in `J`. -/
structure Holds (J : δ → Prop) (redo : Redo δ) (s : Server δ κ) : Prop where
  committed : J s.db
  seen : J (view redo s.db)

def Keeps (J : δ → Prop) (body : Session δ κ α) : Prop :=
  ∀ redo s, Holds J redo s → Holds J (exec body redo s).1.2 (exec body redo s).2

variable {J : δ → Prop}

theorem Keeps.pure (a : α) : Keeps J (pure a : Session δ κ α) := fun _ _ h => h

theorem Keeps.bind {body : Session δ κ α} {k : α → Session δ κ β} (hbody : Keeps J body)
    (hk : ∀ a, Keeps J (k a)) : Keeps J (body >>= k) := by
  intro redo s h
  rw [exec_bind]
  exact hk _ _ _ (hbody redo s h)

/-- An accepted statement does to both what it does to the tables. -/
theorem Holds.record {redo : Redo δ} {s : Server δ κ} (h : Holds J redo s) {effect : δ → δ}
    (heffect : J (view redo s.db) → J (effect (view redo s.db))) :
    Holds J (redo.map (effect ∘ ·)) (record redo effect s) := by
  cases redo with
  | none => exact ⟨heffect h.seen, heffect h.seen⟩
  | some f => exact ⟨h.committed, heffect h.seen⟩

theorem Keeps.query {stmt : Stmt δ α}
    (h : ∀ db a, J db → stmt.result db = some a → J (stmt.effect db)) :
    Keeps J (query stmt : Session δ κ (Option α)) := by
  intro redo s hs
  cases hfault : s.faults s.clock with
  | true =>
    rw [query_faulty stmt redo s hfault]
    exact ⟨hs.committed, hs.seen⟩
  | false =>
    cases hresult : stmt.result (view redo s.db) with
    | none =>
      rw [query_rejected stmt redo s hresult]
      exact ⟨hs.committed, hs.seen⟩
    | some a =>
      rw [query_accepted stmt redo s hfault hresult]
      exact hs.record fun hseen => h _ a hseen hresult

theorem Keeps.insertKeyed [DecidableEq κ] (table : κ) {stmt : ℤ → Stmt δ Unit}
    (h : ∀ key db, J db → (stmt key).result db = some () → J ((stmt key).effect db)) :
    Keeps J (insertKeyed table stmt) := by
  intro redo s hs
  cases hfault : s.faults s.clock with
  | true =>
    have hrun : exec (Session.insertKeyed table stmt) redo s = ((none, redo), s.tick) := by
      simp [exec, Session.insertKeyed, StateT.run, hfault]
    rw [hrun]
    exact ⟨hs.committed, hs.seen⟩
  | false =>
    cases hresult : (stmt (s.nextKey table)).result (view redo s.db) with
    | none =>
      have hrun : exec (Session.insertKeyed table stmt) redo s = ((none, redo), s.tick) := by
        simp [exec, Session.insertKeyed, StateT.run, hfault, hresult]
      rw [hrun]
      exact ⟨hs.committed, hs.seen⟩
    | some a =>
      have hrun : exec (Session.insertKeyed table stmt) redo s =
          ((some (s.nextKey table), redo.map ((stmt (s.nextKey table)).effect ∘ ·)),
            { Session.record redo (stmt (s.nextKey table)).effect s with
              nextKey := Function.update s.nextKey table (s.nextKey table + 1) }) := by
        simp [exec, Session.insertKeyed, StateT.run, hfault, hresult]
      rw [hrun]
      have hrecord := hs.record fun hseen => h (s.nextKey table) _ hseen hresult
      exact ⟨hrecord.committed, hrecord.seen⟩

theorem Keeps.startTransaction : Keeps J (startTransaction : Session δ κ Bool) := by
  intro redo s hs
  rcases startTransaction_cases redo s with ⟨hrun, _⟩ | hrun
  · rw [hrun]
    exact ⟨hs.committed, hs.seen⟩
  · rw [hrun]
    exact ⟨hs.committed, hs.committed⟩

theorem Keeps.commit : Keeps J (commit : Session δ κ Bool) := by
  intro redo s hs
  cases hfault : s.faults s.clock with
  | true =>
    have hrun : exec (Session.commit : Session δ κ Bool) redo s = ((false, redo), s.tick) := by
      simp [exec, Session.commit, StateT.run, hfault]
    rw [hrun]
    exact ⟨hs.committed, hs.seen⟩
  | false =>
    have hrun : exec (Session.commit : Session δ κ Bool) redo s =
        ((true, none), { s.tick with db := view redo s.db }) := by
      simp [exec, Session.commit, StateT.run, hfault]
    rw [hrun]
    exact ⟨hs.seen, hs.seen⟩

theorem Keeps.rollback : Keeps J (rollback : Session δ κ Unit) := by
  intro redo s hs
  rw [exec_rollback]
  exact ⟨hs.committed, hs.committed⟩

/-- The end of a transaction: COMMIT, or ROLLBACK if that fails. -/
theorem keeps_commit_or (a b : α) :
    Keeps J (do
      if ← commit then pure a
      else do
        rollback
        pure b : Session δ κ α) := by
  refine .bind .commit fun committed => ?_
  cases committed with
  | true => exact .pure a
  | false => exact .bind .rollback fun _ => .pure b

theorem Preserves.withConnection {body : Session δ κ α} (h : Keeps J body) :
    Preserves (fun s : Server δ κ => J s.db) (withConnection body) := by
  intro s hs
  rw [run_withConnection]
  exact (h none s ⟨hs, hs⟩).committed

end Sessions

end Bookstore.Preservation
