import Bookstore.Transactions

/-!
Programs on a server that does not fail. What they answer and write depends on
the tables and the key counters only, not on how many statements came before.
-/
namespace Bookstore.Clockless

open Interleaving Transactions Transactions.Session

variable {δ κ α β : Type}

/-- Two servers that do not fail and hold the same. -/
structure Alike (s t : Server δ κ) : Prop where
  db : s.db = t.db
  nextKey : s.nextKey = t.nextKey
  reliable : s.Reliable
  reliable' : t.Reliable

theorem Alike.refl {s : Server δ κ} (h : s.Reliable) : Alike s s := ⟨rfl, rfl, h, h⟩

theorem Alike.trans {s t u : Server δ κ} (h : Alike s t) (h' : Alike t u) : Alike s u :=
  ⟨h.db.trans h'.db, h.nextKey.trans h'.nextKey, h.reliable, h'.reliable'⟩

theorem Alike.tick {s t : Server δ κ} (h : Alike s t) : Alike s.tick t.tick :=
  ⟨h.db, h.nextKey, h.reliable, h.reliable'⟩

/-! ## Programs -/

/-- The program gives the same on servers that hold the same. -/
def Blind (p : Prog (Server δ κ) α) : Prop :=
  ∀ s t, Alike s t → (p.run s).1 = (p.run t).1 ∧ Alike (p.run s).2 (p.run t).2

theorem Blind.pure (a : α) : Blind (pure a : Prog (Server δ κ) α) := fun _ _ h => ⟨rfl, h⟩

theorem Blind.bind {p : Prog (Server δ κ) α} {k : α → Prog (Server δ κ) β} (hp : Blind p)
    (hk : ∀ a, Blind (k a)) : Blind (p >>= k) := by
  intro s t h
  obtain ⟨hanswer, hafter⟩ := hp s t h
  rw [Prog.run_bind, Prog.run_bind, hanswer]
  exact hk _ _ _ hafter

theorem Blind.ite {c : Prop} [Decidable c] {p q : Prog (Server δ κ) α} (hp : Blind p)
    (hq : Blind q) : Blind (if c then p else q) := by
  split
  · exact hp
  · exact hq

/-- A blind program leaves a server that does not fail such a server. -/
theorem Blind.reliable {p : Prog (Server δ κ) α} (hp : Blind p) {s : Server δ κ}
    (h : s.Reliable) : (p.run s).2.Reliable :=
  (hp s s (.refl h)).2.reliable

/-! ## Sessions -/

def BlindSession (body : Session δ κ α) : Prop :=
  ∀ redo s t, Alike s t →
    (exec body redo s).1 = (exec body redo t).1 ∧ Alike (exec body redo s).2 (exec body redo t).2

theorem BlindSession.pure (a : α) : BlindSession (pure a : Session δ κ α) :=
  fun _ _ _ h => ⟨rfl, h⟩

theorem BlindSession.bind {body : Session δ κ α} {k : α → Session δ κ β}
    (hbody : BlindSession body) (hk : ∀ a, BlindSession (k a)) : BlindSession (body >>= k) := by
  intro redo s t h
  obtain ⟨hanswer, hafter⟩ := hbody redo s t h
  rw [exec_bind, exec_bind, hanswer]
  exact hk _ _ _ _ hafter

theorem BlindSession.ite {c : Prop} [Decidable c] {p q : Session δ κ α} (hp : BlindSession p)
    (hq : BlindSession q) : BlindSession (if c then p else q) := by
  split
  · exact hp
  · exact hq

theorem Alike.record {s t : Server δ κ} (h : Alike s t) (redo : Redo δ) (effect : δ → δ) :
    Alike (record redo effect s) (record redo effect t) := by
  cases redo with
  | none => exact ⟨congrArg effect h.db, h.nextKey, h.reliable, h.reliable'⟩
  | some f => exact h.tick

theorem BlindSession.query (stmt : Stmt δ α) :
    BlindSession (query stmt : Session δ κ (Option α)) := by
  intro redo s t h
  cases hresult : stmt.result (view redo s.db) with
  | none =>
    have hresult' : stmt.result (view redo t.db) = none := by rw [← h.db, hresult]
    rw [query_rejected stmt redo s hresult, query_rejected stmt redo t hresult']
    exact ⟨rfl, h.tick⟩
  | some a =>
    have hresult' : stmt.result (view redo t.db) = some a := by rw [← h.db, hresult]
    rw [query_accepted stmt redo s (h.reliable _) hresult,
      query_accepted stmt redo t (h.reliable' _) hresult']
    exact ⟨rfl, h.record redo stmt.effect⟩

theorem BlindSession.insertKeyed [DecidableEq κ] (table : κ) (stmt : ℤ → Stmt δ Unit) :
    BlindSession (insertKeyed table stmt) := by
  intro redo s t h
  have hrun : ∀ s : Server δ κ, s.Reliable → exec (Session.insertKeyed table stmt) redo s =
      ((stmt (s.nextKey table)).result (view redo s.db)).elim ((none, redo), s.tick) fun _ =>
        ((some (s.nextKey table), redo.map ((stmt (s.nextKey table)).effect ∘ ·)),
          { record redo (stmt (s.nextKey table)).effect s with
            nextKey := Function.update s.nextKey table (s.nextKey table + 1) }) := by
    intro s hs
    cases hresult : (stmt (s.nextKey table)).result (view redo s.db) with
    | none => simp [exec, Session.insertKeyed, StateT.run, hs s.clock, hresult]
    | some a => simp [exec, Session.insertKeyed, StateT.run, hs s.clock, hresult]
  rw [hrun s h.reliable, hrun t h.reliable', h.db, h.nextKey]
  cases (stmt (t.nextKey table)).result (view redo t.db) with
  | none => exact ⟨rfl, h.tick⟩
  | some a =>
    have hafter := h.record redo (stmt (t.nextKey table)).effect
    exact ⟨rfl, hafter.db, rfl, hafter.reliable, hafter.reliable'⟩

theorem BlindSession.startTransaction :
    BlindSession (startTransaction : Session δ κ Bool) := by
  intro redo s t h
  rw [startTransaction_accepted redo s (h.reliable _),
    startTransaction_accepted redo t (h.reliable' _)]
  exact ⟨rfl, h.tick⟩

theorem BlindSession.commit : BlindSession (commit : Session δ κ Bool) := by
  intro redo s t h
  have hrun : ∀ s : Server δ κ, s.Reliable → exec (Session.commit : Session δ κ Bool) redo s =
      ((true, none), { s.tick with db := view redo s.db }) := by
    intro s hs
    simp [exec, Session.commit, StateT.run, hs s.clock]
  rw [hrun s h.reliable, hrun t h.reliable']
  exact ⟨rfl, congrArg (view redo) h.db, h.nextKey, h.reliable, h.reliable'⟩

theorem BlindSession.rollback : BlindSession (rollback : Session δ κ Unit) :=
  fun _ _ _ h => ⟨rfl, h.tick⟩

theorem BlindSession.withConnection {body : Session δ κ α} (h : BlindSession body) :
    Blind (withConnection body) := by
  intro s t hst
  obtain ⟨hanswer, hafter⟩ := h none s t hst
  rw [run_withConnection, run_withConnection, hanswer]
  exact ⟨rfl, hafter⟩

end Bookstore.Clockless
