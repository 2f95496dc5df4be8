import Bookstore.Interleaving

/-!
Programs watched from outside. A watched program keeps, beside its state, a log
of the accesses announced before its calls. `Watches` says that watching
changes neither results nor states, and which accesses end up in the log.
-/
namespace Bookstore.AccessLog

open Interleaving

variable {σ κ α β : Type}

def stateLens : Lens (σ × List κ) σ where
  get := Prod.fst
  set t s := (t, s.2)
  get_set _ _ := rfl
  set_get _ := rfl
  set_set _ _ _ := rfl

/-- A component of the state is a component of the watched one. -/
def component {τ : Type} (l : Lens σ τ) : Lens (σ × List κ) τ where
  get s := l.get s.1
  set t s := (l.set t s.1, s.2)
  get_set t s := l.get_set t s.1
  set_get s := by rw [l.set_get]
  set_set t u s := by rw [l.set_set]

/-- The program, with its accesses noted before it runs. -/
def watch (accesses : List κ) (p : Prog σ α) : Prog (σ × List κ) α := do
  .write fun s => (s.1, s.2 ++ accesses)
  p.lift stateLens

@[simp] theorem run_watch (accesses : List κ) (p : Prog σ α) (s : σ) (log : List κ) :
    (watch accesses p).run (s, log) = ((p.run s).1, (p.run s).2, log ++ accesses) := by
  simp [watch, stateLens]

/-- The second program does what the first one does and notes accesses that
meet `A`. -/
def Watches (A : κ → Prop) (p : Prog σ α) (q : Prog (σ × List κ) α) : Prop :=
  ∀ s log, ∃ new, q.run (s, log) = ((p.run s).1, (p.run s).2, log ++ new) ∧ ∀ a ∈ new, A a

section Rules

variable {A : κ → Prop} {p : Prog σ α} {q : Prog (σ × List κ) α}

theorem Watches.pure (a : α) : Watches A (pure a : Prog σ α) (pure a) := by
  intro s log
  exact ⟨[], by simp, by simp⟩

theorem Watches.of_watch (accesses : List κ) (p : Prog σ α) (h : ∀ a ∈ accesses, A a) :
    Watches A p (watch accesses p) := by
  intro s log
  exact ⟨accesses, by simp, h⟩

/-- A step on a component that is not watched. -/
theorem Watches.component {τ : Type} (l : Lens σ τ) (f : τ → α × τ) :
    Watches A (.call fun s => ((f (l.get s)).1, l.set (f (l.get s)).2 s))
      (.call fun s => ((f ((component l).get s)).1,
        (AccessLog.component l).set (f ((AccessLog.component l).get s)).2 s)) := by
  intro s log
  exact ⟨[], by simp [AccessLog.component], by simp⟩

theorem Watches.bind {k : α → Prog σ β} {k' : α → Prog (σ × List κ) β} (hp : Watches A p q)
    (hk : ∀ a, Watches A (k a) (k' a)) : Watches A (p >>= k) (q >>= k') := by
  intro s log
  obtain ⟨new, hrun, hnew⟩ := hp s log
  obtain ⟨more, hmore, hmoreA⟩ := hk (p.run s).1 (p.run s).2 (log ++ new)
  refine ⟨new ++ more, ?_, ?_⟩
  · simp only [Prog.run_bind, hrun, hmore, List.append_assoc]
  · intro a ha
    rcases List.mem_append.mp ha with ha | ha
    · exact hnew a ha
    · exact hmoreA a ha

end Rules

end Bookstore.AccessLog
