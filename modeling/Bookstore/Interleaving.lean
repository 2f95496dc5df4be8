import Mathlib.Data.List.Basic
import Mathlib.Logic.Relation

/-!
Programs over a shared state, cut into the steps that happen atomically.
`run` executes a program without interference. `fire` lets a scheduler pick
which of several running programs takes its next atomic step, so the same
program text has a sequential and a concurrent meaning.
-/
namespace Bookstore.Interleaving

/-- A finished program, or one atomic step on the shared state and what follows. -/
inductive Prog (σ α : Type) : Type 1
  | done (a : α) : Prog σ α
  | act {β : Type} (f : σ → β × σ) (next : β → Prog σ α) : Prog σ α

/-- A component of a larger state. -/
structure Lens (σ τ : Type) where
  get : σ → τ
  set : τ → σ → σ
  get_set : ∀ t s, get (set t s) = t
  set_get : ∀ s, set (get s) s = s
  set_set : ∀ t u s, set t (set u s) = set t s

attribute [simp] Lens.get_set Lens.set_get Lens.set_set

namespace Prog

variable {σ τ α β : Type}

def bind : Prog σ α → (α → Prog σ β) → Prog σ β
  | .done a, k => k a
  | .act f next, k => .act f fun b => (next b).bind k

instance : Monad (Prog σ) where
  pure := .done
  bind := .bind

/-- One atomic step. -/
def call (f : σ → β × σ) : Prog σ β := .act f .done

def read (f : σ → β) : Prog σ β := call fun s => (f s, s)

def write (f : σ → σ) : Prog σ Unit := call fun s => ((), f s)

def run : Prog σ α → σ → α × σ
  | .done a, s => (a, s)
  | .act f next, s => (next (f s).1).run (f s).2

/-- Execute a whole program as one atomic step. -/
def atomically (p : Prog σ α) : Prog σ α := call p.run

/-- Run a program on a component of a larger state. -/
def lift (l : Lens σ τ) : Prog τ α → Prog σ α
  | .done a => .done a
  | .act f next => .act (fun s => ((f (l.get s)).1, l.set (f (l.get s)).2 s)) fun b => (next b).lift l

@[simp] theorem run_pure (a : α) (s : σ) : (pure a : Prog σ α).run s = (a, s) := rfl

@[simp] theorem run_done (a : α) (s : σ) : (Prog.done a : Prog σ α).run s = (a, s) := rfl

@[simp] theorem run_act (f : σ → β × σ) (next : β → Prog σ α) (s : σ) :
    (Prog.act f next).run s = (next (f s).1).run (f s).2 := rfl

@[simp] theorem run_bind (p : Prog σ α) (k : α → Prog σ β) (s : σ) :
    (p >>= k).run s = (k (p.run s).1).run (p.run s).2 := by
  change (p.bind k).run s = _
  induction p generalizing s with
  | done a => rfl
  | act f next ih => exact ih (f s).1 (f s).2

@[simp] theorem run_call (f : σ → β × σ) (s : σ) : (call f).run s = f s := rfl

@[simp] theorem run_read (f : σ → β) (s : σ) : (read f).run s = (f s, s) := rfl

@[simp] theorem run_write (f : σ → σ) (s : σ) : (write f).run s = ((), f s) := rfl

@[simp] theorem run_atomically (p : Prog σ α) (s : σ) : p.atomically.run s = p.run s := rfl

theorem call_bind (f : σ → β × σ) (k : β → Prog σ α) : call f >>= k = .act f k := rfl

theorem act_bind {γ : Type} (f : σ → γ × σ) (next : γ → Prog σ α) (k : α → Prog σ β) :
    act f next >>= k = .act f fun c => next c >>= k := rfl

theorem bind_assoc {γ : Type} (p : Prog σ α) (k : α → Prog σ β) (k' : β → Prog σ γ) :
    p >>= k >>= k' = p >>= fun a => k a >>= k' := by
  change (p.bind k).bind k' = p.bind fun a => (k a).bind k'
  induction p with
  | done a => rfl
  | act f next ih =>
    simp only [bind]
    congr 1
    funext b
    exact ih b

/-- A lifted program acts on its component only. -/
@[simp] theorem run_lift (l : Lens σ τ) (p : Prog τ α) (s : σ) :
    (p.lift l).run s = ((p.run (l.get s)).1, l.set (p.run (l.get s)).2 s) := by
  induction p generalizing s with
  | done a => simp [lift]
  | act f next ih => simp [lift, ih]

end Prog

/-- A running request: what was asked for, what is left of its program, and
how many atomic steps it has taken. -/
structure Thread (ρ σ α : Type) where
  request : ρ
  prog : Prog σ α
  steps : ℕ

def Thread.Finished {ρ σ α : Type} (t : Thread ρ σ α) : Prop := ∃ a, t.prog = .done a

structure Config (ρ σ α : Type) where
  state : σ
  threads : List (Thread ρ σ α)

/-- What the scheduler does next. -/
inductive Move (ρ : Type)
  | spawn (r : ρ)
  | step (i : ℕ)

section Scheduling

variable {ρ σ α : Type}

/-- `none` when the chosen thread does not exist or has finished. -/
def fire (program : ρ → Prog σ α) (c : Config ρ σ α) : Move ρ → Option (Config ρ σ α)
  | .spawn r => some ⟨c.state, c.threads ++ [⟨r, program r, 0⟩]⟩
  | .step i =>
    match c.threads[i]? with
    | none => none
    | some t =>
      match t.prog with
      | .done _ => none
      | .act f next =>
        some ⟨(f c.state).2, c.threads.set i ⟨t.request, next (f c.state).1, t.steps + 1⟩⟩

/-- A schedule all of whose moves meet `P` in the configuration they start from. -/
inductive Runs (program : ρ → Prog σ α) (P : Config ρ σ α → Move ρ → Prop) :
    Config ρ σ α → Config ρ σ α → Prop
  | refl (c : Config ρ σ α) : Runs program P c c
  | tail {a b c : Config ρ σ α} {m : Move ρ} :
      Runs program P a b → P b m → fire program b m = some c → Runs program P a c

/-- Execute a schedule; `none` as soon as a move is not possible. -/
def execute (program : ρ → Prog σ α) (c : Config ρ σ α) : List (Move ρ) → Option (Config ρ σ α)
  | [] => some c
  | m :: rest => (fire program c m).bind fun c' => execute program c' rest

/-- What a possible move does: a new thread, or one step of an unfinished one. -/
theorem fire_cases {program : ρ → Prog σ α} {c c' : Config ρ σ α} {m : Move ρ}
    (h : fire program c m = some c') :
    (∃ r, m = .spawn r ∧ c' = ⟨c.state, c.threads ++ [⟨r, program r, 0⟩]⟩) ∨
    (∃ i t, ∃ (β : Type) (f : σ → β × σ) (next : β → Prog σ α), m = .step i ∧
      c.threads[i]? = some t ∧ t.prog = .act f next ∧
      c' = ⟨(f c.state).2, c.threads.set i ⟨t.request, next (f c.state).1, t.steps + 1⟩⟩) := by
  cases m with
  | spawn r => exact .inl ⟨r, rfl, by simpa [fire] using h.symm⟩
  | step i =>
    simp only [fire] at h
    split at h
    · cases h
    · rename_i t ht
      split at h
      · cases h
      · rename_i f next hp
        exact .inr ⟨i, t, _, f, next, rfl, ht, hp, (Option.some.inj h).symm⟩

/-- An invariant that every allowed move preserves holds along every run. -/
theorem Runs.invariant {program : ρ → Prog σ α} {P : Config ρ σ α → Move ρ → Prop}
    {I : Config ρ σ α → Prop}
    (hstep : ∀ c m c', I c → P c m → fire program c m = some c' → I c')
    {a b : Config ρ σ α} (hrun : Runs program P a b) (ha : I a) : I b := by
  induction hrun with
  | refl => exact ha
  | tail _ hP hfire ih => exact hstep _ _ _ ih hP hfire

/-- An executed schedule is a run, with no condition on its moves. -/
theorem runs_of_execute {program : ρ → Prog σ α} (moves : List (Move ρ))
    {a b c : Config ρ σ α} (hrun : Runs program (fun _ _ => True) a b)
    (h : execute program b moves = some c) : Runs program (fun _ _ => True) a c := by
  induction moves generalizing b with
  | nil =>
    cases Option.some.inj h
    exact hrun
  | cons m rest ih =>
    obtain ⟨d, hd, hrest⟩ := Option.bind_eq_some_iff.mp h
    exact ih (.tail hrun trivial hd) hrest

end Scheduling

end Bookstore.Interleaving
