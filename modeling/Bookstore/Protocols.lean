import Bookstore.Interleaving
import Mathlib.Logic.Function.Basic

/-!
Rely-guarantee reasoning about interleaved programs. A protocol says which
moves a thread may make in each of its phases, and what it may rely on there.
`Follows` checks a program against a protocol step by step, for every state
that the other threads may have left behind. Threads that follow the protocol
keep every invariant that its moves keep.
-/
namespace Bookstore.Protocols

open Interleaving

/-- `pre` is what a thread in a phase may rely on. `move φ n s φ' s'` is a step
from `s` to `s'`, the thread's step number `n`, into the phase `φ'`. -/
structure Protocol (σ φ : Type) where
  pre : φ → σ → Prop
  move : φ → ℕ → σ → φ → σ → Prop

variable {σ τ φ ρ α β : Type}

/-- The program makes only moves of the protocol, and ends as `Q` says. -/
def Follows (P : Protocol σ φ) (Q : φ → ℕ → α → Prop) : φ → ℕ → Prog σ α → Prop
  | phase, n, .done a => Q phase n a
  | phase, n, .act f next => ∀ s, P.pre phase s →
      ∃ phase', P.move phase n s phase' (f s).2 ∧ Follows P Q phase' (n + 1) (next (f s).1)

section Rules

variable {P : Protocol σ φ} {Q : φ → ℕ → α → Prop} {phase : φ} {n : ℕ}

theorem Follows.pure {a : α} (h : Q phase n a) : Follows P Q phase n (pure a) := h

theorem Follows.call {f : σ → α × σ}
    (h : ∀ s, P.pre phase s → ∃ phase', P.move phase n s phase' (f s).2 ∧ Q phase' (n + 1) (f s).1) :
    Follows P Q phase n (Prog.call f) := h

theorem Follows.bind {R : φ → ℕ → β → Prop} {p : Prog σ α} {k : α → Prog σ β}
    (hp : Follows P Q phase n p)
    (hk : ∀ phase' n' a, Q phase' n' a → Follows P R phase' n' (k a)) :
    Follows P R phase n (p >>= k) := by
  change Follows P R phase n (p.bind k)
  induction p generalizing phase n with
  | done a => exact hk phase n a hp
  | act f next ih =>
    intro s hs
    obtain ⟨phase', hmove, hnext⟩ := hp s hs
    exact ⟨phase', hmove, ih _ hnext⟩

theorem Follows.mono {R : φ → ℕ → α → Prop} {p : Prog σ α} (hp : Follows P Q phase n p)
    (h : ∀ phase' n' a, Q phase' n' a → R phase' n' a) : Follows P R phase n p := by
  induction p generalizing phase n with
  | done a => exact h phase n a hp
  | act f next ih =>
    intro s hs
    obtain ⟨phase', hmove, hnext⟩ := hp s hs
    exact ⟨phase', hmove, ih _ hnext⟩

/-- A program on a component follows the protocol of the whole, when each move
on the component is a move of the whole. -/
theorem Follows.lift {P' : Protocol τ φ} (l : Lens σ τ) {p : Prog τ α}
    (hp : Follows P' Q phase n p)
    (hpre : ∀ phase s, P.pre phase s → P'.pre phase (l.get s))
    (hmove : ∀ phase n s phase' t, P.pre phase s → P'.move phase n (l.get s) phase' t →
      P.move phase n s phase' (l.set t s)) :
    Follows P Q phase n (p.lift l) := by
  induction p generalizing phase n with
  | done a => exact hp
  | act f next ih =>
    intro s hs
    obtain ⟨phase', hstep, hnext⟩ := hp (l.get s) (hpre phase s hs)
    exact ⟨phase', hmove _ _ _ _ _ hs hstep, ih _ hnext⟩

end Rules

/-- Every thread follows the protocol in the phase assigned to it; places in
the list that no thread has taken yet are in the phase `idle`. -/
structure Phased (P : Protocol σ φ) (Q : φ → ℕ → α → Prop) (tag : ρ → ℕ → φ → Prop) (idle : φ)
    (c : Config ρ σ α) (phases : ℕ → φ) : Prop where
  follows : ∀ i t, c.threads[i]? = some t →
    Follows P Q (phases i) t.steps t.prog ∧ tag t.request t.steps (phases i)
  idle : ∀ i, c.threads.length ≤ i → phases i = idle

section Runs

variable {P : Protocol σ φ} {Q : φ → ℕ → α → Prop} {tag : ρ → ℕ → φ → Prop} {idle : φ}
  {program : ρ → Prog σ α} {c : Config ρ σ α} {phases : ℕ → φ}

theorem Phased.spawn (h : Phased P Q tag idle c phases) (r : ρ) (phase : φ)
    (hprogram : Follows P Q phase 0 (program r)) (htag : tag r 0 phase) :
    Phased P Q tag idle ⟨c.state, c.threads ++ [⟨r, program r, 0⟩]⟩
      (Function.update phases c.threads.length phase) where
  follows := by
    intro i t ht
    by_cases hi : i = c.threads.length
    · subst hi
      simp only [List.getElem?_append_right (Nat.le_refl _), Nat.sub_self, List.getElem?_cons_zero,
        Option.some.injEq] at ht
      subst ht
      simpa using ⟨hprogram, htag⟩
    · rw [Function.update_of_ne hi]
      apply h.follows i t
      have hlt : i < c.threads.length := by
        by_contra hge
        rw [List.getElem?_eq_none (by simp; omega)] at ht
        cases ht
      rwa [List.getElem?_append_left hlt] at ht
  idle := by
    intro i hi
    simp only [List.length_append, List.length_singleton] at hi
    rw [Function.update_of_ne (by omega)]
    exact h.idle i (by omega)

/-- A step of one thread is a move of the protocol from the thread's phase. -/
theorem Phased.step (h : Phased P Q tag idle c phases) {i : ℕ} {t : Thread ρ σ α}
    {f : σ → β × σ} {next : β → Prog σ α} (ht : c.threads[i]? = some t)
    (hprog : t.prog = .act f next) (hpre : P.pre (phases i) c.state)
    (htag : ∀ phase', tag t.request t.steps (phases i) →
      P.move (phases i) t.steps c.state phase' (f c.state).2 →
      tag t.request (t.steps + 1) phase') :
    ∃ phase', P.move (phases i) t.steps c.state phase' (f c.state).2 ∧
      Phased P Q tag idle
        ⟨(f c.state).2, c.threads.set i ⟨t.request, next (f c.state).1, t.steps + 1⟩⟩
        (Function.update phases i phase') := by
  obtain ⟨hfollows, htagged⟩ := h.follows i t ht
  rw [hprog] at hfollows
  obtain ⟨phase', hmove, hnext⟩ := hfollows c.state hpre
  refine ⟨phase', hmove, ?_, ?_⟩
  · intro j u hu
    by_cases hj : j = i
    · subst hj
      have hlt : j < c.threads.length := (List.getElem?_eq_some_iff.mp ht).1
      rw [List.getElem?_set_self hlt] at hu
      cases hu
      simpa using ⟨hnext, htag phase' htagged hmove⟩
    · rw [List.getElem?_set_ne (Ne.symm hj)] at hu
      rw [Function.update_of_ne hj]
      exact h.follows j u hu
  · intro j hj
    rw [List.length_set] at hj
    have hlt : i < c.threads.length := (List.getElem?_eq_some_iff.mp ht).1
    rw [Function.update_of_ne (by omega)]
    exact h.idle j hj

end Runs

end Bookstore.Protocols
