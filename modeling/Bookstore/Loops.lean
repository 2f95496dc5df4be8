import Mathlib.Data.Nat.Notation
import Mathlib.Logic.Relation

/-!
Loops whose body decreases a measure. A loop is run without a bound of its own
and unfolds one turn at a time.
-/
namespace Bookstore.Loops

/-- A body that goes on with a new state or leaves the loop with a result. -/
structure Loop (σ ρ : Type) where
  body : σ → σ ⊕ ρ
  measure : σ → ℕ
  decreases : ∀ {s t}, body s = .inl t → measure t < measure s

namespace Loop

variable {σ ρ : Type} (l : Loop σ ρ)

def runWithin : (n : ℕ) → (s : σ) → l.measure s < n → ρ
  | n + 1, s, h =>
    match hbody : l.body s with
    | .inl t => runWithin n t (Nat.lt_of_lt_of_le (l.decreases hbody) (Nat.le_of_lt_succ h))
    | .inr r => r

def run (s : σ) : ρ := l.runWithin (l.measure s + 1) s (Nat.lt_succ_self _)

variable {l}

theorem runWithin_irrelevant (n m : ℕ) (s : σ) (hn : l.measure s < n) (hm : l.measure s < m) :
    l.runWithin n s hn = l.runWithin m s hm := by
  induction n generalizing m s with
  | zero => exact absurd hn (Nat.not_lt_zero _)
  | succ n ih =>
    cases m with
    | zero => exact absurd hm (Nat.not_lt_zero _)
    | succ m =>
      unfold runWithin
      split
      · exact ih _ _ _ _
      · rfl

theorem run_of_goes_on {s t : σ} (h : l.body s = .inl t) : l.run s = l.run t := by
  unfold run
  rw [runWithin]
  split
  · rename_i u hu
    cases Sum.inl.inj (h.symm.trans hu)
    exact runWithin_irrelevant _ _ _ _ _
  · rename_i r hr
    cases h.symm.trans hr

theorem run_of_leaves {s : σ} {r : ρ} (h : l.body s = .inr r) : l.run s = r := by
  unfold run
  rw [runWithin]
  split
  · rename_i u hu
    cases h.symm.trans hu
  · rename_i r' hr
    exact Sum.inr.inj (hr.symm.trans h)

/-- States with the same turn run alike. -/
theorem run_congr {s t : σ} (h : l.body s = l.body t) : l.run s = l.run t := by
  cases hbody : l.body t with
  | inl u => rw [run_of_goes_on hbody, run_of_goes_on (h.trans hbody)]
  | inr r => rw [run_of_leaves hbody, run_of_leaves (h.trans hbody)]

/-- States that a run from the first one passes through. -/
def Passes (l : Loop σ ρ) : σ → σ → Prop := Relation.ReflTransGen fun s t => l.body s = .inl t

theorem run_of_passes {s t : σ} (h : l.Passes s t) : l.run s = l.run t := by
  induction h with
  | refl => rfl
  | tail _ hbody ih => rw [ih, run_of_goes_on hbody]

/-- Every run comes to a state where it leaves the loop. -/
theorem exists_last (s : σ) : ∃ t, l.Passes s t ∧ l.body t = .inr (l.run s) := by
  induction hn : l.measure s using Nat.strongRecOn generalizing s with
  | _ n ih =>
    cases hbody : l.body s with
    | inl t =>
      obtain ⟨u, hpass, hlast⟩ := ih _ (hn ▸ l.decreases hbody) t rfl
      refine ⟨u, .head hbody hpass, ?_⟩
      rw [run_of_goes_on hbody, hlast]
    | inr r => exact ⟨s, .refl, by rw [run_of_leaves hbody, hbody]⟩

theorem Passes.invariant {P : σ → Prop} (hbody : ∀ s t, P s → l.body s = .inl t → P t)
    {s t : σ} (h : l.Passes s t) (hs : P s) : P t := by
  induction h with
  | refl => exact hs
  | tail _ hstep ih => exact hbody _ _ ih hstep

end Loop

end Bookstore.Loops
