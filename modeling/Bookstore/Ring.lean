import Mathlib.Data.Nat.ModEq
import Mathlib.Data.List.Basic

/-!
Queues in a circular list of cells: the items stand one after another from a
start cell on and continue at cell zero after the last one.
-/
namespace Bookstore.Ring

variable {α : Type} {cells items : List α} {start : ℕ}

/-- The cells hold `items` from cell `start` on. -/
def Holds (cells : List α) (start : ℕ) (items : List α) : Prop :=
  ∀ k < items.length, cells[(start + k) % cells.length]? = items[k]?

theorem holds_nil : Holds cells start [] := by
  intro k hk
  exact absurd hk (Nat.not_lt_zero k)

/-- Distinct offsets below the number of cells are distinct cells. -/
theorem offset_unique {n j k : ℕ} (hj : j < n) (hk : k < n)
    (heq : (start + j) % n = (start + k) % n) : j = k := by
  have hmod : j ≡ k [MOD n] := Nat.ModEq.add_left_cancel' start heq
  exact Nat.ModEq.eq_of_lt_of_lt hmod hj hk

namespace Holds

theorem restart {other : ℕ} (h : Holds cells start items)
    (heq : start % cells.length = other % cells.length) : Holds cells other items := by
  intro k hk
  rw [← h k hk, Nat.add_mod other, ← heq, ← Nat.add_mod]

theorem head {x : α} {rest : List α} (h : Holds cells start (x :: rest)) :
    cells[start % cells.length]? = some x :=
  h 0 (Nat.zero_lt_succ _)

theorem tail {x : α} {rest : List α} (h : Holds cells start (x :: rest)) :
    Holds cells (start + 1) rest := by
  intro k hk
  have hcell := h (k + 1) (Nat.succ_lt_succ hk)
  rw [List.getElem?_cons_succ] at hcell
  rw [← hcell, Nat.add_right_comm, Nat.add_assoc]

theorem last {x : α} (h : Holds cells start (items ++ [x])) :
    cells[(start + items.length) % cells.length]? = some x := by
  rw [h items.length (by simp), List.getElem?_concat_length]

/-- Writing the cell after the items appends there, as long as a cell is free. -/
theorem snoc {x : α} (h : Holds cells start items) (hroom : items.length < cells.length) :
    Holds (cells.set ((start + items.length) % cells.length) x) start (items ++ [x]) := by
  intro k hk
  rw [List.length_append, List.length_singleton] at hk
  rw [List.length_set]
  by_cases hlast : k = items.length
  · subst hlast
    rw [List.getElem?_set_self (Nat.mod_lt _ (by omega)), List.getElem?_concat_length]
  · have hk' : k < items.length := by omega
    have hother : (start + items.length) % cells.length ≠ (start + k) % cells.length := by
      intro heq
      exact hlast (offset_unique hroom (by omega) heq).symm
    rw [List.getElem?_set_ne hother, h k hk', List.getElem?_append_left hk']

end Holds

end Bookstore.Ring
