import Mathlib.Data.List.Basic
import Mathlib.Algebra.Order.Ring.Int

/-!
Sums of integer weights over the entries of a list that carry a given key.
-/
namespace Bookstore.Tally

variable {α β κ : Type} [DecidableEq κ]

def tally (key : α → κ) (weight : α → ℤ) (k : κ) : List α → ℤ
  | [] => 0
  | x :: xs => (if key x = k then weight x else 0) + tally key weight k xs

variable (key : α → κ) (weight : α → ℤ) (k : κ)

@[simp] theorem tally_nil : tally key weight k [] = 0 := rfl

@[simp] theorem tally_cons (x : α) (xs : List α) :
    tally key weight k (x :: xs) = (if key x = k then weight x else 0) + tally key weight k xs := rfl

@[simp] theorem tally_append (xs ys : List α) :
    tally key weight k (xs ++ ys) = tally key weight k xs + tally key weight k ys := by
  induction xs with
  | nil => simp
  | cons x xs ih => simp [ih, Int.add_assoc]

theorem tally_map (f : β → α) (xs : List β) :
    tally key weight k (xs.map f) = tally (key ∘ f) (weight ∘ f) k xs := by
  induction xs with
  | nil => rfl
  | cons x xs ih => simp [ih]

theorem tally_nonneg (xs : List α) (h : ∀ x ∈ xs, 0 ≤ weight x) :
    0 ≤ tally key weight k xs := by
  induction xs with
  | nil => simp
  | cons x xs ih =>
    have hx := h x (by simp)
    have hxs := ih fun y hy => h y (by simp [hy])
    rw [tally_cons]
    split <;> omega

/-- The sum of a key is at least the weight of each of its entries. -/
theorem weight_le_tally (xs : List α) (h : ∀ x ∈ xs, 0 ≤ weight x) {x : α} (hx : x ∈ xs) :
    weight x ≤ tally key weight (key x) xs := by
  induction xs with
  | nil => simp at hx
  | cons y ys ih =>
    have hys : ∀ z ∈ ys, 0 ≤ weight z := fun z hz => h z (by simp [hz])
    rw [tally_cons]
    rcases List.mem_cons.mp hx with rfl | hmem
    · have hrest := tally_nonneg key weight (key x) ys hys
      rw [if_pos rfl]
      omega
    · have hrest := ih hys hmem
      have hy := h y (by simp)
      split <;> omega

/-- An entry of positive weight shows in the sum of its key. -/
theorem tally_pos_of_mem (xs : List α) (h : ∀ x ∈ xs, 0 ≤ weight x) {x : α}
    (hx : x ∈ xs) (hpos : 0 < weight x) : 0 < tally key weight (key x) xs :=
  Int.lt_of_lt_of_le hpos (weight_le_tally key weight xs h hx)

/-- A sum that is not zero has an entry of its key. -/
theorem exists_mem_of_tally_ne_zero (xs : List α) (h : tally key weight k xs ≠ 0) :
    ∃ x ∈ xs, key x = k := by
  induction xs with
  | nil => simp at h
  | cons x xs ih =>
    rw [tally_cons] at h
    by_cases hx : key x = k
    · exact ⟨x, by simp, hx⟩
    · rw [if_neg hx, Int.zero_add] at h
      obtain ⟨y, hy, hkey⟩ := ih h
      exact ⟨y, by simp [hy], hkey⟩

/-- A sum after one entry has been replaced. -/
theorem sum_map_set (f : α → ℤ) (xs : List α) {i : ℕ} {x y : α} (hi : xs[i]? = some x) :
    ((xs.set i y).map f).sum = (xs.map f).sum - f x + f y := by
  induction xs generalizing i with
  | nil => simp at hi
  | cons z zs ih =>
    cases i with
    | zero =>
      simp only [List.getElem?_cons_zero, Option.some.injEq] at hi
      subst hi
      simp only [List.set_cons_zero, List.map_cons, List.sum_cons]
      omega
    | succ i =>
      simp only [List.getElem?_cons_succ] at hi
      simp only [List.set_cons_succ, List.map_cons, List.sum_cons, ih hi]
      omega

end Bookstore.Tally
