import Mathlib.Data.List.TakeWhile

/-!
A list cut where a property of its elements ends. The two parts determine each
other, so text that is cut again and again has one reading.
-/
namespace Bookstore.Spans

variable {α : Type} {p : α → Bool} {a b c d : List α}

/-- `a` is the longest part of `a ++ b` whose elements have the property. -/
structure Splits (p : α → Bool) (a b : List α) : Prop where
  inside : ∀ x ∈ a, p x = true
  outside : ∀ x ∈ b.head?, p x = false

theorem splits_span (p : α → Bool) (l : List α) : Splits p (l.takeWhile p) (l.dropWhile p) where
  inside _ hx := List.mem_takeWhile_imp hx
  outside x hx := by
    have hhead := List.head?_dropWhile_not p l
    rw [Option.mem_def.mp hx] at hhead
    exact hhead

theorem splits_of {l : List α} (ha : ∀ x ∈ a, p x = true) (hb : b ≠ [])
    (hout : ∀ x ∈ b, p x = false) : Splits p a (b ++ l) where
  inside := ha
  outside x hx := by
    obtain ⟨y, b, rfl⟩ := List.exists_cons_of_ne_nil hb
    cases hx
    exact hout _ List.mem_cons_self

namespace Splits

theorem takeWhile (h : Splits p a b) : (a ++ b).takeWhile p = a := by
  rw [List.takeWhile_append_of_pos h.inside]
  cases b with
  | nil => rw [List.takeWhile_nil, List.append_nil]
  | cons x b =>
    have hx := h.outside x rfl
    rw [List.takeWhile_cons_of_neg (by simp [hx]), List.append_nil]

theorem dropWhile (h : Splits p a b) : (a ++ b).dropWhile p = b := by
  rw [List.dropWhile_append_of_pos h.inside]
  cases b with
  | nil => rfl
  | cons x b =>
    have hx := h.outside x rfl
    rw [List.dropWhile_cons_of_neg (by simp [hx])]

theorem unique (h : Splits p a b) (h' : Splits p c d) (heq : a ++ b = c ++ d) :
    a = c ∧ b = d := by
  have htake := congrArg (List.takeWhile p) heq
  have hdrop := congrArg (List.dropWhile p) heq
  rw [h.takeWhile, h'.takeWhile] at htake
  rw [h.dropWhile, h'.dropWhile] at hdrop
  exact ⟨htake, hdrop⟩

end Splits

end Bookstore.Spans
