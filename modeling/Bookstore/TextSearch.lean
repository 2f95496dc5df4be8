import Mathlib.Data.List.Basic

/-!
The first occurrence of a pattern in a text. A position in a text is what the
text holds from there on.
-/
namespace Bookstore.TextSearch

variable {α : Type*} [DecidableEq α]

/-- The text from the first occurrence of the pattern on. -/
def find (pattern : List α) : List α → Option (List α)
  | [] => if pattern = [] then some [] else none
  | b :: rest => if pattern.isPrefixOf (b :: rest) then some (b :: rest) else find pattern rest

theorem find_cons (pattern : List α) (b : α) (rest : List α) : find pattern (b :: rest) =
    if pattern.isPrefixOf (b :: rest) then some (b :: rest) else find pattern rest := rfl

theorem find_append (pattern rest : List α) :
    find pattern (pattern ++ rest) = some (pattern ++ rest) := by
  have hhere : pattern.isPrefixOf (pattern ++ rest) = true :=
    List.isPrefixOf_iff_prefix.mpr (List.prefix_append pattern rest)
  cases htext : pattern ++ rest with
  | nil =>
    rw [(List.append_eq_nil_iff.mp htext).1]
    rfl
  | cons b text =>
    rw [find_cons, ← htext, if_pos hhere]

/-- What is found is the end of the text. -/
theorem exists_append_of_find {pattern text found : List α} (h : find pattern text = some found) :
    ∃ before, text = before ++ found := by
  induction text with
  | nil =>
    rw [find] at h
    split at h
    · exact ⟨[], Option.some.inj h⟩
    · cases h
  | cons b rest ih =>
    rw [find_cons] at h
    split at h
    · exact ⟨[], Option.some.inj h⟩
    · obtain ⟨before, hrest⟩ := ih h
      exact ⟨b :: before, congrArg (b :: ·) hrest⟩

theorem find_self {pattern text found : List α} (h : find pattern text = some found) :
    find pattern found = some found := by
  induction text with
  | nil =>
    rw [find] at h
    split at h
    · next hempty =>
      rw [← Option.some.inj h, find, if_pos hempty]
    · cases h
  | cons b rest ih =>
    rw [find_cons] at h
    split at h
    · next hhere => rw [← Option.some.inj h, find_cons, if_pos hhere]
    · exact ih h

/-- A pattern starts nowhere in a stretch without its first letter. -/
theorem find_skip {q : α} {stretch : List α} (hq : q ∉ stretch) (pattern text : List α) :
    find (q :: pattern) (stretch ++ text) = find (q :: pattern) text := by
  induction stretch with
  | nil => rfl
  | cons b stretch ih =>
    have hb : (q == b) = false := beq_false_of_ne (List.ne_of_not_mem_cons hq)
    have hmiss : ((q :: pattern).isPrefixOf (b :: (stretch ++ text))) = false := by
      rw [List.isPrefixOf, hb, Bool.false_and]
    rw [List.cons_append, find_cons, hmiss, if_neg Bool.false_ne_true]
    exact ih (List.not_mem_of_not_mem_cons hq)

theorem find_none {q : α} {text : List α} (hq : q ∉ text) (pattern : List α) :
    find (q :: pattern) text = none := by
  have h := find_skip hq pattern []
  rw [List.append_nil] at h
  exact h

/-- A single letter is found where it first stands. -/
theorem find_letter {q : α} {stretch : List α} (hq : q ∉ stretch) (text : List α) :
    find [q] (stretch ++ q :: text) = some (q :: text) := by
  have hhere : [q].isPrefixOf (q :: text) = true := by
    rw [List.isPrefixOf, beq_self_eq_true, List.isPrefixOf_nil_left, Bool.and_self]
  rw [find_skip hq, find_cons, hhere, if_pos rfl]

end Bookstore.TextSearch
