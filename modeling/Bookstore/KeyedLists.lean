import Mathlib.Algebra.Order.Ring.Int
import Mathlib.Data.List.Pairwise
import Mathlib.Data.Nat.Notation

/-!
Finite maps from numbers, kept as the list of their entries with the keys in order. A
value carries the proof that its keys go up, so that an entry is in the list exactly when
it is found.
-/
namespace Bookstore.KeyedLists

variable {α : Type}

/-- Entries whose keys go up. -/
structure Keyed (α : Type) where
  entries : List (ℕ × α)
  sorted : entries.Pairwise fun a b => a.1 < b.1

/-- The entry for a key takes the place of the old one, or its place in the order. -/
def insert (k : ℕ) (a : α) : List (ℕ × α) → List (ℕ × α)
  | [] => [(k, a)]
  | e :: rest =>
    if k < e.1 then (k, a) :: e :: rest
    else if k = e.1 then (k, a) :: rest
    else e :: insert k a rest

theorem mem_insert {k : ℕ} {a : α} {entries : List (ℕ × α)} {e : ℕ × α}
    (h : e ∈ insert k a entries) : e = (k, a) ∨ e ∈ entries := by
  induction entries with
  | nil => exact .inl (List.mem_singleton.mp h)
  | cons first rest ih =>
    unfold insert at h
    split at h
    · exact List.mem_cons.mp h
    · split at h
      · rcases List.mem_cons.mp h with rfl | hrest
        · exact .inl rfl
        · exact .inr (List.mem_cons_of_mem _ hrest)
      · rcases List.mem_cons.mp h with rfl | hrest
        · exact .inr List.mem_cons_self
        · rcases ih hrest with rfl | hmem
          · exact .inl rfl
          · exact .inr (List.mem_cons_of_mem _ hmem)

theorem sorted_insert {k : ℕ} {a : α} {entries : List (ℕ × α)}
    (h : entries.Pairwise fun a b => a.1 < b.1) :
    (insert k a entries).Pairwise fun a b => a.1 < b.1 := by
  induction entries with
  | nil => exact List.pairwise_singleton _ _
  | cons first rest ih =>
    obtain ⟨hfirst, hrest⟩ := List.pairwise_cons.mp h
    unfold insert
    split
    · rename_i hlt
      refine List.pairwise_cons.mpr ⟨List.forall_mem_cons.mpr ⟨hlt, fun e he => ?_⟩, h⟩
      exact Nat.lt_trans hlt (hfirst e he)
    · split
      · rename_i heq
        refine List.pairwise_cons.mpr ⟨fun e he => ?_, hrest⟩
        rw [heq]
        exact hfirst e he
      · refine List.pairwise_cons.mpr ⟨fun e he => ?_, ih hrest⟩
        rcases mem_insert he with rfl | hmem
        · show first.1 < k
          omega
        · exact hfirst e hmem

namespace Keyed

def empty : Keyed α := ⟨[], .nil⟩

def find (c : Keyed α) (k : ℕ) : Option α := (c.entries.find? fun e => e.1 = k).map Prod.snd

def put (c : Keyed α) (k : ℕ) (a : α) : Keyed α := ⟨insert k a c.entries, sorted_insert c.sorted⟩

def erase (c : Keyed α) (k : ℕ) : Keyed α :=
  ⟨c.entries.filter fun e => e.1 ≠ k, c.sorted.filter _⟩

@[simp] theorem find_empty (k : ℕ) : (empty : Keyed α).find k = none := rfl

theorem find_put (c : Keyed α) (k j : ℕ) (a : α) :
    (c.put k a).find j = if j = k then some a else c.find j := by
  obtain ⟨entries, hsorted⟩ := c
  simp only [find, put]
  clear hsorted
  induction entries with
  | nil =>
    by_cases h : j = k
    · simp [insert, h]
    · simp [insert, h, Ne.symm h]
  | cons first rest ih =>
    unfold insert
    split
    · by_cases h : j = k
      · simp [h]
      · simp [h, Ne.symm h]
    · split
      · rename_i heq
        by_cases h : j = k
        · simp [h]
        · have hother : first.1 ≠ j := by omega
          simp [h, Ne.symm h, hother]
      · by_cases h : first.1 = j
        · have hother : j ≠ k := by omega
          simp [h, hother]
        · simpa [List.find?_cons, h] using ih

@[simp] theorem find_put_self (c : Keyed α) (k : ℕ) (a : α) : (c.put k a).find k = some a := by
  rw [find_put, if_pos rfl]

theorem find_put_other (c : Keyed α) {k j : ℕ} (h : j ≠ k) (a : α) :
    (c.put k a).find j = c.find j := by
  rw [find_put, if_neg h]

theorem find_erase (c : Keyed α) (k j : ℕ) :
    (c.erase k).find j = if j = k then none else c.find j := by
  obtain ⟨entries, hsorted⟩ := c
  simp only [find, erase]
  clear hsorted
  induction entries with
  | nil => simp
  | cons first rest ih =>
    by_cases hfirst : first.1 = k
    · by_cases h : j = k
      · simp [h]
      · simpa [hfirst, h, Ne.symm h] using ih
    · by_cases h : first.1 = j
      · have hother : j ≠ k := by omega
        simp [h, hother]
      · simpa [hfirst, h] using ih

@[simp] theorem find_erase_self (c : Keyed α) (k : ℕ) : (c.erase k).find k = none := by
  rw [find_erase, if_pos rfl]

theorem find_erase_other (c : Keyed α) {k j : ℕ} (h : j ≠ k) :
    (c.erase k).find j = c.find j := by
  rw [find_erase, if_neg h]

/-- An entry is in the list exactly when it is found. -/
theorem mem_entries_iff {c : Keyed α} {k : ℕ} {a : α} : (k, a) ∈ c.entries ↔ c.find k = some a := by
  obtain ⟨entries, hsorted⟩ := c
  simp only [find]
  induction entries with
  | nil => simp
  | cons first rest ih =>
    obtain ⟨hfirst, hrest⟩ := List.pairwise_cons.mp hsorted
    by_cases h : first.1 = k
    · have hnot : (k, a) ∉ rest := by
        intro hmem
        have hlt := hfirst _ hmem
        simp only [h] at hlt
        omega
      obtain ⟨key, value⟩ := first
      simp only at h
      subst h
      simp [hnot, eq_comm]
    · have hother : (k, a) ≠ first := by
        rintro rfl
        exact h rfl
      simpa [hother, h, List.find?_cons] using ih hrest

/-- What the entries of one key add up to. -/
theorem sum_filter_key (c : Keyed α) (f : α → ℤ) (k : ℕ) :
    ((c.entries.filter fun e => e.1 = k).map fun e => f e.2).sum = ((c.find k).map f).getD 0 := by
  obtain ⟨entries, hsorted⟩ := c
  simp only [find]
  induction entries with
  | nil => rfl
  | cons first rest ih =>
    obtain ⟨hfirst, hrest⟩ := List.pairwise_cons.mp hsorted
    by_cases h : first.1 = k
    · have hnone : rest.filter (fun e => e.1 = k) = [] := by
        rw [List.filter_eq_nil_iff]
        intro e he
        have hlt := hfirst e he
        rw [decide_eq_true_eq]
        omega
      simp [h, hnone]
    · simpa [h, List.find?_cons] using ih hrest

end Keyed

end Bookstore.KeyedLists
