import Mathlib.Data.List.Nodup
import Mathlib.Order.Lattice

/-!
The first `k` elements of a list under a key that tells its elements apart, and
sorting as a way to find them.
-/
namespace Bookstore.TopK

variable {α κ : Type*} [LinearOrder κ] {key : α → κ}

/-- No candidate that is left out comes before one that is taken. -/
structure IsTopK (key : α → κ) (k : ℕ) (candidates result : List α) : Prop where
  mem : ∀ a ∈ result, a ∈ candidates
  length : result.length = min k candidates.length
  sorted : result.Pairwise fun a b => key a < key b
  best : ∀ a ∈ candidates, a ∉ result → ∀ b ∈ result, key b < key a

def sortBy (key : α → κ) (l : List α) : List α := l.mergeSort fun a b => decide (key a ≤ key b)

theorem sortBy_perm (key : α → κ) (l : List α) : (sortBy key l).Perm l := List.mergeSort_perm _ _

theorem sortBy_pairwise_le (key : α → κ) (l : List α) :
    (sortBy key l).Pairwise fun a b => key a ≤ key b := by
  have hsorted := @List.pairwise_mergeSort _ (fun a b => decide (key a ≤ key b))
    (fun a b c hab hbc => decide_eq_true (le_trans (of_decide_eq_true hab)
      (of_decide_eq_true hbc)))
    (fun a b => by
      rw [Bool.or_eq_true, decide_eq_true_eq, decide_eq_true_eq]
      exact le_total (key a) (key b)) l
  exact hsorted.imp fun h => of_decide_eq_true h

theorem sortBy_pairwise_lt {l : List α} (h : (l.map key).Nodup) :
    (sortBy key l).Pairwise fun a b => key a < key b := by
  have hnodup : ((sortBy key l).map key).Nodup := ((sortBy_perm key l).map key).nodup_iff.mpr h
  exact (sortBy_pairwise_le key l).imp₂ (fun _ _ => lt_of_le_of_ne) (List.pairwise_map.mp hnodup)

theorem isTopK_take {l : List α} (h : (l.map key).Nodup) (k : ℕ) :
    IsTopK key k l ((sortBy key l).take k) where
  mem a ha := (sortBy_perm key l).subset (List.mem_of_mem_take ha)
  length := by rw [List.length_take, (sortBy_perm key l).length_eq]
  sorted := (sortBy_pairwise_lt h).sublist (List.take_sublist _ _)
  best a ha hnot b hb := by
    have hsorted := sortBy_pairwise_lt h
    rw [← List.take_append_drop k (sortBy key l)] at hsorted
    have hmem := (sortBy_perm key l).symm.subset ha
    rw [← List.take_append_drop k (sortBy key l)] at hmem
    rcases List.mem_append.mp hmem with htake | hdrop
    · exact absurd htake hnot
    · exact (List.pairwise_append.mp hsorted).2.2 b hb a hdrop

/-- The order in which the elements come is of no matter. -/
theorem sortBy_eq_of_perm {l l' : List α} (h : (l.map key).Nodup) (hperm : l'.Perm l) :
    sortBy key l' = sortBy key l := by
  have hperm' := (sortBy_perm key l').trans (hperm.trans (sortBy_perm key l).symm)
  refine List.Perm.eq_of_pairwise ?_ (sortBy_pairwise_le key l') (sortBy_pairwise_le key l) hperm'
  intro a b ha hb hab hba
  exact List.inj_on_of_nodup_map h (hperm.subset ((sortBy_perm key l').subset ha))
    ((sortBy_perm key l).subset hb) (le_antisymm hab hba)

/-- Two keys that order the elements alike sort them alike. -/
theorem sortBy_congr {ι : Type*} [LinearOrder ι] {key' : α → ι} {l : List α}
    (h : (l.map key).Nodup)
    (halike : ∀ a ∈ l, ∀ b ∈ l, key' a ≤ key' b → key a ≤ key b) :
    sortBy key' l = sortBy key l := by
  have hsorted : (sortBy key' l).Pairwise fun a b => key a ≤ key b := by
    refine (sortBy_pairwise_le key' l).imp_of_mem fun ha hb hle => ?_
    exact halike _ ((sortBy_perm key' l).subset ha) _ ((sortBy_perm key' l).subset hb) hle
  have hperm := (sortBy_perm key' l).trans (sortBy_perm key l).symm
  refine List.Perm.eq_of_pairwise ?_ hsorted (sortBy_pairwise_le key l) hperm
  intro a b ha hb hab hba
  exact List.inj_on_of_nodup_map h ((sortBy_perm key' l).subset ha)
    ((sortBy_perm key l).subset hb) (le_antisymm hab hba)

section Ties

variable {δ : Type*} [LinearOrder δ] {dist : α → δ}

theorem sortBy_map_pairwise (hkey : ∀ a b, key a ≤ key b → dist a ≤ dist b) (l : List α) :
    ((sortBy key l).map dist).Pairwise (· ≤ ·) :=
  List.pairwise_map.mpr ((sortBy_pairwise_le key l).imp fun h => hkey _ _ h)

/-- Where nothing left out is nearer, the first elements are as near as the first ones of
all candidates. Those with one distance may be others. -/
theorem take_map_sortBy (hkey : ∀ a b, key a ≤ key b → dist a ≤ dist b)
    {candidates taken rest : List α} (hperm : candidates.Perm (taken ++ rest))
    (hnear : ∀ a ∈ taken, ∀ b ∈ rest, dist a ≤ dist b) {k : ℕ}
    (henough : min k candidates.length ≤ taken.length) :
    ((sortBy key taken).take k).map dist = ((sortBy key candidates).take k).map dist := by
  have hall : (sortBy key candidates).map dist =
      (sortBy key taken).map dist ++ (sortBy key rest).map dist := by
    rw [← List.map_append]
    refine List.Perm.eq_of_pairwise (fun a b _ _ => le_antisymm) (sortBy_map_pairwise hkey _) ?_ ?_
    · rw [List.map_append]
      refine List.pairwise_append.mpr
        ⟨sortBy_map_pairwise hkey _, sortBy_map_pairwise hkey _, fun a ha b hb => ?_⟩
      obtain ⟨x, hx, rfl⟩ := List.mem_map.mp ha
      obtain ⟨y, hy, rfl⟩ := List.mem_map.mp hb
      exact hnear x ((sortBy_perm key taken).subset hx) y ((sortBy_perm key rest).subset hy)
    · refine ((sortBy_perm key candidates).trans (hperm.trans ?_)).map dist
      exact ((sortBy_perm key taken).append (sortBy_perm key rest)).symm
  have hlength : ((sortBy key taken).map dist).length = taken.length := by
    rw [List.length_map, (sortBy_perm key taken).length_eq]
  have hsize := hperm.length_eq
  rw [List.length_append] at hsize
  rw [List.map_take, List.map_take, hall, List.take_append]
  rcases le_or_gt k taken.length with hle | hgt
  · rw [hlength, Nat.sub_eq_zero_of_le hle, List.take_zero, List.append_nil]
  · have hnone : rest = [] := List.length_eq_zero_iff.mp (by omega)
    have hsort : sortBy key rest = [] := by rw [hnone, sortBy, List.mergeSort_nil]
    rw [hsort, List.map_nil, List.take_nil, List.append_nil]

omit [LinearOrder κ] [LinearOrder δ] in
theorem eq_of_map_dist {l l' : List α} (hinj : ∀ a ∈ l, ∀ b ∈ l', dist a = dist b → a = b)
    (hmap : l.map dist = l'.map dist) : l = l' := by
  induction l generalizing l' with
  | nil => exact (List.map_eq_nil_iff.mp hmap.symm).symm
  | cons a l ih =>
    cases l' with
    | nil => cases hmap
    | cons b l' =>
      rw [List.map_cons, List.map_cons, List.cons.injEq] at hmap
      have hhead := hinj a List.mem_cons_self b List.mem_cons_self hmap.1
      rw [hhead, ih (fun x hx y hy => hinj x (List.mem_cons_of_mem _ hx) y
        (List.mem_cons_of_mem _ hy)) hmap.2]

end Ties

end Bookstore.TopK
