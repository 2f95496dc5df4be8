import Bookstore.BinaryHeap
import Mathlib.Order.Lattice
import Mathlib.Logic.Function.Iterate

/-!
The priority queue over a binary heap, compared by a key: the value with the
largest key is on top.
-/
namespace Bookstore.PriorityQueue

open BinaryHeap

variable {α κ : Type} [LinearOrder κ] (key : α → κ)

def less (x y : α) : Bool := decide (key x < key y)

def emplace (q : List α) (x : α) : List α := BinaryHeap.push (less key) q x

def pop (q : List α) : List α := BinaryHeap.pop (less key) q

/-- Popping as long as the queue is longer than `n`. -/
def shrink (n : ℕ) (q : List α) : List α := (pop key)^[q.length - n] q

def drainFrom : ℕ → List α → List α
  | 0, _ => []
  | n + 1, q =>
    match q.head? with
    | none => []
    | some x => x :: drainFrom n (pop key q)

/-- The values in the order in which they are popped. -/
def drain (q : List α) : List α := drainFrom key q.length q

/-- No value has a larger key than the value above it. -/
def IsHeap (q : List α) : Prop := ∀ t, Sifted (fun x => t ≤ key x) q

variable {key}

theorem respects_less (t : κ) : Respects (less key) (fun x => t ≤ key x) where
  above _ _ h hx := hx.trans (of_decide_eq_true h).le
  below _ _ h hy := hy.trans (not_lt.mp (of_decide_eq_false h))

theorem isHeap_nil : IsHeap key [] := by
  intro t i x y _ hx
  simp at hx

theorem isHeap_singleton (x : α) : IsHeap key [x] := by
  intro t i y z hi hy
  have hlt := (List.getElem?_eq_some_iff.mp hy).1
  simp only [List.length_singleton] at hlt
  omega

theorem emplace_isHeap {q : List α} (h : IsHeap key q) (x : α) : IsHeap key (emplace key q x) :=
  fun t => push_sifted (respects_less t) (h t) x

theorem pop_isHeap {q : List α} (h : IsHeap key q) : IsHeap key (pop key q) :=
  fun t => pop_sifted (respects_less t) (h t)

variable (key) in
theorem emplace_perm (q : List α) (x : α) : (emplace key q x).Perm (x :: q) := push_perm q x

theorem pop_perm (q : List α) : (pop key q).Perm q.tail := BinaryHeap.pop_perm q

theorem mem_emplace {q : List α} {x y : α} : y ∈ emplace key q x ↔ y = x ∨ y ∈ q := by
  rw [(emplace_perm key q x).mem_iff, List.mem_cons]

theorem length_emplace (q : List α) (x : α) : (emplace key q x).length = q.length + 1 :=
  (emplace_perm key q x).length_eq

variable (key) in
theorem length_pop (q : List α) : (pop key q).length = q.length - 1 := by
  rw [(pop_perm q).length_eq, List.length_tail]

theorem mem_of_mem_pop {q : List α} {x : α} (h : x ∈ pop key q) : x ∈ q :=
  List.mem_of_mem_tail ((pop_perm q).subset h)

variable (key) in
/-- The top and what is left without it. -/
theorem perm_of_head {q : List α} {x : α} (h : q.head? = some x) : q.Perm (x :: pop key q) := by
  cases q with
  | nil => cases h
  | cons y rest =>
    rw [List.head?_cons] at h
    rw [Option.some.inj h]
    exact (List.Perm.cons x (pop_perm (x :: rest)).symm)

theorem head_max {q : List α} (h : IsHeap key q) {x : α} (hx : q.head? = some x) {y : α}
    (hy : y ∈ q) : key y ≤ key x := by
  by_contra hlt
  have hroot : q[0]? = some x := by rw [← List.head?_eq_getElem?, hx]
  exact (h (key y)).none_of_root hroot hlt y hy le_rfl

/-! ## Shrinking -/

/-- What is popped has no smaller key than what stays. -/
structure Shrunk (key : α → κ) (n : ℕ) (q popped kept : List α) : Prop where
  perm : q.Perm (popped ++ kept)
  heap : IsHeap key kept
  length : kept.length = min n q.length
  larger : ∀ x ∈ popped, ∀ y ∈ kept, key y ≤ key x

theorem iterate_pop {q : List α} (h : IsHeap key q) (n : ℕ) :
    ∃ popped, Shrunk key (q.length - n) q popped ((pop key)^[n] q) := by
  induction n with
  | zero => exact ⟨[], .refl _, h, by simp, by simp⟩
  | succ n ih =>
    obtain ⟨popped, hq⟩ := ih
    rw [Function.iterate_succ_apply']
    have hlength := hq.length
    cases hhead : ((pop key)^[n] q).head? with
    | none =>
      have hnil := List.head?_eq_none_iff.mp hhead
      rw [hnil, List.length_nil] at hlength
      have hempty : pop key ((pop key)^[n] q) = [] := by rw [hnil]; rfl
      refine ⟨popped, ?_, ?_, ?_, ?_⟩
      · rw [hempty, ← hnil]
        exact hq.perm
      · exact pop_isHeap hq.heap
      · rw [hempty, List.length_nil]
        omega
      · rw [hempty]
        simp
    | some x =>
      have hperm := perm_of_head key hhead
      refine ⟨popped ++ [x], ?_, pop_isHeap hq.heap, ?_, ?_⟩
      · rw [List.append_assoc]
        exact hq.perm.trans (hperm.append_left popped)
      · have hpos := hperm.length_eq
        rw [List.length_cons] at hpos
        rw [length_pop]
        omega
      · intro y hy z hz
        have hz' := mem_of_mem_pop hz
        rcases List.mem_append.mp hy with hold | hnew
        · exact hq.larger y hold z hz'
        · rw [List.mem_singleton.mp hnew]
          exact head_max hq.heap hhead hz'

theorem shrunk {q : List α} (h : IsHeap key q) (n : ℕ) :
    ∃ popped, Shrunk key n q popped (shrink key n q) := by
  obtain ⟨popped, hq⟩ := iterate_pop h (q.length - n)
  refine ⟨popped, hq.perm, hq.heap, ?_, hq.larger⟩
  have hlength := hq.length
  rw [shrink]
  omega

theorem shrink_of_le {q : List α} {n : ℕ} (h : q.length ≤ n) : shrink key n q = q := by
  rw [shrink, Nat.sub_eq_zero_of_le h, Function.iterate_zero_apply]

/-- One value too many is one pop. -/
theorem shrink_succ {q : List α} {n : ℕ} (h : q.length = n + 1) : shrink key n q = pop key q := by
  rw [shrink, h, Nat.add_sub_cancel_left, Function.iterate_one]

/-! ## Draining -/

theorem drainFrom_perm (n : ℕ) (q : List α) (h : q.length = n) : (drainFrom key n q).Perm q := by
  induction n generalizing q with
  | zero =>
    rw [List.length_eq_zero_iff.mp h]
    exact .refl _
  | succ n ih =>
    cases hhead : q.head? with
    | none =>
      rw [List.head?_eq_none_iff.mp hhead] at h
      cases h
    | some x =>
      have hperm := perm_of_head key hhead
      have hrest := ih (pop key q) (by rw [length_pop]; omega)
      simp only [drainFrom, hhead]
      exact (hrest.cons x).trans hperm.symm

theorem drain_perm (q : List α) : (drain key q).Perm q := drainFrom_perm q.length q rfl

theorem mem_drain {q : List α} {x : α} : x ∈ drain key q ↔ x ∈ q := (drain_perm q).mem_iff

theorem mem_of_mem_drainFrom (n : ℕ) {q : List α} {x : α} (h : x ∈ drainFrom key n q) :
    x ∈ q := by
  induction n generalizing q with
  | zero => cases h
  | succ n ih =>
    cases hhead : q.head? with
    | none =>
      simp only [drainFrom, hhead, List.not_mem_nil] at h
    | some y =>
      simp only [drainFrom, hhead, List.mem_cons] at h
      rcases h with rfl | h
      · exact List.mem_of_mem_head? hhead
      · exact mem_of_mem_pop (ih h)

theorem drainFrom_sorted (n : ℕ) {q : List α} (hq : IsHeap key q) :
    (drainFrom key n q).Pairwise fun x y => key y ≤ key x := by
  induction n generalizing q with
  | zero => exact .nil
  | succ n ih =>
    unfold drainFrom
    cases hhead : q.head? with
    | none => exact .nil
    | some x =>
      refine List.pairwise_cons.mpr ⟨?_, ih (pop_isHeap hq)⟩
      intro y hy
      exact head_max hq hhead (mem_of_mem_pop (mem_of_mem_drainFrom n hy))

/-- The keys are popped in decreasing order. -/
theorem drain_sorted {q : List α} (h : IsHeap key q) :
    (drain key q).Pairwise fun x y => key y ≤ key x := drainFrom_sorted q.length h

/-! ## Filling -/

section Filling

variable (key) in
/-- A queue filled with the values of a list. -/
def ofList (l : List α) : List α := l.foldl (emplace key) []

theorem foldl_emplace_isHeap (l : List α) {q : List α} (h : IsHeap key q) :
    IsHeap key (l.foldl (emplace key) q) := by
  induction l generalizing q with
  | nil => exact h
  | cons x l ih => exact ih (emplace_isHeap h x)

variable (key) in
theorem foldl_emplace_perm (l q : List α) : (l.foldl (emplace key) q).Perm (l ++ q) := by
  induction l generalizing q with
  | nil => exact .refl _
  | cons x l ih =>
    have hpush := (emplace_perm key q x).append_left l
    exact (ih (emplace key q x)).trans (hpush.trans List.perm_middle)

theorem ofList_isHeap (l : List α) : IsHeap key (ofList key l) :=
  foldl_emplace_isHeap l isHeap_nil

theorem ofList_perm (l : List α) : (ofList key l).Perm l := by
  have h := foldl_emplace_perm key l []
  rwa [List.append_nil] at h

end Filling

end Bookstore.PriorityQueue
