import Bookstore.Tally
import Mathlib.Data.List.Basic
import Mathlib.Logic.Function.Basic

/-!
Steps that may be refused, taken one by one and undone when one of them is refused.
When the order of undoing does not matter, either all steps are taken or nothing has
changed, even though the first step is undone first. The steps of a counted stock are
all taken exactly when the stock of every key covers the sum of its draws.
-/
namespace Bookstore.Undo

open Tally

variable {σ τ ι κ : Type}

/-! ## Taking all steps -/

def takeAll (take : ι → σ → Option σ) : List ι → σ → Option σ
  | [], s => some s
  | i :: rest, s => (take i s).bind (takeAll take rest)

theorem takeAll_cons_eq_some {take : ι → σ → Option σ} {i : ι} {rest : List ι} {s s' : σ} :
    takeAll take (i :: rest) s = some s' ↔
      ∃ t, take i s = some t ∧ takeAll take rest t = some s' := by
  rw [takeAll]
  exact Option.bind_eq_some_iff

/-- A view of the states under which each step is a step leads from runs to runs. -/
theorem takeAll_view {take : ι → σ → Option σ} {take' : ι → τ → Option τ} {view : σ → τ}
    (h : ∀ i s, (take i s).map view = take' i (view s)) (items : List ι) (s : σ) :
    (takeAll take items s).map view = takeAll take' items (view s) := by
  induction items generalizing s with
  | nil => rfl
  | cons i rest ih =>
    rw [takeAll, takeAll, ← h i s]
    cases take i s with
    | none => rfl
    | some t => exact ih t

/-! ## Undoing -/

/-- A step that may be refused, and its undoing. -/
structure Undoable (σ ι : Type) where
  take : ι → σ → Option σ
  undo : ι → σ → σ
  undo_take : ∀ {i s s'}, take i s = some s' → undo i s' = s
  undo_comm : ∀ i j s, undo i (undo j s) = undo j (undo i s)

namespace Undoable

variable (u : Undoable σ ι)

def undoAll (items : List ι) (s : σ) : σ := items.foldl (fun s i => u.undo i s) s

/-- `taken` are the steps taken so far, which are undone from the first one on. -/
def attempt (taken : List ι) : List ι → σ → Bool × σ
  | [], s => (true, s)
  | i :: rest, s =>
    match u.take i s with
    | some s' => attempt (taken ++ [i]) rest s'
    | none => (false, u.undoAll taken s)

theorem undoAll_perm {items items' : List ι} (h : items.Perm items') (s : σ) :
    u.undoAll items s = u.undoAll items' s :=
  h.foldl_eq' (fun i _ j _ s => u.undo_comm j i s) s

theorem undoAll_snoc (items : List ι) (i : ι) (s : σ) :
    u.undoAll (items ++ [i]) s = u.undoAll items (u.undo i s) :=
  u.undoAll_perm List.perm_append_comm s

/-- Either all steps are taken, or the state is the one in which none was. -/
theorem attempt_eq (taken items : List ι) {s base : σ} (hbase : u.undoAll taken s = base) :
    u.attempt taken items s =
      (takeAll u.take items s).elim (false, base) fun s' => (true, s') := by
  induction items generalizing taken s with
  | nil => rfl
  | cons i rest ih =>
    rw [attempt, takeAll]
    cases htake : u.take i s with
    | none =>
      dsimp only
      rw [hbase]
      rfl
    | some t =>
      have hnext : u.undoAll (taken ++ [i]) t = base := by
        rw [u.undoAll_snoc, u.undo_take htake, hbase]
      exact ih (taken ++ [i]) hnext

theorem attempt_nil (items : List ι) (s : σ) :
    u.attempt [] items s = (takeAll u.take items s).elim (false, s) fun s' => (true, s') :=
  u.attempt_eq [] items rfl

end Undoable

/-! ## Counted stock -/

section Counted

variable [DecidableEq κ] (key : ι → κ) (weight : ι → ℤ)

/-- What is drawn has to be positive and there. -/
def draw (i : ι) (stock : κ → Option ℤ) : Option (κ → Option ℤ) :=
  match stock (key i) with
  | none => none
  | some n =>
    if 0 < weight i ∧ weight i ≤ n then
      some (Function.update stock (key i) (some (n - weight i)))
    else none

variable {key weight}

theorem draw_eq_some_iff {i : ι} {stock stock' : κ → Option ℤ} :
    draw key weight i stock = some stock' ↔
      (∃ n, stock (key i) = some n ∧ 0 < weight i ∧ weight i ≤ n) ∧
        ∀ k, stock' k = (stock k).map (· - if key i = k then weight i else 0) := by
  unfold draw
  cases hentry : stock (key i) with
  | none => simp
  | some n =>
    have hupdate : Function.update stock (key i) (some (n - weight i)) =
        fun k => (stock k).map (· - if key i = k then weight i else 0) := by
      funext k
      by_cases hk : k = key i
      · subst hk
        rw [Function.update_self, hentry, if_pos rfl, Option.map_some]
      · rw [Function.update_of_ne hk, if_neg (Ne.symm hk)]
        simp
    dsimp only
    rw [hupdate]
    split
    · next hfits =>
      rw [Option.some_inj, funext_iff]
      exact ⟨fun h => ⟨⟨n, rfl, hfits⟩, fun k => (h k).symm⟩, fun h k => (h.2 k).symm⟩
    · next hfits =>
      refine iff_of_false (Option.some_ne_none _).symm ?_
      rintro ⟨⟨m, hm, hdraw⟩, -⟩
      obtain rfl := Option.some.inj hm
      exact hfits hdraw

/-- What the stock of a key has to be, for all draws of the list. -/
def Covered (key : ι → κ) (weight : ι → ℤ) (items : List ι) (stock : κ → Option ℤ) (i : ι) :
    Prop :=
  0 < weight i ∧ ∃ n, stock (key i) = some n ∧ tally key weight (key i) items ≤ n

theorem map_sub_sub (o : Option ℤ) (a b : ℤ) :
    (o.map (· - a)).map (· - b) = o.map (· - (a + b)) := by
  rw [Option.map_map]
  exact Option.map_congr fun n _ => Int.sub_sub n a b

/-- What the stock after a draw has to cover is what it had to cover before. -/
theorem covered_cons_iff {i : ι} {rest : List ι} {stock t : κ → Option ℤ}
    (ht : ∀ k, t k = (stock k).map (· - if key i = k then weight i else 0)) (j : ι) :
    Covered key weight rest t j ↔ Covered key weight (i :: rest) stock j := by
  refine and_congr_right fun _ => ?_
  rw [ht, tally_cons]
  constructor
  · rintro ⟨m, hm, hle⟩
    obtain ⟨n, hn, rfl⟩ := Option.map_eq_some_iff.mp hm
    exact ⟨n, hn, by omega⟩
  · rintro ⟨n, hn, hle⟩
    exact ⟨_, Option.map_eq_some_iff.mpr ⟨n, hn, rfl⟩, by omega⟩

/-- Checking the draws one after the other is checking the sum of every key. -/
theorem takeAll_draw_iff (items : List ι) (stock stock' : κ → Option ℤ) :
    takeAll (draw key weight) items stock = some stock' ↔
      (∀ i ∈ items, Covered key weight items stock i) ∧
        ∀ k, stock' k = (stock k).map (· - tally key weight k items) := by
  induction items generalizing stock with
  | nil =>
    simp only [takeAll, Option.some_inj, funext_iff, List.not_mem_nil, false_implies, implies_true,
      true_and, tally_nil, Int.sub_zero, Option.map_id']
    exact forall_congr' fun k => eq_comm
  | cons i rest ih =>
    rw [takeAll_cons_eq_some]
    constructor
    · rintro ⟨t, hdraw, hrest⟩
      obtain ⟨⟨n, hn, hpos, hle⟩, ht⟩ := draw_eq_some_iff.mp hdraw
      obtain ⟨hcovered, hstock'⟩ := (ih t).mp hrest
      have hleft : t (key i) = some (n - weight i) := by
        rw [ht, hn, if_pos rfl, Option.map_some]
      -- the key of the first draw is covered by a later draw of it, if there is one
      have hsum : tally key weight (key i) rest ≤ n - weight i := by
        by_cases hnone : tally key weight (key i) rest = 0
        · omega
        · obtain ⟨j, hj, hkey⟩ := exists_mem_of_tally_ne_zero key weight _ rest hnone
          obtain ⟨-, m, hm, hsum⟩ := hcovered j hj
          rw [hkey, hleft] at hm
          obtain rfl := Option.some.inj hm
          rwa [hkey] at hsum
      refine ⟨List.forall_mem_cons.mpr ⟨⟨hpos, n, hn, ?_⟩, ?_⟩, ?_⟩
      · rw [tally_cons, if_pos rfl]
        omega
      · exact fun j hj => (covered_cons_iff ht j).mp (hcovered j hj)
      · intro k
        rw [hstock' k, ht k, map_sub_sub, tally_cons]
    · rintro ⟨hcovered, hstock'⟩
      obtain ⟨⟨hpos, n, hn, hle⟩, hrest⟩ := List.forall_mem_cons.mp hcovered
      have hnonneg : 0 ≤ tally key weight (key i) rest :=
        tally_nonneg key weight (key i) rest fun j hj => (hrest j hj).1.le
      rw [tally_cons, if_pos rfl] at hle
      refine ⟨fun k => (stock k).map (· - if key i = k then weight i else 0),
        draw_eq_some_iff.mpr ⟨⟨n, hn, hpos, by omega⟩, fun _ => rfl⟩, (ih _).mpr ⟨?_, ?_⟩⟩
      · exact fun j hj => (covered_cons_iff (fun _ => rfl) j).mpr (hrest j hj)
      · intro k
        rw [hstock' k, map_sub_sub, tally_cons]

end Counted

end Bookstore.Undo
