import Bookstore.Hnsw

/-!
The choice of neighbours in `getNeighborsByHeuristic2`. Candidates are taken nearest
first, and one is kept when no kept neighbour is nearer to it than the query is. So
the nearest candidate is always kept, and one that is left out is in the shadow of a
kept neighbour, or the list is full.
-/
namespace Bookstore.Hnsw

open BeamSearch PriorityQueue

namespace HierarchicalNSW

variable {V D : Type}

/-- The list of links of an element on one of its levels. -/
def links (h : HierarchicalNSW V) (level id : ℕ) : List ℕ :=
  (h.elements[id]?.bind fun e => e.links[level]?).getD []

def HasLevel (h : HierarchicalNSW V) (level id : ℕ) : Prop :=
  ∃ e, h.elements[id]? = some e ∧ level < e.links.length

theorem HasLevel.lt_length {h : HierarchicalNSW V} {level id : ℕ} (hid : h.HasLevel level id) :
    id < h.elements.length := by
  obtain ⟨e, he, _⟩ := hid
  exact (List.getElem?_eq_some_iff.mp he).1

theorem HasLevel.of_le {h : HierarchicalNSW V} {level low id : ℕ} (hid : h.HasLevel level id)
    (hle : low ≤ level) : h.HasLevel low id := by
  obtain ⟨e, he, hlt⟩ := hid
  exact ⟨e, he, by omega⟩

theorem element_ok {h : HierarchicalNSW V} {id : ℕ} (hid : id < h.elements.length) :
    h.element id = .ok h.elements[id] := by
  rw [element, List.getElem?_eq_getElem hid]
  rfl

theorem getLinklist_ok {h : HierarchicalNSW V} {level id : ℕ} (hid : h.HasLevel level id) :
    h.getLinklist level id = .ok (h.links level id) := by
  obtain ⟨e, he, hlt⟩ := hid
  simp only [getLinklist, element, links, he, Option.bind_some, pure_bind,
    List.getElem?_eq_getElem hlt]
  rfl

variable (fstdistfunc : V → V → D)

theorem distanceTo_ok {h : HierarchicalNSW V} {id : ℕ} (hid : id < h.elements.length) (data : V) :
    h.distanceTo fstdistfunc data id = .ok (fstdistfunc data h.elements[id].data) := by
  rw [distanceTo, element_ok hid]
  rfl

theorem distanceOf_ok {h : HierarchicalNSW V} {id id' : ℕ} (hid : id < h.elements.length)
    (hid' : id' < h.elements.length) : h.distanceOf fstdistfunc id id' =
      .ok (fstdistfunc h.elements[id].data h.elements[id'].data) := by
  rw [distanceOf, element_ok hid]
  exact distanceTo_ok fstdistfunc hid' _

variable [LinearOrder D]

/-- A neighbour that is nearer to a candidate than the query is. -/
def Shadows (h : HierarchicalNSW V) (a b : D × ℕ) : Prop :=
  ∃ d, h.distanceOf fstdistfunc a.2 b.2 = .ok d ∧ d < b.1

variable {h : HierarchicalNSW V}

theorem isGood_spec {current : D × ℕ} (hcurrent : current.2 < h.elements.length)
    (kept : List (D × ℕ)) (hkept : ∀ a ∈ kept, a.2 < h.elements.length) :
    ∃ good, h.isGood fstdistfunc current kept = .ok good ∧
      (good = true ↔ ∀ a ∈ kept, ¬ h.Shadows fstdistfunc a current) := by
  induction kept with
  | nil => exact ⟨true, rfl, by simp⟩
  | cons second rest ih =>
    obtain ⟨hsecond, hrest⟩ := List.forall_mem_cons.mp hkept
    obtain ⟨good, hgood, hiff⟩ := ih hrest
    have hdist := distanceOf_ok fstdistfunc hsecond hcurrent
    rw [isGood, hdist, ok_bind]
    by_cases hnearer : fstdistfunc h.elements[second.2].data h.elements[current.2].data < current.1
    · rw [if_pos hnearer]
      refine ⟨false, rfl, ?_⟩
      rw [List.forall_mem_cons]
      constructor
      · intro hfalse
        cases hfalse
      · intro hall
        exact absurd ⟨_, hdist, hnearer⟩ hall.1
    · rw [if_neg hnearer]
      refine ⟨good, hgood, ?_⟩
      rw [hiff, List.forall_mem_cons]
      refine ⟨fun hall => ⟨?_, hall⟩, And.right⟩
      rintro ⟨d, hd, hlt⟩
      rw [hdist] at hd
      exact hnearer ((Except.ok.inj hd).symm ▸ hlt)

/-- What the loop adds to the kept neighbours, and what it leaves out. -/
structure Returned (fstdistfunc : V → V → D) (h : HierarchicalNSW V) (M : ℕ)
    (rest kept more dropped : List (D × ℕ)) : Prop where
  sublist : more.Sublist rest
  perm : rest.Perm (more ++ dropped)
  size : kept.length ≤ M → (kept ++ more).length ≤ M
  diverse : (kept ++ more).Pairwise fun a b => ¬ h.Shadows fstdistfunc a b
  shadowed : ∀ b ∈ dropped, M ≤ (kept ++ more).length ∨
    ∃ a ∈ kept ++ more, a.1 ≤ b.1 ∧ h.Shadows fstdistfunc a b

theorem returnList_spec (M : ℕ) (rest kept : List (D × ℕ))
    (hrange : ∀ a ∈ kept ++ rest, a.2 < h.elements.length)
    (hsorted : (kept ++ rest).Pairwise fun a b => a.1 ≤ b.1)
    (hdiverse : kept.Pairwise fun a b => ¬ h.Shadows fstdistfunc a b) :
    ∃ more dropped, h.returnList fstdistfunc M rest kept = .ok (kept ++ more) ∧
      Returned fstdistfunc h M rest kept more dropped := by
  induction rest generalizing kept with
  | nil =>
    refine ⟨[], [], by rw [List.append_nil]; rfl, .refl _, .refl _, ?_, ?_, by simp⟩
    · rw [List.append_nil]
      exact id
    · rwa [List.append_nil]
  | cons current rest ih =>
    rw [returnList]
    by_cases hfull : M ≤ kept.length
    · rw [if_pos hfull]
      refine ⟨[], current :: rest, by rw [List.append_nil]; rfl, List.nil_sublist _, .refl _, ?_,
        ?_, fun b _ => .inl (by rwa [List.append_nil])⟩
      · rw [List.append_nil]
        exact id
      · rwa [List.append_nil]
    · rw [if_neg hfull]
      obtain ⟨good, hgood, hiff⟩ := isGood_spec fstdistfunc
        (hrange current (by simp)) kept (fun a ha => hrange a (List.mem_append_left _ ha))
      rw [hgood, ok_bind]
      cases good with
      | true =>
        rw [if_pos rfl]
        have happend : (kept ++ [current]) ++ rest = kept ++ current :: rest := by simp
        obtain ⟨more, dropped, hrun, hmore⟩ := ih (kept ++ [current]) (by rwa [happend])
          (by rwa [happend]) (List.pairwise_append.mpr ⟨hdiverse, List.pairwise_singleton _ _,
            fun a ha b hb => by rw [List.mem_singleton.mp hb]; exact hiff.mp rfl a ha⟩)
        have hcons : kept ++ [current] ++ more = kept ++ current :: more := by simp
        refine ⟨current :: more, dropped, by rw [hrun, hcons], hmore.sublist.cons_cons _,
          hmore.perm.cons _, ?_, ?_, ?_⟩
        · intro _
          rw [← hcons]
          exact hmore.size (by rw [List.length_append, List.length_singleton]; omega)
        · rw [← hcons]
          exact hmore.diverse
        · rw [← hcons]
          exact hmore.shadowed
      | false =>
        rw [if_neg (by simp)]
        have hsub : (kept ++ rest).Sublist (kept ++ current :: rest) :=
          (List.sublist_cons_self current rest).append_left kept
        obtain ⟨more, dropped, hrun, hmore⟩ := ih kept (fun a ha => hrange a (hsub.subset ha))
          (hsorted.sublist hsub) hdiverse
        refine ⟨more, current :: dropped, hrun, hmore.sublist.cons _,
          (hmore.perm.cons _).trans List.perm_middle.symm, hmore.size, hmore.diverse, ?_⟩
        refine List.forall_mem_cons.mpr ⟨.inr ?_, hmore.shadowed⟩
        have hsome : ∃ a ∈ kept, h.Shadows fstdistfunc a current := by
          by_contra hnone
          push Not at hnone
          exact Bool.noConfusion (hiff.mpr hnone)
        obtain ⟨a, ha, hshadows⟩ := hsome
        exact ⟨a, List.mem_append_left _ ha,
          (List.pairwise_append.mp hsorted).2.2 a ha current List.mem_cons_self, hshadows⟩

/-- What the heuristic keeps of a queue that is not too short. -/
structure Selected (fstdistfunc : V → V → D) (h : HierarchicalNSW V) (M : ℕ)
    (candidates kept : List (D × ℕ)) : Prop where
  heap : IsHeap Prod.fst kept
  subset : ∃ dropped, candidates.Perm (kept ++ dropped)
  size : kept.length ≤ M
  nearest : ∃ a ∈ kept, ∀ b ∈ candidates, a.1 ≤ b.1
  diverse : ∀ a ∈ kept, ∀ b ∈ kept, a.1 < b.1 → ¬ h.Shadows fstdistfunc a b
  shadowed : ∀ b ∈ candidates, b ∈ kept ∨ kept.length = M ∨
    ∃ a ∈ kept, a.1 ≤ b.1 ∧ h.Shadows fstdistfunc a b

theorem drain_closest_sorted (q : List (D × ℕ)) :
    (drain closest (ofList closest q)).Pairwise fun a b => a.1 ≤ b.1 := by
  refine (drain_sorted (ofList_isHeap q)).imp fun {a b} hle => ?_
  rcases Prod.Lex.toLex_le_toLex.mp hle with hlt | ⟨heq, _⟩
  · exact le_of_lt (OrderDual.toDual_lt_toDual.mp hlt)
  · exact (OrderDual.toDual_inj.mp heq).ge

theorem diverse_of_sorted {l : List (D × ℕ)} (hsorted : l.Pairwise fun a b => a.1 ≤ b.1)
    (hdiverse : l.Pairwise fun a b => ¬ h.Shadows fstdistfunc a b) :
    ∀ a ∈ l, ∀ b ∈ l, a.1 < b.1 → ¬ h.Shadows fstdistfunc a b := by
  induction l with
  | nil => simp
  | cons c l ih =>
    obtain ⟨hle, hsorted'⟩ := List.pairwise_cons.mp hsorted
    obtain ⟨hnot, hdiverse'⟩ := List.pairwise_cons.mp hdiverse
    intro a ha b hb hlt
    rcases List.mem_cons.mp ha with rfl | ha' <;> rcases List.mem_cons.mp hb with rfl | hb'
    · exact absurd hlt (lt_irrefl _)
    · exact hnot b hb'
    · exact absurd hlt (not_lt.mpr (hle a ha'))
    · exact ih hsorted' hdiverse' a ha' b hb' hlt

/-- The first candidate meets no kept neighbour. -/
theorem returnList_first {M : ℕ} (hM : 1 ≤ M) (first : D × ℕ) (rest : List (D × ℕ)) :
    h.returnList fstdistfunc M (first :: rest) [] =
      h.returnList fstdistfunc M rest [first] := by
  rw [returnList, if_neg (by rw [List.length_nil]; omega)]
  rfl

theorem neighbors_selected {M : ℕ} (hM : 1 ≤ M) {candidates : List (D × ℕ)}
    (hlength : M ≤ candidates.length) (hrange : ∀ e ∈ candidates, e.2 < h.elements.length) :
    ∃ kept, h.getNeighborsByHeuristic2 fstdistfunc candidates M = .ok kept ∧
      Selected fstdistfunc h M candidates kept := by
  have hperm : (drain closest (ofList closest (drain Prod.fst candidates))).Perm candidates :=
    (drain_perm _).trans ((ofList_perm _).trans (drain_perm _))
  have hsorted := drain_closest_sorted (drain Prod.fst candidates)
  rw [getNeighborsByHeuristic2, if_neg (by omega)]
  dsimp only
  generalize drain closest (ofList closest (drain Prod.fst candidates)) = queue at hperm hsorted
  cases queue with
  | nil =>
    have hzero := hperm.length_eq
    rw [List.length_nil] at hzero
    omega
  | cons first rest =>
    rw [returnList_first fstdistfunc hM]
    obtain ⟨more, dropped, hrun, hmore⟩ := returnList_spec fstdistfunc M rest
      [first] (fun a ha => hrange a (hperm.subset ha)) hsorted (List.pairwise_singleton _ _)
    have hall : candidates.Perm ([first] ++ more ++ dropped) :=
      hperm.symm.trans (hmore.perm.cons first)
    have horder : ([first] ++ more).Pairwise fun a b => a.1 ≤ b.1 :=
      hsorted.sublist (hmore.sublist.cons_cons first)
    have hkept : (ofList Prod.fst ([first] ++ more)).Perm ([first] ++ more) := ofList_perm _
    refine ⟨ofList Prod.fst ([first] ++ more), by rw [hrun, ok_bind]; rfl, ofList_isHeap _,
      ⟨dropped, hall.trans (hkept.symm.append_right dropped)⟩, ?_, ?_, ?_, ?_⟩
    · rw [hkept.length_eq]
      exact hmore.size hM
    · refine ⟨first, hkept.mem_iff.mpr List.mem_cons_self, fun b hb => ?_⟩
      rcases List.mem_cons.mp (hperm.symm.subset hb) with rfl | hrest
      · exact le_rfl
      · exact (List.pairwise_cons.mp hsorted).1 b hrest
    · intro a ha b hb
      exact diverse_of_sorted fstdistfunc horder hmore.diverse a (hkept.subset ha) b (hkept.subset hb)
    · intro b hb
      rcases List.mem_append.mp (hall.subset hb) with hin | hout
      · exact .inl (hkept.mem_iff.mpr hin)
      · rcases hmore.shadowed b hout with hfull | ⟨a, ha, hle, hshadows⟩
        · right; left
          rw [hkept.length_eq]
          exact Nat.le_antisymm (hmore.size hM) hfull
        · exact .inr (.inr ⟨a, hkept.mem_iff.mpr ha, hle, hshadows⟩)

/-- The heuristic takes a short queue as it is, and makes a choice from any other one. -/
theorem neighbors_chosen {M : ℕ} (hM : 1 ≤ M) {candidates : List (D × ℕ)}
    (hrange : ∀ e ∈ candidates, e.2 < h.elements.length) :
    ∃ kept, h.getNeighborsByHeuristic2 fstdistfunc candidates M = .ok kept ∧
      (candidates.length < M → kept = candidates) ∧
      (M ≤ candidates.length → Selected fstdistfunc h M candidates kept) := by
  rcases Nat.lt_or_ge candidates.length M with hshort | hlong
  · refine ⟨candidates, ?_, fun _ => rfl, fun hlong => absurd hshort (Nat.not_lt.mpr hlong)⟩
    rw [getNeighborsByHeuristic2, if_pos hshort]
    rfl
  · obtain ⟨kept, hrun, hselected⟩ := neighbors_selected fstdistfunc hM hlong hrange
    exact ⟨kept, hrun, fun hshort => absurd hshort (Nat.not_lt.mpr hlong), fun _ => hselected⟩

/-- Four points on a line. -/
def fourPoints : HierarchicalNSW ℤ where
  maxElements := 4
  M := 2
  efConstruction := 2
  ef := 10
  elements := [⟨0, 0, [[]]⟩, ⟨1, 10, [[]]⟩, ⟨2, 11, [[]]⟩, ⟨3, -7, [[]]⟩]
  entry := some ⟨0, 0⟩

theorem fourPoints_chosen : ∃ kept, fourPoints.getNeighborsByHeuristic2
    (fun x y => (x - y) * (x - y)) [(121, 2), (100, 1), (49, 3)] 2 = .ok kept ∧
      (3 < 2 → kept = [(121, 2), (100, 1), (49, 3)]) ∧
      (2 ≤ 3 → Selected (fun x y => (x - y) * (x - y)) fourPoints 2
        [(121, 2), (100, 1), (49, 3)] kept) :=
  neighbors_chosen _ (by decide) (by decide)

end HierarchicalNSW

end Bookstore.Hnsw
