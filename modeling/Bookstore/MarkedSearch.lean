import Bookstore.BeamSearch

/-!
The search of a graph with a set of its own replaced by marks that are kept
elsewhere. As long as the marks say which vertices were met, it goes the same way.
-/
namespace Bookstore.BeamSearch

open PriorityQueue

variable {α D ε μ : Type} [LinearOrder D]

/-- Some way to remember the vertices that were met. -/
structure Marks (μ α : Type) where
  met : μ → α → Bool
  mark : μ → α → μ

structure MarkedState (μ α D : Type) where
  marks : μ
  candidates : List (D × α)
  found : List (D × α)
  lowerBound : D

namespace Search

section Operations

variable (p : Search α D ε) (m : Marks μ α)

def visitOn (s : MarkedState μ α D) (node : α) : Except ε (MarkedState μ α D) :=
  if m.met s.marks node = true then pure s
  else do
    let dist ← p.distance node
    if s.found.length < p.ef ∨ dist < s.lowerBound then
      let found := p.trim (emplace Prod.fst s.found (dist, node))
      pure {
        marks := m.mark s.marks node
        candidates := emplace nearest s.candidates (dist, node)
        found := found
        lowerBound := (found.head?.map Prod.fst).getD s.lowerBound }
    else pure { s with marks := m.mark s.marks node }

def exploreOn : ℕ → MarkedState μ α D → Except ε (MarkedState μ α D)
  | 0, _ => throw p.unfinished
  | n + 1, s =>
    match s.candidates.head? with
    | none => pure s
    | some candidate =>
      if p.stops candidate.1 s.lowerBound s.found.length = true then pure s
      else do
        let links ← p.next candidate.2
        let s ← links.foldlM (p.visitOn m) { s with candidates := pop nearest s.candidates }
        exploreOn n s

def runOn (fuel : ℕ) (marks : μ) (entry : α) : Except ε (List (D × α) × μ) := do
  let dist ← p.distance entry
  let s ← p.exploreOn m fuel ⟨m.mark marks entry, [(dist, entry)], [(dist, entry)], dist⟩
  pure (s.found, s.marks)

end Operations

end Search

/-- The marks `marks` stand for the list `visited`. -/
structure Marks.Tracks (m : Marks μ α) (P : α → Prop) (R : μ → List α → Prop) : Prop where
  met : ∀ marks visited v, R marks visited → P v → (m.met marks v = true ↔ v ∈ visited)
  mark : ∀ marks visited v, R marks visited → P v → R (m.mark marks v) (v :: visited)

/-- The state of a search with marks in the place of its set. -/
def State.withMarks (t : State α D) (marks : μ) : MarkedState μ α D :=
  ⟨marks, t.candidates, t.found, t.lowerBound⟩

section Agreeing

variable [DecidableEq α] {p : Search α D ε} {m : Marks μ α} {P : α → Prop}
  {R : μ → List α → Prop}

theorem visitOn_agrees (hm : m.Tracks P R) {marks : μ} {t t' : State α D}
    (hmarks : R marks t.visited) {node : α} (hnode : P node) (hrun : p.visit t node = .ok t') :
    ∃ marks', p.visitOn m (t.withMarks marks) node = .ok (t'.withMarks marks') ∧
      R marks' t'.visited := by
  have hmet : m.met (t.withMarks marks).marks node = true ↔ node ∈ t.visited :=
    hm.met _ _ node hmarks hnode
  rw [Search.visit] at hrun
  rw [Search.visitOn]
  by_cases hold : node ∈ t.visited
  · rw [if_pos hold] at hrun
    rw [if_pos (hmet.mpr hold), ← Except.ok.inj hrun]
    exact ⟨marks, rfl, hmarks⟩
  · rw [if_neg hold] at hrun
    rw [if_neg fun hmarked => hold (hmet.mp hmarked)]
    have hmarked := hm.mark _ _ node hmarks hnode
    cases hdist : p.distance node with
    | error e =>
      rw [hdist] at hrun
      cases hrun
    | ok dist =>
      rw [hdist, ok_bind] at hrun
      rw [ok_bind]
      by_cases hroom : t.found.length < p.ef ∨ dist < t.lowerBound
      · have hroom' : (t.withMarks marks).found.length < p.ef ∨
            dist < (t.withMarks marks).lowerBound := hroom
        rw [if_pos hroom] at hrun
        rw [if_pos hroom', ← Except.ok.inj hrun]
        exact ⟨m.mark marks node, rfl, hmarked⟩
      · have hroom' : ¬ ((t.withMarks marks).found.length < p.ef ∨
            dist < (t.withMarks marks).lowerBound) := hroom
        rw [if_neg hroom] at hrun
        rw [if_neg hroom', ← Except.ok.inj hrun]
        exact ⟨m.mark marks node, rfl, hmarked⟩

theorem foldlM_visitOn (hm : m.Tracks P R) (links : List α) (hlinks : ∀ v ∈ links, P v)
    {marks : μ} {t t' : State α D} (hmarks : R marks t.visited)
    (hrun : links.foldlM p.visit t = .ok t') :
    ∃ marks', links.foldlM (p.visitOn m) (t.withMarks marks) = .ok (t'.withMarks marks') ∧
      R marks' t'.visited := by
  induction links generalizing marks t with
  | nil =>
    rw [← Except.ok.inj hrun]
    exact ⟨marks, rfl, hmarks⟩
  | cons node links ih =>
    obtain ⟨hnode, hrest⟩ := List.forall_mem_cons.mp hlinks
    rw [List.foldlM_cons] at hrun ⊢
    cases hvisit : p.visit t node with
    | error e =>
      rw [hvisit] at hrun
      cases hrun
    | ok u =>
      rw [hvisit, ok_bind] at hrun
      obtain ⟨marks', hstep, hmarks'⟩ := visitOn_agrees hm hmarks hnode hvisit
      rw [hstep, ok_bind]
      exact ih hrest hmarks' hrun

theorem exploreOn_agrees (hp : p.Regular) (hclosed : p.Closed P) (hm : m.Tracks P R) (fuel : ℕ)
    {marks : μ} {t t' : State α D} (hmarks : R marks t.visited) (hbeam : p.Beam P t)
    (hrun : p.explore fuel t = .ok t') :
    ∃ marks', p.exploreOn m fuel (t.withMarks marks) = .ok (t'.withMarks marks') ∧
      R marks' t'.visited := by
  induction fuel generalizing marks t with
  | zero => cases hrun
  | succ fuel ih =>
    rw [Search.explore] at hrun
    rw [Search.exploreOn]
    cases hhead : t.candidates.head? with
    | none =>
      have hhead' : (t.withMarks marks).candidates.head? = none := hhead
      rw [hhead] at hrun
      rw [hhead', ← Except.ok.inj hrun]
      exact ⟨marks, rfl, hmarks⟩
    | some candidate =>
      have hhead' : (t.withMarks marks).candidates.head? = some candidate := hhead
      rw [hhead] at hrun
      rw [hhead']
      dsimp only at hrun ⊢
      by_cases hstop : p.stops candidate.1 t.lowerBound t.found.length = true
      · have hstop' : p.stops candidate.1 (t.withMarks marks).lowerBound
            (t.withMarks marks).found.length = true := hstop
        rw [if_pos hstop] at hrun
        rw [if_pos hstop', ← Except.ok.inj hrun]
        exact ⟨marks, rfl, hmarks⟩
      · have hstop' : ¬ p.stops candidate.1 (t.withMarks marks).lowerBound
            (t.withMarks marks).found.length = true := hstop
        rw [if_neg hstop] at hrun
        rw [if_neg hstop']
        obtain ⟨_, hvisited⟩ := hbeam.candidate candidate (List.mem_of_mem_head? hhead)
        obtain ⟨links, hnext, hinside⟩ := hclosed.next candidate.2 (hbeam.inside _ hvisited)
        obtain ⟨u, hfold, hu, _, _⟩ := foldlM_visit hp hclosed hbeam.popped links hinside
        rw [hnext, ok_bind, hfold, ok_bind] at hrun
        obtain ⟨marks', hfoldOn, hmarks'⟩ := foldlM_visitOn hm links hinside
          (t := { t with candidates := pop nearest t.candidates }) hmarks hfold
        have hfoldOn' : links.foldlM (p.visitOn m) { t.withMarks marks with
            candidates := pop nearest (t.withMarks marks).candidates } =
              .ok (u.withMarks marks') := hfoldOn
        rw [hnext, ok_bind, hfoldOn', ok_bind]
        exact ih hmarks' hu hrun

/-- The search on marks that stand for nothing finds what the search with a set of its
own finds. -/
theorem runOn_agrees (hp : p.Regular) (hclosed : p.Closed P) (hm : m.Tracks P R) {marks : μ}
    (hnone : R marks []) {fuel : ℕ} {entry : α} (hentry : P entry) {found : List (D × α)}
    (hrun : p.run fuel entry = .ok found) :
    ∃ marks' visited, p.runOn m fuel marks entry = .ok (found, marks') ∧ R marks' visited := by
  obtain ⟨dist, hdist⟩ := hclosed.distance entry hentry
  rw [Search.run, hdist, ok_bind] at hrun
  cases hexplore : p.explore fuel (Search.start entry dist) with
  | error e =>
    rw [hexplore] at hrun
    cases hrun
  | ok t =>
    rw [hexplore, ok_bind] at hrun
    obtain ⟨marks', hexploreOn, hmarks'⟩ := exploreOn_agrees hp hclosed hm fuel
      (hm.mark _ _ _ hnone hentry) (start_beam hp hentry hdist) hexplore
    refine ⟨marks', t.visited, ?_, hmarks'⟩
    rw [State.withMarks] at hexploreOn
    rw [Search.runOn, hdist, ok_bind, ← Except.ok.inj hrun]
    exact congrArg (fun r : Except ε (MarkedState μ α D) => do
      let s ← r
      pure (s.found, s.marks)) hexploreOn

end Agreeing

end Bookstore.BeamSearch
