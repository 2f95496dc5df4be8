import Bookstore.PriorityQueue
import Mathlib.Data.List.Nodup
import Mathlib.Data.List.Perm.Subperm
import Mathlib.Logic.Relation

/-!
Best-first search of a graph from one vertex. The vertices that were met wait in a
queue, nearest first, and the nearest `ef` of them are kept in a second queue, the
farthest one on top. Links and distances are read through functions that may fail.
A beam that is as wide as the graph keeps every vertex that can be reached.
-/
namespace Bookstore.BeamSearch

open PriorityQueue

variable {α D ε : Type} [LinearOrder D]

/-- The key of the waiting vertices. -/
def nearest (entry : D × α) : Dᵒᵈ := OrderDual.toDual entry.1

structure Search (α D ε : Type) where
  ef : ℕ
  /-- Whether to leave, by the distance of the next vertex, the bound and the
  number of vertices that are kept. -/
  stops : D → D → ℕ → Bool
  /-- How the kept vertices are cut when there is one too many. -/
  trim : List (D × α) → List (D × α)
  distance : α → Except ε D
  next : α → Except ε (List α)
  unfinished : ε

structure State (α D : Type) where
  visited : List α
  candidates : List (D × α)
  found : List (D × α)
  lowerBound : D

namespace Search

section Operations

variable [DecidableEq α] (p : Search α D ε)

/-- A link to a vertex: it is looked at once, and kept when the beam has room or
when it is nearer than the farthest one. -/
def visit (s : State α D) (node : α) : Except ε (State α D) :=
  if node ∈ s.visited then pure s
  else do
    let dist ← p.distance node
    if s.found.length < p.ef ∨ dist < s.lowerBound then
      let found := p.trim (emplace Prod.fst s.found (dist, node))
      pure {
        visited := node :: s.visited
        candidates := emplace nearest s.candidates (dist, node)
        found := found
        lowerBound := (found.head?.map Prod.fst).getD s.lowerBound }
    else pure { s with visited := node :: s.visited }

def explore : ℕ → State α D → Except ε (State α D)
  | 0, _ => throw p.unfinished
  | n + 1, s =>
    match s.candidates.head? with
    | none => pure s
    | some candidate =>
      if p.stops candidate.1 s.lowerBound s.found.length = true then pure s
      else do
        let links ← p.next candidate.2
        let s ← links.foldlM p.visit { s with candidates := pop nearest s.candidates }
        explore n s

def start (entry : α) (dist : D) : State α D := ⟨[entry], [(dist, entry)], [(dist, entry)], dist⟩

def run (fuel : ℕ) (entry : α) : Except ε (List (D × α)) := do
  let dist ← p.distance entry
  let s ← p.explore fuel (start entry dist)
  pure s.found

end Operations

variable (p : Search α D ε)

/-- A vertex with a link to another one. -/
def Linked (v w : α) : Prop := ∃ links, p.next v = .ok links ∧ w ∈ links

def Reaches : α → α → Prop := Relation.ReflTransGen p.Linked

/-- The vertices on which distances and links can be read; links stay among them. -/
structure Closed (P : α → Prop) : Prop where
  distance : ∀ v, P v → ∃ dist, p.distance v = .ok dist
  next : ∀ v, P v → ∃ links, p.next v = .ok links ∧ ∀ w ∈ links, P w

structure Regular : Prop where
  room : 1 ≤ p.ef
  trim : ∀ q, q.length ≤ p.ef + 1 → p.trim q = shrink Prod.fst p.ef q

/-- What a search keeps to. Every vertex that was met is kept, or the beam is full
of vertices that are no farther away. -/
structure Beam (P : α → Prop) (s : State α D) : Prop where
  waiting : IsHeap nearest s.candidates
  kept : IsHeap Prod.fst s.found
  once : s.visited.Nodup
  inside : ∀ v ∈ s.visited, P v
  candidate : ∀ e ∈ s.candidates, p.distance e.2 = .ok e.1 ∧ e.2 ∈ s.visited
  found : ∀ e ∈ s.found, p.distance e.2 = .ok e.1 ∧ e.2 ∈ s.visited
  distinct : (s.found.map Prod.snd).Nodup
  size : s.found.length ≤ p.ef
  bound : s.found.head?.map Prod.fst = some s.lowerBound
  best : ∀ v ∈ s.visited, v ∈ s.found.map Prod.snd ∨
    s.found.length = p.ef ∧ ∃ dist, p.distance v = .ok dist ∧ s.lowerBound ≤ dist

end Search

/-- There are at most `n` such vertices. -/
def Few (P : α → Prop) (n : ℕ) : Prop := ∀ l : List α, l.Nodup → (∀ v ∈ l, P v) → l.length ≤ n

theorem ok_bind {β γ : Type} (b : β) (f : β → Except ε γ) : (Except.ok b >>= f) = f b := rfl

variable {p : Search α D ε} {P : α → Prop}

theorem start_beam (hp : p.Regular) {entry : α} {dist : D} (hentry : P entry)
    (hdist : p.distance entry = .ok dist) : p.Beam P (Search.start entry dist) where
  waiting := isHeap_singleton _
  kept := isHeap_singleton _
  once := List.nodup_singleton entry
  inside v hv := by
    rw [List.mem_singleton.mp hv]
    exact hentry
  candidate e he := by
    rw [List.mem_singleton.mp he]
    exact ⟨hdist, List.mem_singleton_self entry⟩
  found e he := by
    rw [List.mem_singleton.mp he]
    exact ⟨hdist, List.mem_singleton_self entry⟩
  distinct := List.nodup_singleton entry
  size := hp.room
  bound := rfl
  best v hv := .inl (by rw [List.mem_singleton.mp hv]; exact List.mem_singleton_self entry)

namespace Search.Beam

variable {s : State α D}

theorem found_subset (h : p.Beam P s) : s.found.map Prod.snd ⊆ s.visited := by
  intro v hv
  obtain ⟨e, he, rfl⟩ := List.mem_map.mp hv
  exact (h.found e he).2

theorem found_length_le (h : p.Beam P s) : s.found.length ≤ s.visited.length := by
  have hlength := (List.subperm_of_subset h.distinct h.found_subset).length_le
  rwa [List.length_map] at hlength

/-- A beam that is not full keeps everything that was met. -/
theorem full_or_all (h : p.Beam P s) :
    s.found.length = p.ef ∨ s.visited.length ≤ s.found.length := by
  by_cases hfull : s.found.length = p.ef
  · exact .inl hfull
  · right
    have hsub : s.visited ⊆ s.found.map Prod.snd :=
      fun v hv => (h.best v hv).elim id fun hrest => absurd hrest.1 hfull
    have hlength := (List.subperm_of_subset h.once hsub).length_le
    rwa [List.length_map] at hlength

theorem le_bound (h : p.Beam P s) {e : D × α} (he : e ∈ s.found) : e.1 ≤ s.lowerBound := by
  obtain ⟨top, htop, hbound⟩ := Option.map_eq_some_iff.mp h.bound
  rw [← hbound]
  exact head_max h.kept htop he

/-- A new vertex that is farther away than a full beam. -/
theorem passed (h : p.Beam P s) {node : α} {dist : D} (hnode : P node)
    (hnew : node ∉ s.visited) (hdist : p.distance node = .ok dist)
    (hroom : ¬ (s.found.length < p.ef ∨ dist < s.lowerBound)) :
    p.Beam P { s with visited := node :: s.visited } where
  waiting := h.waiting
  kept := h.kept
  once := List.nodup_cons.mpr ⟨hnew, h.once⟩
  inside v hv := by
    rcases List.mem_cons.mp hv with rfl | hv
    · exact hnode
    · exact h.inside v hv
  candidate e he := ⟨(h.candidate e he).1, List.mem_cons_of_mem _ (h.candidate e he).2⟩
  found e he := ⟨(h.found e he).1, List.mem_cons_of_mem _ (h.found e he).2⟩
  distinct := h.distinct
  size := h.size
  bound := h.bound
  best v hv := by
    rw [not_or, not_lt, not_lt] at hroom
    rcases List.mem_cons.mp hv with rfl | hv
    · exact .inr ⟨Nat.le_antisymm h.size hroom.1, dist, hdist, hroom.2⟩
    · exact h.best v hv

/-- A new vertex that is kept. -/
theorem taken (hp : p.Regular) (h : p.Beam P s) {node : α} {dist : D} (hnode : P node)
    (hnew : node ∉ s.visited) (hdist : p.distance node = .ok dist)
    (hroom : s.found.length < p.ef ∨ dist < s.lowerBound) :
    p.Beam P {
      visited := node :: s.visited
      candidates := emplace nearest s.candidates (dist, node)
      found := p.trim (emplace Prod.fst s.found (dist, node))
      lowerBound := ((p.trim (emplace Prod.fst s.found (dist, node))).head?.map
        Prod.fst).getD s.lowerBound } := by
  have hsize := h.size
  have hgrown : (emplace Prod.fst s.found (dist, node)).length = s.found.length + 1 :=
    length_emplace s.found (dist, node)
  rw [hp.trim _ (by omega)]
  obtain ⟨popped, hkept⟩ := shrunk (emplace_isHeap h.kept (dist, node)) p.ef
  have hlength := hkept.length
  have htotal := hkept.perm.length_eq
  rw [List.length_append] at htotal
  have hmem : ∀ e ∈ shrink Prod.fst p.ef (emplace Prod.fst s.found (dist, node)),
      e = (dist, node) ∨ e ∈ s.found := fun e he =>
    mem_emplace.mp (hkept.perm.symm.subset (List.mem_append_right popped he))
  generalize shrink Prod.fst p.ef (emplace Prod.fst s.found (dist, node)) = found' at *
  have hpos := hp.room
  obtain ⟨top, rest, rfl⟩ := List.exists_cons_of_length_pos (l := found') (by omega)
  -- What has come in is kept, or it is no nearer than the new bound.
  have hcut : ∀ e ∈ emplace Prod.fst s.found (dist, node), e.2 ∈ (top :: rest).map Prod.snd ∨
      (top :: rest).length = p.ef ∧ top.1 ≤ e.1 := by
    intro e he
    rcases List.mem_append.mp (hkept.perm.subset he) with hpopped | hstays
    · have hone := List.length_pos_of_mem hpopped
      exact .inr ⟨by omega, hkept.larger e hpopped top List.mem_cons_self⟩
    · exact .inl (List.mem_map_of_mem hstays)
  have hnodes : ((emplace Prod.fst s.found (dist, node)).map Prod.snd).Nodup := by
    rw [((emplace_perm Prod.fst s.found (dist, node)).map Prod.snd).nodup_iff, List.map_cons]
    exact List.nodup_cons.mpr ⟨fun hin => hnew (h.found_subset hin), h.distinct⟩
  have hnear : ∀ e ∈ top :: rest, s.found.length = p.ef → e.1 ≤ s.lowerBound := by
    intro e he hfull
    rcases hmem e he with rfl | hold
    · exact (hroom.resolve_left (by omega)).le
    · exact h.le_bound hold
  refine ⟨emplace_isHeap h.waiting _, hkept.heap, List.nodup_cons.mpr ⟨hnew, h.once⟩, ?_, ?_, ?_,
    ?_, by dsimp only; omega, rfl, ?_⟩
  · intro v hv
    rcases List.mem_cons.mp hv with rfl | hv
    · exact hnode
    · exact h.inside v hv
  · intro e he
    rcases mem_emplace.mp he with rfl | hold
    · exact ⟨hdist, List.mem_cons_self⟩
    · exact ⟨(h.candidate e hold).1, List.mem_cons_of_mem _ (h.candidate e hold).2⟩
  · intro e he
    rcases hmem e he with rfl | hold
    · exact ⟨hdist, List.mem_cons_self⟩
    · exact ⟨(h.found e hold).1, List.mem_cons_of_mem _ (h.found e hold).2⟩
  · rw [(hkept.perm.map Prod.snd).nodup_iff, List.map_append] at hnodes
    exact hnodes.of_append_right
  · intro v hv
    rcases List.mem_cons.mp hv with rfl | hv
    · exact (hcut (dist, v) (mem_emplace.mpr (.inl rfl))).imp id fun hfull =>
        ⟨hfull.1, dist, hdist, hfull.2⟩
    · rcases h.best v hv with hold | ⟨hfull, x, hx, hle⟩
      · obtain ⟨e, he, rfl⟩ := List.mem_map.mp hold
        exact (hcut e (mem_emplace.mpr (.inr he))).imp id fun hfull =>
          ⟨hfull.1, e.1, (h.found e he).1, hfull.2⟩
      · exact .inr ⟨by dsimp only; omega, x, hx, (hnear top List.mem_cons_self hfull).trans hle⟩

/-- One candidate less. -/
theorem popped (h : p.Beam P s) : p.Beam P { s with candidates := pop nearest s.candidates } where
  waiting := pop_isHeap h.waiting
  kept := h.kept
  once := h.once
  inside := h.inside
  candidate e he := h.candidate e (mem_of_mem_pop he)
  found := h.found
  distinct := h.distinct
  size := h.size
  bound := h.bound
  best := h.best

end Search.Beam

/-! ## One search -/

/-- What looking at links adds. In a beam that is wide enough every new vertex waits. -/
structure Grows (p : Search α D ε) (P : α → Prop) (s s' : State α D) : Prop where
  visited : s.visited ⊆ s'.visited
  candidates : s.candidates ⊆ s'.candidates
  length : s'.candidates.length + s.visited.length ≤ s.candidates.length + s'.visited.length
  waits : Few P p.ef → ∀ v ∈ s'.visited, v ∈ s.visited ∨ v ∈ s'.candidates.map Prod.snd

omit [LinearOrder D] in
theorem Grows.refl (s : State α D) : Grows p P s s where
  visited := List.Subset.refl _
  candidates := List.Subset.refl _
  length := le_rfl
  waits _ _ hv := .inl hv

omit [LinearOrder D] in
theorem Grows.trans {s t u : State α D} (h : Grows p P s t) (h' : Grows p P t u) :
    Grows p P s u where
  visited := List.Subset.trans h.visited h'.visited
  candidates := List.Subset.trans h.candidates h'.candidates
  length := by
    have h₁ := h.length
    have h₂ := h'.length
    omega
  waits hfew v hv := by
    rcases h'.waits hfew v hv with hold | hnew
    · exact (h.waits hfew v hold).imp id fun hc => List.map_subset _ h'.candidates hc
    · exact .inr hnew

section Searching

variable [DecidableEq α]

theorem visit_spec (hp : p.Regular) (hclosed : p.Closed P) {s : State α D} (h : p.Beam P s)
    {node : α} (hnode : P node) :
    ∃ s', p.visit s node = .ok s' ∧ p.Beam P s' ∧ Grows p P s s' ∧ node ∈ s'.visited := by
  unfold Search.visit
  by_cases hold : node ∈ s.visited
  · rw [if_pos hold]
    exact ⟨s, rfl, h, .refl s, hold⟩
  · rw [if_neg hold]
    obtain ⟨dist, hdist⟩ := hclosed.distance node hnode
    rw [hdist, ok_bind]
    by_cases hroom : s.found.length < p.ef ∨ dist < s.lowerBound
    · rw [if_pos hroom]
      refine ⟨_, rfl, h.taken hp hnode hold hdist hroom, ⟨List.subset_cons_self _ _, ?_, ?_, ?_⟩,
        List.mem_cons_self⟩
      · exact fun e he => mem_emplace.mpr (.inr he)
      · dsimp only
        rw [length_emplace, List.length_cons]
        omega
      · intro _ v hv
        rcases List.mem_cons.mp hv with rfl | hv
        · exact .inr (List.mem_map.mpr ⟨(dist, v), mem_emplace.mpr (.inl rfl), rfl⟩)
        · exact .inl hv
    · rw [if_neg hroom]
      have hpassed := h.passed hnode hold hdist hroom
      refine ⟨_, rfl, hpassed, ⟨List.subset_cons_self _ _, List.Subset.refl _, ?_, ?_⟩,
        List.mem_cons_self⟩
      · dsimp only
        rw [List.length_cons]
        omega
      · intro hfew
        have hlength := hfew _ hpassed.once hpassed.inside
        have hfound := h.found_length_le
        rw [List.length_cons] at hlength
        exact absurd (.inl (by omega)) hroom

theorem foldlM_visit (hp : p.Regular) (hclosed : p.Closed P) {s : State α D} (h : p.Beam P s)
    (links : List α) (hlinks : ∀ w ∈ links, P w) :
    ∃ s', links.foldlM p.visit s = .ok s' ∧ p.Beam P s' ∧ Grows p P s s' ∧
      ∀ w ∈ links, w ∈ s'.visited := by
  induction links generalizing s with
  | nil => exact ⟨s, rfl, h, .refl s, by simp⟩
  | cons node links ih =>
    obtain ⟨hnode, hrest⟩ := List.forall_mem_cons.mp hlinks
    obtain ⟨t, hvisit, ht, hgrows, hmet⟩ := visit_spec hp hclosed h hnode
    obtain ⟨u, hfold, hu, hgrows', hmet'⟩ := ih ht hrest
    refine ⟨u, ?_, hu, hgrows.trans hgrows', List.forall_mem_cons.mpr ⟨hgrows'.visited hmet, hmet'⟩⟩
    rw [List.foldlM_cons, hvisit, ok_bind]
    exact hfold

/-- Every vertex that was met waits, or all its links have been looked at. -/
def Explored (p : Search α D ε) (s : State α D) : Prop :=
  ∀ v ∈ s.visited, v ∈ s.candidates.map Prod.snd ∨ ∀ w, p.Linked v w → w ∈ s.visited

/-- The search comes to an end, where nothing waits or the rule to stop applies. -/
theorem explore_spec (hp : p.Regular) (hclosed : p.Closed P) {n : ℕ} (hfew : Few P n) (fuel : ℕ)
    {s : State α D} (h : p.Beam P s)
    (hfuel : n + s.candidates.length < fuel + s.visited.length) :
    ∃ s', p.explore fuel s = .ok s' ∧ p.Beam P s' ∧ s.visited ⊆ s'.visited ∧
      (∀ e, s'.candidates.head? = some e →
        p.stops e.1 s'.lowerBound s'.found.length = true) ∧
      (∀ e, s.candidates.head? = some e → p.stops e.1 s.lowerBound s.found.length = false →
        ∀ w, p.Linked e.2 w → w ∈ s'.visited) ∧
      (Few P p.ef → Explored p s → Explored p s') := by
  induction fuel generalizing s with
  | zero =>
    have hlength := hfew _ h.once h.inside
    omega
  | succ fuel ih =>
    unfold Search.explore
    cases hhead : s.candidates.head? with
    | none => exact ⟨s, rfl, h, List.Subset.refl _, by simp [hhead], by simp, fun _ => id⟩
    | some candidate =>
      dsimp only
      by_cases hstop : p.stops candidate.1 s.lowerBound s.found.length = true
      · rw [if_pos hstop]
        refine ⟨s, rfl, h, List.Subset.refl _, ?_, ?_, fun _ => id⟩
        · intro e he
          rw [hhead] at he
          rwa [← Option.some.inj he]
        · intro e he hgoes
          rw [← Option.some.inj he, hstop] at hgoes
          cases hgoes
      · rw [if_neg hstop]
        have hmem := List.mem_of_mem_head? hhead
        obtain ⟨_, hvisited⟩ := h.candidate candidate hmem
        obtain ⟨links, hnext, hinside⟩ := hclosed.next candidate.2 (h.inside _ hvisited)
        obtain ⟨t, hfold, ht, hgrows, hmet⟩ := foldlM_visit hp hclosed h.popped links hinside
        have hpop := length_pop nearest s.candidates
        have hpos := List.length_pos_of_mem hmem
        have hgrown := hgrows.length
        dsimp only at hgrown
        have hall : ∀ w, p.Linked candidate.2 w → w ∈ t.visited := by
          rintro w ⟨links', hlinks', hw⟩
          rw [hnext] at hlinks'
          cases hlinks'
          exact hmet w hw
        obtain ⟨u, hexplore, hu, hsub, hlast, _, hexplored'⟩ := ih ht (by omega)
        refine ⟨u, ?_, hu, List.Subset.trans hgrows.visited hsub, hlast, ?_, ?_⟩
        · rw [hnext, ok_bind, hfold, ok_bind]
          exact hexplore
        · intro e he _ w hw
          rw [← Option.some.inj he] at hw
          exact hsub (hall w hw)
        · intro hwide hexplored
          apply hexplored' hwide
          intro v hv
          rcases hgrows.waits hwide v hv with hold | hnew
          · rcases hexplored v hold with hwaits | hdone
            · have hperm := (perm_of_head nearest hhead).map Prod.snd
              rcases List.mem_cons.mp (hperm.subset hwaits) with rfl | hstill
              · exact .inr hall
              · exact .inl (List.map_subset _ hgrows.candidates hstill)
            · exact .inr fun w hw => hgrows.visited (hdone w hw)
          · exact .inl hnew

/-- What a search returns. -/
structure Found (p : Search α D ε) (P : α → Prop) (found : List (D × α)) : Prop where
  heap : IsHeap Prod.fst found
  distinct : (found.map Prod.snd).Nodup
  inside : ∀ e ∈ found, P e.2 ∧ p.distance e.2 = .ok e.1
  nonempty : found ≠ []
  size : found.length ≤ p.ef

omit [DecidableEq α] in
theorem Search.Beam.result {s : State α D} (h : p.Beam P s) : Found p P s.found where
  heap := h.kept
  distinct := h.distinct
  inside e he := ⟨h.inside _ (h.found e he).2, (h.found e he).1⟩
  nonempty hnil := by
    have hbound := h.bound
    rw [hnil] at hbound
    cases hbound
  size := h.size

theorem run_spec (hp : p.Regular) (hclosed : p.Closed P) {n : ℕ} (hfew : Few P n) {fuel : ℕ}
    (hfuel : n < fuel) {entry : α} (hentry : P entry) :
    ∃ s, p.run fuel entry = .ok s.found ∧ p.Beam P s ∧ entry ∈ s.visited ∧
      (∀ e, s.candidates.head? = some e → p.stops e.1 s.lowerBound s.found.length = true) ∧
      ((∀ dist, p.stops dist dist 1 = false) → ∀ w, p.Linked entry w → w ∈ s.visited) ∧
      (Few P p.ef → Explored p s) := by
  obtain ⟨dist, hdist⟩ := hclosed.distance entry hentry
  have hstart := start_beam hp hentry hdist
  have hone : n + (Search.start entry dist).candidates.length <
      fuel + (Search.start entry dist).visited.length := Nat.add_lt_add_right hfuel 1
  obtain ⟨s, hexplore, hbeam, hsub, hlast, hfirst, hall⟩ :=
    explore_spec hp hclosed hfew fuel hstart hone
  refine ⟨s, ?_, hbeam, hsub (List.mem_singleton_self entry), hlast,
    fun hgoes => hfirst (dist, entry) rfl (hgoes dist), fun hwide => hall hwide ?_⟩
  · simp only [Search.run, hdist, ok_bind, hexplore]
    rfl
  · intro v hv
    exact .inl hv

theorem run_found (hp : p.Regular) (hclosed : p.Closed P) {n : ℕ} (hfew : Few P n) {fuel : ℕ}
    (hfuel : n < fuel) {entry : α} (hentry : P entry) :
    ∃ found, p.run fuel entry = .ok found ∧ Found p P found := by
  obtain ⟨s, hrun, hbeam, _⟩ := run_spec hp hclosed hfew hfuel hentry
  exact ⟨s.found, hrun, hbeam.result⟩

/-- A search from a vertex with a link to another one finds two vertices at least. -/
theorem run_two (hp : p.Regular) (hclosed : p.Closed P) {n : ℕ} (hfew : Few P n) {fuel : ℕ}
    (hfuel : n < fuel) {entry : α} (hentry : P entry) (htwo : 2 ≤ p.ef)
    (hgoes : ∀ dist, p.stops dist dist 1 = false) {w : α} (hlinked : p.Linked entry w)
    (hne : w ≠ entry) :
    ∃ found, p.run fuel entry = .ok found ∧ Found p P found ∧ 2 ≤ found.length := by
  obtain ⟨s, hrun, hbeam, hstart, _, hlinks, _⟩ := run_spec hp hclosed hfew hfuel hentry
  refine ⟨s.found, hrun, hbeam.result, ?_⟩
  have hpair : [w, entry] ⊆ s.visited := by
    intro v hv
    rcases List.mem_cons.mp hv with rfl | hv
    · exact hlinks hgoes v hlinked
    · rwa [List.mem_singleton.mp hv]
  have hvisited := (List.subperm_of_subset (by simpa using hne) hpair).length_le
  rw [List.length_cons, List.length_singleton] at hvisited
  rcases hbeam.full_or_all with hfull | hall
  · omega
  · omega

/-- A beam as wide as the graph keeps every vertex that can be reached, when the rule
to stop waits for a vertex outside the bound. -/
theorem run_wide (hp : p.Regular) (hclosed : p.Closed P) {n : ℕ} (hfew : Few P n)
    (hwide : n ≤ p.ef) (hstops : ∀ dist bound k, p.stops dist bound k = true → bound < dist)
    {fuel : ℕ} (hfuel : n < fuel) {entry : α} (hentry : P entry) :
    ∃ found, p.run fuel entry = .ok found ∧ Found p P found ∧
      ∀ v, p.Reaches entry v → v ∈ found.map Prod.snd := by
  obtain ⟨s, hrun, hbeam, hstart, hlast, _, hexplored⟩ := run_spec hp hclosed hfew hfuel hentry
  have hfew' : Few P p.ef := fun l hl hP => (hfew l hl hP).trans hwide
  have hall : s.visited.length ≤ (s.found.map Prod.snd).length := by
    have hlength := hfew' _ hbeam.once hbeam.inside
    rw [List.length_map]
    exact hbeam.full_or_all.elim (fun hfull => hfull ▸ hlength) id
  have hkept : ∀ v ∈ s.visited, v ∈ s.found.map Prod.snd := fun v hv =>
    ((List.subperm_of_subset hbeam.distinct hbeam.found_subset).perm_of_length_le
      hall).symm.subset hv
  have hnone : s.candidates = [] := by
    cases hhead : s.candidates.head? with
    | none => exact List.head?_eq_none_iff.mp hhead
    | some e =>
      obtain ⟨hdist, hvisited⟩ := hbeam.candidate e (List.mem_of_mem_head? hhead)
      obtain ⟨e', he', hnode⟩ := List.mem_map.mp (hkept _ hvisited)
      have hsame := (hbeam.found e' he').1
      rw [hnode, hdist] at hsame
      have hle := hbeam.le_bound he'
      rw [← Except.ok.inj hsame] at hle
      exact absurd hle (not_le.mpr (hstops _ _ _ (hlast e hhead)))
  refine ⟨s.found, hrun, hbeam.result, ?_⟩
  intro v hreach
  apply hkept
  induction hreach with
  | refl => exact hstart
  | @tail v w _ hlinked ih =>
    rcases hexplored hfew' v ih with hwaits | hdone
    · rw [hnone] at hwaits
      cases hwaits
    · exact hdone w hlinked

end Searching

/-! ## Greedy descent -/

/-- Where a descent stands, and whether its last sweep has moved it. -/
structure Walk (α D : Type) where
  curdist : D
  currObj : α
  changed : Bool

namespace Search

variable (p : Search α D ε)

def relax (w : Walk α D) (cand : α) : Except ε (Walk α D) := do
  let d ← p.distance cand
  pure (if d < w.curdist then ⟨d, cand, true⟩ else w)

/-- Sweeps over the links of the vertex that was moved to, until one moves nowhere. -/
def descend : ℕ → D × α → Except ε (D × α)
  | 0, _ => throw p.unfinished
  | n + 1, c => do
    let links ← p.next c.2
    let w ← links.foldlM p.relax ⟨c.1, c.2, false⟩
    if w.changed = true then descend n (w.curdist, w.currObj) else pure (w.curdist, w.currObj)

/-- A vertex of the graph with its distance. -/
def At (P : α → Prop) (c : D × α) : Prop := P c.2 ∧ p.distance c.2 = .ok c.1

end Search

/-- A sweep moves to a nearer vertex, or stays where no link is nearer. -/
theorem foldlM_relax (hclosed : p.Closed P) (links : List α) (hlinks : ∀ v ∈ links, P v)
    {w : Walk α D} (hw : p.At P (w.curdist, w.currObj)) :
    ∃ w', links.foldlM p.relax w = .ok w' ∧ p.At P (w'.curdist, w'.currObj) ∧
      (w' = w ∨ w'.changed = true ∧ w'.curdist < w.curdist) ∧
      ∀ v ∈ links, ∀ d, p.distance v = .ok d → w'.curdist ≤ d := by
  induction links generalizing w with
  | nil => exact ⟨w, rfl, hw, .inl rfl, by simp⟩
  | cons cand links ih =>
    obtain ⟨hcand, hrest⟩ := List.forall_mem_cons.mp hlinks
    obtain ⟨d, hd⟩ := hclosed.distance cand hcand
    have hrelax : p.relax w cand = .ok (if d < w.curdist then ⟨d, cand, true⟩ else w) := by
      rw [Search.relax, hd, ok_bind]
      rfl
    rw [List.foldlM_cons, hrelax, ok_bind]
    by_cases hnearer : d < w.curdist
    · rw [if_pos hnearer]
      obtain ⟨w', hfold, hat, hmoved, hmin⟩ := ih hrest (w := ⟨d, cand, true⟩) ⟨hcand, hd⟩
      have hle : w'.curdist ≤ d := by
        rcases hmoved with rfl | hmoved
        · exact le_rfl
        · exact hmoved.2.le
      have hchanged : w'.changed = true := by
        rcases hmoved with rfl | hmoved
        · rfl
        · exact hmoved.1
      refine ⟨w', hfold, hat, .inr ⟨hchanged, hle.trans_lt hnearer⟩,
        List.forall_mem_cons.mpr ⟨?_, hmin⟩⟩
      intro d' hd'
      rw [hd] at hd'
      rwa [← Except.ok.inj hd']
    · rw [if_neg hnearer]
      obtain ⟨w', hfold, hat, hmoved, hmin⟩ := ih hrest hw
      refine ⟨w', hfold, hat, hmoved, List.forall_mem_cons.mpr ⟨?_, hmin⟩⟩
      intro d' hd'
      rw [hd] at hd'
      rw [← Except.ok.inj hd']
      rcases hmoved with rfl | hmoved
      · exact not_lt.mp hnearer
      · exact hmoved.2.le.trans (not_lt.mp hnearer)

/-- A descent ends at a vertex without a nearer link. The vertices that it has left
are all farther away, so there are enough turns. -/
theorem descend_spec (hclosed : p.Closed P) {n : ℕ} (hfew : Few P n) (fuel : ℕ) {c : D × α}
    (hc : p.At P c) (left : List α) (hleft : left.Nodup)
    (hfarther : ∀ v ∈ left, P v ∧ ∃ d, p.distance v = .ok d ∧ c.1 < d)
    (hfuel : n < fuel + left.length) :
    ∃ c', p.descend fuel c = .ok c' ∧ p.At P c' ∧ c'.1 ≤ c.1 ∧
      ∀ v, p.Linked c'.2 v → ∀ d, p.distance v = .ok d → c'.1 ≤ d := by
  induction fuel generalizing c left with
  | zero =>
    have hlength := hfew left hleft fun v hv => (hfarther v hv).1
    omega
  | succ fuel ih =>
    obtain ⟨links, hnext, hinside⟩ := hclosed.next c.2 hc.1
    obtain ⟨w, hfold, hat, hmoved, hmin⟩ :=
      foldlM_relax hclosed links hinside (w := ⟨c.1, c.2, false⟩) hc
    rw [Search.descend, hnext, ok_bind, hfold, ok_bind]
    rcases hmoved with rfl | ⟨hchanged, hlt⟩
    · refine ⟨c, rfl, hc, le_rfl, ?_⟩
      rintro v ⟨links', hlinks', hv⟩ d hd
      rw [hnext] at hlinks'
      cases hlinks'
      exact hmin v hv d hd
    · rw [if_pos hchanged]
      have hnew : c.2 ∉ left := by
        intro hin
        obtain ⟨_, d, hd, hlt'⟩ := hfarther c.2 hin
        rw [hc.2] at hd
        rw [← Except.ok.inj hd] at hlt'
        exact lt_irrefl _ hlt'
      obtain ⟨c', hrun, hat', hle, hlocal⟩ := ih hat (c.2 :: left)
        (List.nodup_cons.mpr ⟨hnew, hleft⟩)
        (List.forall_mem_cons.mpr ⟨⟨hc.1, c.1, hc.2, hlt⟩, fun v hv => by
          obtain ⟨hP, d, hd, hlt'⟩ := hfarther v hv
          exact ⟨hP, d, hd, hlt.trans hlt'⟩⟩)
        (by rw [List.length_cons]; omega)
      exact ⟨c', hrun, hat', hle.trans hlt.le, hlocal⟩

end Bookstore.BeamSearch
