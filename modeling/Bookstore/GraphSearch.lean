import Bookstore.GraphInsertion

/-!
Runs of insertions, and the search for the nearest elements. As long as no list of the
base layer has to be cut, each new element and its neighbours are linked both ways, so
every element is reached from every other one and a wide beam finds them all.
-/
namespace Bookstore.Hnsw.HierarchicalNSW

open BeamSearch PriorityQueue

variable {V D : Type}

/-! ## Runs of insertions -/

def LinkedTo (h : HierarchicalNSW V) (i j : ℕ) : Prop := j ∈ h.links 0 i

/-- What every run of insertions keeps. No element is without a link but a single one,
and all are within reach until the lists of the base layer are full. -/
structure Sound (h : HierarchicalNSW V) : Prop where
  intact : h.Intact
  rooted : h.Rooted
  outgoing : ∀ id < h.elements.length, h.links 0 id ≠ [] ∨ h.elements.length ≤ 1
  joined : h.elements.length ≤ h.M * 2 + 1 → ∀ i < h.elements.length,
    ∀ j < h.elements.length, Relation.ReflTransGen h.LinkedTo i j

/-- A list of the base layer has room while there are few elements. -/
theorem Intact.base_room {h : HierarchicalNSW V} (hI : h.Intact)
    (hfew : h.elements.length ≤ h.M * 2) {id : ℕ} (hid : id < h.elements.length) :
    (h.links 0 id).length < h.Mcurmax 0 := by
  have hnodup : (id :: h.links 0 id).Nodup :=
    List.nodup_cons.mpr ⟨hI.irrefl 0 id, hI.nodup 0 id⟩
  have hlength := few_of_lt (P := fun j => j < h.elements.length) (fun _ hj => hj) _ hnodup
    (List.forall_mem_cons.mpr ⟨hid, fun j hj => (hI.linked 0 id j hj).lt_length⟩)
  rw [List.length_cons] at hlength
  simp only [Mcurmax, if_true]
  omega

section Adding

variable {data : V} {label curlevel : ℕ} {h h' : HierarchicalNSW V}

theorem Added.length (hadded : Added data label curlevel h h') :
    h'.elements.length = h.elements.length + 1 := by
  have hlength := congrArg List.length hadded.shape
  rwa [List.length_map, List.length_append, List.length_map, List.length_singleton] at hlength

/-- The ids that a new element is linked to are older than itself. -/
theorem Connected.lt {h h' : HierarchicalNSW V} {label curlevel : ℕ}
    (hc : Connected 0 h.elements.length (h.grow data label curlevel) h') {j : ℕ}
    (hj : j ∈ h'.links 0 h.elements.length) : j < h.elements.length := by
  obtain ⟨hlevel, hne⟩ := hc.old j hj
  rcases hasLevel_grow.mp hlevel with hold | hnew
  · exact hold.lt_length
  · exact absurd hnew.1 hne

/-- With room in every list, links are only added. -/
theorem Connected.grown (hI : h.Intact) (hfew : h.elements.length ≤ h.M * 2)
    (hc : Connected 0 h.elements.length (h.grow data label curlevel) h') {i : ℕ}
    (hi : i < h.elements.length) :
    h'.links 0 i = h.links 0 i ∨ i ∈ h'.links 0 h.elements.length ∧
      h'.links 0 i = h.links 0 i ++ [h.elements.length] := by
  by_cases hin : i ∈ h'.links 0 h.elements.length
  · right
    have happend := (hc.back i hin).append
    rw [links_grow] at happend
    exact ⟨hin, happend (hI.base_room hfew hi)⟩
  · left
    rw [hc.others i (by omega) hin, links_grow]

theorem joined_added (hS : h.Sound) (hfew : h.elements.length ≤ h.M * 2)
    (hc : Connected 0 h.elements.length (h.grow data label curlevel) h') :
    ∀ i ≤ h.elements.length, ∀ j ≤ h.elements.length,
      Relation.ReflTransGen h'.LinkedTo i j := by
  have hmono : ∀ i < h.elements.length, ∀ j < h.elements.length,
      Relation.ReflTransGen h'.LinkedTo i j := by
    intro i hi j hj
    have hpath := hS.joined (by omega) i hi j hj
    clear hj
    induction hpath with
    | refl => exact .refl
    | @tail b c hb hlinked ih =>
      refine ih.tail ?_
      have hlt : b < h.elements.length := by
        rcases Relation.ReflTransGen.cases_tail hb with rfl | ⟨a, _, hab⟩
        · exact hi
        · exact (hS.intact.linked 0 a b hab).lt_length
      rcases hc.grown hS.intact hfew hlt with hsame | ⟨_, happend⟩
      · rw [LinkedTo, hsame]
        exact hlinked
      · rw [LinkedTo, happend]
        exact List.mem_append_left _ hlinked
  obtain ⟨s, hs⟩ := List.exists_mem_of_ne_nil _ hc.nonempty
  have hslt := hc.lt hs
  have hback : h'.LinkedTo s h.elements.length := by
    have happend := (hc.back s hs).append
    rw [links_grow] at happend
    rw [LinkedTo, happend (hS.intact.base_room hfew hslt)]
    exact List.mem_append_right _ (List.mem_singleton_self _)
  intro i hi j hj
  have hfrom : Relation.ReflTransGen h'.LinkedTo i s := by
    rcases Nat.lt_or_eq_of_le hi with hlt | rfl
    · exact hmono i hlt s hslt
    · exact .single hs
  have hto : Relation.ReflTransGen h'.LinkedTo s j := by
    rcases Nat.lt_or_eq_of_le hj with hlt | rfl
    · exact hmono s hslt j hlt
    · exact .single hback
  exact hfrom.trans hto

theorem Sound.added (hS : h.Sound) (hadded : Added data label curlevel h h') : h'.Sound := by
  have hlength := hadded.length
  refine ⟨hadded.intact, hadded.rooted, ?_, ?_⟩
  · intro id hid
    by_cases hempty : h.elements = []
    · right
      rw [hlength, hempty, List.length_nil]
    · left
      have hc := hadded.connected hempty
      by_cases hnew : id = h.elements.length
      · rw [hnew]
        exact hc.nonempty
      · by_cases hin : id ∈ h'.links 0 h.elements.length
        · exact (hc.back id hin).nonempty
        · rw [hc.others id hnew hin, links_grow]
          rcases hS.outgoing id (by omega) with hold | hone
          · exact hold
          · obtain ⟨s, hs⟩ := List.exists_mem_of_ne_nil _ hc.nonempty
            have hslt := hc.lt hs
            have hsame : s = id := by omega
            exact absurd (hsame ▸ hs) hin
  · intro hfew i hi j hj
    rw [hadded.degree] at hfew
    by_cases hempty : h.elements = []
    · rw [hlength, hempty, List.length_nil] at hi hj
      have hzero : i = 0 := by omega
      have hzero' : j = 0 := by omega
      rw [hzero, hzero']
    · exact joined_added hS (by omega) (hadded.connected hempty) i (by omega) j (by omega)

end Adding

structure Point (V : Type) where
  data : V
  label : ℕ
  level : ℕ

section Runs

variable [LinearOrder D] (fstdistfunc : V → V → D)

/-- Points that are added one after the other, with the levels drawn for them. -/
def addPoints (h : HierarchicalNSW V) (points : List (Point V)) :
    Except Failure (HierarchicalNSW V) :=
  points.foldlM (fun h p => h.addPoint fstdistfunc p.data p.label p.level) h

theorem create_sound (maxElements : ℕ) {M : ℕ} (hM : 2 ≤ M) (efConstruction : ℕ) :
    (create maxElements M efConstruction : HierarchicalNSW V).Sound where
  intact := {
    degree := by
      change 2 ≤ min M 10000
      omega
    beam := Nat.le_max_right _ _
    fits := Nat.zero_le _
    based id hid := absurd hid (Nat.not_lt_zero id)
    nodup _ _ := .nil
    irrefl _ _ hin := by cases hin
    linked _ _ _ hin := by cases hin
    room _ _ := Nat.zero_le _ }
  rooted := {
    empty _ := rfl
    node _ h := by cases h
    top _ h := by cases h }
  outgoing id hid := absurd hid (Nat.not_lt_zero id)
  joined _ i hi := absurd hi (Nat.not_lt_zero i)

/-- The width of the searches is of no matter to the links. -/
theorem Sound.withEf {h : HierarchicalNSW V} (hS : h.Sound) (ef : ℕ) : (setEf ef h).Sound where
  intact := ⟨hS.intact.degree, hS.intact.beam, hS.intact.fits, hS.intact.based, hS.intact.nodup,
    hS.intact.irrefl, hS.intact.linked, hS.intact.room⟩
  rooted := ⟨hS.rooted.empty, hS.rooted.node, hS.rooted.top⟩
  outgoing := hS.outgoing
  joined := hS.joined

theorem addPoints_spec {h : HierarchicalNSW V} (hS : h.Sound) (points : List (Point V))
    (hlabels : (points.map Point.label).Nodup)
    (hnew : ∀ p ∈ points, ∀ e ∈ h.elements, e.label ≠ p.label)
    (hroom : h.elements.length + points.length ≤ h.maxElements) :
    ∃ h', h.addPoints fstdistfunc points = .ok h' ∧ h'.Sound ∧ h'.maxElements = h.maxElements ∧
      h'.M = h.M ∧ h'.ef = h.ef ∧ h'.elements.map (fun e => (e.label, e.data, e.links.length)) =
        h.elements.map (fun e => (e.label, e.data, e.links.length)) ++
          points.map fun p => (p.label, p.data, p.level + 1) := by
  induction points generalizing h with
  | nil => exact ⟨h, rfl, hS, rfl, rfl, rfl, by simp⟩
  | cons p points ih =>
    rw [List.length_cons] at hroom
    rw [List.map_cons, List.nodup_cons] at hlabels
    obtain ⟨hfirst, hothers⟩ := List.forall_mem_cons.mp hnew
    obtain ⟨t, hrun, hadded⟩ := addPoint_spec fstdistfunc hS.intact hS.rooted
      (by omega) p.data hfirst p.level
    have hnew' : ∀ q ∈ points, ∀ e ∈ t.elements, e.label ≠ q.label := by
      intro q hq e he
      rcases hadded.label_mem he with ⟨old, hold, hsame⟩ | hsame
      · rw [hsame]
        exact hothers q hq old hold
      · rw [hsame]
        exact fun heq => hlabels.1 (List.mem_map.mpr ⟨q, hq, heq.symm⟩)
    obtain ⟨h', hrest, hS', hmax, hM, hef, hshape⟩ := ih (hS.added hadded) hlabels.2 hnew'
      (by rw [hadded.length, hadded.maxElements]; omega)
    refine ⟨h', ?_, hS', hmax.trans hadded.maxElements, hM.trans hadded.degree,
      hef.trans hadded.ef, ?_⟩
    · rw [addPoints, List.foldlM_cons, hrun, ok_bind]
      exact hrest
    · rw [hshape, hadded.shape, List.append_assoc]
      rfl

end Runs

/-! ## Searches -/

section Searches

variable [LinearOrder D] (fstdistfunc : V → V → D) {h : HierarchicalNSW V}

/-- The elements with these ids, with their distances from the query. -/
structure Neighbors (fstdistfunc : V → V → D) (h : HierarchicalNSW V) (data : V) (k : ℕ)
    (ids : List ℕ) (result : List (D × ℕ)) : Prop where
  heap : IsHeap byLabel result
  distinct : ids.Nodup
  size : ids.length ≤ k
  range : ∀ id ∈ ids, id < h.elements.length
  entries : (result.map some).Perm (ids.map fun id =>
    h.elements[id]?.map fun e => (fstdistfunc data e.data, e.label))

/-- No element that is left out is nearer than one of these. -/
def Nearest (fstdistfunc : V → V → D) (h : HierarchicalNSW V) (data : V) (ids : List ℕ) : Prop :=
  ∀ id ∈ ids, ∀ out, out ∉ ids → ∀ e e', h.elements[id]? = some e →
    h.elements[out]? = some e' → fstdistfunc data e.data ≤ fstdistfunc data e'.data

omit [LinearOrder D] in
theorem mapM_labels (data : V) (found : List (D × ℕ)) (hfound : ∀ e ∈ found,
    e.2 < h.elements.length ∧ h.distanceTo fstdistfunc data e.2 = .ok e.1) :
    ∃ results : List (D × ℕ), (found.mapM fun rez => do
        let e ← h.element rez.2
        pure (rez.1, e.label)) = Except.ok results ∧
      results.map some = (found.map Prod.snd).map fun id =>
        h.elements[id]?.map fun e => (fstdistfunc data e.data, e.label) := by
  induction found with
  | nil => exact ⟨[], rfl, rfl⟩
  | cons rez found ih =>
    obtain ⟨⟨hlt, hdist⟩, hrest⟩ := List.forall_mem_cons.mp hfound
    obtain ⟨results, hrun, hresults⟩ := ih hrest
    rw [distanceTo_ok fstdistfunc hlt] at hdist
    have hget : h.elements[rez.2]? = some h.elements[rez.2] := List.getElem?_eq_getElem hlt
    refine ⟨(rez.1, h.elements[rez.2].label) :: results, ?_, ?_⟩
    · rw [List.mapM_cons, element_ok hlt, ok_bind, pure_bind, hrun]
      rfl
    · rw [List.map_cons, List.map_cons, List.map_cons, hresults, hget, Option.map_some,
        Except.ok.inj hdist]

theorem baseLayerST_closed (hI : h.Intact) (data : V) (ef : ℕ) :
    (h.baseLayerST fstdistfunc data ef).Closed (h.Seen (fun _ => True) 0) where
  distance _ hid := ⟨_, distanceTo_ok fstdistfunc hid.1.lt_length data⟩
  next := linklist_seen hI fun _ _ _ => trivial

theorem baseLayerST_regular (h : HierarchicalNSW V) (data : V) {ef : ℕ} (hef : 1 ≤ ef) :
    (h.baseLayerST fstdistfunc data ef).Regular where
  room := hef
  trim _ _ := rfl

/-- The descent comes to some element. -/
theorem descend_to_base (hS : h.Sound) (data : V) {entry : Entry} (hentry : h.entry = some entry) :
    ∃ curdist c, h.distanceTo fstdistfunc data entry.node = .ok curdist ∧
      h.descendLevels fstdistfunc data 0 entry.level (curdist, entry.node) = .ok c ∧
      h.Seen (fun _ => True) 0 c.2 := by
  have hnode := hS.rooted.node entry hentry
  have hdist := distanceTo_ok fstdistfunc hnode.lt_length data
  obtain ⟨c, hrun, hseen⟩ := descendLevels_spec fstdistfunc hS.intact data
    (Q := fun _ => True) (fun _ _ _ _ => trivial) 0 entry.level (c := (_, entry.node))
    ⟨by rwa [Nat.zero_add], trivial⟩ hdist
  exact ⟨_, c, hdist, hrun, hseen⟩

/-- What is left of a queue of found elements when it is cut to `k`. -/
theorem result_of_found {data : V} {ef k : ℕ} {top : List (D × ℕ)}
    (hfound : Found (h.baseLayerST fstdistfunc data ef) (h.Seen (fun _ => True) 0) top) :
    ∃ popped results, Shrunk Prod.fst k top popped (shrink Prod.fst k top) ∧
      ((drain Prod.fst (shrink Prod.fst k top)).mapM fun rez => do
        let e ← h.element rez.2
        pure (rez.1, e.label)) = Except.ok results ∧
      Neighbors fstdistfunc h data k ((drain Prod.fst (shrink Prod.fst k top)).map Prod.snd)
        (ofList byLabel results) := by
  obtain ⟨popped, hcut⟩ := shrunk hfound.heap k
  have hdrain : (drain Prod.fst (shrink Prod.fst k top)).Perm (shrink Prod.fst k top) :=
    drain_perm _
  have hmem : ∀ e ∈ drain Prod.fst (shrink Prod.fst k top), e ∈ top := fun e he =>
    hcut.perm.symm.subset (List.mem_append_right popped (hdrain.subset he))
  obtain ⟨results, hrun, hresults⟩ := mapM_labels fstdistfunc data
    (drain Prod.fst (shrink Prod.fst k top)) fun e he =>
      ⟨(hfound.inside e (hmem e he)).1.1.lt_length, (hfound.inside e (hmem e he)).2⟩
  refine ⟨popped, results, hcut, hrun, ofList_isHeap results, ?_, ?_, ?_, ?_⟩
  · have hnodup := hfound.distinct
    rw [(hcut.perm.map Prod.snd).nodup_iff, List.map_append] at hnodup
    exact (hdrain.map Prod.snd).nodup_iff.mpr hnodup.of_append_right
  · rw [List.length_map, hdrain.length_eq, hcut.length]
    exact Nat.min_le_left _ _
  · intro id hid
    obtain ⟨e, he, rfl⟩ := List.mem_map.mp hid
    exact (hfound.inside e (hmem e he)).1.1.lt_length
  · rw [← hresults]
    exact (ofList_perm results).map some

/-- A search returns elements of the index with their distances, each of them once. It
finds a second one when there is one. -/
theorem searchKnn_spec (hS : h.Sound) (data : V) {k : ℕ} (hk : 1 ≤ k) :
    ∃ ids result, h.searchKnn fstdistfunc data k = .ok result ∧
      Neighbors fstdistfunc h data k ids result ∧
      min 2 (min k h.elements.length) ≤ ids.length := by
  rw [searchKnn]
  cases hentry : h.entry with
  | none =>
    refine ⟨[], [], rfl, ⟨isHeap_nil, .nil, Nat.zero_le k, by simp, .refl _⟩, ?_⟩
    rw [hS.rooted.empty hentry, List.length_nil]
    omega
  | some entry =>
    obtain ⟨curdist, c, hdist, hdescend, hseen⟩ := descend_to_base fstdistfunc
      hS data hentry
    have hclosed := baseLayerST_closed fstdistfunc hS.intact data (max h.ef k)
    have hregular := baseLayerST_regular fstdistfunc h data
      (hk.trans (Nat.le_max_right h.ef k))
    have hfew := few_seen h (fun _ => True) 0
    obtain ⟨top, hsearch, hfound, htwo⟩ : ∃ top,
        h.searchBaseLayerST fstdistfunc c.2 data (max h.ef k) = .ok top ∧
        Found (h.baseLayerST fstdistfunc data (max h.ef k)) (h.Seen (fun _ => True) 0) top ∧
        (2 ≤ k → 2 ≤ h.elements.length → 2 ≤ top.length) := by
      by_cases hmany : 2 ≤ k ∧ 2 ≤ h.elements.length
      · have hlt := hseen.1.lt_length
        obtain ⟨j, hj⟩ := List.exists_mem_of_ne_nil _
          ((hS.outgoing c.2 hlt).resolve_right (by omega))
        have hne : j ≠ c.2 := by
          rintro rfl
          exact hS.intact.irrefl 0 c.2 hj
        obtain ⟨top, hrun, hfound, hlength⟩ := run_two hregular hclosed hfew
          (Nat.lt_succ_self _) hseen (hmany.1.trans (Nat.le_max_right h.ef k))
          (fun dist => decide_eq_false (lt_irrefl dist)) ⟨_, getLinklist_ok hseen.1, hj⟩ hne
        exact ⟨top, hrun, hfound, fun _ _ => hlength⟩
      · obtain ⟨top, hrun, hfound⟩ := run_found hregular hclosed hfew (Nat.lt_succ_self _) hseen
        exact ⟨top, hrun, hfound, fun h₁ h₂ => absurd ⟨h₁, h₂⟩ hmany⟩
    obtain ⟨popped, results, hcut, hmap, hneighbors⟩ := result_of_found fstdistfunc (k := k) hfound
    refine ⟨_, ofList byLabel results, ?_, hneighbors, ?_⟩
    · dsimp only
      rw [hdist, ok_bind, hdescend, ok_bind, hsearch, ok_bind, hmap, ok_bind]
      rfl
    · have hpos := List.length_pos_of_ne_nil hfound.nonempty
      rw [List.length_map, (drain_perm _).length_eq, hcut.length]
      by_cases hmany : 2 ≤ k ∧ 2 ≤ h.elements.length
      · have hlength := htwo hmany.1 hmany.2
        omega
      · omega

/-- While the base layer has not been cut and the beam is wide enough, the search is
exact. -/
theorem searchKnn_exact (hS : h.Sound) (hfew : h.elements.length ≤ h.M * 2 + 1) (data : V)
    {k : ℕ} (hk : 1 ≤ k) (hwide : h.elements.length ≤ max h.ef k) :
    ∃ ids result, h.searchKnn fstdistfunc data k = .ok result ∧
      Neighbors fstdistfunc h data k ids result ∧ ids.length = min k h.elements.length ∧
      Nearest fstdistfunc h data ids := by
  rw [searchKnn]
  cases hentry : h.entry with
  | none =>
    have hempty := hS.rooted.empty hentry
    refine ⟨[], [], rfl, ⟨isHeap_nil, .nil, Nat.zero_le k, by simp, .refl _⟩, ?_, ?_⟩
    · rw [hempty]
      simp
    · intro id hid
      cases hid
  | some entry =>
    obtain ⟨curdist, c, hdist, hdescend, hseen⟩ := descend_to_base fstdistfunc
      hS data hentry
    have hclosed := baseLayerST_closed fstdistfunc hS.intact data (max h.ef k)
    have hregular := baseLayerST_regular fstdistfunc h data
      (hk.trans (Nat.le_max_right h.ef k))
    obtain ⟨top, hsearch, hfound, hreach⟩ := run_wide hregular hclosed
      (few_seen h (fun _ => True) 0) hwide
      (fun dist bound _ hstop => of_decide_eq_true hstop) (Nat.lt_succ_self _) hseen
    have hall : ∀ id < h.elements.length, id ∈ top.map Prod.snd := by
      intro id hid
      apply hreach
      have hpath := hS.joined hfew c.2 hseen.1.lt_length id hid
      clear hid
      induction hpath with
      | refl => exact .refl
      | @tail b d hb hlinked ih =>
        refine ih.tail ⟨_, getLinklist_ok (hS.intact.based b ?_), hlinked⟩
        rcases Relation.ReflTransGen.cases_tail hb with rfl | ⟨a, _, hab⟩
        · exact hseen.1.lt_length
        · exact (hS.intact.linked 0 a b hab).lt_length
    obtain ⟨popped, results, hcut, hmap, hneighbors⟩ := result_of_found fstdistfunc (k := k) hfound
    refine ⟨_, ofList byLabel results, ?_, hneighbors, ?_, ?_⟩
    · have hbase : h.searchBaseLayerST fstdistfunc c.2 data (max h.ef k) = .ok top := hsearch
      dsimp only
      rw [hdist, ok_bind, hdescend, ok_bind, hbase, ok_bind, hmap, ok_bind]
      rfl
    · have hlower := (List.subperm_of_subset List.nodup_range
        (fun id hid => hall id (List.mem_range.mp hid))).length_le
      have hupper := few_seen h (fun _ => True) 0 _ hfound.distinct fun id hid => by
        obtain ⟨e, he, rfl⟩ := List.mem_map.mp hid
        exact (hfound.inside e he).1
      rw [List.length_range, List.length_map] at hlower
      rw [List.length_map] at hupper
      rw [List.length_map, (drain_perm _).length_eq, hcut.length, Nat.le_antisymm hlower hupper]
    · intro id hid out hout e e' he he'
      obtain ⟨x, hx, rfl⟩ := List.mem_map.mp hid
      have hkept := mem_drain.mp hx
      obtain ⟨y, hy, hyout⟩ := List.mem_map.mp
        (hall out (List.getElem?_eq_some_iff.mp he').1)
      have hpopped : y ∈ popped := by
        rcases List.mem_append.mp (hcut.perm.subset hy) with hp | hk'
        · exact hp
        · exact absurd (List.mem_map.mpr ⟨y, mem_drain.mpr hk', hyout⟩) hout
      have hle := hcut.larger y hpopped x hkept
      have hx' := (hfound.inside x (hcut.perm.symm.subset (List.mem_append_right popped hkept))).2
      have hy' := (hfound.inside y hy).2
      rw [hyout] at hy'
      have hdistx : h.distanceTo fstdistfunc data x.2 = .ok x.1 := hx'
      have hdisty : h.distanceTo fstdistfunc data out = .ok y.1 := hy'
      simp only [distanceTo, element, he, he', pure_bind] at hdistx hdisty
      rw [Except.ok.inj hdistx, Except.ok.inj hdisty]
      exact hle

end Searches

/-! ## From an empty index -/

section Built

variable [LinearOrder D] (fstdistfunc : V → V → D)

/-- Any points of different labels that fit are added without a failure, whatever their
levels, and the index that they make has its links in order. -/
theorem insertions_keep_integrity {maxElements M : ℕ} (hM : 2 ≤ M) (efConstruction : ℕ)
    (points : List (Point V)) (hlabels : (points.map Point.label).Nodup)
    (hroom : points.length ≤ maxElements) :
    ∃ h, (create maxElements M efConstruction).addPoints fstdistfunc points = .ok h ∧
      h.Intact ∧ h.Rooted ∧
      (∀ id < points.length, h.links 0 id ≠ [] ∨ points.length ≤ 1) ∧
      h.elements.map (fun e => (e.label, e.data, e.links.length)) =
        points.map fun p => (p.label, p.data, p.level + 1) := by
  obtain ⟨h, hrun, hS, _, _, _, hshape⟩ := addPoints_spec fstdistfunc
    (create_sound maxElements hM efConstruction) points hlabels (by simp [create])
    (by rw [create, List.length_nil, Nat.zero_add]; exact hroom)
  rw [create, List.map_nil, List.nil_append] at hshape
  have hlength := congrArg List.length hshape
  rw [List.length_map, List.length_map] at hlength
  exact ⟨h, hrun, hS.intact, hS.rooted, hlength ▸ hS.outgoing, hshape⟩

/-- The elements hold these points, in this order. -/
def Stores (h : HierarchicalNSW V) (points : List (Point V)) : Prop :=
  ∀ id : ℕ, (h.elements[id]?).map (fun e : Element V => (e.label, e.data)) =
    (points[id]?).map fun p : Point V => (p.label, p.data)

/-- Some of the points with their distances from the query, each of them once. -/
structure Hits (points : List (Point V)) (data : V) (k : ℕ) (ids : List ℕ)
    (result : List (D × ℕ)) : Prop where
  heap : IsHeap byLabel result
  distinct : ids.Nodup
  size : ids.length ≤ k
  entries : (result.map some).Perm (ids.map fun id =>
    (points[id]?).map fun p : Point V => (fstdistfunc data p.data, p.label))

theorem built_spec {maxElements M : ℕ} (hM : 2 ≤ M) (efConstruction ef : ℕ)
    (points : List (Point V)) (hlabels : (points.map Point.label).Nodup)
    (hroom : points.length ≤ maxElements) :
    ∃ h, (setEf ef (create maxElements M efConstruction)).addPoints fstdistfunc points = .ok h ∧
      h.Sound ∧ h.maxElements = maxElements ∧ h.M = min M 10000 ∧ h.ef = ef ∧
      h.elements.length = points.length ∧ h.Stores points := by
  obtain ⟨h, hrun, hS, hmax, hM', hef, hshape⟩ := addPoints_spec fstdistfunc
    ((create_sound maxElements hM efConstruction).withEf ef) points hlabels
    (by simp [create, setEf]) (by rw [setEf, create, List.length_nil, Nat.zero_add]; exact hroom)
  rw [setEf, create, List.map_nil, List.nil_append] at hshape
  refine ⟨h, hrun, hS, hmax, hM', hef, by simpa using congrArg List.length hshape, fun id => ?_⟩
  have hget := congrArg (fun l : List (ℕ × V × ℕ) => (l[id]?).map fun t => (t.1, t.2.1)) hshape
  simp only [List.getElem?_map, Option.map_map] at hget
  exact hget

omit [LinearOrder D] in
theorem Stores.entry {h : HierarchicalNSW V} {points : List (Point V)} (hstores : h.Stores points)
    (data : V) (id : ℕ) :
    (h.elements[id]?).map (fun e : Element V => (fstdistfunc data e.data, e.label)) =
      (points[id]?).map fun p : Point V => (fstdistfunc data p.data, p.label) := by
  have hmap := congrArg (Option.map fun t : ℕ × V => (fstdistfunc data t.2, t.1)) (hstores id)
  rwa [Option.map_map, Option.map_map] at hmap

theorem Neighbors.hits {h : HierarchicalNSW V} {points : List (Point V)} {data : V} {k : ℕ}
    {ids : List ℕ} {result : List (D × ℕ)} (hnear : Neighbors fstdistfunc h data k ids result)
    (hstores : h.Stores points) : Hits fstdistfunc points data k ids result := by
  refine ⟨hnear.heap, hnear.distinct, hnear.size, ?_⟩
  have hentries := hnear.entries
  rwa [List.map_congr_left fun id _ => hstores.entry fstdistfunc data id] at hentries

/-- Whatever was added, a search finds points with their own distances and labels, and two
of them at least when there are two to be found. -/
theorem search_finds_points {maxElements M : ℕ} (hM : 2 ≤ M) (efConstruction ef : ℕ)
    (points : List (Point V)) (hlabels : (points.map Point.label).Nodup)
    (hroom : points.length ≤ maxElements) (data : V) {k : ℕ} (hk : 1 ≤ k) :
    ∃ h ids result,
      (setEf ef (create maxElements M efConstruction)).addPoints fstdistfunc points = .ok h ∧
      h.searchKnn fstdistfunc data k = .ok result ∧ Hits fstdistfunc points data k ids result ∧
      min 2 (min k points.length) ≤ ids.length := by
  obtain ⟨h, hrun, hS, _, _, _, hlength, hstores⟩ := built_spec fstdistfunc hM efConstruction ef
    points hlabels hroom
  obtain ⟨ids, result, hsearch, hnear, htwo⟩ := searchKnn_spec fstdistfunc hS data hk
  exact ⟨h, ids, result, hrun, hsearch, hnear.hits fstdistfunc hstores, hlength ▸ htwo⟩

/-- With no more points than one list of the base layer and its owner, and a beam as wide,
a search finds the nearest ones. -/
theorem search_finds_nearest {maxElements M : ℕ} (hM : 2 ≤ M) (efConstruction ef : ℕ)
    (points : List (Point V)) (hlabels : (points.map Point.label).Nodup)
    (hroom : points.length ≤ maxElements) (hfew : points.length ≤ min M 10000 * 2 + 1)
    (data : V) {k : ℕ} (hk : 1 ≤ k) (hwide : points.length ≤ max ef k) :
    ∃ h ids result,
      (setEf ef (create maxElements M efConstruction)).addPoints fstdistfunc points = .ok h ∧
      h.searchKnn fstdistfunc data k = .ok result ∧ Hits fstdistfunc points data k ids result ∧
      ids.length = min k points.length ∧
      ∀ id ∈ ids, ∀ out, out ∉ ids → ∀ p p', points[id]? = some p → points[out]? = some p' →
        fstdistfunc data p.data ≤ fstdistfunc data p'.data := by
  obtain ⟨h, hrun, hS, _, hM', hef, hlength, hstores⟩ := built_spec fstdistfunc hM efConstruction ef
    points hlabels hroom
  obtain ⟨ids, result, hsearch, hnear, hcount, hnearest⟩ := searchKnn_exact fstdistfunc hS
    (by rw [hlength, hM']; exact hfew) data hk (by rw [hlength, hef]; exact hwide)
  refine ⟨h, ids, result, hrun, hsearch, hnear.hits fstdistfunc hstores, hlength ▸ hcount, ?_⟩
  intro id hid out hout p p' hp hp'
  have hget := hstores.entry fstdistfunc data id
  have hget' := hstores.entry fstdistfunc data out
  rw [hp, Option.map_some] at hget
  rw [hp', Option.map_some] at hget'
  obtain ⟨e, he, hsame⟩ := Option.map_eq_some_iff.mp hget
  obtain ⟨e', he', hsame'⟩ := Option.map_eq_some_iff.mp hget'
  have hle := hnearest id hid out hout e e' he he'
  rwa [(Prod.mk.inj hsame).1, (Prod.mk.inj hsame').1] at hle

/-- Three points on a line. -/
def threePoints : List (Point ℤ) := [⟨4, 10, 0⟩, ⟨9, 11, 1⟩, ⟨-7, 12, 0⟩]

theorem threePoints_keep_integrity :
    ∃ h, (create 3 16 200).addPoints (fun x y : ℤ => (x - y) * (x - y)) threePoints = .ok h ∧
      h.Intact ∧ h.Rooted ∧
      (∀ id < threePoints.length, h.links 0 id ≠ [] ∨ threePoints.length ≤ 1) ∧
      h.elements.map (fun e => (e.label, e.data, e.links.length)) =
        threePoints.map fun p => (p.label, p.data, p.level + 1) :=
  insertions_keep_integrity _ (by decide) 200 threePoints (by decide) (by decide)

theorem threePoints_found : ∃ h ids result,
    (setEf 50 (create 3 16 200)).addPoints (fun x y : ℤ => (x - y) * (x - y)) threePoints =
      .ok h ∧
    h.searchKnn (fun x y => (x - y) * (x - y)) 0 2 = .ok result ∧
    Hits (fun x y => (x - y) * (x - y)) threePoints 0 2 ids result ∧
    min 2 (min 2 threePoints.length) ≤ ids.length :=
  search_finds_points _ (by decide) 200 50 threePoints (by decide) (by decide) 0 (by decide)

theorem threePoints_nearest : ∃ h ids result,
    (setEf 50 (create 3 16 200)).addPoints (fun x y : ℤ => (x - y) * (x - y)) threePoints =
      .ok h ∧
    h.searchKnn (fun x y => (x - y) * (x - y)) 0 2 = .ok result ∧
    Hits (fun x y => (x - y) * (x - y)) threePoints 0 2 ids result ∧
    ids.length = min 2 threePoints.length ∧
    ∀ id ∈ ids, ∀ out, out ∉ ids → ∀ p p', threePoints[id]? = some p →
      threePoints[out]? = some p' → (0 - p.data) * (0 - p.data) ≤ (0 - p'.data) * (0 - p'.data) :=
  search_finds_nearest _ (by decide) 200 50 threePoints (by decide) (by decide) (by decide) 0
    (by decide) (by decide)

end Built

end Bookstore.Hnsw.HierarchicalNSW
