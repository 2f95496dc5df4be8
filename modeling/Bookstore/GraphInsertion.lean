import Bookstore.GraphIntegrity

/-!
`addPoint` from the descent over the upper levels to the links on the base layer. A
new element is met by no search before it is linked, since nothing points to it yet.
-/
namespace Bookstore.Hnsw.HierarchicalNSW

open BeamSearch PriorityQueue

variable {V D : Type}

theorem few_of_lt {P : ℕ → Prop} {n : ℕ} (hP : ∀ id, P id → id < n) : Few P n := by
  intro l hl hall
  have hsub : l ⊆ List.range n := fun id hid => List.mem_range.mpr (hP id (hall id hid))
  have hlength := (List.subperm_of_subset hl hsub).length_le
  rwa [List.length_range] at hlength

/-- The elements that a search on a level can meet. -/
def Seen (h : HierarchicalNSW V) (Q : ℕ → Prop) (level id : ℕ) : Prop := h.HasLevel level id ∧ Q id

theorem few_seen (h : HierarchicalNSW V) (Q : ℕ → Prop) (level : ℕ) :
    Few (h.Seen Q level) h.elements.length :=
  few_of_lt fun _ hid => hid.1.lt_length

variable [LinearOrder D] (fstdistfunc : V → V → D) {h : HierarchicalNSW V} {Q : ℕ → Prop}

/-! ## The searches -/

section Searches

variable (hI : h.Intact) (data : V)

include hI

theorem linklist_seen {level : ℕ} (hQ : ∀ id, ∀ j ∈ h.links level id, Q j) (id : ℕ)
    (hid : h.Seen Q level id) :
    ∃ links, h.getLinklist level id = .ok links ∧ ∀ j ∈ links, h.Seen Q level j :=
  ⟨h.links level id, getLinklist_ok hid.1, fun j hj => ⟨hI.linked level id j hj, hQ id j hj⟩⟩

theorem baseLayer_closed {level : ℕ} (hQ : ∀ id, ∀ j ∈ h.links level id, Q j) :
    (h.baseLayer fstdistfunc data level).Closed (h.Seen Q level) where
  distance _ hid := ⟨_, distanceTo_ok fstdistfunc hid.1.lt_length data⟩
  next := linklist_seen hI hQ

theorem baseLayer_regular (level : ℕ) : (h.baseLayer fstdistfunc data level).Regular where
  room := (Nat.le_of_succ_le hI.degree).trans hI.beam
  trim q hq := by
    change popExtra h.efConstruction q = shrink Prod.fst h.efConstruction q
    have hlength : q.length ≤ h.efConstruction + 1 := hq
    rw [popExtra]
    split
    · exact (shrink_succ (by omega)).symm
    · exact (shrink_of_le (by omega)).symm

theorem searchBaseLayer_spec {level ep : ℕ} (hQ : ∀ id, ∀ j ∈ h.links level id, Q j)
    (hep : h.Seen Q level ep) :
    ∃ found, h.searchBaseLayer fstdistfunc ep data level = .ok found ∧
      Found (h.baseLayer fstdistfunc data level) (h.Seen Q level) found :=
  run_found (baseLayer_regular fstdistfunc hI data level) (baseLayer_closed fstdistfunc hI data hQ)
    (few_seen h Q level) (Nat.lt_succ_self _) hep

omit [LinearOrder D] in
theorem upperLayer_closed (level : ℕ) (hQ : ∀ id, ∀ j ∈ h.links level id, Q j) :
    (h.upperLayer fstdistfunc data level).Closed (h.Seen Q level) where
  distance id hid := by
    have hlt := hid.1.lt_length
    have hfits := hI.fits
    refine ⟨fstdistfunc data h.elements[id].data, ?_⟩
    change (if h.maxElements < id then _ else _) = _
    rw [if_neg (by omega)]
    exact distanceTo_ok fstdistfunc hlt data
  next := linklist_seen hI hQ

/-- Level after level the descent comes to an element of the level below. -/
theorem descendLevels_spec (hQ : ∀ level id, ∀ j ∈ h.links level id, Q j) (bottom n : ℕ)
    {c : D × ℕ} (hc : h.Seen Q (bottom + n) c.2) (hdist : h.distanceTo fstdistfunc data c.2 = .ok c.1) :
    ∃ c', h.descendLevels fstdistfunc data bottom n c = .ok c' ∧ h.Seen Q bottom c'.2 := by
  induction n generalizing c with
  | zero => exact ⟨c, rfl, hc⟩
  | succ n ih =>
    have hclosed := upperLayer_closed fstdistfunc hI data (bottom + (n + 1))
      (hQ (bottom + (n + 1)))
    have hat : (h.upperLayer fstdistfunc data (bottom + (n + 1))).At
        (h.Seen Q (bottom + (n + 1))) c := by
      refine ⟨hc, ?_⟩
      change (if h.maxElements < c.2 then _ else _) = _
      have hlt := hc.1.lt_length
      have hfits := hI.fits
      rwa [if_neg (by omega)]
    obtain ⟨c', hrun, hat', _⟩ := descend_spec hclosed (few_seen h Q (bottom + (n + 1)))
      (h.elements.length + 1) hat [] .nil (by simp) (by simp)
    obtain ⟨hseen, hdist'⟩ := hat'
    have hdist'' : h.distanceTo fstdistfunc data c'.2 = .ok c'.1 := by
      change (if h.maxElements < c'.2 then _ else _) = _ at hdist'
      have hlt := hseen.1.lt_length
      have hfits := hI.fits
      rwa [if_neg (by omega)] at hdist'
    obtain ⟨c'', hrest, hlast⟩ := ih ⟨hseen.1.of_le (by omega), hseen.2⟩ hdist''
    exact ⟨c'', by rw [descendLevels, hrun, ok_bind, hrest], hlast⟩

end Searches

/-! ## A new element -/

/-- Nothing points to a new element on the levels that are still to come. -/
def Blank (h : HierarchicalNSW V) (curC level : ℕ) : Prop :=
  ∀ low ≤ level, h.links low curC = [] ∧ ∀ id, curC ∉ h.links low id

theorem connectLevel_spec (hI : h.Intact) (data : V) {level curC currObj : ℕ}
    (hcur : h.HasLevel level curC) (hblank : h.Blank curC level)
    (hobj : h.HasLevel level currObj) (hne : currObj ≠ curC) :
    ∃ r, connectLevel fstdistfunc data curC level h currObj = .ok r ∧
      SameShape h r.2 ∧ r.2.Intact ∧ Connected level curC h r.2 ∧
      (∀ level' id, level' ≠ level → r.2.links level' id = h.links level' id) ∧
      h.HasLevel level r.1 ∧ r.1 ≠ curC := by
  obtain ⟨hlinks, hunseen⟩ := hblank level le_rfl
  have hQ : ∀ id, ∀ j ∈ h.links level id, j ≠ curC := by
    rintro id j hj rfl
    exact hunseen id hj
  obtain ⟨found, hsearch, hfound⟩ := searchBaseLayer_spec fstdistfunc hI data hQ
    ⟨hobj, hne⟩
  obtain ⟨next, h', hconnect, hnext, hsame, hI', hconnected, hothers⟩ :=
    mutuallyConnectNewElement_spec fstdistfunc hI hcur hlinks hunseen
      hfound.nonempty hfound.distinct (fun e he => (hfound.inside e he).1)
  obtain ⟨e, he, rfl⟩ := List.mem_map.mp hnext
  refine ⟨(e.2, h'), ?_, hsame, hI', hconnected, hothers, (hfound.inside e he).1⟩
  rw [connectLevel, hsearch, ok_bind, hconnect]

/-- From the topmost level of a new element down to the base layer. -/
theorem connectLevels_spec (data : V) (level : ℕ) {h : HierarchicalNSW V} (hI : h.Intact)
    {curC currObj : ℕ} (hcur : h.HasLevel level curC) (hblank : h.Blank curC level)
    (hobj : h.HasLevel level currObj) (hne : currObj ≠ curC) :
    ∃ h', connectLevels fstdistfunc data curC level h currObj = .ok h' ∧
      SameShape h h' ∧ h'.Intact ∧ Connected 0 curC h h' := by
  induction level generalizing h currObj with
  | zero =>
    obtain ⟨r, hrun, hsame, hI', hconnected, _⟩ := connectLevel_spec fstdistfunc
      hI data hcur hblank hobj hne
    exact ⟨r.2, by rw [connectLevels, hrun, ok_bind]; rfl, hsame, hI', hconnected⟩
  | succ level ih =>
    obtain ⟨r, hrun, hsame, hI', _, hothers, hobj', hne'⟩ := connectLevel_spec
      fstdistfunc hI data hcur hblank hobj hne
    have hblank' : r.2.Blank curC level := by
      intro low hlow
      have hlinks : ∀ id, r.2.links low id = h.links low id :=
        fun id => hothers low id (by omega)
      obtain ⟨hcurLinks, hunseen⟩ := hblank low (by omega)
      refine ⟨by rw [hlinks, hcurLinks], fun id => ?_⟩
      rw [hlinks]
      exact hunseen id
    obtain ⟨h', hrest, hsame', hI'', hconnected⟩ := ih hI'
      (hsame.hasLevel.mpr (hcur.of_le (by omega))) hblank'
      (hsame.hasLevel.mpr (hobj'.of_le (by omega))) hne'
    have hbase : ∀ id, r.2.links 0 id = h.links 0 id := fun id => hothers 0 id (by omega)
    refine ⟨h', by rw [connectLevels, hrun, ok_bind, hrest], hsame.trans hsame', hI'',
      hconnected.nonempty, ?_, ?_, ?_⟩
    · intro j hj
      have hold := hconnected.old j hj
      rwa [hsame.hasLevel] at hold
    · intro j hj
      exact (hconnected.back j hj).of_same hsame (hbase j)
    · intro id hid hout
      rw [hconnected.others id hid hout, hbase]

omit [LinearOrder D] in
theorem hasLevel_grow {data : V} {label curlevel level id : ℕ} :
    (h.grow data label curlevel).HasLevel level id ↔
      h.HasLevel level id ∨ id = h.elements.length ∧ level ≤ curlevel := by
  simp only [HasLevel, grow, List.getElem?_append]
  by_cases hid : id < h.elements.length
  · simp only [hid, if_true]
    exact ⟨.inl, fun hor => hor.elim (fun hold => hold) fun hnew => by omega⟩
  · have hnone : h.elements[id]? = none := List.getElem?_eq_none (by omega)
    simp only [hid, if_false, hnone]
    by_cases hnew : id = h.elements.length
    · subst hnew
      simp only [Nat.sub_self, List.getElem?_cons_zero, Option.some.injEq, exists_eq_left',
        List.length_replicate, reduceCtorEq, false_and, exists_false, false_or, true_and]
      omega
    · have hout : id - h.elements.length ≠ 0 := by omega
      simp [hnew, hout]

omit [LinearOrder D] in
/-- Neither does it link to anything. -/
theorem links_grow (data : V) (label curlevel level id : ℕ) :
    (h.grow data label curlevel).links level id = h.links level id := by
  simp only [links, grow, List.getElem?_append]
  by_cases hid : id < h.elements.length
  · simp [hid]
  · have hnone : h.elements[id]? = none := List.getElem?_eq_none (by omega)
    simp only [hid, if_false, hnone, List.getElem?_singleton]
    split
    · simp only [Option.bind_some, Option.bind_none, Option.getD_none, List.getElem?_replicate]
      split <;> rfl
    · rfl

omit [LinearOrder D] in
theorem Intact.grow (hI : h.Intact) (hroom : h.elements.length < h.maxElements) (data : V)
    (label curlevel : ℕ) : (h.grow data label curlevel).Intact where
  degree := hI.degree
  beam := hI.beam
  fits := by
    change (h.elements ++ [_]).length ≤ h.maxElements
    rw [List.length_append, List.length_singleton]
    omega
  based id hid := by
    change id < (h.elements ++ [_]).length at hid
    rw [List.length_append, List.length_singleton] at hid
    rw [hasLevel_grow]
    by_cases hold : id < h.elements.length
    · exact .inl (hI.based id hold)
    · exact .inr ⟨by omega, Nat.zero_le _⟩
  nodup level id := by
    rw [links_grow]
    exact hI.nodup level id
  irrefl level id := by
    rw [links_grow]
    exact hI.irrefl level id
  linked level id j hj := by
    rw [links_grow] at hj
    exact hasLevel_grow.mpr (.inl (hI.linked level id j hj))
  room level id := by
    rw [links_grow]
    exact hI.room level id

/-- The entry point has the topmost level. -/
structure Rooted (h : HierarchicalNSW V) : Prop where
  empty : h.entry = none → h.elements = []
  node : ∀ entry, h.entry = some entry → h.HasLevel entry.level entry.node
  top : ∀ entry, h.entry = some entry → ∀ level id, h.HasLevel level id → level ≤ entry.level

/-- What an insertion leaves behind. -/
structure Added (data : V) (label curlevel : ℕ) (h h' : HierarchicalNSW V) : Prop where
  maxElements : h'.maxElements = h.maxElements
  degree : h'.M = h.M
  ef : h'.ef = h.ef
  shape : h'.elements.map (fun e => (e.label, e.data, e.links.length)) =
    h.elements.map (fun e => (e.label, e.data, e.links.length)) ++ [(label, data, curlevel + 1)]
  intact : h'.Intact
  rooted : h'.Rooted
  connected : h.elements ≠ [] →
    Connected 0 h.elements.length (h.grow data label curlevel) h'

omit [LinearOrder D] in
/-- The labels are the old ones and the new one. -/
theorem Added.label_mem {data : V} {label curlevel : ℕ} {h' : HierarchicalNSW V}
    (hadded : Added data label curlevel h h') {e : Element V} (he : e ∈ h'.elements) :
    (∃ old ∈ h.elements, e.label = old.label) ∨ e.label = label := by
  have hlabels := congrArg (List.map fun t : ℕ × V × ℕ => t.1) hadded.shape
  rw [List.map_append, List.map_map, List.map_map] at hlabels
  have hmem : e.label ∈ h.elements.map (fun old => old.label) ++ [label] :=
    hlabels ▸ List.mem_map_of_mem (f := fun e : Element V => e.label) he
  rcases List.mem_append.mp hmem with hold | hnew
  · obtain ⟨old, hold, hsame⟩ := List.mem_map.mp hold
    exact .inl ⟨old, hold, hsame.symm⟩
  · exact .inr (List.mem_singleton.mp hnew)

/-- Another entry point is another root of the same graph. -/
theorem Intact.withEntry (hI : h.Intact) (entry : Option Entry) :
    { h with entry := entry }.Intact :=
  ⟨hI.degree, hI.beam, hI.fits, hI.based, hI.nodup, hI.irrefl, hI.linked, hI.room⟩

omit [LinearOrder D] in
theorem Connected.withEntry {level curC : ℕ} {h h' : HierarchicalNSW V}
    (hc : Connected level curC h h') (entry : Option Entry) :
    Connected level curC h { h' with entry := entry } :=
  ⟨hc.nonempty, hc.old, hc.back, hc.others⟩

/-- The first search starts at an element of the level that it searches. -/
theorem startFor_spec (hI : h.Intact) (data : V) (hQ : ∀ level id, ∀ j ∈ h.links level id, Q j)
    (curlevel : ℕ) {entry : Entry} (hentry : h.Seen Q entry.level entry.node) :
    ∃ currObj, h.startFor fstdistfunc data curlevel entry = .ok currObj ∧
      h.Seen Q (min curlevel entry.level) currObj := by
  rw [startFor]
  by_cases hlower : curlevel < entry.level
  · rw [if_pos hlower, distanceTo_ok fstdistfunc hentry.1.lt_length, ok_bind]
    obtain ⟨c, hrun, hseen⟩ := descendLevels_spec fstdistfunc hI data hQ curlevel
      (entry.level - curlevel) (c := (_, entry.node))
      (by rwa [Nat.add_sub_cancel' hlower.le]) (distanceTo_ok fstdistfunc hentry.1.lt_length data)
    rw [hrun, ok_bind, Nat.min_eq_left hlower.le]
    exact ⟨c.2, rfl, hseen⟩
  · rw [if_neg hlower, Nat.min_eq_right (Nat.not_lt.mp hlower)]
    exact ⟨entry.node, rfl, hentry⟩

theorem addPoint_spec (hI : h.Intact) (hR : h.Rooted)
    (hroom : h.elements.length < h.maxElements) (data : V) {label : ℕ}
    (hlabel : ∀ e ∈ h.elements, e.label ≠ label) (curlevel : ℕ) :
    ∃ h', h.addPoint fstdistfunc data label curlevel = .ok h' ∧
      Added data label curlevel h h' := by
  have hgrown := hI.grow hroom data label curlevel
  have hcur : ∀ level ≤ curlevel,
      (h.grow data label curlevel).HasLevel level h.elements.length :=
    fun level hle => hasLevel_grow.mpr (.inr ⟨rfl, hle⟩)
  have hunseen : ∀ level id, h.elements.length ∉ (h.grow data label curlevel).links level id := by
    intro level id hin
    rw [links_grow] at hin
    exact Nat.lt_irrefl _ (hI.linked level id _ hin).lt_length
  have hblank : ∀ level, (h.grow data label curlevel).links level h.elements.length = [] := by
    intro level
    rw [links_grow, links, List.getElem?_eq_none le_rfl]
    rfl
  have hnew : ¬ (h.elements.any fun e => e.label = label) = true := by
    rw [List.any_eq_true]
    rintro ⟨e, he, hsame⟩
    exact hlabel e he (of_decide_eq_true hsame)
  have hdegree := hI.degree
  rw [addPoint, if_neg hnew, if_neg (by omega), if_neg (by omega)]
  dsimp only
  cases hentry : h.entry with
  | none =>
    have hempty := hR.empty hentry
    refine ⟨_, rfl, rfl, rfl, rfl, by simp [grow], hgrown.withEntry _, ⟨?_, ?_, ?_⟩,
      fun hne => absurd hempty hne⟩
    · intro hnone
      cases hnone
    · intro entry' hsome
      cases hsome
      exact hcur curlevel le_rfl
    · intro entry' hsome level id hid
      cases hsome
      have hor : h.HasLevel level id ∨ _ := hasLevel_grow.mp hid
      rcases hor with hold | hnew
      · have hlt := hold.lt_length
        rw [hempty] at hlt
        cases hlt
      · exact hnew.2
  | some entry =>
    have hnode := hR.node entry hentry
    have hne : entry.node ≠ h.elements.length := Nat.ne_of_lt hnode.lt_length
    have hQ : ∀ level id, ∀ j ∈ (h.grow data label curlevel).links level id,
        j ≠ h.elements.length := by
      rintro level id j hj rfl
      exact hunseen level id hj
    obtain ⟨currObj, hstart, hobj⟩ := startFor_spec fstdistfunc hgrown data hQ
      curlevel ⟨hasLevel_grow.mpr (.inl hnode), hne⟩
    obtain ⟨h', hconnect, hsame, hI', hconnected⟩ := connectLevels_spec
      fstdistfunc data (min curlevel entry.level) hgrown
      (hcur _ (Nat.min_le_left _ _)) (fun low _ => ⟨hblank low, hunseen low⟩) hobj.1 hobj.2
    have hshape := hsame.shape
    dsimp only
    rw [hstart, ok_bind, hconnect, ok_bind]
    by_cases hhigher : entry.level < curlevel
    · rw [if_pos hhigher]
      refine ⟨_, rfl, hsame.maxElements, hsame.degree, hsame.ef, ?_, hI'.withEntry _,
        ⟨?_, ?_, ?_⟩, fun _ => hconnected.withEntry _⟩
      · rw [hshape, grow]
        simp
      · intro hnone
        cases hnone
      · intro entry' hsome
        cases hsome
        exact hsame.hasLevel.mpr (hcur curlevel le_rfl)
      · intro entry' hsome level id hid
        cases hsome
        rcases hasLevel_grow.mp (hsame.hasLevel.mp hid) with hold | hnew
        · exact (hR.top entry hentry level id hold).trans hhigher.le
        · exact hnew.2
    · rw [if_neg hhigher]
      have hsameEntry : h'.entry = some entry := hsame.entry.trans hentry
      refine ⟨_, rfl, hsame.maxElements, hsame.degree, hsame.ef, ?_, hI', ⟨?_, ?_, ?_⟩,
        fun _ => hconnected⟩
      · rw [hshape, grow]
        simp
      · intro hnone
        rw [hsameEntry] at hnone
        cases hnone
      · intro entry' hsome
        rw [hsameEntry] at hsome
        cases hsome
        exact hsame.hasLevel.mpr (hasLevel_grow.mpr (.inl hnode))
      · intro entry' hsome level id hid
        rw [hsameEntry] at hsome
        cases hsome
        rcases hasLevel_grow.mp (hsame.hasLevel.mp hid) with hold | hnew
        · exact hR.top entry hentry level id hold
        · exact hnew.2.trans (Nat.not_lt.mp hhigher)

end Bookstore.Hnsw.HierarchicalNSW
