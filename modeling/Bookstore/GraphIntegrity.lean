import Bookstore.NeighborSelection

/-!
Adding points keeps the graph in order: a list of links holds other elements and none
of them twice, no list outgrows its memory, and every link on a level goes to an element
that has this level. So an insertion never throws and its searches never leave the index.
-/
namespace Bookstore.Hnsw.HierarchicalNSW

open BeamSearch PriorityQueue

variable {V D : Type}

/-! ## Changing a list of links -/

/-- Only lists of links differ. -/
structure SameShape (h h' : HierarchicalNSW V) : Prop where
  maxElements : h'.maxElements = h.maxElements
  degree : h'.M = h.M
  efConstruction : h'.efConstruction = h.efConstruction
  ef : h'.ef = h.ef
  entry : h'.entry = h.entry
  shape : h'.elements.map (fun e => (e.label, e.data, e.links.length)) =
    h.elements.map fun e => (e.label, e.data, e.links.length)

theorem SameShape.refl (h : HierarchicalNSW V) : SameShape h h := ⟨rfl, rfl, rfl, rfl, rfl, rfl⟩

theorem SameShape.trans {h h' h'' : HierarchicalNSW V} (h₁ : SameShape h h')
    (h₂ : SameShape h' h'') : SameShape h h'' where
  maxElements := h₂.maxElements.trans h₁.maxElements
  degree := h₂.degree.trans h₁.degree
  efConstruction := h₂.efConstruction.trans h₁.efConstruction
  ef := h₂.ef.trans h₁.ef
  entry := h₂.entry.trans h₁.entry
  shape := h₂.shape.trans h₁.shape

theorem SameShape.length {h h' : HierarchicalNSW V} (hsame : SameShape h h') :
    h'.elements.length = h.elements.length := by
  have hlength := congrArg List.length hsame.shape
  rwa [List.length_map, List.length_map] at hlength

theorem SameShape.get {h h' : HierarchicalNSW V} (hsame : SameShape h h') (id : ℕ) :
    h'.elements[id]?.map (fun e => (e.label, e.data, e.links.length)) =
      h.elements[id]?.map fun e => (e.label, e.data, e.links.length) := by
  rw [← List.getElem?_map, ← List.getElem?_map, hsame.shape]

theorem SameShape.hasLevel {h h' : HierarchicalNSW V} (hsame : SameShape h h') {level id : ℕ} :
    h'.HasLevel level id ↔ h.HasLevel level id := by
  have hget := hsame.get id
  simp only [HasLevel]
  cases he : h.elements[id]? with
  | none => cases he' : h'.elements[id]? with
    | none => rfl
    | some e' => simp [he, he'] at hget
  | some e => cases he' : h'.elements[id]? with
    | none => simp [he, he'] at hget
    | some e' =>
      simp only [he, he', Option.map_some, Option.some.injEq, Prod.mk.injEq] at hget
      simp [hget.2.2]

theorem SameShape.mcurmax {h h' : HierarchicalNSW V} (hsame : SameShape h h') (level : ℕ) :
    h'.Mcurmax level = h.Mcurmax level := by
  rw [Mcurmax, Mcurmax, hsame.degree]

theorem setLinklist_shape (h : HierarchicalNSW V) (level id : ℕ) (l : List ℕ) :
    SameShape h (h.setLinklist level id l) where
  maxElements := rfl
  degree := rfl
  efConstruction := rfl
  ef := rfl
  entry := rfl
  shape := by
    apply List.ext_getElem?
    intro i
    rw [setLinklist, List.getElem?_map, List.getElem?_map, List.getElem?_modify]
    cases h.elements[i]? with
    | none => rfl
    | some e => by_cases hid : id = i <;> simp [hid]

theorem links_setLinklist {h : HierarchicalNSW V} {level id : ℕ} (hid : h.HasLevel level id)
    (l : List ℕ) (level' id' : ℕ) : (h.setLinklist level id l).links level' id' =
      if level' = level ∧ id' = id then l else h.links level' id' := by
  obtain ⟨e, he, hlt⟩ := hid
  simp only [links, setLinklist, List.getElem?_modify]
  by_cases hsame : id = id'
  · subst hsame
    by_cases hlevel : level = level'
    · subst hlevel
      simp [he, hlt]
    · simp [he, hlevel, Ne.symm hlevel]
  · simp [hsame, Ne.symm hsame]

/-! ## Integrity -/

/-- What `checkIntegrity` asserts of each list of links, and what this rests on. That
every element is linked to, which it asserts as well, need not hold. -/
structure Intact (h : HierarchicalNSW V) : Prop where
  degree : 2 ≤ h.M
  beam : h.M ≤ h.efConstruction
  fits : h.elements.length ≤ h.maxElements
  based : ∀ id < h.elements.length, h.HasLevel 0 id
  nodup : ∀ level id, (h.links level id).Nodup
  irrefl : ∀ level id, id ∉ h.links level id
  linked : ∀ level id, ∀ j ∈ h.links level id, h.HasLevel level j
  room : ∀ level id, (h.links level id).length ≤ h.Mcurmax level

theorem Intact.setLinklist {h : HierarchicalNSW V} (hI : h.Intact) {level id : ℕ}
    (hid : h.HasLevel level id) {l : List ℕ} (hnodup : l.Nodup) (hirrefl : id ∉ l)
    (hlinked : ∀ j ∈ l, h.HasLevel level j) (hroom : l.length ≤ h.Mcurmax level) :
    (h.setLinklist level id l).Intact := by
  have hsame := setLinklist_shape h level id l
  refine ⟨hI.degree, hI.beam, by rw [hsame.length]; exact hI.fits, ?_, ?_, ?_, ?_, ?_⟩
  · intro j hj
    rw [hsame.hasLevel]
    exact hI.based j (by rwa [hsame.length] at hj)
  · intro level' id'
    rw [links_setLinklist hid]
    split
    · exact hnodup
    · exact hI.nodup level' id'
  · intro level' id'
    rw [links_setLinklist hid]
    split
    · rename_i hsame'
      rw [hsame'.2]
      exact hirrefl
    · exact hI.irrefl level' id'
  · intro level' id' j
    rw [links_setLinklist hid, hsame.hasLevel]
    split
    · rename_i hsame'
      rw [hsame'.1]
      exact hlinked j
    · exact hI.linked level' id' j
  · intro level' id'
    rw [links_setLinklist hid, hsame.mcurmax]
    split
    · rename_i hsame'
      rw [hsame'.1]
      exact hroom
    · exact hI.room level' id'

theorem Intact.one_le_mcurmax {h : HierarchicalNSW V} (hI : h.Intact) (level : ℕ) :
    1 ≤ h.Mcurmax level := by
  have hdegree := hI.degree
  unfold Mcurmax
  split <;> omega

theorem Intact.degree_le_mcurmax {h : HierarchicalNSW V} (level : ℕ) : h.M ≤ h.Mcurmax level := by
  unfold Mcurmax
  split <;> omega

/-! ## Links back -/

variable [LinearOrder D] (fstdistfunc : V → V → D) {h : HierarchicalNSW V}

/-- A queue that is cut by the heuristic: its ids, without what is dropped. -/
theorem neighbors_ok {M : ℕ} (hM : 1 ≤ M) {q : List (D × ℕ)} (hne : q ≠ [])
    (hnodup : (q.map Prod.snd).Nodup) (hrange : ∀ e ∈ q, e.2 < h.elements.length) :
    ∃ kept, h.getNeighborsByHeuristic2 fstdistfunc q M = .ok kept ∧ kept ≠ [] ∧
      kept.length ≤ M ∧ (kept.map Prod.snd).Nodup ∧ kept ⊆ q := by
  by_cases hshort : q.length < M
  · refine ⟨q, ?_, hne, hshort.le, hnodup, List.Subset.refl _⟩
    rw [getNeighborsByHeuristic2, if_pos hshort]
    rfl
  · obtain ⟨kept, hrun, hkept⟩ := neighbors_selected fstdistfunc hM
      (Nat.le_of_not_lt hshort) hrange
    obtain ⟨dropped, hperm⟩ := hkept.subset
    obtain ⟨a, ha, _⟩ := hkept.nearest
    refine ⟨kept, hrun, List.ne_nil_of_mem ha, hkept.size, ?_, ?_⟩
    · rw [(hperm.map Prod.snd).nodup_iff, List.map_append] at hnodup
      exact hnodup.of_append_left
    · exact fun e he => hperm.symm.subset (List.mem_append_left dropped he)

omit [LinearOrder D] in
theorem mapM_distances {ids : List ℕ} {id : ℕ} (hid : id < h.elements.length)
    (hids : ∀ j ∈ ids, j < h.elements.length) :
    ∃ entries : List (D × ℕ), (ids.mapM fun j => do
        let dist ← h.distanceOf fstdistfunc j id
        pure (dist, j)) = Except.ok entries ∧ entries.map Prod.snd = ids := by
  induction ids with
  | nil => exact ⟨[], rfl, rfl⟩
  | cons j ids ih =>
    obtain ⟨hj, hrest⟩ := List.forall_mem_cons.mp hids
    obtain ⟨entries, hrun, hentries⟩ := ih hrest
    refine ⟨(fstdistfunc h.elements[j].data h.elements[id].data, j) :: entries, ?_,
      congrArg (j :: ·) hentries⟩
    rw [List.mapM_cons, distanceOf_ok fstdistfunc hj hid, ok_bind]
    simp only [pure_bind, hrun]
    rfl

/-- What a neighbour's list is replaced with. -/
structure LinkedBack (h : HierarchicalNSW V) (level curC neighbor : ℕ) (l : List ℕ) : Prop where
  nodup : l.Nodup
  mem : ∀ j ∈ l, j = curC ∨ j ∈ h.links level neighbor
  nonempty : l ≠ []
  room : l.length ≤ h.Mcurmax level
  append : (h.links level neighbor).length < h.Mcurmax level →
    l = h.links level neighbor ++ [curC]

omit [LinearOrder D] in
theorem LinkedBack.of_same {h₀ : HierarchicalNSW V} (hsame : SameShape h₀ h) {level curC id : ℕ}
    (hlinks : h.links level id = h₀.links level id) {l : List ℕ}
    (hback : LinkedBack h level curC id l) : LinkedBack h₀ level curC id l where
  nodup := hback.nodup
  mem := hlinks ▸ hback.mem
  nonempty := hback.nonempty
  room := hsame.mcurmax level ▸ hback.room
  append := hsame.mcurmax level ▸ hlinks ▸ hback.append

theorem connectBack_spec (hI : h.Intact) {level curC neighbor : ℕ}
    (hcur : h.HasLevel level curC) (hneighbor : h.HasLevel level neighbor)
    (hne : neighbor ≠ curC) (hfresh : curC ∉ h.links level neighbor) :
    ∃ l, connectBack fstdistfunc level curC h neighbor =
        .ok (h.setLinklist level neighbor l) ∧ LinkedBack h level curC neighbor l := by
  have hroom := hI.room level neighbor
  have hnodup : (curC :: h.links level neighbor).Nodup :=
    List.nodup_cons.mpr ⟨hfresh, hI.nodup level neighbor⟩
  rw [connectBack, getLinklist_ok hneighbor, ok_bind, if_neg (by omega), if_neg hne]
  by_cases hspace : (h.links level neighbor).length < h.Mcurmax level
  · rw [if_pos hspace]
    refine ⟨_, rfl, ?_, ?_, by simp, ?_, fun _ => rfl⟩
    · exact (List.perm_append_singleton curC (h.links level neighbor)).nodup_iff.mpr hnodup
    · intro j hj
      rcases List.mem_append.mp hj with hold | hnew
      · exact .inr hold
      · exact .inl (List.mem_singleton.mp hnew)
    · rw [List.length_append, List.length_singleton]
      omega
  · rw [if_neg hspace]
    have hrange : ∀ j ∈ curC :: h.links level neighbor, j < h.elements.length := by
      refine List.forall_mem_cons.mpr ⟨hcur.lt_length, fun j hj => ?_⟩
      exact (hI.linked level neighbor j hj).lt_length
    obtain ⟨entries, hmap, hids⟩ := mapM_distances fstdistfunc
      hneighbor.lt_length hrange
    have hperm : (ofList Prod.fst entries).Perm entries := ofList_perm entries
    obtain ⟨kept, hrun, hnil, hlength, hkept, hsub⟩ := neighbors_ok fstdistfunc
      (hI.one_le_mcurmax level) (q := ofList Prod.fst entries)
      (fun hnil => by
        rw [hnil] at hperm
        rw [← hids, ← hperm.nil_eq] at hrange
        rw [← hperm.nil_eq] at hids
        cases hids)
      (by rw [(hperm.map Prod.snd).nodup_iff, hids]; exact hnodup)
      (fun e he => hrange _ (hids ▸ List.mem_map_of_mem (hperm.subset he)))
    rw [hmap, ok_bind, hrun, ok_bind]
    have hdrain : (drain Prod.fst kept).Perm kept := drain_perm kept
    refine ⟨_, rfl, ?_, ?_, ?_, ?_, fun hlt => absurd hlt hspace⟩
    · exact (hdrain.map Prod.snd).nodup_iff.mpr hkept
    · intro j hj
      obtain ⟨e, he, rfl⟩ := List.mem_map.mp hj
      have hmem : e.2 ∈ curC :: h.links level neighbor :=
        hids ▸ List.mem_map_of_mem (hperm.subset (hsub (hdrain.subset he)))
      exact List.mem_cons.mp hmem
    · intro hempty
      rw [List.map_eq_nil_iff] at hempty
      rw [hempty] at hdrain
      exact hnil hdrain.nil_eq.symm
    · rwa [List.length_map, hdrain.length_eq]

/-- The lists of the selected neighbours, and no others, have been replaced. -/
structure LinksBack (level curC : ℕ) (selected : List ℕ) (h h' : HierarchicalNSW V) : Prop where
  same : SameShape h h'
  intact : h'.Intact
  others : ∀ level' id, level' ≠ level ∨ id ∉ selected → h'.links level' id = h.links level' id
  back : ∀ id ∈ selected, LinkedBack h level curC id (h'.links level id)

theorem foldlM_connectBack (hI : h.Intact) {level curC : ℕ} (hcur : h.HasLevel level curC)
    (selected : List ℕ) (hnodup : selected.Nodup)
    (hselected : ∀ id ∈ selected, h.HasLevel level id ∧ id ≠ curC ∧ curC ∉ h.links level id) :
    ∃ h', selected.foldlM (connectBack fstdistfunc level curC) h = .ok h' ∧
      LinksBack level curC selected h h' := by
  induction selected generalizing h with
  | nil => exact ⟨h, rfl, .refl h, hI, fun _ _ _ => rfl, by simp⟩
  | cons neighbor selected ih =>
    obtain ⟨⟨hlevel, hne, hfresh⟩, hrest⟩ := List.forall_mem_cons.mp hselected
    obtain ⟨hnotin, hnodup'⟩ := List.nodup_cons.mp hnodup
    obtain ⟨l, hrun, hback⟩ := connectBack_spec fstdistfunc hI hcur hlevel hne
      hfresh
    have hsame := setLinklist_shape h level neighbor l
    have hI' : (h.setLinklist level neighbor l).Intact := by
      apply hI.setLinklist hlevel hback.nodup _ _ hback.room
      · intro hin
        exact (hback.mem neighbor hin).elim hne (hI.irrefl level neighbor)
      · intro j hj
        rcases hback.mem j hj with rfl | hold
        · exact hcur
        · exact hI.linked level neighbor j hold
    have hold : ∀ id ∈ selected, (h.setLinklist level neighbor l).links level id =
        h.links level id := by
      intro id hid
      rw [links_setLinklist hlevel, if_neg]
      rintro ⟨_, rfl⟩
      exact hnotin hid
    obtain ⟨h', hfold, hlinks⟩ := ih hI' (hsame.hasLevel.mpr hcur) hnodup' (by
      intro id hid
      rw [hsame.hasLevel, hold id hid]
      exact hrest id hid)
    refine ⟨h', by rw [List.foldlM_cons, hrun, ok_bind, hfold], hsame.trans hlinks.same,
      hlinks.intact, ?_, ?_⟩
    · intro level' id hother
      rw [hlinks.others level' id (hother.imp_right fun hout hin =>
          hout (List.mem_cons_of_mem _ hin)),
        links_setLinklist hlevel, if_neg]
      rintro ⟨rfl, rfl⟩
      exact hother.elim (fun hl => hl rfl) fun hout => hout List.mem_cons_self
    · refine List.forall_mem_cons.mpr ⟨?_, fun id hid => ?_⟩
      · rw [hlinks.others level neighbor (.inr hnotin), links_setLinklist hlevel,
          if_pos ⟨rfl, rfl⟩]
        exact hback
      · exact (hlinks.back id hid).of_same hsame (hold id hid)

/-! ## Connecting a new element on one level -/

/-- A new element and those that it is connected to. -/
structure Connected (level curC : ℕ) (h h' : HierarchicalNSW V) : Prop where
  nonempty : h'.links level curC ≠ []
  old : ∀ j ∈ h'.links level curC, h.HasLevel level j ∧ j ≠ curC
  back : ∀ j ∈ h'.links level curC, LinkedBack h level curC j (h'.links level j)
  others : ∀ id, id ≠ curC → id ∉ h'.links level curC → h'.links level id = h.links level id

theorem mapM_checkLevel {level : ℕ} (ids : List ℕ) (hids : ∀ id ∈ ids, h.HasLevel level id) :
    ∃ units, ids.mapM (h.checkLevel level) = .ok units := by
  induction ids with
  | nil => exact ⟨[], rfl⟩
  | cons id ids ih =>
    obtain ⟨⟨e, he, hlt⟩, hrest⟩ := List.forall_mem_cons.mp hids
    obtain ⟨units, hrun⟩ := ih hrest
    have hcheck : h.checkLevel level id = .ok () := by
      simp only [checkLevel, element, he, pure_bind, Nat.not_le.mpr hlt, if_false]
      rfl
    exact ⟨() :: units, by rw [List.mapM_cons, hcheck, ok_bind, hrun, ok_bind]; rfl⟩

theorem mutuallyConnectNewElement_spec (hI : h.Intact) {level curC : ℕ}
    (hcur : h.HasLevel level curC) (hblank : h.links level curC = [])
    (hunseen : ∀ id, curC ∉ h.links level id) {top : List (D × ℕ)} (hne : top ≠ [])
    (hnodup : (top.map Prod.snd).Nodup)
    (htop : ∀ e ∈ top, h.HasLevel level e.2 ∧ e.2 ≠ curC) :
    ∃ next h', h.mutuallyConnectNewElement fstdistfunc curC top level = .ok (next, h') ∧
      next ∈ top.map Prod.snd ∧ SameShape h h' ∧ h'.Intact ∧ Connected level curC h h' ∧
      ∀ level' id, level' ≠ level → h'.links level' id = h.links level' id := by
  obtain ⟨kept, hrun, hnil, hsize, hkept, hsub⟩ := neighbors_ok fstdistfunc
    (Nat.le_of_succ_le hI.degree) hne hnodup (fun e he => (htop e he).1.lt_length)
  have hdrain : (drain Prod.fst kept).Perm kept := drain_perm kept
  have hselected : ∀ id ∈ (drain Prod.fst kept).map Prod.snd,
      h.HasLevel level id ∧ id ≠ curC ∧ id ∈ top.map Prod.snd := by
    intro id hid
    obtain ⟨e, he, rfl⟩ := List.mem_map.mp hid
    have hmem := hsub (hdrain.subset he)
    exact ⟨(htop e hmem).1, (htop e hmem).2, List.mem_map_of_mem hmem⟩
  have hselectedNodup : ((drain Prod.fst kept).map Prod.snd).Nodup :=
    (hdrain.map Prod.snd).nodup_iff.mpr hkept
  have hselectedNil : (drain Prod.fst kept).map Prod.snd ≠ [] := by
    intro hempty
    rw [List.map_eq_nil_iff.mp hempty] at hdrain
    exact hnil hdrain.nil_eq.symm
  have hselectedSize : ((drain Prod.fst kept).map Prod.snd).length ≤ h.M := by
    rwa [List.length_map, hdrain.length_eq]
  rw [mutuallyConnectNewElement, hrun, ok_bind, if_neg (by omega)]
  dsimp only
  generalize (drain Prod.fst kept).map Prod.snd = selected at *
  obtain ⟨units, hcheck⟩ := mapM_checkLevel selected fun id hid => (hselected id hid).1
  have hsame := setLinklist_shape h level curC selected
  have hI' : (h.setLinklist level curC selected).Intact :=
    hI.setLinklist hcur hselectedNodup (fun hin => (hselected curC hin).2.1 rfl)
      (fun j hj => (hselected j hj).1) (hselectedSize.trans (Intact.degree_le_mcurmax level))
  have hlinks : ∀ id, id ≠ curC →
      (h.setLinklist level curC selected).links level id = h.links level id := by
    intro id hid
    rw [links_setLinklist hcur, if_neg (fun hand => hid hand.2)]
  obtain ⟨h', hfold, hback⟩ := foldlM_connectBack fstdistfunc hI'
    (hsame.hasLevel.mpr hcur) selected hselectedNodup (fun id hid => by
      obtain ⟨hlevel, hid', _⟩ := hselected id hid
      rw [hlinks id hid']
      exact ⟨hsame.hasLevel.mpr hlevel, hid', hunseen id⟩)
  have hcurLinks : h'.links level curC = selected := by
    rw [hback.others level curC (.inr fun hin => (hselected curC hin).2.1 rfl),
      links_setLinklist hcur, if_pos ⟨rfl, rfl⟩]
  refine ⟨selected.getLast hselectedNil, h', ?_, (hselected _ (List.getLast_mem _)).2.2,
    hsame.trans hback.same, hback.intact, ⟨?_, ?_, ?_, ?_⟩, ?_⟩
  · rw [List.getLast?_eq_some_getLast hselectedNil]
    dsimp only
    rw [getLinklist_ok hcur, ok_bind, hblank, if_neg (by simp), hcheck, ok_bind, hfold]
    rfl
  · rwa [hcurLinks]
  · intro j hj
    rw [hcurLinks] at hj
    exact ⟨(hselected j hj).1, (hselected j hj).2.1⟩
  · intro j hj
    rw [hcurLinks] at hj
    exact (hback.back j hj).of_same hsame (hlinks j (hselected j hj).2.1)
  · intro id hid hout
    rw [hcurLinks] at hout
    rw [hback.others level id (.inr hout), hlinks id hid]
  · intro level' id hlevel
    rw [hback.others level' id (.inl hlevel), links_setLinklist hcur,
      if_neg (fun hand => hlevel hand.1)]

end Bookstore.Hnsw.HierarchicalNSW
