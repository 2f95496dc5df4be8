import Bookstore.GraphSearch
import Bookstore.SimilarBooks
import Mathlib.Data.Int.Order.Lemmas

/-!
`HnswRecommendationIndex`, the other backend of the similar books. Its labels are
positions in `label_to_book_id_`. Up to 33 active books no list of the base layer is
cut and all of them fit in the beam, so that it answers as exactly as the search of
all books does, up to the distances that each of them computes.
-/
namespace Bookstore.HnswRecommendations

open BeamSearch Books Hnsw Hnsw.HierarchicalNSW PriorityQueue Records SimilarBooks TopK

variable {V D : Type} [LinearOrder D] (m : Embedder V D)

/-- `index_` and `label_to_book_id_`. -/
structure HnswIndex (V : Type) where
  index : Option (HierarchicalNSW V)
  labelToBookId : List Int32

/-- The second loop of `build`; `levels` are the levels that the generator draws. -/
def addBook (levels : ℕ → ℕ) (s : HierarchicalNSW V × List Int32) (book : Book) :
    Except Failure (HierarchicalNSW V × List Int32) :=
  if book.status ≠ "active" then pure s
  else do
    let label := s.2.length
    let index ← s.1.addPoint m.distance (m.embedBook book) label (levels label)
    pure (index, s.2 ++ [book.id])

def build (levels : ℕ → ℕ) (books : List Book) : Except Failure (HnswIndex V) :=
  let activeCount := books.countP fun book => book.status = "active"
  if activeCount = 0 then pure ⟨none, []⟩
  else do
    let s ← books.foldlM (addBook m levels) (setEf 50 (create activeCount 16 200), [])
    pure ⟨some s.1, s.2⟩

/-- `limit + 1` as a `size_t`. -/
def oneMore (limit : Int32) : ℕ := ((limit + 1).toInt % 18446744073709551616).toNat

/-- One turn of the loop over `nearest`, which leaves out labels without a book and
the source. -/
def scoredItem (labelToBookId : List Int32) (source : Book) (item : D × ℕ) :
    Option (D × Int32) :=
  match labelToBookId[item.2]? with
  | none => none
  | some bookId => if bookId = source.id then none else some (item.1, bookId)

def scored (labelToBookId : List Int32) (source : Book) (nearest : List (D × ℕ)) :
    List (D × Int32) :=
  (drain byLabel nearest).filterMap (scoredItem labelToBookId source)

def searchSimilar (s : HnswIndex V) (book : Book) (limit : Int32) :
    Except Failure (List Int32) :=
  match s.index with
  | none => pure []
  | some index =>
    if s.labelToBookId.isEmpty ∨ book.id ≤ 0 ∨ limit ≤ 0 then pure []
    else
      let k := min s.labelToBookId.length (oneMore limit)
      if k = 0 then pure []
      else
        match index.searchKnn m.distance (m.embedBook book) k with
        | .error (.thrown _) => pure []
        | .error failure => throw failure
        | .ok nearest =>
          pure (collect limit []
            ((scored s.labelToBookId book nearest).mergeSort fun lhs rhs => !before rhs lhs))

/-! ## What is built -/

/-- The elements are the active books, in the order of the catalogue. -/
structure Holds (index : HierarchicalNSW V) (labelToBookId : List Int32)
    (books : List Book) : Prop where
  sound : index.Sound
  degree : index.M = 16
  ef : index.ef = 50
  ids : labelToBookId = books.map Book.id
  elements : ∀ i, (index.elements[i]?).map (fun e : Element V => (e.label, e.data)) =
    (books[i]?).map fun book => (i, m.embedBook book)

omit [LinearOrder D] in
theorem Holds.length {m : Embedder V D} {index : HierarchicalNSW V} {ids : List Int32}
    {books : List Book} (h : Holds m index ids books) :
    index.elements.length = books.length := by
  apply le_antisymm
  · by_contra hlt
    have hget := h.elements books.length
    rw [List.getElem?_eq_getElem (by omega), List.getElem?_eq_none le_rfl] at hget
    cases hget
  · by_contra hlt
    have hget := h.elements index.elements.length
    rw [List.getElem?_eq_none le_rfl, List.getElem?_eq_getElem (by omega)] at hget
    cases hget

variable {m}

omit [LinearOrder D] in
theorem Holds.element {index : HierarchicalNSW V} {ids : List Int32} {books : List Book}
    (h : Holds m index ids books) {id : ℕ} {book : Book} (hbook : books[id]? = some book) :
    ∃ e, index.elements[id]? = some e ∧ e.label = id ∧ e.data = m.embedBook book := by
  have hget := h.elements id
  rw [hbook, Option.map_some] at hget
  obtain ⟨e, he, hsame⟩ := Option.map_eq_some_iff.mp hget
  exact ⟨e, he, Prod.mk.inj hsame⟩

omit [LinearOrder D] in
/-- The labels are positions of the books that are there. -/
theorem Holds.label_ne {index : HierarchicalNSW V} {ids : List Int32} {books : List Book}
    (h : Holds m index ids books) : ∀ e ∈ index.elements, e.label ≠ books.length := by
  intro e he
  obtain ⟨i, hi⟩ := List.getElem?_of_mem he
  have hlt := (List.getElem?_eq_some_iff.mp hi).1
  have hlength := h.length
  obtain ⟨e', he', hlabel, _⟩ := h.element (List.getElem?_eq_getElem (by omega : i < books.length))
  rw [hi] at he'
  rw [Option.some.inj he', hlabel]
  omega

theorem Holds.addBook {index : HierarchicalNSW V} {ids : List Int32} {books : List Book}
    (h : Holds m index ids books) (levels : ℕ → ℕ) (book : Book)
    (hroom : (active [book]).length + books.length ≤ index.maxElements) :
    ∃ s, addBook m levels (index, ids) book = .ok s ∧
      Holds m s.1 s.2 (books ++ active [book]) ∧ s.1.maxElements = index.maxElements := by
  have hlength := h.length
  rw [HnswRecommendations.addBook]
  by_cases hactive : book.status = "active"
  · have hone : active [book] = [book] := by simp [active, hactive]
    rw [hone, List.length_singleton] at hroom
    have hids : ids.length = books.length := by rw [h.ids, List.length_map]
    obtain ⟨index', hrun, hadded⟩ := addPoint_spec m.distance h.sound.intact
      h.sound.rooted (by omega) (m.embedBook book) (hids ▸ h.label_ne) (levels ids.length)
    rw [if_neg (not_not.mpr hactive)]
    dsimp only
    rw [hrun, ok_bind, hone]
    refine ⟨_, rfl, ⟨h.sound.added hadded, hadded.degree.trans h.degree, hadded.ef.trans h.ef,
      ?_, ?_⟩, hadded.maxElements⟩
    · rw [h.ids, List.map_append]
      rfl
    · intro i
      have hshape := congrArg (fun l => l[i]?.map fun t => (t.1, t.2.1)) hadded.shape
      simp only [List.getElem?_append, List.getElem?_map, Option.map_map, List.length_map,
        hlength] at hshape ⊢
      by_cases hi : i < books.length
      · simp only [hi, if_true, Option.map_map] at hshape ⊢
        exact hshape.trans (h.elements i)
      · simp only [hi, if_false, List.getElem?_singleton] at hshape ⊢
        refine hshape.trans ?_
        by_cases hzero : i - books.length = 0
        · have hi' : i = books.length := by omega
          simp [hids, hi']
        · simp [hzero]
  · have hnone : active [book] = [] := by simp [active, hactive]
    rw [if_pos hactive, hnone, List.append_nil]
    exact ⟨(index, ids), rfl, h, rfl⟩

theorem foldlM_addBook (levels : ℕ → ℕ) (rest : List Book) {index : HierarchicalNSW V}
    {ids : List Int32} {books : List Book} (h : Holds m index ids books)
    (hroom : (active rest).length + books.length ≤ index.maxElements) :
    ∃ s, rest.foldlM (HnswRecommendations.addBook m levels) (index, ids) = .ok s ∧
      Holds m s.1 s.2 (books ++ active rest) := by
  induction rest generalizing index ids books with
  | nil => exact ⟨(index, ids), rfl, by simpa [active] using h⟩
  | cons book rest ih =>
    have hsplit : active (book :: rest) = active [book] ++ active rest := by
      simp only [active, List.filter_cons, List.filter_nil]
      split <;> rfl
    rw [hsplit, List.length_append] at hroom
    obtain ⟨t, hrun, ht, hmax⟩ := h.addBook levels book (by omega)
    obtain ⟨s, hrest, hs⟩ := ih ht (by rw [hmax, List.length_append]; omega)
    refine ⟨s, by rw [List.foldlM_cons, hrun, ok_bind, hrest], ?_⟩
    rwa [hsplit, ← List.append_assoc]

theorem build_spec (levels : ℕ → ℕ) (books : List Book) :
    ∃ s, build m levels books = .ok s ∧
      ((active books = [] ∧ s.index = none) ∨
        ∃ index, s.index = some index ∧ active books ≠ [] ∧
          Holds m index s.labelToBookId (active books)) := by
  have hcount : (books.countP fun book => book.status = "active") = (active books).length :=
    List.countP_eq_length_filter
  rw [build, hcount]
  by_cases hnone : active books = []
  · rw [if_pos (by rw [hnone]; rfl)]
    exact ⟨_, rfl, .inl ⟨hnone, rfl⟩⟩
  · have hpos := List.length_pos_of_ne_nil hnone
    have hstart : Holds m (setEf 50 (create (active books).length 16 200)) [] [] :=
      ⟨(create_sound _ (by decide) 200).withEf 50, rfl, rfl, rfl, fun _ => rfl⟩
    obtain ⟨s, hrun, hs⟩ := foldlM_addBook levels books hstart (le_refl _)
    rw [if_neg (by omega), hrun, ok_bind]
    exact ⟨_, rfl, .inr ⟨s.1, rfl, hnone, hs⟩⟩

/-! ## What a search answers -/

omit [LinearOrder D] in
/-- The guard lets one more than the limit through, also for the largest limit. -/
theorem le_oneMore {limit : Int32} (h : 0 < limit) : limit.toInt.toNat + 1 ≤ oneMore limit := by
  have hpos := Int32.lt_iff_toInt_lt.mp h
  have hmax := limit.toInt_lt
  have hadd : (limit + 1).toInt = (limit.toInt + 1).bmod (2 ^ 32) := Int32.toInt_add limit 1
  rw [oneMore, hadd, Int.bmod_def]
  simp only [Int32.toInt_zero] at hpos
  omega

section Answers

variable {index : HierarchicalNSW V} {labelToBookId : List Int32} {books : List Book}

/-- The books with these positions. -/
def near (books : List Book) (ids : List ℕ) : List Book := ids.filterMap fun id => books[id]?

theorem near_subset (ids : List ℕ) : near books ids ⊆ books := by
  intro book hbook
  obtain ⟨id, _, hget⟩ := List.mem_filterMap.mp hbook
  exact List.mem_of_getElem? hget

theorem near_length {ids : List ℕ} (hids : ∀ id ∈ ids, id < books.length) :
    (near books ids).length = ids.length := by
  induction ids with
  | nil => rfl
  | cons id ids ih =>
    obtain ⟨hid, hrest⟩ := List.forall_mem_cons.mp hids
    have hget : books[id]? = some books[id] := List.getElem?_eq_getElem hid
    have hrest' := ih hrest
    rw [near, List.filterMap_cons, hget]
    exact congrArg (· + 1) hrest'

theorem near_nodup (hbooks : (books.map Book.id).Nodup) {ids : List ℕ} (hids : ids.Nodup) :
    ((near books ids).map Book.id).Nodup := by
  have hone : (near books ids).Nodup := by
    refine hids.filterMap fun i j book hi hj => ?_
    obtain ⟨hlt, rfl⟩ := List.getElem?_eq_some_iff.mp hi
    obtain ⟨hlt', hsame⟩ := List.getElem?_eq_some_iff.mp hj
    exact ((hbooks.of_map Book.id).getElem_inj_iff.mp hsame).symm
  exact hone.map_on fun a ha b hb hab => List.inj_on_of_nodup_map hbooks (near_subset ids ha)
    (near_subset ids hb) hab

/-- Without the source itself. -/
def others (source : Book) (books : List Book) : List Book :=
  books.filter fun book => book.id ≠ source.id

theorem candidates_eq (books : List Book) (source : Book) :
    candidates books source = others source (active books) := rfl

theorem others_nodup (source : Book) {l : List Book} (hl : (l.map Book.id).Nodup) :
    ((others source l).map Book.id).Nodup :=
  hl.sublist (List.filter_sublist.map Book.id)

omit [LinearOrder D] in
theorem filterMap_score (source : Book) (l : List Book) :
    (l.filterMap fun book => if book.id = source.id then none else some (score m source book)) =
      (others source l).map (score m source) := by
  induction l with
  | nil => rfl
  | cons book l ih =>
    by_cases hsame : book.id = source.id
    · simp only [List.filterMap_cons, hsame, if_true, ih, others, List.filter_cons, ne_eq,
        not_true_eq_false, decide_false, Bool.false_eq_true, if_false]
    · simp only [List.filterMap_cons, hsame, if_false, ih, others, List.filter_cons, ne_eq,
        not_false_eq_true, decide_true, if_true, List.map_cons]

theorem scored_perm (h : Holds m index labelToBookId books) (source : Book) {k : ℕ}
    {ids : List ℕ} {nearest : List (D × ℕ)}
    (hnear : Neighbors m.distance index (m.embedBook source) k ids nearest) :
    (scored labelToBookId source nearest).Perm
      ((others source (near books ids)).map (score m source)) := by
  have hitem : ∀ id : ℕ, ((index.elements[id]?).map fun e : Element V =>
      (m.distance (m.embedBook source) e.data, e.label)).bind (scoredItem labelToBookId source) =
        (books[id]?).bind fun book =>
          if book.id = source.id then none else some (score m source book) := by
    intro id
    have hlabel : labelToBookId[id]? = (books[id]?).map Book.id := by
      rw [h.ids, List.getElem?_map]
    cases hbook : books[id]? with
    | none =>
      have hget := h.elements id
      rw [hbook, Option.map_none, Option.map_eq_none_iff] at hget
      rw [hget]
      rfl
    | some book =>
      rw [hbook, Option.map_some] at hlabel
      obtain ⟨e, he, hlabelled, hdata⟩ := h.element hbook
      rw [he, Option.map_some, Option.bind_some, Option.bind_some, scoredItem, hlabelled, hlabel,
        hdata]
      rfl
  have hsome : (nearest.map some).filterMap (fun o => o.bind (scoredItem labelToBookId source)) =
      nearest.filterMap (scoredItem labelToBookId source) := by
    rw [List.filterMap_map]
    rfl
  have hbooks : (ids.map fun id => (index.elements[id]?).map fun e : Element V =>
      (m.distance (m.embedBook source) e.data, e.label)).filterMap
        (fun o => o.bind (scoredItem labelToBookId source)) =
      (others source (near books ids)).map (score m source) := by
    rw [← filterMap_score, near, List.filterMap_filterMap, List.filterMap_map]
    exact List.filterMap_congr fun id _ => hitem id
  rw [← hbooks]
  refine ((drain_perm nearest).filterMap _).trans ?_
  rw [← hsome]
  exact hnear.entries.filterMap _

theorem sorted_scores (source : Book) {l : List Book} (hl : (l.map Book.id).Nodup)
    {pairs : List (D × Int32)} (hpairs : pairs.Perm (l.map (score m source))) :
    pairs.mergeSort (fun lhs rhs => !before rhs lhs) =
      (sortBy (rank m source) l).map (score m source) := by
  have hmap : ∃ l' : List Book, pairs = l'.map (score m source) ∧ l'.Perm l :=
    (congrFun (congrFun (List.eq_map_comp_perm (score m source)) pairs) l).mpr hpairs
  obtain ⟨l', rfl, hperm⟩ := hmap
  rw [← sortBy_eq_of_perm (ranks_nodup m source hl) hperm]
  exact (List.map_mergeSort fun a _ b _ => rank_le_iff m source a b).symm

/-- The books that a search with these neighbours answers. -/
def answer (m : Embedder V D) (source : Book) (limit : Int32) (l : List Book) : List Book :=
  (sortBy (rank m source) (others source l)).take limit.toInt.toNat

theorem searchSimilar_near (h : Holds m index labelToBookId books)
    (hbooks : (books.map Book.id).Nodup) (hne : books ≠ []) {source : Book}
    (hsource : 0 < source.id) {limit : Int32} (hlimit : 0 < limit) {ids : List ℕ}
    {nearest : List (D × ℕ)}
    (hrun : index.searchKnn m.distance (m.embedBook source)
      (min books.length (oneMore limit)) = .ok nearest)
    (hnear : Neighbors m.distance index (m.embedBook source) (min books.length (oneMore limit)) ids
      nearest) :
    searchSimilar m ⟨some index, labelToBookId⟩ source limit =
      .ok ((answer m source limit (near books ids)).map Book.id) := by
  have hpositive : (([] : List Int32).length : ℤ) < limit.toInt := Int32.lt_iff_toInt_lt.mp hlimit
  have hlength : labelToBookId.length = books.length := by rw [h.ids, List.length_map]
  have hpos := List.length_pos_of_ne_nil hne
  have hmore := le_oneMore hlimit
  have hguard : ¬ (labelToBookId.isEmpty ∨ source.id ≤ 0 ∨ limit ≤ 0) := by
    rintro (hempty | hguarded)
    · rw [List.isEmpty_iff.mp hempty, List.length_nil] at hlength
      omega
    · exact not_guarded hsource hlimit hguarded
  have hids := others_nodup source (near_nodup hbooks hnear.distinct)
  rw [searchSimilar]
  dsimp only
  rw [if_neg hguard, hlength, if_neg (by omega), hrun]
  dsimp only
  rw [sorted_scores source hids (scored_perm h source hnear), collect_eq [] _ hpositive,
    List.nil_append, List.map_map, answer, List.map_take]
  rfl

/-! ## Any number of books -/

theorem active_nodup (c : Catalogue) : ((active c.books).map Book.id).Nodup :=
  c.distinct.sublist (List.filter_sublist.map Book.id)

/-- At most one book has the id of the source. -/
theorem length_le_others (source : Book) {l : List Book} (hl : (l.map Book.id).Nodup) :
    l.length ≤ (others source l).length + 1 := by
  induction l with
  | nil => exact Nat.zero_le _
  | cons book l ih =>
    rw [List.map_cons, List.nodup_cons] at hl
    by_cases hsame : book.id = source.id
    · have hall : others source l = l := by
        rw [others, List.filter_eq_self]
        intro other hother
        rw [decide_eq_true_eq]
        intro heq
        exact hl.1 (List.mem_map.mpr ⟨other, hother, heq.trans hsame.symm⟩)
      rw [others, List.filter_cons, if_neg (by simp [hsame]), ← others, hall, List.length_cons]
    · have hrest := ih hl.2
      rw [others, List.filter_cons, if_pos (by simp [hsame]), ← others, List.length_cons,
        List.length_cons]
      omega

theorem answer_subset (source : Book) (limit : Int32) (l : List Book) :
    answer m source limit l ⊆ others source l := fun _ hbook =>
  (sortBy_perm _ _).subset (List.mem_of_mem_take hbook)

theorem answer_length (source : Book) (limit : Int32) (l : List Book) :
    (answer m source limit l).length = min limit.toInt.toNat (others source l).length := by
  rw [answer, List.length_take, (sortBy_perm _ _).length_eq]

end Answers

/-- What a search may answer. -/
structure Suggests (m : Embedder V D) (books : List Book) (source : Book) (limit : Int32)
    (taken : List Book) : Prop where
  candidates : taken ⊆ SimilarBooks.candidates books source
  length : (taken.length : ℤ) ≤ limit.toInt
  sorted : taken.Pairwise fun a b => rank m source a < rank m source b
  nonempty : SimilarBooks.candidates books source ≠ [] → taken ≠ []

/-- Whatever levels are drawn, the index is built and a search of it suggests other active
books, some of them when there are any. -/
theorem hnsw_suggests (m : Embedder V D) (levels : ℕ → ℕ) (c : Catalogue) {source : Book}
    (hsource : 0 < source.id) {limit : Int32} (hlimit : 0 < limit) :
    ∃ s taken, build m levels c.books = .ok s ∧
      searchSimilar m s source limit = .ok (taken.map Book.id) ∧
      Suggests m c.books source limit taken := by
  obtain ⟨s, hbuild, ⟨hnone, hindex⟩ | ⟨index, hindex, hne, hholds⟩⟩ := build_spec (m := m)
    levels c.books
  · have hcandidates : candidates c.books source = [] := by
      rw [candidates_eq, hnone]
      rfl
    have hpos := Int32.lt_iff_toInt_lt.mp hlimit
    refine ⟨s, [], hbuild, ?_, List.nil_subset _, hpos.le, .nil, absurd hcandidates⟩
    rw [searchSimilar, hindex]
    rfl
  · have hmore := le_oneMore hlimit
    have hpos := List.length_pos_of_ne_nil hne
    have hlimit' : 0 < limit.toInt := Int32.lt_iff_toInt_lt.mp hlimit
    obtain ⟨ids, nearest, hrun, hnear, htwo⟩ := searchKnn_spec m.distance hholds.sound
      (m.embedBook source) (k := min (active c.books).length (oneMore limit)) (by omega)
    have hdistinct := active_nodup c
    have hanswer := searchSimilar_near hholds hdistinct hne hsource hlimit hrun hnear
    have hrange : ∀ id ∈ ids, id < (active c.books).length := fun id hid =>
      hholds.length ▸ hnear.range id hid
    have hids := near_nodup hdistinct hnear.distinct
    have hothers := length_le_others source hids
    rw [near_length hrange] at hothers
    rw [hholds.length] at htwo
    have hsome : s = ⟨some index, s.labelToBookId⟩ := by rw [← hindex]
    refine ⟨s, answer m source limit (near (active c.books) ids), hbuild, hsome ▸ hanswer, ?_⟩
    have hlength := answer_length (m := m) source limit (near (active c.books) ids)
    refine ⟨fun book hbook => ?_, by omega, ?_, fun hcandidates hnil => ?_⟩
    · obtain ⟨hmem, hother⟩ := List.mem_filter.mp (answer_subset source limit _ hbook)
      exact List.mem_filter.mpr ⟨near_subset ids hmem, hother⟩
    · have hnodup := ranks_nodup m source (others_nodup source hids)
      exact (sortBy_pairwise_lt hnodup).sublist (List.take_sublist _ _)
    · rw [hnil, List.length_nil] at hlength
      have hnone : (others source (near (active c.books) ids)).length = 0 := by omega
      -- One book was found and it is the source, so it is the only one.
      have hone : (active c.books).length = 1 ∧ ids.length = 1 := by omega
      obtain ⟨book, hbook⟩ := List.exists_mem_of_ne_nil _ hcandidates
      obtain ⟨hactive, hother⟩ := List.mem_filter.mp hbook
      obtain ⟨only, honly⟩ := List.length_eq_one_iff.mp
        ((near_length hrange).trans hone.2)
      obtain ⟨first, hfirst⟩ := List.length_eq_one_iff.mp hone.1
      have hmem : only ∈ active c.books := near_subset ids (honly ▸ List.mem_singleton_self only)
      have hbook' : book ∈ active c.books := hactive
      rw [hfirst, List.mem_singleton] at hmem hbook'
      rw [List.length_eq_zero_iff, others, List.filter_eq_nil_iff, honly] at hnone
      exact hnone only (List.mem_singleton_self only) (by rw [hmem, ← hbook']; exact hother)

theorem shelf_suggests : ∃ s taken, build byPrice (fun label => label % 2) shelf.books = .ok s ∧
    searchSimilar byPrice s ⟨1, "Dune", "Herbert", 900, 3, "active"⟩ 1 =
      .ok (taken.map Book.id) ∧
    Suggests byPrice shelf.books ⟨1, "Dune", "Herbert", 900, 3, "active"⟩ 1 taken :=
  hnsw_suggests byPrice _ shelf (by decide) (by decide)

/-! ## Up to 33 books -/

section Agreement

variable {E : Type} [LinearOrder E]

/-- The same embeddings, measured by the index. hnswlib adds the squares up in another
order than `TopKRecommendationIndex` does, so that the two sums may be rounded otherwise. -/
def withSpace (m : Embedder V D) (fstdistfunc : V → V → E) : Embedder V E where
  embedBook := m.embedBook
  distance := fstdistfunc

/-- Around the source, both distances put the candidates in one order. -/
def OrderAlike (m : Embedder V D) (fstdistfunc : V → V → E) (books : List Book)
    (source : Book) : Prop :=
  ∀ a ∈ SimilarBooks.candidates books source, ∀ b ∈ SimilarBooks.candidates books source,
    (fstdistfunc (m.embedBook source) (m.embedBook a) ≤
        fstdistfunc (m.embedBook source) (m.embedBook b) ↔
      m.distance (m.embedBook source) (m.embedBook a) ≤
        m.distance (m.embedBook source) (m.embedBook b))

variable {fstdistfunc : V → V → E} {books : List Book} {source : Book}

theorem OrderAlike.rank_le {a b : Book} (h : OrderAlike m fstdistfunc books source)
    (ha : a ∈ candidates books source) (hb : b ∈ candidates books source)
    (hle : rank (withSpace m fstdistfunc) source a ≤ rank (withSpace m fstdistfunc) source b) :
    rank m source a ≤ rank m source b := by
  rcases Prod.Lex.toLex_le_toLex.mp hle with hlt | ⟨heq, hid⟩
  · have hnot := mt (h b hb a ha).mpr (not_le.mpr hlt)
    exact Prod.Lex.toLex_le_toLex.mpr (.inl (not_le.mp hnot))
  · have hab := (h a ha b hb).mp heq.le
    have hba := (h b hb a ha).mp heq.ge
    exact Prod.Lex.toLex_le_toLex.mpr (.inr ⟨le_antisymm hab hba, hid⟩)

theorem OrderAlike.answer_eq (h : OrderAlike m fstdistfunc books source) (limit : Int32)
    {l : List Book} (hl : (l.map Book.id).Nodup)
    (hsub : others source l ⊆ candidates books source) :
    answer (withSpace m fstdistfunc) source limit l = answer m source limit l := by
  rw [answer, answer, sortBy_congr (ranks_nodup m source (others_nodup source hl))]
  exact fun a ha b hb hle => h.rank_le (hsub ha) (hsub hb) hle

/-- What the two backends agree on. -/
structure AsNear (m : Embedder V D) (books : List Book) (source : Book)
    (taken exact : List Book) : Prop where
  distances : taken.map (fun book => m.distance (m.embedBook source) (m.embedBook book)) =
    exact.map fun book => m.distance (m.embedBook source) (m.embedBook book)
  same : ((SimilarBooks.candidates books source).map fun book =>
    m.distance (m.embedBook source) (m.embedBook book)).Nodup → taken = exact

theorem asNear (m : Embedder V D) {books : List Book} (source : Book) (limit : Int32)
    {rest taken : List Book} (hperm : (active books).Perm (taken ++ rest))
    (hnear : ∀ a ∈ others source taken, ∀ b ∈ others source rest,
      m.distance (m.embedBook source) (m.embedBook a) ≤
        m.distance (m.embedBook source) (m.embedBook b))
    (henough : min limit.toInt.toNat (candidates books source).length ≤
      (others source taken).length) :
    AsNear m books source (answer m source limit taken) (found m books source limit) := by
  have hothers : (candidates books source).Perm (others source taken ++ others source rest) := by
    have hfilter := hperm.filter fun book => book.id ≠ source.id
    rwa [List.filter_append] at hfilter
  have hmap : (answer m source limit taken).map
      (fun book => m.distance (m.embedBook source) (m.embedBook book)) =
        (found m books source limit).map fun book =>
          m.distance (m.embedBook source) (m.embedBook book) := by
    refine take_map_sortBy ?_ hothers hnear henough
    intro a b hle
    rcases Prod.Lex.toLex_le_toLex.mp hle with hlt | ⟨heq, _⟩
    · exact hlt.le
    · exact heq.le
  refine ⟨hmap, fun hdistinct => eq_of_map_dist (fun a ha b hb => ?_) hmap⟩
  exact List.inj_on_of_nodup_map hdistinct
    (hothers.symm.subset (List.mem_append_left _ (answer_subset source limit taken ha)))
    ((sortBy_perm _ _).subset (List.mem_of_mem_take hb))

/-- The books at these positions, and the books that were left out. -/
theorem exists_left_out {ids : List ℕ} (hids : ((near books ids).map Book.id).Nodup) :
    ∃ rest, books.Perm (near books ids ++ rest) := by
  obtain ⟨kept, hkept, hsub⟩ := List.subperm_of_subset (hids.of_map Book.id) (near_subset ids)
  obtain ⟨rest, hrest⟩ := hsub.exists_perm_append
  exact ⟨rest, hrest.trans (hkept.append_right rest)⟩

/-- No candidate that an exact search left out is nearer than one that it found. -/
theorem left_out_farther {index : HierarchicalNSW V} {labelToBookId : List Int32} {ids : List ℕ}
    {rest : List Book} (hholds : Holds (withSpace m fstdistfunc) index labelToBookId (active books))
    (hdistinct : ((active books).map Book.id).Nodup)
    (hnearest : Nearest fstdistfunc index (m.embedBook source) ids)
    (halike : OrderAlike m fstdistfunc books source)
    (hperm : (active books).Perm (near (active books) ids ++ rest)) :
    ∀ a ∈ others source (near (active books) ids), ∀ b ∈ others source rest,
      m.distance (m.embedBook source) (m.embedBook a) ≤
        m.distance (m.embedBook source) (m.embedBook b) := by
  intro a ha b hb
  obtain ⟨hafound, haother⟩ := List.mem_filter.mp ha
  obtain ⟨hbrest, hbother⟩ := List.mem_filter.mp hb
  obtain ⟨id, hid, ha'⟩ := List.mem_filterMap.mp hafound
  obtain ⟨out, hout⟩ := List.getElem?_of_mem
    (hperm.symm.subset (List.mem_append_right _ hbrest))
  have hleft : out ∉ ids := by
    intro hin
    have hnodup := hperm.nodup_iff.mp (hdistinct.of_map Book.id)
    exact List.disjoint_of_nodup_append hnodup (List.mem_filterMap.mpr ⟨out, hin, hout⟩) hbrest
  obtain ⟨e, he, _, hdata⟩ := hholds.element ha'
  obtain ⟨e', he', _, hdata'⟩ := hholds.element hout
  have hle := hnearest id hid out hleft e e' he he'
  rw [hdata, hdata'] at hle
  exact (halike a (List.mem_filter.mpr ⟨near_subset ids hafound, haother⟩) b
    (List.mem_filter.mpr ⟨List.mem_of_getElem? hout, hbother⟩)).mp hle

/-- Up to 33 active books, the two backends answer equally near books where their distances
order the candidates alike, and the same ones where no two are equally near. -/
theorem hnsw_agrees (m : Embedder V D) (fstdistfunc : V → V → E) (levels : ℕ → ℕ)
    (c : Catalogue) (hfew : (active c.books).length ≤ 33) {source : Book}
    (hsource : 0 < source.id) {limit : Int32} (hlimit : 0 < limit)
    (halike : OrderAlike m fstdistfunc c.books source) :
    ∃ s taken exact, build (withSpace m fstdistfunc) levels c.books = .ok s ∧
      searchSimilar (withSpace m fstdistfunc) s source limit = .ok (taken.map Book.id) ∧
      SimilarBooks.searchSimilar m (SimilarBooks.build m c.books) source limit =
        exact.map Book.id ∧
      AsNear m c.books source taken exact := by
  have htopk := searchSimilar_build m c.books hsource hlimit
  obtain ⟨s, hbuild, ⟨hnone, hindex⟩ | ⟨index, hindex, hne, hholds⟩⟩ :=
    build_spec (m := withSpace m fstdistfunc) levels c.books
  · have hempty : answer m source limit [] = [] := by
      rw [answer, others, List.filter_nil, sortBy, List.mergeSort_nil, List.take_nil]
    have hanswer : searchSimilar (withSpace m fstdistfunc) s source limit = .ok [] := by
      rw [searchSimilar, hindex]
      rfl
    refine ⟨s, [], found m c.books source limit, hbuild, hanswer, htopk, ?_⟩
    rw [← hempty]
    have hrest : (active c.books).Perm ([] ++ []) := by rw [hnone]; rfl
    refine asNear m source limit hrest (by simp [others]) ?_
    rw [candidates_eq, hnone]
    exact Nat.min_le_right _ _
  · have hmore := le_oneMore hlimit
    have hpos := List.length_pos_of_ne_nil hne
    have hdegree := hholds.degree
    have hef := hholds.ef
    obtain ⟨ids, nearest, hrun, hnear, hcount, hnearest⟩ := searchKnn_exact fstdistfunc
      hholds.sound (by rw [hholds.length]; omega) (m.embedBook source)
      (k := min (active c.books).length (oneMore limit)) (by omega)
      (by rw [hholds.length]; omega)
    have hdistinct := active_nodup c
    have hanswer := searchSimilar_near hholds hdistinct hne hsource hlimit hrun hnear
    have hsome : s = ⟨some index, s.labelToBookId⟩ := by rw [← hindex]
    have hids := near_nodup hdistinct hnear.distinct
    have hsubset : near (active c.books) ids ⊆ active c.books := near_subset ids
    have hothers_sub : others source (near (active c.books) ids) ⊆ candidates c.books source :=
      fun book hbook => List.mem_filter.mpr
        ⟨hsubset (List.mem_of_mem_filter hbook), (List.mem_filter.mp hbook).2⟩
    rw [halike.answer_eq limit hids hothers_sub] at hanswer
    refine ⟨s, answer m source limit (near (active c.books) ids), found m c.books source limit,
      hbuild, hsome ▸ hanswer, htopk, ?_⟩
    obtain ⟨rest, hperm⟩ := exists_left_out hids
    refine asNear m source limit hperm
      (left_out_farther hholds hdistinct hnearest halike hperm) ?_
    have hothers := length_le_others source hids
    have hall : (candidates c.books source).length =
        (others source (near (active c.books) ids)).length + (others source rest).length := by
      rw [candidates_eq, others, (hperm.filter _).length_eq, List.filter_append,
        List.length_append]
      rfl
    have hfiltered : (others source rest).length ≤ rest.length := List.length_filter_le _ _
    have hsize := hperm.length_eq
    rw [List.length_append] at hsize
    rw [near_length fun id hid => hholds.length ▸ hnear.range id hid] at hothers hsize
    rw [hholds.length] at hcount
    omega

end Agreement

/-- One backend squares the differences and the other one does not. -/
theorem shelf_agrees :
    ∃ s taken exact,
      build (withSpace byPrice fun x y => (x - y).natAbs) (fun label => label % 2)
        shelf.books = .ok s ∧
      searchSimilar (withSpace byPrice fun x y => (x - y).natAbs) s
        ⟨1, "Dune", "Herbert", 900, 3, "active"⟩ 1 = .ok (taken.map Book.id) ∧
      SimilarBooks.searchSimilar byPrice (SimilarBooks.build byPrice shelf.books)
        ⟨1, "Dune", "Herbert", 900, 3, "active"⟩ 1 = exact.map Book.id ∧
      AsNear byPrice shelf.books ⟨1, "Dune", "Herbert", 900, 3, "active"⟩ taken exact :=
  hnsw_agrees byPrice _ _ shelf (by decide) (by decide) (by decide)
    fun _ _ _ _ => Int.natAbs_le_iff_mul_self_le

end Bookstore.HnswRecommendations
