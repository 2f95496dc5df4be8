import Bookstore.BookClients
import Bookstore.TopK
import Mathlib.Data.Prod.Lex

/-!
`TopKRecommendationIndex` and `RecommendService`. The index keeps the embeddings of
the active books; a search sorts them by distance and id and takes the first ones,
and the service looks the books up again.
-/
namespace Bookstore.SimilarBooks

open BookClients BookRpc Books Interleaving MachineInt Records Repositories TopK

/-! ## The index -/

/-- `embed_book`, and the distance of two embeddings. -/
structure Embedder (V D : Type) where
  embedBook : Book → V
  distance : V → V → D

structure Entry (V : Type) where
  bookId : Int32
  embedding : V

variable {V D σ : Type} [LinearOrder D] (m : Embedder V D)

/-- The comparator of `std::sort`. -/
def before (lhs rhs : D × Int32) : Bool :=
  if lhs.1 = rhs.1 then decide (lhs.2 < rhs.2) else decide (lhs.1 < rhs.1)

/-- The last loop, which stops at the limit. -/
def collect (limit : Int32) (results : List Int32) : List (D × Int32) → List Int32
  | [] => results
  | item :: rest =>
    let results := results ++ [item.2]
    if limit ≤ Int32.ofNat results.length then results else collect limit results rest

def build (books : List Book) : List (Entry V) :=
  (books.filter fun book => book.status = "active").map fun book => ⟨book.id, m.embedBook book⟩

def searchSimilar (entries : List (Entry V)) (book : Book) (limit : Int32) : List Int32 :=
  if entries.isEmpty ∨ book.id ≤ 0 ∨ limit ≤ 0 then []
  else
    let query := m.embedBook book
    let scored := (entries.filter fun entry => entry.bookId ≠ book.id).map fun entry =>
      (m.distance query entry.embedding, entry.bookId)
    collect limit [] (scored.mergeSort fun lhs rhs => !before rhs lhs)

/-! ## The service -/

/-- `rebuild`: what the index is built from. -/
def rebuild (bookClient : Option (BookRepository σ)) : Prog σ (List (Entry V)) :=
  match bookClient with
  | none => pure (build m [])
  | some client => do
    let books ← client.listBooks
    pure (build m books)

/-- The loop that looks the candidates up. -/
def activeBooks (client : BookRepository σ) : List Int32 → Prog σ (List Book)
  | [] => pure []
  | candidateId :: rest => do
    let book ← client.findBook candidateId
    let books ← activeBooks client rest
    pure (match book with
      | some book => if book.status ≠ "active" then books else book :: books
      | none => books)

/-- `similar_books`, with `index_`. -/
def similarBooks (bookClient : Option (BookRepository σ)) (index : List (Entry V))
    (bookId limit : Int32) : Prog σ (Option (List Book)) :=
  match bookClient with
  | none => pure none
  | some client =>
    if bookId ≤ 0 ∨ limit ≤ 0 then pure none
    else do
      let source ← client.findBook bookId
      match source with
      | none => pure none
      | some source =>
        if index.isEmpty then pure (some [])
        else do
          let books ← activeBooks client (searchSimilar m index source limit)
          pure (some books)

/-! ## What is to be returned -/

structure Catalogue where
  books : List Book
  distinct : (books.map Book.id).Nodup

def active (books : List Book) : List Book := books.filter fun book => book.status = "active"

theorem active_active (books : List Book) : active (active books) = active books := by
  simp [active]

/-- The active books other than the source. -/
def candidates (books : List Book) (source : Book) : List Book :=
  (books.filter fun book => book.status = "active").filter fun book => book.id ≠ source.id

/-- The order of the results: by distance, then by id. -/
def rank (source book : Book) : D ×ₗ ℤ :=
  toLex (m.distance (m.embedBook source) (m.embedBook book), book.id.toInt)

/-- A client over a catalogue that does not change: in the states that its calls keep, it
lists the active books in some order, with or without others, and finds every book. -/
structure Serves (client : BookRepository σ) (Good : σ → Prop) (books : List Book) : Prop where
  list : ∀ s, Good s → (active (client.listBooks.run s).1).Perm (active books) ∧
    Good (client.listBooks.run s).2
  find : ∀ s, Good s → ∀ book ∈ books, ((client.findBook book.id).run s).1 = some book ∧
    Good ((client.findBook book.id).run s).2

/-- The service with an index built in one state answers the books in another. -/
def Answers (client : BookRepository σ) (Good : σ → Prop) (source : Book) (limit : Int32)
    (taken : List Book) : Prop :=
  ∀ s, Good s → Good ((rebuild m (some client)).run s).2 ∧ ∀ s', Good s' →
    let r := (similarBooks m (some client) ((rebuild m (some client)).run s).1 source.id
      limit).run s'
    r.1 = some taken ∧ Good r.2

/-- The books that are taken are the first ones by rank, in this order; they do not depend
on the order of the catalogue, and the service answers them when it knows the source. -/
structure Exact (c : Catalogue) (source : Book) (limit : Int32) (taken : List Book) : Prop where
  top : IsTopK (rank m source) limit.toInt.toNat (candidates c.books source) taken
  distinct : (taken.map Book.id).Nodup
  search : ∀ books, books.Perm c.books →
    searchSimilar m (build m books) source limit = taken.map Book.id
  service : ∀ {σ : Type} (client : BookRepository σ) (Good : σ → Prop),
    Serves client Good c.books → source ∈ c.books → Answers m client Good source limit taken

/-! ## The search -/

section Search

omit [LinearOrder D] in
theorem collect_eq {limit : Int32} (results : List Int32) (items : List (D × Int32))
    (h : (results.length : ℤ) < limit.toInt) : collect limit results items =
      (results ++ items.map Prod.snd).take limit.toInt.toNat := by
  induction items generalizing results with
  | nil =>
    rw [List.map_nil, List.append_nil, List.take_of_length_le (by omega)]
    rfl
  | cons item rest ih =>
    have hmax := limit.toInt_lt
    have hlength : (results ++ [item.2]).length = results.length + 1 := by
      rw [List.length_append, List.length_singleton]
    have hcount : (Int32.ofNat (results ++ [item.2]).length).toInt = results.length + 1 := by
      rw [Int32.toInt_ofNat_of_lt (by omega), hlength]
      rfl
    have hsplit : results ++ (item :: rest).map Prod.snd =
        results ++ [item.2] ++ rest.map Prod.snd := by
      rw [List.map_cons, List.append_assoc, List.singleton_append]
    rw [collect, hsplit]
    by_cases hfull : limit ≤ Int32.ofNat (results ++ [item.2]).length
    · have hle := Int32.le_iff_toInt_le.mp hfull
      rw [hcount] at hle
      rw [if_pos hfull, List.take_left' (by omega)]
    · have hlt : ¬ limit.toInt ≤ results.length + 1 := by
        rw [← hcount]
        exact fun h => hfull (Int32.le_iff_toInt_le.mpr h)
      rw [if_neg hfull, ih _ (by omega)]

/-- What `scored` holds for a book. -/
def score (source book : Book) : D × Int32 :=
  (m.distance (m.embedBook source) (m.embedBook book), book.id)

/-- The comparator orders the books by rank. -/
theorem rank_le_iff (source a b : Book) :
    decide (rank m source a ≤ rank m source b) = !before (score m source b) (score m source a) := by
  rw [rank, rank, before, Bool.eq_iff_iff, decide_eq_true_eq, Prod.Lex.toLex_le_toLex]
  by_cases hsame : (score m source b).1 = (score m source a).1
  · rw [if_pos hsame, Bool.not_eq_true', decide_eq_false_iff_not, Int32.lt_iff_toInt_lt, not_lt]
    exact ⟨fun h => h.elim (fun hlt => absurd hsame.symm (ne_of_lt hlt)) And.right,
      fun h => .inr ⟨hsame.symm, h⟩⟩
  · rw [if_neg hsame, Bool.not_eq_true', decide_eq_false_iff_not, not_lt]
    exact ⟨fun h => h.elim le_of_lt fun hboth => absurd hboth.1.symm hsame,
      fun h => .inl (lt_of_le_of_ne h (Ne.symm hsame))⟩

theorem candidates_sub (books : List Book) (source : Book) :
    (candidates books source).Sublist books :=
  List.filter_sublist.trans List.filter_sublist

omit [LinearOrder D] in
/-- Books with different ids have different ranks. -/
theorem ranks_nodup (source : Book) {l : List Book} (hl : (l.map Book.id).Nodup) :
    (l.map (rank m source)).Nodup := by
  rw [List.Nodup, List.pairwise_map] at hl ⊢
  refine hl.imp fun hne heq => hne (Int32.toInt_inj.mp ?_)
  exact congrArg (fun r => (ofLex r).2) heq

theorem candidates_nodup {books : List Book} (h : (books.map Book.id).Nodup) (source : Book) :
    ((candidates books source).map Book.id).Nodup :=
  h.sublist ((candidates_sub books source).map Book.id)

/-- The books that a search finds. -/
def found (books : List Book) (source : Book) (limit : Int32) : List Book :=
  (sortBy (rank m source) (candidates books source)).take limit.toInt.toNat

theorem found_of_empty {books : List Book} (h : (build m books).isEmpty = true) (source : Book)
    (limit : Int32) : found m books source limit = [] := by
  have hnone : books.filter (fun book => book.status = "active") = [] :=
    List.map_eq_nil_iff.mp (List.isEmpty_iff.mp h)
  rw [found, candidates, hnone, List.filter_nil, sortBy, List.mergeSort_nil, List.take_nil]

theorem not_guarded {id limit : Int32} (hid : 0 < id) (hlimit : 0 < limit) :
    ¬ (id ≤ 0 ∨ limit ≤ 0) :=
  fun h => h.elim (fun hle => absurd hid (Int32.not_lt.mpr hle))
    fun hle => absurd hlimit (Int32.not_lt.mpr hle)

theorem searchSimilar_build (books : List Book) {source : Book} {limit : Int32}
    (hsource : 0 < source.id) (hlimit : 0 < limit) :
    searchSimilar m (build m books) source limit = (found m books source limit).map Book.id := by
  have hpositive : (([] : List Int32).length : ℤ) < limit.toInt := Int32.lt_iff_toInt_lt.mp hlimit
  have hscored : ((build m books).filter fun entry => entry.bookId ≠ source.id).map
      (fun entry => (m.distance (m.embedBook source) entry.embedding, entry.bookId)) =
        (candidates books source).map (score m source) := by
    rw [build, List.filter_map, List.map_map]
    rfl
  have hsort : ((candidates books source).map (score m source)).mergeSort
      (fun lhs rhs => !before rhs lhs) =
        (sortBy (rank m source) (candidates books source)).map (score m source) :=
    (List.map_mergeSort fun a _ b _ => rank_le_iff m source a b).symm
  have hids (l : List Book) : (l.map (score m source)).map Prod.snd = l.map Book.id := by
    rw [List.map_map]
    rfl
  by_cases hempty : (build m books).isEmpty = true
  · rw [searchSimilar, if_pos (.inl hempty), found_of_empty m hempty, List.map_nil]
  · have hguard : ¬ ((build m books).isEmpty ∨ source.id ≤ 0 ∨ limit ≤ 0) :=
      fun h => h.elim hempty (not_guarded hsource hlimit)
    rw [searchSimilar, if_neg hguard]
    dsimp only
    rw [hscored, hsort, collect_eq [] _ hpositive, List.nil_append, hids, found, List.map_take]

end Search

/-! ## The lookups -/

section Lookups

variable {client : BookRepository σ} {Good : σ → Prop} {books : List Book}

theorem lookup_mem (h : (books.map Book.id).Nodup) {book : Book} (hbook : book ∈ books) :
    lookup books book.id = some book := by
  rw [lookup]
  cases hfind : books.find? fun other => other.id = book.id with
  | none => exact absurd (decide_eq_true rfl) (List.find?_eq_none.mp hfind book hbook)
  | some other =>
    have hid := List.find?_some hfind
    rw [decide_eq_true_eq] at hid
    rw [List.inj_on_of_nodup_map h (List.mem_of_find?_eq_some hfind) hbook hid]

theorem activeBooks_run (hclient : Serves client Good books) {taken : List Book}
    (htaken : ∀ book ∈ taken, book ∈ books ∧ book.status = "active") {s : σ} (hs : Good s) :
    ((activeBooks client (taken.map Book.id)).run s).1 = taken ∧
      Good ((activeBooks client (taken.map Book.id)).run s).2 := by
  induction taken generalizing s with
  | nil => exact ⟨rfl, hs⟩
  | cons book taken ih =>
    obtain ⟨⟨hbook, hactive⟩, hrest⟩ := List.forall_mem_cons.mp htaken
    obtain ⟨hfound, hgood⟩ := hclient.find s hs book hbook
    obtain ⟨hothers, hkept⟩ := ih hrest hgood
    simp only [List.map_cons, activeBooks, Prog.run_bind, Prog.run_pure, hfound, hothers, hactive,
      ne_eq, not_true_eq_false, if_false, true_and]
    exact hkept

end Lookups

/-- The active books decide what is found, in whatever order they are listed. -/
theorem found_of_perm (c : Catalogue) {books : List Book} (h : (active books).Perm (active c.books))
    (source : Book) (limit : Int32) :
    found m books source limit = found m c.books source limit := by
  have hcandidates : (candidates books source).Perm (candidates c.books source) := h.filter _
  have hranks := ranks_nodup m source (candidates_nodup c.distinct source)
  rw [found, found, sortBy_eq_of_perm hranks hcandidates]

theorem service_answers (c : Catalogue) {source : Book} (hsource : 0 < source.id)
    {limit : Int32} (hlimit : 0 < limit) {client : BookRepository σ} {Good : σ → Prop}
    (hclient : Serves client Good c.books) (hin : source ∈ c.books)
    (hmem : ∀ book ∈ found m c.books source limit, book ∈ c.books ∧ book.status = "active") :
    Answers m client Good source limit (found m c.books source limit) := by
  intro s hs
  obtain ⟨hlisted, hgood⟩ := hclient.list s hs
  have hrebuild : (rebuild m (some client)).run s =
      (build m (client.listBooks.run s).1, (client.listBooks.run s).2) := by
    simp only [rebuild, Prog.run_bind, Prog.run_pure]
  rw [hrebuild]
  refine ⟨hgood, fun s' hs' => ?_⟩
  obtain ⟨hsome, hkept⟩ := hclient.find s' hs' source hin
  have hfound := found_of_perm m c hlisted source limit
  rw [similarBooks]
  dsimp only
  rw [if_neg (not_guarded hsource hlimit), Prog.run_bind, hsome]
  dsimp only
  rw [searchSimilar_build m _ hsource hlimit]
  by_cases hempty : (build m (client.listBooks.run s).1).isEmpty = true
  · rw [if_pos hempty, ← hfound, found_of_empty m hempty, Prog.run_pure]
    exact ⟨rfl, hkept⟩
  · obtain ⟨hbooks, hlast⟩ := activeBooks_run hclient hmem hkept
    rw [if_neg hempty, Prog.run_bind, hfound]
    exact ⟨congrArg some hbooks, hlast⟩

/-- A search takes the exact first books, and so does the service. -/
theorem similar_books_exact (c : Catalogue) {source : Book} (hsource : 0 < source.id)
    {limit : Int32} (hlimit : 1 ≤ limit) : ∃ taken, Exact m c source limit taken := by
  have hpositive : 0 < limit := Int32.lt_of_lt_of_le (by decide) hlimit
  have htop := isTopK_take (ranks_nodup m source (candidates_nodup c.distinct source))
    limit.toInt.toNat
  have hmem : ∀ book ∈ found m c.books source limit, book ∈ c.books ∧ book.status = "active" := by
    intro book hbook
    have hcandidate := htop.mem book hbook
    exact ⟨(candidates_sub c.books source).subset hcandidate,
      of_decide_eq_true (List.mem_filter.mp (List.mem_filter.mp hcandidate).1).2⟩
  refine ⟨found m c.books source limit, htop, ?_, fun books hperm => ?_,
    fun client Good hclient hin => service_answers m c hsource hpositive hclient hin hmem⟩
  · have hsorted := ((sortBy_perm (rank m source) (candidates c.books source)).map
      Book.id).nodup_iff.mpr (candidates_nodup c.distinct source)
    rw [found, List.map_take]
    exact hsorted.sublist (List.take_sublist _ _)
  · rw [searchSimilar_build m books hsource hpositive, found_of_perm m c (hperm.filter _)]

/-! ## Clients that serve a catalogue -/

section Clients

variable {repository : BookRepository σ} {Good : σ → Prop} {books : List Book}

/-- A repository that holds the books and nothing else. -/
theorem serves_of_keeps {held : σ → List Book} (h : KeepsCatalogue repository held) (s : σ)
    (hdistinct : ((held s).map Book.id).Nodup) : Serves repository (· = s) (held s) where
  list t ht := by
    rw [ht, h.list]
    exact ⟨.refl _, rfl⟩
  find t ht book hbook := by
    rw [ht, h.find, lookup_mem hdistinct hbook]
    exact ⟨rfl, rfl⟩

theorem Serves.localClient (h : Serves repository Good books) :
    Serves (localBookClient repository) Good books := ⟨h.list, h.find⟩

/-- ListBooks leaves the inactive books out, the others come through a message. -/
theorem Serves.grpcClient (h : Serves repository Good books)
    (hbooks : ∀ book ∈ books, 0 < book.id ∧ Listed book.status) :
    Serves (grpcBookClient (bookServer repository)) Good books where
  list s hs := by
    obtain ⟨hlisted, hgood⟩ := h.list s hs
    have hrun : (grpcBookClient (bookServer repository)).listBooks.run s =
        ((active (repository.listBooks.run s).1).map fun book => bookFromProto (fillBook book),
          (repository.listBooks.run s).2) := by
      simp [grpcBookClient, bookServer, BookRpc.listBooks, bookService, booksOf, active]
    have hsame : (active (repository.listBooks.run s).1).map
        (fun book => bookFromProto (fillBook book)) = active (repository.listBooks.run s).1 := by
      refine (List.map_congr_left fun book hbook => ?_).trans (List.map_id _)
      exact bookFromProto_fill_listed (.inl (of_decide_eq_true (List.mem_filter.mp hbook).2))
    rw [hrun, hsame, active_active]
    exact ⟨hlisted, hgood⟩
  find s hs book hbook := by
    obtain ⟨hpos, hstatus⟩ := hbooks book hbook
    obtain ⟨hfound, hgood⟩ := h.find s hs book hbook
    have hid : ¬ book.id ≤ 0 := Int32.not_le.mpr hpos
    have hrun : ((grpcBookClient (bookServer repository)).findBook book.id).run s =
        (some (bookFromProto (fillBook book)), ((repository.findBook book.id).run s).2) := by
      simp [grpcBookClient, BookRpc.findBook, bookServer, getBook, bookService,
        toInt64_le_zero_iff, hid, hfound, respond, bookOf]
    rw [hrun, bookFromProto_fill_listed hstatus]
    exact ⟨rfl, hgood⟩

end Clients

/-! ## Four books -/

/-- Books that cost about the same are similar. -/
def byPrice : Embedder ℤ ℤ where
  embedBook book := book.priceCents.toInt
  distance x y := (x - y) * (x - y)

def shelf : Catalogue where
  books := [⟨1, "Dune", "Herbert", 900, 3, "active"⟩, ⟨2, "Emma", "Austen", 700, 1, "active"⟩,
    ⟨3, "Ulysses", "Joyce", 1100, 0, "active"⟩, ⟨4, "Walden", "Thoreau", 900, 2, "inactive"⟩]
  distinct := by decide

theorem shelf_exact :
    ∃ taken, Exact byPrice shelf ⟨1, "Dune", "Herbert", 900, 3, "active"⟩ 1 taken :=
  similar_books_exact byPrice shelf (by decide) (by decide)

end Bookstore.SimilarBooks
