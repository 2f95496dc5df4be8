import Bookstore.BookRpc
import Bookstore.Runs

/-!
LocalBookClient and GrpcBookClient over one repository: when the two go on
giving the same replies. A repository of which the catalogue is all there is,
such as MemoryBookRepository, tells them apart at four kinds of calls only.
-/
namespace Bookstore.BookClients

open BookRpc Books Interleaving InventoryRpc MachineInt Records Repositories Runs

variable {τ σ : Type}

/-- A book as the services accept it. -/
def Valid (book : Book) : Prop := ¬ Refused book ∧ Listed book.status

def lookup (books : List Book) (bookId : Int32) : Option Book :=
  books.find? fun book => book.id = bookId

open MemoryBookRepository in
/-- A repository that holds a list of books and nothing else: it lists and
finds them, appends a valid book under an id of its own, and updates the first
book of an id. -/
structure KeepsCatalogue (repository : BookRepository τ) (books : τ → List Book) : Prop where
  list : ∀ s, repository.listBooks.run s = (books s, s)
  find : ∀ id s, (repository.findBook id).run s = (lookup (books s) id, s)
  create : ∀ book s, Valid book → ∃ id,
    ((repository.createBook book).run s).1 = some { book with id := id } ∧
      books ((repository.createBook book).run s).2 = books s ++ [{ book with id := id }]
  update : ∀ id update s, 0 < id.toInt →
    ((repository.updateBook id update).run s).1 = (lookup (books s) id).map update.apply ∧
      books ((repository.updateBook id update).run s).2 = updateFirst id update (books s)
  ext : ∀ s t, books s = books t → s = t

/-! ## MemoryBookRepository is such a repository -/

theorem updateFirst_of_none {books : List Book} {id : Int32} (h : lookup books id = none)
    (update : BookUpdate) : MemoryBookRepository.updateFirst id update books = books := by
  induction books with
  | nil => rfl
  | cons book rest ih =>
    by_cases hid : book.id = id
    · simp [lookup, hid] at h
    · have hrest : lookup rest id = none := by simpa [lookup, hid] using h
      rw [MemoryBookRepository.updateFirst, if_neg hid, ih hrest]

theorem memory_keeps : KeepsCatalogue memoryBookRepository MemoryBooks.books where
  list _ := rfl
  find _ _ := rfl
  create book s hvalid := by
    have hstatus : (if book.status = "" then "active" else book.status) = book.status := by
      rcases hvalid.2 with h | h <;> rw [h] <;> rfl
    refine ⟨MemoryBookRepository.nextBookId s.books, ?_⟩
    simp only [memoryBookRepository, Prog.run_call, MemoryBookRepository.createBook, hvalid.1,
      if_false, hstatus, and_self]
  update id update s hpos := by
    have hid : ¬ id ≤ 0 := by
      rw [Int32.le_iff_toInt_le, Int32.toInt_zero]
      omega
    have hfind : s.findBook id = lookup s.books id := rfl
    simp only [memoryBookRepository, Prog.run_call, MemoryBookRepository.updateBook, hid, if_false,
      hfind]
    cases hlookup : lookup s.books id with
    | none => exact ⟨rfl, (updateFirst_of_none hlookup update).symm⟩
    | some book => exact ⟨rfl, rfl⟩
  ext s t h := by
    cases s
    cases t
    exact congrArg MemoryBooks.mk h

/-! ## Calls -/

inductive Call
  | listBooks
  | findBook (bookId : Int32)
  | createBook (book : Book)
  | updateBook (bookId : Int32) (update : BookUpdate)

inductive Reply
  | books (books : List Book)
  | book (book : Option Book)
deriving DecidableEq

/-- A call of a client; BookClient declares the methods of BookRepository. -/
def perform (client : BookRepository σ) : Call → Prog σ Reply
  | .listBooks => do
    let books ← client.listBooks
    pure (.books books)
  | .findBook bookId => do
    let book ← client.findBook bookId
    pure (.book book)
  | .createBook book => do
    let book ← client.createBook book
    pure (.book book)
  | .updateBook bookId update => do
    let book ← client.updateBook bookId update
    pure (.book book)

/-- A sequence of calls; the replies come in the order of the calls. -/
def performAll (client : BookRepository σ) : List Call → Prog σ (List Reply)
  | [] => pure []
  | call :: rest => do
    let reply ← perform client call
    let replies ← performAll client rest
    pure (reply :: replies)

/-- The reply of the server to a call, and that of the service in the process. -/
def remote (repository : BookRepository τ) (call : Call) (s : τ) : Reply × τ :=
  (perform (grpcBookClient (bookServer repository)) call).run s

def here (repository : BookRepository τ) (call : Call) (s : τ) : Reply × τ :=
  (perform (localBookClient repository) call).run s

/-! ## Interchangeable clients -/

/-- GrpcBookClient on a repository in state `t` and LocalBookClient on one in
state `u`: however many of the calls are made, the replies are the same, and the
repositories hold the same then. -/
def Interchangeable (repository : BookRepository τ) (same : τ → τ → Prop) (t u : τ)
    (calls : List Call) : Prop :=
  ∀ made, made <+: calls →
    ((performAll (grpcBookClient (bookServer repository)) made).run t).1 =
      ((performAll (localBookClient repository) made).run u).1 ∧
    same ((performAll (grpcBookClient (bookServer repository)) made).run t).2
      ((performAll (localBookClient repository) made).run u).2

/-- No call of a sequence is divergent in the state it finds. -/
def NoneDivergent (repository : BookRepository τ) (Divergent : τ → Call → Prop) :
    τ → List Call → Prop :=
  Always (fun s call => (here repository call s).2) fun s call => ¬ Divergent s call

/-- The two clients answer a call alike and leave the same. -/
def AlikeAt (repository : BookRepository τ) (same : τ → τ → Prop) (call : Call) (t u : τ) : Prop :=
  (remote repository call t).1 = (here repository call u).1 ∧
    same (remote repository call t).2 (here repository call u).2

section Interchange

variable {repository : BookRepository τ} {same : τ → τ → Prop} {Divergent : τ → Call → Prop}

theorem interchangeable_cons {t u : τ} {call : Call} {rest : List Call} :
    Interchangeable repository same t u (call :: rest) ↔
      same t u ∧ (remote repository call t).1 = (here repository call u).1 ∧
        Interchangeable repository same (remote repository call t).2 (here repository call u).2
          rest := by
  constructor
  · intro h
    have hfirst := h [call] (List.prefix_append [call] rest)
    simp only [performAll, Prog.run_bind, Prog.run_pure] at hfirst
    refine ⟨(h [] List.nil_prefix).2, (List.cons.inj hfirst.1).1, fun made hmade => ?_⟩
    have hmore := h (call :: made) ((List.prefix_cons_inj call).mpr hmade)
    simp only [performAll, Prog.run_bind, Prog.run_pure] at hmore
    exact ⟨(List.cons.inj hmore.1).2, hmore.2⟩
  · rintro ⟨hsame, hreply, hrest⟩ made hmade
    rcases List.prefix_cons_iff.mp hmade with rfl | ⟨later, rfl, hlater⟩
    · exact ⟨rfl, hsame⟩
    · obtain ⟨hreplies, hstates⟩ := hrest later hlater
      simp only [performAll, Prog.run_bind, Prog.run_pure]
      exact ⟨List.cons_eq_cons.mpr ⟨hreply, hreplies⟩, hstates⟩

/-- A relation that keeps the two together at every call but the divergent ones. -/
theorem interchangeable_iff {J : τ → τ → Prop} (hsame : ∀ t u, J t u → same t u)
    (hstep : ∀ t u call, J t u → ¬ Divergent u call →
      (remote repository call t).1 = (here repository call u).1 ∧
        J (remote repository call t).2 (here repository call u).2)
    (hdivergent : ∀ t u call, J t u → Divergent u call → ¬ AlikeAt repository same call t u)
    {t u : τ} (h : J t u) (calls : List Call) :
    Interchangeable repository same t u calls ↔ NoneDivergent repository Divergent u calls := by
  induction calls generalizing t u with
  | nil =>
    refine iff_of_true (fun made hmade => ?_) trivial
    obtain rfl := List.prefix_nil.mp hmade
    exact ⟨rfl, hsame t u h⟩
  | cons call rest ih =>
    rw [interchangeable_cons]
    constructor
    · rintro ⟨-, hreply, hrest⟩
      have hnot : ¬ Divergent u call := fun hbad =>
        hdivergent t u call h hbad ⟨hreply, (hrest [] List.nil_prefix).2⟩
      exact ⟨hnot, (ih (hstep t u call h hnot).2).mp hrest⟩
    · rintro ⟨hnot, hrest⟩
      obtain ⟨hreply, hnext⟩ := hstep t u call h hnot
      exact ⟨hsame t u h, hreply, (ih hnext).mpr hrest⟩

end Interchange

/-! ## Calls on a catalogue -/

/-- The calls on a catalogue to which the clients answer differently: a list
with a book that is not active, a lookup of an id that is not positive and
that some book has, and a book or an existing book's update that is refused
for its status alone. -/
def Divergent (books : List Book) : Call → Prop
  | .listBooks => ∃ book ∈ books, book.status ≠ "active"
  | .findBook bookId => bookId ≤ 0 ∧ (lookup books bookId).isSome
  | .createBook book => ¬ Refused book ∧ book.status ≠ "" ∧ ¬ Listed book.status
  | .updateBook bookId update => 0 < bookId.toInt ∧ (lookup books bookId).isSome ∧
      update.Sound ∧ ∃ status ∈ update.status, ¬ Listed status

/-- The two clients answer a call alike and leave a valid catalogue. -/
structure Alike (books : τ → List Book) (remote here : Reply × τ) : Prop where
  same : remote = here
  valid : ∀ book ∈ books here.2, Valid book

section Steps

variable {repository : BookRepository τ} {books : τ → List Book}

theorem lookup_valid {list : List Book} (h : ∀ book ∈ list, Valid book) {id : Int32} {book : Book}
    (hlookup : lookup list id = some book) : Valid book :=
  h book (List.mem_of_find?_eq_some hlookup)

theorem bookOf_respond (status : Status) {book : Book} (h : Listed book.status) :
    bookOf (respond status (some book)) = some book :=
  congrArg some (bookFromProto_fill_listed h)

theorem list_step (hr : KeepsCatalogue repository books) {s : τ}
    (hvalid : ∀ book ∈ books s, Valid book) :
    ((perform (grpcBookClient (bookServer repository)) .listBooks).run s).2 = s ∧
    ((perform (grpcBookClient (bookServer repository)) .listBooks).run s).1 =
      .books ((books s).filter fun book => book.status = "active") := by
  have hlist : (bookService repository).listBooks.run s = (books s, s) := hr.list s
  simp only [perform, grpcBookClient, bookServer, BookRpc.listBooks, Prog.run_bind, hlist,
    Prog.run_pure, booksOf, List.map_map, true_and, Bool.true_and, Bool.not_not]
  congr 1
  refine (List.map_congr_left fun book hbook => ?_).trans (List.map_id' _)
  exact bookFromProto_fill_listed (hvalid book (List.mem_filter.mp hbook).1).2

/-- A call makes the clients differ, or is answered alike. -/
def Told (repository : BookRepository τ) (books : τ → List Book) (call : Call) (s : τ) : Prop :=
  (Divergent (books s) call ∧ (remote repository call s).1 ≠ (here repository call s).1) ∨
  (¬ Divergent (books s) call ∧ Alike books (remote repository call s) (here repository call s))

theorem told_listBooks (hr : KeepsCatalogue repository books) {s : τ}
    (hvalid : ∀ book ∈ books s, Valid book) : Told repository books .listBooks s := by
  obtain ⟨hstate, hreply⟩ := list_step hr hvalid
  have hhere : here repository .listBooks s = (.books (books s), s) := by
    have hlist : (localBookClient repository).listBooks.run s = (books s, s) := hr.list s
    simp only [here, perform, Prog.run_bind, hlist, Prog.run_pure]
  by_cases hdivergent : Divergent (books s) .listBooks
  · refine .inl ⟨hdivergent, ?_⟩
    obtain ⟨book, hbook, hstatus⟩ := hdivergent
    rw [hhere, remote, hreply]
    intro hsame
    have hfilter : (books s).filter (fun book => book.status = "active") = books s :=
      Reply.books.inj hsame
    rw [List.filter_eq_self] at hfilter
    exact hstatus (by simpa using hfilter book hbook)
  · refine .inr ⟨hdivergent, ?_, ?_⟩
    · rw [hhere]
      refine Prod.ext ?_ hstate
      rw [remote, hreply, List.filter_eq_self.mpr]
      intro book hbook
      rw [decide_eq_true_eq]
      by_contra hstatus
      exact hdivergent ⟨book, hbook, hstatus⟩
    · rw [hhere]
      exact hvalid

theorem run_find (hr : KeepsCatalogue repository books) {s : τ}
    (hvalid : ∀ book ∈ books s, Valid book) (bookId : Int32) :
    (BookRpc.findBook (bookServer repository) bookId).run s =
      (if bookId ≤ 0 then none else lookup (books s) bookId, s) := by
  have hfind : ((bookService repository).findBook bookId).run s = (lookup (books s) bookId, s) :=
    hr.find bookId s
  simp only [BookRpc.findBook, bookServer, getBook, toInt64_le_zero_iff, Int32.toInt32_toInt64]
  by_cases hid : bookId ≤ 0
  · simp only [hid, if_true]
    rfl
  · simp only [hid, if_false, Prog.run_bind, hfind, Prog.run_pure]
    cases hlookup : lookup (books s) bookId with
    | none => rfl
    | some book => rw [bookOf_respond _ (lookup_valid hvalid hlookup).2]

theorem told_findBook (hr : KeepsCatalogue repository books) {s : τ}
    (hvalid : ∀ book ∈ books s, Valid book) (bookId : Int32) :
    Told repository books (.findBook bookId) s := by
  have hhere : here repository (.findBook bookId) s = (.book (lookup (books s) bookId), s) := by
    have hfind : ((localBookClient repository).findBook bookId).run s =
      (lookup (books s) bookId, s) := hr.find bookId s
    simp only [here, perform, Prog.run_bind, hfind, Prog.run_pure]
  have hremote : remote repository (.findBook bookId) s =
      (.book (if bookId ≤ 0 then none else lookup (books s) bookId), s) := by
    simp only [remote, perform, grpcBookClient, Prog.run_bind, run_find hr hvalid, Prog.run_pure]
  by_cases hid : bookId ≤ 0
  · rw [if_pos hid] at hremote
    cases hlookup : lookup (books s) bookId with
    | none =>
      refine .inr ⟨fun hdivergent => ?_, ?_, ?_⟩
      · have hsome := hdivergent.2
        rw [hlookup] at hsome
        cases hsome
      · rw [hremote, hhere, hlookup]
      · rw [hhere]
        exact hvalid
    | some book =>
      refine .inl ⟨⟨hid, by rw [hlookup]; rfl⟩, ?_⟩
      rw [hremote, hhere, hlookup]
      simp
  · rw [if_neg hid] at hremote
    refine .inr ⟨fun hdivergent => hid hdivergent.1, ?_, ?_⟩
    · rw [hremote, hhere]
    · rw [hhere]
      exact hvalid

/-- The service creates a valid book. -/
theorem createBook_valid (repository : BookRepository τ) {book : Book} (h : Valid book) :
    Books.createBook repository book = repository.createBook book := by
  have hstatus : book.status ≠ "" := by
    rcases h.2 with hs | hs <;> rw [hs] <;> decide
  simp only [Books.createBook, h.1, hstatus, h.2, if_true, if_false]

theorem valid_append {list : List Book} {book : Book} (h : ∀ b ∈ list, Valid b)
    (hbook : Valid book) : ∀ b ∈ list ++ [book], Valid b := by
  intro b hb
  rcases List.mem_append.mp hb with hmem | hmem
  · exact h b hmem
  · rw [List.mem_singleton.mp hmem]
    exact hbook

/-- The book as it arrives. -/
def arrived (book : Book) : Book :=
  { book with status := if book.status = "inactive" then "inactive" else "active" }

theorem valid_arrived {book : Book} (h : ¬ Refused book) : Valid (arrived book) := by
  refine ⟨h, ?_⟩
  by_cases hinactive : book.status = "inactive"
  · exact .inr (if_pos hinactive)
  · exact .inl (if_neg hinactive)

theorem remote_createBook (repository : BookRepository τ) (book : Book) (s : τ) :
    remote repository (.createBook book) s =
      (let r := (Books.createBook repository (arrived book)).run s
      (.book (bookOf (respond ⟨.invalidArgument, "invalid book request"⟩ r.1)), r.2)) := by
  simp only [remote, perform, grpcBookClient, bookServer, BookRpc.createBook, bookService,
    Prog.run_bind, Prog.run_pure, bookFromProto_fill, arrived]

theorem remote_create_valid (repository : BookRepository τ) {book : Book} (h : ¬ Refused book)
    (s : τ) : remote repository (.createBook book) s =
      (let r := (repository.createBook (arrived book)).run s
      (.book (bookOf (respond ⟨.invalidArgument, "invalid book request"⟩ r.1)), r.2)) := by
  rw [remote_createBook, createBook_valid repository (valid_arrived h)]

theorem here_createBook (repository : BookRepository τ) (book : Book) (s : τ) :
    here repository (.createBook book) s =
      (let r := (Books.createBook repository book).run s
      (.book r.1, r.2)) := by
  simp only [here, perform, localBookClient, bookService, Prog.run_bind, Prog.run_pure]

/-- The status survives the way to the server. -/
theorem create_listed (repository : BookRepository τ) {book : Book} (hrefused : ¬ Refused book)
    (hstatus : book.status = "" ∨ Listed book.status) :
    Books.createBook repository book = repository.createBook (arrived book) := by
  rcases hstatus with hempty | hlisted
  · simp [Books.createBook, hrefused, hempty, Listed, arrived]
  · rw [createBook_valid repository ⟨hrefused, hlisted⟩, arrived, ← bookFromProto_fill,
      bookFromProto_fill_listed hlisted]

theorem told_createBook (hr : KeepsCatalogue repository books) {s : τ}
    (hvalid : ∀ book ∈ books s, Valid book) (book : Book) :
    Told repository books (.createBook book) s := by
  have hhere := here_createBook repository book s
  by_cases hrefused : Refused book
  · have harrived : Refused (arrived book) := hrefused
    have hremote := remote_createBook repository book s
    simp only [Books.createBook, harrived, hrefused, if_true, Prog.run_pure] at hremote hhere
    refine .inr ⟨fun hdivergent => hdivergent.1 hrefused, ?_, ?_⟩
    · rw [hremote, hhere]
      rfl
    · rw [hhere]
      exact hvalid
  · have hremote := remote_create_valid repository hrefused s
    obtain ⟨id, hreply, hbooks⟩ := hr.create (arrived book) s (valid_arrived hrefused)
    have hcreated : Listed (Book.status { arrived book with id := id }) :=
      (valid_arrived hrefused).2
    simp only [hreply, bookOf_respond _ hcreated] at hremote
    by_cases hlisted : book.status = "" ∨ Listed book.status
    · rw [create_listed repository hrefused hlisted] at hhere
      simp only [hreply] at hhere
      refine .inr ⟨?_, ?_, ?_⟩
      · intro hdivergent
        rcases hlisted with hempty | hlisted
        · exact hdivergent.2.1 hempty
        · exact hdivergent.2.2 hlisted
      · rw [hremote, hhere]
      · rw [hhere, hbooks]
        exact valid_append hvalid (valid_arrived hrefused)
    · rw [not_or] at hlisted
      simp only [Books.createBook, hrefused, hlisted, if_false, Prog.run_pure] at hhere
      refine .inl ⟨⟨hrefused, hlisted.1, hlisted.2⟩, ?_⟩
      rw [hremote, hhere]
      simp

/-- The message of a whole book sets every field to the book's. -/
theorem updateOf_apply (merged book : Book) (hstatus : Listed merged.status)
    (hid : merged.id = book.id) : (updateOf (fillBook merged)).apply book = merged := by
  have hbook : book.id = (fillBook merged).bookId.toInt32 := by
    rw [← hid]
    exact (Int32.toInt32_toInt64 merged.id).symm
  rw [BookUpdate.apply, hbook]
  exact bookFromProto_fill_listed hstatus

theorem sound_of_apply {book : Book} {update : BookUpdate} (h : ¬ Refused (update.apply book)) :
    update.Sound := by
  obtain ⟨title, author, price, stock, status⟩ := update
  simp only [Refused, not_or, Int32.not_le, Int32.not_lt] at h
  obtain ⟨h1, h2, h3, h4⟩ := h
  refine ⟨?_, ?_, ?_, ?_⟩ <;> intro given hgiven <;> cases hgiven
  exacts [h1, h2, h3, h4]

/-- The merged book is refused exactly for the fields of the update. -/
theorem sound_iff {book : Book} (hbook : ¬ Refused book) (update : BookUpdate) :
    update.Sound ↔ ¬ Refused (update.apply book) := by
  obtain ⟨title, author, price, stock, status⟩ := update
  simp only [Refused, not_or, Int32.not_le, Int32.not_lt] at hbook ⊢
  obtain ⟨htitle, hauthor, hprice, hstock⟩ := hbook
  constructor
  · rintro ⟨h1, h2, h3, h4⟩
    refine ⟨?_, ?_, ?_, ?_⟩
    · cases title
      exacts [htitle, h1 _ rfl]
    · cases author
      exacts [hauthor, h2 _ rfl]
    · cases price
      exacts [hprice, h3 _ rfl]
    · cases stock
      exacts [hstock, h4 _ rfl]
  · intro h
    exact sound_of_apply (by simpa only [Refused, not_or, Int32.not_le, Int32.not_lt] using h)

/-- Updates that make the same of the book with this id make the same list. -/
theorem updateFirst_congr {list : List Book} {bookId : Int32} {book : Book} {u v : BookUpdate}
    (hlookup : lookup list bookId = some book) (h : u.apply book = v.apply book) :
    MemoryBookRepository.updateFirst bookId u list =
      MemoryBookRepository.updateFirst bookId v list := by
  induction list with
  | nil => rfl
  | cons first rest ih =>
    by_cases hid : first.id = bookId
    · have hfirst : first = book := by simpa [lookup, hid] using hlookup
      rw [MemoryBookRepository.updateFirst, MemoryBookRepository.updateFirst, if_pos hid,
        if_pos hid, hfirst, h]
    · have hrest : lookup rest bookId = some book := by simpa [lookup, hid] using hlookup
      rw [MemoryBookRepository.updateFirst, MemoryBookRepository.updateFirst, if_neg hid,
        if_neg hid, ih hrest]

theorem valid_updateFirst {list : List Book} {bookId : Int32} {book : Book} {update : BookUpdate}
    (hvalid : ∀ b ∈ list, Valid b) (hlookup : lookup list bookId = some book)
    (happly : Valid (update.apply book)) :
    ∀ b ∈ MemoryBookRepository.updateFirst bookId update list, Valid b := by
  induction list with
  | nil => exact hvalid
  | cons first rest ih =>
    have hrest : ∀ b ∈ rest, Valid b := fun b hb => hvalid b (List.mem_cons_of_mem _ hb)
    by_cases hid : first.id = bookId
    · have hfirst : first = book := by simpa [lookup, hid] using hlookup
      rw [MemoryBookRepository.updateFirst, if_pos hid, hfirst]
      exact List.forall_mem_cons.mpr ⟨happly, hrest⟩
    · rw [MemoryBookRepository.updateFirst, if_neg hid]
      refine List.forall_mem_cons.mpr ⟨hvalid first List.mem_cons_self, ih hrest ?_⟩
      simpa [lookup, hid] using hlookup

/-- The second RPC with a merged book that is not refused, over a catalogue. -/
theorem send_known (hr : KeepsCatalogue repository books) {s : τ} {bookId : Int32}
    (hpos : 0 < bookId.toInt) {book : Book} (hlookup : lookup (books s) bookId = some book)
    {merged : Book} (hmerged : ¬ Refused merged) :
    (sendBook (bookServer repository) bookId merged).run s =
      (some ((updateOf (fillBook merged)).apply book),
        ((repository.updateBook bookId (updateOf (fillBook merged))).run s).2) := by
  have hreply := (hr.update bookId (updateOf (fillBook merged)) s hpos).1
  rw [hlookup, Option.map_some] at hreply
  have hlisted : Listed ((updateOf (fillBook merged)).apply book).status :=
    listed_updateOf merged _ rfl
  rw [run_sendBook hpos hmerged, hreply, bookOf_respond _ hlisted]

theorem remote_updateBook (hr : KeepsCatalogue repository books) {s : τ}
    (hvalid : ∀ book ∈ books s, Valid book) (bookId : Int32) (update : BookUpdate) :
    remote repository (.updateBook bookId update) s =
      match if bookId ≤ 0 then none else lookup (books s) bookId with
      | none => (.book none, s)
      | some book =>
        let r := (sendBook (bookServer repository) bookId (update.apply book)).run s
        (.book r.1, r.2) := by
  simp only [remote, perform, grpcBookClient, Prog.run_bind, run_find hr hvalid]
  cases if bookId ≤ 0 then none else lookup (books s) bookId with
  | none => rfl
  | some book => rfl

theorem here_updateBook (repository : BookRepository τ) (s : τ) (bookId : Int32)
    (update : BookUpdate) :
    here repository (.updateBook bookId update) s =
      let r := (Books.updateBook repository bookId update).run s
      (.book r.1, r.2) := by
  simp only [here, perform, localBookClient, bookService, Prog.run_bind, Prog.run_pure]

theorem told_update_unknown (hr : KeepsCatalogue repository books) {s : τ}
    (hvalid : ∀ book ∈ books s, Valid book) {bookId : Int32} (hpos : 0 < bookId.toInt)
    (hid : ¬ bookId ≤ 0) (hlookup : lookup (books s) bookId = none) (update : BookUpdate) :
    Told repository books (.updateBook bookId update) s := by
  have hremote := remote_updateBook hr hvalid bookId update
  have hhere := here_updateBook repository s bookId update
  obtain ⟨hreply, hbooks⟩ := hr.update bookId update s hpos
  simp only [hid, if_false, hlookup] at hremote
  simp only [Books.updateBook, hid, if_false] at hhere
  have hsame : here repository (.updateBook bookId update) s = (.book none, s) := by
    rw [hlookup, Option.map_none] at hreply
    have hstate := hr.ext _ s (hbooks.trans (updateFirst_of_none hlookup update))
    rw [hhere]
    by_cases hsound : update.Sound
    · by_cases hlisted : ∀ status ∈ update.status, Listed status
      · rw [if_neg (not_not_intro hsound), if_neg (not_not_intro hlisted), hreply, hstate]
      · rw [if_neg (not_not_intro hsound), if_pos hlisted, Prog.run_pure]
    · rw [if_pos hsound, Prog.run_pure]
  refine .inr ⟨?_, ?_, ?_⟩
  · intro hdivergent
    have hsome := hdivergent.2.1
    rw [hlookup] at hsome
    cases hsome
  · rw [hremote, hsame]
  · rw [hsame]
    exact hvalid

theorem told_update_known (hr : KeepsCatalogue repository books) {s : τ}
    (hvalid : ∀ book ∈ books s, Valid book) {bookId : Int32} (hpos : 0 < bookId.toInt)
    (hid : ¬ bookId ≤ 0) {book : Book} (hlookup : lookup (books s) bookId = some book)
    (update : BookUpdate) : Told repository books (.updateBook bookId update) s := by
  have hremote := remote_updateBook hr hvalid bookId update
  have hhere := here_updateBook repository s bookId update
  obtain ⟨hreply, hbooks⟩ := hr.update bookId update s hpos
  have hbook := lookup_valid hvalid hlookup
  simp only [hid, if_false, hlookup] at hremote
  simp only [Books.updateBook, hid, if_false] at hhere
  by_cases hsound : update.Sound
  · have hmerged : ¬ Refused (update.apply book) := (sound_iff hbook.1 update).mp hsound
    rw [send_known hr hpos hlookup hmerged] at hremote
    by_cases hlisted : ∀ status ∈ update.status, Listed status
    · rw [if_neg (not_not_intro hsound), if_neg (not_not_intro hlisted)] at hhere
      have hstatus : Listed (update.apply book).status := by
        cases hgiven : update.status with
        | none =>
          rw [BookUpdate.apply, hgiven]
          exact hbook.2
        | some status =>
          rw [BookUpdate.apply, hgiven]
          exact hlisted status hgiven
      have hsame := updateOf_apply (update.apply book) book hstatus rfl
      have hstate := hr.ext _ _ (((hr.update bookId _ s hpos).2.trans
        (updateFirst_congr hlookup hsame)).trans hbooks.symm)
      rw [hlookup, Option.map_some] at hreply
      refine .inr ⟨?_, ?_, ?_⟩
      · intro hdivergent
        obtain ⟨_, _, _, status, hgiven, hnot⟩ := hdivergent
        exact hnot (hlisted status hgiven)
      · rw [hremote, hhere, hreply, hsame, hstate]
      · rw [hhere, hbooks]
        exact valid_updateFirst hvalid hlookup ⟨hmerged, hstatus⟩
    · rw [if_neg (not_not_intro hsound), if_pos hlisted, Prog.run_pure] at hhere
      refine .inl ⟨⟨hpos, by rw [hlookup]; rfl, hsound, ?_⟩, ?_⟩
      · simpa only [not_forall, exists_prop] using hlisted
      · rw [hremote, hhere]
        simp
  · have hmerged : Refused (update.apply book) := by
      by_contra hnot
      exact hsound ((sound_iff hbook.1 update).mpr hnot)
    rw [run_sendBook_refused hmerged] at hremote
    rw [if_pos hsound, Prog.run_pure] at hhere
    refine .inr ⟨fun hdivergent => hsound hdivergent.2.2.1, ?_, ?_⟩
    · rw [hremote, hhere]
    · rw [hhere]
      exact hvalid

theorem told_updateBook (hr : KeepsCatalogue repository books) {s : τ}
    (hvalid : ∀ book ∈ books s, Valid book) (bookId : Int32) (update : BookUpdate) :
    Told repository books (.updateBook bookId update) s := by
  by_cases hid : bookId ≤ 0
  · have hremote := remote_updateBook hr hvalid bookId update
    have hhere := here_updateBook repository s bookId update
    have hneg : ¬ 0 < bookId.toInt := by
      rw [Int32.le_iff_toInt_le, Int32.toInt_zero] at hid
      omega
    simp only [hid, if_true] at hremote
    simp only [Books.updateBook, hid, if_true, Prog.run_pure] at hhere
    refine .inr ⟨fun hdivergent => hneg hdivergent.1, ?_, ?_⟩
    · rw [hremote, hhere]
    · rw [hhere]
      exact hvalid
  · have hpos : 0 < bookId.toInt := by
      rw [Int32.le_iff_toInt_le, Int32.toInt_zero] at hid
      omega
    cases hlookup : lookup (books s) bookId with
    | none => exact told_update_unknown hr hvalid hpos hid hlookup update
    | some book => exact told_update_known hr hvalid hpos hid hlookup update

theorem told (hr : KeepsCatalogue repository books) {s : τ}
    (hvalid : ∀ book ∈ books s, Valid book) (call : Call) : Told repository books call s := by
  cases call with
  | listBooks => exact told_listBooks hr hvalid
  | findBook bookId => exact told_findBook hr hvalid bookId
  | createBook book => exact told_createBook hr hvalid book
  | updateBook bookId update => exact told_updateBook hr hvalid bookId update

end Steps

/-- Over a catalogue the two clients give the same replies and leave the same
repository exactly when they come to no divergent call. -/
theorem catalogue_clients_iff {repository : BookRepository τ} {books : τ → List Book}
    (hr : KeepsCatalogue repository books) {s : τ} (hvalid : ∀ book ∈ books s, Valid book)
    (calls : List Call) :
    Interchangeable repository Eq s s calls ↔
      NoneDivergent repository (fun s => Divergent (books s)) s calls := by
  refine interchangeable_iff (J := fun t u => t = u ∧ ∀ book ∈ books u, Valid book)
    (fun t u h => h.1) ?_ ?_ ⟨rfl, hvalid⟩ calls
  · rintro t _ call ⟨rfl, hbooks⟩ hnot
    rcases told hr hbooks call with ⟨hdivergent, -⟩ | ⟨-, hsame, hkept⟩
    · exact absurd hdivergent hnot
    · exact ⟨congrArg Prod.fst hsame, congrArg Prod.snd hsame, hkept⟩
  · rintro t _ call ⟨rfl, hbooks⟩ hdivergent halike
    rcases told hr hbooks call with ⟨-, hdiffer⟩ | ⟨hnot, -⟩
    · exact hdiffer halike.1
    · exact hnot hdivergent

/-! ## One book that is active and one that is not -/

def smallCatalogue : MemoryBooks :=
  ⟨[⟨1, "C++ Primer", "Stanley Lippman", 9800, 12, "active"⟩]⟩

theorem valid_smallCatalogue : ∀ book ∈ smallCatalogue.books, Valid book := by
  intro book hbook
  rw [List.mem_singleton.mp hbook]
  exact ⟨by decide, .inl rfl⟩

def hide : Call := .updateBook 1 ⟨none, none, none, none, some "inactive"⟩

def draft : Call := .createBook ⟨0, "Dune", "Frank Herbert", 4200, 3, "draft"⟩

end Bookstore.BookClients
