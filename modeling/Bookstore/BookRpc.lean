import Bookstore.Books
import Bookstore.InventoryRpc

/-!
The book RPC service and its client. Server and client turn books into messages
and back in the same way. The client makes a partial update a read and the
update of the whole book.
-/
namespace Bookstore.BookRpc

open Books Interleaving InventoryRpc MachineInt Records

variable {σ : Type}

inductive BookStatus
  | unspecified
  | active
  | inactive
deriving DecidableEq, Repr

structure BookMessage where
  bookId : Int64
  title : String
  author : String
  priceCents : Int64
  stock : Int32
  status : BookStatus
deriving DecidableEq, Repr

structure UpdateBookRequest where
  bookId : Int64
  book : BookMessage

/-- The four methods of the service, as the server implements them and as a
stub offers them; ListBooks is given `active_only`. -/
structure BookStub (σ : Type) where
  listBooks : Bool → Prog σ (Rpc (List BookMessage))
  getBook : Int64 → Prog σ (Rpc BookMessage)
  createBook : BookMessage → Prog σ (Rpc BookMessage)
  updateBook : UpdateBookRequest → Prog σ (Rpc BookMessage)

/-! ## Books and messages -/

def statusToProto (status : String) : BookStatus :=
  if status = "inactive" then .inactive
  else if status = "active" then .active
  else .unspecified

def statusFromProto (status : BookStatus) : String :=
  if status = .inactive then "inactive" else "active"

def fillBook (book : Book) : BookMessage where
  bookId := book.id.toInt64
  title := book.title
  author := book.author
  priceCents := book.priceCents.toInt64
  stock := book.stock
  status := statusToProto book.status

def bookFromProto (message : BookMessage) : Book where
  id := message.bookId.toInt32
  title := message.title
  author := message.author
  priceCents := message.priceCents.toInt32
  stock := message.stock
  status := statusFromProto message.status

/-! ## BookGrpcServiceImpl -/

/-- The book in a response, or the given status where there is none. -/
def respond (status : Status) : Option Book → Rpc BookMessage
  | none => .error status
  | some book => .ok (fillBook book)

/-- The update of every field that UpdateBook makes of a message. -/
def updateOf (message : BookMessage) : BookUpdate where
  title := some message.title
  author := some message.author
  priceCents := some message.priceCents.toInt32
  stock := some message.stock
  status := some (statusFromProto message.status)

section Server

variable (service : BookRepository σ)

def listBooks (activeOnly : Bool) : Prog σ (Rpc (List BookMessage)) := do
  let books ← service.listBooks
  pure (.ok ((books.filter fun book => !(activeOnly && !(book.status = "active"))).map fillBook))

def getBook (bookId : Int64) : Prog σ (Rpc BookMessage) :=
  if bookId ≤ 0 then pure (.error ⟨.invalidArgument, "invalid book id"⟩)
  else do
    let book ← service.findBook bookId.toInt32
    pure (respond ⟨.notFound, "book not found"⟩ book)

def createBook (message : BookMessage) : Prog σ (Rpc BookMessage) := do
  let book ← service.createBook (bookFromProto message)
  pure (respond ⟨.invalidArgument, "invalid book request"⟩ book)

def updateBook (request : UpdateBookRequest) : Prog σ (Rpc BookMessage) :=
  if request.bookId ≤ 0 then pure (.error ⟨.invalidArgument, "invalid book id"⟩)
  else do
    let book ← service.updateBook request.bookId.toInt32 (updateOf request.book)
    pure (respond ⟨.notFound, "book not found or invalid"⟩ book)

/-- The server over BookService over a repository. -/
def bookServer (repository : BookRepository σ) : BookStub σ where
  listBooks := listBooks (bookService repository)
  getBook := getBook (bookService repository)
  createBook := createBook (bookService repository)
  updateBook := updateBook (bookService repository)

end Server

/-! ## GrpcBookClient -/

/-- The book in a response, none when the status is not OK. -/
def bookOf : Rpc BookMessage → Option Book
  | .ok message => some (bookFromProto message)
  | .error _ => none

def booksOf : Rpc (List BookMessage) → List Book
  | .ok messages => messages.map bookFromProto
  | .error _ => []

section Client

variable (stub : BookStub σ)

def findBook (bookId : Int32) : Prog σ (Option Book) := do
  let response ← stub.getBook bookId.toInt64
  pure (bookOf response)

/-- The second RPC of update_book: the whole book is sent. -/
def sendBook (bookId : Int32) (book : Book) : Prog σ (Option Book) := do
  let response ← stub.updateBook ⟨bookId.toInt64, fillBook book⟩
  pure (bookOf response)

def grpcBookClient : BookRepository σ where
  listBooks := do
    let response ← stub.listBooks true
    pure (booksOf response)
  findBook := findBook stub
  createBook book := do
    let response ← stub.createBook (fillBook book)
    pure (bookOf response)
  updateBook bookId update := do
    match ← findBook stub bookId with
    | none => pure none
    | some current => sendBook stub bookId (update.apply current)

end Client

/-! ## What comes through a message -/

/-- A status other than inactive arrives as active. -/
theorem statusFromProto_statusToProto (status : String) :
    statusFromProto (statusToProto status) =
      if status = "inactive" then "inactive" else "active" := by
  unfold statusToProto statusFromProto
  by_cases h : status = "inactive"
  · simp [h]
  · by_cases h' : status = "active" <;> simp [h, h']

theorem bookFromProto_fill (book : Book) :
    bookFromProto (fillBook book) =
      { book with status := if book.status = "inactive" then "inactive" else "active" } := by
  simp only [bookFromProto, fillBook, Int32.toInt32_toInt64, statusFromProto_statusToProto]

/-- A book of a listed status comes through as it is. -/
theorem bookFromProto_fill_listed {book : Book} (h : Listed book.status) :
    bookFromProto (fillBook book) = book := by
  rw [bookFromProto_fill]
  obtain ⟨id, title, author, priceCents, stock, status⟩ := book
  rcases h with rfl | rfl <;> rfl

/-! ## The second RPC of a partial update -/

/-- The check of a whole book that UpdateBook makes. -/
theorem sound_updateOf (book : Book) : (updateOf (fillBook book)).Sound ↔ ¬ Refused book := by
  simp only [BookUpdate.Sound, updateOf, fillBook, Int32.toInt32_toInt64, Option.mem_some_iff,
    forall_eq', Refused, not_or, Int32.not_le, Int32.not_lt, ne_eq]

theorem listed_updateOf (book : Book) :
    ∀ status ∈ (updateOf (fillBook book)).status, Listed status := by
  intro status hstatus
  rw [← Option.mem_some_iff.mp hstatus]
  simp only [fillBook, statusFromProto_statusToProto]
  by_cases h : book.status = "inactive"
  · exact .inr (if_pos h)
  · exact .inl (if_neg h)

/-- UpdateBook of a merged book that is not refused is the whole update. -/
theorem run_sendBook {repository : BookRepository σ} {s : σ} {bookId : Int32}
    (hpos : 0 < bookId.toInt) {merged : Book} (hmerged : ¬ Refused merged) :
    (sendBook (bookServer repository) bookId merged).run s =
      (bookOf (respond ⟨.notFound, "book not found or invalid"⟩
        ((repository.updateBook bookId (updateOf (fillBook merged))).run s).1),
        ((repository.updateBook bookId (updateOf (fillBook merged))).run s).2) := by
  have hid : ¬ bookId ≤ 0 := by
    rw [Int32.le_iff_toInt_le, Int32.toInt_zero]
    omega
  have hservice : (bookService repository).updateBook bookId (updateOf (fillBook merged)) =
      repository.updateBook bookId (updateOf (fillBook merged)) := by
    change Books.updateBook repository bookId _ = _
    rw [Books.updateBook, if_neg hid,
      if_neg (not_not_intro ((sound_updateOf merged).mpr hmerged)),
      if_neg (not_not_intro (listed_updateOf merged))]
  simp only [sendBook, bookServer, BookRpc.updateBook, toInt64_le_zero_iff, hid, if_false,
    Int32.toInt32_toInt64, Prog.run_bind, hservice, Prog.run_pure]

/-- UpdateBook of a merged book that is refused changes nothing. -/
theorem run_sendBook_refused {repository : BookRepository σ} {s : σ} {bookId : Int32}
    {merged : Book} (hmerged : Refused merged) :
    (sendBook (bookServer repository) bookId merged).run s = (none, s) := by
  have hsound : ¬ (updateOf (fillBook merged)).Sound := by
    rw [sound_updateOf]
    exact not_not_intro hmerged
  simp only [sendBook, bookServer, BookRpc.updateBook, bookService, Books.updateBook, hsound,
    toInt64_le_zero_iff, Int32.toInt32_toInt64, not_false_eq_true, if_true, Prog.run_bind]
  by_cases hid : bookId ≤ 0
  · simp only [hid, if_true, Prog.run_pure]
    rfl
  · simp only [hid, if_false, Prog.run_bind, Prog.run_pure]
    rfl

end Bookstore.BookRpc
