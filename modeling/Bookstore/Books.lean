import Bookstore.Repositories

/-!
BookRepository, the checks of BookService, and LocalBookClient, which calls
the service in the same process. The repository in memory holds its mutex for a
whole method, so each of its methods is one step.
-/
namespace Bookstore.Books

open Interleaving Records Repositories

variable {σ τ : Type}

/-- A partial update: a field without a value stays as it is. -/
structure BookUpdate where
  title : Option String
  author : Option String
  priceCents : Option Int32
  stock : Option Int32
  status : Option String
deriving DecidableEq, Repr

/-- The assignments of the fields that have a value. -/
def BookUpdate.apply (update : BookUpdate) (book : Book) : Book where
  id := book.id
  title := update.title.getD book.title
  author := update.author.getD book.author
  priceCents := update.priceCents.getD book.priceCents
  stock := update.stock.getD book.stock
  status := update.status.getD book.status

/-- The fields that create_book refuses in every layer. -/
def Refused (book : Book) : Prop :=
  book.title = "" ∨ book.author = "" ∨ book.priceCents ≤ 0 ∨ book.stock < 0

instance (book : Book) : Decidable (Refused book) := by
  unfold Refused
  infer_instance

structure BookRepository (σ : Type) where
  listBooks : Prog σ (List Book)
  findBook : Int32 → Prog σ (Option Book)
  createBook : Book → Prog σ (Option Book)
  updateBook : Int32 → BookUpdate → Prog σ (Option Book)

def BookRepository.lift (l : Lens σ τ) (r : BookRepository τ) : BookRepository σ where
  listBooks := r.listBooks.lift l
  findBook id := (r.findBook id).lift l
  createBook book := (r.createBook book).lift l
  updateBook id update := (r.updateBook id update).lift l

/-! ## MemoryBookRepository -/

namespace MemoryBookRepository

/-- The loop of next_book_id. -/
def nextBookId (books : List Book) : Int32 :=
  books.foldl (fun next book => if next ≤ book.id then book.id + 1 else next) 1

def createBook (book : Book) (s : MemoryBooks) : Option Book × MemoryBooks :=
  if Refused book then (none, s)
  else
    let created := { book with
      id := nextBookId s.books
      status := if book.status = "" then "active" else book.status }
    (some created, ⟨s.books ++ [created]⟩)

/-- The loop of update_book: the first book with this id is changed. -/
def updateFirst (bookId : Int32) (update : BookUpdate) : List Book → List Book
  | [] => []
  | book :: rest =>
    if book.id = bookId then update.apply book :: rest
    else book :: updateFirst bookId update rest

def updateBook (bookId : Int32) (update : BookUpdate) (s : MemoryBooks) :
    Option Book × MemoryBooks :=
  if bookId ≤ 0 then (none, s)
  else
    match s.findBook bookId with
    | none => (none, s)
    | some book => (some (update.apply book), ⟨updateFirst bookId update s.books⟩)

end MemoryBookRepository

open MemoryBookRepository in
def memoryBookRepository : BookRepository MemoryBooks where
  listBooks := .read MemoryBooks.books
  findBook id := .read fun s => s.findBook id
  createBook book := .call (createBook book)
  updateBook id update := .call (updateBook id update)

/-! ## BookService and LocalBookClient -/

section Service

variable (repository : BookRepository σ)

/-- `active` and `inactive` are the statuses of a book. -/
def Listed (status : String) : Prop := status = "active" ∨ status = "inactive"

instance (status : String) : Decidable (Listed status) := by
  unfold Listed
  infer_instance

def createBook (book : Book) : Prog σ (Option Book) :=
  if Refused book then pure none
  else
    let created := if book.status = "" then { book with status := "active" } else book
    if Listed created.status then repository.createBook created else pure none

/-- The checks of update_book on the fields other than the status. -/
def BookUpdate.Sound (update : BookUpdate) : Prop :=
  (∀ title ∈ update.title, title ≠ "") ∧ (∀ author ∈ update.author, author ≠ "") ∧
    (∀ price ∈ update.priceCents, 0 < price) ∧ ∀ stock ∈ update.stock, 0 ≤ stock

instance (update : BookUpdate) : Decidable update.Sound :=
  @instDecidableAnd _ _ (Option.decidableForallMem _) (@instDecidableAnd _ _
    (Option.decidableForallMem _) (@instDecidableAnd _ _ (Option.decidableForallMem _)
      (Option.decidableForallMem _)))

def updateBook (bookId : Int32) (update : BookUpdate) : Prog σ (Option Book) :=
  if bookId ≤ 0 then pure none
  else if ¬ update.Sound then pure none
  else if ¬ ∀ status ∈ update.status, Listed status then pure none
  else repository.updateBook bookId update

/-- BookService adds its checks to what it forwards. -/
def bookService : BookRepository σ where
  listBooks := repository.listBooks
  findBook := repository.findBook
  createBook := createBook repository
  updateBook := updateBook repository

/-- BookClient declares the four methods of BookRepository. -/
def localBookClient : BookRepository σ := bookService repository

end Service

end Bookstore.Books
