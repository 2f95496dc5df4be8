import Bookstore.Books
import Bookstore.MysqlInventory
import Mathlib.Data.List.Range
import Mathlib.Data.List.TakeWhile

/-!
MysqlBookRepository. The stock of a book is kept twice: in books and, where it
has an inventory row, in inventory. The services store the statuses active and
inactive only, so the collation of the column does not matter.
-/
namespace Bookstore.MysqlBooks

open Books Database Interleaving MysqlInventory Records Transactions Transactions.Session

/-! ## Statements -/

/-- A books row with COALESCE(i.available, b.stock) for its stock. -/
def joined (db : Db) (book : ℤ) : Option BookRow :=
  (db.books book).map fun row => { row with stock := (db.inventory book).getD row.stock }

/-- The joined row WHERE b.id=book. -/
def selectBook (book : ℤ) : Stmt Db (Option BookRow) where
  result db := some (joined db book)
  effect db := db

/-- WHERE b.status='active' ORDER BY b.id, over every key of the column. -/
def selectActiveBooks : Stmt Db (List (ℤ × BookRow)) where
  result db := some ((List.range (unsignedMax.toNat + 1)).filterMap fun key : ℕ =>
    match joined db key with
    | none => none
    | some row => if row.status = "active" then some ((key : ℤ), row) else none)
  effect db := db

/-- The row that an UPDATE with these assignments makes. -/
def assign (update : BookUpdate) (row : BookRow) : BookRow where
  title := update.title.getD row.title
  author := update.author.getD row.author
  priceCents := (update.priceCents.map Int32.toInt).getD row.priceCents
  stock := (update.stock.map Int32.toInt).getD row.stock
  status := update.status.getD row.status

/-- The assigned values fit their columns. -/
def Fits (update : BookUpdate) : Prop :=
  (∀ title ∈ update.title, title.length ≤ 128) ∧
    (∀ author ∈ update.author, author.length ≤ 128) ∧
    (∀ price ∈ update.priceCents, IsUnsigned price.toInt) ∧
    (∀ stock ∈ update.stock, IsUnsigned stock.toInt) ∧
    ∀ status ∈ update.status, status.length ≤ 32

instance (update : BookUpdate) : Decidable (Fits update) :=
  @instDecidableAnd _ _ (Option.decidableForallMem _) (@instDecidableAnd _ _
    (Option.decidableForallMem _) (@instDecidableAnd _ _ (Option.decidableForallMem _)
      (@instDecidableAnd _ _ (Option.decidableForallMem _) (Option.decidableForallMem _))))

/-- UPDATE books SET … WHERE id=book. A row that has the values already is not
counted among the affected ones. -/
def setBook (book : ℤ) (update : BookUpdate) : Stmt Db ℕ where
  result db :=
    match db.books book with
    | none => some 0
    | some row =>
      if ¬ Fits update then none
      else if assign update row = row then some 0
      else some 1
  effect db :=
    match db.books book with
    | none => db
    | some row => { db with books := Function.update db.books book (some (assign update row)) }

/-- INSERT INTO inventory … ON DUPLICATE KEY UPDATE available=VALUES(available). -/
def setStock (book available : ℤ) : Stmt Db Unit where
  result db := if IsUnsigned available ∧ (db.books book).isSome then some () else none
  effect db := { db with inventory := Function.update db.inventory book (some available) }

def insertBook (row : BookRow) (book : ℤ) : Stmt Db Unit where
  result db :=
    if row.title.length ≤ 128 ∧ row.author.length ≤ 128 ∧ IsUnsigned row.priceCents ∧
        IsUnsigned row.stock ∧ row.status.length ≤ 32 ∧ IsUnsigned book ∧ db.books book = none then
      some ()
    else none
  effect db := { db with books := Function.update db.books book (some row) }

def insertInventory (book available : ℤ) : Stmt Db Unit where
  result db :=
    if IsUnsigned available ∧ (db.books book).isSome ∧ db.inventory book = none then some ()
    else none
  effect db := { db with inventory := Function.update db.inventory book (some available) }

/-! ## The methods -/

/-- No byte of the text ends a C string. -/
def NulFree (text : String) : Prop := ∀ c ∈ text.toList, c.toNat ≠ 0

instance (text : String) : Decidable (NulFree text) :=
  List.decidableBAll (fun c : Char => c.toNat ≠ 0) text.toList

/-- What a string assigned from `row[i]` holds: the column before its first NUL. -/
def cText (column : String) : String :=
  String.ofList (column.toList.takeWhile fun c => c.toNat ≠ 0)

def bookFromRow (key : ℤ) (row : BookRow) : Book where
  id := atoi key
  title := cText row.title
  author := cText row.author
  priceCents := atoi row.priceCents
  stock := atoi row.stock
  status := cText row.status

def listBooks : Prog MySql (List Book) :=
  withConnection do
    match ← query selectActiveBooks with
    | none => pure []
    | some rows => pure (rows.map fun row => bookFromRow row.1 row.2)

def findBook (bookId : Int32) : Prog MySql (Option Book) :=
  if bookId ≤ 0 then pure none
  else withConnection do
    match ← query (selectBook bookId.toInt) with
    | none => pure none
    | some row => pure (row.map (bookFromRow bookId.toInt))

/-- The statements of create_book between START TRANSACTION and COMMIT. -/
def createRows (book : Book) : Sql (Option Int32) := do
  let row : BookRow := ⟨book.title, book.author, book.priceCents.toInt, book.stock.toInt,
    if book.status = "" then "active" else book.status⟩
  match ← insertKeyed .books (insertBook row) with
  | none => pure none
  | some key =>
    match ← query (insertInventory (atoi key).toInt book.stock.toInt) with
    | none => pure none
    | some () => pure (some (atoi key))

def createBook (book : Book) : Prog MySql (Option Book) :=
  if Refused book then pure none
  else do
    let created ← withConnection do
      if ← startTransaction then
        match ← createRows book with
        | none => do
          rollback
          pure none
        | some bookId =>
          if ← commit then pure (some bookId)
          else do
            rollback
            pure none
      else pure none
    match created with
    | none => pure none
    | some bookId => findBook bookId

/-- The statements of update_book before the book is read back. -/
def updateRows (bookId : Int32) (update : BookUpdate) : Sql Bool := do
  match ← query (setBook bookId.toInt update) with
  | some (_ + 1) =>
    match update.stock with
    | none => pure true
    | some stock =>
      match ← query (setStock bookId.toInt stock.toInt) with
      | none => pure false
      | some () => pure true
  | _ => pure false

def updateBook (bookId : Int32) (update : BookUpdate) : Prog MySql (Option Book) :=
  if bookId ≤ 0 then pure none
  else if update = ⟨none, none, none, none, none⟩ then findBook bookId
  else do
    let updated ← withConnection (updateRows bookId update)
    if updated then findBook bookId else pure none

def mysqlBookRepository : BookRepository MySql where
  listBooks := listBooks
  findBook := findBook
  createBook := createBook
  updateBook := updateBook

/-! ## What a row is read as -/

theorem cText_eq_self_iff {column : String} : cText column = column ↔ NulFree column := by
  have hlist : cText column = column ↔
      (column.toList.takeWhile fun c => decide (c.toNat ≠ 0)) = column.toList := by
    rw [cText, ← String.toList_inj, String.toList_ofList]
  rw [hlist, List.takeWhile_eq_self_iff]
  simp only [NulFree, decide_eq_true_eq]

theorem length_cText_le (column : String) : (cText column).length ≤ column.length := by
  rw [cText, String.length_ofList, ← String.length_toList]
  exact (List.takeWhile_prefix _).length_le

/-! ## What the methods do to the tables -/

/-- find_book reads and leaves the tables alone. -/
theorem run_findBook (bookId : Int32) (s : MySql) :
    ∃ c, (findBook bookId).run s =
      (if bookId ≤ 0 ∨ s.faults s.clock = true then none
        else (joined s.db bookId.toInt).map (bookFromRow bookId.toInt), { s with clock := c }) := by
  unfold findBook
  by_cases hid : bookId ≤ 0
  · exact ⟨s.clock, by simp only [hid, if_true, true_or, Prog.run_pure]⟩
  · cases hfault : s.faults s.clock with
    | true =>
      refine ⟨s.clock + 1, ?_⟩
      simp only [hid, if_false, or_true, if_true, run_withConnection, exec_bind,
        query_faulty _ _ s hfault]
      rfl
    | false =>
      have hselect := query_accepted (selectBook bookId.toInt) none s hfault rfl
      refine ⟨s.clock + 1, ?_⟩
      simp only [hid, if_false, Bool.false_eq_true, or_self, run_withConnection, exec_bind,
        hselect]
      rfl

/-- An update of the stock reaches the inventory: both statements go through,
and the row of the book is affected. -/
def Writes (bookId : Int32) (update : BookUpdate) (s : MySql) : Prop :=
  s.faults s.clock = false ∧ (setBook bookId.toInt update).result s.db = some 1 ∧
    s.faults (s.clock + 1) = false

instance (bookId : Int32) (update : BookUpdate) (s : MySql) :
    Decidable (Writes bookId update s) := by
  unfold Writes
  infer_instance

theorem setBook_result (book : ℤ) (update : BookUpdate) (db : Db) :
    (setBook book update).result db = none ∨ (setBook book update).result db = some 0 ∨
      (setBook book update).result db = some 1 := by
  simp only [setBook]
  cases db.books book with
  | none => exact .inr (.inl rfl)
  | some row =>
    by_cases hfits : Fits update
    · by_cases hsame : assign update row = row
      · exact .inr (.inl (by simp only [hfits, not_true, if_false, hsame, if_true]))
      · exact .inr (.inr (by simp only [hfits, not_true, if_false, hsame]))
    · exact .inl (if_pos hfits)

/-- The UPDATE of books leaves the inventory alone. -/
theorem setBook_available (book : ℤ) (update : BookUpdate) (db : Db) (key : ℤ) :
    ((setBook book update).effect db).available key = db.available key := by
  simp only [setBook]
  cases db.books book with
  | none => rfl
  | some row => rfl

theorem setBook_isSome {book : ℤ} {update : BookUpdate} {db : Db}
    (h : (setBook book update).result db = some 1) :
    (((setBook book update).effect db).books book).isSome := by
  cases hrow : db.books book with
  | none => simp [setBook, hrow] at h
  | some row => simp [setBook, hrow]

theorem run_updateRows (bookId : Int32) {update : BookUpdate} {stock : Int32}
    (hstock : update.stock = some stock) (hnonneg : 0 ≤ stock.toInt) (s : MySql) :
    (exec (updateRows bookId update) none s).2.db.available bookId.toInt =
      if Writes bookId update s then stock.toInt else s.db.available bookId.toInt := by
  have hroom : IsUnsigned stock.toInt := by
    have hlt := stock.toInt_lt
    exact ⟨hnonneg, by unfold unsignedMax; omega⟩
  unfold updateRows
  cases hfault : s.faults s.clock with
  | true =>
    have hnot : ¬ Writes bookId update s := fun h => by
      rw [h.1] at hfault
      cases hfault
    simp only [exec_bind, query_faulty _ _ s hfault, hnot, if_false]
    rfl
  | false =>
    rcases setBook_result bookId.toInt update s.db with hresult | hresult | hresult
    · have hnot : ¬ Writes bookId update s := fun h => by
        rw [h.2.1] at hresult
        cases hresult
      simp only [exec_bind, query_rejected (setBook bookId.toInt update) none s hresult, hnot,
        if_false]
      rfl
    · have hnot : ¬ Writes bookId update s := fun h => by
        rw [h.2.1] at hresult
        cases hresult
      simp only [exec_bind, query_accepted (setBook bookId.toInt update) none s hfault hresult,
        hnot, if_false]
      exact setBook_available bookId.toInt update s.db _
    · have hrow := setBook_isSome hresult
      obtain ⟨t, ht⟩ : ∃ t : MySql, t = record none (setBook bookId.toInt update).effect s :=
        ⟨_, rfl⟩
      have hdb : t.db = (setBook bookId.toInt update).effect s.db := by
        rw [ht]
        rfl
      have hlater : t.faults t.clock = s.faults (s.clock + 1) := by
        rw [ht]
        rfl
      simp only [exec_bind, query_accepted (setBook bookId.toInt update) none s hfault hresult,
        hstock, ← ht, Option.map_none]
      cases hfault' : s.faults (s.clock + 1) with
      | true =>
        have hnot : ¬ Writes bookId update s := fun h => by
          rw [h.2.2] at hfault'
          cases hfault'
        simp only [query_faulty _ _ t (hlater.trans hfault'), hnot, if_false]
        change t.db.available _ = _
        rw [hdb, setBook_available]
      | false =>
        have hwrites : Writes bookId update s := ⟨hfault, hresult, hfault'⟩
        have hinsert : (setStock bookId.toInt stock.toInt).result t.db = some () := by
          rw [hdb]
          exact if_pos ⟨hroom, hrow⟩
        simp only [query_accepted (setStock bookId.toInt stock.toInt) none t
          (hlater.trans hfault') hinsert, hwrites, if_true]
        exact (available_update t.db bookId.toInt stock.toInt _).trans (if_pos rfl)

/-- What an update with a stock makes of the inventory row of its book. -/
theorem available_updateBook {bookId : Int32} (hpos : 0 < bookId.toInt) {update : BookUpdate}
    {stock : Int32} (hstock : update.stock = some stock) (hnonneg : 0 ≤ stock.toInt) (s : MySql) :
    ((updateBook bookId update).run s).2.db.available bookId.toInt =
      if Writes bookId update s then stock.toInt else s.db.available bookId.toInt := by
  have hid : ¬ bookId ≤ 0 := by
    rw [Int32.le_iff_toInt_le, Int32.toInt_zero]
    omega
  have hassigned : update ≠ ⟨none, none, none, none, none⟩ := by
    intro hnone
    rw [hnone] at hstock
    cases hstock
  rw [← run_updateRows bookId hstock hnonneg s]
  simp only [updateBook, hid, hassigned, if_false, Prog.run_bind, run_withConnection]
  cases (exec (updateRows bookId update) none s).1.1 with
  | false => rfl
  | true =>
    obtain ⟨c, hfind⟩ := run_findBook bookId (exec (updateRows bookId update) none s).2
    simp only [if_true, hfind]

end Bookstore.MysqlBooks
