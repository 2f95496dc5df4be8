import Bookstore.MysqlBooks

/-!
MysqlBookRepository::update_book when no statement fails. The UPDATE counts a
row as affected only when a value in it changes, and update_book answers that
the book is missing when no row is affected, before it writes the inventory.
-/
namespace Bookstore.PatchedBooks

open Books Database Interleaving MysqlBooks Records Transactions Transactions.Session
open MysqlInventory hiding repository

/-! ## The calls -/

/-- An update that BookService passes on. -/
def Accepted (update : BookUpdate) : Prop :=
  update.Sound ∧ ∀ status ∈ update.status, Listed status

/-- The call answers with the updated book, and find_book shows it afterwards. -/
def Succeeds (bookId : Int32) (update : BookUpdate) (s : MySql) : Prop :=
  ∀ before, ((findBook bookId).run s).1 = some before →
    ((updateBook bookId update).run s).1 = some (update.apply before) ∧
      ((findBook bookId).run ((updateBook bookId update).run s).2).1 = some (update.apply before)

/-- So does the same call right after the first. -/
def SucceedsAgain (bookId : Int32) (update : BookUpdate) (s : MySql) : Prop :=
  ∀ before, ((findBook bookId).run s).1 = some before →
    ((updateBook bookId update).run ((updateBook bookId update).run s).2).1 =
      some (update.apply before)

def noFields : BookUpdate := ⟨none, none, none, none, none⟩

/-- The texts fit into VARCHAR(128), or the UPDATE is rejected. -/
def Short (update : BookUpdate) : Prop :=
  (∀ title ∈ update.title, title.length ≤ 128) ∧ ∀ author ∈ update.author, author.length ≤ 128

/-- The texts are read back as they were written. -/
def Clean (update : BookUpdate) : Prop :=
  (∀ title ∈ update.title, NulFree title) ∧ ∀ author ∈ update.author, NulFree author

/-- The statement on the inventory fails, where the update has one. -/
def StockFails (update : BookUpdate) (s : MySql) : Prop :=
  update.stock.isSome = true ∧ s.faults (s.clock + 1) = true

theorem isUnsigned_toInt {value : Int32} (h : 0 ≤ value) : IsUnsigned value.toInt := by
  rw [Int32.le_iff_toInt_le, Int32.toInt_zero] at h
  have hlt := value.toInt_lt
  exact ⟨h, by unfold unsignedMax; omega⟩

/-- Only long texts make the UPDATE of an accepted update fail. -/
theorem fits_of_accepted {update : BookUpdate} (haccepted : Accepted update)
    (hshort : Short update) : Fits update := by
  obtain ⟨⟨_, _, hprice, hstock⟩, hstatus⟩ := haccepted
  refine ⟨hshort.1, hshort.2, fun price hmem => ?_, fun stock hmem => ?_, fun status hmem => ?_⟩
  · exact isUnsigned_toInt (Int32.le_of_lt (hprice price hmem))
  · exact isUnsigned_toInt (hstock stock hmem)
  · rcases hstatus status hmem with h | h
    · rw [h]
      decide
    · rw [h]
      decide

/-! ## The two tables -/

/-- The tables after both statements on a book with this row. -/
def patched (book : ℤ) (update : BookUpdate) (row : BookRow) (db : Db) : Db :=
  { db with
    books := Function.update db.books book (some (assign update row))
    inventory :=
      match update.stock with
      | none => db.inventory
      | some stock => Function.update db.inventory book (some stock.toInt) }

theorem atoi_toInt (value : Int32) : atoi value.toInt = value := Int32.ofInt_toInt value

/-- The update as the columns show it. -/
def shown (update : BookUpdate) : BookUpdate :=
  { update with
    title := update.title.map cText
    author := update.author.map cText
    status := update.status.map cText }

/-- The book that a joined row shows changes as the columns show the update. -/
theorem book_patched (bookId : Int32) (update : BookUpdate) (row : BookRow) (db : Db) :
    (joined (patched bookId.toInt update row db) bookId.toInt).map (bookFromRow bookId.toInt) =
      some ((shown update).apply (bookFromRow bookId.toInt
        { row with stock := (db.inventory bookId.toInt).getD row.stock })) := by
  have htext : ∀ (assigned : Option String) (column : String),
      cText (assigned.getD column) = (assigned.map cText).getD (cText column) := by
    intro assigned column
    cases assigned with
    | none => rfl
    | some text => rfl
  have hcents : atoi ((update.priceCents.map Int32.toInt).getD row.priceCents) =
      update.priceCents.getD (atoi row.priceCents) := by
    cases update.priceCents with
    | none => rfl
    | some price => exact atoi_toInt price
  simp only [joined, patched, Function.update_self, Option.map_some, bookFromRow, assign,
    BookUpdate.apply, shown, hcents, htext]
  cases hstock : update.stock with
  | none => rfl
  | some stock => simp only [Function.update_self, Option.getD_some, atoi_toInt]

/-- The columns show an accepted update as it is when no text in it has a NUL. -/
theorem shown_apply_iff {update : BookUpdate} (haccepted : Accepted update) (before : Book) :
    (shown update).apply before = update.apply before ↔ Clean update := by
  have htext : ∀ (assigned : Option String) (text : String),
      (assigned.map cText).getD text = assigned.getD text ↔ ∀ t ∈ assigned, NulFree t := by
    intro assigned text
    cases assigned with
    | none => exact iff_of_true rfl fun t ht => nomatch ht
    | some t => simpa using @cText_eq_self_iff t
  have hstatus : (update.status.map cText).getD before.status =
      update.status.getD before.status := by
    rw [htext]
    intro status hmem
    rcases haccepted.2 status hmem with rfl | rfl
    · decide +kernel
    · decide +kernel
  simp only [BookUpdate.apply, shown, Book.mk.injEq, true_and, and_true, hstatus, htext, Clean]

theorem assign_assign (update : BookUpdate) (row : BookRow) :
    assign update (assign update row) = assign update row := by
  obtain ⟨title, author, price, stock, status⟩ := update
  cases title <;> cases author <;> cases price <;> cases stock <;> cases status <;> rfl

/-! ## The statements -/

section Statements

variable {bookId : Int32} {update : BookUpdate} {row : BookRow} {s : MySql}
  (hrow : s.db.books bookId.toInt = some row) (hfits : Fits update)

include hrow hfits

theorem setBook_accepts :
    (setBook bookId.toInt update).result s.db = some (if assign update row = row then 0 else 1) := by
  simp only [setBook, hrow, hfits, not_true, if_false]
  split
  · rfl
  · rfl

omit hfits in
theorem setBook_same (hsame : assign update row = row) :
    (setBook bookId.toInt update).effect s.db = s.db := by
  simp only [setBook, hrow, hsame]
  rw [← hrow, Function.update_eq_self]

/-- Nothing changes when the row has the values already. -/
theorem updateRows_same (hquiet : s.faults s.clock = false) (hsame : assign update row = row) :
    exec (updateRows bookId update) none s = ((false, none), s.tick) := by
  have hresult := setBook_accepts hrow hfits
  rw [if_pos hsame] at hresult
  unfold updateRows
  simp only [exec_bind, query_accepted (setBook bookId.toInt update) none s hquiet hresult]
  simp only [exec_pure, record, setBook_same hrow hsame, Option.map_none]
  rfl

theorem setBook_changes (hchange : assign update row ≠ row) :
    (setBook bookId.toInt update).result s.db = some 1 ∧
      (setBook bookId.toInt update).effect s.db =
        { s.db with
          books := Function.update s.db.books bookId.toInt (some (assign update row)) } := by
  refine ⟨?_, ?_⟩
  · rw [setBook_accepts hrow hfits, if_neg hchange]
  · simp only [setBook, hrow]

/-- Both tables are written when a value changes. -/
theorem updateRows_changed (hquiet : s.faults s.clock = false) (hstored : ¬ StockFails update s)
    (hchange : assign update row ≠ row) :
    ∃ s', exec (updateRows bookId update) none s = ((true, none), s') ∧
      s'.db = patched bookId.toInt update row s.db ∧ s'.faults = s.faults ∧
      s'.clock = s.clock + (if update.stock.isSome then 2 else 1) ∧ s'.nextKey = s.nextKey := by
  obtain ⟨hresult, heffect⟩ := setBook_changes hrow hfits hchange
  unfold updateRows
  simp only [exec_bind, query_accepted (setBook bookId.toInt update) none s hquiet hresult,
    Option.map_none, record]
  cases hstock : update.stock with
  | none =>
    refine ⟨_, rfl, ?_, rfl, rfl, rfl⟩
    simp only [heffect, patched, hstock]
  | some stock =>
    have hlater : s.faults (s.clock + 1) = false := by
      rw [StockFails, hstock] at hstored
      simpa using hstored
    have hinsert : (setStock bookId.toInt stock.toInt).result
        ((setBook bookId.toInt update).effect s.db) = some () :=
      if_pos ⟨hfits.2.2.2.1 stock hstock, setBook_isSome hresult⟩
    simp only [exec_bind]
    rw [query_accepted (setStock bookId.toInt stock.toInt) none
      { s.tick with db := (setBook bookId.toInt update).effect s.db } hlater hinsert]
    refine ⟨_, rfl, ?_, rfl, rfl, rfl⟩
    simp only [record, setStock, heffect, patched, hstock]

/-- The statement on the inventory fails after the one on the books. -/
theorem updateRows_half (hquiet : s.faults s.clock = false) (hfails : StockFails update s)
    (hchange : assign update row ≠ row) :
    ∃ s', exec (updateRows bookId update) none s = ((false, none), s') ∧
      s'.db.books bookId.toInt = some (assign update row) := by
  obtain ⟨hresult, heffect⟩ := setBook_changes hrow hfits hchange
  unfold updateRows
  simp only [exec_bind, query_accepted (setBook bookId.toInt update) none s hquiet hresult,
    Option.map_none, record]
  cases hstock : update.stock with
  | none => simp [StockFails, hstock] at hfails
  | some stock =>
    simp only [exec_bind]
    rw [query_faulty (setStock bookId.toInt stock.toInt) none
      { s.tick with db := (setBook bookId.toInt update).effect s.db } hfails.2]
    refine ⟨_, rfl, ?_⟩
    simp only [Server.tick_db, heffect, Function.update_self]

end Statements

/-! ## The method -/

section Method

variable {bookId : Int32} {update : BookUpdate} {row : BookRow} {s : MySql}

theorem findBook_reliable (hreliable : s.Reliable) (hpos : 0 < bookId) :
    ((findBook bookId).run s).1 = (joined s.db bookId.toInt).map (bookFromRow bookId.toInt) := by
  obtain ⟨c, hfind⟩ := run_findBook bookId s
  have hread : ¬ (bookId ≤ 0 ∨ s.faults s.clock = true) := by
    rw [hreliable]
    simp only [Bool.false_eq_true, or_false, Int32.not_le]
    exact hpos
  rw [hfind, if_neg hread]

theorem run_updateBook (hpos : 0 < bookId) (hfields : update ≠ noFields) :
    (updateBook bookId update).run s =
      if (exec (updateRows bookId update) none s).1.1 then
        (findBook bookId).run (exec (updateRows bookId update) none s).2
      else (none, (exec (updateRows bookId update) none s).2) := by
  have hid : ¬ bookId ≤ 0 := Int32.not_le.mpr hpos
  have hassigned : ¬ update = ⟨none, none, none, none, none⟩ := hfields
  simp only [MysqlBooks.updateBook, hid, hassigned, if_false, Prog.run_bind, run_withConnection]
  split
  · rfl
  · rfl

theorem updateBook_noFields (hpos : 0 < bookId) :
    (updateBook bookId noFields).run s = (findBook bookId).run s := by
  have hid : ¬ bookId ≤ 0 := Int32.not_le.mpr hpos
  simp only [MysqlBooks.updateBook, hid, noFields, if_false, if_true]

variable (hreliable : s.Reliable) (hpos : 0 < bookId)
  (hrow : s.db.books bookId.toInt = some row) (hfits : Fits update)

include hreliable hpos hrow

/-- The book before the call. -/
theorem findBook_row :
    ((findBook bookId).run s).1 = some (bookFromRow bookId.toInt
      { row with stock := (s.db.inventory bookId.toInt).getD row.stock }) := by
  rw [findBook_reliable hreliable hpos]
  simp only [joined, hrow, Option.map_some]

include hfits

/-- A call that changes the row of the book. -/
theorem updateBook_changed (hchange : assign update row ≠ row) {before : Book}
    (hbefore : ((findBook bookId).run s).1 = some before) :
    ∃ s', (updateBook bookId update).run s = (some ((shown update).apply before), s') ∧
      ((findBook bookId).run s').1 = some ((shown update).apply before) ∧ s'.Reliable ∧
      s'.db.books bookId.toInt = some (assign update row) := by
  have hfields : update ≠ noFields := by
    intro hnone
    rw [hnone] at hchange
    exact hchange rfl
  have hstored : ¬ StockFails update s := by
    intro hfails
    have hquiet := hreliable (s.clock + 1)
    rw [hfails.2] at hquiet
    cases hquiet
  rw [findBook_row hreliable hpos hrow, Option.some.injEq] at hbefore
  obtain ⟨t, hexec, hdb, hfaults, _, _⟩ :=
    updateRows_changed hrow hfits (hreliable s.clock) hstored hchange
  have hquiet : t.Reliable := by
    intro n
    rw [hfaults]
    exact hreliable n
  obtain ⟨c, hfind⟩ := run_findBook bookId t
  have hjoined := book_patched bookId update row s.db
  rw [← hdb, hbefore] at hjoined
  have hanswer := (findBook_reliable hquiet hpos).trans hjoined
  have hlater := (findBook_reliable (s := { t with clock := c }) hquiet hpos).trans hjoined
  refine ⟨{ t with clock := c }, ?_, hlater, hquiet, ?_⟩
  · rw [run_updateBook hpos hfields, hexec]
    simp only [if_true]
    rw [hfind] at hanswer ⊢
    rw [← hanswer]
  · rw [hdb]
    exact Function.update_self ..

/-- A call that finds all its values in the row answers that there is no book. -/
theorem updateBook_same (hfields : update ≠ noFields) (hsame : assign update row = row) :
    (updateBook bookId update).run s = (none, s.tick) := by
  rw [run_updateBook hpos hfields, updateRows_same hrow hfits (hreliable s.clock) hsame]
  rfl

theorem succeeds_changed (haccepted : Accepted update) (hchange : assign update row ≠ row) :
    (Succeeds bookId update s ↔ Clean update) ∧ ¬ SucceedsAgain bookId update s := by
  have hbefore := findBook_row hreliable hpos hrow
  have hfields : update ≠ noFields := by
    intro hnone
    rw [hnone] at hchange
    exact hchange rfl
  refine ⟨⟨fun hsucceeds => ?_, fun hclean before hfound => ?_⟩, fun hagain => ?_⟩
  · obtain ⟨s', hrun, _, _, _⟩ := updateBook_changed hreliable hpos hrow hfits hchange hbefore
    have hanswer := (hsucceeds _ hbefore).1
    rw [hrun] at hanswer
    exact (shown_apply_iff haccepted _).mp (Option.some.inj hanswer)
  · obtain ⟨s', hrun, hfind, _, _⟩ :=
      updateBook_changed hreliable hpos hrow hfits hchange hfound
    rw [(shown_apply_iff haccepted before).mpr hclean] at hrun hfind
    rw [hrun]
    exact ⟨rfl, hfind⟩
  · obtain ⟨s', hrun, _, hquiet, hrow'⟩ :=
      updateBook_changed hreliable hpos hrow hfits hchange hbefore
    have hsecond := hagain _ hbefore
    rw [hrun, updateBook_same hquiet hpos hrow' hfits hfields (assign_assign update row)] at hsecond
    cases hsecond

omit hrow hfits in
theorem succeeds_noFields : Succeeds bookId noFields s ∧ SucceedsAgain bookId noFields s := by
  have hfound := findBook_reliable hreliable hpos
  obtain ⟨c, hfind⟩ := run_findBook bookId s
  have hlater := findBook_reliable (s := { s with clock := c }) hreliable hpos
  have hsame : ((findBook bookId).run ((findBook bookId).run s).2).1 =
      ((findBook bookId).run s).1 := by
    rw [hfound, hfind]
    exact hlater
  refine ⟨fun before hbefore => ?_, fun before hbefore => ?_⟩
  · rw [updateBook_noFields hpos, hsame, hbefore]
    exact ⟨rfl, rfl⟩
  · rw [updateBook_noFields hpos, updateBook_noFields hpos, hsame, hbefore]
    rfl

end Method

/-- Book 1 with ten copies in books and three in the inventory. -/
def soldCopies : MySql where
  db := {
    users := fun _ => false
    books := fun id => if id = 1 then some ⟨"Emma", "Austen", 1200, 10, "active"⟩ else none
    inventory := fun id => if id = 1 then some 3 else none
    reservations := fun _ => none
    reservationItems := []
    orders := []
    orderItems := [] }
  nextKey _ := 2
  faults _ := false
  clock := 0

/-- The update that sets the stock and nothing else. -/
def restock (stock : Int32) : BookUpdate := ⟨none, none, none, some stock, none⟩

theorem accepted_restock (stock : Int32) (h : 0 ≤ stock) :
    Accepted (restock stock) ∧ Short (restock stock) := by
  refine ⟨⟨⟨?_, ?_, ?_, ?_⟩, ?_⟩, ?_, ?_⟩
  all_goals
    intro value hvalue
    cases hvalue
  exact h

end Bookstore.PatchedBooks
