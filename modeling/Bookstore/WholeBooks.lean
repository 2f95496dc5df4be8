import Bookstore.BookClients
import Bookstore.PatchedBooks

/-!
What GrpcBookClient makes of a partial update over MysqlBookRepository. It sends
the whole book that find_book shows, so the values that the update leaves out are
written back as they are shown.
-/
namespace Bookstore.WholeBooks

open BookClients BookRpc Books Database MachineInt MysqlBooks MysqlInventory PatchedBooks Records

/-! ## Rows -/

/-- The stocks that an `int` holds. -/
abbrev IsStock (value : ℤ) : Prop := 0 ≤ value ∧ value < 2147483648

/-- A row as the service writes it. -/
structure ValidRow (row : BookRow) : Prop where
  title : row.title ≠ "" ∧ row.title.length ≤ 128
  author : row.author ≠ "" ∧ row.author.length ≤ 128
  price : 0 < row.priceCents ∧ row.priceCents < 2147483648
  stock : IsStock row.stock
  status : Listed row.status

structure ValidTables (db : Db) : Prop where
  rows : ∀ key row, db.books key = some row → ValidRow row
  stock : ∀ key value, db.inventory key = some value → IsStock value

theorem atoi_stock {value : ℤ} (h : IsStock value) : (atoi value).toInt = value :=
  Int32.toInt_ofInt_of_le (Int.le_trans (by decide) h.1) h.2

theorem isStock_toInt {value : Int32} (h : 0 ≤ value) : IsStock value.toInt := by
  rw [Int32.le_iff_toInt_le, Int32.toInt_zero] at h
  exact ⟨h, value.toInt_lt⟩

theorem cText_listed {status : String} (h : Listed status) : cText status = status := by
  rcases h with rfl | rfl
  · decide
  · decide

/-- The book that find_book shows of the two rows. -/
def bookOfRows (bookId : Int32) (row : BookRow) (inventory : Option ℤ) : Book :=
  bookFromRow bookId.toInt { row with stock := inventory.getD row.stock }

theorem ValidTables.getD {db : Db} (h : ValidTables db) {key : ℤ} {row : BookRow}
    (hrow : db.books key = some row) : IsStock ((db.inventory key).getD row.stock) := by
  cases hvalue : db.inventory key with
  | none => exact (h.rows key row hrow).stock
  | some value => exact h.stock key value hvalue

/-! ## What an update does to the rows of a book -/

/-- The update as it arrives, any status but inactive as active. -/
def sent (update : BookUpdate) : BookUpdate :=
  { update with
    status := update.status.map fun status => if status = "inactive" then "inactive" else "active" }

/-- A value that the update leaves out is written back as another one: a text with
a NUL is cut, and for the stock of books the one of inventory is written. -/
def Drifts (update : BookUpdate) (row : BookRow) (inventory : Option ℤ) : Prop :=
  (update.title = none ∧ ¬ NulFree row.title) ∨ (update.author = none ∧ ¬ NulFree row.author) ∨
    (update.stock = none ∧ inventory.getD row.stock ≠ row.stock)

/-- Of a text that the update leaves out nothing is shown. -/
def CutAway (update : BookUpdate) (row : BookRow) : Prop :=
  (update.title = none ∧ cText row.title = "") ∨ (update.author = none ∧ cText row.author = "")

instance (update : BookUpdate) (row : BookRow) (inventory : Option ℤ) :
    Decidable (Drifts update row inventory) := by
  unfold Drifts
  infer_instance

instance (update : BookUpdate) (row : BookRow) : Decidable (CutAway update row) := by
  unfold CutAway
  infer_instance

/-- The row that the whole book makes. -/
def wholeRow (update : BookUpdate) (row : BookRow) (inventory : Option ℤ) : BookRow where
  title := update.title.getD (cText row.title)
  author := update.author.getD (cText row.author)
  priceCents := (update.priceCents.map Int32.toInt).getD row.priceCents
  stock := (update.stock.map Int32.toInt).getD (inventory.getD row.stock)
  status := (sent update).status.getD row.status

theorem wholeRow_eq_iff (update : BookUpdate) (row : BookRow) (inventory : Option ℤ) :
    wholeRow update row inventory = assign (sent update) row ↔ ¬ Drifts update row inventory := by
  obtain ⟨title, author, price, stock, status⟩ := update
  have htext : ∀ (assigned : Option String) (column : String),
      assigned.getD (cText column) = assigned.getD column ↔
        ¬ (assigned = none ∧ ¬ NulFree column) := by
    intro assigned column
    cases assigned with
    | none => simpa using cText_eq_self_iff
    | some text => simp
  have hstock : (stock.map Int32.toInt).getD (inventory.getD row.stock) =
      (stock.map Int32.toInt).getD row.stock ↔
        ¬ (stock = none ∧ inventory.getD row.stock ≠ row.stock) := by
    cases stock with
    | none => simp
    | some value => simp
  simp only [wholeRow, assign, sent, BookRow.mk.injEq, htext, hstock, Drifts, not_or, and_true,
    true_and]

theorem drifts_of_cutAway {update : BookUpdate} {row : BookRow} (hrow : ValidRow row)
    (h : CutAway update row) (inventory : Option ℤ) : Drifts update row inventory := by
  have hcut : ∀ {column : String}, column ≠ "" → cText column = "" → ¬ NulFree column := by
    intro column hne hempty hfree
    rw [cText_eq_self_iff.mpr hfree] at hempty
    exact hne hempty
  rcases h with ⟨hnone, hempty⟩ | ⟨hnone, hempty⟩
  · exact .inl ⟨hnone, hcut hrow.title.1 hempty⟩
  · exact .inr (.inl ⟨hnone, hcut hrow.author.1 hempty⟩)

theorem sent_listed {update : BookUpdate} (h : ∀ status ∈ update.status, Listed status) :
    sent update = update := by
  obtain ⟨title, author, price, stock, status⟩ := update
  cases status with
  | none => rfl
  | some status =>
    rcases h status rfl with rfl | rfl
    · rfl
    · rfl

section WholeBook

variable {update : BookUpdate} {bookId : Int32} {row : BookRow} {inventory : Option ℤ}

/-- The book that GrpcBookClient sends. -/
def merged (update : BookUpdate) (bookId : Int32) (row : BookRow) (inventory : Option ℤ) : Book :=
  update.apply (bookOfRows bookId row inventory)

theorem assign_merged (hrow : ValidRow row) (hstock : IsStock (inventory.getD row.stock)) :
    assign (updateOf (fillBook (merged update bookId row inventory))) row =
      wholeRow update row inventory := by
  have hprice : (atoi row.priceCents).toInt = row.priceCents :=
    atoi_stock ⟨Int.le_of_lt hrow.price.1, hrow.price.2⟩
  have hshown := cText_listed hrow.status
  obtain ⟨title, author, price, stock, status⟩ := update
  have hprices : (price.getD (atoi row.priceCents)).toInt =
      (price.map Int32.toInt).getD row.priceCents := by
    cases price with
    | none => exact hprice
    | some value => rfl
  have hstocks : (stock.getD (atoi (inventory.getD row.stock))).toInt =
      (stock.map Int32.toInt).getD (inventory.getD row.stock) := by
    cases stock with
    | none => exact atoi_stock hstock
    | some value => rfl
  have hstatuses : statusFromProto (statusToProto (status.getD row.status)) =
      (status.map fun s => if s = "inactive" then "inactive" else "active").getD row.status := by
    rw [statusFromProto_statusToProto]
    cases status with
    | none =>
      rcases hrow.status with h | h
      · rw [h]
        rfl
      · rw [h]
        rfl
    | some value => rfl
  simp only [assign, updateOf, fillBook, merged, BookUpdate.apply, bookOfRows, bookFromRow, wholeRow,
    sent, Option.getD_some, Option.map_some, Int32.toInt32_toInt64, hshown, hprices, hstocks,
    hstatuses]

theorem refused_merged_iff (hsound : update.Sound) (hrow : ValidRow row)
    (hstock : IsStock (inventory.getD row.stock)) :
    Refused (merged update bookId row inventory) ↔ CutAway update row := by
  have hprice : ¬ (merged update bookId row inventory).priceCents ≤ 0 := by
    have hpositive : 0 < (merged update bookId row inventory).priceCents.toInt := by
      cases hgiven : update.priceCents with
      | none =>
        simp only [merged, BookUpdate.apply, hgiven, Option.getD_none, bookOfRows, bookFromRow]
        rw [atoi_stock ⟨Int.le_of_lt hrow.price.1, hrow.price.2⟩]
        exact hrow.price.1
      | some price =>
        simp only [merged, BookUpdate.apply, hgiven, Option.getD_some]
        have hpos := Int32.lt_iff_toInt_lt.mp (hsound.2.2.1 price hgiven)
        rwa [Int32.toInt_zero] at hpos
    rw [Int32.le_iff_toInt_le, Int32.toInt_zero]
    omega
  have hkept : ¬ (merged update bookId row inventory).stock < 0 := by
    have hnonneg : 0 ≤ (merged update bookId row inventory).stock.toInt := by
      cases hgiven : update.stock with
      | none =>
        simp only [merged, BookUpdate.apply, hgiven, Option.getD_none, bookOfRows, bookFromRow]
        rw [atoi_stock hstock]
        exact hstock.1
      | some stock =>
        simp only [merged, BookUpdate.apply, hgiven, Option.getD_some]
        have hle := Int32.le_iff_toInt_le.mp (hsound.2.2.2 stock hgiven)
        rwa [Int32.toInt_zero] at hle
    rw [Int32.lt_iff_toInt_lt, Int32.toInt_zero]
    omega
  have htext : ∀ {assigned : Option String} {column : String}, (∀ text ∈ assigned, text ≠ "") →
      (assigned.getD column = "" ↔ assigned = none ∧ column = "") := by
    intro assigned column hne
    cases assigned with
    | none => simp
    | some text => simpa using hne text rfl
  have htitle : (merged update bookId row inventory).title = "" ↔
      update.title = none ∧ cText row.title = "" := htext hsound.1
  have hauthor : (merged update bookId row inventory).author = "" ↔
      update.author = none ∧ cText row.author = "" := htext hsound.2.1
  unfold Refused CutAway
  rw [htitle, hauthor]
  simp only [hprice, hkept, or_false]

/-- The whole book fits its columns when the texts of the update do. -/
theorem fits_merged_iff (hrow : ValidRow row)
    (hvalid : ¬ Refused (merged update bookId row inventory)) :
    Fits (updateOf (fillBook (merged update bookId row inventory))) ↔ Short update := by
  have htext : ∀ (assigned : Option String) (column : String), column.length ≤ 128 →
      ((assigned.getD (cText column)).length ≤ 128 ↔ ∀ text ∈ assigned, text.length ≤ 128) := by
    intro assigned column hlength
    cases assigned with
    | none => exact iff_of_true (Nat.le_trans (length_cText_le column) hlength) nofun
    | some text => simp
  have hsound := (sound_updateOf (merged update bookId row inventory)).mpr hvalid
  have hlisted := listed_updateOf (merged update bookId row inventory)
  have htitle := htext update.title row.title hrow.title.2
  have hauthor := htext update.author row.author hrow.author.2
  constructor
  · intro hfits
    exact ⟨htitle.mp (hfits.1 _ rfl), hauthor.mp (hfits.2.1 _ rfl)⟩
  · intro hshort
    refine fits_of_accepted ⟨hsound, hlisted⟩ ⟨fun title hmem => ?_, fun author hmem => ?_⟩
    · rw [← Option.mem_some_iff.mp hmem]
      exact htitle.mpr hshort.1
    · rw [← Option.mem_some_iff.mp hmem]
      exact hauthor.mpr hshort.2

end WholeBook

end Bookstore.WholeBooks
