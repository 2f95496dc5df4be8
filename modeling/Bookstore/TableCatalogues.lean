import Bookstore.SimilarBooks
import Bookstore.WholeBooks

/-!
The books of the tables as a catalogue. While no call changes the tables,
MysqlBookRepository serves it, behind LocalBookClient and behind GrpcBookClient.
-/
namespace Bookstore.TableCatalogues

open BookClients BookRpc Books Database Interleaving MachineInt MysqlBooks MysqlInventory Records
open Repositories SimilarBooks TopK Transactions Transactions.Session WholeBooks

/-- Tables of valid books whose keys an `int` holds. -/
structure Shelved (db : Db) : Prop extends ValidTables db where
  keys : ∀ key row, db.books key = some row → 0 < key ∧ key < 2147483648

/-- The books with these keys. -/
def booksAt (db : Db) (keys : List ℕ) : List Book :=
  keys.filterMap fun key : ℕ => (joined db key).map (bookFromRow key)

/-- The keys that the column can hold. -/
@[irreducible] def allKeys : List ℕ := List.range (unsignedMax.toNat + 1)

/-- Every book of the tables, in the order of the keys. -/
def tableBooks (db : Db) : List Book := booksAt db allKeys

/-- The tables are these, and no statement fails. -/
def Holds (db : Db) (s : MySql) : Prop := s.db = db ∧ s.Reliable

variable {db : Db} {keys : List ℕ}

theorem toInt_atoi {key : ℤ} (h : 0 < key ∧ key < 2147483648) : (atoi key).toInt = key :=
  Int32.toInt_ofInt_of_le (Int.le_trans (by decide) (Int.le_of_lt h.1)) h.2

theorem joined_row {key : ℤ} {row : BookRow} (h : joined db key = some row) :
    ∃ stored, db.books key = some stored ∧ row.status = stored.status := by
  obtain ⟨stored, hstored, rfl⟩ := Option.map_eq_some_iff.mp h
  exact ⟨stored, hstored, rfl⟩

theorem mem_booksAt {book : Book} (h : book ∈ booksAt db keys) :
    ∃ key row, joined db key = some row ∧ book = bookFromRow key row := by
  obtain ⟨key, _, hbook⟩ := List.mem_filterMap.mp h
  obtain ⟨row, hrow, rfl⟩ := Option.map_eq_some_iff.mp hbook
  exact ⟨key, row, hrow, rfl⟩

theorem sound_booksAt (h : Shelved db) :
    ∀ book ∈ booksAt db keys, 0 < book.id ∧ Listed book.status := by
  intro book hbook
  obtain ⟨key, row, hrow, rfl⟩ := mem_booksAt hbook
  obtain ⟨stored, hstored, hstatus⟩ := joined_row hrow
  have hkey := h.keys key stored hstored
  have hlisted := (h.rows key stored hstored).status
  refine ⟨?_, ?_⟩
  · rw [Int32.lt_iff_toInt_lt, Int32.toInt_zero]
    exact (toInt_atoi hkey).symm ▸ hkey.1
  · have hshown : (bookFromRow key row).status = stored.status := by
      rw [← cText_listed hlisted, ← hstatus]
      rfl
    rw [hshown]
    exact hlisted

theorem distinct_booksAt (h : Shelved db) (hkeys : keys.Nodup) :
    ((booksAt db keys).map Book.id).Nodup := by
  have hids : (booksAt db keys).map Book.id =
      keys.filterMap fun key : ℕ => (joined db key).map fun _ => atoi key := by
    rw [booksAt, List.map_filterMap]
    refine List.filterMap_congr fun key _ => ?_
    rw [Option.map_map]
    rfl
  rw [hids]
  refine hkeys.filterMap fun key key' id hid hid' => ?_
  obtain ⟨row, hrow, hkey⟩ := Option.map_eq_some_iff.mp (Option.mem_def.mp hid)
  obtain ⟨row', hrow', hkey'⟩ := Option.map_eq_some_iff.mp (Option.mem_def.mp hid')
  obtain ⟨stored, hstored, _⟩ := joined_row hrow
  obtain ⟨stored', hstored', _⟩ := joined_row hrow'
  have hsame := congrArg Int32.toInt (hkey.trans hkey'.symm)
  rw [toInt_atoi (h.keys _ _ hstored), toInt_atoi (h.keys _ _ hstored')] at hsame
  exact Int.ofNat_inj.mp hsame

theorem nodup_allKeys : allKeys.Nodup := by
  unfold allKeys
  exact List.nodup_range

/-- The catalogue that the tables hold. -/
def catalogue (db : Db) (h : Shelved db) : Catalogue where
  books := tableBooks db
  distinct := distinct_booksAt h nodup_allKeys

theorem catalogue_books (h : Shelved db) : (catalogue db h).books = tableBooks db := rfl

theorem active_booksAt (h : Shelved db) : active (booksAt db keys) =
    (keys.filterMap fun key : ℕ => match joined db key with
      | none => none
      | some row => if row.status = "active" then some ((key : ℤ), row) else none).map
        fun row => bookFromRow row.1 row.2 := by
  rw [active, booksAt, List.filter_filterMap, List.map_filterMap]
  refine List.filterMap_congr fun key _ => ?_
  cases hrow : joined db key with
  | none => rfl
  | some row =>
    obtain ⟨stored, hstored, hstatus⟩ := joined_row hrow
    have hlisted : Listed row.status := hstatus ▸ (h.rows key stored hstored).status
    have hshown : (bookFromRow key row).status = row.status := cText_listed hlisted
    by_cases hactive : row.status = "active"
    · simp [hactive, hshown]
    · simp [hactive, hshown]

/-- ORDER BY b.id lists the active books of the tables. -/
theorem listBooks_run (h : Shelved db) {s : MySql} (hs : Holds db s) :
    (MysqlBooks.listBooks.run s).1 = active (tableBooks db) ∧
      Holds db (MysqlBooks.listBooks.run s).2 := by
  obtain ⟨rfl, hreliable⟩ := hs
  have hselect := query_accepted selectActiveBooks none s (hreliable _) rfl
  unfold MysqlBooks.listBooks
  simp only [run_withConnection, exec_bind, hselect, exec_pure, view_none]
  refine ⟨?_, rfl, hreliable⟩
  rw [tableBooks, active_booksAt h]
  unfold allKeys
  congr 2

theorem findBook_run (h : Shelved db) {s : MySql} (hs : Holds db s) {book : Book}
    (hbook : book ∈ tableBooks db) :
    ((MysqlBooks.findBook book.id).run s).1 = some book ∧
      Holds db ((MysqlBooks.findBook book.id).run s).2 := by
  obtain ⟨rfl, hreliable⟩ := hs
  obtain ⟨c, hrun⟩ := run_findBook book.id s
  have hpos := (sound_booksAt h book hbook).1
  obtain ⟨key, row, hrow, rfl⟩ := mem_booksAt hbook
  obtain ⟨stored, hstored, _⟩ := joined_row hrow
  have hid : (bookFromRow key row).id.toInt = key := toInt_atoi (h.keys key stored hstored)
  rw [hrun, hid, hrow]
  refine ⟨?_, rfl, hreliable⟩
  rw [if_neg]
  · rfl
  · rw [hreliable, not_or]
    exact ⟨Int32.not_le.mpr hpos, Bool.false_ne_true⟩

theorem mysql_serves (h : Shelved db) : Serves mysqlBookRepository (Holds db) (tableBooks db) where
  list s hs := by
    obtain ⟨hlisted, hkept⟩ := listBooks_run h hs
    have hactive : active (MysqlBooks.listBooks.run s).1 = active (tableBooks db) := by
      rw [hlisted, active_active]
    exact ⟨hactive ▸ .refl _, hkept⟩
  find s hs book hbook := findBook_run h hs hbook

/-- Both clients of the book service serve the tables. -/
theorem mysql_clients_serve (h : Shelved db) :
    Serves (localBookClient mysqlBookRepository) (Holds db) (catalogue db h).books ∧
      Serves (grpcBookClient (bookServer mysqlBookRepository)) (Holds db)
        (catalogue db h).books := by
  rw [catalogue_books]
  exact ⟨(mysql_serves h).localClient, (mysql_serves h).grpcClient (sound_booksAt h)⟩

end Bookstore.TableCatalogues
