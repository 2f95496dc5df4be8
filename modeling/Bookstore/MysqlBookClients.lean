import Bookstore.CatalogueFailures
import Bookstore.Clockless
import Bookstore.Preservation
import Bookstore.WholeBooks

/-!
LocalBookClient and GrpcBookClient over MysqlBookRepository on a server that does
not fail: the calls that tell them apart are creates of a book of an unknown status
and updates, and a run without such calls leaves the same tables.
-/
namespace Bookstore.MysqlBookClients

open BookClients BookRpc Books CatalogueFailures Clockless Database Interleaving MachineInt
open MysqlBooks MysqlInventory PatchedBooks Preservation Records Transactions
open Transactions.Session WholeBooks

/-! ## The methods do not see the clock -/

theorem blind_listBooks : Blind MysqlBooks.listBooks := by
  refine BlindSession.withConnection (.bind (.query _) fun rows => ?_)
  cases rows with
  | none => exact .pure _
  | some rows => exact .pure _

theorem blind_findBook (bookId : Int32) : Blind (MysqlBooks.findBook bookId) := by
  refine .ite (.pure _) (BlindSession.withConnection (.bind (.query _) fun row => ?_))
  cases row with
  | none => exact .pure _
  | some row => exact .pure _

theorem blind_createRows (book : Book) : BlindSession (createRows book) := by
  rw [createRows_eq]
  refine .bind (.insertKeyed _ _) fun key => ?_
  cases key with
  | none => exact .pure _
  | some key =>
    refine .bind (.query _) fun stored => ?_
    cases stored with
    | none => exact .pure _
    | some stored => exact .pure _

theorem blind_createSession (book : Book) : BlindSession (createSession book) := by
  refine .bind .startTransaction fun started => ?_
  cases started with
  | false => exact .pure _
  | true =>
    refine .bind (blind_createRows book) fun bookId => ?_
    cases bookId with
    | none => exact .bind .rollback fun _ => .pure _
    | some bookId =>
      refine .bind .commit fun committed => ?_
      cases committed with
      | false => exact .bind .rollback fun _ => .pure _
      | true => exact .pure _

theorem blind_createBook (book : Book) : Blind (MysqlBooks.createBook book) := by
  rw [createBook_eq]
  refine .ite (.pure _) (.bind (blind_createSession book).withConnection fun created => ?_)
  cases created with
  | none => exact .pure _
  | some bookId => exact blind_findBook bookId

theorem blind_updateRows (bookId : Int32) (update : BookUpdate) :
    BlindSession (updateRows bookId update) := by
  refine .bind (.query _) fun changed => ?_
  split
  · split
    · exact .pure _
    · refine .bind (.query _) fun stored => ?_
      cases stored with
      | none => exact .pure _
      | some stored => exact .pure _
  · exact .pure _

theorem blind_updateBook (bookId : Int32) (update : BookUpdate) :
    Blind (MysqlBooks.updateBook bookId update) := by
  refine .ite (.pure _) (.ite (blind_findBook bookId) ?_)
  refine .bind (blind_updateRows bookId update).withConnection fun updated => ?_
  exact .ite (blind_findBook bookId) (.pure _)

/-! ## The clients do not -/

theorem blind_service_create (book : Book) :
    Blind ((bookService mysqlBookRepository).createBook book) :=
  .ite (.pure _) (.ite (blind_createBook _) (.pure _))

theorem blind_service_update (bookId : Int32) (update : BookUpdate) :
    Blind ((bookService mysqlBookRepository).updateBook bookId update) :=
  .ite (.pure _) (.ite (.pure _) (.ite (.pure _) (blind_updateBook bookId update)))

theorem blind_getBook (bookId : Int32) :
    Blind (BookRpc.findBook (bookServer mysqlBookRepository) bookId) :=
  .bind (.ite (.pure _) (.bind (blind_findBook _) fun _ => .pure _)) fun _ => .pure _

theorem blind_sendBook (bookId : Int32) (book : Book) :
    Blind (sendBook (bookServer mysqlBookRepository) bookId book) :=
  .bind (.ite (.pure _) (.bind (blind_service_update _ _) fun _ => .pure _)) fun _ => .pure _

/-- What GrpcBookClient answers depends on the tables only. -/
theorem blind_remote (call : Call) :
    Blind (perform (grpcBookClient (bookServer mysqlBookRepository)) call) := by
  cases call with
  | listBooks =>
    exact .bind (.bind (.bind blind_listBooks fun _ => .pure _) fun _ => .pure _) fun _ => .pure _
  | findBook bookId => exact .bind (blind_getBook bookId) fun _ => .pure _
  | createBook book =>
    exact .bind (.bind (.bind (blind_service_create _) fun _ => .pure _) fun _ => .pure _)
      fun _ => .pure _
  | updateBook bookId update =>
    refine .bind (.bind (blind_getBook bookId) fun found => ?_) fun _ => .pure _
    cases found with
    | none => exact .pure _
    | some book => exact blind_sendBook _ _

theorem blind_here (call : Call) :
    Blind (perform (localBookClient mysqlBookRepository) call) := by
  cases call with
  | listBooks => exact .bind blind_listBooks fun _ => .pure _
  | findBook bookId => exact .bind (blind_findBook bookId) fun _ => .pure _
  | createBook book => exact .bind (blind_service_create book) fun _ => .pure _
  | updateBook bookId update => exact .bind (blind_service_update bookId update) fun _ => .pure _

/-! ## Calls that tell the clients apart -/

def SameTables (t u : MySql) : Prop := t.db = u.db ∧ t.nextKey = u.nextKey

/-- Updates, with sound fields, of a book with these rows that the two clients do
not treat alike: one without fields; one whose texts fit where a value that it
leaves out drifts, and one of the two UPDATEs changes the row; one that makes the
inventory row of a book that has none; and one that is refused for its status
alone where the UPDATE of the whole book changes the row. -/
def DivergentUpdate (update : BookUpdate) (row : BookRow) (inventory : Option ℤ) : Prop :=
  update = noFields ∨ Short update ∧
    if ∀ status ∈ update.status, Listed status then
      Drifts update row inventory ∧ (assign update row ≠ row ∨ ¬ CutAway update row) ∨
        assign update row ≠ row ∧ update.stock = none ∧ inventory = none
    else
      ¬ CutAway update row ∧ (Drifts update row inventory ∨ assign (sent update) row ≠ row)

instance (update : BookUpdate) (row : BookRow) (inventory : Option ℤ) :
    Decidable (DivergentUpdate update row inventory) := by
  unfold DivergentUpdate Short
  infer_instance

/-- The calls to which the clients answer differently, or after which the tables
differ: a book that is refused for its status alone where the tables take its row,
and updates. -/
def Divergent (s : MySql) : Call → Prop
  | .listBooks => False
  | .findBook _ => False
  | .createBook book => ¬ Refused book ∧ book.status ≠ "" ∧ ¬ Listed book.status ∧
      book.title.length ≤ 128 ∧ book.author.length ≤ 128 ∧ IsUnsigned (s.nextKey .books) ∧
      s.db.books (s.nextKey .books) = none
  | .updateBook bookId update => 0 < bookId ∧ update.Sound ∧
      ∃ row, s.db.books bookId.toInt = some row ∧
        DivergentUpdate update row (s.db.inventory bookId.toInt)

/-- A call is divergent and tells the clients apart, or it does neither. -/
def Told (call : Call) (s : MySql) : Prop :=
  (Divergent s call ∧ ¬ AlikeAt mysqlBookRepository SameTables call s s) ∨
  (¬ Divergent s call ∧ AlikeAt mysqlBookRepository SameTables call s s ∧
    ValidTables (here mysqlBookRepository call s).2.db)

/-- Where both clients answer none and leave the tables alone, they are alike. -/
theorem told_of_none {s t u : MySql} {call : Call} (hv : ValidTables s.db)
    (hsame : ¬ Divergent s call)
    (hremote : remote mysqlBookRepository call s = (.book none, t)) (ht : SameTables t s)
    (hhere : here mysqlBookRepository call s = (.book none, u)) (hu : SameTables u s) :
    Told call s := by
  refine .inr ⟨hsame, ?_, ?_⟩
  · rw [AlikeAt, hremote, hhere]
    exact ⟨rfl, ht.1.trans hu.1.symm, ht.2.trans hu.2.symm⟩
  · rw [hhere, hu.1]
    exact hv

section Reads

variable {s : MySql}

/-- The books that the methods read have one of the two statuses. -/
theorem joined_listed {db : Db} (hv : ValidTables db) (bookId : Int32) {book : Book}
    (h : (joined db bookId.toInt).map (bookFromRow bookId.toInt) = some book) :
    Listed book.status := by
  cases hrow : db.books bookId.toInt with
  | none => simp [joined, hrow] at h
  | some row =>
    simp only [joined, hrow, Option.map_some, Option.some.injEq] at h
    rw [← h, bookFromRow]
    have hlisted := (hv.rows _ row hrow).status
    rw [← cText_listed hlisted] at hlisted
    exact hlisted

theorem bookOf_joined {db : Db} (hv : ValidTables db) (bookId : Int32)
    (status : InventoryRpc.Status) :
    bookOf (respond status ((joined db bookId.toInt).map (bookFromRow bookId.toInt))) =
      (joined db bookId.toInt).map (bookFromRow bookId.toInt) := by
  cases hbook : (joined db bookId.toInt).map (bookFromRow bookId.toInt) with
  | none => rfl
  | some book => exact bookOf_respond status (joined_listed hv bookId hbook)

theorem selectActiveBooks_active {db : Db} {rows : List (ℤ × BookRow)}
    (h : selectActiveBooks.result db = some rows) : ∀ row ∈ rows, row.2.status = "active" := by
  obtain rfl := Option.some.inj h
  rintro ⟨key, row⟩ hmem
  obtain ⟨n, -, hrow⟩ := List.mem_filterMap.mp hmem
  split at hrow
  · cases hrow
  · split at hrow
    · rename_i hstatus
      cases hrow
      exact hstatus
    · cases hrow

theorem run_listBooks (hs : s.Reliable) : ∃ rows, selectActiveBooks.result s.db = some rows ∧
    MysqlBooks.listBooks.run s = (rows.map fun row => bookFromRow row.1 row.2, s.tick) := by
  obtain ⟨rows, hrows⟩ : ∃ rows, selectActiveBooks.result s.db = some rows := ⟨_, rfl⟩
  refine ⟨rows, hrows, ?_⟩
  rw [MysqlBooks.listBooks, run_withConnection, exec_bind,
    query_accepted selectActiveBooks none s (hs _) hrows]
  rfl

theorem told_listBooks (hs : s.Reliable) (hv : ValidTables s.db) : Told .listBooks s := by
  obtain ⟨rows, hrows, hlist⟩ := run_listBooks hs
  have hactive : ∀ book ∈ (MysqlBooks.listBooks.run s).1, book.status = "active" := by
    intro book hbook
    rw [hlist] at hbook
    obtain ⟨row, hmem, rfl⟩ := List.mem_map.mp hbook
    rw [bookFromRow, selectActiveBooks_active hrows row hmem]
    exact cText_listed (.inl rfl)
  have hremote : remote mysqlBookRepository .listBooks s =
      (.books (MysqlBooks.listBooks.run s).1, (MysqlBooks.listBooks.run s).2) := by
    have hservice : (bookService mysqlBookRepository).listBooks = MysqlBooks.listBooks := rfl
    simp only [remote, perform, grpcBookClient, bookServer, BookRpc.listBooks, Prog.run_bind,
      hservice, Prog.run_pure, booksOf, List.map_map, Bool.true_and, Bool.not_not]
    congr 2
    rw [List.filter_eq_self.mpr fun book hbook => decide_eq_true (hactive book hbook)]
    refine (List.map_congr_left fun book hbook => ?_).trans (List.map_id' _)
    exact bookFromProto_fill_listed (.inl (hactive book hbook))
  have hhere : here mysqlBookRepository .listBooks s =
      (.books (MysqlBooks.listBooks.run s).1, (MysqlBooks.listBooks.run s).2) := by
    have hservice : (localBookClient mysqlBookRepository).listBooks = MysqlBooks.listBooks := rfl
    simp only [here, perform, Prog.run_bind, hservice, Prog.run_pure]
  refine .inr ⟨id, ?_, ?_⟩
  · rw [AlikeAt, hremote, hhere]
    exact ⟨rfl, rfl, rfl⟩
  · rw [hhere, hlist]
    exact hv

/-- The read of the first RPC, which the update makes, too. -/
theorem run_getBook (hs : s.Reliable) (hv : ValidTables s.db) (bookId : Int32) :
    ∃ c, (BookRpc.findBook (bookServer mysqlBookRepository) bookId).run s =
      (if bookId ≤ 0 then none else (joined s.db bookId.toInt).map (bookFromRow bookId.toInt),
        { s with clock := c }) := by
  simp only [BookRpc.findBook, bookServer, getBook, toInt64_le_zero_iff, Int32.toInt32_toInt64]
  by_cases hid : bookId ≤ 0
  · refine ⟨s.clock, ?_⟩
    simp only [hid, if_true]
    rfl
  · obtain ⟨c, hfind⟩ := run_findBook bookId s
    have hservice : ((bookService mysqlBookRepository).findBook bookId).run s =
        (MysqlBooks.findBook bookId).run s := rfl
    refine ⟨c, ?_⟩
    simp only [hid, if_false, Prog.run_bind, hservice, hfind, hs s.clock, Bool.false_eq_true, or_self,
      Prog.run_pure]
    rw [bookOf_joined hv]

theorem told_findBook (hs : s.Reliable) (hv : ValidTables s.db) (bookId : Int32) :
    Told (.findBook bookId) s := by
  obtain ⟨c, hremote⟩ := run_getBook hs hv bookId
  obtain ⟨c', hfind⟩ := run_findBook bookId s
  have hhere : ((localBookClient mysqlBookRepository).findBook bookId).run s =
      (MysqlBooks.findBook bookId).run s := rfl
  simp only [hs s.clock, Bool.false_eq_true, or_false] at hfind
  refine .inr ⟨id, ⟨?_, ?_⟩, ?_⟩
  · simp only [remote, here, perform, grpcBookClient, Prog.run_bind, hremote, hhere, hfind,
      Prog.run_pure]
  · simp only [remote, here, perform, grpcBookClient, Prog.run_bind, hremote, hhere, hfind,
      Prog.run_pure]
    exact ⟨rfl, rfl⟩
  · simp only [here, perform, Prog.run_bind, hhere, hfind, Prog.run_pure]
    exact hv

end Reads

/-! ## Books that are created -/

section Creates

variable {s : MySql}

theorem newRow_listed {book : Book} (h : Valid book) : Listed (newRow book).status := by
  rw [newRow]
  split
  · exact .inl rfl
  · exact h.2

theorem newRow_valid {book : Book} (h : Valid book) (htitle : book.title.length ≤ 128)
    (hauthor : book.author.length ≤ 128) : ValidRow (newRow book) := by
  have hfields := h.1
  simp only [Refused, not_or, Int32.not_le, Int32.not_lt] at hfields
  obtain ⟨h1, h2, h3, h4⟩ := hfields
  rw [Int32.lt_iff_toInt_lt, Int32.toInt_zero] at h3
  exact ⟨⟨h1, htitle⟩, ⟨h2, hauthor⟩, ⟨h3, book.priceCents.toInt_lt⟩, isStock_toInt h4,
    newRow_listed h⟩

/-- The session of create_book keeps the tables valid. -/
theorem createSession_keeps {book : Book} (h : Valid book) :
    Keeps ValidTables (createSession book) := by
  refine .bind .startTransaction fun started => ?_
  cases started with
  | false => exact .pure _
  | true =>
    refine .bind ?_ fun bookId => ?_
    · rw [createRows_eq]
      refine .bind (.insertKeyed _ fun key db hdb hresult => ?_) fun key => ?_
      · simp only [insertBook] at hresult
        split at hresult
        · rename_i haccepted
          refine ⟨fun other row hrow => ?_, hdb.stock⟩
          simp only [insertBook, Function.update_apply] at hrow
          split at hrow
          · cases hrow
            exact newRow_valid h haccepted.1 haccepted.2.1
          · exact hdb.rows other row hrow
        · cases hresult
      · cases key with
        | none => exact .pure _
        | some key =>
          refine .bind (.query fun db answer hdb _ => ?_) fun stored => ?_
          · refine ⟨hdb.rows, fun other value hvalue => ?_⟩
            simp only [insertInventory, Function.update_apply] at hvalue
            split at hvalue
            · cases hvalue
              have hfields := h.1
              simp only [Refused, not_or, Int32.not_lt] at hfields
              exact isStock_toInt hfields.2.2.2
            · exact hdb.stock other value hvalue
          · cases stored with
            | none => exact .pure _
            | some stored => exact .pure _
    · cases bookId with
      | none => exact .bind .rollback fun _ => .pure _
      | some bookId => exact keeps_commit_or _ _

/-- create_book keeps the tables valid, and the book it answers with has one of
the two statuses. -/
theorem run_createBook_valid (hs : s.Reliable) (hv : ValidTables s.db) {book : Book}
    (h : Valid book) : ValidTables ((MysqlBooks.createBook book).run s).2.db ∧
      ∀ created, ((MysqlBooks.createBook book).run s).1 = some created →
        Listed created.status := by
  have hafter := (createSession_keeps h none s ⟨hv, hv⟩).committed
  have hquiet : (exec (createSession book) none s).2.Reliable :=
    ((blind_createSession book) none s s (.refl hs)).2.reliable
  rw [run_createBook h.1]
  cases hsession : (exec (createSession book) none s).1.1 with
  | none => exact ⟨hafter, nofun⟩
  | some bookId =>
    obtain ⟨c, hfind⟩ := run_findBook bookId (exec (createSession book) none s).2
    dsimp only
    rw [hfind, hquiet]
    refine ⟨hafter, fun created hcreated => ?_⟩
    simp only [Bool.false_eq_true, or_false] at hcreated
    split at hcreated
    · cases hcreated
    · exact joined_listed hafter bookId hcreated

/-- An INSERT that goes through uses up a key, whatever comes after it. -/
theorem createSession_key (hs : s.Reliable) {book : Book}
    (hinsert : (insertBook (newRow book) (s.nextKey .books)).result s.db = some ()) :
    (exec (createSession book) none s).2.nextKey .books = s.nextKey .books + 1 := by
  have hfirst := insertKeyed_accepted Table.books (insertBook (newRow book)) id s.tick (hs _)
    hinsert
  have hkey : Function.update s.nextKey Table.books (s.nextKey .books + 1) .books =
      s.nextKey .books + 1 := Function.update_self ..
  rw [createSession, exec_bind, startTransaction_accepted _ _ (hs _)]
  simp only [if_true, exec_bind, createRows_eq, hfirst]
  rcases query_cases (insertInventory (atoi (s.nextKey .books)).toInt book.stock.toInt)
    ((insertBook (newRow book) (s.nextKey .books)).effect ∘ id) { s.tick.tick with
      nextKey := Function.update s.nextKey .books (s.nextKey .books + 1) } with
    ⟨hnone, -⟩ | ⟨stored, -, hsome⟩
  · simp only [Server.tick_nextKey, hnone]
    exact hkey
  · simp only [Server.tick_nextKey, hsome, exec_bind, exec_pure]
    rw [commit_accepted]
    · exact hkey
    · exact hs _

/-- An INSERT that the tables reject leaves them and the key alone. -/
theorem createSession_rejected (hs : s.Reliable) {book : Book}
    (hinsert : (insertBook (newRow book) (s.nextKey .books)).result s.db ≠ some ()) :
    exec (createSession book) none s = ((none, none), s.tick.tick.tick) := by
  have hfirst := insertKeyed_refused Table.books (insertBook (newRow book)) id s.tick
    fun h => hinsert h.2
  rw [createSession, exec_bind, startTransaction_accepted _ _ (hs _)]
  simp only [if_true, exec_bind, createRows_eq, hfirst]
  rfl

theorem insertBook_takes_iff {book : Book} (h : ¬ Refused book) (key : ℤ) (db : Db) :
    (insertBook (newRow (arrived book)) key).result db = some () ↔
      book.title.length ≤ 128 ∧ book.author.length ≤ 128 ∧ IsUnsigned key ∧
        db.books key = none := by
  have hfields := h
  simp only [Refused, not_or, Int32.not_le, Int32.not_lt] at hfields
  have hstatus : (newRow (arrived book)).status.length ≤ 32 := by
    rcases newRow_listed (valid_arrived h) with hlisted | hlisted
    · rw [hlisted]
      decide
    · rw [hlisted]
      decide
  have hprice : IsUnsigned book.priceCents.toInt := isUnsigned_toInt (Int32.le_of_lt hfields.2.2.1)
  have hstock : IsUnsigned book.stock.toInt := isUnsigned_toInt hfields.2.2.2
  simp only [insertBook]
  split
  · rename_i htakes
    exact iff_of_true rfl ⟨htakes.1, htakes.2.1, htakes.2.2.2.2.2⟩
  · rename_i hrejects
    refine iff_of_false (fun hnone => by cases hnone) fun h => hrejects ?_
    exact ⟨h.1, h.2.1, hprice, hstock, hstatus, h.2.2⟩

theorem told_create_refused (hv : ValidTables s.db) {book : Book} (h : Refused book) :
    Told (.createBook book) s := by
  have harrived : Refused (arrived book) := h
  have hremote := remote_createBook mysqlBookRepository book s
  have hhere := here_createBook mysqlBookRepository book s
  simp only [Books.createBook, h, harrived, if_true, Prog.run_pure] at hremote hhere
  exact told_of_none hv (fun hdivergent => hdivergent.1 h) hremote ⟨rfl, rfl⟩ hhere ⟨rfl, rfl⟩

/-- The status survives the way to the server: both clients create one book. -/
theorem told_create_listed (hs : s.Reliable) (hv : ValidTables s.db) {book : Book}
    (hrefused : ¬ Refused book) (hstatus : book.status = "" ∨ Listed book.status) :
    Told (.createBook book) s := by
  obtain ⟨hafter, hlisted⟩ := run_createBook_valid hs hv (valid_arrived hrefused)
  have hrepository : mysqlBookRepository.createBook = MysqlBooks.createBook := rfl
  have hremote := remote_create_valid mysqlBookRepository hrefused s
  have hhere := here_createBook mysqlBookRepository book s
  rw [create_listed mysqlBookRepository hrefused hstatus] at hhere
  rw [hrepository] at hremote hhere
  refine .inr ⟨?_, ?_, ?_⟩
  · intro hdivergent
    rcases hstatus with hempty | hlisted
    · exact hdivergent.2.1 hempty
    · exact hdivergent.2.2.1 hlisted
  · rw [AlikeAt, hremote, hhere]
    refine ⟨?_, rfl, rfl⟩
    cases hcreated : ((MysqlBooks.createBook (arrived book)).run s).1 with
    | none => simp only [hcreated]; rfl
    | some created => simp only [hcreated, bookOf_respond _ (hlisted created hcreated)]
  · rw [hhere]
    exact hafter

/-- The status is refused here and read as "active" there: a key is used there
whenever the books table takes the row. -/
theorem told_create_unlisted (hs : s.Reliable) (hv : ValidTables s.db) {book : Book}
    (hrefused : ¬ Refused book) (hempty : book.status ≠ "") (hunlisted : ¬ Listed book.status) :
    Told (.createBook book) s := by
  have hrepository : mysqlBookRepository.createBook = MysqlBooks.createBook := rfl
  have hhere := here_createBook mysqlBookRepository book s
  simp only [Books.createBook, hrefused, hempty, hunlisted, if_false, Prog.run_pure] at hhere
  have hremote := remote_create_valid mysqlBookRepository hrefused s
  rw [hrepository, run_createBook (valid_arrived hrefused).1] at hremote
  have htakes_iff := insertBook_takes_iff hrefused (s.nextKey .books) s.db
  by_cases htakes : (insertBook (newRow (arrived book)) (s.nextKey .books)).result s.db = some ()
  · refine .inl ⟨⟨hrefused, hempty, hunlisted, htakes_iff.mp htakes⟩, fun halike => ?_⟩
    have hkey := createSession_key hs htakes
    have hsame := congrFun halike.2.2 .books
    rw [hremote, hhere] at hsame
    dsimp only at hsame
    cases hsession : (exec (createSession (arrived book)) none s).1.1 with
    | none =>
      rw [hsession] at hsame
      dsimp only at hsame
      omega
    | some bookId =>
      obtain ⟨c, hfind⟩ := run_findBook bookId (exec (createSession (arrived book)) none s).2
      rw [hsession] at hsame
      dsimp only at hsame
      rw [hfind] at hsame
      dsimp only at hsame
      omega
  · rw [createSession_rejected hs htakes] at hremote
    exact told_of_none hv (fun hdivergent => htakes (htakes_iff.mpr hdivergent.2.2.2))
      hremote ⟨rfl, rfl⟩ hhere ⟨rfl, rfl⟩

theorem told_createBook (hs : s.Reliable) (hv : ValidTables s.db) (book : Book) :
    Told (.createBook book) s := by
  by_cases hrefused : Refused book
  · exact told_create_refused hv hrefused
  · by_cases hstatus : book.status = "" ∨ Listed book.status
    · exact told_create_listed hs hv hrefused hstatus
    · rw [not_or] at hstatus
      exact told_create_unlisted hs hv hrefused hstatus.1 hstatus.2

end Creates

/-! ## Books that are updated -/

section Updates

variable {s : MySql} {bookId : Int32} {row : BookRow} {update : BookUpdate}

/-- An UPDATE that goes through and changes the row. -/
theorem run_updateBook_changed (hs : s.Reliable) (hpos : 0 < bookId)
    (hrow : s.db.books bookId.toInt = some row) (hfits : Fits update)
    (hchange : assign update row ≠ row) :
    ∃ t, (MysqlBooks.updateBook bookId update).run s =
        ((joined (patched bookId.toInt update row s.db) bookId.toInt).map
          (bookFromRow bookId.toInt), t) ∧
      t.db = patched bookId.toInt update row s.db ∧ t.nextKey = s.nextKey := by
  have hfields : update ≠ noFields := by
    intro hnone
    rw [hnone] at hchange
    exact hchange rfl
  have hstored : ¬ StockFails update s := by
    intro hfails
    have hquiet := hs (s.clock + 1)
    rw [hfails.2] at hquiet
    cases hquiet
  obtain ⟨t, hexec, hdb, hfaults, -, hkey⟩ := updateRows_changed hrow hfits (hs _) hstored hchange
  obtain ⟨c, hfind⟩ := run_findBook bookId t
  have hread : ¬ (bookId ≤ 0 ∨ t.faults t.clock = true) := by
    rw [hfaults, hs]
    simp only [Bool.false_eq_true, or_false, Int32.not_le]
    exact hpos
  rw [run_updateBook hpos hfields, hexec]
  refine ⟨{ t with clock := c }, ?_, hdb, hkey⟩
  rw [if_pos rfl, hfind, if_neg hread, hdb]

/-- Any other one leaves the tables alone. -/
theorem run_updateBook_unchanged (hpos : 0 < bookId) (hfields : update ≠ noFields)
    (h : ¬ Changes bookId update s) :
    (MysqlBooks.updateBook bookId update).run s = (none, s.tick) := by
  rw [run_updateBook hpos hfields, updateRows_unchanged fun hruns => h hruns.2]
  rfl

theorem assign_valid (hrow : ValidRow row) (haccepted : Accepted update) (hshort : Short update) :
    ValidRow (assign update row) := by
  obtain ⟨⟨htitle, hauthor, hprice, hstock⟩, hstatus⟩ := haccepted
  obtain ⟨title, author, price, stock, status⟩ := update
  refine ⟨?_, ?_, ?_, ?_, ?_⟩
  · cases title with
    | none => exact hrow.title
    | some text => exact ⟨htitle text rfl, hshort.1 text rfl⟩
  · cases author with
    | none => exact hrow.author
    | some text => exact ⟨hauthor text rfl, hshort.2 text rfl⟩
  · cases price with
    | none => exact hrow.price
    | some value =>
      have hpos := Int32.lt_iff_toInt_lt.mp (hprice value rfl)
      rw [Int32.toInt_zero] at hpos
      exact ⟨hpos, value.toInt_lt⟩
  · cases stock with
    | none => exact hrow.stock
    | some value => exact isStock_toInt (hstock value rfl)
  · cases status with
    | none => exact hrow.status
    | some text => exact hstatus text rfl

theorem patched_valid (hv : ValidTables s.db) (hrow : s.db.books bookId.toInt = some row)
    (haccepted : Accepted update) (hshort : Short update) :
    ValidTables (patched bookId.toInt update row s.db) := by
  constructor
  · intro key other hother
    simp only [patched, Function.update_apply] at hother
    split at hother
    · cases hother
      exact assign_valid (hv.rows _ row hrow) haccepted hshort
    · exact hv.rows key other hother
  · intro key value hvalue
    cases hstock : update.stock with
    | none =>
      simp only [patched, hstock] at hvalue
      exact hv.stock key value hvalue
    | some stock =>
      simp only [patched, hstock, Function.update_apply] at hvalue
      split at hvalue
      · cases hvalue
        exact isStock_toInt (haccepted.1.2.2.2 stock hstock)
      · exact hv.stock key value hvalue

/-- The whole book leaves the same tables as its update when no value drifts and
the inventory has a row for the stock. -/
theorem patched_merged_iff (hv : ValidTables s.db) (hrow : s.db.books bookId.toInt = some row)
    (hlisted : ∀ status ∈ update.status, Listed status) :
    patched bookId.toInt
        (updateOf (fillBook (merged update bookId row (s.db.inventory bookId.toInt)))) row s.db =
      patched bookId.toInt update row s.db ↔
    ¬ Drifts update row (s.db.inventory bookId.toInt) ∧
      ¬ (update.stock = none ∧ s.db.inventory bookId.toInt = none) := by
  have hshown := hv.getD hrow
  have hassign := @assign_merged update bookId row _ (hv.rows _ row hrow) hshown
  have hsame := wholeRow_eq_iff update row (s.db.inventory bookId.toInt)
  rw [sent_listed hlisted] at hsame
  have hstocks : (updateOf (fillBook (merged update bookId row
      (s.db.inventory bookId.toInt)))).stock =
        some (update.stock.getD (atoi ((s.db.inventory bookId.toInt).getD row.stock))) := rfl
  constructor
  · intro heq
    constructor
    · apply hsame.mp
      have hbooks := congrFun (congrArg Db.books heq) bookId.toInt
      simp only [patched, Function.update_self, Option.some.injEq] at hbooks
      rw [← hassign, hbooks]
    · rintro ⟨hnone, hmissing⟩
      have hinventory := congrFun (congrArg Db.inventory heq) bookId.toInt
      simp only [patched, hnone] at hinventory
      rw [hstocks] at hinventory
      simp only [Function.update_self, hmissing, reduceCtorEq] at hinventory
  · rintro ⟨hkept, hheld⟩
    unfold patched
    rw [hassign, hsame.mpr hkept, hstocks]
    cases hstock : update.stock with
    | some stock => rfl
    | none =>
      simp only [Option.getD_none, atoi_stock hshown]
      cases hvalue : s.db.inventory bookId.toInt with
      | none => exact absurd ⟨hstock, hvalue⟩ hheld
      | some value =>
        have hself : Function.update s.db.inventory bookId.toInt (some value) = s.db.inventory := by
          rw [← hvalue, Function.update_eq_self]
        rw [Option.getD_some, hself]

/-- The second RPC goes through and changes the row. -/
def TakesWhole (update : BookUpdate) (row : BookRow) (inventory : Option ℤ) : Prop :=
  Short update ∧ ¬ CutAway update row ∧
    (Drifts update row inventory ∨ assign (sent update) row ≠ row)

theorem wholeRow_ne_iff (update : BookUpdate) (row : BookRow) (inventory : Option ℤ) :
    wholeRow update row inventory ≠ row ↔
      Drifts update row inventory ∨ assign (sent update) row ≠ row := by
  by_cases hdrifts : Drifts update row inventory
  · refine iff_of_true (fun hsame => ?_) (.inl hdrifts)
    have htitle := congrArg BookRow.title hsame
    have hauthor := congrArg BookRow.author hsame
    have hstock := congrArg BookRow.stock hsame
    simp only [wholeRow] at htitle hauthor hstock
    rcases hdrifts with ⟨hnone, hnul⟩ | ⟨hnone, hnul⟩ | ⟨hnone, hother⟩
    · rw [hnone] at htitle
      exact hnul (cText_eq_self_iff.mp htitle)
    · rw [hnone] at hauthor
      exact hnul (cText_eq_self_iff.mp hauthor)
    · rw [hnone] at hstock
      exact hother hstock
  · rw [(wholeRow_eq_iff update row inventory).mpr hdrifts]
    simp only [hdrifts, false_or]

variable (hs : s.Reliable) (hv : ValidTables s.db) (hpos : 0 < bookId)

include hs hv hpos

/-- GetBook reads the row, and the whole book is sent with the update in it. -/
theorem remote_sends (hrow : s.db.books bookId.toInt = some row) :
    ∃ c, remote mysqlBookRepository (.updateBook bookId update) s =
      (let r := (sendBook (bookServer mysqlBookRepository) bookId
        (merged update bookId row (s.db.inventory bookId.toInt))).run { s with clock := c }
      (.book r.1, r.2)) := by
  have hid : ¬ bookId ≤ 0 := Int32.not_le.mpr hpos
  obtain ⟨c, hread⟩ := run_getBook hs hv bookId
  have hfound : (joined s.db bookId.toInt).map (bookFromRow bookId.toInt) =
      some (bookOfRows bookId row (s.db.inventory bookId.toInt)) := by
    simp only [joined, hrow, Option.map_some, bookOfRows]
  rw [if_neg hid, hfound] at hread
  refine ⟨c, ?_⟩
  simp only [remote, perform, grpcBookClient, Prog.run_bind, hread, merged, Prog.run_pure]

/-- GrpcBookClient on a book with this row: it answers none and leaves the tables
alone, or the whole book is written. -/
theorem remote_update (hrow : s.db.books bookId.toInt = some row) (hsound : update.Sound) :
    (TakesWhole update row (s.db.inventory bookId.toInt) ∧
      ∃ book t, remote mysqlBookRepository (.updateBook bookId update) s = (.book (some book), t) ∧
        some book = (joined t.db bookId.toInt).map (bookFromRow bookId.toInt) ∧
        t.db = patched bookId.toInt
          (updateOf (fillBook (merged update bookId row (s.db.inventory bookId.toInt)))) row s.db ∧
        t.nextKey = s.nextKey) ∨
    (¬ TakesWhole update row (s.db.inventory bookId.toInt) ∧
      ∃ t, remote mysqlBookRepository (.updateBook bookId update) s = (.book none, t) ∧
        SameTables t s) := by
  have hvalid := hv.rows _ row hrow
  have hshown := hv.getD hrow
  have hpos' := toInt_pos_of_not_le (Int32.not_le.mpr hpos)
  obtain ⟨c, hsends⟩ := remote_sends hs hv hpos hrow
  rw [hsends]
  by_cases hcut : CutAway update row
  · have hrefused : Refused (merged update bookId row (s.db.inventory bookId.toInt)) :=
      (refused_merged_iff hsound hvalid hshown).mpr hcut
    rw [run_sendBook_refused hrefused]
    exact .inr ⟨fun htakes => htakes.2.1 hcut, _, rfl, rfl, rfl⟩
  · have hkept : ¬ Refused (merged update bookId row (s.db.inventory bookId.toInt)) :=
      fun hrefused => hcut ((refused_merged_iff hsound hvalid hshown).mp hrefused)
    have hfits := fits_merged_iff hvalid hkept
    have hassign := @assign_merged update bookId row _ hvalid hshown
    have hchange := wholeRow_ne_iff update row (s.db.inventory bookId.toInt)
    rw [← hassign] at hchange
    have hrepository : mysqlBookRepository.updateBook = MysqlBooks.updateBook := rfl
    rw [run_sendBook hpos' hkept, hrepository]
    by_cases htakes : TakesWhole update row (s.db.inventory bookId.toInt)
    · obtain ⟨t, hrun, hdb, hkey⟩ := run_updateBook_changed (s := { s with clock := c }) hs hpos hrow
        (hfits.mpr htakes.1) (hchange.mpr htakes.2.2)
      have hafter : ValidTables (patched bookId.toInt
          (updateOf (fillBook (merged update bookId row (s.db.inventory bookId.toInt)))) row s.db) :=
        patched_valid hv hrow ⟨(sound_updateOf _).mpr hkept, listed_updateOf _⟩
          ⟨(hfits.mpr htakes.1).1, (hfits.mpr htakes.1).2.1⟩
      rw [hrun]
      dsimp only
      rw [bookOf_joined hafter, ← hdb]
      obtain ⟨book, hbook⟩ : ∃ book,
          (joined t.db bookId.toInt).map (bookFromRow bookId.toInt) = some book := by
        rw [hdb]
        simp only [joined, patched, Function.update_self, Option.map_some]
        exact ⟨_, rfl⟩
      rw [hbook]
      exact .inl ⟨htakes, book, t, rfl, hbook.symm, rfl, hkey⟩
    · have hstays : ¬ Changes bookId
          (updateOf (fillBook (merged update bookId row (s.db.inventory bookId.toInt))))
          { s with clock := c } := by
        rintro ⟨other, hother, hothers, hmoved⟩
        obtain rfl := Option.some.inj (hother.symm.trans hrow)
        exact htakes ⟨hfits.mp hothers, hcut, hchange.mp hmoved⟩
      have hfields : updateOf (fillBook (merged update bookId row (s.db.inventory bookId.toInt))) ≠
          noFields := by
        intro hnone
        cases congrArg BookUpdate.title hnone
      rw [run_updateBook_unchanged hpos hfields hstays]
      exact .inr ⟨htakes, _, rfl, rfl, rfl⟩

omit hv in
/-- LocalBookClient on a book with this row. -/
theorem here_update (hrow : s.db.books bookId.toInt = some row) (haccepted : Accepted update)
    (hfields : update ≠ noFields) :
    ((Short update ∧ assign update row ≠ row) ∧
      ∃ book t, here mysqlBookRepository (.updateBook bookId update) s = (.book (some book), t) ∧
        some book = (joined t.db bookId.toInt).map (bookFromRow bookId.toInt) ∧
        t.db = patched bookId.toInt update row s.db ∧ t.nextKey = s.nextKey) ∨
    (¬ (Short update ∧ assign update row ≠ row) ∧
      ∃ t, here mysqlBookRepository (.updateBook bookId update) s = (.book none, t) ∧
        SameTables t s) := by
  have hid : ¬ bookId ≤ 0 := Int32.not_le.mpr hpos
  have hhere := here_updateBook mysqlBookRepository s bookId update
  have hservice : Books.updateBook mysqlBookRepository bookId update =
      MysqlBooks.updateBook bookId update := by
    rw [Books.updateBook, if_neg hid, if_neg (not_not_intro haccepted.1),
      if_neg (not_not_intro haccepted.2)]
    rfl
  rw [hhere, hservice]
  by_cases htakes : Short update ∧ assign update row ≠ row
  · obtain ⟨t, hrun, hdb, hkey⟩ := run_updateBook_changed hs hpos hrow
      (fits_of_accepted haccepted htakes.1) htakes.2
    rw [hrun]
    dsimp only
    rw [← hdb]
    obtain ⟨book, hbook⟩ : ∃ book,
        (joined t.db bookId.toInt).map (bookFromRow bookId.toInt) = some book := by
      rw [hdb]
      simp only [joined, patched, Function.update_self, Option.map_some]
      exact ⟨_, rfl⟩
    rw [hbook]
    exact .inl ⟨htakes, book, t, rfl, hbook.symm, rfl, hkey⟩
  · have hstays : ¬ Changes bookId update s := by
      rintro ⟨other, hother, hfits, hmoved⟩
      obtain rfl := Option.some.inj (hother.symm.trans hrow)
      exact htakes ⟨⟨hfits.1, hfits.2.1⟩, hmoved⟩
    rw [run_updateBook_unchanged hpos hfields hstays]
    exact .inr ⟨htakes, _, rfl, rfl, rfl⟩

end Updates

/-! ## The clients on one call -/

section Steps

variable {s : MySql} {bookId : Int32} {row : BookRow} {update : BookUpdate}

/-- The tables after a book has been read. -/
theorem sameTables_find (bookId : Int32) (s : MySql) :
    SameTables ((MysqlBooks.findBook bookId).run s).2 s := by
  obtain ⟨c, hfind⟩ := run_findBook bookId s
  rw [hfind]
  exact ⟨rfl, rfl⟩

/-- No row, or no field that the service accepts: the gRPC client answers none. -/
theorem remote_update_refused (hs : s.Reliable) (hv : ValidTables s.db)
    (h : ¬ (0 < bookId ∧ update.Sound ∧ (s.db.books bookId.toInt).isSome)) :
    ∃ t, remote mysqlBookRepository (.updateBook bookId update) s = (.book none, t) ∧
      SameTables t s := by
  obtain ⟨c, hread⟩ := run_getBook hs hv bookId
  by_cases hid : bookId ≤ 0
  · rw [if_pos hid] at hread
    simp only [remote, perform, grpcBookClient, Prog.run_bind, hread, Prog.run_pure]
    exact ⟨_, rfl, rfl, rfl⟩
  · rw [if_neg hid] at hread
    simp only [remote, perform, grpcBookClient, Prog.run_bind, hread]
    cases hbook : (joined s.db bookId.toInt).map (bookFromRow bookId.toInt) with
    | none => exact ⟨_, rfl, rfl, rfl⟩
    | some book =>
      have hrow : (s.db.books bookId.toInt).isSome := by
        cases hrow : s.db.books bookId.toInt with
        | none => simp [joined, hrow] at hbook
        | some row => rfl
      have hrefused : Refused (update.apply book) := by
        by_contra hkept
        exact h ⟨Int32.not_le.mp hid, sound_of_apply hkept, hrow⟩
      simp only [run_sendBook_refused hrefused, Prog.run_pure]
      exact ⟨_, rfl, rfl, rfl⟩

/-- No row, or no field that the service accepts: the local client answers none. -/
theorem here_update_refused (hs : s.Reliable)
    (h : ¬ (0 < bookId ∧ update.Sound ∧ (s.db.books bookId.toInt).isSome)) :
    ∃ t, here mysqlBookRepository (.updateBook bookId update) s = (.book none, t) ∧
      SameTables t s := by
  rw [here_updateBook, Books.updateBook]
  by_cases hid : bookId ≤ 0
  · rw [if_pos hid]
    exact ⟨_, rfl, rfl, rfl⟩
  · rw [if_neg hid]
    by_cases hsound : update.Sound
    · rw [if_neg (not_not_intro hsound)]
      by_cases hlisted : ∀ status ∈ update.status, Listed status
      · have hpos := Int32.not_le.mp hid
        have hmissing : s.db.books bookId.toInt = none := by
          rw [← Option.not_isSome_iff_eq_none]
          exact fun hrow => h ⟨hpos, hsound, hrow⟩
        have hrepository : mysqlBookRepository.updateBook = MysqlBooks.updateBook := rfl
        rw [if_neg (not_not_intro hlisted), hrepository]
        by_cases hfields : update = noFields
        · have hfind := findBook_reliable hs hpos
          rw [joined, hmissing, Option.map_none, Option.map_none] at hfind
          rw [hfields, updateBook_noFields hpos]
          dsimp only
          rw [hfind]
          exact ⟨_, rfl, sameTables_find bookId s⟩
        · have hstays : ¬ Changes bookId update s := by
            rintro ⟨row, hrow, -⟩
            cases hmissing.symm.trans hrow
          rw [run_updateBook_unchanged hpos hfields hstays]
          exact ⟨_, rfl, rfl, rfl⟩
      · rw [if_pos hlisted]
        exact ⟨_, rfl, rfl, rfl⟩
    · rw [if_pos hsound]
      exact ⟨_, rfl, rfl, rfl⟩

theorem told_update_refused (hs : s.Reliable) (hv : ValidTables s.db)
    (h : ¬ (0 < bookId ∧ update.Sound ∧ (s.db.books bookId.toInt).isSome)) :
    Told (.updateBook bookId update) s := by
  obtain ⟨t, hremote, ht⟩ := remote_update_refused hs hv h
  obtain ⟨u, hhere, hu⟩ := here_update_refused hs h
  refine told_of_none hv ?_ hremote ht hhere hu
  rintro ⟨hpos, hsound, row, hrow, -⟩
  exact h ⟨hpos, hsound, by rw [hrow]; rfl⟩

theorem not_alike_of_replies {call : Call}
    (h : (remote mysqlBookRepository call s).1 ≠ (here mysqlBookRepository call s).1) :
    ¬ AlikeAt mysqlBookRepository SameTables call s s := fun halike => h halike.1

variable (hs : s.Reliable) (hv : ValidTables s.db) (hpos : 0 < bookId)
  (hrow : s.db.books bookId.toInt = some row) (hsound : update.Sound)

include hs hv hpos hrow hsound

/-- The tables have the row, and the service accepts the update. -/
theorem told_update_accepted (hlisted : ∀ status ∈ update.status, Listed status)
    (hfields : update ≠ noFields) : Told (.updateBook bookId update) s := by
  have hdivergent : Divergent s (.updateBook bookId update) ↔ Short update ∧
      (Drifts update row (s.db.inventory bookId.toInt) ∧
          (assign update row ≠ row ∨ ¬ CutAway update row) ∨
        assign update row ≠ row ∧ update.stock = none ∧ s.db.inventory bookId.toInt = none) := by
    constructor
    · rintro ⟨-, -, other, hother, hdiffers⟩
      obtain rfl := Option.some.inj (hother.symm.trans hrow)
      rw [DivergentUpdate, if_pos hlisted] at hdiffers
      exact hdiffers.resolve_left hfields
    · intro hdiffers
      refine ⟨hpos, hsound, row, hrow, .inr ?_⟩
      rwa [if_pos hlisted]
  have hsent := sent_listed hlisted
  have hwhole := remote_update hs hv hpos hrow hsound
  have hhere := here_update hs hpos hrow ⟨hsound, hlisted⟩ hfields
  have hsame := patched_merged_iff hv hrow hlisted
  have hcut := fun h : CutAway update row => drifts_of_cutAway (hv.rows _ row hrow) h
    (s.db.inventory bookId.toInt)
  rw [TakesWhole, hsent] at hwhole
  rcases hwhole with ⟨htakes, book, t, hremote, hbook, hdb, hkey⟩ | ⟨hnot, t, hremote, ht⟩
  · rcases hhere with ⟨hmoves, other, u, hhere, hother, hdb', hkey'⟩ | ⟨hstays, u, hhere, hu⟩
    · by_cases hkept : ¬ Drifts update row (s.db.inventory bookId.toInt) ∧
          ¬ (update.stock = none ∧ s.db.inventory bookId.toInt = none)
      · have htables : t.db = u.db := hdb.trans ((hsame.mpr hkept).trans hdb'.symm)
        have hreply : book = other := by
          rw [← htables, ← hbook] at hother
          exact (Option.some.inj hother).symm
        refine .inr ⟨?_, ?_, ?_⟩
        · rw [hdivergent]
          rintro ⟨-, ⟨hdrifts, -⟩ | ⟨-, hmissing⟩⟩
          · exact hkept.1 hdrifts
          · exact hkept.2 hmissing
        · rw [AlikeAt, hremote, hhere, hreply]
          exact ⟨rfl, htables, hkey.trans hkey'.symm⟩
        · rw [hhere]
          dsimp only
          rw [hdb']
          exact patched_valid hv hrow ⟨hsound, hlisted⟩ hmoves.1
      · refine .inl ⟨hdivergent.mpr ⟨htakes.1, ?_⟩, fun halike => hkept (hsame.mp ?_)⟩
        · by_cases hdrifts : Drifts update row (s.db.inventory bookId.toInt)
          · exact .inl ⟨hdrifts, .inl hmoves.2⟩
          · exact .inr ⟨hmoves.2, not_not.mp fun hmissing => hkept ⟨hdrifts, hmissing⟩⟩
        · have htables := halike.2.1
          rw [hremote, hhere] at htables
          exact hdb.symm.trans (htables.trans hdb')
    · have hdrifts := htakes.2.2.resolve_right fun hmoves => hstays ⟨htakes.1, hmoves⟩
      refine .inl ⟨hdivergent.mpr ⟨htakes.1, .inl ⟨hdrifts, .inr htakes.2.1⟩⟩,
        not_alike_of_replies ?_⟩
      rw [hremote, hhere]
      exact nofun
  · rcases hhere with ⟨hmoves, other, u, hhere, hother, hdb', hkey'⟩ | ⟨hstays, u, hhere, hu⟩
    · have hdrifts := hcut (not_not.mp fun hshown => hnot ⟨hmoves.1, hshown, .inr hmoves.2⟩)
      refine .inl ⟨hdivergent.mpr ⟨hmoves.1, .inl ⟨hdrifts, .inl hmoves.2⟩⟩,
        not_alike_of_replies ?_⟩
      rw [hremote, hhere]
      exact nofun
    · refine told_of_none hv ?_ hremote ht hhere hu
      rw [hdivergent]
      rintro ⟨hshort, ⟨hdrifts, hmoves | hshown⟩ | ⟨hmoves, -⟩⟩
      · exact hstays ⟨hshort, hmoves⟩
      · exact hnot ⟨hshort, hshown, .inl hdrifts⟩
      · exact hstays ⟨hshort, hmoves⟩

/-- The update is refused for its status alone. -/
theorem told_update_unlisted (hunlisted : ¬ ∀ status ∈ update.status, Listed status) :
    Told (.updateBook bookId update) s := by
  have hfields : update ≠ noFields := by
    rintro rfl
    exact hunlisted fun status hstatus => by cases hstatus
  have hid : ¬ bookId ≤ 0 := Int32.not_le.mpr hpos
  have hhere : here mysqlBookRepository (.updateBook bookId update) s = (.book none, s) := by
    rw [here_updateBook, Books.updateBook, if_neg hid, if_neg (not_not_intro hsound),
      if_pos hunlisted]
    rfl
  have hdivergent : Divergent s (.updateBook bookId update) ↔
      TakesWhole update row (s.db.inventory bookId.toInt) := by
    constructor
    · rintro ⟨-, -, other, hother, hdiffers⟩
      obtain rfl := Option.some.inj (hother.symm.trans hrow)
      rw [DivergentUpdate, if_neg hunlisted] at hdiffers
      exact hdiffers.resolve_left hfields
    · intro htakes
      refine ⟨hpos, hsound, row, hrow, .inr ?_⟩
      rwa [if_neg hunlisted]
  rcases remote_update hs hv hpos hrow hsound with
    ⟨htakes, book, t, hremote, -⟩ | ⟨hnot, t, hremote, ht⟩
  · refine .inl ⟨hdivergent.mpr htakes, not_alike_of_replies ?_⟩
    rw [hremote, hhere]
    intro hsame
    cases hsame
  · exact told_of_none hv (fun h => hnot (hdivergent.mp h)) hremote ht hhere ⟨rfl, rfl⟩

/-- The update has no field: the row is shown, or overwritten with what is shown. -/
theorem told_update_noFields (hfields : update = noFields) :
    Told (.updateBook bookId update) s := by
  refine .inl ⟨⟨hpos, hsound, row, hrow, .inl hfields⟩, fun halike => ?_⟩
  have hid : ¬ bookId ≤ 0 := Int32.not_le.mpr hpos
  have hlisted : ∀ status ∈ update.status, Listed status := by
    rw [hfields]
    exact nofun
  have hrepository : mysqlBookRepository.updateBook = MysqlBooks.updateBook := rfl
  have hhere : here mysqlBookRepository (.updateBook bookId update) s =
      (.book ((MysqlBooks.findBook bookId).run s).1, ((MysqlBooks.findBook bookId).run s).2) := by
    rw [here_updateBook, Books.updateBook, if_neg hid, if_neg (not_not_intro hsound),
      if_neg (not_not_intro hlisted), hrepository, hfields, updateBook_noFields hpos]
  have hanswer := findBook_row hs hpos hrow
  have htables := sameTables_find bookId s
  obtain ⟨hreply, hdb, -⟩ := halike
  rw [hhere] at hreply hdb
  rcases remote_update hs hv hpos hrow hsound with
    ⟨htakes, book, t, hremote, -, ht, -⟩ | ⟨-, t, hremote, -⟩
  · rw [hremote] at hdb
    have hrows : (patched bookId.toInt (updateOf (fillBook
        (merged update bookId row (s.db.inventory bookId.toInt)))) row s.db).books bookId.toInt =
          s.db.books bookId.toInt := by
      rw [← ht]
      exact congrFun (congrArg Db.books (hdb.trans htables.1)) _
    have hassign := @assign_merged update bookId row _ (hv.rows _ row hrow) (hv.getD hrow)
    simp only [patched, Function.update_self, hrow, Option.some.injEq, hassign] at hrows
    exact (wholeRow_ne_iff update row (s.db.inventory bookId.toInt)).mpr htakes.2.2 hrows
  · rw [hremote, hanswer] at hreply
    cases hreply

end Steps

theorem told_updateBook {s : MySql} (hs : s.Reliable) (hv : ValidTables s.db) (bookId : Int32)
    (update : BookUpdate) : Told (.updateBook bookId update) s := by
  by_cases hknown : 0 < bookId ∧ update.Sound ∧ (s.db.books bookId.toInt).isSome
  · obtain ⟨hpos, hsound, hsome⟩ := hknown
    obtain ⟨row, hrow⟩ := Option.isSome_iff_exists.mp hsome
    by_cases hfields : update = noFields
    · exact told_update_noFields hs hv hpos hrow hsound hfields
    · by_cases hlisted : ∀ status ∈ update.status, Listed status
      · exact told_update_accepted hs hv hpos hrow hsound hlisted hfields
      · exact told_update_unlisted hs hv hpos hrow hsound hlisted
  · exact told_update_refused hs hv hknown

theorem told {s : MySql} (hs : s.Reliable) (hv : ValidTables s.db) (call : Call) : Told call s := by
  cases call with
  | listBooks => exact told_listBooks hs hv
  | findBook bookId => exact told_findBook hs hv bookId
  | createBook book => exact told_createBook hs hv book
  | updateBook bookId update => exact told_updateBook hs hv bookId update

/-! ## Sequences of calls -/

/-- Over MysqlBookRepository the two clients go on alike exactly when they come to
no divergent call. -/
theorem mysql_clients_iff {s : MySql} (hs : s.Reliable) (hv : ValidTables s.db)
    (calls : List Call) :
    Interchangeable mysqlBookRepository SameTables s s calls ↔
      NoneDivergent mysqlBookRepository Divergent s calls := by
  refine interchangeable_iff (J := fun t u => Alike t u ∧ ValidTables u.db)
    (fun t u h => ⟨h.1.db, h.1.nextKey⟩) ?_ ?_ ⟨.refl hs, hv⟩ calls
  · rintro t u call ⟨halike, hvalid⟩ hnot
    obtain ⟨hreply, hafter⟩ := blind_remote call t u halike
    rcases told halike.reliable' hvalid call with ⟨hdivergent, -⟩ | ⟨-, hsame, hkept⟩
    · exact absurd hdivergent hnot
    · refine ⟨hreply.trans hsame.1, ?_, hkept⟩
      exact hafter.trans ⟨hsame.2.1, hsame.2.2, (blind_remote call).reliable halike.reliable',
        (blind_here call).reliable halike.reliable'⟩
  · rintro t u call ⟨halike, hvalid⟩ hdivergent hsame
    obtain ⟨hreply, hafter⟩ := blind_remote call t u halike
    rcases told halike.reliable' hvalid call with ⟨-, hdiffer⟩ | ⟨hnot, -⟩
    · refine hdiffer ⟨hreply.symm.trans hsame.1, ?_, ?_⟩
      · exact hafter.db.symm.trans hsame.2.1
      · exact hafter.nextKey.symm.trans hsame.2.2
    · exact hnot hdivergent

/-- Book 1 with ten copies in both tables. -/
def fullShelf : MySql :=
  { soldCopies with
    db := { soldCopies.db with inventory := fun id => if id = 1 then some 10 else none } }

theorem valid_fullShelf : ValidTables fullShelf.db where
  rows key row hrow := by
    have hemma : (if key = 1 then some (⟨"Emma", "Austen", 1200, 10, "active"⟩ : BookRow)
        else none) = some row := hrow
    split at hemma
    · obtain rfl := Option.some.inj hemma
      exact ⟨by decide, by decide, by decide, by decide, .inl rfl⟩
    · cases hemma
  stock key value hvalue := by
    have hten : (if key = 1 then some (10 : ℤ) else none) = some value := hvalue
    split at hten
    · obtain rfl := Option.some.inj hten
      decide
    · cases hten

/-- A book is created, the price of another is changed, and one is read. -/
def shelfCalls : List Call :=
  [.createBook ⟨0, "Dune", "Frank Herbert", 4200, 3, ""⟩,
    .updateBook 1 ⟨none, none, some 1300, none, none⟩, .findBook 2]

end Bookstore.MysqlBookClients
