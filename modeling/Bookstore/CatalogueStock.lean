import Bookstore.BatchAgreement
import Bookstore.OrderTotals
import Bookstore.Preservation
import Bookstore.Runs

/-!
The stock of a book is kept twice, by the book repository and by the inventory.
The MySQL repositories keep a row of each for every book and show the stock of
the inventory row. The memory repositories do not know of each other.
-/
namespace Bookstore.CatalogueStock

open Books Database Interleaving MachineInt MemoryStock MysqlBooks MysqlInventory Preservation
open Records Repositories Services Transactions

variable {σ : Type}

/-! ## Requests -/

/-- The dependencies of the gateway that the requests below go to. -/
structure Dependencies (σ : Type) where
  bookClient : BookRepository σ
  inventoryClient : InventoryClient σ
  orderService : OrderService σ

inductive Request
  | createBook (book : Book)
  | updateBook (bookId : Int32) (update : BookUpdate)
  | inbound (bookId quantity : Int32)
  | createOrder (userId : Int32) (requests : List OrderItemRequest)
  | cancelOrder (orderId : Int32)

namespace Dependencies

variable (d : Dependencies σ)

def perform (s : σ) : Request → σ
  | .createBook book => ((d.bookClient.createBook book).run s).2
  | .updateBook bookId update => ((d.bookClient.updateBook bookId update).run s).2
  | .inbound bookId quantity => ((d.inventoryClient.addStock bookId quantity).run s).2
  | .createOrder userId requests => ((d.orderService.createOrder userId requests).run s).2
  | .cancelOrder orderId => ((d.orderService.cancelOrder orderId).run s).2

def performAll (s : σ) (requests : List Request) : σ := requests.foldl d.perform s

def findBook (s : σ) (bookId : Int32) : Option Book := ((d.bookClient.findBook bookId).run s).1

def availableStock (s : σ) (bookId : Int32) : Option Int32 :=
  ((d.inventoryClient.availableStock bookId).run s).1

/-- The catalogue and the inventory know the same books, with the same stock. -/
structure Agrees (s : σ) : Prop where
  known : ∀ bookId, (d.findBook s bookId).isSome = (d.availableStock s bookId).isSome
  stock : ∀ bookId book available, d.findBook s bookId = some book →
    d.availableStock s bookId = some available → book.stock = available

theorem agrees_iff (s : σ) :
    d.Agrees s ↔ ∀ bookId, (d.findBook s bookId).map Book.stock = d.availableStock s bookId := by
  constructor
  · intro h bookId
    have hknown := h.known bookId
    cases hbook : d.findBook s bookId with
    | none =>
      rw [hbook] at hknown
      exact (Option.not_isSome_iff_eq_none.mp (by simp [← hknown])).symm
    | some book =>
      rw [hbook] at hknown
      obtain ⟨available, havailable⟩ := Option.isSome_iff_exists.mp hknown.symm
      rw [havailable, Option.map_some, h.stock bookId book available hbook havailable]
  · intro h
    constructor
    · intro bookId
      rw [← h bookId, Option.isSome_map]
    · intro bookId book available hbook havailable
      have hbookId := h bookId
      rw [hbook, havailable] at hbookId
      exact Option.some.inj hbookId

end Dependencies

/-! ## Order services -/

/-- The calls of an order service keep an invariant. -/
structure ServiceKeeps (I : σ → Prop) (service : OrderService σ) : Prop where
  findBook : ∀ id, Preserves I (service.bookClient.findBook id)
  releaseStock : ∀ book quantity, Preserves I (service.inventoryClient.releaseStock book quantity)
  reserveBatch : ∀ id items, Preserves I (service.inventoryClient.reserveBatch id items)
  releaseBatch : ∀ id items, Preserves I (service.inventoryClient.releaseBatch id items)
  createOrder : ∀ user items total, Preserves I (service.orderRepository.createOrder user items total)
  findOrder : ∀ id, Preserves I (service.orderRepository.findOrder id)
  cancelOrder : ∀ id, Preserves I (service.orderRepository.cancelOrder id)
  nextId : ∀ n s, I s → I (service.nextId.set n s)

section Services

variable {I : σ → Prop}

theorem preserves_releaseEach {service : InventoryRepository σ}
    (hrelease : ∀ book quantity, Preserves I (service.releaseStock book quantity))
    (items : List InventoryMutation) : Preserves I (releaseEach service items) := by
  induction items with
  | nil => exact .pure ()
  | cons item rest ih => exact .bind (hrelease _ _) fun _ => ih

theorem preserves_reserveEach {service : InventoryRepository σ}
    (hreserve : ∀ book quantity, Preserves I (service.reserveStock book quantity))
    (hrelease : ∀ book quantity, Preserves I (service.releaseStock book quantity))
    (reserved items : List InventoryMutation) :
    Preserves I (reserveEach service reserved items) := by
  induction items generalizing reserved with
  | nil => exact .pure true
  | cons item rest ih =>
    refine .bind (hreserve _ _) fun taken => ?_
    cases taken with
    | true => exact ih (reserved ++ [item])
    | false => exact .bind (preserves_releaseEach hrelease reserved) fun _ => .pure false

variable {service : OrderService σ} (h : ServiceKeeps I service)

include h

theorem ServiceKeeps.priceItems (requests : List OrderItemRequest) (items : List OrderItem)
    (total : Int32) : Preserves I (service.priceItems items total requests) := by
  induction requests generalizing items total with
  | nil => exact .pure _
  | cons request rest ih =>
    unfold OrderService.priceItems
    split
    · exact .pure none
    · refine .bind (h.findBook _) fun found => ?_
      cases found with
      | none => exact .pure none
      | some book => exact ih _ _

theorem ServiceKeeps.create (userId : Int32) (requests : List OrderItemRequest) :
    Preserves I (service.createOrder userId requests) := by
  unfold OrderService.createOrder
  split
  · exact .pure none
  · refine .bind (h.priceItems requests [] 0) fun priced => ?_
    cases priced with
    | none => exact .pure none
    | some priced =>
      refine .bind (.call fun s hs => h.nextId _ s hs) fun reservation => ?_
      refine .bind (h.reserveBatch _ _) fun taken => ?_
      cases taken with
      | false => exact .pure none
      | true =>
        refine .bind (h.createOrder _ _ _) fun stored => ?_
        cases stored with
        | some order => exact .pure _
        | none => exact .bind (h.releaseBatch _ _) fun _ => .pure none

theorem ServiceKeeps.releaseItems (items : List OrderItem) :
    Preserves I (service.releaseItems items) := by
  induction items with
  | nil => exact .pure ()
  | cons item rest ih => exact .bind (h.releaseStock _ _) fun _ => ih

theorem ServiceKeeps.cancel (orderId : Int32) : Preserves I (service.cancelOrder orderId) := by
  unfold OrderService.cancelOrder
  split
  · exact .pure none
  · refine .bind (h.findOrder orderId) fun found => ?_
    cases found with
    | none => exact .pure none
    | some existing =>
      dsimp only
      split
      · exact .pure _
      · refine .bind (h.cancelOrder orderId) fun marked => ?_
        cases marked with
        | none => exact .pure none
        | some cancelled => exact .bind (h.releaseItems _) fun _ => .pure _

end Services

/-! ## The MySQL dependencies -/

section Tables

def mysqlDependencies : Dependencies LocalCheckouts.MysqlStore where
  bookClient := localBookClient (mysqlBookRepository.lift LocalCheckouts.MysqlStore.mysqlLens)
  inventoryClient := MysqlService.inventoryClient
  orderService := OrderTotals.mysqlOrderService

/-- The same tables on a server where no statement fails. -/
def unfailing (s : LocalCheckouts.MysqlStore) : LocalCheckouts.MysqlStore :=
  { s with mysql := { s.mysql with faults := fun _ => false } }

/-- Books and inventory have a row for the same ids of the API. -/
def Linked (db : Db) : Prop :=
  ∀ bookId : Int32, 0 < bookId.toInt →
    (db.books bookId.toInt).isSome = (db.inventory bookId.toInt).isSome

/-- The rows of both tables have the same keys as before. -/
structure SameKeys (db db' : Db) : Prop where
  books : ∀ key, (db'.books key).isSome = (db.books key).isSome
  inventory : ∀ key, (db'.inventory key).isSome = (db.inventory key).isSome

theorem SameKeys.linked {db db' : Db} (h : SameKeys db db') (hlinked : Linked db) : Linked db' := by
  intro bookId hpos
  rw [h.books, h.inventory]
  exact hlinked bookId hpos

theorem sameKeys_takeStock (book quantity : ℤ) (db : Db) :
    SameKeys db ((takeStock book quantity).effect db) := by
  unfold takeStock
  dsimp only
  split
  · exact ⟨fun _ => rfl, fun _ => rfl⟩
  · rename_i value hrow
    split
    · exact ⟨fun _ => rfl, isSome_update db.inventory book _ (by rw [hrow]; rfl)⟩
    · exact ⟨fun _ => rfl, fun _ => rfl⟩

theorem sameKeys_giveStock (book quantity : ℤ) (db : Db) :
    SameKeys db ((giveStock book quantity).effect db) := by
  unfold giveStock
  dsimp only
  split
  · exact ⟨fun _ => rfl, fun _ => rfl⟩
  · rename_i value hrow
    exact ⟨fun _ => rfl, isSome_update db.inventory book _ (by rw [hrow]; rfl)⟩

theorem sameKeys_addBookStock (book quantity : ℤ) (db : Db) :
    SameKeys db ((addBookStock book quantity).effect db) := by
  unfold addBookStock
  dsimp only
  split
  · exact ⟨fun _ => rfl, fun _ => rfl⟩
  · rename_i row hrow
    exact ⟨isSome_update db.books book _ (by rw [hrow]; rfl), fun _ => rfl⟩

theorem sameKeys_setBook (book : ℤ) (update : BookUpdate) (db : Db) :
    SameKeys db ((setBook book update).effect db) := by
  unfold setBook
  dsimp only
  split
  · exact ⟨fun _ => rfl, fun _ => rfl⟩
  · rename_i row hrow
    exact ⟨isSome_update db.books book _ (by rw [hrow]; rfl), fun _ => rfl⟩

/-- A statement that leaves the keys of both tables alone. -/
theorem keeps_query {α : Type} {stmt : Stmt Db α} (h : ∀ db, SameKeys db (stmt.effect db)) :
    Keeps Linked (Session.query stmt : Sql (Option α)) :=
  .query fun db _ hlinked _ => (h db).linked hlinked

theorem keeps_setStock (book available : ℤ) :
    Keeps Linked (Session.query (setStock book available) : Sql (Option Unit)) := by
  refine .query fun db a hlinked hresult => ?_
  have hrow : (db.books book).isSome = true := by
    simp only [setStock] at hresult
    split at hresult
    · rename_i haccepted
      exact haccepted.2
    · cases hresult
  intro bookId hpos
  by_cases hbook : bookId.toInt = book
  · simp [setStock, hbook, hrow]
  · simpa [setStock, Function.update_of_ne hbook] using hlinked bookId hpos

theorem keeps_reserveStock (book quantity : Int32) :
    Preserves (fun s : MySql => Linked s.db) (reserveStock book quantity) := by
  unfold reserveStock
  split
  · exact .pure false
  · refine .withConnection (.bind (keeps_query (sameKeys_takeStock _ _)) fun changed => ?_)
    split
    · exact .pure true
    · exact .pure false

theorem keeps_releaseStock (book quantity : Int32) :
    Preserves (fun s : MySql => Linked s.db) (releaseStock book quantity) := by
  unfold releaseStock
  split
  · exact .pure ()
  · exact .withConnection (.bind (keeps_query (sameKeys_giveStock _ _)) fun _ => .pure ())

theorem keeps_addStockRows (book quantity : Int32) :
    Keeps Linked (addStockRows book quantity) := by
  unfold addStockRows
  refine .bind (keeps_query (sameKeys_giveStock _ _)) fun changed => ?_
  split
  · refine .bind (keeps_query (sameKeys_addBookStock _ _)) fun added => ?_
    split
    · exact .pure none
    · refine .bind (keeps_query fun _ => ⟨fun _ => rfl, fun _ => rfl⟩) fun row => ?_
      split
      · exact .pure _
      · exact .pure none
  · exact .pure none

theorem keeps_addStock (book quantity : Int32) :
    Preserves (fun s : MySql => Linked s.db) (addStock book quantity) := by
  unfold addStock
  split
  · exact .pure none
  · refine .withConnection (.bind .startTransaction fun started => ?_)
    cases started with
    | false => exact .pure none
    | true =>
      refine .bind (keeps_addStockRows book quantity) fun row => ?_
      cases row with
      | none => exact .bind .rollback fun _ => .pure none
      | some available => exact keeps_commit_or (some available) none

theorem keeps_findBook (bookId : Int32) :
    Preserves (fun s : MySql => Linked s.db) (MysqlBooks.findBook bookId) := by
  intro s hs
  obtain ⟨c, hrun⟩ := run_findBook bookId s
  rw [hrun]
  exact hs

theorem keeps_updateBook (bookId : Int32) (update : BookUpdate) :
    Preserves (fun s : MySql => Linked s.db) (MysqlBooks.updateBook bookId update) := by
  have hrows : Keeps Linked (updateRows bookId update) := by
    unfold updateRows
    refine .bind (keeps_query (sameKeys_setBook _ _)) fun changed => ?_
    split
    · split
      · exact .pure true
      · refine .bind (keeps_setStock _ _) fun inserted => ?_
        split
        · exact .pure false
        · exact .pure true
    · exact .pure false
  unfold MysqlBooks.updateBook
  split
  · exact .pure none
  · split
    · exact keeps_findBook bookId
    · refine .bind (.withConnection hrows) fun updated => ?_
      cases updated with
      | true => exact keeps_findBook bookId
      | false => exact .pure none

/-- A new book gets both rows: the key of a row that the API can name is the one
that the inventory row is written for. -/
theorem linked_create {row : BookRow} {key available : ℤ} {db : Db}
    (hbook : (insertBook row key).result db = some ()) (hlinked : Linked db) :
    Linked ((insertInventory (atoi key).toInt available).effect ((insertBook row key).effect db)) := by
  have hkey : IsUnsigned key := by
    simp only [insertBook] at hbook
    split at hbook
    · rename_i haccepted
      exact haccepted.2.2.2.2.2.1
    · cases hbook
  intro bookId hpos
  simp only [insertInventory, insertBook]
  by_cases hrow : bookId.toInt = key
  · have hown : (atoi key).toInt = key := by rw [← hrow, atoi, Int32.ofInt_toInt]
    rw [hown, hrow, Function.update_self, Function.update_self]
    rfl
  · have hother : bookId.toInt ≠ (atoi key).toInt := by
      intro heq
      apply hrow
      rw [heq]
      exact MysqlService.atoi_own hkey (by omega)
    rw [Function.update_of_ne hrow, Function.update_of_ne hother]
    exact hlinked bookId hpos

theorem createRows_linked (book : Book) (s : MySql) (hlinked : Linked s.db) :
    ∃ r g s', Session.exec (createRows book) (some id) s = ((r, some g), s') ∧ s'.db = s.db ∧
      (r.isSome → Linked (g s.db)) := by
  let row : BookRow := ⟨book.title, book.author, book.priceCents.toInt, book.stock.toInt,
    if book.status = "" then "active" else book.status⟩
  unfold createRows
  rcases Session.insertKeyed_cases .books (insertBook row) id s with hinsert | ⟨hresult, hinsert⟩
  · exact ⟨none, id, s.tick, by simp only [Session.exec_bind, row, hinsert]; rfl, rfl, by simp⟩
  · have hcreated := @linked_create row _ book.stock.toInt _ hresult hlinked
    let t : MySql := { s.tick with
      nextKey := Function.update s.nextKey .books (s.nextKey .books + 1) }
    rcases Session.query_cases (insertInventory (atoi (s.nextKey .books)).toInt book.stock.toInt)
      ((insertBook row (s.nextKey .books)).effect ∘ id) t with ⟨hstock, _⟩ | ⟨_, _, hstock⟩
    · refine ⟨none, (insertBook row (s.nextKey .books)).effect, t.tick, ?_, rfl, by simp⟩
      simp only [Session.exec_bind, row, hinsert]
      rw [hstock]
      rfl
    · refine ⟨some (atoi (s.nextKey .books)),
        (insertInventory (atoi (s.nextKey .books)).toInt book.stock.toInt).effect ∘
          (insertBook row (s.nextKey .books)).effect, t.tick, ?_, rfl, fun _ => hcreated⟩
      simp only [Session.exec_bind, row, hinsert]
      rw [hstock]
      rfl

theorem keeps_createBook (book : Book) :
    Preserves (fun s : MySql => Linked s.db) (MysqlBooks.createBook book) := by
  unfold MysqlBooks.createBook
  split
  · exact .pure none
  · refine .bind (fun s hs => ?_) fun created => ?_
    · simp only [Session.run_withConnection, Session.exec_bind]
      rcases Session.startTransaction_cases none s with ⟨hstart, _⟩ | hstart
      · rw [hstart]
        exact hs
      · obtain ⟨r, g, s', hrows, hdb, hcreated⟩ := createRows_linked book s.tick hs
        simp only [hstart, if_true, Session.exec_bind, hrows]
        cases r with
        | none =>
          change Linked s'.db
          rw [hdb]
          exact hs
        | some bookId =>
          rcases Session.commit_cases g s' with ⟨hcommit, _⟩ | hcommit
          · simp only [Session.exec_bind, hcommit]
            change Linked s'.db
            rw [hdb]
            exact hs
          · simp only [Session.exec_bind, hcommit]
            change Linked (g s'.db)
            rw [hdb]
            exact hcreated rfl
    · cases created with
      | none => exact .pure none
      | some bookId => exact keeps_findBook bookId

/-! ### The order tables -/

theorem keeps_insertItems (orderId : Int32) (items : List OrderItem) :
    Keeps Linked (MysqlOrders.insertItems orderId items) := by
  induction items with
  | nil => exact .pure true
  | cons item rest ih =>
    refine .bind (keeps_query fun _ => ⟨fun _ => rfl, fun _ => rfl⟩) fun inserted => ?_
    cases inserted with
    | none => exact .pure false
    | some _ => exact ih

theorem keeps_createOrder (userId : Int32) (items : List OrderItem) (total : Int32) :
    Preserves (fun s : MySql => Linked s.db) (MysqlOrders.createOrder userId items total) := by
  have hrows : Keeps Linked (MysqlOrders.insertOrderRows userId items total) := by
    unfold MysqlOrders.insertOrderRows
    refine .bind (.insertKeyed Table.orders fun key db hlinked _ => hlinked) fun inserted => ?_
    cases inserted with
    | none => exact .pure none
    | some key =>
      refine .bind (keeps_insertItems _ _) fun ok => ?_
      cases ok with
      | true => exact .pure _
      | false => exact .pure none
  unfold MysqlOrders.createOrder
  split
  · exact .pure none
  · refine .withConnection (.bind .startTransaction fun started => ?_)
    cases started with
    | false => exact .pure none
    | true =>
      refine .bind hrows fun stored => ?_
      cases stored with
      | none => exact .bind .rollback fun _ => .pure none
      | some orderId => exact keeps_commit_or _ none

theorem keeps_findOrder (orderId : Int32) :
    Preserves (fun s : MySql => Linked s.db) (MysqlOrders.findOrder orderId) := by
  unfold MysqlOrders.findOrder
  split
  · exact .pure none
  · refine .withConnection (.bind (keeps_query fun _ => ⟨fun _ => rfl, fun _ => rfl⟩) fun row => ?_)
    split
    · refine .bind (.bind (keeps_query fun _ => ⟨fun _ => rfl, fun _ => rfl⟩) fun rows => ?_)
        fun _ => .pure _
      cases rows with
      | none => exact .pure _
      | some rows => exact .pure _
    · exact .pure none

theorem keeps_cancelOrder (orderId : Int32) :
    Preserves (fun s : MySql => Linked s.db) (MysqlOrders.cancelOrder orderId) := by
  unfold MysqlOrders.cancelOrder
  split
  · exact .pure none
  · refine .bind (.withConnection (keeps_query fun _ => ⟨fun _ => rfl, fun _ => rfl⟩))
      fun updated => ?_
    cases updated with
    | none => exact .pure none
    | some _ => exact keeps_findOrder orderId

/-! ### Every request -/

/-- The repositories of the gateway work on the server of the store. -/
theorem keeps_lift {α : Type} {p : Prog MySql α}
    (h : Preserves (fun s : MySql => Linked s.db) p) :
    Preserves (fun s : LocalCheckouts.MysqlStore => Linked s.mysql.db)
      (p.lift LocalCheckouts.MysqlStore.mysqlLens) :=
  h.lift LocalCheckouts.MysqlStore.mysqlLens

theorem mysqlService_keeps : ServiceKeeps (fun s : LocalCheckouts.MysqlStore => Linked s.mysql.db)
    OrderTotals.mysqlOrderService := by
  let repository := MysqlInventory.repository.lift LocalCheckouts.MysqlStore.mysqlLens
  have hreserve : ∀ book quantity, Preserves (fun s : LocalCheckouts.MysqlStore =>
      Linked s.mysql.db) ((inventoryService repository).reserveStock book quantity) :=
    fun book quantity => keeps_lift (keeps_reserveStock book quantity)
  have hrelease : ∀ book quantity, Preserves (fun s : LocalCheckouts.MysqlStore =>
      Linked s.mysql.db) ((inventoryService repository).releaseStock book quantity) :=
    fun book quantity => keeps_lift (keeps_releaseStock book quantity)
  constructor
  · exact fun id => keeps_lift (keeps_findBook id)
  · exact hrelease
  · exact fun _ items => preserves_reserveEach hreserve hrelease [] items
  · exact fun _ items => preserves_releaseEach hrelease items
  · exact fun user items total => keeps_lift (keeps_createOrder user items total)
  · exact fun id => keeps_lift (keeps_findOrder id)
  · exact fun id => keeps_lift (keeps_cancelOrder id)
  · exact fun _ _ hs => hs

theorem linked_perform (s : LocalCheckouts.MysqlStore) (request : Request)
    (h : Linked s.mysql.db) : Linked (mysqlDependencies.perform s request).mysql.db := by
  cases request with
  | createBook book =>
    have hkeeps : Preserves (fun t : LocalCheckouts.MysqlStore => Linked t.mysql.db)
        (mysqlDependencies.bookClient.createBook book) :=
      .ite (.pure none)
        (.ite (keeps_lift (keeps_createBook _)) (.pure none))
    exact hkeeps s h
  | updateBook bookId update =>
    have hkeeps : Preserves (fun t : LocalCheckouts.MysqlStore => Linked t.mysql.db)
        (mysqlDependencies.bookClient.updateBook bookId update) :=
      .ite (.pure none) (.ite (.pure none) (.ite (.pure none)
        (keeps_lift (keeps_updateBook bookId update))))
    exact hkeeps s h
  | inbound bookId quantity =>
    have hkeeps : Preserves (fun t : LocalCheckouts.MysqlStore => Linked t.mysql.db)
        (mysqlDependencies.inventoryClient.addStock bookId quantity) :=
      .ite (.pure none) (keeps_lift (keeps_addStock bookId quantity))
    exact hkeeps s h
  | createOrder userId requests => exact mysqlService_keeps.create userId requests s h
  | cancelOrder orderId => exact mysqlService_keeps.cancel orderId s h

/-- What the two repositories show where no statement fails. -/
theorem agrees_unfailing_iff (s : LocalCheckouts.MysqlStore) :
    mysqlDependencies.Agrees (unfailing s) ↔ Linked s.mysql.db := by
  have hbook : ∀ bookId, mysqlDependencies.findBook (unfailing s) bookId =
      if bookId ≤ 0 then none else OrderTotals.tableCatalogue s.mysql.db bookId := by
    intro bookId
    obtain ⟨c, hrun⟩ := run_findBook bookId (unfailing s).mysql
    change (((MysqlBooks.findBook bookId).lift LocalCheckouts.MysqlStore.mysqlLens).run
      (unfailing s)).1 = _
    rw [Prog.run_lift]
    change ((MysqlBooks.findBook bookId).run (unfailing s).mysql).1 = _
    rw [hrun]
    simp only [unfailing, Bool.false_eq_true, or_false]
    rfl
  have havailable : ∀ bookId, mysqlDependencies.availableStock (unfailing s) bookId =
      if bookId ≤ 0 then none else (s.mysql.db.inventory bookId.toInt).map atoi := by
    intro bookId
    change (((availableStock bookId).lift LocalCheckouts.MysqlStore.mysqlLens).run
      (unfailing s)).1 = _
    rw [Prog.run_lift]
    change ((availableStock bookId).run (unfailing s).mysql).1 = _
    unfold availableStock
    split
    · rfl
    · have hselect := Session.query_accepted (selectAvailable bookId.toInt) none
        (unfailing s).mysql rfl rfl
      rw [Session.run_withConnection, Session.exec_bind, hselect]
      rfl
  rw [Dependencies.agrees_iff]
  constructor
  · intro h bookId hpos
    have hnot : ¬ bookId ≤ 0 := by
      rw [Int32.le_iff_toInt_le, Int32.toInt_zero]
      omega
    have hsame := congrArg Option.isSome (h bookId)
    rw [hbook, havailable, if_neg hnot, if_neg hnot] at hsame
    simpa [OrderTotals.tableCatalogue, joined] using hsame
  · intro h bookId
    rw [hbook, havailable]
    split
    · rfl
    · rename_i hnot
      have hkeys := h bookId (toInt_pos_of_not_le hnot)
      cases hrow : s.mysql.db.inventory bookId.toInt with
      | none =>
        rw [hrow] at hkeys
        have hnone : s.mysql.db.books bookId.toInt = none :=
          Option.not_isSome_iff_eq_none.mp (by simp [hkeys])
        simp [OrderTotals.tableCatalogue, joined, hnone]
      | some value =>
        rw [hrow] at hkeys
        obtain ⟨row, hbookRow⟩ := Option.isSome_iff_exists.mp hkeys
        simp [OrderTotals.tableCatalogue, joined, hbookRow, hrow, bookFromRow]

end Tables

end Bookstore.CatalogueStock
