import Bookstore.InventoryRpc
import Bookstore.MysqlOrders

/-!
The order service in split-service mode: OrderService over GrpcInventoryClient,
with InventoryGrpcServiceImpl over MysqlInventoryRepository at the other end
and MysqlOrderRepository for the orders. Two counters live in the process of
the order service and start again at 1 when it restarts; the tables persist.
Both counters are unbounded here: they wrap only after 2^64 calls.
-/
namespace Bookstore.SplitService

open Database Interleaving InventoryRpc MysqlInventory MysqlOrders Records Repositories
open Services Transactions

/-- The database, and the counters of the order-service process. -/
structure SplitStore where
  mysql : MySql
  nextReservation : ℕ
  nextGateway : ℕ

namespace SplitStore

def mysqlLens : Lens SplitStore MySql where
  get s := s.mysql
  set m s := { s with mysql := m }
  get_set _ _ := rfl
  set_get _ := rfl
  set_set _ _ _ := rfl

def reservationLens : Lens SplitStore ℕ where
  get s := s.nextReservation
  set n s := { s with nextReservation := n }
  get_set _ _ := rfl
  set_get _ := rfl
  set_set _ _ _ := rfl

def gatewayLens : Lens SplitStore ℕ where
  get s := s.nextGateway
  set n s := { s with nextGateway := n }
  get_set _ _ := rfl
  set_get _ := rfl
  set_set _ _ _ := rfl

end SplitStore

/-- The book lookup is a parameter: it may read the tables in any way. -/
abbrev Catalogue := Db → Int32 → Option Book

def inventoryClient : InventoryClient SplitStore :=
  grpcInventoryClient ((inventoryServer MysqlInventory.repository).lift SplitStore.mysqlLens)
    SplitStore.gatewayLens

def orderService (catalogue : Catalogue) : OrderService SplitStore where
  bookClient := ⟨fun bookId => .read fun s => catalogue s.mysql.db bookId⟩
  inventoryClient := inventoryClient
  orderRepository := MysqlOrders.repository.lift SplitStore.mysqlLens
  nextId := SplitStore.reservationLens

variable (catalogue : Catalogue)

def createOrder (userId : Int32) (requests : List OrderItemRequest) (s : SplitStore) :
    Option Order × SplitStore :=
  ((orderService catalogue).createOrder userId requests).run s

def cancelOrder (orderId : Int32) (s : SplitStore) : Option Order × SplitStore :=
  ((orderService catalogue).cancelOrder orderId).run s

/-- A restart of the order-service process. -/
def restart (s : SplitStore) : SplitStore := { s with nextReservation := 1, nextGateway := 1 }

/-- The stock of a book in the inventory table. -/
def available (s : SplitStore) (book : Int32) : ℤ := s.mysql.db.available book.toInt

/-- A shop with one user, five copies of one book, and a fresh process. -/
def smallShop : SplitStore where
  mysql := {
    db := {
      users := fun id => id = 1
      books := fun id => if id = 1 then some ⟨"C++ Primer", "Stanley Lippman", 9800, 5, "active"⟩
        else none
      inventory := fun id => if id = 1 then some 5 else none
      reservations := fun _ => none
      reservationItems := []
      orders := []
      orderItems := [] }
    nextKey := fun _ => 1
    faults := fun _ => false
    clock := 0 }
  nextReservation := 1
  nextGateway := 1

/-- Its catalogue. -/
def smallCatalogue : Catalogue := fun _ bookId =>
  if bookId = 1 then some ⟨1, "C++ Primer", "Stanley Lippman", 9800, 5, "active"⟩ else none

/-! ## Reservation ids -/

theorem dash_not_mem_repr (n : ℕ) : '-' ∉ n.repr.toList := by
  intro h
  rw [Nat.toList_repr] at h
  have hdigit := Nat.isDigit_of_mem_toDigits (by decide) (by decide) h
  exact absurd hdigit (by decide)

/-- What follows the last separator is determined by the whole text. -/
theorem eq_of_append_cons_eq {sep : Char} (xs ys ds es : List Char) (hd : sep ∉ ds)
    (he : sep ∉ es) (h : xs ++ sep :: ds = ys ++ sep :: es) : ds = es := by
  induction xs generalizing ys with
  | nil =>
    cases ys with
    | nil => exact (List.cons.inj h).2
    | cons y ys =>
      have htail := (List.cons.inj h).2
      exact absurd (htail ▸ List.mem_append_right ys (List.mem_cons_self ..)) hd
  | cons x xs ih =>
    cases ys with
    | nil =>
      have htail := (List.cons.inj h).2
      exact absurd (htail ▸ List.mem_append_right xs (List.mem_cons_self ..)) he
    | cons y ys => exact ih ys (List.cons.inj h).2

/-- The serial number can be read off an id, whatever the users are. -/
theorem serial_of_reservationId {u v : Int32} {m n : ℕ}
    (h : OrderService.reservationId u m = OrderService.reservationId v n) : m = n := by
  have hlist := congrArg String.toList h
  simp only [OrderService.reservationId, String.toList_append, List.append_assoc] at hlist
  rw [← List.append_assoc, ← List.append_assoc ("order-".toList)] at hlist
  have hdigits : m.repr.toList = n.repr.toList :=
    eq_of_append_cons_eq _ _ _ _ (dash_not_mem_repr m) (dash_not_mem_repr n) hlist
  rw [Nat.toList_repr, Nat.toList_repr] at hdigits
  have hvalue := congrArg (fun ds => Nat.ofDigitChars 10 ds 0) hdigits
  simpa only [Nat.ofDigitChars_ten_toDigits] using hvalue

theorem gatewayId_ne_reservationId (n m : ℕ) (u : Int32) :
    gatewayId n ≠ OrderService.reservationId u m := by
  intro h
  have hlist := congrArg String.toList h
  simp only [gatewayId, OrderService.reservationId, String.toList_append, List.append_assoc]
    at hlist
  have hhead := congrArg List.head? hlist
  exact absurd hhead (by simp)

theorem reservationId_isEmpty (u : Int32) (n : ℕ) :
    (OrderService.reservationId u n).isEmpty = false := by
  cases h : (OrderService.reservationId u n).isEmpty with
  | false => rfl
  | true =>
    rw [String.isEmpty_iff] at h
    have hlist := congrArg String.toList h
    simp [OrderService.reservationId] at hlist

/-! ## The calls of create_order and cancel_order one by one -/

theorem orderService_readOnly : OrderService.ReadOnly (orderService catalogue).bookClient :=
  fun _ _ => rfl

theorem run_grpcReserve (reservation : String) (items : List InventoryMutation) (s : SplitStore) :
    (inventoryClient.reserveBatch reservation items).run s =
      (((grpcReserve (inventoryServer MysqlInventory.repository) reservation items).run s.mysql).1,
        { s with
          mysql := ((grpcReserve (inventoryServer MysqlInventory.repository) reservation
            items).run s.mysql).2 }) := by
  simp only [inventoryClient, grpcInventoryClient, grpcReserve, InventoryStub.lift, Prog.run_bind,
    Prog.run_lift, SplitStore.mysqlLens]
  split <;> rfl

theorem run_grpcRelease (reservation : String) (items : List InventoryMutation) (s : SplitStore) :
    (inventoryClient.releaseBatch reservation items).run s =
      ((), { s with
        mysql := ((grpcRelease (inventoryServer MysqlInventory.repository) reservation
          items).run s.mysql).2 }) := by
  simp only [inventoryClient, grpcInventoryClient, grpcRelease, InventoryStub.lift, Prog.run_bind,
    Prog.run_lift, SplitStore.mysqlLens, Prog.run_pure]

theorem run_releaseStock (bookId quantity : Int32) (s : SplitStore) :
    (inventoryClient.releaseStock bookId quantity).run s =
      (inventoryClient.releaseBatch (gatewayId s.nextGateway) [⟨bookId, quantity⟩]).run
        { s with nextGateway := s.nextGateway + 1 } := by
  simp only [inventoryClient, grpcInventoryClient, nextGatewayId, Prog.run_bind, Prog.run_call,
    SplitStore.gatewayLens]

/-- create_order from the drawing of the reservation id on, call by call. -/
theorem run_placeOrder (userId : Int32) (requests : List OrderItemRequest)
    (items : List OrderItem) (total : Int32) (s : SplitStore) :
    ((orderService catalogue).placeOrder userId requests items total).run s =
      (let server := inventoryServer MysqlInventory.repository
      let reservation := OrderService.reservationId userId s.nextReservation
      let mutations := requests.map OrderItemRequest.toMutation
      let reserved := (grpcReserve server reservation mutations).run s.mysql
      let stored := (MysqlOrders.createOrder userId items total).run reserved.2
      if reserved.1 = true then
        match stored.1 with
        | some order => (some order, ⟨stored.2, s.nextReservation + 1, s.nextGateway⟩)
        | none => (none, ⟨((grpcRelease server reservation mutations).run stored.2).2,
            s.nextReservation + 1, s.nextGateway⟩)
      else (none, ⟨reserved.2, s.nextReservation + 1, s.nextGateway⟩)) := by
  have hreserve := run_grpcReserve
    (OrderService.reservationId userId s.nextReservation)
    (requests.map OrderItemRequest.toMutation) { s with nextReservation := s.nextReservation + 1 }
  simp only [OrderService.placeOrder, OrderService.nextReservationId, Prog.run_bind, Prog.run_call,
    orderService, SplitStore.reservationLens, hreserve]
  split
  · simp only [Prog.run_bind, OrderRepository.lift, Prog.run_lift, SplitStore.mysqlLens,
      MysqlOrders.repository]
    generalize (MysqlOrders.createOrder userId items total).run _ = stored
    cases stored.1 with
    | none => simp only [Prog.run_bind, run_grpcRelease, Prog.run_pure]
    | some order => simp only [Prog.run_pure]
  · rfl

/-- An accepted call answers a reused id without taking stock, or books its
order under a new id. Either way the order holds some book. -/
theorem createOrder_accepted (userId : Int32) (requests : List OrderItemRequest) (s s' : SplitStore)
    (order : Order) (h : createOrder catalogue userId requests s = (some order, s')) :
    (∃ book, 0 < quantityOf book order.items) ∧
    ((s.mysql.db.reservations (OrderService.reservationId userId s.nextReservation) =
        some "reserved" ∧ ∀ book, available s' book = available s book) ∨
      (s.mysql.db.reservations (OrderService.reservationId userId s.nextReservation) = none ∧
        (s'.mysql.db.reservations
          (OrderService.reservationId userId s.nextReservation)).isSome ∧
        ∀ book, available s' book = available s book - quantityOf book order.items)) := by
  unfold SplitService.createOrder at h
  rcases (orderService catalogue).createOrder_cases (orderService_readOnly catalogue) userId
    requests s with hnone | ⟨items, total, _, hne, _, _, hpriced, hrun⟩
  · rw [hnone] at h
    cases h
  · obtain ⟨ok, db, c, hreserve, hcases⟩ := grpcReserve_spec
      (OrderService.reservationId userId s.nextReservation)
      (requests.map OrderItemRequest.toMutation) s.mysql
    rw [hrun, run_placeOrder] at h
    simp only [hreserve] at h
    split at h
    · rename_i hok
      obtain ⟨r, db', c', nextKey, hstore, _, hstored⟩ := createOrder_spec userId items total
        { s.mysql with db := db, clock := c }
      rw [hstore] at h
      rcases hstored with ⟨hr, _⟩ | ⟨hr, _, hdone⟩
      · subst hr
        simp only [Prod.mk.injEq, reduceCtorEq, false_and] at h
      · subst hr
        simp only [Prod.mk.injEq, Option.some.injEq] at h
        obtain ⟨rfl, rfl⟩ := h
        refine ⟨exists_quantityOf_pos items hne hpriced.positive, ?_⟩
        have hstock : ∀ book : Int32, db'.available book.toInt = db.available book.toInt :=
          fun book => hdone.stock.available book.toInt
        rcases hcases with ⟨hsame, hstatus⟩ | ⟨hnone, _, _, hreserved, _⟩
        · refine .inl ⟨hstatus hok, ?_⟩
          intro book
          simp only [available, hstock book, hsame]
        · refine .inr ⟨hnone, ?_, ?_⟩
          · have hrows : db'.reservations = _ := hdone.stock.reservations.trans
              hreserved.reservations
            simp [hrows, insertReservation]
          · intro book
            simp only [available, hstock book, hreserved.available book.toInt,
              requestedAt_toInt, hpriced.same book]
            rfl
    · cases h

end Bookstore.SplitService
