import Bookstore.SplitService
import Mathlib.Algebra.Order.BigOperators.Group.List

/-!
Cancellation in split-service mode. cancel_order releases item by item, and
the client makes up a new reservation id for each of these releases; no such
id is on record, so the release finds nothing to give back. The copies of a
cancelled order are lost: they are neither in stock nor in a live order.
-/
namespace Bookstore.SplitCancel

open Database Interleaving InventoryRpc MysqlInventory MysqlOrders Records Repositories
open Services SplitService Transactions

inductive Call
  | create (userId : Int32) (requests : List OrderItemRequest)
  | cancel (orderId : Int32)

variable (catalogue : Catalogue)

def perform (s : SplitStore) : Call → SplitStore
  | .create userId requests => (SplitService.createOrder catalogue userId requests s).2
  | .cancel orderId => (SplitService.cancelOrder catalogue orderId s).2

def performAll (s : SplitStore) : List Call → SplitStore
  | [] => s
  | call :: rest => performAll (perform catalogue s call) rest

/-- The orders that the create_order calls of a run returned. -/
def returned (s : SplitStore) : List Call → List Order
  | [] => []
  | .create userId requests :: rest =>
    let result := SplitService.createOrder catalogue userId requests s
    result.1.toList ++ returned result.2 rest
  | .cancel orderId :: rest => returned (perform catalogue s (.cancel orderId)) rest

/-! ## Stock plus live orders -/

/-- How many copies of a book the item rows of an order hold. -/
def orderQuantity (rows : List OrderItemRow) (orderId book : ℤ) : ℤ :=
  Tally.tally OrderItemRow.bookId OrderItemRow.quantity book
    (rows.filter fun row => row.orderId = orderId)

/-- What an order row counts for: nothing once it is cancelled. -/
def counted (db : Db) (book : ℤ) (order : OrderRow) : ℤ :=
  if order.status = "cancelled" then 0 else orderQuantity db.orderItems order.id book

/-- The copies of a book in the orders that are not cancelled. -/
def outstanding (db : Db) (book : ℤ) : ℤ := (db.orders.map (counted db book)).sum

def balance (s : SplitStore) (book : Int32) : ℤ :=
  available s book + outstanding s.mysql.db book.toInt

/-- find_order finds the order, and it is not cancelled yet. -/
def Live (s : SplitStore) (orderId : Int32) : Prop :=
  ∃ order, orderAt s.mysql.db orderId = some order ∧ order.status ≠ "cancelled"

/-- The tables as the services keep them, apart from the reservations: stock
fits its column, order rows carry used keys, item rows belong to an order, and
no order is empty. -/
structure ShopTables (m : MySql) : Prop where
  stock : ∀ book, IsUnsigned (m.db.available book)
  nextKey : 0 < m.nextKey .orders
  keys : ∀ order ∈ m.db.orders, 0 < order.id ∧ order.id < m.nextKey .orders
  parents : ∀ row ∈ m.db.orderItems, ∃ order ∈ m.db.orders, order.id = row.orderId
  quantities : ∀ row ∈ m.db.orderItems, 0 ≤ row.quantity
  filled : ∀ order ∈ m.db.orders, ∃ book : Int32,
    0 < orderQuantity m.db.orderItems order.id book.toInt

/-- One order-service process has just started over a shop without reservations. -/
structure Start (s : SplitStore) : Prop where
  reliable : s.mysql.Reliable
  tables : ShopTables s.mysql
  unreserved : ∀ id, s.mysql.db.reservations id = none
  unrecorded : s.mysql.db.reservationItems = []
  reservation : s.nextReservation = 1
  gateway : s.nextGateway = 1

/-- Every reservation on record was drawn by this process. -/
structure Sound (s : SplitStore) : Prop where
  reliable : s.mysql.Reliable
  tables : ShopTables s.mysql
  drawn : ∀ id, (s.mysql.db.reservations id).isSome →
    ∃ user n, id = OrderService.reservationId user n ∧ n < s.nextReservation
  recorded : ∀ row ∈ s.mysql.db.reservationItems,
    (s.mysql.db.reservations row.reservationId).isSome

theorem Start.sound {s : SplitStore} (h : Start s) : Sound s where
  reliable := h.reliable
  tables := h.tables
  drawn := by
    intro id hid
    rw [h.unreserved id] at hid
    cases hid
  recorded := by
    rw [h.unrecorded]
    simp

/-- The id that the next create_order draws is on no record. -/
theorem Sound.fresh {s : SplitStore} (h : Sound s) (userId : Int32) :
    s.mysql.db.reservations (OrderService.reservationId userId s.nextReservation) = none := by
  by_contra hsome
  obtain ⟨user, n, hid, hlt⟩ := h.drawn _ (Option.isSome_iff_ne_none.mpr hsome)
  have hserial := serial_of_reservationId hid
  omega

/-- No id made up by the inventory client is on record. -/
theorem Sound.unknown {s : SplitStore} (h : Sound s) (n : ℕ) :
    s.mysql.db.reservations (gatewayId n) = none := by
  by_contra hsome
  obtain ⟨user, m, hid, _⟩ := h.drawn _ (Option.isSome_iff_ne_none.mpr hsome)
  exact gatewayId_ne_reservationId n m user hid

/-! ## What create_order does to the tables -/

theorem orderQuantity_append (xs ys : List OrderItemRow) (orderId book : ℤ) :
    orderQuantity (xs ++ ys) orderId book =
      orderQuantity xs orderId book + orderQuantity ys orderId book := by
  simp only [orderQuantity, List.filter_append, Tally.tally_append]

theorem orderQuantity_of_absent (rows : List OrderItemRow) (orderId book : ℤ)
    (h : ∀ row ∈ rows, row.orderId ≠ orderId) : orderQuantity rows orderId book = 0 := by
  have hempty : rows.filter (fun row => row.orderId = orderId) = [] := by
    rw [List.filter_eq_nil_iff]
    intro row hrow
    simpa using h row hrow
  simp only [orderQuantity, hempty, Tally.tally_nil]

/-- The rows written for an order hold the quantities of its items. -/
theorem orderQuantity_written (orderId : Int32) (items : List OrderItem) (book : Int32) :
    orderQuantity (items.map (orderItemRow orderId)) orderId.toInt book.toInt =
      quantityOf book items := by
  induction items with
  | nil => rfl
  | cons item rest ih =>
    simp only [List.map_cons, orderQuantity, orderItemRow, List.filter_cons, decide_true,
      if_true, Tally.tally_cons, Int32.toInt_inj, quantityOf_cons]
    rw [← ih]
    rfl

/-- A key that came back positive through an int was not changed by it. -/
theorem atoi_of_pos {key : ℤ} (hkey : IsUnsigned key) (hpos : 0 < (atoi key).toInt) :
    (atoi key).toInt = key := by
  have hbmod : (atoi key).toInt = key.bmod (2 ^ 32) := Int32.toInt_ofInt
  have hrange := hkey.2
  have hlow := hkey.1
  unfold unsignedMax at hrange
  rw [hbmod] at hpos ⊢
  rw [Int.bmod_def] at hpos ⊢
  split at hpos <;> rename_i hlt <;> simp only [hlt, if_true, if_false] <;> omega

/-- Changes of stock and reservations keep the tables in shape. -/
theorem ShopTables.of_sameShop {m : MySql} {db' : Db} (h : ShopTables m) (c : ℕ)
    (hshop : SameShop m.db db') (hstock : ∀ book, IsUnsigned (db'.available book)) :
    ShopTables { m with db := db', clock := c } where
  stock := hstock
  nextKey := h.nextKey
  keys := by simpa only [hshop.orders] using h.keys
  parents := by simpa only [hshop.orders, hshop.orderItems] using h.parents
  quantities := by simpa only [hshop.orderItems] using h.quantities
  filled := by simpa only [hshop.orders, hshop.orderItems] using h.filled

/-- A key that is used up without a row keeps the tables in shape. -/
theorem ShopTables.of_nextKey {m : MySql} (h : ShopTables m) (c : ℕ) (nextKey : Table → ℤ)
    (hkey : nextKey = m.nextKey ∨
      nextKey = Function.update m.nextKey .orders (m.nextKey .orders + 1)) :
    ShopTables { m with clock := c, nextKey := nextKey } := by
  have hle : m.nextKey .orders ≤ nextKey .orders := by
    rcases hkey with rfl | rfl
    · exact le_refl _
    · simp
  have hpos := h.nextKey
  refine ⟨h.stock, by simp only; omega, ?_, h.parents, h.quantities, h.filled⟩
  intro order horder
  have hold := h.keys order horder
  simp only
  omega

/-- The int that create_order works with is the key of the row. -/
theorem orderId_of_stored {m : MySql} (h : ShopTables m) {userId total : Int32}
    {items : List OrderItem} {db' : Db} (hne : items ≠ [])
    (hstored : OrderStored (m.nextKey .orders) userId items total m.db db') :
    (atoi (m.nextKey .orders)).toInt = m.nextKey .orders := by
  apply atoi_of_pos hstored.unsigned
  obtain ⟨order, hmem, hid⟩ := hstored.parent hne
  rw [← hid]
  rw [hstored.orders] at hmem
  rcases List.mem_append.mp hmem with hold | hnew
  · exact (h.keys order hold).1
  · rw [List.mem_singleton.mp hnew]
    exact h.nextKey

theorem outstanding_congr {db db' : Db} (horders : db'.orders = db.orders)
    (hrows : db'.orderItems = db.orderItems) (book : ℤ) :
    outstanding db' book = outstanding db book := by
  simp only [outstanding, horders]
  congr 1
  apply List.map_congr_left
  intro order _
  simp only [counted, hrows]

/-- A stored order is outstanding with the quantities of its items, and no
other order changes. -/
theorem outstanding_stored {m : MySql} (h : ShopTables m) {userId total : Int32}
    {items : List OrderItem} {db' : Db} (hne : items ≠ [])
    (hstored : OrderStored (m.nextKey .orders) userId items total m.db db') (book : Int32) :
    outstanding db' book.toInt = outstanding m.db book.toInt + quantityOf book items := by
  have hkey := orderId_of_stored h hne hstored
  have hwritten := orderQuantity_written (atoi (m.nextKey .orders)) items book
  rw [hkey] at hwritten
  have hnone : orderQuantity m.db.orderItems (m.nextKey .orders) book.toInt = 0 := by
    apply orderQuantity_of_absent
    intro row hrow
    obtain ⟨order, hmem, hid⟩ := h.parents row hrow
    have hlt := (h.keys order hmem).2
    omega
  have hold : ∀ order ∈ m.db.orders,
      orderQuantity db'.orderItems order.id book.toInt =
        orderQuantity m.db.orderItems order.id book.toInt := by
    intro order hmem
    have hlt := (h.keys order hmem).2
    rw [hstored.rows, orderQuantity_append, orderQuantity_of_absent (items.map _), Int.add_zero]
    intro row hrow
    obtain ⟨item, _, rfl⟩ := List.mem_map.mp hrow
    simp only [orderItemRow, hkey]
    omega
  have hcreated : ¬ "created" = "cancelled" := by decide
  simp only [outstanding, counted, hstored.orders, List.map_append, List.sum_append,
    List.map_cons, List.map_nil, List.sum_singleton, hcreated, if_false]
  congr 1
  · congr 1
    apply List.map_congr_left
    intro order hmem
    simp only [counted, hold order hmem]
  · rw [hstored.rows, orderQuantity_append, hnone, hwritten, Int.zero_add]

theorem ShopTables.stored {m : MySql} (h : ShopTables m) {userId total : Int32}
    {items : List OrderItem} {db' : Db} (hne : items ≠ [])
    (hpos : ∀ item ∈ items, 0 < item.quantity.toInt)
    (hstored : OrderStored (m.nextKey .orders) userId items total m.db db') (c : ℕ) :
    ShopTables { m with
      db := db'
      clock := c
      nextKey := Function.update m.nextKey .orders (m.nextKey .orders + 1) } := by
  have hkey := orderId_of_stored h hne hstored
  have hnext := h.nextKey
  have hquantity : ∀ row ∈ items.map (orderItemRow (atoi (m.nextKey .orders))),
      0 ≤ row.quantity := by
    intro row hrow
    obtain ⟨item, hitem, rfl⟩ := List.mem_map.mp hrow
    exact (hpos item hitem).le
  refine ⟨?_, ?_, ?_, ?_, ?_, ?_⟩
  · intro book
    rw [hstored.stock.available]
    exact h.stock book
  · simp only [Function.update_self]
    omega
  · intro order hmem
    simp only [hstored.orders, List.mem_append, List.mem_singleton] at hmem
    simp only [Function.update_self]
    rcases hmem with hold | rfl
    · have hrange := h.keys order hold
      omega
    · simp only
      omega
  · intro row hrow
    simp only [hstored.rows, List.mem_append] at hrow
    simp only [hstored.orders]
    rcases hrow with hold | hnew
    · obtain ⟨order, hmem, hid⟩ := h.parents row hold
      exact ⟨order, List.mem_append_left _ hmem, hid⟩
    · obtain ⟨item, _, rfl⟩ := List.mem_map.mp hnew
      exact ⟨_, List.mem_append_right _ (List.mem_singleton_self _), hkey.symm⟩
  · intro row hrow
    simp only [hstored.rows, List.mem_append] at hrow
    rcases hrow with hold | hnew
    · exact h.quantities row hold
    · exact hquantity row hnew
  · intro order hmem
    simp only [hstored.orders, List.mem_append, List.mem_singleton] at hmem
    simp only [hstored.rows, orderQuantity_append]
    rcases hmem with hold | rfl
    · obtain ⟨book, hbook⟩ := h.filled order hold
      refine ⟨book, ?_⟩
      have hnew : 0 ≤ orderQuantity (items.map (orderItemRow (atoi (m.nextKey .orders))))
          order.id book.toInt :=
        Tally.tally_nonneg _ _ _ _ fun row hrow => hquantity row (List.mem_filter.mp hrow).1
      omega
    · obtain ⟨book, hbook⟩ := exists_quantityOf_pos items hne hpos
      refine ⟨book, ?_⟩
      have hold : 0 ≤ orderQuantity m.db.orderItems (m.nextKey .orders) book.toInt :=
        Tally.tally_nonneg _ _ _ _ fun row hrow => h.quantities row (List.mem_filter.mp hrow).1
      have hwritten := orderQuantity_written (atoi (m.nextKey .orders)) items book
      rw [hkey] at hwritten
      simp only
      omega

/-- A call that reads the tables and draws an id keeps the invariant. -/
theorem Sound.ticked {s : SplitStore} (h : Sound s) (c : ℕ) :
    Sound { s with
      mysql := { s.mysql with clock := c }
      nextReservation := s.nextReservation + 1 } := by
  refine ⟨h.reliable, h.tables.of_sameShop c (.refl _) h.tables.stock, ?_, h.recorded⟩
  intro id hsome
  obtain ⟨user, n, hdrawn, hlt⟩ := h.drawn id hsome
  exact ⟨user, n, hdrawn, Nat.lt_succ_of_lt hlt⟩

/-- A reservation under a new id, as the invariant sees it. -/
theorem Sound.reserved {s : SplitStore} (h : Sound s) {userId : Int32}
    {mutations : List InventoryMutation} {db' : Db} (hpos : Positive mutations)
    (hreserved : Reserved (OrderService.reservationId userId s.nextReservation) mutations
      s.mysql.db db') (c : ℕ) :
    Sound { s with
      mysql := { s.mysql with db := db', clock := c }
      nextReservation := s.nextReservation + 1 } := by
  have hstock : ∀ book, IsUnsigned (db'.available book) := by
    intro book
    have hbook := h.tables.stock book
    have hrequested := requestedAt_nonneg book mutations hpos
    have hcovered := hreserved.covered (fun b => (h.tables.stock b).1) book
    have heq : db'.available book = s.mysql.db.available book - requestedAt book mutations :=
      hreserved.available book
    exact ⟨hcovered, by have := hbook.2; omega⟩
  refine ⟨h.reliable, h.tables.of_sameShop c ?_ hstock, ?_, ?_⟩
  · exact ⟨hreserved.shop.users, hreserved.shop.books, hreserved.shop.orders,
      hreserved.shop.orderItems⟩
  · intro id hid
    rw [show db'.reservations = _ from hreserved.reservations] at hid
    simp only [insertReservation, Function.update_apply] at hid
    by_cases hnew : id = OrderService.reservationId userId s.nextReservation
    · exact ⟨userId, s.nextReservation, hnew, Nat.lt_succ_self _⟩
    · rw [if_neg hnew] at hid
      obtain ⟨user, n, hdrawn, hlt⟩ := h.drawn id hid
      exact ⟨user, n, hdrawn, Nat.lt_succ_of_lt hlt⟩
  · intro row hrow
    simp only [hreserved.recorded, List.mem_append] at hrow
    simp only [hreserved.reservations, insertReservation, Function.update_apply]
    rcases hrow with hold | hnew
    · split
      · rfl
      · exact h.recorded row hold
    · obtain ⟨item, _, rfl⟩ := List.mem_map.mp hnew
      simp [itemRow]

/-- A release that undoes a reservation brings the balance back. -/
theorem Sound.compensated {s : SplitStore} (h : Sound s) {userId : Int32}
    {mutations : List InventoryMutation} {db' : Db} (hne : mutations ≠ []) (hpos : Positive mutations)
    (hreserved : Reserved (OrderService.reservationId userId s.nextReservation) mutations
      s.mysql.db db') (c : ℕ) (nextKey : Table → ℤ)
    (hkey : nextKey = s.mysql.nextKey ∨
      nextKey = Function.update s.mysql.nextKey .orders (s.mysql.nextKey .orders + 1)) :
    ∃ m, (grpcRelease (inventoryServer MysqlInventory.repository)
        (OrderService.reservationId userId s.nextReservation) mutations).run
          { s.mysql with db := db', clock := c, nextKey := nextKey } = ((), m) ∧
      Sound ⟨m, s.nextReservation + 1, s.nextGateway⟩ ∧
      ∀ book, balance ⟨m, s.nextReservation + 1, s.nextGateway⟩ book = balance s book := by
  have hsound := h.reserved hpos hreserved c
  have htables : ShopTables { s.mysql with db := db', clock := c } := hsound.tables
  have hold : s.mysql.db.reservationItems.filter (fun row =>
      row.reservationId = OrderService.reservationId userId s.nextReservation) = [] := by
    rw [List.filter_eq_nil_iff]
    intro row hrow hmatch
    have hrowId := h.recorded row hrow
    rw [of_decide_eq_true hmatch, h.fresh userId] at hrowId
    cases hrowId
  obtain ⟨db'', c'', hrelease, hreturned⟩ := grpcRelease_recorded
    (OrderService.reservationId userId s.nextReservation) mutations
    { s.mysql with db := db', clock := c, nextKey := nextKey } h.reliable hne
    (reservationId_isEmpty userId s.nextReservation)
    (by simp [hreserved.reservations, insertReservation])
    (by
      rw [hreserved.recorded]
      simp [insertReservation, hold, itemRow])
    hpos
    (by
      intro item hitem
      rw [hreserved.rows]
      exact hreserved.stocked item hitem)
    (by
      intro book
      rw [hreserved.available book, Int.sub_add_cancel]
      exact (h.tables.stock book).2)
  have hback : ∀ book, db''.available book = s.mysql.db.available book := by
    intro book
    rw [hreturned.available book, hreserved.available book, Int.sub_add_cancel]
    rfl
  refine ⟨_, hrelease, ⟨h.reliable, ?_, ?_, ?_⟩, ?_⟩
  · refine (htables.of_nextKey c nextKey hkey).of_sameShop c'' ⟨hreturned.shop.users,
      hreturned.shop.books, hreturned.shop.orders, hreturned.shop.orderItems⟩ ?_
    intro book
    change IsUnsigned (db''.available book)
    rw [hback book]
    exact h.tables.stock book
  · intro id hsome
    rw [updateReservationStatus_keeps, hreturned.reservations] at hsome
    exact hsound.drawn id hsome
  · intro row hrow
    rw [updateReservationStatus_keeps, hreturned.reservations]
    exact hsound.recorded row (hreturned.recorded ▸ hrow)
  · intro book
    have hshop := outstanding_congr (hreturned.shop.orders.trans hreserved.shop.orders)
      (hreturned.shop.orderItems.trans hreserved.shop.orderItems) book.toInt
    exact congrArg₂ (· + ·) (hback book.toInt) hshop

/-- An order stored after its reservation is outstanding with what was taken. -/
theorem Sound.stored {s : SplitStore} (h : Sound s) {userId total : Int32}
    {requests : List OrderItemRequest} {items : List OrderItem} {db' db'' : Db} (hne : items ≠ [])
    (hpriced : OrderService.Priced requests items)
    (hpos : Positive (requests.map OrderItemRequest.toMutation))
    (hreserved : Reserved (OrderService.reservationId userId s.nextReservation)
      (requests.map OrderItemRequest.toMutation) s.mysql.db db')
    (hdone : OrderStored (s.mysql.nextKey .orders) userId items total db' db'') (c : ℕ) :
    let m : MySql := { s.mysql with
      db := db''
      clock := c
      nextKey := Function.update s.mysql.nextKey .orders (s.mysql.nextKey .orders + 1) }
    Sound ⟨m, s.nextReservation + 1, s.nextGateway⟩ ∧
      ∀ book, balance ⟨m, s.nextReservation + 1, s.nextGateway⟩ book = balance s book := by
  have hsound := h.reserved hpos hreserved c
  have htables : ShopTables { s.mysql with db := db', clock := c } := hsound.tables
  refine ⟨⟨h.reliable, htables.stored hne hpriced.positive hdone c, ?_, ?_⟩, ?_⟩
  · intro id hsome
    rw [hdone.stock.reservations] at hsome
    exact hsound.drawn id hsome
  · intro row hrow
    rw [hdone.stock.reservationItems] at hrow
    rw [hdone.stock.reservations]
    exact hsound.recorded row hrow
  · intro book
    have hstored : outstanding db'' book.toInt =
        outstanding db' book.toInt + quantityOf book items :=
      outstanding_stored htables hne hdone book
    have hsame : outstanding db' book.toInt = outstanding s.mysql.db book.toInt :=
      outstanding_congr hreserved.shop.orders hreserved.shop.orderItems book.toInt
    have havailable : db''.available book.toInt =
        s.mysql.db.available book.toInt - requestedAt book.toInt
          (requests.map OrderItemRequest.toMutation) :=
      (hdone.stock.available book.toInt).trans (hreserved.available book.toInt)
    rw [requestedAt_toInt, ← hpriced.same book] at havailable
    simp only [balance, available, hstored, havailable, hsame]
    omega

/-- A call of create_order, stored or refused, compensated or not, keeps the
invariant and the balance of every book. -/
theorem placeOrder_sound {s : SplitStore} (h : Sound s) (userId : Int32)
    (requests : List OrderItemRequest) (items : List OrderItem) (total : Int32)
    (hne : items ≠ []) (hrequests : requests ≠ []) (hpriced : OrderService.Priced requests items) :
    Sound (((orderService catalogue).placeOrder userId requests items total).run s).2 ∧
    ∀ book, balance (((orderService catalogue).placeOrder userId requests items total).run s).2
      book = balance s book := by
  have hfresh := h.fresh userId
  obtain ⟨ok, db, c, hreserve, hcases⟩ := grpcReserve_spec
    (OrderService.reservationId userId s.nextReservation)
    (requests.map OrderItemRequest.toMutation) s.mysql
  rw [run_placeOrder]
  simp only [hreserve]
  rcases hcases with ⟨rfl, hstatus⟩ | ⟨_, _, hpos, hreserved, hok⟩
  · have hrefused : ok = false := by
      by_contra hok
      rw [Bool.not_eq_false] at hok
      rw [hstatus hok] at hfresh
      cases hfresh
    simp only [hrefused, Bool.false_eq_true, if_false]
    exact ⟨h.ticked c, fun _ => rfl⟩
  · simp only [hok h.reliable, if_true]
    obtain ⟨r, db', c', nextKey, hstore, hkey, hstored⟩ := createOrder_spec userId items total
      { s.mysql with db := db, clock := c }
    rw [hstore]
    rcases hstored with ⟨rfl, rfl⟩ | ⟨rfl, rfl, hdone⟩
    · obtain ⟨m, hrelease, hundone⟩ := h.compensated (by simpa using hrequests) hpos hreserved c'
        nextKey hkey
      simp only [hrelease]
      exact hundone
    · exact h.stored hne hpriced hpos hreserved hdone c'

/-! ## What cancel_order does to the tables -/

/-- The releases of cancel_order find no reservation and change no table. -/
theorem run_releaseItems (items : List OrderItem) {s : SplitStore} (h : Sound s) :
    ∃ c n, ((orderService catalogue).releaseItems items).run s =
      ((), { s with mysql := { s.mysql with clock := c }, nextGateway := n }) := by
  induction items generalizing s with
  | nil => exact ⟨s.mysql.clock, s.nextGateway, rfl⟩
  | cons item rest ih =>
    obtain ⟨c, hrelease⟩ := grpcRelease_absent (gatewayId s.nextGateway)
      [⟨item.bookId, item.quantity⟩] s.mysql (h.unknown s.nextGateway)
    have hfirst : ((orderService catalogue).inventoryClient.releaseStock item.bookId
        item.quantity).run s =
        ((), { s with
          mysql := { s.mysql with clock := c }
          nextGateway := s.nextGateway + 1 }) := by
      simp only [orderService, run_releaseStock, run_grpcRelease, hrelease]
    have hsound : Sound { s with
        mysql := { s.mysql with clock := c }
        nextGateway := s.nextGateway + 1 } :=
      ⟨h.reliable, h.tables.of_sameShop c (.refl _) h.tables.stock, h.drawn, h.recorded⟩
    obtain ⟨c', n, hrest⟩ := ih hsound
    unfold OrderService.releaseItems
    simp only [Prog.run_bind, hfirst, hrest]
    exact ⟨c', n, rfl⟩

theorem counted_nonneg (db : Db) (book : ℤ) (order : OrderRow)
    (hquantities : ∀ row ∈ db.orderItems, 0 ≤ row.quantity) : 0 ≤ counted db book order := by
  unfold counted
  split
  · exact le_refl 0
  · exact Tally.tally_nonneg _ _ _ _ fun row hrow => hquantities row (List.mem_filter.mp hrow).1

/-- Marking orders cancelled drops what the orders with this id count for. -/
theorem outstanding_cancelOrderRow (db : Db) (id book : ℤ) :
    outstanding ((cancelOrderRow id).effect db) book =
      (db.orders.map fun order => if order.id = id then 0 else counted db book order).sum := by
  simp only [outstanding, cancelOrderRow, List.map_map]
  congr 1
  apply List.map_congr_left
  intro order _
  simp only [Function.comp_apply]
  split
  · simp [counted]
  · rfl

theorem outstanding_cancelOrderRow_le (db : Db) (id book : ℤ)
    (hquantities : ∀ row ∈ db.orderItems, 0 ≤ row.quantity) :
    outstanding ((cancelOrderRow id).effect db) book ≤ outstanding db book := by
  rw [outstanding_cancelOrderRow]
  apply List.sum_le_sum
  intro order _
  split
  · exact counted_nonneg db book order hquantities
  · exact le_refl _

/-- The copies of a live order are gone from the sum. -/
theorem outstanding_cancelOrderRow_lt (db : Db) (book : ℤ) (order : OrderRow)
    (hquantities : ∀ row ∈ db.orderItems, 0 ≤ row.quantity) (hmem : order ∈ db.orders)
    (hlive : order.status ≠ "cancelled")
    (hpos : 0 < orderQuantity db.orderItems order.id book) :
    outstanding ((cancelOrderRow order.id).effect db) book < outstanding db book := by
  rw [outstanding_cancelOrderRow]
  apply List.sum_lt_sum
  · intro other _
    split
    · exact counted_nonneg db book other hquantities
    · exact le_refl _
  · refine ⟨order, hmem, ?_⟩
    rw [if_pos rfl, counted, if_neg hlive]
    exact hpos

theorem ShopTables.cancelled {m : MySql} (h : ShopTables m) (id : ℤ) (c : ℕ) :
    ShopTables { m with db := (cancelOrderRow id).effect m.db, clock := c } := by
  have hback : ∀ order ∈ ((cancelOrderRow id).effect m.db).orders,
      ∃ old ∈ m.db.orders, old.id = order.id := by
    intro order horder
    obtain ⟨old, hold, rfl⟩ := List.mem_map.mp horder
    refine ⟨old, hold, ?_⟩
    split <;> rfl
  refine ⟨h.stock, h.nextKey, ?_, ?_, h.quantities, ?_⟩
  · intro order horder
    obtain ⟨old, hold, hid⟩ := hback order horder
    rw [← hid]
    exact h.keys old hold
  · intro row hrow
    obtain ⟨old, hold, hid⟩ := h.parents row hrow
    refine ⟨_, List.mem_map_of_mem hold, ?_⟩
    split <;> exact hid
  · intro order horder
    obtain ⟨old, hold, hid⟩ := hback order horder
    rw [← hid]
    exact h.filled old hold

/-- cancel_order marks a live order and does nothing else to the tables. -/
theorem cancelOrder_cases {s : SplitStore} (h : Sound s) (orderId : Int32) :
    ∃ c n, (SplitService.cancelOrder catalogue orderId s).2 =
      { s with
        mysql := { s.mysql with
          db := (SplitService.cancelOrder catalogue orderId s).2.mysql.db
          clock := c }
        nextGateway := n } ∧
      ((¬ Live s orderId ∧ (SplitService.cancelOrder catalogue orderId s).2.mysql.db = s.mysql.db) ∨
        (Live s orderId ∧ (SplitService.cancelOrder catalogue orderId s).2.mysql.db =
          (cancelOrderRow orderId.toInt).effect s.mysql.db)) := by
  unfold SplitService.cancelOrder OrderService.cancelOrder
  split
  · rename_i hid
    refine ⟨s.mysql.clock, s.nextGateway, rfl, .inl ⟨?_, rfl⟩⟩
    rintro ⟨order, hfound, _⟩
    simp [orderAt, hid] at hfound
  · rename_i hid
    have hpos := MachineInt.toInt_pos_of_not_le hid
    obtain ⟨r, c, hfind, hread⟩ := findOrder_spec orderId s.mysql
    have hr := hread h.reliable
    have hfirst : ((orderService catalogue).orderRepository.findOrder orderId).run s =
        (r, { s with mysql := { s.mysql with clock := c } }) := by
      simp only [orderService, OrderRepository.lift, MysqlOrders.repository, Prog.run_lift,
        SplitStore.mysqlLens, hfind]
    simp only [Prog.run_bind, hfirst]
    cases r with
    | none =>
      refine ⟨c, s.nextGateway, rfl, .inl ⟨?_, rfl⟩⟩
      rintro ⟨order, hfound, _⟩
      rw [← hr] at hfound
      cases hfound
    | some existing =>
      simp only
      split
      · rename_i hcancelled
        refine ⟨c, s.nextGateway, rfl, .inl ⟨?_, rfl⟩⟩
        rintro ⟨order, hfound, hlive⟩
        rw [← hr] at hfound
        cases hfound
        exact hlive hcancelled
      · rename_i hlive
        have hlive' : Live s orderId := ⟨existing, hr.symm, hlive⟩
        obtain ⟨r', db', c', hcancel, _, hmarked⟩ := cancelOrder_spec orderId
          { s.mysql with clock := c }
        obtain ⟨hdb, _⟩ := hmarked h.reliable hpos
        change db' = (cancelOrderRow orderId.toInt).effect s.mysql.db at hdb
        subst hdb
        have hsecond : ((orderService catalogue).orderRepository.cancelOrder orderId).run
            { s with mysql := { s.mysql with clock := c } } =
            (r', { s with
              mysql := { s.mysql with
                db := (cancelOrderRow orderId.toInt).effect s.mysql.db
                clock := c' } }) := by
          simp only [orderService, OrderRepository.lift, MysqlOrders.repository, Prog.run_lift,
            SplitStore.mysqlLens, hcancel]
        simp only [OrderService.cancelFound, Prog.run_bind, hsecond]
        cases r' with
        | none => exact ⟨c', s.nextGateway, rfl, .inr ⟨hlive', rfl⟩⟩
        | some cancelled =>
          have hsound : Sound { s with
              mysql := { s.mysql with
                db := (cancelOrderRow orderId.toInt).effect s.mysql.db
                clock := c' } } :=
            ⟨h.reliable, h.tables.cancelled _ c', h.drawn, h.recorded⟩
          obtain ⟨c'', n, hrelease⟩ := run_releaseItems catalogue cancelled.items hsound
          simp only [Prog.run_bind, hrelease]
          exact ⟨c'', n, rfl, .inr ⟨hlive', rfl⟩⟩

theorem cancelOrder_sound {s : SplitStore} (h : Sound s) (orderId : Int32) :
    Sound (SplitService.cancelOrder catalogue orderId s).2 ∧
    (SplitService.cancelOrder catalogue orderId s).2.mysql.db.inventory = s.mysql.db.inventory ∧
    (∀ book, balance (SplitService.cancelOrder catalogue orderId s).2 book ≤ balance s book) ∧
    ((∀ book, balance (SplitService.cancelOrder catalogue orderId s).2 book = balance s book) ↔
      ¬ Live s orderId) := by
  obtain ⟨c, n, hstate, hcases⟩ := cancelOrder_cases catalogue h orderId
  rcases hcases with ⟨hdead, hdb⟩ | ⟨hlive, hdb⟩
  · rw [hdb] at hstate
    rw [hstate]
    refine ⟨⟨h.reliable, h.tables.of_sameShop c (.refl _) h.tables.stock, h.drawn, h.recorded⟩,
      rfl, fun _ => le_refl _, ?_⟩
    exact ⟨fun _ => hdead, fun _ _ => rfl⟩
  · rw [hdb] at hstate
    rw [hstate]
    refine ⟨⟨h.reliable, h.tables.cancelled _ c, h.drawn, h.recorded⟩, rfl, ?_, ?_⟩
    · intro book
      have hle := outstanding_cancelOrderRow_le s.mysql.db orderId.toInt book.toInt
        h.tables.quantities
      exact Int.add_le_add_left hle _
    · refine ⟨fun hsame => ?_, fun hdead => absurd hlive hdead⟩
      obtain ⟨order, hfound, hstatus⟩ := hlive
      unfold orderAt at hfound
      split at hfound
      · cases hfound
      · obtain ⟨row, hrow, rfl⟩ := Option.map_eq_some_iff.mp hfound
        have hid : row.id = orderId.toInt := by simpa using List.find?_some hrow
        have hmem := List.mem_of_find?_eq_some hrow
        obtain ⟨book, hbook⟩ := h.tables.filled row hmem
        have hlt := outstanding_cancelOrderRow_lt s.mysql.db book.toInt row h.tables.quantities
          hmem hstatus hbook
        rw [hid] at hlt
        have hequal : s.mysql.db.available book.toInt +
            outstanding ((cancelOrderRow orderId.toInt).effect s.mysql.db) book.toInt =
            s.mysql.db.available book.toInt + outstanding s.mysql.db book.toInt := hsame book
        omega

/-! ## Runs -/

theorem perform_sound {s : SplitStore} (h : Sound s) (call : Call) :
    Sound (perform catalogue s call) ∧ ∀ book, balance (perform catalogue s call) book ≤
      balance s book := by
  cases call with
  | create userId requests =>
    simp only [perform, SplitService.createOrder]
    rcases (orderService catalogue).createOrder_cases (orderService_readOnly catalogue) userId
      requests s with hnone | ⟨items, total, _, hne, hrequests, _, hpriced, hrun⟩
    · rw [hnone]
      exact ⟨h, fun _ => le_refl _⟩
    · rw [hrun]
      have hplaced := placeOrder_sound catalogue h userId requests items total hne hrequests hpriced
      exact ⟨hplaced.1, fun book => (hplaced.2 book).le⟩
  | cancel orderId =>
    have hcancel := cancelOrder_sound catalogue h orderId
    exact ⟨hcancel.1, hcancel.2.2.1⟩

theorem create_balance {s : SplitStore} (h : Sound s) (userId : Int32)
    (requests : List OrderItemRequest) (book : Int32) :
    balance (perform catalogue s (.create userId requests)) book = balance s book := by
  simp only [perform, SplitService.createOrder]
  rcases (orderService catalogue).createOrder_cases (orderService_readOnly catalogue) userId
    requests s with hnone | ⟨items, total, _, hne, hrequests, _, hpriced, hrun⟩
  · rw [hnone]
  · rw [hrun]
    exact (placeOrder_sound catalogue h userId requests items total hne hrequests hpriced).2 book

theorem performAll_sound (calls : List Call) {s : SplitStore} (h : Sound s) :
    Sound (performAll catalogue s calls) := by
  induction calls generalizing s with
  | nil => exact h
  | cons call rest ih => exact ih (perform_sound catalogue h call).1

/-- Every order returned along a run holds some book. -/
theorem returned_filled (calls : List Call) (s : SplitStore) (order : Order)
    (hreturned : order ∈ returned catalogue s calls) : ∃ book, 0 < quantityOf book order.items := by
  induction calls generalizing s with
  | nil => simp [returned] at hreturned
  | cons call rest ih =>
    cases call with
    | create userId requests =>
      unfold returned at hreturned
      cases hresult : SplitService.createOrder catalogue userId requests s with
      | mk r s' =>
        simp only [hresult, List.mem_append, Option.mem_toList] at hreturned
        rcases hreturned with hnow | hlater
        · rw [hnow] at hresult
          exact (createOrder_accepted catalogue userId requests s s' order hresult).1
        · exact ih s' hlater
    | cancel orderId => exact ih _ hreturned

/-- The balance is kept at every point of a run. -/
def Balanced (s : SplitStore) (calls : List Call) : Prop :=
  ∀ done later, calls = done ++ later →
    ∀ book, balance (performAll catalogue s done) book = balance s book

/-- Some cancel_order of the run meets an order that is not cancelled yet. -/
def CancelsLive (s : SplitStore) (calls : List Call) : Prop :=
  ∃ done orderId later, calls = done ++ .cancel orderId :: later ∧
    Live (performAll catalogue s done) orderId

theorem balanced_cons {s : SplitStore} (call : Call) (rest : List Call)
    (hstep : ∀ book, balance (perform catalogue s call) book = balance s book) :
    Balanced catalogue s (call :: rest) ↔ Balanced catalogue (perform catalogue s call) rest := by
  constructor
  · intro h done later hsplit book
    rw [hstep book]
    exact h (call :: done) later (by rw [hsplit]; rfl) book
  · intro h done later hsplit book
    cases done with
    | nil => rfl
    | cons first done =>
      obtain ⟨rfl, hrest⟩ := List.cons.inj hsplit
      rw [← hstep book]
      exact h done later hrest book

theorem cancelsLive_cons {s : SplitStore} (call : Call) (rest : List Call)
    (hdead : ∀ orderId, call = .cancel orderId → ¬ Live s orderId) :
    CancelsLive catalogue s (call :: rest) ↔
      CancelsLive catalogue (perform catalogue s call) rest := by
  constructor
  · rintro ⟨done, orderId, later, hsplit, hlive⟩
    cases done with
    | nil => exact absurd hlive (hdead orderId (List.cons.inj hsplit).1)
    | cons first done =>
      obtain ⟨rfl, hrest⟩ := List.cons.inj hsplit
      exact ⟨done, orderId, later, hrest, hlive⟩
  · rintro ⟨done, orderId, later, hsplit, hlive⟩
    exact ⟨call :: done, orderId, later, by rw [hsplit]; rfl, hlive⟩

theorem balanced_iff (calls : List Call) {s : SplitStore} (h : Sound s) :
    Balanced catalogue s calls ↔ ¬ CancelsLive catalogue s calls := by
  induction calls generalizing s with
  | nil =>
    constructor
    · rintro _ ⟨done, orderId, later, hsplit, _⟩
      simp at hsplit
    · intro _ done later hsplit book
      obtain ⟨rfl, _⟩ := List.append_eq_nil_iff.mp hsplit.symm
      rfl
  | cons call rest ih =>
    have hnext := ih (perform_sound catalogue h call).1
    cases call with
    | create userId requests =>
      rw [balanced_cons catalogue _ _ (create_balance catalogue h userId requests), hnext,
        cancelsLive_cons catalogue _ _ (by simp)]
    | cancel orderId =>
      have hcancel : (∀ book, balance (perform catalogue s (.cancel orderId)) book =
          balance s book) ↔ ¬ Live s orderId := (cancelOrder_sound catalogue h orderId).2.2.2
      by_cases hlive : Live s orderId
      · constructor
        · intro hbalanced
          have hstep := hbalanced [.cancel orderId] rest rfl
          exact absurd hlive (hcancel.mp hstep)
        · intro hnone
          exact absurd ⟨[], orderId, rest, rfl, hlive⟩ hnone
      · rw [balanced_cons catalogue _ _ (hcancel.mpr hlive), hnext,
          cancelsLive_cons catalogue _ _ (by rintro id ⟨⟩; exact hlive)]

/-- In no reachable state does the first cancel_order of a live order give its
copies back: the inventory does not change at all. And a run keeps the sum of
stock and live orders exactly when none of its cancel_order calls meets an
order that is not cancelled yet. -/
theorem cancel_gives_nothing_back (start : SplitStore) (hstart : Start start)
    (calls : List Call) :
    (∀ order ∈ returned catalogue start calls,
      Live (performAll catalogue start calls) order.id →
      (SplitService.cancelOrder catalogue order.id
        (performAll catalogue start calls)).2.mysql.db.inventory =
        (performAll catalogue start calls).mysql.db.inventory ∧
      ¬ ∀ book, available (SplitService.cancelOrder catalogue order.id
          (performAll catalogue start calls)).2 book =
        available (performAll catalogue start calls) book + quantityOf book order.items) ∧
    (Balanced catalogue start calls ↔ ¬ CancelsLive catalogue start calls) := by
  refine ⟨?_, balanced_iff catalogue calls hstart.sound⟩
  intro order hreturned _
  have hsame := (cancelOrder_sound catalogue (performAll_sound catalogue calls hstart.sound)
    order.id).2.1
  refine ⟨hsame, ?_⟩
  intro hraised
  obtain ⟨book, hpos⟩ := returned_filled catalogue calls start order hreturned
  have hbook := hraised book
  simp only [available, Db.available, hsame] at hbook
  omega

theorem smallShop_start : Start smallShop where
  reliable _ := rfl
  tables := {
    stock := by
      intro book
      by_cases hbook : book = 1
      · rw [hbook]
        decide
      · have hzero : smallShop.mysql.db.available book = 0 := by
          simp [Db.available, smallShop, hbook]
        rw [hzero]
        decide
    nextKey := by decide
    keys := by simp [smallShop]
    parents := by simp [smallShop]
    quantities := by simp [smallShop]
    filled := by simp [smallShop] }
  unreserved _ := rfl
  unrecorded := rfl
  reservation := rfl
  gateway := rfl

/-- The order of one copy out of five. -/
def smallOrder : Order := ⟨1, 1, [⟨1, 1, 9800⟩], 9800, "created"⟩

theorem smallOrder_returned :
    smallOrder ∈ returned smallCatalogue smallShop [.create 1 [⟨1, 1⟩]] := by
  decide +kernel

theorem smallOrder_live :
    Live (performAll smallCatalogue smallShop [.create 1 [⟨1, 1⟩]]) smallOrder.id :=
  ⟨smallOrder, by decide +kernel, by decide⟩

theorem cancel_gives_nothing_back_small :
    (SplitService.cancelOrder smallCatalogue smallOrder.id
      (performAll smallCatalogue smallShop [.create 1 [⟨1, 1⟩]])).2.mysql.db.inventory =
    (performAll smallCatalogue smallShop [.create 1 [⟨1, 1⟩]]).mysql.db.inventory :=
  ((cancel_gives_nothing_back smallCatalogue smallShop smallShop_start
    [.create 1 [⟨1, 1⟩]]).1 smallOrder smallOrder_returned smallOrder_live).1

/-- One of five copies is ordered and the order cancelled: four stay in stock. -/
theorem cancelled_copy_lost :
    ¬ ((∀ order ∈ returned smallCatalogue smallShop [.create 1 [⟨1, 1⟩]],
        Live (performAll smallCatalogue smallShop [.create 1 [⟨1, 1⟩]]) order.id →
        ∀ book, available (SplitService.cancelOrder smallCatalogue order.id
            (performAll smallCatalogue smallShop [.create 1 [⟨1, 1⟩]])).2 book =
          available (performAll smallCatalogue smallShop [.create 1 [⟨1, 1⟩]]) book +
            quantityOf book order.items) ∧
      Balanced smallCatalogue smallShop [.create 1 [⟨1, 1⟩], .cancel 1]) := by
  rintro ⟨hraised, _⟩
  have hbook := hraised smallOrder smallOrder_returned smallOrder_live 1
  revert hbook
  decide +kernel

end Bookstore.SplitCancel
