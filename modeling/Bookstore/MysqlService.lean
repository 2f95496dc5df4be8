import Bookstore.LocalCheckouts

/-!
OrderService over MysqlOrderRepository and a LocalInventoryClient over
MysqlInventoryRepository, one call after the other. What a live order holds is
read off the order tables: the items of the orders that are not cancelled.
-/
namespace Bookstore.MysqlService

open Database Interleaving LocalCheckouts MysqlInventory MysqlOrders Records Repositories
open Services Transactions Transactions.Session

def inventoryClient : InventoryClient MysqlStore :=
  localInventoryClient (MysqlInventory.repository.lift MysqlStore.mysqlLens)

/-- The book lookup may read the tables in any way. -/
def orderService (catalogue : Db → Int32 → Option Book) : OrderService MysqlStore where
  bookClient := ⟨fun bookId => .read fun s => catalogue s.mysql.db bookId⟩
  inventoryClient := inventoryClient
  orderRepository := MysqlOrders.repository.lift MysqlStore.mysqlLens
  nextId := MysqlStore.counterLens

theorem orderService_readOnly (catalogue : Db → Int32 → Option Book) :
    OrderService.ReadOnly (orderService catalogue).bookClient := fun _ _ => rfl

/-! ## What live orders hold -/

def itemsOf (rows : List OrderItemRow) (orderId : ℤ) : List OrderItemRow :=
  rows.filter fun row => row.orderId = orderId

/-- The copies of a book in the orders of a list that are not cancelled. -/
def heldBy (rows : List OrderItemRow) (book : ℤ) : List OrderRow → ℤ
  | [] => 0
  | order :: rest =>
    (if order.status = "cancelled" then 0 else orderedAt book (itemsOf rows order.id)) +
      heldBy rows book rest

def held (db : Db) (book : ℤ) : ℤ := heldBy db.orderItems book db.orders

/-- The tables of a shop whose orders all came from create_order. -/
structure Stocked (db : Db) : Prop where
  keys : ∀ order ∈ db.orders, IsUnsigned order.id
  distinct : (db.orders.map OrderRow.id).Nodup
  parents : ∀ row ∈ db.orderItems, ∃ order ∈ db.orders, order.id = row.orderId
  items : ∀ row ∈ db.orderItems, ∃ orderId item, row = orderItemRow orderId item ∧
    0 < item.bookId.toInt ∧ 0 < item.quantity.toInt
  rows : ∀ row ∈ db.orderItems, (db.inventory row.bookId).isSome
  nonneg : ∀ book, 0 ≤ db.available book
  room : ∀ book, db.available book + held db book ≤ unsignedMax

theorem heldBy_append (rows : List OrderItemRow) (book : ℤ) (xs ys : List OrderRow) :
    heldBy rows book (xs ++ ys) = heldBy rows book xs + heldBy rows book ys := by
  induction xs with
  | nil => simp [heldBy]
  | cons order rest ih =>
    simp only [List.cons_append, heldBy, ih]
    omega

theorem orderedAt_nonneg {rows : List OrderItemRow} (h : ∀ row ∈ rows, 0 < row.quantity)
    (book : ℤ) : 0 ≤ orderedAt book rows :=
  Tally.tally_nonneg _ _ book rows fun row hrow => (h row hrow).le

/-- Rows of other orders count for nothing. -/
theorem heldBy_other {rows more : List OrderItemRow} {book : ℤ} (orders : List OrderRow)
    (h : ∀ order ∈ orders, itemsOf more order.id = []) :
    heldBy (rows ++ more) book orders = heldBy rows book orders := by
  induction orders with
  | nil => rfl
  | cons order rest ih =>
    have hhead : itemsOf (rows ++ more) order.id = itemsOf rows order.id := by
      rw [itemsOf, List.filter_append]
      have hnone := h order (by simp)
      rw [itemsOf] at hnone
      rw [hnone, List.append_nil]
      rfl
    simp only [heldBy, hhead, ih fun o ho => h o (by simp [ho])]

theorem Stocked.quantity_pos {db : Db} (h : Stocked db) (row : OrderItemRow)
    (hrow : row ∈ db.orderItems) : 0 < row.quantity := by
  obtain ⟨orderId, item, rfl, _, hq⟩ := h.items row hrow
  exact hq

theorem heldBy_nonneg {rows : List OrderItemRow} (h : ∀ row ∈ rows, 0 < row.quantity)
    (book : ℤ) (orders : List OrderRow) : 0 ≤ heldBy rows book orders := by
  induction orders with
  | nil => exact le_refl 0
  | cons order rest ih =>
    have hitems := @orderedAt_nonneg (itemsOf rows order.id)
      (fun row hrow => h row (List.mem_filter.mp hrow).1) book
    simp only [heldBy]
    split <;> omega

/-! ## Taking and giving back -/

theorem run_releaseStock (book quantity : Int32) (s : MysqlStore) :
    (inventoryClient.releaseStock book quantity).run s =
      onMysql (MysqlInventory.releaseStock book quantity) s := by
  simp only [inventoryClient, localInventoryClient, inventoryService, InventoryRepository.lift,
    Prog.run_lift, MysqlStore.mysqlLens, onMysql, MysqlInventory.repository]

theorem run_reserveStock (book quantity : Int32) (s : MysqlStore) :
    (inventoryClient.reserveStock book quantity).run s =
      onMysql (MysqlInventory.reserveStock book quantity) s := by
  simp only [inventoryClient, localInventoryClient, inventoryService, InventoryRepository.lift,
    Prog.run_lift, MysqlStore.mysqlLens, onMysql, MysqlInventory.repository]

/-- While no statement fails, every item of a list goes back. -/
theorem run_releaseEach (items : List InventoryMutation) (s : MysqlStore) (hquiet : s.mysql.Quiet)
    (hpos : Positive items)
    (hrows : ∀ item ∈ items, (s.mysql.db.inventory item.bookId.toInt).isSome)
    (hroom : ∀ book, s.mysql.db.available book + requestedAt book items ≤ unsignedMax) :
    ∃ db' c, (releaseEach inventoryClient items).run s =
        ((), { s with mysql := { s.mysql with db := db', clock := c } }) ∧
      Returned items s.mysql.db db' := by
  induction items generalizing s with
  | nil => exact ⟨s.mysql.db, s.mysql.clock, rfl, .nil _⟩
  | cons item rest ih =>
    have hitem := hpos item (by simp)
    have hrest : Positive rest := fun i hi => hpos i (by simp [hi])
    obtain ⟨value, hvalue⟩ := Option.isSome_iff_exists.mp (hrows item (by simp))
    have hrelease := mysql_releaseStock item.bookId item.quantity s.mysql
      (hquiet _ (Nat.le_refl _)) hitem.1 hitem.2 hvalue (first_fits hrest hvalue hroom)
    obtain ⟨db', c, hrun, hreturned⟩ := ih
      { s with mysql := { s.mysql.tick with
        db := { s.mysql.db with
          inventory := Function.update s.mysql.db.inventory item.bookId.toInt
            (some (value + item.quantity.toInt)) } } }
      (fun n hn => hquiet n (Nat.le_of_succ_le hn)) hrest
      (by
        intro i hi
        dsimp only
        rw [isSome_update s.mysql.db.inventory item.bookId.toInt _ (by simp [hvalue])]
        exact hrows i (by simp [hi]))
      (room_for_rest hvalue hroom)
    refine ⟨db', c, ?_, .cons hvalue hreturned⟩
    simp only [releaseEach, Prog.run_bind, run_releaseStock, onMysql_eq hrelease]
    exact hrun

/-- The items taken so far, seen from where the loop of reserve_stock began. -/
structure Taken (items : List InventoryMutation) (db db' : Db) : Prop where
  returned : Returned items db' db
  positive : Positive items
  rows : ∀ item ∈ items, (db.inventory item.bookId.toInt).isSome
  nonneg : (∀ book, 0 ≤ db.available book) → ∀ book, 0 ≤ db'.available book

theorem Taken.nil (db : Db) : Taken [] db db where
  returned := .nil db
  positive := by simp [Positive]
  rows := by simp
  nonneg h := h

/-- The loop of reserve_stock takes all items, or gives back what it has taken. -/
theorem run_reserveEach (base : Db) (reserved items : List InventoryMutation) (s : MysqlStore)
    (hquiet : s.mysql.Reliable) (htaken : Taken reserved base s.mysql.db)
    (hroom : ∀ book, base.available book ≤ unsignedMax) :
    ∃ ok db' c, (reserveEach inventoryClient reserved items).run s =
        (ok, { s with mysql := { s.mysql with db := db', clock := c } }) ∧
      (if ok = true then Taken (reserved ++ items) base db' else db' = base) := by
  induction items generalizing reserved s with
  | nil =>
    refine ⟨true, s.mysql.db, s.mysql.clock, rfl, ?_⟩
    rw [if_pos rfl, List.append_nil]
    exact htaken
  | cons item rest ih =>
    simp only [reserveEach, Prog.run_bind, run_reserveStock]
    rcases mysql_reserveStock item.bookId item.quantity s.mysql with
      ⟨c, hrun⟩ | ⟨value, c, hbook, hq, hrow, hle, hrun⟩
    · rw [onMysql_eq hrun]
      obtain ⟨db', c', hrelease, hreturned⟩ := run_releaseEach reserved
        { s with mysql := { s.mysql with clock := c } } (fun n _ => hquiet n) htaken.positive
        (fun i hi => by rw [← htaken.returned.rows]; exact htaken.rows i hi)
        (fun book => by rw [← htaken.returned.available]; exact hroom book)
      refine ⟨false, db', c', ?_, hreturned.unique htaken.returned⟩
      simp only [Bool.false_eq_true, if_false, Prog.run_bind, hrelease, Prog.run_pure]
    · rw [onMysql_eq hrun]
      have hsome : (s.mysql.db.inventory item.bookId.toInt).isSome := by simp [hrow]
      have hstep : Returned [item]
          { s.mysql.db with
            inventory := Function.update s.mysql.db.inventory item.bookId.toInt
              (some (value - item.quantity.toInt)) } s.mysql.db := by
        refine ⟨⟨rfl, rfl, rfl, rfl⟩, rfl, ?_, ?_, rfl⟩
        · intro book
          rw [available_update, requestedAt_cons, requestedAt_nil]
          by_cases hb : item.bookId.toInt = book
          · subst hb
            simp [Db.available, hrow]
          · simp [hb]
        · intro book
          exact (isSome_update s.mysql.db.inventory item.bookId.toInt _ hsome book).symm
      obtain ⟨ok, db', c', hrest, hcases⟩ := ih (reserved ++ [item])
        { s with mysql := { s.mysql with
          db := { s.mysql.db with
            inventory := Function.update s.mysql.db.inventory item.bookId.toInt
              (some (value - item.quantity.toInt)) }
          clock := c } } hquiet
        { returned := hstep.trans htaken.returned
          positive := by
            intro i hi
            rcases List.mem_append.mp hi with hmem | hmem
            · exact htaken.positive i hmem
            · rw [List.mem_singleton.mp hmem]
              exact ⟨hbook, hq⟩
          rows := by
            intro i hi
            rcases List.mem_append.mp hi with hmem | hmem
            · exact htaken.rows i hmem
            · rw [List.mem_singleton.mp hmem, htaken.returned.rows]
              exact hsome
          nonneg := by
            intro hnonneg book
            have hbefore := htaken.nonneg hnonneg book
            dsimp only
            rw [available_update]
            split <;> omega }
      refine ⟨ok, db', c', hrest, ?_⟩
      rw [List.append_assoc] at hcases
      exact hcases

/-! ## create_order -/

theorem requestedAt_outside {book : ℤ} (h : ∀ i : Int32, i.toInt ≠ book)
    (items : List InventoryMutation) : requestedAt book items = 0 := by
  induction items with
  | nil => rfl
  | cons item rest ih => rw [requestedAt_cons, if_neg (h item.bookId), ih, Int.add_zero]

/-- The order rows name the books and quantities that were reserved. -/
theorem orderedAt_priced {requests : List OrderItemRequest} {items : List OrderItem}
    (h : OrderService.Priced requests items) (orderId : Int32) (book : ℤ) :
    orderedAt book (items.map (orderItemRow orderId)) =
      requestedAt book (requests.map OrderItemRequest.toMutation) := by
  by_cases hbook : ∃ i : Int32, i.toInt = book
  · obtain ⟨i, rfl⟩ := hbook
    rw [orderedAt_rows, h.same, requestedAt_toInt]
  · rw [not_exists] at hbook
    rw [requestedAt_outside hbook]
    by_contra hne
    obtain ⟨row, hrow, hkey⟩ := Tally.exists_mem_of_tally_ne_zero _ _ _ _ hne
    obtain ⟨item, _, rfl⟩ := List.mem_map.mp hrow
    exact hbook item.bookId hkey

/-- Every priced item was asked for. -/
theorem exists_mutation {requests : List OrderItemRequest} {items : List OrderItem}
    (h : OrderService.Priced requests items) (item : OrderItem) (hitem : item ∈ items) :
    ∃ mutation ∈ requests.map OrderItemRequest.toMutation, mutation.bookId = item.bookId := by
  have hpos := Tally.tally_pos_of_mem OrderItem.bookId (fun i => i.quantity.toInt) items
    (fun i hi => (h.positive i hi).le) hitem (h.positive item hitem)
  apply Tally.exists_mem_of_tally_ne_zero InventoryMutation.bookId (fun i => i.quantity.toInt)
  have hsame := h.same item.bookId
  unfold quantityOf requested at hsame
  omega

/-- A key that does not turn negative is read back as it is. -/
theorem atoi_own {key : ℤ} (h : IsUnsigned key) (hnonneg : 0 ≤ (atoi key).toInt) :
    (atoi key).toInt = key := by
  obtain ⟨q, hq, _, _⟩ := MachineInt.exists_toCInt_eq key
  unfold MachineInt.toCInt at hq
  obtain ⟨hlow, hhigh⟩ := h
  unfold unsignedMax at hhigh
  have hlt := (Int32.ofInt key).toInt_lt
  unfold atoi at hnonneg ⊢
  omega

/-- What an accepted order does to the tables: its items leave the stock and
are stored under a key of their own. -/
structure Sold (key : ℤ) (userId : Int32) (requests : List OrderItemRequest)
    (items : List OrderItem) (total : Int32) (db db' : Db) : Prop where
  fresh : ∀ order ∈ db.orders, order.id ≠ key
  unsigned : IsUnsigned key
  own : (atoi key).toInt = key
  priced : OrderService.Priced requests items
  positive : Positive (requests.map OrderItemRequest.toMutation)
  stocked : ∀ item ∈ requests.map OrderItemRequest.toMutation,
    (db.inventory item.bookId.toInt).isSome
  orders : db'.orders = db.orders ++ [⟨key, userId.toInt, "created", total.toInt⟩]
  items : db'.orderItems = db.orderItems ++ items.map (orderItemRow (atoi key))
  available : ∀ book, db'.available book +
    requestedAt book (requests.map OrderItemRequest.toMutation) = db.available book
  rows : ∀ book, (db'.inventory book).isSome = (db.inventory book).isSome
  nonneg : ∀ book, 0 ≤ db'.available book

/-- The copies of a book on the shelf and in live orders. -/
def covered (db : Db) (book : ℤ) : ℤ := db.available book + held db book

theorem itemsOf_rows (orderId : Int32) (items : List OrderItem) (key : ℤ) :
    itemsOf (items.map (orderItemRow orderId)) key =
      if orderId.toInt = key then items.map (orderItemRow orderId) else [] := by
  by_cases hkey : orderId.toInt = key
  · rw [if_pos hkey, itemsOf, List.filter_eq_self]
    intro row hrow
    obtain ⟨item, _, rfl⟩ := List.mem_map.mp hrow
    simpa [orderItemRow] using hkey
  · rw [if_neg hkey, itemsOf, List.filter_eq_nil_iff]
    intro row hrow
    obtain ⟨item, _, rfl⟩ := List.mem_map.mp hrow
    simpa [orderItemRow] using hkey

theorem Sold.covered {key : ℤ} {userId : Int32} {requests : List OrderItemRequest}
    {items : List OrderItem} {total : Int32} {db db' : Db} (h : Stocked db)
    (hsold : Sold key userId requests items total db db') (book : ℤ) :
    covered db' book = covered db book := by
  have hold : heldBy db'.orderItems book db.orders = heldBy db.orderItems book db.orders := by
    rw [hsold.items]
    apply heldBy_other
    intro order horder
    rw [itemsOf_rows, hsold.own, if_neg (Ne.symm (hsold.fresh order horder))]
  have hnone : itemsOf db.orderItems key = [] := by
    rw [itemsOf, List.filter_eq_nil_iff]
    intro row hrow
    obtain ⟨order, horder, hid⟩ := h.parents row hrow
    have hne := hsold.fresh order horder
    simpa [← hid] using hne
  have hnew : itemsOf db'.orderItems key = items.map (orderItemRow (atoi key)) := by
    have hsplit : itemsOf (db.orderItems ++ items.map (orderItemRow (atoi key))) key =
        itemsOf db.orderItems key ++ itemsOf (items.map (orderItemRow (atoi key))) key :=
      List.filter_append ..
    rw [hsold.items, hsplit, hnone, itemsOf_rows, if_pos hsold.own, List.nil_append]
  have hstatus : ¬ "created" = "cancelled" := by decide
  have havailable := hsold.available book
  simp only [MysqlService.covered, held, hsold.orders, heldBy_append, hold, heldBy, hnew, hstatus,
    if_false, orderedAt_priced hsold.priced]
  omega

theorem Stocked.sold {key : ℤ} {userId : Int32} {requests : List OrderItemRequest}
    {items : List OrderItem} {total : Int32} {db db' : Db} (h : Stocked db)
    (hsold : Sold key userId requests items total db db') : Stocked db' where
  keys := by
    intro order horder
    rw [hsold.orders] at horder
    rcases List.mem_append.mp horder with hmem | hmem
    · exact h.keys order hmem
    · rw [List.mem_singleton.mp hmem]
      exact hsold.unsigned
  distinct := by
    rw [hsold.orders, List.map_append, List.nodup_append]
    refine ⟨h.distinct, by simp, ?_⟩
    intro id hid id' hid'
    obtain ⟨order, horder, rfl⟩ := List.mem_map.mp hid
    rw [List.mem_singleton.mp hid']
    exact hsold.fresh order horder
  parents := by
    intro row hrow
    rw [hsold.items] at hrow
    rw [hsold.orders]
    rcases List.mem_append.mp hrow with hmem | hmem
    · obtain ⟨order, horder, hid⟩ := h.parents row hmem
      exact ⟨order, by simp [horder], hid⟩
    · obtain ⟨item, _, rfl⟩ := List.mem_map.mp hmem
      exact ⟨_, List.mem_append_right _ (List.mem_singleton_self _), hsold.own.symm⟩
  items := by
    intro row hrow
    rw [hsold.items] at hrow
    rcases List.mem_append.mp hrow with hmem | hmem
    · exact h.items row hmem
    · obtain ⟨item, hitem, rfl⟩ := List.mem_map.mp hmem
      obtain ⟨mutation, hmutation, hbook⟩ := exists_mutation hsold.priced item hitem
      refine ⟨_, item, rfl, ?_, hsold.priced.positive item hitem⟩
      rw [← hbook]
      exact (hsold.positive mutation hmutation).1
  rows := by
    intro row hrow
    rw [hsold.items] at hrow
    rw [hsold.rows]
    rcases List.mem_append.mp hrow with hmem | hmem
    · exact h.rows row hmem
    · obtain ⟨item, hitem, rfl⟩ := List.mem_map.mp hmem
      obtain ⟨mutation, hmutation, hbook⟩ := exists_mutation hsold.priced item hitem
      have hsome := hsold.stocked mutation hmutation
      rw [hbook] at hsome
      exact hsome
  nonneg := hsold.nonneg
  room := by
    intro book
    have hroom := h.room book
    have hcovered := hsold.covered h book
    unfold MysqlService.covered at hcovered
    omega

/-- The methods on a single item are those of the service. -/
theorem releaseEach_client (items : List InventoryMutation) :
    releaseEach (inventoryService (MysqlInventory.repository.lift MysqlStore.mysqlLens)) items =
      releaseEach inventoryClient items := by
  induction items with
  | nil => rfl
  | cons item rest ih =>
    simp only [releaseEach, ih]
    rfl

theorem reserveEach_client (reserved items : List InventoryMutation) :
    reserveEach (inventoryService (MysqlInventory.repository.lift MysqlStore.mysqlLens)) reserved
      items = reserveEach inventoryClient reserved items := by
  induction items generalizing reserved with
  | nil => rfl
  | cons item rest ih =>
    simp only [reserveEach, ih, releaseEach_client]
    rfl

/-- While no statement fails, create_order changes no table, or sells its items. -/
theorem createOrder_outcome (catalogue : Db → Int32 → Option Book) (userId : Int32)
    (requests : List OrderItemRequest) (s : MysqlStore) (hreliable : s.mysql.Reliable)
    (h : Stocked s.mysql.db) :
    let s' := (((orderService catalogue).createOrder userId requests).run s).2
    s'.mysql.db = s.mysql.db ∨
      ∃ key items total, Sold key userId requests items total s.mysql.db s'.mysql.db := by
  have hcolumn : ∀ book, s.mysql.db.available book ≤ unsignedMax := by
    intro book
    have hroom := h.room book
    have hheld := heldBy_nonneg h.quantity_pos book s.mysql.db.orders
    unfold held at hroom
    omega
  rcases (orderService catalogue).createOrder_cases (orderService_readOnly catalogue) userId
    requests s with hnone | ⟨items, total, _, hne, _, _, hpriced, hrun⟩
  · rw [hnone]
    exact .inl rfl
  · rw [hrun]
    have hdraw : ((orderService catalogue).nextReservationId userId).run s =
        (OrderService.reservationId userId s.nextReservation,
          { s with nextReservation := s.nextReservation + 1 }) := rfl
    obtain ⟨ok, db, c, hreserve, hcases⟩ := run_reserveEach s.mysql.db []
      (requests.map OrderItemRequest.toMutation)
      { s with nextReservation := s.nextReservation + 1 } hreliable (.nil _) hcolumn
    rw [← reserveEach_client] at hreserve
    have hbatch : ((orderService catalogue).inventoryClient.reserveBatch
        (OrderService.reservationId userId s.nextReservation)
        (requests.map OrderItemRequest.toMutation)).run
        { s with nextReservation := s.nextReservation + 1 } = _ := hreserve
    simp only [OrderService.placeOrder, Prog.run_bind, hdraw, hbatch]
    cases ok with
    | false =>
      rw [if_neg Bool.false_ne_true] at hcases
      exact .inl hcases
    | true =>
      rw [if_pos rfl, List.nil_append] at hcases
      obtain ⟨r, db', c', nextKey, hcreate, _, hstored⟩ := createOrder_spec userId items total
        { s.mysql with db := db, clock := c }
      have hinsert : ((orderService catalogue).orderRepository.createOrder userId items total).run
          ⟨{ s.mysql with db := db, clock := c }, s.nextReservation + 1⟩ =
          (r, ⟨{ s.mysql with db := db', clock := c', nextKey := nextKey },
            s.nextReservation + 1⟩) := by
        simp only [orderService, OrderRepository.lift, Prog.run_lift, MysqlStore.mysqlLens,
          MysqlOrders.repository, hcreate]
      simp only [if_true, Prog.run_bind, hinsert]
      rcases hstored with ⟨rfl, rfl⟩ | ⟨rfl, _, hdone⟩
      · obtain ⟨db'', c'', hrelease, hreturned⟩ := run_releaseEach
          (requests.map OrderItemRequest.toMutation)
          ⟨{ s.mysql with db := db', clock := c', nextKey := nextKey }, s.nextReservation + 1⟩
          (fun n _ => hreliable n) hcases.positive
          (fun i hi => by rw [← hcases.returned.rows]; exact hcases.rows i hi)
          (fun book => by rw [← hcases.returned.available]; exact hcolumn book)
        rw [← releaseEach_client] at hrelease
        have hback : ((orderService catalogue).inventoryClient.releaseBatch
            (OrderService.reservationId userId s.nextReservation)
            (requests.map OrderItemRequest.toMutation)).run
            ⟨{ s.mysql with db := db', clock := c', nextKey := nextKey },
              s.nextReservation + 1⟩ = _ := hrelease
        simp only [Prog.run_bind, hback, Prog.run_pure]
        exact .inl (hreturned.unique hcases.returned)
      · right
        have hshop := hcases.returned.shop
        have hfresh : ∀ order ∈ s.mysql.db.orders, order.id ≠ s.mysql.nextKey .orders := by
          intro order horder
          have hkey := @createOrder_fresh userId items total { s.mysql with db := db, clock := c }
            _ (congrArg Prod.fst hcreate)
          exact hkey order (by rw [← hshop.orders]; exact horder)
        have horders : db'.orders = s.mysql.db.orders ++
            [⟨s.mysql.nextKey .orders, userId.toInt, "created", total.toInt⟩] := by
          rw [hshop.orders]
          exact hdone.orders
        have hstock := fun book => hdone.stock.available book
        refine ⟨s.mysql.nextKey .orders, items, total, hfresh, hdone.unsigned, ?_, hpriced,
          hcases.positive, hcases.rows, horders, ?_, ?_, ?_, ?_⟩
        · apply atoi_own hdone.unsigned
          obtain ⟨order, hmem, hid⟩ := hdone.parent hne
          rw [← hid]
          rw [horders] at hmem
          rcases List.mem_append.mp hmem with hold | hnew
          · exact (h.keys order hold).1
          · rw [List.mem_singleton.mp hnew]
            exact hdone.unsigned.1
        · rw [hshop.orderItems]
          exact hdone.rows
        · intro book
          rw [hcases.returned.available book, ← hstock book]
          rfl
        · intro book
          rw [hcases.returned.rows book]
          exact congrArg (fun inventory => (inventory book).isSome) hdone.stock.inventory
        · intro book
          have hnonneg := hcases.nonneg h.nonneg book
          rw [← hstock book] at hnonneg
          exact hnonneg

end Bookstore.MysqlService
