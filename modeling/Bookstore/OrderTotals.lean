import Bookstore.LocalConservation
import Bookstore.MysqlBooks
import Bookstore.MysqlService
import Mathlib.Algebra.Order.BigOperators.Group.List

/-!
The total of an order and the line totals of its rows. The service adds up
products of ints; in the unbounded integers the sum may be larger than an int.
-/
namespace Bookstore.OrderTotals

open Books Database Interleaving LocalCheckouts MachineInt MysqlBooks MysqlInventory MysqlOrders
open Records Repositories Services Transactions

/-- Quantity times unit price, summed in the unbounded integers. -/
def exactTotal (items : List OrderItem) : ℤ :=
  (items.map fun item => item.quantity.toInt * item.unitPriceCents.toInt).sum

/-- What a list of requests costs at the prices of a catalogue. -/
def askedTotal (catalogue : Int32 → Option Book) (requests : List OrderItemRequest) : ℤ :=
  (requests.map fun request => request.quantity.toInt *
    ((catalogue request.bookId).map fun book => book.priceCents.toInt).getD 0).sum

def PricesPositive (catalogue : Int32 → Option Book) : Prop :=
  ∀ id book, catalogue id = some book → 0 < book.priceCents.toInt

/-- The MySQL dependencies of the gateway: the book client reads the tables. -/
def mysqlOrderService : OrderService MysqlStore where
  bookClient := ⟨(localBookClient (mysqlBookRepository.lift MysqlStore.mysqlLens)).findBook⟩
  inventoryClient := MysqlService.inventoryClient
  orderRepository := MysqlOrders.repository.lift MysqlStore.mysqlLens
  nextId := MysqlStore.counterLens

/-- The books that find_book reads from the tables. -/
def tableCatalogue (db : Db) (bookId : Int32) : Option Book :=
  (joined db bookId.toInt).map (bookFromRow bookId.toInt)

/-! ## The loop over the requests -/

section Pricing

variable {σ : Type}

/-- From the states of `good` the client answers out of one catalogue, and does
not leave these states. -/
structure AnswersFrom (client : BookClient σ) (catalogue : Int32 → Option Book)
    (good : σ → Prop) : Prop where
  stays : ∀ id s, good s → good ((client.findBook id).run s).2
  found : ∀ id s book, good s → ((client.findBook id).run s).1 = some book →
    catalogue id = some book

/-- Items at the prices of the catalogue, all of them positive. -/
structure Costed (catalogue : Int32 → Option Book) (requests : List OrderItemRequest)
    (items : List OrderItem) : Prop where
  total : exactTotal items = askedTotal catalogue requests
  positive : ∀ item ∈ items, 0 < item.quantity.toInt ∧ 0 < item.unitPriceCents.toInt
  nonempty : requests ≠ [] → items ≠ []

theorem Costed.nil (catalogue : Int32 → Option Book) : Costed catalogue [] [] where
  total := rfl
  positive := by simp
  nonempty := by simp

theorem Costed.cons {catalogue : Int32 → Option Book} {request : OrderItemRequest}
    {rest : List OrderItemRequest} {items : List OrderItem} {book : Book}
    (hfound : catalogue request.bookId = some book) (hprices : PricesPositive catalogue)
    (hpos : 0 < request.quantity.toInt) (h : Costed catalogue rest items) :
    Costed catalogue (request :: rest)
      (⟨request.bookId, request.quantity, book.priceCents⟩ :: items) where
  total := by
    have htotal := h.total
    unfold exactTotal askedTotal at *
    simp only [List.map_cons, List.sum_cons, hfound, Option.map_some, Option.getD_some, htotal]
  positive := by
    intro item hitem
    rcases List.mem_cons.mp hitem with rfl | hmem
    · exact ⟨hpos, hprices _ _ hfound⟩
    · exact h.positive item hmem
  nonempty := by simp

/-- The loop wraps the sum that it stands for. -/
theorem priceItems_costed {service : OrderService σ} {catalogue : Int32 → Option Book}
    {good : σ → Prop} (hanswers : AnswersFrom service.bookClient catalogue good)
    (hprices : PricesPositive catalogue) (requests : List OrderItemRequest)
    (items : List OrderItem) (total : Int32) (s : σ) (hs : good s) {items' : List OrderItem}
    {total' : Int32} (h : ((service.priceItems items total requests).run s).1 =
      some (items', total')) :
    ∃ new, items' = items ++ new ∧ total' = total + Int32.ofInt (exactTotal new) ∧
      Costed catalogue requests new := by
  induction requests generalizing items total s with
  | nil =>
    simp only [OrderService.priceItems, Prog.run_pure, Option.some.injEq, Prod.mk.injEq] at h
    obtain ⟨rfl, rfl⟩ := h
    exact ⟨[], by simp, by simp [exactTotal], .nil catalogue⟩
  | cons request rest ih =>
    unfold OrderService.priceItems at h
    split at h
    · cases h
    · rename_i hq
      simp only [Prog.run_bind] at h
      cases hbook : ((service.bookClient.findBook request.bookId).run s).1 with
      | none =>
        rw [hbook] at h
        cases h
      | some book =>
        rw [hbook] at h
        obtain ⟨new, rfl, rfl, hcosted⟩ := ih _ _ _ (hanswers.stays _ s hs) h
        have hfound := hanswers.found _ s book hs hbook
        refine ⟨⟨request.bookId, request.quantity, book.priceCents⟩ :: new, by simp, ?_,
          hcosted.cons hfound hprices (toInt_pos_of_not_le hq)⟩
        have hhead : exactTotal (⟨request.bookId, request.quantity, book.priceCents⟩ :: new) =
            request.quantity.toInt * book.priceCents.toInt + exactTotal new := by
          simp [exactTotal]
        rw [hhead, Int32.ofInt_add, Int32.ofInt_mul, Int32.ofInt_toInt, Int32.ofInt_toInt,
          Int32.add_assoc, Int32.mul_comm]

/-- An accepted order is what the order repository returned last. -/
theorem createOrder_stored {service : OrderService σ} {userId : Int32}
    {requests : List OrderItemRequest} {s s' : σ} {order : Order}
    (h : (service.createOrder userId requests).run s = (some order, s')) :
    requests ≠ [] ∧ ∃ items total stocked,
      ((service.priceItems [] 0 requests).run s).1 = some (items, total) ∧
      (service.orderRepository.createOrder userId items total).run stocked = (some order, s') := by
  unfold OrderService.createOrder at h
  split at h
  · cases h
  · rename_i hargs
    rw [not_or] at hargs
    refine ⟨hargs.2, ?_⟩
    simp only [Prog.run_bind] at h
    cases hpriced : ((service.priceItems [] 0 requests).run s).1 with
    | none =>
      rw [hpriced] at h
      cases h
    | some priced =>
      rw [hpriced] at h
      obtain ⟨items, total⟩ := priced
      simp only [OrderService.placeOrder, Prog.run_bind] at h
      split at h
      · simp only [Prog.run_bind] at h
        split at h
        · rename_i stored hstored
          simp only [Prog.run_pure, Prod.mk.injEq] at h
          exact ⟨items, total, _, rfl, Prod.ext (hstored.trans h.1) h.2⟩
        · simp at h
      · cases h

end Pricing

/-! ## Sums that fit -/

section Sums

variable {items : List OrderItem}
  (hpos : ∀ item ∈ items, 0 < item.quantity.toInt ∧ 0 < item.unitPriceCents.toInt)

include hpos

theorem line_pos {item : OrderItem} (hitem : item ∈ items) :
    0 < item.quantity.toInt * item.unitPriceCents.toInt := by
  obtain ⟨hq, hprice⟩ := hpos item hitem
  exact Int.mul_pos hq hprice

theorem line_le_exactTotal {item : OrderItem} (hitem : item ∈ items) :
    item.quantity.toInt * item.unitPriceCents.toInt ≤ exactTotal items := by
  apply List.single_le_sum
  · intro line hline
    obtain ⟨other, hother, rfl⟩ := List.mem_map.mp hline
    exact (line_pos hpos hother).le
  · exact List.mem_map_of_mem hitem

theorem exactTotal_pos (hne : items ≠ []) : 0 < exactTotal items := by
  obtain ⟨item, hitem⟩ := List.exists_mem_of_ne_nil items hne
  have hline := line_pos hpos hitem
  have hsum := line_le_exactTotal hpos hitem
  omega

theorem total_exact_iff (hne : items ≠ []) :
    (Int32.ofInt (exactTotal items)).toInt = exactTotal items ↔ exactTotal items ≤ intMax := by
  have hexact := exactTotal_pos hpos hne
  constructor
  · intro heq
    rw [← heq]
    exact toInt_le_intMax _
  · intro hfits
    exact toCInt_of_fits (by omega) hfits

/-- The product of a row is exact when the total fits. -/
theorem line_exact {item : OrderItem} (hitem : item ∈ items) (hfits : exactTotal items ≤ intMax) :
    (item.quantity * item.unitPriceCents).toInt =
      item.quantity.toInt * item.unitPriceCents.toInt := by
  have hline := line_pos hpos hitem
  have hsum := line_le_exactTotal hpos hitem
  have hproduct : item.quantity * item.unitPriceCents =
      Int32.ofInt (item.quantity.toInt * item.unitPriceCents.toInt) := by
    rw [Int32.ofInt_mul, Int32.ofInt_toInt, Int32.ofInt_toInt]
  rw [hproduct]
  exact toCInt_of_fits (by omega) (by omega)

end Sums

/-! ## The two order repositories -/

/-- The order is in memory with the sum of its items, which is positive. -/
structure ExactInMemory (order : Order) (stored : MemoryOrders) : Prop where
  stored : order ∈ stored.orders
  total : order.totalCents.toInt = exactTotal order.items
  positive : 0 < order.totalCents.toInt

/-- The row of the order has the sum of its items, and so has each of their
rows the product. -/
structure ExactInTables (order : Order) (db : Db) : Prop where
  total : order.totalCents.toInt = exactTotal order.items
  positive : 0 < order.totalCents.toInt
  orderRow : ∃ earlier key, atoi key = order.id ∧
    db.orders = earlier ++ [⟨key, order.userId.toInt, "created", exactTotal order.items⟩]
  itemRows : ∃ earlier, db.orderItems = earlier ++ order.items.map fun item =>
    ⟨order.id.toInt, item.bookId.toInt, item.quantity.toInt, item.unitPriceCents.toInt,
      item.quantity.toInt * item.unitPriceCents.toInt⟩

section Stores

variable {σ : Type} {service : OrderService σ} {catalogue : Int32 → Option Book} {good : σ → Prop}
  (hanswers : AnswersFrom service.bookClient catalogue good) (hprices : PricesPositive catalogue)
  {userId : Int32} {requests : List OrderItemRequest} {s s' : σ} {order : Order} (hs : good s)
  (haccepted : (service.createOrder userId requests).run s = (some order, s'))

include hanswers hprices hs haccepted

theorem accepted_costed : ∃ items stocked, items ≠ [] ∧ Costed catalogue requests items ∧
    (service.orderRepository.createOrder userId items (Int32.ofInt (exactTotal items))).run stocked =
      (some order, s') := by
  obtain ⟨hne, items, total, stocked, hpriced, hstored⟩ := createOrder_stored haccepted
  obtain ⟨new, hnew, htotal, hcosted⟩ :=
    priceItems_costed hanswers hprices requests [] 0 s hs hpriced
  rw [List.nil_append] at hnew
  rw [Int32.zero_add] at htotal
  subst hnew htotal
  exact ⟨items, stocked, hcosted.nonempty hne, hcosted, hstored⟩

theorem memory_exact_iff {orders : Lens σ MemoryOrders}
    (hrepository : service.orderRepository = MemoryOrders.repository.lift orders) :
    ExactInMemory order (orders.get s') ↔ askedTotal catalogue requests ≤ intMax := by
  obtain ⟨items, stocked, hne, hcosted, hrun⟩ := accepted_costed hanswers hprices hs haccepted
  rw [hrepository] at hrun
  simp only [OrderRepository.lift, MemoryOrders.repository, Prog.run_lift, Prog.run_call,
    MemoryOrders.createOrder] at hrun
  split at hrun
  · cases hrun
  · obtain ⟨horder, rfl⟩ := Prod.mk.inj hrun
    obtain rfl := Option.some.inj horder
    rw [← hcosted.total, ← total_exact_iff hcosted.positive hne]
    constructor
    · intro hexact
      exact hexact.total
    · intro htotal
      refine ⟨by simp, htotal, ?_⟩
      change 0 < (Int32.ofInt (exactTotal items)).toInt
      rw [htotal]
      exact exactTotal_pos hcosted.positive hne

theorem tables_exact_iff {tables : Lens σ MySql}
    (hrepository : service.orderRepository = MysqlOrders.repository.lift tables) :
    ExactInTables order (tables.get s').db ↔ askedTotal catalogue requests ≤ intMax := by
  obtain ⟨items, stocked, hne, hcosted, hrun⟩ := accepted_costed hanswers hprices hs haccepted
  rw [hrepository] at hrun
  simp only [OrderRepository.lift, MysqlOrders.repository, Prog.run_lift] at hrun
  obtain ⟨r, db', c, nextKey, hcreate, -, houtcome⟩ :=
    createOrder_spec userId items (Int32.ofInt (exactTotal items)) (tables.get stocked)
  rw [hcreate] at hrun
  obtain ⟨horder, rfl⟩ := Prod.mk.inj hrun
  rcases houtcome with ⟨rfl, -⟩ | ⟨rfl, -, hstored⟩
  · cases horder
  · obtain rfl := Option.some.inj horder
    rw [← hcosted.total]
    constructor
    · intro hexact
      exact (total_exact_iff hcosted.positive hne).mp hexact.total
    · intro hfits
      have htotal := (total_exact_iff hcosted.positive hne).mpr hfits
      refine ⟨htotal, ?_, ?_, ?_⟩
      · change 0 < (Int32.ofInt (exactTotal items)).toInt
        rw [htotal]
        exact exactTotal_pos hcosted.positive hne
      · refine ⟨(tables.get stocked).db.orders, (tables.get stocked).nextKey .orders, rfl, ?_⟩
        rw [Lens.get_set, hstored.orders, htotal]
      · refine ⟨(tables.get stocked).db.orderItems, ?_⟩
        rw [Lens.get_set, hstored.rows]
        congr 1
        apply List.map_congr_left
        intro item hitem
        rw [orderItemRow, line_exact hcosted.positive hitem hfits]

end Stores

/-! ## The dependencies of the gateway -/

theorem memory_answers (s : LocalConservation.LocalStore) :
    AnswersFrom LocalConservation.LocalStore.orderService.bookClient s.books.findBook
      fun t => t = s where
  stays := by
    rintro id t rfl
    rfl
  found := by
    rintro id t book rfl hbook
    exact hbook

theorem tables_answer (s : MysqlStore) :
    AnswersFrom mysqlOrderService.bookClient (tableCatalogue s.mysql.db)
      fun t => t.mysql.db = s.mysql.db := by
  have hrun : ∀ id (t : MysqlStore), ∃ c, (mysqlOrderService.bookClient.findBook id).run t =
      (if id ≤ 0 ∨ t.mysql.faults t.mysql.clock = true then none
        else tableCatalogue t.mysql.db id, { t with mysql := { t.mysql with clock := c } }) := by
    intro id t
    obtain ⟨c, hfind⟩ := run_findBook id t.mysql
    refine ⟨c, ?_⟩
    change ((findBook id).lift MysqlStore.mysqlLens).run t = _
    rw [Prog.run_lift]
    change (((findBook id).run t.mysql).1, MysqlStore.mysqlLens.set ((findBook id).run t.mysql).2 t) = _
    rw [hfind]
    rfl
  constructor
  · intro id t ht
    obtain ⟨c, hfind⟩ := hrun id t
    rw [hfind]
    exact ht
  · intro id t book ht hbook
    obtain ⟨c, hfind⟩ := hrun id t
    rw [hfind] at hbook
    dsimp only at ht hbook
    split at hbook
    · cases hbook
    · rw [← ht]
      exact hbook

/-- With the memory repositories and with the MySQL ones, an accepted order has
exact totals, positive and the same in every place, exactly when what it asks
for costs no more than the largest int. -/
theorem order_totals_exact_iff (userId : Int32) (requests : List OrderItemRequest)
    (order : Order) :
    (∀ s s' : LocalConservation.LocalStore, PricesPositive s.books.findBook →
      (LocalConservation.LocalStore.orderService.createOrder userId requests).run s =
        (some order, s') →
      (ExactInMemory order s'.orders ↔ askedTotal s.books.findBook requests ≤ intMax)) ∧
    ∀ s s' : MysqlStore, PricesPositive (tableCatalogue s.mysql.db) →
      (mysqlOrderService.createOrder userId requests).run s = (some order, s') →
      (ExactInTables order s'.mysql.db ↔
        askedTotal (tableCatalogue s.mysql.db) requests ≤ intMax) := by
  constructor
  · intro s s' hprices haccepted
    exact memory_exact_iff (memory_answers s) hprices rfl haccepted
      (rfl : _ = MemoryOrders.repository.lift LocalConservation.LocalStore.ordersLens)
  · intro s s' hprices haccepted
    exact tables_exact_iff (tables_answer s) hprices rfl haccepted
      (rfl : _ = MysqlOrders.repository.lift MysqlStore.mysqlLens)

/-! ## One book, or two -/

def oneBook (price stock : Int32) : LocalConservation.LocalStore where
  books := ⟨[⟨1, "Dune", "Frank Herbert", price, stock, "active"⟩]⟩
  inventory := ⟨fun book => if book = 1 then some stock else none⟩
  orders := .empty
  nextReservation := 1

def oneBookTables (price stock : ℤ) : MysqlStore where
  mysql := {
    db := {
      users := fun id => id = 1
      books := fun id => if id = 1 then some ⟨"Dune", "Frank Herbert", price, stock, "active"⟩
        else none
      inventory := fun id => if id = 1 then some stock else none
      reservations := fun _ => none
      reservationItems := []
      orders := []
      orderItems := [] }
    nextKey := fun _ => 1
    faults := fun _ => false
    clock := 0 }
  nextReservation := 1

theorem oneBook_prices {price stock : Int32} (h : 0 < price.toInt) :
    PricesPositive (oneBook price stock).books.findBook := by
  intro id book hfound
  have hmem := List.mem_of_find?_eq_some hfound
  rw [List.mem_singleton.mp hmem]
  exact h

theorem oneBookTables_prices {price stock : ℤ} (h : 0 < (atoi price).toInt) :
    PricesPositive (tableCatalogue (oneBookTables price stock).mysql.db) := by
  intro id book hfound
  simp only [tableCatalogue, joined, oneBookTables] at hfound
  by_cases hid : id.toInt = 1
  · simp only [hid, if_true, Option.map_some, Option.some.injEq] at hfound
    rw [← hfound]
    exact h
  · simp [hid] at hfound

/-- A second book at 7.00. -/
def twoBooks : LocalConservation.LocalStore :=
  { oneBook 9800 5 with
    books := ⟨[⟨1, "Dune", "Frank Herbert", 9800, 5, "active"⟩,
      ⟨2, "Emma", "Jane Austen", 700, 8, "active"⟩]⟩
    inventory := ⟨fun book => if book = 1 then some 5 else if book = 2 then some 8 else none⟩ }

def twoBooksTables : MysqlStore where
  mysql := {
    db := {
      users := fun id => id = 1
      books := fun id => if id = 1 then some ⟨"Dune", "Frank Herbert", 9800, 5, "active"⟩
        else if id = 2 then some ⟨"Emma", "Jane Austen", 700, 8, "active"⟩ else none
      inventory := fun id => if id = 1 then some 5 else if id = 2 then some 8 else none
      reservations := fun _ => none
      reservationItems := []
      orders := []
      orderItems := [] }
    nextKey := fun _ => 1
    faults := fun _ => false
    clock := 0 }
  nextReservation := 1

theorem twoBooks_prices : PricesPositive twoBooks.books.findBook := by
  intro id book hfound
  have hmem := List.mem_of_find?_eq_some hfound
  rcases List.mem_cons.mp hmem with rfl | hmem
  · decide
  · rw [List.mem_singleton.mp hmem]
    decide

theorem twoBooksTables_prices : PricesPositive (tableCatalogue twoBooksTables.mysql.db) := by
  intro id book hfound
  simp only [tableCatalogue, joined, twoBooksTables] at hfound
  by_cases hone : id.toInt = 1
  · simp only [hone, if_true, Option.map_some, Option.some.injEq] at hfound
    rw [← hfound]
    decide
  · by_cases htwo : id.toInt = 2
    · have hne : ¬ (2 : ℤ) = 1 := by decide
      simp only [htwo, hne, if_false, if_true, Option.map_some, Option.some.injEq] at hfound
      rw [← hfound]
      decide
    · simp [hone, htwo] at hfound

/-- Two copies at 98.00 each and three at 7.00. -/
theorem order_totals_exact_small :
    ExactInMemory ⟨1, 1, [⟨1, 2, 9800⟩, ⟨2, 3, 700⟩], 21700, "created"⟩
      ((LocalConservation.LocalStore.orderService.createOrder 1 [⟨1, 2⟩, ⟨2, 3⟩]).run
        twoBooks).2.orders ∧
    ExactInTables ⟨1, 1, [⟨1, 2, 9800⟩, ⟨2, 3, 700⟩], 21700, "created"⟩
      ((mysqlOrderService.createOrder 1 [⟨1, 2⟩, ⟨2, 3⟩]).run twoBooksTables).2.mysql.db := by
  obtain ⟨hmemory, htables⟩ := order_totals_exact_iff 1 [⟨1, 2⟩, ⟨2, 3⟩]
    ⟨1, 1, [⟨1, 2, 9800⟩, ⟨2, 3, 700⟩], 21700, "created"⟩
  have haccepted : ((LocalConservation.LocalStore.orderService.createOrder 1
      [⟨1, 2⟩, ⟨2, 3⟩]).run twoBooks).1 =
        some ⟨1, 1, [⟨1, 2, 9800⟩, ⟨2, 3, 700⟩], 21700, "created"⟩ := by decide +kernel
  have hstored : ((mysqlOrderService.createOrder 1 [⟨1, 2⟩, ⟨2, 3⟩]).run twoBooksTables).1 =
      some ⟨1, 1, [⟨1, 2, 9800⟩, ⟨2, 3, 700⟩], 21700, "created"⟩ := by decide +kernel
  constructor
  · exact (hmemory twoBooks _ twoBooks_prices (Prod.ext haccepted rfl)).mpr (by decide +kernel)
  · exact (htables twoBooksTables _ twoBooksTables_prices (Prod.ext hstored rfl)).mpr
      (by decide +kernel)

/-- Three copies of the most expensive book cost more than an int holds; the
sum that wraps is positive again, and both repositories store it. -/
theorem total_wraps :
    PricesPositive (oneBook 2147483647 5).books.findBook ∧
    PricesPositive (tableCatalogue (oneBookTables 2147483647 5).mysql.db) ∧
    ((LocalConservation.LocalStore.orderService.createOrder 1 [⟨1, 3⟩]).run
        (oneBook 2147483647 5)).1 =
      some ⟨1, 1, [⟨1, 3, 2147483647⟩], 2147483645, "created"⟩ ∧
    ((mysqlOrderService.createOrder 1 [⟨1, 3⟩]).run (oneBookTables 2147483647 5)).1 =
      some ⟨1, 1, [⟨1, 3, 2147483647⟩], 2147483645, "created"⟩ ∧
    exactTotal [⟨1, 3, 2147483647⟩] = 6442450941 :=
  ⟨oneBook_prices (by decide), oneBookTables_prices (by decide), by decide,
    by decide, by decide⟩

end Bookstore.OrderTotals
