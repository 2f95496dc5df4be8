import Bookstore.InventoryRpc

/-!
The order RPC service and its client, next to the client that calls the
service in its own process. Requests are checked and narrowed by the server;
the client keeps nothing of a status but its OK bit.
-/
namespace Bookstore.OrderRpc

open Interleaving InventoryRpc MachineInt Records Repositories Services

variable {σ : Type}

inductive OrderStatus
  | unspecified
  | created
  | cancelled
deriving DecidableEq, Repr

structure ItemRequestMessage where
  bookId : Int64
  quantity : Int32

structure ItemMessage where
  bookId : Int64
  quantity : Int32
  unitPriceCents : Int64

structure OrderMessage where
  orderId : Int64
  userId : Int64
  items : List ItemMessage
  totalCents : Int64
  status : OrderStatus

structure CreateOrderRequest where
  userId : Int64
  items : List ItemRequestMessage

/-- The four methods of the service, as the server implements them and as a
stub offers them. -/
structure OrderStub (σ : Type) where
  createOrder : CreateOrderRequest → Prog σ (Rpc OrderMessage)
  listOrders : Prog σ (Rpc (List OrderMessage))
  getOrder : Int64 → Prog σ (Rpc OrderMessage)
  cancelOrder : Int64 → Prog σ (Rpc OrderMessage)

/-- OrderClient. -/
structure OrderClient (σ : Type) where
  createOrder : Int32 → List OrderItemRequest → Prog σ (Option Order)
  listOrders : Prog σ (List Order)
  findOrder : Int32 → Prog σ (Option Order)
  cancelOrder : Int32 → Prog σ (Option Order)

/-! ## OrderGrpcServiceImpl -/

def statusToProto (status : String) : OrderStatus :=
  if status = "cancelled" then .cancelled
  else if status = "created" then .created
  else .unspecified

def fillItem (item : OrderItem) : ItemMessage :=
  ⟨item.bookId.toInt64, item.quantity, item.unitPriceCents.toInt64⟩

def fillOrder (order : Order) : OrderMessage where
  orderId := order.id.toInt64
  userId := order.userId.toInt64
  items := order.items.map fillItem
  totalCents := order.totalCents.toInt64
  status := statusToProto order.status

section Server

variable (service : OrderService σ)

/-- The loop that checks and narrows the items of a request. -/
def collectItems : List ItemRequestMessage → Rpc (List OrderItemRequest)
  | [] => .ok []
  | item :: rest =>
    if item.bookId ≤ 0 ∨ item.quantity ≤ 0 then
      .error ⟨.invalidArgument, "invalid order item"⟩
    else (collectItems rest).map (⟨item.bookId.toInt32, item.quantity⟩ :: ·)

/-- The order in a response, or the given status where there is none. -/
def respond (status : Status) : Option Order → Rpc OrderMessage
  | none => .error status
  | some order => .ok (fillOrder order)

def createOrder (request : CreateOrderRequest) : Prog σ (Rpc OrderMessage) :=
  if request.userId ≤ 0 ∨ request.items.isEmpty then
    pure (.error ⟨.invalidArgument, "invalid order request"⟩)
  else
    match collectItems request.items with
    | .error status => pure (.error status)
    | .ok items => do
      let order ← service.createOrder request.userId.toInt32 items
      pure (respond ⟨.failedPrecondition, "order rejected"⟩ order)

def listOrders : Prog σ (Rpc (List OrderMessage)) := do
  let orders ← service.listOrders
  pure (.ok (orders.map fillOrder))

def getOrder (orderId : Int64) : Prog σ (Rpc OrderMessage) :=
  if orderId ≤ 0 then pure (.error ⟨.invalidArgument, "invalid order id"⟩)
  else do
    let order ← service.findOrder orderId.toInt32
    pure (respond ⟨.notFound, "order not found"⟩ order)

def cancelOrder (orderId : Int64) : Prog σ (Rpc OrderMessage) :=
  if orderId ≤ 0 then pure (.error ⟨.invalidArgument, "invalid order id"⟩)
  else do
    let order ← service.cancelOrder orderId.toInt32
    pure (respond ⟨.notFound, "order not found"⟩ order)

def orderServer : OrderStub σ where
  createOrder := createOrder service
  listOrders := listOrders service
  getOrder := getOrder service
  cancelOrder := cancelOrder service

end Server

/-! ## The two clients -/

def itemFromProto (item : ItemMessage) : OrderItem :=
  ⟨item.bookId.toInt32, item.quantity, item.unitPriceCents.toInt32⟩

def orderFromProto (message : OrderMessage) : Order where
  id := message.orderId.toInt32
  userId := message.userId.toInt32
  items := message.items.map itemFromProto
  totalCents := message.totalCents.toInt32
  status := if message.status = .cancelled then "cancelled" else "created"

def requestMessage (item : OrderItemRequest) : ItemRequestMessage :=
  ⟨item.bookId.toInt64, item.quantity⟩

/-- The order in a response, none when the status is not OK. -/
def orderOf : Rpc OrderMessage → Option Order
  | .ok message => some (orderFromProto message)
  | .error _ => none

def ordersOf : Rpc (List OrderMessage) → List Order
  | .ok messages => messages.map orderFromProto
  | .error _ => []

def grpcOrderClient (stub : OrderStub σ) : OrderClient σ where
  createOrder userId items := do
    let response ← stub.createOrder ⟨userId.toInt64, items.map requestMessage⟩
    pure (orderOf response)
  listOrders := do
    let response ← stub.listOrders
    pure (ordersOf response)
  findOrder orderId := do
    let response ← stub.getOrder orderId.toInt64
    pure (orderOf response)
  cancelOrder orderId := do
    let response ← stub.cancelOrder orderId.toInt64
    pure (orderOf response)

def localOrderClient (service : OrderService σ) : OrderClient σ where
  createOrder := service.createOrder
  listOrders := service.listOrders
  findOrder := service.findOrder
  cancelOrder := service.cancelOrder

/-! ## Messages -/

/-- A status that a message can carry. -/
def Listed (order : Order) : Prop := order.status = "created" ∨ order.status = "cancelled"

theorem itemFromProto_fill (item : OrderItem) : itemFromProto (fillItem item) = item := by
  simp only [itemFromProto, fillItem, Int32.toInt32_toInt64]

/-- An order of a listed status comes through as it is. -/
theorem orderFromProto_fill {order : Order} (h : Listed order) :
    orderFromProto (fillOrder order) = order := by
  have hitems : (order.items.map fillItem).map itemFromProto = order.items := by
    rw [List.map_map]
    refine (List.map_congr_left fun item _ => ?_).trans (List.map_id' order.items)
    exact itemFromProto_fill item
  have hstatus : (if statusToProto order.status = .cancelled then "cancelled" else "created") =
      order.status := by
    rcases h with h | h <;> rw [h] <;> decide
  cases order
  simp only [orderFromProto, fillOrder, Int32.toInt32_toInt64, Order.mk.injEq, true_and] at *
  exact ⟨hitems, hstatus⟩

/-- Positive items arrive as they were sent; the loop stops at any other. -/
theorem collectItems_requestMessage (items : List OrderItemRequest) :
    (∃ status, collectItems (items.map requestMessage) = .error status ∧
      ∃ item ∈ items, item.bookId ≤ 0 ∨ item.quantity ≤ 0) ∨
    collectItems (items.map requestMessage) = .ok items := by
  induction items with
  | nil => exact .inr rfl
  | cons item rest ih =>
    simp only [List.map_cons, collectItems, requestMessage, toInt64_le_zero_iff]
    by_cases hguard : item.bookId ≤ 0 ∨ item.quantity ≤ 0
    · exact .inl ⟨_, if_pos hguard, item, by simp, hguard⟩
    · rw [if_neg hguard]
      rcases ih with ⟨status, hcollect, bad, hbad, hitem⟩ | hcollect
      · exact .inl ⟨status, by rw [hcollect]; rfl, bad, by simp [hbad], hitem⟩
      · refine .inr ?_
        rw [hcollect]
        simp only [Except.map, Int32.toInt32_toInt64]

/-! ## The stores behind the two clients -/

/-- The book and order repositories in memory, any inventory, and the counter of
next_reservation_id. It is unbounded here and wraps after 2^64 orders in the source, on
both paths alike. -/
structure OrderStores (ι : Type) where
  books : MemoryBooks
  inventory : ι
  orders : MemoryOrders
  nextReservation : ℕ

variable {ι : Type}

namespace OrderStores

def inventoryLens : Lens (OrderStores ι) ι where
  get := inventory
  set t s := { s with inventory := t }
  get_set _ _ := rfl
  set_get _ := rfl
  set_set _ _ _ := rfl

def ordersLens : Lens (OrderStores ι) MemoryOrders where
  get := orders
  set t s := { s with orders := t }
  get_set _ _ := rfl
  set_get _ := rfl
  set_set _ _ _ := rfl

def counterLens : Lens (OrderStores ι) ℕ where
  get := nextReservation
  set t s := { s with nextReservation := t }
  get_set _ _ := rfl
  set_get _ := rfl
  set_set _ _ _ := rfl

end OrderStores

/-- The service over the memory repositories and any inventory client. -/
def orderService (client : InventoryClient ι) : OrderService (OrderStores ι) where
  bookClient := ⟨fun bookId => .read fun s => s.books.findBook bookId⟩
  inventoryClient := client.lift OrderStores.inventoryLens
  orderRepository := MemoryOrders.repository.lift OrderStores.ordersLens
  nextId := OrderStores.counterLens

/-- Positive book ids, and orders as the repository writes them. -/
structure Sound (s : OrderStores ι) : Prop where
  positive : ∀ book ∈ s.books.books, 0 < book.id.toInt
  listed : ∀ order ∈ s.orders.orders, Listed order

/-- A call leaves the stores sound and answers with listed orders. -/
structure Keeps (r : Option Order × OrderStores ι) : Prop where
  sound : Sound r.2
  listed : ∀ order, r.1 = some order → Listed order

theorem orderService_readOnly (client : InventoryClient ι) :
    OrderService.ReadOnly (orderService client).bookClient := fun _ _ => rfl

theorem listed_markCancelled (orderId : Int32) (orders : List Order)
    (h : ∀ order ∈ orders, Listed order) :
    ∀ order ∈ MemoryOrders.markCancelled orderId orders, Listed order := by
  induction orders with
  | nil => exact h
  | cons first rest ih =>
    have hrest : ∀ order ∈ rest, Listed order := fun order ho => h order (by simp [ho])
    unfold MemoryOrders.markCancelled
    split
    · intro order ho
      rcases List.mem_cons.mp ho with rfl | hmem
      · exact .inr rfl
      · exact hrest order hmem
    · intro order ho
      rcases List.mem_cons.mp ho with rfl | hmem
      · exact h order (by simp)
      · exact ih hrest order hmem

theorem Sound.found {s : OrderStores ι} (h : Sound s) {orderId : Int32} {order : Order}
    (hfind : s.orders.findOrder orderId = some order) : Listed order :=
  h.listed order (List.mem_of_find?_eq_some hfind)

theorem createOrder_keeps (client : InventoryClient ι) {s : OrderStores ι} (h : Sound s)
    (userId : Int32) (requests : List OrderItemRequest) :
    Keeps (((orderService client).createOrder userId requests).run s) := by
  by_cases hprice : (orderService client).Priceable userId requests s
  · obtain ⟨items, total, _, hrun⟩ := (orderService client).createOrder_placed
      (orderService_readOnly client) hprice
    rw [hrun]
    simp only [OrderService.placeOrder, OrderService.nextReservationId, orderService,
      InventoryRepository.lift, OrderRepository.lift, Prog.run_bind, Prog.run_call, Prog.run_lift,
      OrderStores.counterLens, OrderStores.inventoryLens, OrderStores.ordersLens]
    split
    · simp only [Prog.run_bind, Prog.run_lift, MemoryOrders.repository, Prog.run_call,
        MemoryOrders.createOrder]
      by_cases hargs : userId ≤ 0 ∨ items = []
      · simp only [hargs, if_true, Prog.run_bind, Prog.run_lift, Prog.run_pure]
        exact ⟨⟨h.positive, h.listed⟩, by simp⟩
      · simp only [hargs, if_false, Prog.run_pure]
        refine ⟨⟨h.positive, ?_⟩, ?_⟩
        · intro order horder
          rcases List.mem_append.mp horder with hmem | hmem
          · exact h.listed order hmem
          · rw [List.mem_singleton.mp hmem]
            exact .inl rfl
        · intro order horder
          rw [← Option.some.inj horder]
          exact .inl rfl
    · exact ⟨⟨h.positive, h.listed⟩, by simp⟩
  · rw [(orderService client).createOrder_refused (orderService_readOnly client) hprice]
    exact ⟨h, by simp⟩

/-- The releases of a cancellation touch nothing but the inventory. -/
theorem run_releaseItems (client : InventoryClient ι) (items : List OrderItem)
    (s : OrderStores ι) :
    ∃ inventory, ((orderService client).releaseItems items).run s =
      ((), { s with inventory := inventory }) := by
  induction items generalizing s with
  | nil => exact ⟨s.inventory, rfl⟩
  | cons item rest ih =>
    obtain ⟨inventory, hrest⟩ := ih { s with
      inventory := ((client.releaseStock item.bookId item.quantity).run s.inventory).2 }
    have hrelease : ((orderService client).inventoryClient.releaseStock item.bookId
        item.quantity).run s = ((), { s with
          inventory := ((client.releaseStock item.bookId item.quantity).run s.inventory).2 }) := by
      simp only [orderService, InventoryRepository.lift, Prog.run_lift, OrderStores.inventoryLens]
    refine ⟨inventory, ?_⟩
    simp only [OrderService.releaseItems, Prog.run_bind, hrelease]
    exact hrest

theorem cancelOrder_keeps (client : InventoryClient ι) {s : OrderStores ι} (h : Sound s)
    (orderId : Int32) : Keeps (((orderService client).cancelOrder orderId).run s) := by
  unfold OrderService.cancelOrder
  split
  · exact ⟨h, by simp⟩
  · have hfind : ((orderService client).orderRepository.findOrder orderId).run s =
        (s.orders.findOrder orderId, s) := rfl
    simp only [Prog.run_bind, hfind]
    cases hexisting : s.orders.findOrder orderId with
    | none => exact ⟨h, by simp⟩
    | some existing =>
      dsimp only
      split
      · refine ⟨h, ?_⟩
        intro order horder
        rw [← Option.some.inj horder]
        exact h.found hexisting
      · have hmarked := listed_markCancelled orderId s.orders.orders h.listed
        have hcancel : ((orderService client).orderRepository.cancelOrder orderId).run s =
            ((MemoryOrders.cancelOrder orderId s.orders).1,
              { s with orders := (MemoryOrders.cancelOrder orderId s.orders).2 }) := rfl
        simp only [OrderService.cancelFound, Prog.run_bind, hcancel]
        cases hresult : (MemoryOrders.cancelOrder orderId s.orders).1 with
        | none => exact ⟨⟨h.positive, hmarked⟩, by simp⟩
        | some cancelled =>
          obtain ⟨inventory, hrelease⟩ := run_releaseItems client cancelled.items
            { s with orders := (MemoryOrders.cancelOrder orderId s.orders).2 }
          simp only [Prog.run_bind, hrelease, Prog.run_pure]
          refine ⟨⟨h.positive, hmarked⟩, ?_⟩
          intro order horder
          rw [← Option.some.inj horder]
          exact hmarked cancelled (List.mem_of_find?_eq_some hresult)

/-! ## Runs -/

inductive Call
  | createOrder (userId : Int32) (items : List OrderItemRequest)
  | listOrders
  | findOrder (orderId : Int32)
  | cancelOrder (orderId : Int32)

inductive Reply
  | order (order : Option Order)
  | orders (orders : List Order)
deriving DecidableEq

def perform (client : OrderClient σ) : Call → Prog σ Reply
  | .createOrder userId items => do
    let order ← client.createOrder userId items
    pure (.order order)
  | .listOrders => do
    let orders ← client.listOrders
    pure (.orders orders)
  | .findOrder orderId => do
    let order ← client.findOrder orderId
    pure (.order order)
  | .cancelOrder orderId => do
    let order ← client.cancelOrder orderId
    pure (.order order)

/-- A sequence of calls; the replies come in the order of the calls. -/
def performAll (client : OrderClient σ) : List Call → Prog σ (List Reply)
  | [] => pure []
  | call :: rest => do
    let reply ← perform client call
    let replies ← performAll client rest
    pure (reply :: replies)

/-- A listed answer of the service comes through the response unchanged. -/
theorem orderOf_respond (status : Status) {r : Option Order}
    (h : ∀ order, r = some order → Listed order) : orderOf (respond status r) = r := by
  cases r with
  | none => rfl
  | some order => exact congrArg some (orderFromProto_fill (h order rfl))

section Calls

variable (client : InventoryClient ι)

theorem grpc_createOrder {s : OrderStores ι} (h : Sound s) (userId : Int32)
    (items : List OrderItemRequest) :
    ((grpcOrderClient (orderServer (orderService client))).createOrder userId items).run s =
      ((orderService client).createOrder userId items).run s := by
  simp only [grpcOrderClient, orderServer, createOrder, toInt64_le_zero_iff, List.isEmpty_map,
    Int32.toInt32_toInt64]
  by_cases hargs : userId ≤ 0 ∨ items.isEmpty
  · have hlocal : userId ≤ 0 ∨ items = [] := by simpa using hargs
    simp only [hargs, if_true, OrderService.createOrder, hlocal]
    rfl
  · simp only [hargs, if_false]
    rcases collectItems_requestMessage items with ⟨status, hcollect, bad, hbad, hguard⟩ | hcollect
    · have hrefused : ¬ (orderService client).Priceable userId items s := by
        intro hprice
        obtain ⟨hq, hfound⟩ := hprice.2.2 bad hbad
        have hbook : (s.books.findBook bad.bookId).isSome := hfound
        obtain ⟨book, hfind⟩ := Option.isSome_iff_exists.mp hbook
        have hpos := h.positive book (List.mem_of_find?_eq_some hfind)
        have hid := List.find?_some hfind
        rw [decide_eq_true_eq] at hid
        rw [hid] at hpos
        rw [Int32.le_iff_toInt_le, Int32.le_iff_toInt_le, Int32.toInt_zero] at hguard
        omega
      rw [(orderService client).createOrder_refused (orderService_readOnly client) hrefused,
        hcollect]
      rfl
    · rw [hcollect]
      simp only [Prog.run_bind, Prog.run_pure,
        orderOf_respond _ (createOrder_keeps client h userId items).listed]

theorem grpc_listOrders {s : OrderStores ι} (h : Sound s) :
    (grpcOrderClient (orderServer (orderService client))).listOrders.run s =
      (orderService client).listOrders.run s := by
  have hlist : (orderService client).listOrders.run s = (s.orders.orders, s) := rfl
  simp only [grpcOrderClient, orderServer, listOrders, Prog.run_bind, hlist, Prog.run_pure,
    ordersOf, List.map_map]
  refine Prod.ext ((List.map_congr_left fun order horder => ?_).trans (List.map_id' _)) rfl
  exact orderFromProto_fill (h.listed order horder)

theorem grpc_findOrder {s : OrderStores ι} (h : Sound s) (orderId : Int32) :
    ((grpcOrderClient (orderServer (orderService client))).findOrder orderId).run s =
      ((orderService client).findOrder orderId).run s := by
  simp only [grpcOrderClient, orderServer, getOrder, toInt64_le_zero_iff, Int32.toInt32_toInt64]
  by_cases hid : orderId ≤ 0
  · simp only [hid, if_true, OrderService.findOrder]
    rfl
  · have hfind : ((orderService client).findOrder orderId).run s =
        (s.orders.findOrder orderId, s) := by
      rw [OrderService.findOrder, if_neg hid]
      rfl
    simp only [hid, if_false, Prog.run_bind, Prog.run_pure, hfind,
      orderOf_respond _ fun _ hfound => h.found hfound]

theorem grpc_cancelOrder {s : OrderStores ι} (h : Sound s) (orderId : Int32) :
    ((grpcOrderClient (orderServer (orderService client))).cancelOrder orderId).run s =
      ((orderService client).cancelOrder orderId).run s := by
  simp only [grpcOrderClient, orderServer, cancelOrder, toInt64_le_zero_iff, Int32.toInt32_toInt64]
  by_cases hid : orderId ≤ 0
  · simp only [hid, if_true, OrderService.cancelOrder]
    rfl
  · simp only [hid, if_false, Prog.run_bind, Prog.run_pure,
      orderOf_respond _ (cancelOrder_keeps client h orderId).listed]

/-- One call has the same reply and the same effect through either client. -/
theorem perform_eq {s : OrderStores ι} (h : Sound s) (call : Call) :
    (perform (grpcOrderClient (orderServer (orderService client))) call).run s =
      (perform (localOrderClient (orderService client)) call).run s := by
  cases call with
  | createOrder userId items =>
    simp only [perform, localOrderClient, Prog.run_bind, grpc_createOrder client h]
  | listOrders => simp only [perform, localOrderClient, Prog.run_bind, grpc_listOrders client h]
  | findOrder orderId =>
    simp only [perform, localOrderClient, Prog.run_bind, grpc_findOrder client h]
  | cancelOrder orderId =>
    simp only [perform, localOrderClient, Prog.run_bind, grpc_cancelOrder client h]

theorem perform_sound {s : OrderStores ι} (h : Sound s) (call : Call) :
    Sound ((perform (localOrderClient (orderService client)) call).run s).2 := by
  cases call with
  | createOrder userId items =>
    simp only [perform, localOrderClient, Prog.run_bind, Prog.run_pure]
    exact (createOrder_keeps client h userId items).sound
  | listOrders => exact h
  | findOrder orderId =>
    have hsame : (((orderService client).findOrder orderId).run s).2 = s := by
      unfold OrderService.findOrder
      split <;> rfl
    simp only [perform, localOrderClient, Prog.run_bind, Prog.run_pure, hsame]
    exact h
  | cancelOrder orderId =>
    simp only [perform, localOrderClient, Prog.run_bind, Prog.run_pure]
    exact (cancelOrder_keeps client h orderId).sound

/-- Over a catalogue of positive ids and the same stores the two clients give
the same replies, call by call, and leave the same stores. -/
theorem order_clients_interchangeable {s : OrderStores ι} (h : Sound s) (calls : List Call) :
    (performAll (grpcOrderClient (orderServer (orderService client))) calls).run s =
      (performAll (localOrderClient (orderService client)) calls).run s := by
  induction calls generalizing s with
  | nil => rfl
  | cons call rest ih =>
    have hrest := ih (perform_sound client h call)
    simp only [performAll, Prog.run_bind, perform_eq client h call, hrest]

end Calls

/-! ## A sequence of calls over a small shop -/

def smallStores : OrderStores MemoryInventory where
  books := ⟨[⟨1, "C++ Primer", "Stanley Lippman", 9800, 12, "active"⟩]⟩
  inventory := ⟨fun book => if book = 1 then some 12 else none⟩
  orders := .empty
  nextReservation := 1

theorem sound_smallStores : Sound smallStores where
  positive := by
    intro book hbook
    rw [List.mem_singleton.mp hbook]
    decide
  listed := by simp [smallStores, MemoryOrders.empty]

/-- An order, a request refused for its second item, a cancellation and a list. -/
theorem order_clients_interchangeable_small :
    (performAll (grpcOrderClient (orderServer (orderService
        (localInventoryClient MemoryInventory.repository))))
        [.createOrder 9 [⟨1, 2⟩], .createOrder 9 [⟨1, 1⟩, ⟨0, 1⟩], .cancelOrder 1, .listOrders]).run
          smallStores =
      (performAll (localOrderClient (orderService
        (localInventoryClient MemoryInventory.repository)))
        [.createOrder 9 [⟨1, 2⟩], .createOrder 9 [⟨1, 1⟩, ⟨0, 1⟩], .cancelOrder 1, .listOrders]).run
          smallStores ∧
      ((performAll (localOrderClient (orderService
        (localInventoryClient MemoryInventory.repository)))
        [.createOrder 9 [⟨1, 2⟩], .createOrder 9 [⟨1, 1⟩, ⟨0, 1⟩], .cancelOrder 1, .listOrders]).run
          smallStores).1 =
        [.order (some ⟨1, 9, [⟨1, 2, 9800⟩], 19600, "created"⟩), .order none,
          .order (some ⟨1, 9, [⟨1, 2, 9800⟩], 19600, "cancelled"⟩),
          .orders [⟨1, 9, [⟨1, 2, 9800⟩], 19600, "cancelled"⟩]] :=
  ⟨order_clients_interchangeable _ sound_smallStores _, by decide +kernel⟩

end Bookstore.OrderRpc
