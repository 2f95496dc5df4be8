import Bookstore.AccessLog
import Bookstore.BookRpc
import Bookstore.LocalConservation
import Bookstore.OrderRpc

/-!
The 64-bit ids of the RPC requests. Nine handlers check that an id is positive
and narrow it to int before a service sees it. The calls that reach the
repositories and clients are logged, and a request acts on what it names when
every logged id is one of its ids as an integer. For an id past the largest
int this fails, unless something refuses the request first.
-/
namespace Bookstore.WideIds

open AccessLog Books Interleaving InventoryRpc MachineInt Records Repositories Services

variable {σ : Type}

/-! ## Requests and backends -/

/-- What the three services work on. -/
structure Backends (σ : Type) where
  inventory : InventoryRepository σ
  books : BookRepository σ
  orders : OrderService σ

inductive IdRequest
  | getInventory (bookId : Int64)
  | inboundInventory (request : InboundInventoryRequest)
  | reserveInventory (request : ReservationRequest)
  | releaseInventory (request : ReservationRequest)
  | getBook (bookId : Int64)
  | updateBook (request : BookRpc.UpdateBookRequest)
  | createOrder (request : OrderRpc.CreateOrderRequest)
  | getOrder (orderId : Int64)
  | cancelOrder (orderId : Int64)

/-- The status of a response, without what the response carries. -/
def outcome {α : Type} (p : Prog σ (Rpc α)) : Prog σ (Rpc Unit) := do
  let response ← p
  pure (response.map fun _ => ())

def handle (b : Backends σ) : IdRequest → Prog σ (Rpc Unit)
  | .getInventory bookId => outcome (getInventory b.inventory bookId)
  | .inboundInventory request => outcome (inboundInventory b.inventory request)
  | .reserveInventory request => outcome (reserveInventory b.inventory request)
  | .releaseInventory request => outcome (releaseInventory b.inventory request)
  | .getBook bookId => outcome (BookRpc.getBook (bookService b.books) bookId)
  | .updateBook request => outcome (BookRpc.updateBook (bookService b.books) request)
  | .createOrder request => outcome (OrderRpc.createOrder b.orders request)
  | .getOrder orderId => outcome (OrderRpc.getOrder b.orders orderId)
  | .cancelOrder orderId => outcome (OrderRpc.cancelOrder b.orders orderId)

/-! ## The calls that reach a backend -/

/-- The ids in a call; a batch names its books in order, and a new order the
user that it is for. -/
inductive Access
  | stock (bookId : Int32)
  | batch (bookIds : List Int32)
  | book (bookId : Int32)
  | order (orderId : Int32)
  | user (userId : Int32)
deriving DecidableEq

def watchInventory (r : InventoryRepository σ) : InventoryRepository (σ × List Access) where
  availableStock book := watch [.stock book] (r.availableStock book)
  addStock book quantity := watch [.stock book] (r.addStock book quantity)
  reserveStock book quantity := watch [.stock book] (r.reserveStock book quantity)
  releaseStock book quantity := watch [.stock book] (r.releaseStock book quantity)
  reserveBatch id items :=
    watch [.batch (items.map InventoryMutation.bookId)] (r.reserveBatch id items)
  releaseBatch id items :=
    watch [.batch (items.map InventoryMutation.bookId)] (r.releaseBatch id items)

def watchBooks (r : BookRepository σ) : BookRepository (σ × List Access) where
  listBooks := watch [] r.listBooks
  findBook id := watch [.book id] (r.findBook id)
  createBook book := watch [] (r.createBook book)
  updateBook id update := watch [.book id] (r.updateBook id update)

def watchOrders (r : OrderRepository σ) : OrderRepository (σ × List Access) where
  createOrder user items total := watch [.user user] (r.createOrder user items total)
  listOrders := watch [] r.listOrders
  findOrder id := watch [.order id] (r.findOrder id)
  cancelOrder id := watch [.order id] (r.cancelOrder id)

def watchService (service : OrderService σ) : OrderService (σ × List Access) where
  bookClient := ⟨fun id => watch [.book id] (service.bookClient.findBook id)⟩
  inventoryClient := watchInventory service.inventoryClient
  orderRepository := watchOrders service.orderRepository
  nextId := component service.nextId

def Backends.watched (b : Backends σ) : Backends (σ × List Access) where
  inventory := watchInventory b.inventory
  books := watchBooks b.books
  orders := watchService b.orders

/-! ## What a request may touch -/

/-- A record of a kind that the request has an id for is one that it names.
The books whose copies a cancelled order gives back are named by the order. -/
def Names : IdRequest → Access → Prop
  | .getInventory bookId, .stock id => id.toInt = bookId.toInt
  | .inboundInventory request, .stock id => id.toInt = request.bookId.toInt
  | .reserveInventory request, .stock id => id.toInt ∈ request.items.map (·.bookId.toInt)
  | .reserveInventory request, .batch ids =>
    ids.map Int32.toInt = request.items.map (·.bookId.toInt)
  | .releaseInventory request, .stock id => id.toInt ∈ request.items.map (·.bookId.toInt)
  | .releaseInventory request, .batch ids =>
    ids.map Int32.toInt = request.items.map (·.bookId.toInt)
  | .getBook bookId, .book id => id.toInt = bookId.toInt
  | .updateBook request, .book id => id.toInt = request.bookId.toInt
  | .createOrder request, .book id => id.toInt ∈ request.items.map (·.bookId.toInt)
  | .createOrder request, .batch ids =>
    ids.map Int32.toInt = request.items.map (·.bookId.toInt)
  | .createOrder request, .user id => id.toInt = request.userId.toInt
  | .getOrder orderId, .order id => id.toInt = orderId.toInt
  | .cancelOrder orderId, .order id => id.toInt = orderId.toInt
  | _, _ => True

/-- The request is rejected and the state is as before, or every call that was
made on its behalf is about the records it names. -/
def ActsOnNamed (b : Backends σ) (s : σ) (request : IdRequest) : Prop :=
  (∃ status, (handle b request).run s = (.error status, s)) ∨
    ∀ access ∈ ((handle b.watched request).run (s, [])).2.2, Names request access

/-- The id is one that an int can have, or not positive. -/
def Fits (id : Int64) : Prop := id.toInt ≤ intMax

/-- The ids of a request fit, or the request is refused before they are used. -/
def NarrowsSafely : IdRequest → Prop
  | .getInventory bookId => Fits bookId
  | .inboundInventory request =>
    Fits request.bookId ∨ request.quantity ≤ 0 ∨ request.bookId.toInt32 ≤ 0
  | .reserveInventory request | .releaseInventory request =>
    request.reservationId = "" ∨ (∃ item ∈ request.items, item.bookId ≤ 0 ∨ item.quantity ≤ 0) ∨
      ∀ item ∈ request.items, Fits item.bookId
  | .getBook bookId => Fits bookId
  | .updateBook request =>
    Fits request.bookId ∨ request.bookId.toInt32 ≤ 0 ∨ ¬ (BookRpc.updateOf request.book).Sound
  | .createOrder request =>
    request.userId ≤ 0 ∨ request.userId.toInt32 ≤ 0 ∨ request.items = [] ∨
      (∃ item ∈ request.items, item.bookId ≤ 0 ∨ item.quantity ≤ 0) ∨
      Fits request.userId ∧ ∀ item ∈ request.items, Fits item.bookId
  | .getOrder orderId => Fits orderId ∨ orderId.toInt32 ≤ 0
  | .cancelOrder orderId => Fits orderId ∨ orderId.toInt32 ≤ 0

/-! ## Narrowing -/

theorem pos_of_not_le {id : Int64} (h : ¬ id ≤ 0) : 0 < id.toInt := by
  rw [Int64.le_iff_toInt_le, Int64.toInt_zero] at h
  omega

/-- A positive id that fits keeps its value. -/
theorem toInt_toInt32_of_fits {id : Int64} (hpos : ¬ id ≤ 0) (hfits : Fits id) :
    id.toInt32.toInt = id.toInt := by
  have hlow := pos_of_not_le hpos
  unfold Fits intMax at hfits
  rw [Int64.toInt_toInt32, Int.bmod_eq_of_le] <;> omega

/-- An id that does not fit becomes another one. -/
theorem toInt_toInt32_ne {id : Int64} (hfits : ¬ Fits id) : id.toInt32.toInt ≠ id.toInt := by
  have hmax := toInt_le_intMax id.toInt32
  unfold Fits at hfits
  omega

theorem map_narrowed (items : List Int64) (hpos : ∀ id ∈ items, ¬ id ≤ 0) :
    (items.map Int64.toInt32).map Int32.toInt = items.map Int64.toInt ↔
      ∀ id ∈ items, Fits id := by
  rw [List.map_map, List.map_inj_left]
  constructor
  · intro h id hid
    by_contra hfits
    exact toInt_toInt32_ne hfits (h id hid)
  · intro h id hid
    exact toInt_toInt32_of_fits (hpos id hid) (h id hid)

/-! ## What the handlers log -/

section Watched

variable {A : Access → Prop}

theorem watches_outcome {α : Type} {p : Prog σ (Rpc α)} {q : Prog (σ × List Access) (Rpc α)}
    (h : Watches A p q) : Watches A (outcome p) (outcome q) :=
  h.bind fun _ => .pure _

section Inventory

variable (r : InventoryRepository σ)

theorem watches_appendCurrentItem {id : Int32} (h : A (.stock id)) :
    Watches A (appendCurrentItem r id) (appendCurrentItem (watchInventory r) id) := by
  refine (Watches.of_watch _ _ (by simpa using h)).bind fun stock => ?_
  cases stock <;> exact .pure _

theorem watches_appendCurrentItems (items : List MutationMessage)
    (h : ∀ item ∈ items, A (.stock item.bookId.toInt32)) :
    Watches A (appendCurrentItems r items) (appendCurrentItems (watchInventory r) items) := by
  induction items with
  | nil => exact .pure _
  | cons item rest ih =>
    obtain ⟨hitem, hrest⟩ := List.forall_mem_cons.mp h
    refine (watches_appendCurrentItem r hitem).bind fun current => ?_
    cases current with
    | error status => exact .pure _
    | ok current =>
      refine (ih hrest).bind fun currents => ?_
      cases currents <;> exact .pure _

theorem watches_getInventory {id : Int64} (h : ¬ id ≤ 0 → A (.stock id.toInt32)) :
    Watches A (getInventory r id) (getInventory (watchInventory r) id) := by
  unfold getInventory
  split
  · exact .pure _
  · rename_i hpos
    exact watches_appendCurrentItem r (h hpos)

theorem watches_inboundInventory {request : InboundInventoryRequest}
    (h : ¬ request.bookId ≤ 0 → ¬ request.quantity ≤ 0 → ¬ request.bookId.toInt32 ≤ 0 →
      A (.stock request.bookId.toInt32)) :
    Watches A (inboundInventory r request) (inboundInventory (watchInventory r) request) := by
  unfold inboundInventory
  split
  · exact .pure _
  · rename_i hargs
    refine Watches.bind ?_ fun stock => ?_
    · simp only [inventoryService]
      split
      · exact .pure _
      · rename_i hservice
        rw [not_or] at hargs hservice
        exact .of_watch _ _ (by simpa using h hargs.1 hargs.2 hservice.1)
    · cases stock <;> exact .pure _

/-- The items of a request that was not refused are its ids, narrowed. -/
theorem collect_ok {messages : List MutationMessage} {items : List InventoryMutation}
    (h : collect messages = .ok items) :
    (∀ message ∈ messages, ¬ message.bookId ≤ 0 ∧ ¬ message.quantity ≤ 0) ∧
      items.map InventoryMutation.bookId = (messages.map (·.bookId)).map Int64.toInt32 := by
  induction messages generalizing items with
  | nil =>
    cases h
    simp
  | cons message rest ih =>
    simp only [collect] at h
    split at h
    · cases h
    · rename_i hmessage
      cases hrest : collect rest with
      | error status =>
        rw [hrest] at h
        cases h
      | ok others =>
        rw [hrest] at h
        cases h
        obtain ⟨hothers, hids⟩ := ih hrest
        rw [not_or] at hmessage
        refine ⟨List.forall_mem_cons.mpr ⟨hmessage, hothers⟩, ?_⟩
        simp only [List.map_cons, hids]

theorem checkReservation_ok {request : ReservationRequest} {items : List InventoryMutation}
    (h : checkReservation request = .ok items) :
    request.items ≠ [] ∧ request.reservationId ≠ "" ∧ collect request.items = .ok items := by
  unfold checkReservation at h
  split at h
  · cases h
  · split at h
    · cases h
    · rename_i hitems hid
      refine ⟨?_, ?_, h⟩
      · simpa using hitems
      · simpa using hid

theorem watches_reserveInventory {request : ReservationRequest}
    (h : ∀ items, checkReservation request = .ok items →
      A (.batch (items.map InventoryMutation.bookId)) ∧
        ∀ item ∈ request.items, A (.stock item.bookId.toInt32)) :
    Watches A (reserveInventory r request) (reserveInventory (watchInventory r) request) := by
  unfold reserveInventory
  split
  · exact .pure _
  · rename_i items hitems
    obtain ⟨hbatch, hstock⟩ := h items hitems
    refine (Watches.of_watch _ _ (by simpa using hbatch)).bind fun reserved => ?_
    split
    · exact watches_appendCurrentItems r request.items hstock
    · exact .pure _

theorem watches_releaseInventory {request : ReservationRequest}
    (h : ∀ items, checkReservation request = .ok items →
      A (.batch (items.map InventoryMutation.bookId)) ∧
        ∀ item ∈ request.items, A (.stock item.bookId.toInt32)) :
    Watches A (releaseInventory r request) (releaseInventory (watchInventory r) request) := by
  unfold releaseInventory
  split
  · exact .pure _
  · rename_i items hitems
    obtain ⟨hbatch, hstock⟩ := h items hitems
    refine (Watches.of_watch _ _ (by simpa using hbatch)).bind fun _ => ?_
    exact watches_appendCurrentItems r request.items hstock

end Inventory

theorem watches_getBook (r : BookRepository σ) {id : Int64}
    (h : ¬ id ≤ 0 → A (.book id.toInt32)) :
    Watches A (BookRpc.getBook (bookService r) id) (BookRpc.getBook (bookService (watchBooks r)) id)
    := by
  unfold BookRpc.getBook
  split
  · exact .pure _
  · rename_i hpos
    exact (Watches.of_watch _ _ (by simpa using h hpos)).bind fun _ => .pure _

theorem watches_updateBook (r : BookRepository σ) {request : BookRpc.UpdateBookRequest}
    (h : ¬ request.bookId ≤ 0 → ¬ request.bookId.toInt32 ≤ 0 →
      (BookRpc.updateOf request.book).Sound → A (.book request.bookId.toInt32)) :
    Watches A (BookRpc.updateBook (bookService r) request)
      (BookRpc.updateBook (bookService (watchBooks r)) request) := by
  unfold BookRpc.updateBook
  split
  · exact .pure _
  · rename_i hpos
    refine Watches.bind ?_ fun _ => .pure _
    simp only [bookService, Books.updateBook]
    split
    · exact .pure _
    · rename_i hnarrowed
      split
      · exact .pure _
      · rename_i hsound
        split
        · exact .pure _
        · exact .of_watch _ _ (by simpa using h hpos hnarrowed (not_not.mp hsound))

section Orders

variable (service : OrderService σ)

theorem watches_priceItems (requests : List OrderItemRequest) (items : List OrderItem)
    (total : Int32) (h : ∀ request ∈ requests, A (.book request.bookId)) :
    Watches A (service.priceItems items total requests)
      ((watchService service).priceItems items total requests) := by
  induction requests generalizing items total with
  | nil => exact .pure _
  | cons request rest ih =>
    obtain ⟨hrequest, hrest⟩ := List.forall_mem_cons.mp h
    unfold OrderService.priceItems
    split
    · exact .pure _
    · refine (Watches.of_watch _ _ (by simpa using hrequest)).bind fun book => ?_
      cases book with
      | none => exact .pure _
      | some book => exact ih _ _ hrest

theorem watches_placeOrder {userId : Int32} {requests : List OrderItemRequest}
    (items : List OrderItem) (total : Int32) (hbatch : A (.batch (requests.map (·.bookId))))
    (huser : A (.user userId)) :
    Watches A (service.placeOrder userId requests items total)
      ((watchService service).placeOrder userId requests items total) := by
  have hbooks : A (.batch ((requests.map OrderItemRequest.toMutation).map
      InventoryMutation.bookId)) := by
    rw [List.map_map]
    exact hbatch
  refine Watches.bind (Watches.component service.nextId fun n =>
    (OrderService.reservationId userId n, n + 1)) fun reservation => ?_
  refine (Watches.of_watch _ _ (by simpa using hbooks)).bind fun reserved => ?_
  split
  · refine (Watches.of_watch _ _ (by simpa using huser)).bind fun order => ?_
    cases order with
    | none => exact (Watches.of_watch _ _ (by simpa using hbooks)).bind fun _ => .pure _
    | some order => exact .pure _
  · exact .pure _

theorem watches_createOrder {userId : Int32} {requests : List OrderItemRequest}
    (h : ¬ userId ≤ 0 → (∀ request ∈ requests, A (.book request.bookId)) ∧
      A (.batch (requests.map (·.bookId))) ∧ A (.user userId)) :
    Watches A (service.createOrder userId requests)
      ((watchService service).createOrder userId requests) := by
  unfold OrderService.createOrder
  split
  · exact .pure _
  · rename_i hargs
    obtain ⟨hbooks, hbatch, huser⟩ := h (not_or.mp hargs).1
    refine (watches_priceItems service requests [] 0 hbooks).bind fun priced => ?_
    rcases priced with _ | ⟨items, total⟩
    · exact .pure _
    · exact watches_placeOrder service items total hbatch huser

theorem watches_findOrder {id : Int32} (h : ¬ id ≤ 0 → A (.order id)) :
    Watches A (service.findOrder id) ((watchService service).findOrder id) := by
  unfold OrderService.findOrder
  split
  · exact .pure _
  · rename_i hpos
    exact .of_watch _ _ (by simpa using h hpos)

theorem watches_releaseItems (items : List OrderItem) (h : ∀ id, A (.stock id)) :
    Watches A (service.releaseItems items) ((watchService service).releaseItems items) := by
  induction items with
  | nil => exact .pure _
  | cons item rest ih =>
    exact (Watches.of_watch _ _ (by simpa using h item.bookId)).bind fun _ => ih

theorem watches_cancelOrder {id : Int32} (h : ¬ id ≤ 0 → A (.order id))
    (hstock : ∀ id, A (.stock id)) :
    Watches A (service.cancelOrder id) ((watchService service).cancelOrder id) := by
  unfold OrderService.cancelOrder
  split
  · exact .pure _
  · rename_i hpos
    refine (Watches.of_watch _ _ (by simpa using h hpos)).bind fun found => ?_
    cases found with
    | none => exact .pure _
    | some existing =>
      dsimp only
      split
      · exact .pure _
      · refine (Watches.of_watch _ _ (by simpa using h hpos)).bind fun cancelled => ?_
        cases cancelled with
        | none => exact .pure _
        | some cancelled =>
          exact (watches_releaseItems service cancelled.items hstock).bind fun _ => .pure _

/-- The items of an order that was not refused are its ids, narrowed. -/
theorem collectItems_ok {messages : List OrderRpc.ItemRequestMessage}
    {items : List OrderItemRequest} (h : OrderRpc.collectItems messages = .ok items) :
    (∀ message ∈ messages, ¬ message.bookId ≤ 0 ∧ ¬ message.quantity ≤ 0) ∧
      items.map OrderItemRequest.bookId = (messages.map (·.bookId)).map Int64.toInt32 ∧
      items.map OrderItemRequest.quantity = messages.map (·.quantity) := by
  induction messages generalizing items with
  | nil =>
    cases h
    simp
  | cons message rest ih =>
    simp only [OrderRpc.collectItems] at h
    split at h
    · cases h
    · rename_i hmessage
      cases hrest : OrderRpc.collectItems rest with
      | error status =>
        rw [hrest] at h
        cases h
      | ok others =>
        rw [hrest] at h
        cases h
        obtain ⟨hothers, hids, hquantities⟩ := ih hrest
        rw [not_or] at hmessage
        refine ⟨List.forall_mem_cons.mpr ⟨hmessage, hothers⟩, ?_, ?_⟩
        · simp only [List.map_cons, hids]
        · simp only [List.map_cons, hquantities]

theorem watches_createOrderHandler {request : OrderRpc.CreateOrderRequest}
    (h : ∀ items, ¬ request.userId ≤ 0 → request.items ≠ [] →
      OrderRpc.collectItems request.items = .ok items → ¬ request.userId.toInt32 ≤ 0 →
        (∀ item ∈ items, A (.book item.bookId)) ∧ A (.batch (items.map (·.bookId))) ∧
          A (.user request.userId.toInt32)) :
    Watches A (OrderRpc.createOrder service request)
      (OrderRpc.createOrder (watchService service) request) := by
  unfold OrderRpc.createOrder
  split
  · exact .pure _
  · rename_i hargs
    rw [not_or] at hargs
    split
    · exact .pure _
    · rename_i items hitems
      have hne : request.items ≠ [] := by simpa using hargs.2
      exact (watches_createOrder service (h items hargs.1 hne hitems)).bind fun _ => .pure _

end Orders

/-- The accesses that the handler of a request can make meet `A`. -/
def Noted (A : Access → Prop) : IdRequest → Prop
  | .getInventory bookId => ¬ bookId ≤ 0 → A (.stock bookId.toInt32)
  | .inboundInventory request => ¬ request.bookId ≤ 0 → ¬ request.quantity ≤ 0 →
    ¬ request.bookId.toInt32 ≤ 0 → A (.stock request.bookId.toInt32)
  | .reserveInventory request | .releaseInventory request =>
    ∀ items, checkReservation request = .ok items →
      A (.batch (items.map InventoryMutation.bookId)) ∧
        ∀ item ∈ request.items, A (.stock item.bookId.toInt32)
  | .getBook bookId => ¬ bookId ≤ 0 → A (.book bookId.toInt32)
  | .updateBook request => ¬ request.bookId ≤ 0 → ¬ request.bookId.toInt32 ≤ 0 →
    (BookRpc.updateOf request.book).Sound → A (.book request.bookId.toInt32)
  | .createOrder request => ∀ items, ¬ request.userId ≤ 0 → request.items ≠ [] →
    OrderRpc.collectItems request.items = .ok items → ¬ request.userId.toInt32 ≤ 0 →
      (∀ item ∈ items, A (.book item.bookId)) ∧ A (.batch (items.map (·.bookId))) ∧
        A (.user request.userId.toInt32)
  | .getOrder orderId => ¬ orderId ≤ 0 → ¬ orderId.toInt32 ≤ 0 → A (.order orderId.toInt32)
  | .cancelOrder orderId => (¬ orderId ≤ 0 → ¬ orderId.toInt32 ≤ 0 → A (.order orderId.toInt32)) ∧
    ∀ id, A (.stock id)

theorem watches_handle (b : Backends σ) (request : IdRequest) (h : Noted A request) :
    Watches A (handle b request) (handle b.watched request) := by
  cases request with
  | getInventory bookId => exact watches_outcome (watches_getInventory b.inventory h)
  | inboundInventory request => exact watches_outcome (watches_inboundInventory b.inventory h)
  | reserveInventory request => exact watches_outcome (watches_reserveInventory b.inventory h)
  | releaseInventory request => exact watches_outcome (watches_releaseInventory b.inventory h)
  | getBook bookId => exact watches_outcome (watches_getBook b.books h)
  | updateBook request => exact watches_outcome (watches_updateBook b.books h)
  | createOrder request => exact watches_outcome (watches_createOrderHandler b.orders h)
  | getOrder orderId =>
    refine watches_outcome ?_
    unfold OrderRpc.getOrder
    split
    · exact .pure _
    · rename_i hpos
      exact (watches_findOrder b.orders (h hpos)).bind fun _ => .pure _
  | cancelOrder orderId =>
    refine watches_outcome ?_
    unfold OrderRpc.cancelOrder
    split
    · exact .pure _
    · rename_i hpos
      exact (watches_cancelOrder b.orders (h.1 hpos) h.2).bind fun _ => .pure _

end Watched

/-- Watching the backends changes no response and no state. -/
theorem handle_watched (b : Backends σ) (request : IdRequest) (s : σ) (log : List Access) :
    ∃ new, (handle b.watched request).run (s, log) =
      (((handle b request).run s).1, ((handle b request).run s).2, log ++ new) := by
  have hnoted : Noted (fun _ => True) request := by
    cases request <;> simp [Noted]
  obtain ⟨new, hrun, _⟩ := watches_handle b request hnoted s log
  exact ⟨new, hrun⟩

/-! ## Ids that fit -/

theorem names_batch (messages : List Int64) {ids : List Int32}
    (hpos : ∀ id ∈ messages, ¬ id ≤ 0) (hfits : ∀ id ∈ messages, Fits id)
    (hids : ids = messages.map Int64.toInt32) :
    ids.map Int32.toInt = messages.map Int64.toInt := by
  rw [hids]
  exact (map_narrowed messages hpos).mpr hfits

theorem noted_reservation {request : ReservationRequest}
    (h : request.reservationId = "" ∨
      (∃ item ∈ request.items, item.bookId ≤ 0 ∨ item.quantity ≤ 0) ∨
      ∀ item ∈ request.items, Fits item.bookId)
    (items : List InventoryMutation) (hitems : checkReservation request = .ok items) :
    (items.map InventoryMutation.bookId).map Int32.toInt = request.items.map (·.bookId.toInt) ∧
      ∀ item ∈ request.items,
        item.bookId.toInt32.toInt ∈ request.items.map (·.bookId.toInt) := by
  obtain ⟨_, hid, hcollect⟩ := checkReservation_ok hitems
  obtain ⟨hpassed, hnarrowed⟩ := collect_ok hcollect
  have hfits : ∀ item ∈ request.items, Fits item.bookId := by
    rcases h with hempty | ⟨item, hitem, hbad⟩ | hfits
    · exact absurd hempty hid
    · obtain ⟨hpos, hquantity⟩ := hpassed item hitem
      exact absurd hbad (not_or.mpr ⟨hpos, hquantity⟩)
    · exact hfits
  constructor
  · have hbatch := names_batch (request.items.map (·.bookId))
      (by simpa using fun item hitem => (hpassed item hitem).1) (by simpa using hfits) hnarrowed
    rw [hbatch, List.map_map]
    rfl
  · intro item hitem
    rw [toInt_toInt32_of_fits (hpassed item hitem).1 (hfits item hitem)]
    exact List.mem_map.mpr ⟨item, hitem, rfl⟩

theorem noted_createOrder {request : OrderRpc.CreateOrderRequest}
    (h : NarrowsSafely (.createOrder request)) : Noted (Names (.createOrder request))
      (.createOrder request) := by
  intro items huser hne hitems hnarrowedUser
  obtain ⟨hpassed, hids, _⟩ := collectItems_ok hitems
  rcases h with hbad | hbad | hbad | ⟨item, hitem, hbad⟩ | ⟨huserFits, hfits⟩
  · exact absurd hbad huser
  · exact absurd hbad hnarrowedUser
  · exact absurd hbad hne
  · obtain ⟨hpos, hquantity⟩ := hpassed item hitem
    exact absurd hbad (not_or.mpr ⟨hpos, hquantity⟩)
  · refine ⟨?_, ?_, toInt_toInt32_of_fits huser huserFits⟩
    · intro item hitem
      have hmem : item.bookId ∈ (request.items.map (·.bookId)).map Int64.toInt32 := by
        rw [← hids]
        exact List.mem_map.mpr ⟨item, hitem, rfl⟩
      rw [List.map_map] at hmem
      obtain ⟨message, hmessage, hsame⟩ := List.mem_map.mp hmem
      rw [← hsame]
      show message.bookId.toInt32.toInt ∈ request.items.map (·.bookId.toInt)
      rw [toInt_toInt32_of_fits (hpassed message hmessage).1 (hfits message hmessage)]
      exact List.mem_map.mpr ⟨message, hmessage, rfl⟩
    · have hbatch := names_batch (request.items.map (·.bookId))
        (by simpa using fun item hitem => (hpassed item hitem).1) (by simpa using hfits) hids
      rw [Names, hbatch, List.map_map]
      rfl

theorem noted_names {request : IdRequest} (h : NarrowsSafely request) :
    Noted (Names request) request := by
  cases request with
  | getInventory bookId => exact fun hpos => toInt_toInt32_of_fits hpos h
  | inboundInventory request =>
    intro hpos hquantity hnarrowed
    rcases h with hfits | hbad | hbad
    · exact toInt_toInt32_of_fits hpos hfits
    · exact absurd hbad hquantity
    · exact absurd hbad hnarrowed
  | reserveInventory request => exact noted_reservation h
  | releaseInventory request => exact noted_reservation h
  | getBook bookId => exact fun hpos => toInt_toInt32_of_fits hpos h
  | updateBook request =>
    intro hpos hnarrowed hsound
    rcases h with hfits | hbad | hbad
    · exact toInt_toInt32_of_fits hpos hfits
    · exact absurd hbad hnarrowed
    · exact absurd hsound hbad
  | createOrder request => exact noted_createOrder h
  | getOrder orderId =>
    intro hpos hnarrowed
    rcases h with hfits | hbad
    · exact toInt_toInt32_of_fits hpos hfits
    · exact absurd hbad hnarrowed
  | cancelOrder orderId =>
    refine ⟨?_, fun _ => trivial⟩
    intro hpos hnarrowed
    rcases h with hfits | hbad
    · exact toInt_toInt32_of_fits hpos hfits
    · exact absurd hbad hnarrowed

theorem acts_of_safe (b : Backends σ) (s : σ) {request : IdRequest}
    (h : NarrowsSafely request) : ActsOnNamed b s request := by
  right
  obtain ⟨new, hrun, hnew⟩ := watches_handle b request (noted_names h) s []
  rw [hrun]
  exact hnew

/-! ## Ids that do not fit -/

def obligingBook (id : Int32) : Book := ⟨id, "title", "author", 1, 1, "active"⟩

def obligingOrder (id user : Int32) : Order := ⟨id, user, [], 1, "created"⟩

/-- Backends that have every record and refuse nothing. Memory repositories with the ids in
their lists would do as well, but not for a batch that asks for more copies of a book than
an int can count: no stock of theirs covers it. -/
def obliging : Backends ℕ where
  inventory := {
    availableStock := fun _ => pure (some 1)
    addStock := fun _ _ => pure (some 1)
    reserveStock := fun _ _ => pure true
    releaseStock := fun _ _ => pure ()
    reserveBatch := fun _ _ => pure true
    releaseBatch := fun _ _ => pure () }
  books := {
    listBooks := pure []
    findBook := fun id => pure (some (obligingBook id))
    createBook := fun book => pure (some book)
    updateBook := fun id _ => pure (some (obligingBook id)) }
  orders := {
    bookClient := ⟨fun id => pure (some (obligingBook id))⟩
    inventoryClient := {
      availableStock := fun _ => pure (some 1)
      addStock := fun _ _ => pure (some 1)
      reserveStock := fun _ _ => pure true
      releaseStock := fun _ _ => pure ()
      reserveBatch := fun _ _ => pure true
      releaseBatch := fun _ _ => pure () }
    orderRepository := {
      createOrder := fun user _ _ => pure (some (obligingOrder 1 user))
      listOrders := pure []
      findOrder := fun id => pure (some (obligingOrder id 1))
      cancelOrder := fun id => pure (some (obligingOrder id 1)) }
    nextId := ⟨id, fun t _ => t, fun _ _ => rfl, fun _ => rfl, fun _ _ _ => rfl⟩ }

/-- A response that is OK, and an access to a record that was not named. -/
def Strays (request : IdRequest) : Prop :=
  ((handle obliging request).run 0).1 = .ok () ∧
    ∃ access ∈ ((handle obliging.watched request).run (0, [])).2.2, ¬ Names request access

theorem Strays.not_acts {request : IdRequest} (h : Strays request) :
    ¬ ActsOnNamed obliging 0 request := by
  obtain ⟨hok, access, haccess, hnamed⟩ := h
  rintro (⟨status, hrejected⟩ | hall)
  · rw [hrejected] at hok
    cases hok
  · exact hnamed (hall access haccess)

theorem not_le_zero_of_not_fits {id : Int64} (h : ¬ Fits id) : ¬ id ≤ 0 := by
  rw [Int64.le_iff_toInt_le, Int64.toInt_zero]
  unfold Fits intMax at h
  omega

/-- The log of a watched handler that goes on after an access. -/
theorem mem_log {α : Type} {A : Access → Prop} {p : Prog σ α} {q : Prog (σ × List Access) α}
    (h : Watches A p q) {access : Access} {s : σ} {log : List Access} (hmem : access ∈ log) :
    access ∈ (q.run (s, log)).2.2 := by
  obtain ⟨new, hrun, _⟩ := h s log
  rw [hrun]
  exact List.mem_append_left new hmem

theorem oblige_appendCurrentItems (items : List MutationMessage) (s : ℕ) :
    ∃ currents, (appendCurrentItems obliging.inventory items).run s = (.ok currents, s) := by
  induction items with
  | nil => exact ⟨[], rfl⟩
  | cons item rest ih =>
    obtain ⟨currents, hrest⟩ := ih
    refine ⟨⟨item.bookId.toInt32.toInt64, 1⟩ :: currents, ?_⟩
    have hitem : (appendCurrentItem obliging.inventory item.bookId.toInt32).run s =
        (.ok ⟨item.bookId.toInt32.toInt64, 1⟩, s) := rfl
    simp only [appendCurrentItems, Prog.run_bind, hitem, hrest, Prog.run_pure]

theorem watches_obliging (items : List MutationMessage) :
    Watches (fun _ => True) (appendCurrentItems obliging.inventory items)
      (appendCurrentItems obliging.watched.inventory items) :=
  watches_appendCurrentItems obliging.inventory items fun _ _ => trivial

/-- A request without a bad item passes the checks of the server. -/
theorem collect_passes (messages : List MutationMessage)
    (h : ∀ message ∈ messages, ¬ (message.bookId ≤ 0 ∨ message.quantity ≤ 0)) :
    ∃ items, collect messages = .ok items := by
  induction messages with
  | nil => exact ⟨[], rfl⟩
  | cons message rest ih =>
    obtain ⟨hmessage, hrest⟩ := List.forall_mem_cons.mp h
    obtain ⟨items, hitems⟩ := ih hrest
    refine ⟨⟨message.bookId.toInt32, message.quantity⟩ :: items, ?_⟩
    simp only [collect, hmessage, if_false, hitems, Except.map]

theorem checkReservation_passes {request : ReservationRequest}
    (hid : request.reservationId ≠ "")
    (hitems : ∀ item ∈ request.items, ¬ (item.bookId ≤ 0 ∨ item.quantity ≤ 0))
    (hne : request.items ≠ []) : ∃ items, checkReservation request = .ok items := by
  obtain ⟨items, hcollect⟩ := collect_passes request.items hitems
  refine ⟨items, ?_⟩
  unfold checkReservation
  rw [if_neg (by simpa using hne), if_neg (by simpa using hid)]
  exact hcollect

/-- The batch of a request with an id that does not fit names another book. -/
theorem batch_strays {request : ReservationRequest} {items : List InventoryMutation}
    (hitems : checkReservation request = .ok items)
    (hfits : ¬ ∀ item ∈ request.items, Fits item.bookId) :
    (items.map InventoryMutation.bookId).map Int32.toInt ≠
      request.items.map (·.bookId.toInt) := by
  obtain ⟨_, _, hcollect⟩ := checkReservation_ok hitems
  obtain ⟨hpassed, hnarrowed⟩ := collect_ok hcollect
  intro hsame
  apply hfits
  have hmap := (map_narrowed (request.items.map (·.bookId))
    (by simpa using fun item hitem => (hpassed item hitem).1)).mp
    (by rw [← hnarrowed, hsame, List.map_map]; rfl)
  simpa using hmap

/-- Such a request is not refused. -/
theorem exists_stray_batch {request : ReservationRequest}
    (h : ¬ NarrowsSafely (.reserveInventory request)) :
    ∃ items, checkReservation request = .ok items ∧
      (items.map InventoryMutation.bookId).map Int32.toInt ≠
        request.items.map (·.bookId.toInt) := by
  simp only [NarrowsSafely, not_or, not_exists, not_and] at h
  obtain ⟨hid, hgood, hfits⟩ := h
  have hne : request.items ≠ [] := fun hnil => hfits (by simp [hnil])
  obtain ⟨items, hitems⟩ := checkReservation_passes hid
    (fun item hitem => not_or.mpr (hgood item hitem)) hne
  exact ⟨items, hitems, batch_strays hitems hfits⟩

theorem strays_reserveInventory {request : ReservationRequest}
    (h : ¬ NarrowsSafely (.reserveInventory request)) : Strays (.reserveInventory request) := by
  obtain ⟨items, hitems, hstrays⟩ := exists_stray_batch h
  refine ⟨?_, .batch (items.map InventoryMutation.bookId), ?_, hstrays⟩
  · obtain ⟨currents, hcurrents⟩ := oblige_appendCurrentItems request.items 0
    have hreserve : ((inventoryService obliging.inventory).reserveBatch request.reservationId
        items).run 0 = (true, 0) := rfl
    simp only [handle, outcome, reserveInventory, hitems, Prog.run_bind, hreserve, if_true,
      hcurrents, Prog.run_pure, Except.map]
  · have hreserve : ((inventoryService obliging.watched.inventory).reserveBatch
        request.reservationId items).run (0, []) =
          (true, 0, [.batch (items.map InventoryMutation.bookId)]) := rfl
    simp only [handle, outcome, reserveInventory, hitems, Prog.run_bind, hreserve, if_true,
      Prog.run_pure]
    exact mem_log (watches_obliging request.items) (List.mem_singleton.mpr rfl)

theorem strays_releaseInventory {request : ReservationRequest}
    (h : ¬ NarrowsSafely (.releaseInventory request)) : Strays (.releaseInventory request) := by
  obtain ⟨items, hitems, hstrays⟩ := exists_stray_batch h
  refine ⟨?_, .batch (items.map InventoryMutation.bookId), ?_, hstrays⟩
  · obtain ⟨currents, hcurrents⟩ := oblige_appendCurrentItems request.items 0
    have hrelease : ((inventoryService obliging.inventory).releaseBatch request.reservationId
        items).run 0 = ((), 0) := rfl
    simp only [handle, outcome, releaseInventory, hitems, Prog.run_bind, hrelease,
      hcurrents, Prog.run_pure, Except.map]
  · have hrelease : ((inventoryService obliging.watched.inventory).releaseBatch
        request.reservationId items).run (0, []) =
          ((), 0, [.batch (items.map InventoryMutation.bookId)]) := rfl
    simp only [handle, outcome, releaseInventory, hitems, Prog.run_bind, hrelease, Prog.run_pure]
    exact mem_log (watches_obliging request.items) (List.mem_singleton.mpr rfl)

theorem strays_getInventory {bookId : Int64} (h : ¬ Fits bookId) :
    Strays (.getInventory bookId) := by
  have hpos := not_le_zero_of_not_fits h
  refine ⟨?_, .stock bookId.toInt32, ?_, toInt_toInt32_ne h⟩
  · simp [handle, outcome, getInventory, hpos, appendCurrentItem, inventoryService, obliging,
      Except.map]
  · simp [handle, outcome, getInventory, hpos, appendCurrentItem, inventoryService, obliging,
      Backends.watched, watchInventory]

theorem strays_inboundInventory {request : InboundInventoryRequest}
    (h : ¬ NarrowsSafely (.inboundInventory request)) : Strays (.inboundInventory request) := by
  simp only [NarrowsSafely, not_or] at h
  obtain ⟨hfits, hquantity, hnarrowed⟩ := h
  have hpos := not_le_zero_of_not_fits hfits
  refine ⟨?_, .stock request.bookId.toInt32, ?_, toInt_toInt32_ne hfits⟩
  · simp [handle, outcome, inboundInventory, hpos, hquantity, hnarrowed, inventoryService, obliging,
      Except.map]
  · simp [handle, outcome, inboundInventory, hpos, hquantity, hnarrowed, inventoryService, obliging,
      Backends.watched, watchInventory]

theorem strays_getBook {bookId : Int64} (h : ¬ Fits bookId) : Strays (.getBook bookId) := by
  have hpos := not_le_zero_of_not_fits h
  refine ⟨?_, .book bookId.toInt32, ?_, toInt_toInt32_ne h⟩
  · simp [handle, outcome, BookRpc.getBook, hpos, bookService, obliging, BookRpc.respond, Except.map]
  · simp [handle, outcome, BookRpc.getBook, hpos, bookService, obliging, Backends.watched, watchBooks]

/-- The status of a message is one that the service accepts. -/
theorem listed_statusFromProto (status : BookRpc.BookStatus) :
    Listed (BookRpc.statusFromProto status) := by
  cases status <;> decide

/-- A sound message for a positive id reaches the repository. -/
theorem bookService_updateBook (r : BookRepository σ) {id : Int32} (hid : ¬ id ≤ 0)
    {message : BookRpc.BookMessage} (hsound : (BookRpc.updateOf message).Sound) :
    (bookService r).updateBook id (BookRpc.updateOf message) =
      r.updateBook id (BookRpc.updateOf message) := by
  have hlisted : ∀ status ∈ (BookRpc.updateOf message).status, Listed status := by
    intro status hstatus
    cases hstatus
    exact listed_statusFromProto message.status
  simp only [bookService, Books.updateBook]
  rw [if_neg hid, if_neg (not_not.mpr hsound), if_neg (not_not.mpr hlisted)]

theorem strays_updateBook {request : BookRpc.UpdateBookRequest}
    (h : ¬ NarrowsSafely (.updateBook request)) : Strays (.updateBook request) := by
  simp only [NarrowsSafely, not_or, not_not] at h
  obtain ⟨hfits, hnarrowed, hsound⟩ := h
  have hpos := not_le_zero_of_not_fits hfits
  refine ⟨?_, .book request.bookId.toInt32, ?_, toInt_toInt32_ne hfits⟩
  · simp only [handle, outcome, BookRpc.updateBook, hpos, if_false,
      bookService_updateBook _ hnarrowed hsound]
    rfl
  · simp only [handle, outcome, BookRpc.updateBook, hpos, if_false,
      bookService_updateBook _ hnarrowed hsound]
    simp [Backends.watched, watchBooks, obliging]

theorem strays_getOrder {orderId : Int64} (h : ¬ NarrowsSafely (.getOrder orderId)) :
    Strays (.getOrder orderId) := by
  simp only [NarrowsSafely, not_or] at h
  obtain ⟨hfits, hnarrowed⟩ := h
  have hpos := not_le_zero_of_not_fits hfits
  refine ⟨?_, .order orderId.toInt32, ?_, toInt_toInt32_ne hfits⟩
  · simp [handle, outcome, OrderRpc.getOrder, hpos, OrderService.findOrder, hnarrowed, obliging,
      OrderRpc.respond, Except.map]
  · simp [handle, outcome, OrderRpc.getOrder, hpos, OrderService.findOrder, hnarrowed, obliging,
      Backends.watched, watchService, watchOrders]

theorem strays_cancelOrder {orderId : Int64} (h : ¬ NarrowsSafely (.cancelOrder orderId)) :
    Strays (.cancelOrder orderId) := by
  simp only [NarrowsSafely, not_or] at h
  obtain ⟨hfits, hnarrowed⟩ := h
  have hpos := not_le_zero_of_not_fits hfits
  refine ⟨?_, .order orderId.toInt32, ?_, toInt_toInt32_ne hfits⟩
  · simp [handle, outcome, OrderRpc.cancelOrder, hpos, OrderService.cancelOrder, hnarrowed, obliging,
      obligingOrder, OrderService.cancelFound, OrderService.releaseItems, OrderRpc.respond,
      Except.map]
  · simp [handle, outcome, OrderRpc.cancelOrder, hpos, OrderService.cancelOrder, hnarrowed, obliging,
      obligingOrder, OrderService.cancelFound, OrderService.releaseItems, Backends.watched,
      watchService, watchOrders]

theorem collectItems_passes (messages : List OrderRpc.ItemRequestMessage)
    (h : ∀ message ∈ messages, ¬ (message.bookId ≤ 0 ∨ message.quantity ≤ 0)) :
    ∃ items, OrderRpc.collectItems messages = .ok items := by
  induction messages with
  | nil => exact ⟨[], rfl⟩
  | cons message rest ih =>
    obtain ⟨hmessage, hrest⟩ := List.forall_mem_cons.mp h
    obtain ⟨items, hitems⟩ := ih hrest
    refine ⟨⟨message.bookId.toInt32, message.quantity⟩ :: items, ?_⟩
    simp only [OrderRpc.collectItems, hmessage, if_false, hitems, Except.map]

theorem oblige_priceItems (requests : List OrderItemRequest)
    (h : ∀ request ∈ requests, ¬ request.quantity ≤ 0) (items : List OrderItem) (total : Int32)
    (s : ℕ) : ∃ priced, (obliging.orders.priceItems items total requests).run s =
      (some priced, s) := by
  induction requests generalizing items total with
  | nil => exact ⟨_, rfl⟩
  | cons request rest ih =>
    obtain ⟨hrequest, hrest⟩ := List.forall_mem_cons.mp h
    have hbook : (obliging.orders.bookClient.findBook request.bookId).run s =
        (some (obligingBook request.bookId), s) := rfl
    obtain ⟨priced, hpriced⟩ := ih hrest
      (items ++ [⟨request.bookId, request.quantity, (obligingBook request.bookId).priceCents⟩])
      (total + (obligingBook request.bookId).priceCents * request.quantity)
    refine ⟨priced, ?_⟩
    simp only [OrderService.priceItems, hrequest, if_false, Prog.run_bind, hbook, hpriced]

theorem oblige_placeOrder (userId : Int32) (requests : List OrderItemRequest)
    (items : List OrderItem) (total : Int32) (s : ℕ) (log : List Access) :
    (obliging.orders.placeOrder userId requests items total).run s =
        (some (obligingOrder 1 userId), s + 1) ∧
      (obliging.watched.orders.placeOrder userId requests items total).run (s, log) =
        (some (obligingOrder 1 userId), s + 1, log ++ [.batch (requests.map (·.bookId))] ++
          [.user userId]) := by
  constructor
  · rfl
  · simp [OrderService.placeOrder, OrderService.nextReservationId, Backends.watched, watchService,
      watchInventory, watchOrders, component, obliging, OrderItemRequest.toMutation]

theorem strays_createOrder {request : OrderRpc.CreateOrderRequest}
    (h : ¬ NarrowsSafely (.createOrder request)) : Strays (.createOrder request) := by
  simp only [NarrowsSafely, not_or, not_exists, not_and] at h
  obtain ⟨huser, hnarrowed, hne, hgood, hfits⟩ := h
  obtain ⟨items, hitems⟩ := collectItems_passes request.items
    fun item hitem => not_or.mpr (hgood item hitem)
  obtain ⟨hpassed, hids, hquantities⟩ := collectItems_ok hitems
  have hquantity : ∀ item ∈ items, ¬ item.quantity ≤ 0 := by
    intro item hitem
    have hmem : item.quantity ∈ request.items.map (·.quantity) := by
      rw [← hquantities]
      exact List.mem_map.mpr ⟨item, hitem, rfl⟩
    obtain ⟨message, hmessage, hsame⟩ := List.mem_map.mp hmem
    rw [← hsame]
    exact (hpassed message hmessage).2
  have hitemsNe : items ≠ [] := by
    intro hnil
    rw [hnil] at hids
    exact hne (by simpa using hids.symm)
  obtain ⟨⟨priced, total⟩, hpriced⟩ := oblige_priceItems items hquantity [] 0 0
  have hargs : ¬ (request.userId ≤ 0 ∨ request.items.isEmpty = true) :=
    not_or.mpr ⟨huser, by simpa using hne⟩
  have hservice : ¬ (request.userId.toInt32 ≤ 0 ∨ items = []) := not_or.mpr ⟨hnarrowed, hitemsNe⟩
  have hwatches : Watches (fun _ => True) _ _ :=
    watches_priceItems obliging.orders items [] 0 fun _ _ => trivial
  obtain ⟨new, hwatched, _⟩ := hwatches 0 []
  rw [hpriced] at hwatched
  have hlog : ((handle obliging.watched (.createOrder request)).run (0, [])).2.2 =
      new ++ [.batch (items.map (·.bookId))] ++ [.user request.userId.toInt32] := by
    have hprice : (obliging.watched.orders.priceItems [] 0 items).run (0, []) =
        (some (priced, total), 0, new) := hwatched
    obtain ⟨_, hplace⟩ := oblige_placeOrder request.userId.toInt32 items priced total 0 new
    simp only [handle, outcome, OrderRpc.createOrder, hargs, if_false, hitems,
      OrderService.createOrder, hservice, Prog.run_bind, Prog.run_pure, hprice, hplace]
  refine ⟨?_, ?_⟩
  · obtain ⟨hplace, _⟩ := oblige_placeOrder request.userId.toInt32 items priced total 0 []
    simp only [handle, outcome, OrderRpc.createOrder, hargs, if_false, hitems,
      OrderService.createOrder, hservice, Prog.run_bind, Prog.run_pure, hpriced, hplace,
      OrderRpc.respond, Except.map]
  · rw [hlog]
    by_cases huserFits : ¬ Fits request.userId
    · exact ⟨.user request.userId.toInt32, by simp, toInt_toInt32_ne huserFits⟩
    · refine ⟨.batch (items.map (·.bookId)), by simp, ?_⟩
      intro hsame
      have hsame : (items.map (·.bookId)).map Int32.toInt =
        request.items.map (·.bookId.toInt) := hsame
      apply hfits (not_not.mp huserFits)
      have hmap := (map_narrowed (request.items.map (·.bookId))
        (by simpa using fun item hitem => (hpassed item hitem).1)).mp
        (by rw [← hids, hsame, List.map_map]; rfl)
      simpa using hmap

theorem strays_of_wide {request : IdRequest} (h : ¬ NarrowsSafely request) : Strays request := by
  cases request with
  | getInventory bookId => exact strays_getInventory h
  | inboundInventory request => exact strays_inboundInventory h
  | reserveInventory request => exact strays_reserveInventory h
  | releaseInventory request => exact strays_releaseInventory h
  | getBook bookId => exact strays_getBook h
  | updateBook request => exact strays_updateBook h
  | createOrder request => exact strays_createOrder h
  | getOrder orderId => exact strays_getOrder h
  | cancelOrder orderId => exact strays_cancelOrder h

/-- A request acts on what it names or on nothing, whatever the backends and
their state, exactly when its ids fit an int or it is refused before they are used. -/
theorem acts_on_named_iff (request : IdRequest) :
    (∀ (σ : Type) (b : Backends σ) (s : σ), ActsOnNamed b s request) ↔ NarrowsSafely request := by
  constructor
  · intro h
    by_contra hwide
    exact (strays_of_wide hwide).not_acts (h ℕ obliging 0)
  · intro h σ b s
    exact acts_of_safe b s h

/-! ## The memory repositories -/

def memoryBackends : Backends LocalConservation.LocalStore where
  inventory := MemoryInventory.repository.lift LocalConservation.LocalStore.inventoryLens
  books := memoryBookRepository.lift LocalConservation.LocalStore.booksLens
  orders := LocalConservation.LocalStore.orderService

/-- Ten copies of book 1. -/
def tenCopies : LocalConservation.LocalStore where
  books := ⟨[⟨1, "Dune", "Frank Herbert", 9800, 10, "active"⟩]⟩
  inventory := ⟨fun book => if book = 1 then some 10 else none⟩
  orders := .empty
  nextReservation := 1

/-- The id 2^32 + 1 is taken for book 1: it is read and restocked. -/
theorem wide_id_strays :
    ((getInventory memoryBackends.inventory 4294967297).run tenCopies).1 = .ok ⟨1, 10⟩ ∧
    ((inboundInventory memoryBackends.inventory ⟨4294967297, 5⟩).run tenCopies).1 =
      .ok ⟨4294967297, 15⟩ ∧
    ((inboundInventory memoryBackends.inventory ⟨4294967297, 5⟩).run tenCopies).2.inventory.stock 1
      = some 15 ∧
    ¬ ActsOnNamed memoryBackends tenCopies (.inboundInventory ⟨4294967297, 5⟩) := by
  refine ⟨by decide, by decide +kernel, by decide +kernel, ?_⟩
  rintro (⟨status, hrejected⟩ | hnamed)
  · have hok : ((handle memoryBackends (.inboundInventory ⟨4294967297, 5⟩)).run tenCopies).1 =
        .ok () := rfl
    rw [hrejected] at hok
    cases hok
  · have hstray := hnamed (.stock 1) (by decide)
    revert hstray
    unfold Names
    decide

end Bookstore.WideIds
