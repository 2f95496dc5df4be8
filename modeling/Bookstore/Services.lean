import Bookstore.MachineInt
import Bookstore.Repositories

/-!
OrderService over whatever clients and repository it is given, and the local
clients that call a repository in the same process. Each call of a client or
repository is a step of the shared state, so the same definitions serve the
sequential runs and the interleaved ones.
-/
namespace Bookstore.Services

open Interleaving Records Repositories

variable {σ : Type}

/-! ## InventoryService and LocalInventoryClient -/

/-- InventoryService checks inbound requests and forwards the rest. -/
def inventoryService (repository : InventoryRepository σ) : InventoryRepository σ where
  availableStock := repository.availableStock
  addStock bookId quantity :=
    if bookId ≤ 0 ∨ quantity ≤ 0 then pure none else repository.addStock bookId quantity
  reserveStock := repository.reserveStock
  releaseStock := repository.releaseStock
  reserveBatch := repository.reserveBatch
  releaseBatch := repository.releaseBatch

/-- Release the items of a list one by one. -/
def releaseEach (service : InventoryRepository σ) : List InventoryMutation → Prog σ Unit
  | [] => pure ()
  | item :: rest => do
    service.releaseStock item.bookId item.quantity
    releaseEach service rest

/-- The loop of LocalInventoryClient::reserve_stock: `reserved` are the items
taken so far, given back as soon as one item is refused. -/
def reserveEach (service : InventoryRepository σ) (reserved : List InventoryMutation) :
    List InventoryMutation → Prog σ Bool
  | [] => pure true
  | item :: rest => do
    if ← service.reserveStock item.bookId item.quantity then
      reserveEach service (reserved ++ [item]) rest
    else
      releaseEach service reserved
      pure false

def localInventoryClient (repository : InventoryRepository σ) : InventoryClient σ :=
  let service := inventoryService repository
  { service with
    reserveBatch := fun _ items => reserveEach service [] items
    releaseBatch := fun _ items => releaseEach service items }

/-! ## OrderService -/

/-- The members of an OrderService; `nextId` is the static counter inside
next_reservation_id. -/
structure OrderService (σ : Type) where
  bookClient : BookClient σ
  inventoryClient : InventoryClient σ
  orderRepository : OrderRepository σ
  nextId : Lens σ ℕ

namespace OrderService

variable (service : OrderService σ)

/-- The text of a reservation id. -/
def reservationId (userId : Int32) (n : ℕ) : String :=
  "order-" ++ toString userId.toInt ++ "-" ++ toString n

def nextReservationId (userId : Int32) : Prog σ String :=
  .call fun s =>
    (reservationId userId (service.nextId.get s), service.nextId.set (service.nextId.get s + 1) s)

/-- The first loop of create_order: look up every book and add up the price. -/
def priceItems (items : List OrderItem) (total : Int32) :
    List OrderItemRequest → Prog σ (Option (List OrderItem × Int32))
  | [] => pure (some (items, total))
  | request :: rest =>
    if request.quantity ≤ 0 then pure none
    else do
      match ← service.bookClient.findBook request.bookId with
      | none => pure none
      | some book =>
        priceItems (items ++ [⟨request.bookId, request.quantity, book.priceCents⟩])
          (total + book.priceCents * request.quantity) rest

/-- create_order from the drawing of the reservation id on. -/
def placeOrder (userId : Int32) (requests : List OrderItemRequest) (items : List OrderItem)
    (total : Int32) : Prog σ (Option Order) := do
  let reservationItems := requests.map OrderItemRequest.toMutation
  let reservation ← service.nextReservationId userId
  if ← service.inventoryClient.reserveBatch reservation reservationItems then
    match ← service.orderRepository.createOrder userId items total with
    | some order => pure (some order)
    | none => do
      service.inventoryClient.releaseBatch reservation reservationItems
      pure none
  else pure none

def createOrder (userId : Int32) (requests : List OrderItemRequest) : Prog σ (Option Order) :=
  if userId ≤ 0 ∨ requests = [] then pure none
  else do
    match ← service.priceItems [] 0 requests with
    | none => pure none
    | some (items, total) => service.placeOrder userId requests items total

def listOrders : Prog σ (List Order) := service.orderRepository.listOrders

def findOrder (orderId : Int32) : Prog σ (Option Order) :=
  if orderId ≤ 0 then pure none else service.orderRepository.findOrder orderId

/-- The last loop of cancel_order: each item goes back on its own. -/
def releaseItems : List OrderItem → Prog σ Unit
  | [] => pure ()
  | item :: rest => do
    service.inventoryClient.releaseStock item.bookId item.quantity
    releaseItems rest

/-- cancel_order once the order has been found and is not cancelled yet. -/
def cancelFound (orderId : Int32) : Prog σ (Option Order) := do
  match ← service.orderRepository.cancelOrder orderId with
  | none => pure none
  | some cancelled => do
    service.releaseItems cancelled.items
    pure (some cancelled)

def cancelOrder (orderId : Int32) : Prog σ (Option Order) :=
  if orderId ≤ 0 then pure none
  else do
    match ← service.orderRepository.findOrder orderId with
    | none => pure none
    | some existing =>
      if existing.status = "cancelled" then pure (some existing) else service.cancelFound orderId

/-! ## What the first loop of create_order delivers -/

/-- `items` carries the books and quantities of `requests`, all of them positive. -/
structure Priced (requests : List OrderItemRequest) (items : List OrderItem) : Prop where
  positive : ∀ item ∈ items, 0 < item.quantity.toInt
  same : ∀ book, quantityOf book items =
    requested book (requests.map OrderItemRequest.toMutation)
  nonempty : requests ≠ [] → items ≠ []

theorem Priced.nil : Priced [] [] where
  positive := by simp
  same := by simp
  nonempty := by simp

theorem Priced.cons {request : OrderItemRequest} {rest : List OrderItemRequest}
    {items : List OrderItem} (price : Int32) (hpos : 0 < request.quantity.toInt)
    (h : Priced rest items) :
    Priced (request :: rest) (⟨request.bookId, request.quantity, price⟩ :: items) where
  positive := by
    intro item hitem
    rcases List.mem_cons.mp hitem with rfl | hmem
    · exact hpos
    · exact h.positive item hmem
  same := by
    intro book
    simp [h.same book, OrderItemRequest.toMutation]
  nonempty := by simp

theorem Priced.append {requests rest : List OrderItemRequest} {items more : List OrderItem}
    (h : Priced requests items) (hrest : Priced rest more) :
    Priced (requests ++ rest) (items ++ more) where
  positive := by
    intro item hitem
    rcases List.mem_append.mp hitem with hmem | hmem
    · exact h.positive item hmem
    · exact hrest.positive item hmem
  same := by
    intro book
    simp [h.same book, hrest.same book]
  nonempty := by
    intro hne hempty
    rw [List.append_eq_nil_iff] at hempty
    by_cases hrequests : requests = []
    · subst hrequests
      exact hrest.nonempty (by simpa using hne) hempty.2
    · exact h.nonempty hrequests hempty.1

/-- The requests were positive too. -/
theorem Priced.requested_nonneg {requests : List OrderItemRequest} {items : List OrderItem}
    (h : Priced requests items) (book : Int32) :
    0 ≤ requested book (requests.map OrderItemRequest.toMutation) := by
  rw [← h.same book]
  exact quantityOf_nonneg book items h.positive

/-- A lookup that only reads. -/
def ReadOnly (client : BookClient σ) : Prop :=
  ∀ id s, ((client.findBook id).run s).2 = s

theorem priceItems_spec (hread : ReadOnly service.bookClient) (requests : List OrderItemRequest)
    (items : List OrderItem) (total : Int32) (s : σ) :
    ((service.priceItems items total requests).run s).2 = s ∧
      ∀ items' total', ((service.priceItems items total requests).run s).1 = some (items', total') →
        (∀ request ∈ requests, 0 < request.quantity.toInt) ∧
        ∃ new, items' = items ++ new ∧ Priced requests new := by
  induction requests generalizing items total with
  | nil =>
    refine ⟨rfl, ?_⟩
    intro items' total' h
    simp only [priceItems, Prog.run_pure, Option.some.injEq, Prod.mk.injEq] at h
    exact ⟨by simp, [], by simp [h.1], Priced.nil⟩
  | cons request rest ih =>
    unfold priceItems
    split
    · simp
    · rename_i hq
      have hsame := hread request.bookId s
      simp only [Prog.run_bind, hsame]
      cases hbook : ((service.bookClient.findBook request.bookId).run s).1 with
      | none => simp
      | some book =>
        obtain ⟨hstate, hresult⟩ := ih
          (items ++ [⟨request.bookId, request.quantity, book.priceCents⟩])
          (total + book.priceCents * request.quantity)
        refine ⟨hstate, ?_⟩
        intro items' total' h
        obtain ⟨hrest, new, hnew, hpriced⟩ := hresult items' total' h
        have hpos := MachineInt.toInt_pos_of_not_le hq
        refine ⟨?_, ⟨request.bookId, request.quantity, book.priceCents⟩ :: new, ?_, ?_⟩
        · intro r hr
          rcases List.mem_cons.mp hr with rfl | hmem
          · exact hpos
          · exact hrest r hmem
        · simp [hnew]
        · exact hpriced.cons book.priceCents hpos

/-- The arguments that get past the first loop of create_order. -/
def Priceable (userId : Int32) (requests : List OrderItemRequest) (s : σ) : Prop :=
  0 < userId.toInt ∧ requests ≠ [] ∧ ∀ request ∈ requests, 0 < request.quantity.toInt ∧
    ((service.bookClient.findBook request.bookId).run s).1.isSome

theorem priceItems_isSome_iff (hread : ReadOnly service.bookClient)
    (requests : List OrderItemRequest) (items : List OrderItem) (total : Int32) (s : σ) :
    ((service.priceItems items total requests).run s).1.isSome ↔
      ∀ request ∈ requests, 0 < request.quantity.toInt ∧
        ((service.bookClient.findBook request.bookId).run s).1.isSome := by
  induction requests generalizing items total with
  | nil => simp [priceItems]
  | cons request rest ih =>
    unfold priceItems
    split
    · rename_i hq
      rw [Int32.le_iff_toInt_le, Int32.toInt_zero] at hq
      constructor
      · intro h
        simp at h
      · intro h
        have hpos := (h request (by simp)).1
        omega
    · rename_i hq
      have hpos := MachineInt.toInt_pos_of_not_le hq
      have hsame := hread request.bookId s
      simp only [Prog.run_bind, hsame, List.forall_mem_cons, hpos, true_and]
      cases hbook : ((service.bookClient.findBook request.bookId).run s).1 with
      | none => simp
      | some book => simp [ih]

theorem createOrder_refused (hread : ReadOnly service.bookClient) {userId : Int32}
    {requests : List OrderItemRequest} {s : σ} (h : ¬ service.Priceable userId requests s) :
    (service.createOrder userId requests).run s = (none, s) := by
  unfold createOrder
  split
  · rfl
  · rename_i hargs
    rw [not_or] at hargs
    have hsome := service.priceItems_isSome_iff hread requests [] 0 s
    obtain ⟨hstate, _⟩ := service.priceItems_spec hread requests [] 0 s
    simp only [Prog.run_bind, hstate]
    cases hpriced : ((service.priceItems [] 0 requests).run s).1 with
    | none => rfl
    | some result =>
      rw [hpriced] at hsome
      exact absurd ⟨MachineInt.toInt_pos_of_not_le hargs.1, hargs.2, hsome.mp rfl⟩ h

/-- create_order either refuses before drawing a reservation id, leaving the
state alone, or places the order for a positive, non-empty list of items. -/
theorem createOrder_cases (hread : ReadOnly service.bookClient) (userId : Int32)
    (requests : List OrderItemRequest) (s : σ) :
    (service.createOrder userId requests).run s = (none, s) ∨
    ∃ items total, 0 < userId.toInt ∧ items ≠ [] ∧ requests ≠ [] ∧
      (∀ request ∈ requests, 0 < request.quantity.toInt) ∧ Priced requests items ∧
      (service.createOrder userId requests).run s =
        (service.placeOrder userId requests items total).run s := by
  unfold createOrder
  split
  · exact .inl rfl
  · rename_i hargs
    rw [not_or] at hargs
    obtain ⟨hstate, hresult⟩ := service.priceItems_spec hread requests [] 0 s
    simp only [Prog.run_bind, hstate]
    cases hpriced : ((service.priceItems [] 0 requests).run s).1 with
    | none => exact .inl rfl
    | some result =>
      obtain ⟨items, total⟩ := result
      obtain ⟨hpos, new, hnew, hnewPriced⟩ := hresult items total hpriced
      rw [List.nil_append] at hnew
      subst hnew
      exact .inr ⟨items, total, MachineInt.toInt_pos_of_not_le hargs.1,
        hnewPriced.nonempty hargs.2, hargs.2, hpos, hnewPriced, rfl⟩

theorem createOrder_placed (hread : ReadOnly service.bookClient) {userId : Int32}
    {requests : List OrderItemRequest} {s : σ} (h : service.Priceable userId requests s) :
    ∃ items total, ((service.priceItems [] 0 requests).run s).1 = some (items, total) ∧
      (service.createOrder userId requests).run s =
        (service.placeOrder userId requests items total).run s := by
  obtain ⟨huser, hne, hrequests⟩ := h
  have hargs : ¬ (userId ≤ 0 ∨ requests = []) := by
    rw [not_or, Int32.le_iff_toInt_le, Int32.toInt_zero]
    exact ⟨by omega, hne⟩
  have hsome := (service.priceItems_isSome_iff hread requests [] 0 s).mpr hrequests
  obtain ⟨hstate, _⟩ := service.priceItems_spec hread requests [] 0 s
  obtain ⟨⟨items, total⟩, hpriced⟩ := Option.isSome_iff_exists.mp hsome
  refine ⟨items, total, hpriced, ?_⟩
  rw [createOrder, if_neg hargs]
  simp only [Prog.run_bind, hstate, hpriced]

end OrderService

end Bookstore.Services
