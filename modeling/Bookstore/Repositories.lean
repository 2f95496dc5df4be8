import Bookstore.Interleaving
import Bookstore.Records

/-!
The abstract classes between the services and their stores, and the two
in-memory implementations. Every method is a program over a shared state; the
memory repositories hold their mutex for a whole method, so each of their
methods is one atomic step.
-/
namespace Bookstore.Repositories

open Interleaving Records

variable {σ τ : Type}

/-- The part of BookClient that the order service calls. -/
structure BookClient (σ : Type) where
  findBook : Int32 → Prog σ (Option Book)

/-- `reserveStock` and `releaseStock` are overloaded in the source: the forms
on a reservation id and a list of items are the two `Batch` methods here. -/
structure InventoryRepository (σ : Type) where
  availableStock : Int32 → Prog σ (Option Int32)
  addStock : Int32 → Int32 → Prog σ (Option Int32)
  reserveStock : Int32 → Int32 → Prog σ Bool
  releaseStock : Int32 → Int32 → Prog σ Unit
  reserveBatch : String → List InventoryMutation → Prog σ Bool
  releaseBatch : String → List InventoryMutation → Prog σ Unit

/-- InventoryClient declares the same six methods as InventoryRepository. -/
abbrev InventoryClient := InventoryRepository

structure OrderRepository (σ : Type) where
  createOrder : Int32 → List OrderItem → Int32 → Prog σ (Option Order)
  listOrders : Prog σ (List Order)
  findOrder : Int32 → Prog σ (Option Order)
  cancelOrder : Int32 → Prog σ (Option Order)

def BookClient.lift (l : Lens σ τ) (c : BookClient τ) : BookClient σ where
  findBook id := (c.findBook id).lift l

def InventoryRepository.lift (l : Lens σ τ) (c : InventoryRepository τ) :
    InventoryRepository σ where
  availableStock book := (c.availableStock book).lift l
  addStock book quantity := (c.addStock book quantity).lift l
  reserveStock book quantity := (c.reserveStock book quantity).lift l
  releaseStock book quantity := (c.releaseStock book quantity).lift l
  reserveBatch id items := (c.reserveBatch id items).lift l
  releaseBatch id items := (c.releaseBatch id items).lift l

def OrderRepository.lift (l : Lens σ τ) (c : OrderRepository τ) : OrderRepository σ where
  createOrder user items total := (c.createOrder user items total).lift l
  listOrders := c.listOrders.lift l
  findOrder id := (c.findOrder id).lift l
  cancelOrder id := (c.cancelOrder id).lift l

/-! ## MemoryBookRepository -/

/-- The catalogue of MemoryBookRepository. -/
structure MemoryBooks where
  books : List Book

def MemoryBooks.findBook (s : MemoryBooks) (bookId : Int32) : Option Book :=
  s.books.find? fun book => book.id = bookId

/-! ## MemoryInventoryRepository -/

/-- The map `stock_`. -/
structure MemoryInventory where
  stock : Int32 → Option Int32

namespace MemoryInventory

def put (s : MemoryInventory) (bookId value : Int32) : MemoryInventory :=
  ⟨fun book => if book = bookId then some value else s.stock book⟩

/-- `stock_[book_id] += quantity`: a missing entry is created as 0 first. -/
def increase (s : MemoryInventory) (bookId quantity : Int32) : MemoryInventory :=
  s.put bookId ((s.stock bookId).getD 0 + quantity)

def addStock (bookId quantity : Int32) (s : MemoryInventory) :
    Option Int32 × MemoryInventory :=
  if bookId ≤ 0 ∨ quantity ≤ 0 then (none, s)
  else ((s.increase bookId quantity).stock bookId, s.increase bookId quantity)

def reserveStock (bookId quantity : Int32) (s : MemoryInventory) : Bool × MemoryInventory :=
  if quantity ≤ 0 then (false, s)
  else
    match s.stock bookId with
    | none => (false, s)
    | some available =>
      if available < quantity then (false, s) else (true, s.put bookId (available - quantity))

def releaseStock (bookId quantity : Int32) (s : MemoryInventory) : MemoryInventory :=
  if quantity ≤ 0 then s else s.increase bookId quantity

/-- The first loop of the batch form: every item is checked against the
stock as it was before any of them is taken. -/
def canReserve (s : MemoryInventory) (items : List InventoryMutation) : Bool :=
  items.all fun item =>
    !(item.quantity ≤ 0) && (s.stock item.bookId).any fun available => !(available < item.quantity)

/-- The second loop of the batch form: `stock_[item.book_id] -= item.quantity`. -/
def takeAll (s : MemoryInventory) (items : List InventoryMutation) : MemoryInventory :=
  items.foldl (fun s item => s.put item.bookId ((s.stock item.bookId).getD 0 - item.quantity)) s

def reserveBatch (items : List InventoryMutation) (s : MemoryInventory) : Bool × MemoryInventory :=
  if items.isEmpty then (false, s)
  else if s.canReserve items then (true, s.takeAll items) else (false, s)

def releaseBatch (items : List InventoryMutation) (s : MemoryInventory) : MemoryInventory :=
  items.foldl
    (fun s item => if 0 < item.quantity then s.increase item.bookId item.quantity else s) s

def repository : InventoryRepository MemoryInventory where
  availableStock book := .read fun s => s.stock book
  addStock book quantity := .call (addStock book quantity)
  reserveStock book quantity := .call (reserveStock book quantity)
  releaseStock book quantity := .write (releaseStock book quantity)
  reserveBatch _ items := .call (reserveBatch items)
  releaseBatch _ items := .write (releaseBatch items)

end MemoryInventory

/-! ## MemoryOrderRepository -/

structure MemoryOrders where
  nextOrderId : Int32
  orders : List Order

namespace MemoryOrders

def empty : MemoryOrders := ⟨1, []⟩

def createOrder (userId : Int32) (items : List OrderItem) (totalCents : Int32)
    (s : MemoryOrders) : Option Order × MemoryOrders :=
  if userId ≤ 0 ∨ items = [] then (none, s)
  else
    let order : Order := ⟨s.nextOrderId, userId, items, totalCents, "created"⟩
    (some order, ⟨s.nextOrderId + 1, s.orders ++ [order]⟩)

def findOrder (s : MemoryOrders) (orderId : Int32) : Option Order :=
  s.orders.find? fun order => order.id = orderId

/-- The loop of cancel_order: the first order with this id is marked. -/
def markCancelled (orderId : Int32) : List Order → List Order
  | [] => []
  | order :: rest =>
    if order.id = orderId then { order with status := "cancelled" } :: rest
    else order :: markCancelled orderId rest

/-- Marking changes the status of the order with this id, and of no other. -/
theorem find_markCancelled (orders : List Order) (o' o : Int32) :
    (markCancelled o' orders).find? (fun order => order.id = o) =
      (orders.find? fun order => order.id = o).map fun order =>
        if o' = o then { order with status := "cancelled" } else order := by
  induction orders with
  | nil => rfl
  | cons order rest ih =>
    unfold markCancelled
    by_cases hid : order.id = o' <;> by_cases ho : order.id = o
    · simp [hid, ← ho]
    · have hne : o' ≠ o := by rwa [hid] at ho
      simp only [hid, if_true, List.find?_cons, hne, decide_false]
      cases rest.find? (fun order => decide (order.id = o)) <;> rfl
    · have hne : ¬ o' = o := fun h => hid (ho.trans h.symm)
      simp [ho, hne, Ne.symm hne]
    · simp [hid, ho, ih]

/-- The order is returned whether or not this call changed its status. -/
def cancelOrder (orderId : Int32) (s : MemoryOrders) : Option Order × MemoryOrders :=
  let marked : MemoryOrders := ⟨s.nextOrderId, markCancelled orderId s.orders⟩
  (marked.findOrder orderId, marked)

def repository : OrderRepository MemoryOrders where
  createOrder user items total := .call (createOrder user items total)
  listOrders := .read MemoryOrders.orders
  findOrder id := .read fun s => s.findOrder id
  cancelOrder id := .call (cancelOrder id)

end MemoryOrders

end Bookstore.Repositories
