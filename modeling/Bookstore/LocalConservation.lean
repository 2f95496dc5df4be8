import Bookstore.LocalReservations

/-!
Stock conservation in local mode: OrderService over LocalInventoryClient and
the memory repositories, with inbound stock reaching the same inventory. The
invariant links two stores, the inventory and the orders; each call preserves
it up to the inbound it accepts, and a run adds these amounts up.
-/
namespace Bookstore.LocalConservation

open Interleaving LocalReservations MachineInt MemoryStock Records Repositories Services

/-- The counter of the ids is unbounded here. It wraps after 2^64 orders in the source,
where the memory inventory looks at no id. -/
structure LocalStore where
  books : MemoryBooks
  inventory : MemoryInventory
  orders : MemoryOrders
  nextReservation : ℕ

namespace LocalStore

def booksLens : Lens LocalStore MemoryBooks where
  get := books
  set t s := { s with books := t }
  get_set _ _ := rfl
  set_get _ := rfl
  set_set _ _ _ := rfl

def inventoryLens : Lens LocalStore MemoryInventory where
  get := inventory
  set t s := { s with inventory := t }
  get_set _ _ := rfl
  set_get _ := rfl
  set_set _ _ _ := rfl

def ordersLens : Lens LocalStore MemoryOrders where
  get := orders
  set t s := { s with orders := t }
  get_set _ _ := rfl
  set_get _ := rfl
  set_set _ _ _ := rfl

def counterLens : Lens LocalStore ℕ where
  get := nextReservation
  set t s := { s with nextReservation := t }
  get_set _ _ := rfl
  set_get _ := rfl
  set_set _ _ _ := rfl

/-- LocalBookClient, LocalInventoryClient and MemoryOrderRepository. -/
def orderService : OrderService LocalStore where
  bookClient := ⟨fun id => .read fun s => s.books.findBook id⟩
  inventoryClient := (localInventoryClient MemoryInventory.repository).lift inventoryLens
  orderRepository := MemoryOrders.repository.lift ordersLens
  nextId := counterLens

end LocalStore

/-- The calls that change stock in local mode. -/
inductive Call
  | createOrder (userId : Int32) (requests : List OrderItemRequest)
  | cancelOrder (orderId : Int32)
  | addStock (bookId quantity : Int32)

def perform (s : LocalStore) : Call → LocalStore
  | .createOrder userId requests => ((LocalStore.orderService.createOrder userId requests).run s).2
  | .cancelOrder orderId => ((LocalStore.orderService.cancelOrder orderId).run s).2
  | .addStock bookId quantity =>
    { s with inventory := after (MemoryStock.service.addStock bookId quantity) s.inventory }

/-- The quantity of a book that a call brings in: add_stock returned a value. -/
def inbound (s : LocalStore) (book : Int32) : Call → ℤ
  | .addStock bookId quantity =>
    if ((MemoryStock.service.addStock bookId quantity).run s.inventory).1.isSome ∧ bookId = book
    then quantity.toInt else 0
  | _ => 0

def performAll (s : LocalStore) : List Call → LocalStore
  | [] => s
  | call :: rest => performAll (perform s call) rest

def acceptedInbound (s : LocalStore) (book : Int32) : List Call → ℤ
  | [] => 0
  | call :: rest => inbound s book call + acceptedInbound (perform s call) book rest

/-- The copies of a book in the orders that are not cancelled. -/
def held (book : Int32) : List Order → ℤ
  | [] => 0
  | order :: rest =>
    (if order.status = "cancelled" then 0 else quantityOf book order.items) + held book rest

theorem held_append (book : Int32) (xs ys : List Order) :
    held book (xs ++ ys) = held book xs + held book ys := by
  induction xs with
  | nil => simp [held]
  | cons x xs ih => simp [held, ih, Int.add_assoc]

def PositiveItems (orders : List Order) : Prop :=
  ∀ order ∈ orders, ∀ item ∈ order.items, 0 < item.quantity.toInt

theorem held_nonneg (book : Int32) (orders : List Order) (h : PositiveItems orders) :
    0 ≤ held book orders := by
  induction orders with
  | nil => simp [held]
  | cons order rest ih =>
    have horder := quantityOf_nonneg book order.items (h order (by simp))
    have hrest := ih fun o ho => h o (by simp [ho])
    simp only [held]
    split <;> omega

theorem positive_markCancelled (orderId : Int32) (orders : List Order)
    (h : PositiveItems orders) : PositiveItems (MemoryOrders.markCancelled orderId orders) := by
  induction orders with
  | nil => exact h
  | cons order rest ih =>
    have hrest : PositiveItems rest := fun o ho => h o (by simp [ho])
    unfold MemoryOrders.markCancelled
    split
    · intro o ho
      rcases List.mem_cons.mp ho with rfl | hmem
      · exact h order (by simp)
      · exact hrest o hmem
    · intro o ho
      rcases List.mem_cons.mp ho with rfl | hmem
      · exact h o (by simp)
      · exact ih hrest o hmem

/-- Marking the order that find_order returns takes its items out of the sum. -/
theorem held_markCancelled (orders : List Order) (orderId : Int32) (found : Order)
    (hfound : orders.find? (fun order => order.id = orderId) = some found)
    (hstatus : found.status ≠ "cancelled") (book : Int32) :
    held book (MemoryOrders.markCancelled orderId orders) =
        held book orders - quantityOf book found.items ∧
      (MemoryOrders.markCancelled orderId orders).find? (fun order => order.id = orderId) =
        some { found with status := "cancelled" } := by
  refine ⟨?_, by rw [MemoryOrders.find_markCancelled, hfound, Option.map_some, if_pos rfl]⟩
  induction orders with
  | nil => cases hfound
  | cons order rest ih =>
    by_cases hid : order.id = orderId
    · have heq : order = found := by simpa [hid] using hfound
      subst heq
      simp only [MemoryOrders.markCancelled, hid, if_true, held, hstatus, if_false]
      omega
    · have hrest : rest.find? (fun order => order.id = orderId) = some found := by
        simpa [hid] using hfound
      simp only [MemoryOrders.markCancelled, hid, if_false, held, ih hrest]
      omega

/-- The invariant: no book is negative, and what is available together with
what live orders hold is what the books started with plus the inbound. -/
structure Conserved (base : Int32 → ℤ) (s : LocalStore) : Prop where
  nonneg : NonNegative s.inventory
  balance : ∀ book, available s.inventory book + held book s.orders.orders = base book
  positive : PositiveItems s.orders.orders

theorem Conserved.available_le {base : Int32 → ℤ} {s : LocalStore} (h : Conserved base s)
    (book : Int32) : available s.inventory book ≤ base book := by
  have hbalance := h.balance book
  have hheld := held_nonneg book s.orders.orders h.positive
  omega

theorem orderService_readOnly : OrderService.ReadOnly LocalStore.orderService.bookClient :=
  fun _ _ => rfl

section PlaceOrder

variable {s : LocalStore} (userId : Int32) (requests : List OrderItemRequest)
  (items : List OrderItem) (total : Int32)

theorem placeOrder_accepted (huser : 0 < userId.toInt) (hne : items ≠ [])
    (hresult : ((reserveEach MemoryStock.service []
      (requests.map OrderItemRequest.toMutation)).run s.inventory).1 = true) :
    ((LocalStore.orderService.placeOrder userId requests items total).run s).2 =
      { s with
        nextReservation := s.nextReservation + 1
        inventory := after (reserveEach MemoryStock.service []
          (requests.map OrderItemRequest.toMutation)) s.inventory
        orders := ⟨s.orders.nextOrderId + 1, s.orders.orders ++
          [⟨s.orders.nextOrderId, userId, items, total, "created"⟩]⟩ } := by
  have huser' : ¬ userId ≤ 0 := by
    rw [Int32.le_iff_toInt_le]
    simpa using huser
  simp [OrderService.placeOrder, OrderService.nextReservationId, LocalStore.orderService,
    InventoryRepository.lift, OrderRepository.lift, localInventoryClient, LocalStore.counterLens,
    LocalStore.inventoryLens, LocalStore.ordersLens, hresult, MemoryOrders.repository,
    MemoryOrders.createOrder, huser', hne, after]

theorem placeOrder_refused (hresult : ((reserveEach MemoryStock.service []
      (requests.map OrderItemRequest.toMutation)).run s.inventory).1 = false) :
    ((LocalStore.orderService.placeOrder userId requests items total).run s).2 =
      { s with
        nextReservation := s.nextReservation + 1
        inventory := after (reserveEach MemoryStock.service []
          (requests.map OrderItemRequest.toMutation)) s.inventory } := by
  simp [OrderService.placeOrder, OrderService.nextReservationId, LocalStore.orderService,
    InventoryRepository.lift, localInventoryClient, LocalStore.counterLens,
    LocalStore.inventoryLens, hresult, after]

end PlaceOrder

/-- Placing an order takes what the stored order holds, or changes no stock. -/
theorem placeOrder_conserved {base : Int32 → ℤ} {s : LocalStore} (h : Conserved base s)
    (userId : Int32) (requests : List OrderItemRequest) (items : List OrderItem) (total : Int32)
    (huser : 0 < userId.toInt) (hne : items ≠ [])
    (hpriced : OrderService.Priced requests items) :
    Conserved base ((LocalStore.orderService.placeOrder userId requests items total).run s).2 := by
  rcases available_reserveEach (requests.map OrderItemRequest.toMutation) s.inventory with
    ⟨hgranted, hresult, hstock⟩ | ⟨-, hrefused⟩
  · rw [placeOrder_accepted userId requests items total huser hne hresult]
    refine ⟨?_, ?_, ?_⟩
    · intro book
      have hle := hgranted.requested_le (h.nonneg book)
      rw [hstock book]
      omega
    · intro book
      have hbalance := h.balance book
      have hsame := hpriced.same book
      simp only [hstock book, held_append, held]
      rw [if_neg (by decide)]
      omega
    · intro order horder
      rcases List.mem_append.mp horder with hold | hnew
      · exact h.positive order hold
      · rw [List.mem_singleton.mp hnew]
        exact hpriced.positive
  · rw [placeOrder_refused userId requests items total (congrArg Prod.fst hrefused), after, hrefused]
    exact ⟨h.nonneg, h.balance, h.positive⟩

/-- The single releases of cancel_order reach the inventory one after the other. -/
theorem run_releaseItems (items : List OrderItem) (s : LocalStore) :
    (LocalStore.orderService.releaseItems items).run s =
      ((), { s with
        inventory :=
          after (releaseEach MemoryStock.service (items.map OrderItem.toMutation)) s.inventory }) := by
  induction items generalizing s with
  | nil => rfl
  | cons item rest ih =>
    unfold OrderService.releaseItems
    simp only [Prog.run_bind, ih]
    rfl

section CancelOrder

variable {s : LocalStore} {orderId : Int32}

/-- An order that is not cancelled yet is marked, and its items are released. -/
theorem cancelOrder_live {found : Order} (hpos : 0 < orderId.toInt)
    (hfound : s.orders.findOrder orderId = some found) (hstatus : found.status ≠ "cancelled") :
    ((LocalStore.orderService.cancelOrder orderId).run s).2 =
      { s with
        orders := ⟨s.orders.nextOrderId, MemoryOrders.markCancelled orderId s.orders.orders⟩
        inventory := after (releaseEach MemoryStock.service
          (found.items.map OrderItem.toMutation)) s.inventory } := by
  have hid : ¬ orderId ≤ 0 := by
    rw [Int32.le_iff_toInt_le]
    simpa using hpos
  have hrun : (LocalStore.orderService.orderRepository.findOrder orderId).run s =
      (some found, s) := by
    simp [LocalStore.orderService, OrderRepository.lift, MemoryOrders.repository,
      LocalStore.ordersLens, hfound]
  have hmarked := held_markCancelled s.orders.orders orderId found hfound hstatus
  have hcancel : (LocalStore.orderService.orderRepository.cancelOrder orderId).run s =
      (some { found with status := "cancelled" },
        { s with orders := ⟨s.orders.nextOrderId,
          MemoryOrders.markCancelled orderId s.orders.orders⟩ }) := by
    simp [LocalStore.orderService, OrderRepository.lift, MemoryOrders.repository,
      MemoryOrders.cancelOrder, MemoryOrders.findOrder, LocalStore.ordersLens, (hmarked 0).2]
  simp only [OrderService.cancelOrder, hid, if_false, Prog.run_bind, hrun, hstatus,
    OrderService.cancelFound, hcancel, run_releaseItems, Prog.run_pure]

theorem cancelOrder_other (h : ¬ ∃ found, 0 < orderId.toInt ∧
    s.orders.findOrder orderId = some found ∧ found.status ≠ "cancelled") :
    ((LocalStore.orderService.cancelOrder orderId).run s).2 = s := by
  unfold OrderService.cancelOrder
  split
  · rfl
  · rename_i hid
    have hrun : (LocalStore.orderService.orderRepository.findOrder orderId).run s =
        (s.orders.findOrder orderId, s) := by
      simp [LocalStore.orderService, OrderRepository.lift, MemoryOrders.repository,
        LocalStore.ordersLens]
    simp only [Prog.run_bind, hrun]
    cases hfound : s.orders.findOrder orderId with
    | none => rfl
    | some found =>
      have hstatus : found.status = "cancelled" := by
        by_contra hstatus
        exact h ⟨found, toInt_pos_of_not_le hid, hfound, hstatus⟩
      simp only [hstatus, if_true, Prog.run_pure]

end CancelOrder

/-- Cancelling moves the items of the order back into the inventory, once. -/
theorem cancelOrder_conserved {base : Int32 → ℤ} {s : LocalStore} (h : Conserved base s)
    (hfits : ∀ book, base book ≤ intMax) (orderId : Int32) :
    Conserved base ((LocalStore.orderService.cancelOrder orderId).run s).2 := by
  by_cases hlive : ∃ found, 0 < orderId.toInt ∧ s.orders.findOrder orderId = some found ∧
      found.status ≠ "cancelled"
  · obtain ⟨found, hid, hfound, hstatus⟩ := hlive
    have hmarked := held_markCancelled s.orders.orders orderId found hfound hstatus
    have hpos := h.positive found (List.mem_of_find?_eq_some hfound)
    have hheld : ∀ book, 0 ≤ held book (MemoryOrders.markCancelled orderId s.orders.orders) :=
      fun book => held_nonneg book _ (positive_markCancelled orderId _ h.positive)
    have hstock := available_releaseEach (found.items.map OrderItem.toMutation) s.inventory
      (by
        intro item hitem
        obtain ⟨i, hi, rfl⟩ := List.mem_map.mp hitem
        exact hpos i hi)
      h.nonneg
      (by
        intro book
        have hbalance := h.balance book
        have hbase := hfits book
        have hrest := hheld book
        rw [(hmarked book).1] at hrest
        rw [requested_toMutation]
        omega)
    rw [cancelOrder_live hid hfound hstatus]
    refine ⟨?_, ?_, positive_markCancelled orderId _ h.positive⟩
    · intro book
      have hbook := h.nonneg book
      have hitems := quantityOf_nonneg book found.items hpos
      rw [hstock book, requested_toMutation]
      omega
    · intro book
      have hbalance := h.balance book
      simp only [hstock book, requested_toMutation, (hmarked book).1]
      omega
  · rw [cancelOrder_other hlive]
    exact h

/-- An accepted inbound raises one book by its quantity. -/
theorem addStock_conserved {base : Int32 → ℤ} {s : LocalStore} (h : Conserved base s)
    (bookId quantity : Int32)
    (hfits : ∀ book, base book + inbound s book (.addStock bookId quantity) ≤ intMax) :
    Conserved (fun book => base book + inbound s book (.addStock bookId quantity))
      (perform s (.addStock bookId quantity)) := by
  by_cases hargs : bookId ≤ 0 ∨ quantity ≤ 0
  · have hrun : (MemoryStock.service.addStock bookId quantity).run s.inventory =
        (none, s.inventory) := by
      simp [MemoryStock.service, inventoryService, hargs]
    have hzero : ∀ book, inbound s book (.addStock bookId quantity) = 0 := by
      intro book
      simp [inbound, hrun]
    simp only [hzero, Int.add_zero, perform, after, hrun]
    exact h
  · have hrun : (MemoryStock.service.addStock bookId quantity).run s.inventory =
        (some ((s.inventory.stock bookId).getD 0 + quantity),
          s.inventory.increase bookId quantity) := by
      simp [MemoryStock.service, inventoryService, hargs, MemoryInventory.repository,
        MemoryInventory.addStock, MemoryInventory.increase, MemoryInventory.put]
    have hin : ∀ book, inbound s book (.addStock bookId quantity) =
        if bookId = book then quantity.toInt else 0 := by
      intro book
      simp [inbound, hrun]
    have hq : 0 < quantity.toInt := toInt_pos_of_not_le (not_or.mp hargs).2
    have hroom : available s.inventory bookId + quantity.toInt ≤ intMax := by
      have hle := h.available_le bookId
      have hbase := hfits bookId
      rw [hin, if_pos rfl] at hbase
      omega
    have hstep := fun book => available_increase s.inventory bookId quantity book hq.le
      (h.nonneg bookId) hroom
    simp only [hin, perform, after, hrun]
    refine ⟨?_, ?_, h.positive⟩
    · intro book
      have hbook := h.nonneg book
      rw [hstep book]
      split <;> omega
    · intro book
      have hbalance := h.balance book
      simp only [hstep book]
      omega

theorem inbound_nonneg (s : LocalStore) (book : Int32) (call : Call) : 0 ≤ inbound s book call := by
  cases call with
  | createOrder userId requests => exact le_refl 0
  | cancelOrder orderId => exact le_refl 0
  | addStock bookId quantity =>
    simp only [inbound]
    by_cases hq : quantity ≤ 0
    · simp [MemoryStock.service, inventoryService, hq]
    · have hpos := toInt_pos_of_not_le hq
      split <;> omega

theorem acceptedInbound_nonneg (calls : List Call) (s : LocalStore) (book : Int32) :
    0 ≤ acceptedInbound s book calls := by
  induction calls generalizing s with
  | nil => exact le_refl 0
  | cons call rest ih =>
    have hcall := inbound_nonneg s book call
    have hrest := ih (perform s call)
    simp only [acceptedInbound]
    omega

theorem perform_conserved {base : Int32 → ℤ} {s : LocalStore} (h : Conserved base s) (call : Call)
    (hfits : ∀ book, base book + inbound s book call ≤ intMax) :
    Conserved (fun book => base book + inbound s book call) (perform s call) := by
  cases call with
  | createOrder userId requests =>
    simp only [inbound, Int.add_zero] at hfits ⊢
    rcases LocalStore.orderService.createOrder_cases orderService_readOnly userId requests s with
      hnone | ⟨items, total, huser, hne, _, _, hpriced, hrun⟩
    · simp only [perform, hnone]
      exact h
    · simp only [perform, hrun]
      exact placeOrder_conserved h userId requests items total huser hne hpriced
  | cancelOrder orderId =>
    simp only [inbound, Int.add_zero] at hfits ⊢
    exact cancelOrder_conserved h hfits orderId
  | addStock bookId quantity => exact addStock_conserved h bookId quantity hfits

/-- A run keeps the invariant, the base growing by the inbound it accepts. -/
theorem performAll_conserved (calls : List Call) {base : Int32 → ℤ} {s : LocalStore}
    (h : Conserved base s)
    (hfits : ∀ book, base book + acceptedInbound s book calls ≤ intMax) :
    Conserved (fun book => base book + acceptedInbound s book calls) (performAll s calls) := by
  induction calls generalizing base s with
  | nil =>
    simp only [acceptedInbound, Int.add_zero]
    exact h
  | cons call rest ih =>
    have hstep := perform_conserved h call fun book => by
      have hbook := hfits book
      have hrest := acceptedInbound_nonneg rest (perform s call) book
      simp only [acceptedInbound] at hbook
      omega
    have hrun := ih hstep fun book => by
      have hbook := hfits book
      simp only [acceptedInbound] at hbook
      omega
    simpa only [performAll, acceptedInbound, Int.add_assoc] using hrun

/-- The stores before the first call: any catalogue, any stock, no orders. -/
def LocalStore.initial (books : List Book) (stock : Int32 → Option Int32) : LocalStore :=
  ⟨⟨books⟩, ⟨stock⟩, MemoryOrders.empty, 1⟩

/-- Through any sequence of calls no book goes negative, and its stock plus the
copies in live orders is the initial stock plus the accepted inbound. -/
theorem stock_conserved (books : List Book) (stock : Int32 → Option Int32) (calls : List Call)
    (hstock : ∀ book value, stock book = some value → 0 ≤ value.toInt)
    (hfits : ∀ book, ((stock book).getD 0).toInt +
      acceptedInbound (LocalStore.initial books stock) book calls ≤ intMax) (book : Int32) :
    0 ≤ available (performAll (LocalStore.initial books stock) calls).inventory book ∧
    available (performAll (LocalStore.initial books stock) calls).inventory book +
        held book (performAll (LocalStore.initial books stock) calls).orders.orders =
      ((stock book).getD 0).toInt +
        acceptedInbound (LocalStore.initial books stock) book calls := by
  have hinitial : Conserved (fun b => ((stock b).getD 0).toInt)
      (LocalStore.initial books stock) := by
    refine ⟨?_, ?_, ?_⟩
    · intro b
      unfold available LocalStore.initial
      cases hentry : stock b with
      | none => simp [hentry]
      | some value => simpa [hentry] using hstock b value hentry
    · intro b
      simp [available, LocalStore.initial, MemoryOrders.empty, held]
    · simp [PositiveItems, LocalStore.initial, MemoryOrders.empty]
  have hrun := performAll_conserved calls hinitial hfits
  exact ⟨hrun.nonneg book, hrun.balance book⟩

/-- Two copies of one book in one order, a refused order, an inbound, and the
same order cancelled twice. -/
theorem stock_conserved_run :
    let stock : Int32 → Option Int32 := fun book => if book = 1 then some 5 else none
    let books : List Book := [⟨1, "C++ Primer", "Stanley Lippman", 9800, 5, "active"⟩]
    let calls : List Call := [.createOrder 1 [⟨1, 1⟩, ⟨1, 1⟩], .createOrder 1 [⟨1, 1⟩, ⟨1, 3⟩],
      .addStock 1 4, .cancelOrder 1, .cancelOrder 1]
    available (performAll (LocalStore.initial books stock) calls).inventory 1 = 9 ∧
    available (performAll (LocalStore.initial books stock) calls).inventory 1 +
        held 1 (performAll (LocalStore.initial books stock) calls).orders.orders =
      ((stock 1).getD 0).toInt + acceptedInbound (LocalStore.initial books stock) 1 calls := by
  intro stock books calls
  refine ⟨by decide, (stock_conserved books stock calls ?_ ?_ 1).2⟩
  · intro book value h
    by_cases hb : book = 1
    · have hv : value = 5 := by simpa [stock, hb] using h.symm
      rw [hv]
      decide
    · simp [stock, hb] at h
  · intro book
    by_cases hb : book = 1
    · rw [hb]
      decide
    · have hzero : acceptedInbound (LocalStore.initial books stock) book calls = 0 := by
        simp [acceptedInbound, inbound, calls, Ne.symm hb]
      rw [hzero]
      simp [stock, hb, intMax]

end Bookstore.LocalConservation
