import Bookstore.CatalogueStock

/-!
The stock of a book in the memory repositories. Only the book repository hears
of new books and of new stocks, and only the inventory hears of what comes in,
is ordered and is cancelled, so every such request takes the two apart.
-/
namespace Bookstore.CatalogueDrift

open BatchAgreement Books CatalogueStock Interleaving LocalConservation LocalReservations
open MachineInt MemoryStock Records Repositories Runs Services

/-- The default dependencies of the gateway. -/
def memoryDependencies : Dependencies LocalStore where
  bookClient := localBookClient (memoryBookRepository.lift LocalStore.booksLens)
  inventoryClient :=
    (localInventoryClient MemoryInventory.repository).lift LocalStore.inventoryLens
  orderService := LocalStore.orderService

theorem memory_agrees_iff (s : LocalStore) :
    memoryDependencies.Agrees s ↔
      ∀ bookId, (s.books.findBook bookId).map Book.stock = s.inventory.stock bookId :=
  memoryDependencies.agrees_iff s

/-! ## The catalogue -/

/-- create_book accepts the book. -/
def Accepted (book : Book) : Prop := ¬ Refused book ∧ (book.status = "" ∨ Listed book.status)

/-- The id that create_book would give has been given already. -/
def Exhausted (books : MemoryBooks) : Prop :=
  (books.findBook (MemoryBookRepository.nextBookId books.books)).isSome

/-- update_book accepts the fields. -/
def AcceptedUpdate (bookId : Int32) (update : BookUpdate) : Prop :=
  0 < bookId.toInt ∧ update.Sound ∧ ∀ status ∈ update.status, Listed status

section Catalogue

variable (s : LocalStore)

theorem perform_createBook {book : Book} (h : Accepted book) :
    ∃ new : Book, new.id = MemoryBookRepository.nextBookId s.books.books ∧
      memoryDependencies.perform s (.createBook book) =
        { s with books := ⟨s.books.books ++ [new]⟩ } := by
  obtain ⟨hrefused, hstatus⟩ := h
  change ∃ new : Book, _ ∧ ((Books.createBook _ book).run s).2 = _
  unfold Books.createBook
  rw [if_neg hrefused]
  by_cases hempty : book.status = ""
  · have hlisted : Listed "active" := .inl rfl
    have hagain : ¬ Refused { book with status := "active" } := hrefused
    refine ⟨{ book with
      id := MemoryBookRepository.nextBookId s.books.books
      status := "active" }, rfl, ?_⟩
    simp only [hempty, if_true, hlisted, BookRepository.lift, memoryBookRepository,
      Prog.run_lift, Prog.run_call, LocalStore.booksLens, MemoryBookRepository.createBook, hagain,
      if_false]
    rfl
  · have hlisted := hstatus.resolve_left hempty
    refine ⟨{ book with id := MemoryBookRepository.nextBookId s.books.books }, rfl, ?_⟩
    simp only [hempty, if_false, hlisted, if_true, BookRepository.lift, memoryBookRepository,
      Prog.run_lift, Prog.run_call, LocalStore.booksLens, MemoryBookRepository.createBook, hrefused]

theorem perform_createBook_refused {book : Book} (h : ¬ Accepted book) :
    memoryDependencies.perform s (.createBook book) = s := by
  change ((Books.createBook _ book).run s).2 = s
  unfold Books.createBook
  split
  · rfl
  · rename_i hrefused
    have hstatus : ¬ (book.status = "" ∨ Listed book.status) := fun hstatus =>
      h ⟨hrefused, hstatus⟩
    rw [not_or] at hstatus
    simp only [hstatus.1, if_false, hstatus.2, Prog.run_pure]

theorem find_updateFirst (bookId : Int32) (update : BookUpdate) (books : List Book)
    (key : Int32) :
    (MemoryBookRepository.updateFirst bookId update books).find? (fun book => book.id = key) =
      (books.find? fun book => book.id = key).map
        fun book => if key = bookId then update.apply book else book := by
  induction books with
  | nil => rfl
  | cons book rest ih =>
    by_cases hbook : book.id = bookId
    · have hid : (update.apply book).id = bookId := hbook
      rw [MemoryBookRepository.updateFirst, if_pos hbook]
      by_cases hkey : bookId = key
      · simp [hid, hbook, hkey]
      · simp [hid, hbook, hkey, Ne.symm hkey]
    · rw [MemoryBookRepository.updateFirst, if_neg hbook]
      by_cases hkey : book.id = key
      · have hother : key ≠ bookId := fun heq => hbook (hkey.trans heq)
        simp [hkey, hother]
      · simp only [List.find?_cons, hkey, decide_false, ih]

theorem perform_updateBook {bookId : Int32} {update : BookUpdate}
    (h : AcceptedUpdate bookId update) :
    ∃ books : MemoryBooks, memoryDependencies.perform s (.updateBook bookId update) =
        { s with books := books } ∧
      ∀ key, books.findBook key = (s.books.findBook key).map
        fun book => if key = bookId then update.apply book else book := by
  obtain ⟨hpos, hsound, hlisted⟩ := h
  have hid : ¬ bookId ≤ 0 := by
    rw [Int32.le_iff_toInt_le, Int32.toInt_zero]
    omega
  have hperform : memoryDependencies.perform s (.updateBook bookId update) =
      { s with books := (MemoryBookRepository.updateBook bookId update s.books).2 } := by
    change ((Books.updateBook _ bookId update).run s).2 = _
    unfold Books.updateBook
    rw [if_neg hid, if_neg (not_not.mpr hsound), if_neg (not_not.mpr hlisted)]
    rfl
  refine ⟨_, hperform, fun key => ?_⟩
  unfold MemoryBookRepository.updateBook
  rw [if_neg hid]
  cases hfind : s.books.findBook bookId with
  | none =>
    by_cases hkey : key = bookId
    · rw [hkey, hfind]
      rfl
    · simp [hkey]
  | some book => exact find_updateFirst bookId update s.books.books key

theorem perform_updateBook_refused {bookId : Int32} {update : BookUpdate}
    (h : ¬ AcceptedUpdate bookId update) :
    memoryDependencies.perform s (.updateBook bookId update) = s := by
  change ((Books.updateBook _ bookId update).run s).2 = s
  unfold Books.updateBook
  split
  · rfl
  · rename_i hid
    split
    · rfl
    · rename_i hsound
      split
      · rfl
      · rename_i hlisted
        exact absurd ⟨toInt_pos_of_not_le hid, not_not.mp hsound, not_not.mp hlisted⟩ h

end Catalogue

/-! ## The inventory -/

section Inventory

/-- An accepted batch takes the sums, out of stock that covers them. -/
structure TakenOut (items : List InventoryMutation) (s s' : MemoryInventory) : Prop where
  taken : ∀ book, available s' book = available s book - requested book items
  nonneg : ∀ book, 0 ≤ available s book → 0 ≤ available s' book
  covered : ∀ item ∈ items, 0 < item.quantity.toInt ∧ 0 ≤ available s' item.bookId

theorem takenOut_of_lowered {items : List InventoryMutation} {s s' : MemoryInventory}
    (hgranted : Granted items s) (h : Lowered items s s') : TakenOut items s s' where
  taken := h.available hgranted
  nonneg book hbook := by
    have hle := hgranted.requested_le hbook
    rw [h.available hgranted]
    omega
  covered item hitem := by
    have hle := hgranted.covered item hitem
    refine ⟨hgranted.positive item hitem, ?_⟩
    rw [h.available hgranted]
    omega

/-- What is given back is added up in the ints of the map. -/
theorem releaseEach_stock (items : List InventoryMutation) (s : MemoryInventory)
    (hpos : ∀ item ∈ items, 0 < item.quantity.toInt) (book : Int32) :
    ((after (releaseEach service items) s).stock book).getD 0 =
      (s.stock book).getD 0 + Int32.ofInt (requested book items) := by
  induction items generalizing s with
  | nil => simp [after, releaseEach]
  | cons item rest ih =>
    have hrest := ih (s.increase item.bookId item.quantity) fun i hi => hpos i (by simp [hi])
    simp only [after, releaseEach, Prog.run_bind, run_releaseStock,
      releaseStock_eq s (hpos item (by simp))] at hrest ⊢
    rw [hrest, requested_cons, Int32.ofInt_add]
    by_cases hbook : item.bookId = book
    · simp [MemoryInventory.increase, MemoryInventory.put, hbook, Int32.add_assoc]
    · simp [MemoryInventory.increase, MemoryInventory.put, hbook, Ne.symm hbook]

end Inventory

/-! ## Orders -/

/-- An order as create_order stores it. -/
structure Sold (order : Order) : Prop where
  nonempty : order.items ≠ []
  positive : ∀ item ∈ order.items, 0 < item.quantity.toInt
  fits : ∀ book, quantityOf book order.items ≤ intMax

/-- All orders came from create_order. -/
def Sound (s : LocalStore) : Prop := ∀ order ∈ s.orders.orders, Sold order

/-- create_order accepts the requests: it finds every book, and in stock all the
copies of it that are asked for. -/
def Orderable (s : LocalStore) (userId : Int32) (requests : List OrderItemRequest) : Prop :=
  0 < userId.toInt ∧ requests ≠ [] ∧ ∀ request ∈ requests,
    0 < request.quantity.toInt ∧ (s.books.findBook request.bookId).isSome ∧
      requested request.bookId (requests.map OrderItemRequest.toMutation) ≤
        available s.inventory request.bookId

/-- The order exists and is not cancelled. -/
def Live (s : LocalStore) (orderId : Int32) : Prop :=
  ∃ found, 0 < orderId.toInt ∧ s.orders.findOrder orderId = some found ∧ found.status ≠ "cancelled"

section Orders

variable {s : LocalStore} {userId : Int32} {requests : List OrderItemRequest}

theorem orderable_iff : Orderable s userId requests ↔
    LocalStore.orderService.Priceable userId requests s ∧
      Granted (requests.map OrderItemRequest.toMutation) s.inventory := by
  rw [granted_iff_available]
  constructor
  · rintro ⟨huser, hne, hall⟩
    refine ⟨⟨huser, hne, fun request hmem => ⟨(hall request hmem).1, (hall request hmem).2.1⟩⟩, ?_⟩
    intro item hitem
    obtain ⟨request, hmem, rfl⟩ := List.mem_map.mp hitem
    exact ⟨(hall request hmem).1, (hall request hmem).2.2⟩
  · rintro ⟨⟨huser, hne, hall⟩, hcovered⟩
    refine ⟨huser, hne, fun request hmem => ⟨(hall request hmem).1, (hall request hmem).2, ?_⟩⟩
    exact (hcovered _ (List.mem_map_of_mem hmem)).2

/-- An order that is refused leaves both stores as they are. -/
theorem perform_createOrder_refused (h : ¬ Orderable s userId requests) :
    ∃ n, memoryDependencies.perform s (.createOrder userId requests) =
      { s with nextReservation := n } := by
  rw [orderable_iff, not_and] at h
  by_cases hpriceable : LocalStore.orderService.Priceable userId requests s
  · have hrefused := run_of_not_granted (h hpriceable)
    obtain ⟨items, total, _, hrun⟩ :=
      LocalStore.orderService.createOrder_placed orderService_readOnly hpriceable
    refine ⟨s.nextReservation + 1, ?_⟩
    change ((LocalStore.orderService.createOrder userId requests).run s).2 = _
    rw [hrun, placeOrder_refused userId requests items total (congrArg Prod.fst hrefused), after,
      hrefused]
  · refine ⟨s.nextReservation, ?_⟩
    change ((LocalStore.orderService.createOrder userId requests).run s).2 = _
    rw [LocalStore.orderService.createOrder_refused orderService_readOnly hpriceable]

/-- An order that is accepted is stored, and taken out of the inventory. -/
theorem perform_createOrder (h : Orderable s userId requests) :
    ∃ n key order inventory, Sold order ∧
      TakenOut (requests.map OrderItemRequest.toMutation) s.inventory inventory ∧
      memoryDependencies.perform s (.createOrder userId requests) =
        ⟨s.books, inventory, ⟨key, s.orders.orders ++ [order]⟩, n⟩ := by
  obtain ⟨hpriceable, hgranted⟩ := orderable_iff.mp h
  obtain ⟨inventory, haccepted, hlowered⟩ := hgranted.run
  have htaken := takenOut_of_lowered hgranted hlowered
  obtain ⟨items, total, hitems, hrun⟩ :=
    LocalStore.orderService.createOrder_placed orderService_readOnly hpriceable
  obtain ⟨_, hresult⟩ :=
    LocalStore.orderService.priceItems_spec orderService_readOnly requests [] 0 s
  obtain ⟨_, new, hnew, hpriced⟩ := hresult items total hitems
  rw [List.nil_append] at hnew
  subst hnew
  have hne := hpriced.nonempty hpriceable.2.1
  have hsold : Sold ⟨s.orders.nextOrderId, userId, items, total, "created"⟩ := by
    refine ⟨hne, hpriced.positive, fun book => ?_⟩
    change quantityOf book items ≤ intMax
    rw [hpriced.same book]
    by_cases hzero : requested book (requests.map OrderItemRequest.toMutation) = 0
    · rw [hzero]
      decide
    · obtain ⟨item, hitem, hbook⟩ := Tally.exists_mem_of_tally_ne_zero _ _ _ _ hzero
      have hleft := (htaken.covered item hitem).2
      rw [htaken.taken item.bookId, hbook] at hleft
      have hmost := toInt_le_intMax ((s.inventory.stock book).getD 0)
      unfold available at hleft
      omega
  refine ⟨s.nextReservation + 1, s.orders.nextOrderId + 1, _, inventory, hsold, htaken, ?_⟩
  change ((LocalStore.orderService.createOrder userId requests).run s).2 = _
  rw [hrun, placeOrder_accepted userId requests items total hpriceable.1 hne
    (congrArg Prod.fst haccepted), after, haccepted]

end Orders

/-! ## Requests that change neither store -/

/-- The requests that leave the catalogue and the inventory in agreement: those
that are refused, and updates that leave the stock as it is. -/
def Harmless (s : LocalStore) : Request → Prop
  | .createBook book => ¬ Accepted book ∨ Exhausted s.books
  | .updateBook bookId update => AcceptedUpdate bookId update →
      ∀ book, s.books.findBook bookId = some book → ∀ stock ∈ update.stock, stock = book.stock
  | .inbound bookId quantity => bookId ≤ 0 ∨ quantity ≤ 0
  | .createOrder userId requests => ¬ Orderable s userId requests
  | .cancelOrder orderId => ¬ Live s orderId

section Steps

variable {s : LocalStore} (h : memoryDependencies.Agrees s)

include h

theorem createBook_iff (book : Book) :
    memoryDependencies.Agrees (memoryDependencies.perform s (.createBook book)) ↔
      Harmless s (.createBook book) := by
  by_cases haccepted : Accepted book
  · obtain ⟨new, hid, hperform⟩ := perform_createBook s haccepted
    have hfind : ∀ key, MemoryBooks.findBook ⟨s.books.books ++ [new]⟩ key =
        (s.books.findBook key).or (if new.id = key then some new else none) := by
      intro key
      unfold MemoryBooks.findBook
      rw [List.find?_append]
      by_cases hkey : new.id = key
      · simp [hkey]
      · simp [hkey]
    rw [hperform, memory_agrees_iff]
    constructor
    · intro hafter
      refine .inr ?_
      by_contra hnone
      rw [Exhausted, Option.not_isSome_iff_eq_none, ← hid] at hnone
      have hbefore := (memory_agrees_iff s).mp h new.id
      have hnew := hafter new.id
      rw [hfind, hnone, Option.none_or, if_pos rfl] at hnew
      rw [hnone, Option.map_none] at hbefore
      rw [← hbefore] at hnew
      cases hnew
    · intro hharmless key
      have hknown := hharmless.resolve_left (not_not.mpr haccepted)
      obtain ⟨old, hold⟩ := Option.isSome_iff_exists.mp hknown
      have hbefore := (memory_agrees_iff s).mp h key
      rw [hfind]
      by_cases hkey : new.id = key
      · rw [← hid, hkey] at hold
        rw [← hbefore, hold]
        rfl
      · rw [if_neg hkey, Option.or_none]
        exact hbefore
  · rw [perform_createBook_refused s haccepted]
    exact ⟨fun _ => .inl haccepted, fun _ => h⟩

theorem updateBook_iff (bookId : Int32) (update : BookUpdate) :
    memoryDependencies.Agrees (memoryDependencies.perform s (.updateBook bookId update)) ↔
      Harmless s (.updateBook bookId update) := by
  have hbefore := (memory_agrees_iff s).mp h
  by_cases haccepted : AcceptedUpdate bookId update
  · obtain ⟨books, hperform, hfind⟩ := perform_updateBook s haccepted
    rw [hperform, memory_agrees_iff]
    constructor
    · intro hafter _ book hbook stock hstock
      have hnew := hafter bookId
      rw [hfind, hbook, Option.map_some, if_pos rfl, Option.map_some, ← hbefore bookId, hbook,
        Option.map_some] at hnew
      have hstock' : (update.apply book).stock = stock := by
        rw [BookUpdate.apply, hstock, Option.getD_some]
      rw [← hstock']
      exact Option.some.inj hnew
    · intro hharmless key
      rw [hfind, ← hbefore key]
      cases hbook : s.books.findBook key with
      | none => rfl
      | some book =>
        simp only [Option.map_some, Option.some.injEq]
        split
        · rename_i hkey
          rw [hkey] at hbook
          cases hstock : update.stock with
          | none => simp [BookUpdate.apply, hstock]
          | some stock =>
            have hsame := hharmless haccepted book hbook stock hstock
            simp [BookUpdate.apply, hstock, hsame]
        · rfl
  · rw [perform_updateBook_refused s haccepted]
    exact ⟨fun _ hagain => absurd hagain haccepted, fun _ => h⟩

/-- While the catalogue stays the same the inventory has to. -/
theorem agrees_inventory_iff (inventory : MemoryInventory) (orders : MemoryOrders) (n : ℕ) :
    memoryDependencies.Agrees ⟨s.books, inventory, orders, n⟩ ↔
      ∀ book, inventory.stock book = s.inventory.stock book := by
  rw [memory_agrees_iff]
  apply forall_congr'
  intro book
  rw [← (memory_agrees_iff s).mp h book]
  exact eq_comm

theorem inbound_iff (bookId quantity : Int32) :
    memoryDependencies.Agrees (memoryDependencies.perform s (.inbound bookId quantity)) ↔
      Harmless s (.inbound bookId quantity) := by
  by_cases hargs : bookId ≤ 0 ∨ quantity ≤ 0
  · have hperform : memoryDependencies.perform s (.inbound bookId quantity) = s := by
      change ((((service.addStock bookId quantity).lift LocalStore.inventoryLens)).run s).2 = s
      rw [Prog.run_lift]
      simp [inventoryService, hargs]
    rw [hperform]
    exact ⟨fun _ => hargs, fun _ => h⟩
  · have hperform : memoryDependencies.perform s (.inbound bookId quantity) =
        { s with inventory := s.inventory.increase bookId quantity } := by
      change ((((service.addStock bookId quantity).lift LocalStore.inventoryLens)).run s).2 = _
      rw [Prog.run_lift]
      simp [inventoryService, hargs, MemoryInventory.repository, MemoryInventory.addStock,
        LocalStore.inventoryLens]
    rw [hperform, agrees_inventory_iff h]
    refine ⟨fun hsame => ?_, fun hharmless => absurd hharmless hargs⟩
    have hbook := hsame bookId
    have hzero : quantity = 0 := by
      simp only [MemoryInventory.increase, MemoryInventory.put, if_true] at hbook
      cases hentry : s.inventory.stock bookId with
      | none =>
        rw [hentry] at hbook
        cases hbook
      | some value =>
        rw [hentry, Option.getD_some, Option.some.injEq] at hbook
        exact Int32.add_eq_left.mp hbook
    rw [hzero] at hargs
    exact absurd (.inr (Int32.le_refl 0)) hargs

theorem createOrder_iff (userId : Int32) (requests : List OrderItemRequest) :
    memoryDependencies.Agrees (memoryDependencies.perform s (.createOrder userId requests)) ↔
      Harmless s (.createOrder userId requests) := by
  by_cases horderable : Orderable s userId requests
  · obtain ⟨n, key, order, inventory, _, htaken, hperform⟩ := perform_createOrder horderable
    rw [hperform, agrees_inventory_iff h]
    refine ⟨fun hsame => ?_, fun hharmless => absurd horderable hharmless⟩
    obtain ⟨request, hrequest⟩ := List.exists_mem_of_ne_nil requests horderable.2.1
    have hitem := List.mem_map_of_mem (f := OrderItemRequest.toMutation) hrequest
    have hpos := fun i hi => (htaken.covered i hi).1.le
    have hmost := Tally.weight_le_tally InventoryMutation.bookId
      (fun item => item.quantity.toInt) _ hpos hitem
    have hfirst := (htaken.covered _ hitem).1
    have hleft := htaken.taken request.toMutation.bookId
    have hstock := hsame request.toMutation.bookId
    unfold available requested at hleft
    rw [hstock] at hleft
    omega
  · obtain ⟨n, hperform⟩ := perform_createOrder_refused horderable
    rw [hperform, agrees_inventory_iff h]
    exact ⟨fun _ => horderable, fun _ _ => rfl⟩

theorem cancelOrder_iff (hsound : Sound s) (orderId : Int32) :
    memoryDependencies.Agrees (memoryDependencies.perform s (.cancelOrder orderId)) ↔
      Harmless s (.cancelOrder orderId) := by
  by_cases hlive : Live s orderId
  · obtain ⟨found, hpos, hfound, hstatus⟩ := hlive
    obtain ⟨hne, hquantities, hfits⟩ := hsound found (List.mem_of_find?_eq_some hfound)
    have hperform : memoryDependencies.perform s (.cancelOrder orderId) = _ :=
      cancelOrder_live hpos hfound hstatus
    rw [hperform, agrees_inventory_iff h]
    refine ⟨fun hsame => ?_, fun hharmless => absurd ⟨found, hpos, hfound, hstatus⟩ hharmless⟩
    obtain ⟨item, hitem⟩ := List.exists_mem_of_ne_nil found.items hne
    have hmost := Tally.weight_le_tally OrderItem.bookId (fun item => item.quantity.toInt) _
      (fun i hi => (hquantities i hi).le) hitem
    have hfirst := hquantities item hitem
    have hbook := hfits item.bookId
    have hback := releaseEach_stock (found.items.map OrderItem.toMutation) s.inventory
      (by
        intro i hi
        obtain ⟨j, hj, rfl⟩ := List.mem_map.mp hi
        exact hquantities j hj) item.bookId
    rw [hsame item.bookId, requested_toMutation] at hback
    have hzero := congrArg Int32.toInt (Int32.add_eq_left.mp hback.symm)
    unfold quantityOf at hbook hzero
    change toCInt _ = _ at hzero
    rw [toCInt_of_fits (by omega) hbook, Int32.toInt_zero] at hzero
    omega
  · have hperform : memoryDependencies.perform s (.cancelOrder orderId) = s :=
      cancelOrder_other hlive
    rw [hperform]
    exact ⟨fun _ => hlive, fun _ => h⟩

theorem agrees_perform_iff (hsound : Sound s) (request : Request) :
    memoryDependencies.Agrees (memoryDependencies.perform s request) ↔ Harmless s request := by
  cases request with
  | createBook book => exact createBook_iff h book
  | updateBook bookId update => exact updateBook_iff h bookId update
  | inbound bookId quantity => exact inbound_iff h bookId quantity
  | createOrder userId requests => exact createOrder_iff h userId requests
  | cancelOrder orderId => exact cancelOrder_iff h hsound orderId

end Steps

theorem sold_markCancelled {orders : List Order} (h : ∀ order ∈ orders, Sold order)
    (orderId : Int32) : ∀ order ∈ MemoryOrders.markCancelled orderId orders, Sold order := by
  induction orders with
  | nil => exact h
  | cons order rest ih =>
    obtain ⟨horder, hrest⟩ := List.forall_mem_cons.mp h
    unfold MemoryOrders.markCancelled
    split
    · exact List.forall_mem_cons.mpr ⟨⟨horder.nonempty, horder.positive, horder.fits⟩, hrest⟩
    · exact List.forall_mem_cons.mpr ⟨horder, ih hrest⟩

/-- Every request keeps the orders as create_order stores them. -/
theorem sound_perform {s : LocalStore} (h : Sound s) (request : Request) :
    Sound (memoryDependencies.perform s request) := by
  cases request with
  | createBook book =>
    by_cases haccepted : Accepted book
    · obtain ⟨new, _, hperform⟩ := perform_createBook s haccepted
      rw [hperform]
      exact h
    · rw [perform_createBook_refused s haccepted]
      exact h
  | updateBook bookId update =>
    by_cases haccepted : AcceptedUpdate bookId update
    · obtain ⟨books, hperform, _⟩ := perform_updateBook s haccepted
      rw [hperform]
      exact h
    · rw [perform_updateBook_refused s haccepted]
      exact h
  | inbound bookId quantity =>
    change Sound ((((service.addStock bookId quantity).lift LocalStore.inventoryLens)).run s).2
    rw [Prog.run_lift]
    exact h
  | createOrder userId requests =>
    by_cases horderable : Orderable s userId requests
    · obtain ⟨n, key, order, inventory, hsold, _, hperform⟩ := perform_createOrder horderable
      rw [hperform]
      intro o ho
      rcases List.mem_append.mp ho with ho | ho
      · exact h o ho
      · rw [List.mem_singleton.mp ho]
        exact hsold
    · obtain ⟨n, hperform⟩ := perform_createOrder_refused horderable
      rw [hperform]
      exact h
  | cancelOrder orderId =>
    by_cases hlive : Live s orderId
    · obtain ⟨found, hpos, hfound, hstatus⟩ := hlive
      have hperform : memoryDependencies.perform s (.cancelOrder orderId) = _ :=
        cancelOrder_live hpos hfound hstatus
      rw [hperform]
      exact sold_markCancelled h orderId
    · have hperform : memoryDependencies.perform s (.cancelOrder orderId) = s :=
        cancelOrder_other hlive
      rw [hperform]
      exact h

/-! ## Runs -/

/-- With MySQL the catalogue and the inventory agree after every run that starts
in agreement, whatever statements fail. In memory they agree all along a run
just when none of its requests does anything but leave both as they were. -/
theorem catalogue_agrees_iff (requests : List Request) :
    (∀ s : LocalCheckouts.MysqlStore, mysqlDependencies.Agrees (unfailing s) →
      mysqlDependencies.Agrees (unfailing (mysqlDependencies.performAll s requests))) ∧
    ∀ s : LocalStore, Sound s → memoryDependencies.Agrees s →
      (Always memoryDependencies.perform
          (fun t request => memoryDependencies.Agrees (memoryDependencies.perform t request))
          s requests ↔
        Always memoryDependencies.perform Harmless s requests) := by
  constructor
  · intro s h
    rw [agrees_unfailing_iff] at h ⊢
    exact foldl_keeps (fun t request ht => linked_perform t request ht) h requests
  · intro s hsound h
    refine always_iff (I := fun t => Sound t ∧ memoryDependencies.Agrees t)
      (R := fun _ _ => True) ?_ ?_ ⟨hsound, h⟩ requests (always_true s requests)
    · intro t request ht _
      exact agrees_perform_iff ht.2 ht.1 request
    · intro t request ht _ hagrees
      exact ⟨sound_perform ht.1 request, hagrees⟩

/-- The stores of default_dependencies. -/
def defaultStore : LocalStore where
  books := ⟨[⟨1, "C++ Primer", "Stanley Lippman", 9800, 12, "active"⟩,
    ⟨2, "Unix Network Programming", "W. Richard Stevens", 12800, 4, "active"⟩]⟩
  inventory := ⟨fun book => if book = 1 then some 12 else if book = 2 then some 4 else none⟩
  orders := .empty
  nextReservation := 1

theorem defaultStore_agrees : memoryDependencies.Agrees defaultStore := by
  rw [memory_agrees_iff]
  intro bookId
  by_cases h1 : bookId = 1
  · subst h1
    rfl
  · by_cases h2 : bookId = 2
    · subst h2
      rfl
    · simp [defaultStore, MemoryBooks.findBook, h1, h2, Ne.symm h1, Ne.symm h2]

theorem defaultStore_sound : Sound defaultStore := by
  intro order horder
  cases horder

/-- A run with MySQL that changes the stock in four ways, and one in memory that
is refused an order and retitles a book. -/
theorem catalogue_agrees_runs :
    mysqlDependencies.Agrees (unfailing (mysqlDependencies.performAll
      (OrderTotals.oneBookTables 9800 5)
      [.createBook ⟨0, "Clean Architecture", "Robert Martin", 7600, 6, "active"⟩, .inbound 1 3,
        .createOrder 1 [⟨1, 2⟩], .cancelOrder 1])) ∧
    Always memoryDependencies.perform
      (fun t request => memoryDependencies.Agrees (memoryDependencies.perform t request))
      defaultStore
      [.createOrder 1 [⟨1, 13⟩],
        .updateBook 1 ⟨some "C++ Primer Plus", none, none, some 12, none⟩] := by
  constructor
  · apply (catalogue_agrees_iff _).1
    rw [agrees_unfailing_iff]
    intro bookId _
    by_cases hid : bookId.toInt = 1
    · simp [OrderTotals.oneBookTables, hid]
    · simp [OrderTotals.oneBookTables, hid]
  · rw [(catalogue_agrees_iff _).2 defaultStore defaultStore_sound defaultStore_agrees]
    refine ⟨?_, ?_, trivial⟩
    · rintro ⟨_, _, hall⟩
      have hcovered := (hall ⟨1, 13⟩ (by simp)).2.2
      revert hcovered
      decide
    · intro _ book hbook stock hstock
      obtain rfl := Option.some.inj hstock
      have hfound : (memoryDependencies.perform defaultStore
          (.createOrder 1 [⟨1, 13⟩])).books.findBook 1 =
          some ⟨1, "C++ Primer", "Stanley Lippman", 9800, 12, "active"⟩ := by
        decide
      rw [hfound] at hbook
      rw [← Option.some.inj hbook]

/-- The default stores agree; a new book is in the catalogue only. -/
theorem create_book_drifts :
    Sound defaultStore ∧ memoryDependencies.Agrees defaultStore ∧
      ¬ memoryDependencies.Agrees (memoryDependencies.perform defaultStore
        (.createBook ⟨0, "Clean Architecture", "Robert Martin", 7600, 6, "active"⟩)) := by
  refine ⟨defaultStore_sound, defaultStore_agrees, fun h => ?_⟩
  have hknown := h.known 3
  revert hknown
  decide

end Bookstore.CatalogueDrift
